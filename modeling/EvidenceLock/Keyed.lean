/-
  Values under keys, in the order in which the keys first came. Writing under a
  key that is present changes its value and not its place.
-/

namespace EvidenceLock

/-- Pairs of a key and a value, in order of first insertion. -/
abbrev Keyed (κ α : Type) := List (κ × α)

namespace Keyed

variable {κ α : Type} [BEq κ]

/-- The value under a key. -/
def find? (m : Keyed κ α) (k : κ) : Option α := List.lookup k m

/-- A value is stored under the key. -/
def has (m : Keyed κ α) (k : κ) : Bool := (find? m k).isSome

/-- The keys in order of first insertion. -/
def keys (m : Keyed κ α) : List κ := m.map Prod.fst

/-- Replaces the value under `k` by `f` of it, starting from `f none` at the end for a new key. -/
def alter (m : Keyed κ α) (k : κ) (f : Option α → α) : Keyed κ α :=
  match m with
  | [] => [(k, f none)]
  | (l, v) :: rest => if k == l then (l, f (some v)) :: rest else (l, v) :: alter rest k f

/-- Writes a value under a key. -/
def insert (m : Keyed κ α) (k : κ) (v : α) : Keyed κ α := alter m k fun _ => v

/-- Writes every pair of `other`, in order. -/
def merge (m other : Keyed κ α) : Keyed κ α := other.foldl (fun m e => insert m e.1 e.2) m

/-- Without the value under a key. -/
def erase (m : Keyed κ α) (k : κ) : Keyed κ α := m.filter fun e => !(k == e.1)

/-- Adds a value at the end of the list under a key. -/
def push (m : Keyed κ (List α)) (k : κ) (v : α) : Keyed κ (List α) :=
  alter m k fun vs => (vs.getD []) ++ [v]

variable [LawfulBEq κ]

omit [LawfulBEq κ] in
@[simp] theorem find?_nil (k : κ) : find? ([] : Keyed κ α) k = none := rfl

theorem find?_cons (l : κ) (v : α) (m : Keyed κ α) (k : κ) :
    find? ((l, v) :: m) k = if k == l then some v else find? m k := by
  simp only [find?, List.lookup_cons]
  split <;> simp_all

theorem find?_alter (m : Keyed κ α) (k : κ) (f : Option α → α) (j : κ) :
    find? (alter m k f) j = if j == k then some (f (find? m k)) else find? m j := by
  induction m with
  | nil => simp [alter, find?_cons]
  | cons e m ih =>
    obtain ⟨l, v⟩ := e
    by_cases h : k == l
    · have hkl : k = l := eq_of_beq h
      subst hkl
      by_cases hj : j == k <;> simp [alter, find?_cons, hj]
    · have hkl : (k == l) = false := by simpa using h
      by_cases hj : j == l
      · have hjl : j = l := eq_of_beq hj
        subst hjl
        have : (j == k) = false := by
          cases hjk : j == k
          · rfl
          · exact absurd (by simpa using (eq_of_beq hjk).symm) h
        simp [alter, hkl, find?_cons, this]
      · simp [alter, hkl, find?_cons, hj, ih]

theorem find?_insert (m : Keyed κ α) (k : κ) (v : α) (j : κ) :
    find? (insert m k v) j = if j == k then some v else find? m j := by
  simp [insert, find?_alter]

end Keyed

end EvidenceLock
