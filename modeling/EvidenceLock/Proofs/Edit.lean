import EvidenceLock.Patch.Basic
import Mathlib.Data.List.Basic

/-!
# Edits of a list of lines

An edit says line by line what is done to a text: the next line is kept or dropped, or a line is
put before it. `Edit.andThen` makes one edit of two that follow each other, so that the lines which
the second one drops are named by their numbers in the oldest text.

An edit is `Within` a set of line numbers when it drops only such lines and puts lines only beside
them. `Traced` says the same of the second of two edits with the numbers that the lines had before
the first: it is what an edit has to satisfy for both together to stay within
(`within_andThen`). `Locked` is the same promise as a relation of the two texts alone, and
`Locked.outside_sublist` is what it is good for: all other lines survive in their order.
-/

namespace EvidenceLock

/-- One step through the lines of a text. -/
inductive EditStep where
  | keep
  | drop
  | put (text : String)
  deriving DecidableEq, Repr

/-- Steps through the lines of a text; the lines after the last step stay. -/
abbrev Edit := List EditStep

namespace Edit

def apply : Edit → List String → List String
  | [], ls => ls
  | .put t :: e, ls => t :: apply e ls
  | .keep :: e, l :: ls => l :: apply e ls
  | .drop :: e, _ :: ls => apply e ls
  | _ :: e, [] => apply e []

/-- The number of lines that an edit steps over. -/
def reach : Edit → Nat
  | [] => 0
  | .put _ :: e => reach e
  | _ :: e => reach e + 1

/-- Two edits that follow each other as one. Lines put by the second come before lines dropped by
the first. -/
def andThen : Edit → Edit → Edit
  | e, [] => e
  | e, .put t :: s => .put t :: andThen e s
  | [], s => s
  | .drop :: e, s => .drop :: andThen e s
  | .keep :: e, step :: s => step :: andThen e s
  | .put t :: e, .keep :: s => .put t :: andThen e s
  -- A line that the first puts and the second drops never appears.
  | .put _ :: e, _ :: s => andThen e s
  termination_by e s => e.length + s.length

def total (es : List Edit) : Edit := es.foldl andThen []

variable (inside : Int → Prop)

/-- From line `n` on, only lines with a number inside are dropped, and lines are put only beside
lines with a number inside. -/
def Within : Int → Edit → Prop
  | _, [] => True
  | n, .keep :: e => Within (n + 1) e
  | n, .drop :: e => inside n ∧ Within (n + 1) e
  | n, .put _ :: e => (inside (n - 1) ∨ inside n) ∧ Within n e

/-- The second of two edits stays within, by the numbers before the first: a line that it drops was
put by the first or had a number inside, and a line that it puts comes beside one that had. -/
def Traced : Int → Edit → Edit → Prop
  | _, _, [] => True
  | n, e, .put _ :: s => (inside (n - 1) ∨ inside n) ∧ Traced n e s
  | n, [], .keep :: s => Traced (n + 1) [] s
  | n, [], .drop :: s => inside n ∧ Traced (n + 1) [] s
  | n, .drop :: e, s => Traced (n + 1) e s
  | n, .keep :: e, .keep :: s => Traced (n + 1) e s
  | n, .keep :: e, .drop :: s => inside n ∧ Traced (n + 1) e s
  | n, .put _ :: e, _ :: s => Traced n e s
  termination_by _ e s => e.length + s.length

/-- Every edit of a list stays within, by the numbers before the first of them; `done` is what was
done before. -/
def AllTraced (done : Edit) : List Edit → Prop
  | [] => True
  | e :: es => Traced inside 1 done e ∧ AllTraced (done.andThen e) es

end Edit

/-- The new lines are the old ones, from line `n` on, except for dropped lines with a number inside
and for new lines beside such lines. -/
inductive Locked (inside : Int → Prop) : (n : Int) → (old new : List String) → Prop
  | done {n : Int} : Locked inside n [] []
  | keep {n : Int} {old new : List String} (l : String) (h : Locked inside (n + 1) old new) :
    Locked inside n (l :: old) (l :: new)
  | drop {n : Int} {old new : List String} (l : String) (hn : inside n)
    (h : Locked inside (n + 1) old new) : Locked inside n (l :: old) new
  | put {n : Int} {old new : List String} (l : String) (hn : inside (n - 1) ∨ inside n)
    (h : Locked inside n old new) : Locked inside n old (l :: new)

/-- The lines whose numbers are not inside, from line `n` on. -/
def outsideLines (inside : Int → Prop) [DecidablePred inside] :
    (n : Int) → List String → List String
  | _, [] => []
  | n, l :: ls =>
    if inside n then outsideLines inside (n + 1) ls else l :: outsideLines inside (n + 1) ls

/-- **What a lock is good for**: the lines outside survive in their order. -/
theorem Locked.outside_sublist {inside : Int → Prop} [DecidablePred inside] {n : Int}
    {old new : List String} (h : Locked inside n old new) :
    (outsideLines inside n old).Sublist new := by
  induction h with
  | done => exact List.Sublist.slnil
  | keep l _ ih =>
    rw [outsideLines]
    split
    · exact ih.cons l
    · exact ih.cons_cons l
  | drop l hn _ ih =>
    rw [outsideLines, if_pos hn]
    exact ih
  | put l _ _ ih => exact ih.cons l

namespace Edit

variable {inside : Int → Prop}

/-! ## Applying edits -/

@[simp] theorem apply_nil (ls : List String) : apply [] ls = ls := by
  cases ls <;> rfl

@[simp] theorem apply_put (t : String) (e : Edit) (ls : List String) :
    apply (.put t :: e) ls = t :: apply e ls := by
  cases ls <;> rfl

@[simp] theorem apply_keep (e : Edit) (l : String) (ls : List String) :
    apply (.keep :: e) (l :: ls) = l :: apply e ls := rfl

@[simp] theorem apply_drop (e : Edit) (l : String) (ls : List String) :
    apply (.drop :: e) (l :: ls) = apply e ls := rfl

@[simp] theorem reach_append (e s : Edit) : reach (e ++ s) = reach e + reach s := by
  induction e with
  | nil => simp [reach]
  | cons step e ih => cases step <;> simp [reach, ih] <;> omega

@[simp] theorem reach_replicate_keep (n : Nat) : reach (List.replicate n .keep) = n := by
  induction n with
  | zero => rfl
  | succ n ih => rw [List.replicate_succ, reach, ih]; simp

/-- An edit that steps over a line has one to step over. -/
theorem exists_cons_of_reach {e : Edit} {ls : List String} (h : reach e + 1 ≤ ls.length) :
    ∃ l rest, ls = l :: rest ∧ reach e ≤ rest.length := by
  cases ls with
  | nil => simp at h
  | cons l rest => exact ⟨l, rest, rfl, by simpa using h⟩

@[simp] theorem nil_andThen (s : Edit) : andThen [] s = s := by
  induction s with
  | nil => simp [andThen]
  | cons step s ih => cases step <;> simp [andThen, ih]

/-- Two edits as one do what they do one after the other. -/
theorem apply_andThen {e s : Edit} {ls : List String} (he : reach e ≤ ls.length) :
    apply (andThen e s) ls = apply s (apply e ls) := by
  -- Where the first edit steps over a line, `he` says that there is one.
  fun_induction andThen e s generalizing ls with
  | case1 e => rfl
  | case2 e t s ih => simp only [apply_put, ih he]
  | case3 s => rfl
  | case4 e s _ _ ih =>
    obtain ⟨l, rest, rfl, hr⟩ := exists_cons_of_reach he
    simpa only [apply_drop] using ih hr
  | case5 e step s hstep ih =>
    obtain ⟨l, rest, rfl, hr⟩ := exists_cons_of_reach he
    cases step with
    | put t => exact absurd rfl (hstep t)
    | keep => simp only [apply_keep, ih hr]
    | drop => simp only [apply_keep, apply_drop, ih hr]
  | case6 t e s ih =>
    simp only [apply_put, apply_keep, ih he]
  | case7 t e step s hput hkeep ih =>
    cases step with
    | put t => exact absurd rfl (hput t)
    | keep => exact absurd rfl hkeep
    | drop => simp only [apply_put, apply_drop, ih he]

/-- Two edits as one step over no more lines than there are, when each of them does. -/
theorem reach_andThen {e s : Edit} {ls : List String} (he : reach e ≤ ls.length)
    (hs : reach s ≤ (apply e ls).length) : reach (andThen e s) ≤ ls.length := by
  fun_induction andThen e s generalizing ls with
  | case1 e => exact he
  | case2 e t s ih => exact ih he hs
  | case3 s => exact hs
  | case4 e s _ _ ih =>
    obtain ⟨l, rest, rfl, hr⟩ := exists_cons_of_reach he
    exact Nat.succ_le_succ (ih hr hs)
  | case5 e step s hstep ih =>
    obtain ⟨l, rest, rfl, hr⟩ := exists_cons_of_reach he
    cases step with
    | put t => exact absurd rfl (hstep t)
    | keep => exact Nat.succ_le_succ (ih hr (Nat.le_of_succ_le_succ hs))
    | drop => exact Nat.succ_le_succ (ih hr (Nat.le_of_succ_le_succ hs))
  | case6 t e s ih =>
    rw [apply_put] at hs
    exact ih he (Nat.le_of_succ_le_succ hs)
  | case7 t e step s hput hkeep ih =>
    rw [apply_put] at hs
    cases step with
    | put t => exact absurd rfl (hput t)
    | keep => exact absurd rfl hkeep
    | drop => exact ih he (Nat.le_of_succ_le_succ hs)

/-! ## Staying within -/

theorem within_nil {n : Int} : Within inside n [] := trivial

/-- After nothing, an edit is judged by its own numbers. -/
theorem traced_nil {n : Int} {s : Edit} : Traced inside n [] s ↔ Within inside n s := by
  induction s generalizing n with
  | nil => simp [Traced, Within]
  | cons step s ih => cases step <;> simp [Traced, Within, ih]

/-- **Following edits**: the second of two edits may be added to a first one that stays within
exactly when it stays within by the numbers before the first. -/
theorem within_andThen {n : Int} {e s : Edit} (he : Within inside n e) :
    Within inside n (andThen e s) ↔ Traced inside n e s := by
  fun_induction andThen e s generalizing n with
  | case1 e => simp [Traced, he]
  | case2 e t s ih => simp only [Traced, Within, ih he]
  | case3 s => exact traced_nil.symm
  | case4 e s hnil hput ih =>
    obtain ⟨hn, he⟩ := he
    simp only [Within, hn, true_and, ih he]
    cases s with
    | nil => exact absurd rfl hnil
    | cons step s =>
      cases step with
      | put t => exact absurd rfl (hput t s)
      | keep => simp [Traced]
      | drop => simp [Traced]
  | case5 e step s hstep ih =>
    cases step with
    | put t => exact absurd rfl (hstep t)
    | keep => simp only [Traced, Within, ih he]
    | drop => simp only [Traced, Within, ih he]
  | case6 t e s ih => simp only [Traced, Within, ih he.2, he.1, true_and]
  | case7 t e step s hput hkeep ih =>
    cases step with
    | put t => exact absurd rfl (hput t)
    | keep => exact absurd rfl hkeep
    | drop => simp only [Traced, ih he.2]

/-- Edits that follow `done` all stay within exactly when what is done stays within after each. -/
theorem allTraced_iff {done : Edit} {es : List Edit} (hd : Within inside 1 done) :
    AllTraced inside done es ↔
      ∀ k, Within inside 1 ((es.take k).foldl andThen done) := by
  induction es generalizing done with
  | nil => simp [AllTraced, hd]
  | cons e es ih =>
    constructor
    · rintro ⟨he, hes⟩ k
      cases k with
      | zero => exact hd
      | succ k => exact (ih ((within_andThen hd).2 he)).1 hes k
    · intro h
      have he : Within inside 1 (done.andThen e) := h 1
      exact ⟨(within_andThen hd).1 he, (ih he).2 fun k => h (k + 1)⟩

theorem Within.locked {n : Int} {e : Edit} {ls : List String} (h : Within inside n e)
    (he : reach e ≤ ls.length) : Locked inside n ls (apply e ls) := by
  induction e generalizing n ls with
  | nil =>
    -- After the last step all lines stay.
    clear h he
    induction ls generalizing n with
    | nil => exact .done
    | cons l ls ih => exact .keep l ih
  | cons step e ih =>
    cases step with
    | put t =>
      rw [apply_put]
      exact .put t h.1 (ih h.2 he)
    | keep =>
      obtain ⟨l, rest, rfl, hr⟩ := exists_cons_of_reach he
      exact .keep l (ih h hr)
    | drop =>
      obtain ⟨l, rest, rfl, hr⟩ := exists_cons_of_reach he
      exact .drop l h.1 (ih h.2 hr)

/-! ## Steps in a row -/

theorem within_append {n : Int} {e s : Edit} :
    Within inside n (e ++ s) ↔ Within inside n e ∧ Within inside (n + reach e) s := by
  induction e generalizing n with
  | nil => simp [Within, reach]
  | cons step e ih =>
    cases step with
    | put t => simp [Within, reach, ih, and_assoc]
    | keep =>
      have hn : n + 1 + (reach e : Int) = n + ((reach e + 1 : Nat) : Int) := by omega
      simp [Within, reach, ih, hn]
    | drop =>
      have hn : n + 1 + (reach e : Int) = n + ((reach e + 1 : Nat) : Int) := by omega
      simp [Within, reach, ih, hn, and_assoc]

theorem within_replicate_keep {n : Int} {m : Nat} :
    Within inside n (List.replicate m .keep) := by
  induction m generalizing n with
  | zero => trivial
  | succ m ih => exact ih

end Edit

end EvidenceLock
