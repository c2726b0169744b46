import EvidenceLock.Toml.Document
import Mathlib.Data.List.Nodup

/-!
# No key is set twice

A settings file that is read gives tables in which no key appears twice, at any depth
(`Toml.parse_wellKeyed`). Tables are written in three places only: a new field is added at the end
of a table that does not have its key, a table is added at the end of a list, and what lies under a
key on the way to a table is replaced (`Toml.atTable_wellKeyed`).
-/

namespace EvidenceLock

/-- No table in the value has a key twice. -/
inductive Value.WellKeyed : Value → Prop
  | plain {v : Value} (h : Toml.isCompound v = false) : WellKeyed v
  | list {items : List Value} (h : ∀ v ∈ items, v.WellKeyed) : WellKeyed (.list items)
  | table {fields : List (String × Value)} (keys : (fields.map Prod.fst).Nodup)
    (h : ∀ f ∈ fields, f.2.WellKeyed) : WellKeyed (.table fields)

theorem Value.wellKeyed_list {items : List Value} :
    (Value.list items).WellKeyed ↔ ∀ v ∈ items, v.WellKeyed := by
  constructor
  · rintro (⟨h⟩ | h)
    · cases h
    · exact h
  · exact .list

theorem Value.wellKeyed_table {fields : List (String × Value)} :
    (Value.table fields).WellKeyed ↔
      (fields.map Prod.fst).Nodup ∧ ∀ f ∈ fields, f.2.WellKeyed := by
  constructor
  · intro h
    cases h with
    | plain h => cases h
    | table keys h => exact ⟨keys, h⟩
  · rintro ⟨keys, h⟩
    exact .table keys h

theorem Value.mem_of_field? {fields : List (String × Value)} {k : String} {v : Value}
    (h : Value.field? fields k = some v) : (k, v) ∈ fields := by
  obtain ⟨⟨l, w⟩, hfind, rfl⟩ := Option.map_eq_some_iff.1 h
  have hkey : l = k := by simpa using List.find?_some hfind
  rw [← hkey]
  exact List.mem_of_find?_eq_some hfind

theorem Value.field?_eq_none_iff {fields : List (String × Value)} {k : String} :
    Value.field? fields k = none ↔ k ∉ fields.map Prod.fst := by
  rw [Value.field?, Option.map_eq_none_iff, List.find?_eq_none, List.mem_map]
  constructor
  · rintro h ⟨f, hf, rfl⟩
    exact h f hf (beq_self_eq_true f.1)
  · intro h f hf hk
    exact h ⟨f, hf, eq_of_beq hk⟩

theorem Value.wellKeyed_empty : (Value.table []).WellKeyed :=
  Value.wellKeyed_table.2 ⟨List.nodup_nil, fun _ h => by cases h⟩

namespace Toml

theorem bind_eq_ok {α β : Type} {x : Except Flaw α} {f : α → Except Flaw β} {b : β} :
    (x >>= f) = .ok b ↔ ∃ a, x = .ok a ∧ f a = .ok b := by
  cases x with
  | error e => simp [bind, Except.bind]
  | ok a => simp [bind, Except.bind]

theorem required_eq_ok {α : Type} {x : Option α} {a : α} : required x = .ok a ↔ x = some a := by
  cases x <;> simp [required]

/-! ## Tables -/

section
variable {fields new : Fields} {k : String} {v : Value}

theorem wellKeyed_replaced (hfields : (Value.table fields).WellKeyed) (hv : v.WellKeyed) :
    (Value.table (fields.map fun e => if e.1 == k then (k, v) else e)).WellKeyed := by
  rw [Value.wellKeyed_table] at hfields ⊢
  obtain ⟨hkeys, hvalues⟩ := hfields
  have hsame : (fields.map fun e => if e.1 == k then (k, v) else e).map Prod.fst =
      fields.map Prod.fst := by
    rw [List.map_map]
    refine List.map_congr_left fun e _ => ?_
    rw [Function.comp_apply]
    split
    · rename_i hk
      exact (eq_of_beq hk).symm
    · rfl
  refine ⟨hsame ▸ hkeys, fun e he => ?_⟩
  obtain ⟨d, hd, rfl⟩ := List.mem_map.1 he
  split
  · exact hv
  · exact hvalues d hd

theorem wellKeyed_added (hfields : (Value.table fields).WellKeyed) (hk : k ∉ fields.map Prod.fst)
    (hv : v.WellKeyed) : (Value.table (fields ++ [(k, v)])).WellKeyed := by
  rw [Value.wellKeyed_table] at hfields ⊢
  obtain ⟨hkeys, hvalues⟩ := hfields
  rw [List.map_append]
  refine ⟨hkeys.append (List.nodup_singleton k) (List.disjoint_singleton.2 hk), fun e he => ?_⟩
  rcases List.mem_append.1 he with he | he
  · exact hvalues e he
  · rw [List.mem_singleton.1 he]
    exact hv

theorem addField_wellKeyed (hv : v.WellKeyed) (hfields : (Value.table fields).WellKeyed)
    (h : addField k v fields = some new) : (Value.table new).WellKeyed := by
  unfold addField at h
  split at h
  · cases h
  · rename_i hnone
    cases h
    rw [Bool.not_eq_true, Option.isSome_eq_false_iff, Option.isNone_iff_eq_none,
      Value.field?_eq_none_iff] at hnone
    exact wellKeyed_added hfields hnone hv

theorem addTable_wellKeyed (hfields : (Value.table fields).WellKeyed)
    (h : addTable k fields = some new) : (Value.table new).WellKeyed := by
  unfold addTable at h
  split at h
  · rename_i hnone
    cases h
    refine wellKeyed_added hfields (Value.field?_eq_none_iff.1 hnone) (.list fun v hv => ?_)
    rw [List.mem_singleton.1 hv]
    exact Value.wellKeyed_empty
  · rename_i items hfind
    cases h
    have hitems := (Value.wellKeyed_table.1 hfields).2 _ (Value.mem_of_field? hfind)
    refine wellKeyed_replaced hfields (.list fun v hv => ?_)
    rcases List.mem_append.1 hv with hv | hv
    · exact Value.wellKeyed_list.1 hitems v hv
    · rw [List.mem_singleton.1 hv]
      exact Value.wellKeyed_empty
  · cases h

end

/-- What keeps the keys of the tables it is applied to keeps all keys. -/
theorem atTable_wellKeyed {f : Fields → Option Fields} (lists : Bool)
    (hf : ∀ {fields new : Fields}, (Value.table fields).WellKeyed → f fields = some new →
      (Value.table new).WellKeyed) (path : KeyPath) :
    ∀ {fields new : Fields}, (Value.table fields).WellKeyed →
      atTable lists fields path f = some new → (Value.table new).WellKeyed := by
  induction path with
  | nil => exact hf
  | cons k rest ih =>
    intro fields new hfields hnew
    have hput {below : Fields} (hbelow : (Value.table below).WellKeyed) {wrap : Fields → Value}
        (hwrap : ∀ {t : Fields}, (Value.table t).WellKeyed → (wrap t).WellKeyed)
        (h : (atTable lists below rest f).map (fun t =>
          if fields.any fun e => e.1 == k then
            fields.map fun e => if e.1 == k then (k, wrap t) else e
          else fields ++ [(k, wrap t)]) = some new) : (Value.table new).WellKeyed := by
      obtain ⟨t, ht, rfl⟩ := Option.map_eq_some_iff.1 h
      have hvalue := hwrap (ih hbelow ht)
      split
      · exact wellKeyed_replaced hfields hvalue
      · rename_i hk
        exact wellKeyed_added hfields (by simpa using hk) hvalue
    have hvalue {v : Value} (hv : Value.field? fields k = some v) : v.WellKeyed :=
      (Value.wellKeyed_table.1 hfields).2 _ (Value.mem_of_field? hv)
    rw [atTable] at hnew
    split at hnew
    · exact hput Value.wellKeyed_empty id hnew
    · rename_i t hfind
      exact hput (hvalue hfind) id hnew
    · rename_i items hfind
      have hitems := Value.wellKeyed_list.1 (hvalue hfind)
      split at hnew
      · rename_i t hlast
        refine hput (hitems _ (List.mem_of_getLast? hlast)) (fun {u} hu => ?_) hnew
        refine .list fun v hv => ?_
        rcases List.mem_append.1 hv with hv | hv
        · exact hitems v ((List.dropLast_sublist items).subset hv)
        · rw [List.mem_singleton.1 hv]
          exact hu
      · cases hnew
    · cases hnew

/-! ## Values -/

/-- Whatever is read keeps its keys. -/
def Keeps (read : List Char → Reads Value) : Prop :=
  ∀ {cs r : List Char} {v : Value}, read cs = .ok (v, r) → v.WellKeyed

section
variable {cs r : List Char} {v : Value}

theorem word?_eq_some {word : String} {w : Value} (h : word? word w cs = some (v, r)) : v = w := by
  unfold word? at h
  split at h
  · cases h
    rfl
  · cases h

theorem moment?_plain (h : moment? cs = some (.ok (v, r))) : isCompound v = false := by
  unfold moment? at h
  split at h
  · split at h
    · cases h
    · split at h
      · cases h
        rfl
      · split at h <;> cases h <;> rfl
  · obtain ⟨⟨c, rest⟩, -, h⟩ := Option.map_eq_some_iff.1 h
    cases h
    rfl

theorem basedInteger?_plain (h : basedInteger? cs = some (v, r)) : isCompound v = false := by
  unfold basedInteger? at h
  split at h
  · grind [isCompound]
  · cases h

theorem decimal?_plain (h : decimal? cs = some (.ok (v, r))) : isCompound v = false := by
  unfold decimal? at h
  obtain ⟨⟨whole, rest⟩, -, h⟩ := Option.bind_eq_some_iff.1 h
  dsimp only at h
  split at h
  · split at h
    · cases h
    · cases h
      rfl
  · cases h
    rfl

theorem namedDouble?_plain (h : namedDouble? cs = some (v, r)) : isCompound v = false := by
  obtain ⟨word, -, h⟩ := List.exists_of_findSome?_eq_some h
  obtain ⟨x, -, h⟩ := Option.bind_eq_some_iff.1 h
  rw [word?_eq_some h]
  rfl

theorem plainScalar_plain (h : plainScalar cs = .ok (v, r)) : isCompound v = false := by
  unfold plainScalar at h
  split at h
  · rename_i found hword
    cases h
    rcases Option.or_eq_some_iff.1 hword with hword | ⟨-, hword⟩
    · rw [word?_eq_some hword]
      rfl
    · rw [word?_eq_some hword]
      rfl
  · split at h
    · rename_i found hmoment
      cases h
      exact moment?_plain hmoment
    · split at h
      · rename_i found hbased
        cases h
        exact basedInteger?_plain hbased
      · split at h
        · rename_i found hdecimal
          cases h
          exact decimal?_plain hdecimal
        · split at h
          · rename_i found hnamed
            cases h
            exact namedDouble?_plain hnamed
          · cases h

end

section
variable {value : List Char → Reads Value}

theorem items_keeps (hvalue : Keeps value) (fuel : Nat) {acc : List Value}
    (hacc : ∀ v ∈ acc, v.WellKeyed) : Keeps (items value fuel acc) := by
  induction fuel generalizing acc with
  | zero =>
    intro cs r v h
    cases h
  | succ fuel ih =>
    intro cs r v h
    have hlist {vs : List Value} (hvs : ∀ v ∈ vs, v.WellKeyed) :
        (Value.list vs.reverse).WellKeyed := .list fun v hv => hvs v (List.mem_reverse.1 hv)
    rw [items] at h
    obtain ⟨r', -, h⟩ := bind_eq_ok.1 h
    split at h
    · cases h
      exact hlist hacc
    · obtain ⟨⟨w, r''⟩, hw, h⟩ := bind_eq_ok.1 h
      have hnext : ∀ v ∈ w :: acc, v.WellKeyed := fun v hv => by
        rcases List.mem_cons.1 hv with rfl | hv
        · exact hvalue hw
        · exact hacc v hv
      obtain ⟨r', -, h⟩ := bind_eq_ok.1 h
      split at h
      · cases h
        exact hlist hnext
      · exact ih hnext h
      · cases h

theorem assignment_keeps (hvalue : Keeps value) {cs r : List Char} {path : KeyPath} {v : Value}
    (h : assignment value cs = .ok ((path, v), r)) : v.WellKeyed := by
  obtain ⟨⟨path', r'⟩, -, h⟩ := bind_eq_ok.1 h
  obtain ⟨r', -, h⟩ := bind_eq_ok.1 h
  obtain ⟨⟨w, r''⟩, hw, h⟩ := bind_eq_ok.1 h
  cases h
  exact hvalue hw

theorem inlineFields_keeps (hvalue : Keeps value) (fuel : Nat) {fields : Fields}
    (hfields : (Value.table fields).WellKeyed) (sealed_ : List KeyPath) :
    Keeps (inlineFields value fuel fields sealed_) := by
  induction fuel generalizing fields sealed_ with
  | zero =>
    intro cs r v h
    cases h
  | succ fuel ih =>
    intro cs r v h
    rw [inlineFields] at h
    obtain ⟨⟨⟨path, w⟩, r'⟩, hw, h⟩ := bind_eq_ok.1 h
    dsimp only at h
    split at h
    · cases h
    · obtain ⟨new, hnew, h⟩ := bind_eq_ok.1 h
      have hnew : (Value.table new).WellKeyed := atTable_wellKeyed false
        (addField_wellKeyed (assignment_keeps hvalue hw)) _ hfields (required_eq_ok.1 hnew)
      split at h
      · cases h
        exact hnew
      · exact ih hnew _ h
      · cases h

end

theorem value_keeps (fuel : Nat) : Keeps (value fuel) := by
  induction fuel with
  | zero =>
    intro cs r v h
    cases h
  | succ fuel ih =>
    intro cs r v h
    unfold value at h
    split at h
    · exact items_keeps ih _ (fun v hv => by cases hv) h
    · split at h
      · cases h
        exact Value.wellKeyed_empty
      · exact inlineFields_keeps ih _ Value.wellKeyed_empty _ h
    · split at h
      · rename_i text _
        cases text with
        | error e => cases h
        | ok found =>
          cases h
          exact .plain rfl
      · exact .plain (plainScalar_plain h)

/-! ## Documents -/

section
variable {d e : Document} (hd : (Value.table d.fields).WellKeyed)

include hd

theorem Document.openTable_keeps {path : KeyPath} (h : d.openTable path = .ok e) :
    (Value.table e.fields).WellKeyed := by
  unfold openTable at h
  split at h
  · cases h
  · obtain ⟨new, hnew, h⟩ := bind_eq_ok.1 h
    cases h
    refine atTable_wellKeyed true (fun hfields hsome => ?_) _ hd (required_eq_ok.1 hnew)
    cases hsome
    exact hfields

theorem Document.openItem_keeps {path : KeyPath} (h : d.openItem path = .ok e) :
    (Value.table e.fields).WellKeyed := by
  unfold openItem at h
  split at h
  · cases h
  · obtain ⟨new, hnew, h⟩ := bind_eq_ok.1 h
    cases h
    exact atTable_wellKeyed true addTable_wellKeyed _ hd (required_eq_ok.1 hnew)

theorem Document.set_keeps {path : KeyPath} {v : Value} (hv : v.WellKeyed)
    (h : d.set path v = .ok e) : (Value.table e.fields).WellKeyed := by
  unfold set at h
  dsimp only at h
  split at h
  · cases h
  · obtain ⟨new, hnew, h⟩ := bind_eq_ok.1 h
    cases h
    exact atTable_wellKeyed true (addField_wellKeyed hv) _ hd (required_eq_ok.1 hnew)

theorem statement_keeps {cs r : List Char} (h : statement d cs = .ok (e, r)) :
    (Value.table e.fields).WellKeyed := by
  unfold statement at h
  split at h
  · obtain ⟨⟨path, r'⟩, -, h⟩ := bind_eq_ok.1 h
    obtain ⟨d', hd', h⟩ := bind_eq_ok.1 h
    have hkept := Document.openItem_keeps (d := d.settled) hd hd'
    split at h
    · cases h
      exact hkept
    · cases h
  · obtain ⟨⟨path, r'⟩, -, h⟩ := bind_eq_ok.1 h
    obtain ⟨d', hd', h⟩ := bind_eq_ok.1 h
    obtain ⟨r'', -, h⟩ := bind_eq_ok.1 h
    cases h
    exact Document.openTable_keeps (d := d.settled) hd hd'
  · obtain ⟨⟨⟨path, v⟩, r'⟩, hv, h⟩ := bind_eq_ok.1 h
    obtain ⟨d', hd', h⟩ := bind_eq_ok.1 h
    cases h
    exact Document.set_keeps hd (assignment_keeps (value_keeps _) hv) hd'

/-- What follows a statement keeps its keys apart if the statements that it goes on with do. -/
theorem afterStatement_keeps {fuel : Nat} {r : List Char}
    (hrest : ∀ {cs}, statements fuel d cs = .ok e → (Value.table e.fields).WellKeyed)
    (h : (do
      match ← skipComment (skipSpace r) with
      | [] => .ok d
      | '\n' :: r => statements fuel d r
      | _ => .error .malformed) = .ok e) : (Value.table e.fields).WellKeyed := by
  obtain ⟨r', -, h⟩ := bind_eq_ok.1 h
  split at h
  · cases h
    exact hd
  · exact hrest h
  · cases h

theorem statements_keeps (fuel : Nat) {cs : List Char} (h : statements fuel d cs = .ok e) :
    (Value.table e.fields).WellKeyed := by
  induction fuel generalizing d cs with
  | zero => cases h
  | succ fuel ih =>
    unfold statements at h
    split at h
    · exact afterStatement_keeps hd (r := []) (ih hd) h
    · rename_i r _
      exact afterStatement_keeps hd (r := '\n' :: r) (ih hd) h
    · rename_i r _
      exact afterStatement_keeps hd (r := '#' :: r) (ih hd) h
    · obtain ⟨⟨d', r⟩, hd', h⟩ := bind_eq_ok.1 h
      have hkept := statement_keeps hd hd'
      exact afterStatement_keeps hkept (ih hkept) h

end

/-- In what is read, no table has a key twice. -/
theorem parse_wellKeyed {text : String} {fields : Fields} (h : parse text = .ok fields) :
    (Value.table fields).WellKeyed := by
  obtain ⟨d, hd, h⟩ := bind_eq_ok.1 h
  cases h
  exact statements_keeps Value.wellKeyed_empty _ hd

end Toml

end EvidenceLock
