import EvidenceLock.Keyed
import Mathlib.Data.List.Basic
import Mathlib.Data.List.Find
import Mathlib.Data.List.Induction
import Mathlib.Data.List.Nodup

/-!
# Values by key

Which keys and values there are after a value has been changed or added under a key, and what
values become that are grouped by their keys: under each key there are exactly its values in their
order (`Keyed.mem_grouped`), and the keys stand in the order in which they first appear
(`Keyed.pairwise_keys_grouped`).
-/

namespace EvidenceLock.Keyed

variable {κ α : Type} [BEq κ]

/-! ## Members -/

theorem mem_alter {m : Keyed κ α} {k : κ} {f : Option α → α}
    {e : κ × α} (h : e ∈ m.alter k f) :
    e ∈ m ∨ e.2 = f none ∨ ∃ d ∈ m, e.2 = f (some d.2) := by
  induction m with
  | nil =>
    rw [alter, List.mem_singleton] at h
    exact .inr (.inl (by rw [h]))
  | cons d m ih =>
    obtain ⟨l, v⟩ := d
    rw [alter] at h
    split at h
    · rcases List.mem_cons.1 h with rfl | h
      · exact .inr (.inr ⟨(l, v), List.mem_cons_self, rfl⟩)
      · exact .inl (List.mem_cons_of_mem _ h)
    · rcases List.mem_cons.1 h with rfl | h
      · exact .inl List.mem_cons_self
      · rcases ih h with hmem | hnew | ⟨d, hd, hold⟩
        · exact .inl (List.mem_cons_of_mem _ hmem)
        · exact .inr (.inl hnew)
        · exact .inr (.inr ⟨d, List.mem_cons_of_mem _ hd, hold⟩)

/-- What holds of all values under all keys still does after one with it is added. -/
theorem forall_push {P : α → Prop} {m : Keyed κ (List α)} {k : κ} {v : α}
    (hm : ∀ e ∈ m, ∀ a ∈ e.2, P a) (hv : P v) : ∀ e ∈ m.push k v, ∀ a ∈ e.2, P a := by
  intro e he a ha
  rcases mem_alter he with hmem | hnew | ⟨d, hd, hold⟩
  · exact hm e hmem a ha
  · rw [hnew] at ha
    rw [List.mem_singleton.1 ha]
    exact hv
  · rw [hold] at ha
    rcases List.mem_append.1 ha with ha | ha
    · exact hm d hd a ha
    · rw [List.mem_singleton.1 ha]
      exact hv

/-- No list is empty after a value is added to one. -/
theorem push_ne_nil {m : Keyed κ (List α)} {k : κ} {v : α} (hm : ∀ e ∈ m, e.2 ≠ []) :
    ∀ e ∈ m.push k v, e.2 ≠ [] := by
  intro e he
  rcases mem_alter he with hmem | hnew | ⟨d, -, hold⟩
  · exact hm e hmem
  · rw [hnew]
    exact List.cons_ne_nil _ _
  · rw [hold]
    exact List.concat_ne_nil _ _

/-- A change is the same under keys with other names, as long as these tell the keys apart. -/
theorem alter_map_keys {κ' : Type} [BEq κ'] {key : κ → κ'}
    (hkey : ∀ k l, (key k == key l) = (k == l)) (m : Keyed κ α) (k : κ)
    (f : Option α → α) :
    (m.alter k f).map (Prod.map key id) = alter (m.map (Prod.map key id)) (key k) f := by
  induction m with
  | nil => rfl
  | cons e m ih =>
    obtain ⟨l, v⟩ := e
    rw [alter, List.map_cons, Prod.map_apply, alter, hkey]
    split
    · rfl
    · rw [List.map_cons, ih, Prod.map_apply]

variable [LawfulBEq κ]

theorem mem_keys {m : Keyed κ α} {k : κ} : k ∈ m.keys ↔ ∃ v, m.find? k = some v := by
  induction m with
  | nil => simp [keys]
  | cons e m ih =>
    obtain ⟨l, v⟩ := e
    rw [find?_cons]
    by_cases hk : k = l
    · simp [keys, hk]
    · have hmem : k ∈ keys ((l, v) :: m) ↔ k ∈ keys m := by simp [keys, hk]
      rw [hmem, ih]
      simp [hk]

theorem mem_of_find? {m : Keyed κ α} {k : κ} {v : α} (h : m.find? k = some v) : (k, v) ∈ m := by
  induction m with
  | nil => cases h
  | cons e m ih =>
    obtain ⟨l, w⟩ := e
    rw [find?_cons] at h
    split at h
    · rename_i hk
      cases h
      rw [eq_of_beq hk]
      exact List.mem_cons_self
    · exact List.mem_cons_of_mem _ (ih h)

theorem find?_of_mem {m : Keyed κ α} (hm : m.keys.Nodup) {k : κ} {v : α} (h : (k, v) ∈ m) :
    m.find? k = some v := by
  induction m with
  | nil => cases h
  | cons e m ih =>
    obtain ⟨l, w⟩ := e
    obtain ⟨hl, hm⟩ := List.nodup_cons.1 hm
    rw [find?_cons]
    rcases List.mem_cons.1 h with hhead | htail
    · cases hhead
      rw [if_pos (beq_self_eq_true k)]
    · have hne : k ≠ l := by
        rintro rfl
        exact hl (List.mem_map.2 ⟨(k, v), htail, rfl⟩)
      rw [if_neg (by simpa using hne)]
      exact ih hm htail

/-! ## Changing a value -/

/-- A change under a new key adds the key at the end. -/
theorem alter_of_not_mem {m : Keyed κ α} {k : κ} (hk : k ∉ m.keys) (f : Option α → α) :
    m.alter k f = m ++ [(k, f none)] := by
  induction m with
  | nil => rfl
  | cons e m ih =>
    obtain ⟨l, v⟩ := e
    obtain ⟨hl, hm⟩ := not_or.1 (mt List.mem_cons.2 hk)
    rw [alter, if_neg (by simpa using hl), ih hm, List.cons_append]

/-- A change under the last key leaves what is before it. -/
theorem alter_concat {m : Keyed κ α} {k : κ} (hk : k ∉ m.keys) (v : α) (f : Option α → α) :
    alter (m ++ [(k, v)]) k f = m ++ [(k, f (some v))] := by
  induction m with
  | nil => rw [List.nil_append, alter, if_pos (beq_self_eq_true k), List.nil_append]
  | cons e m ih =>
    obtain ⟨l, w⟩ := e
    obtain ⟨hl, hm⟩ := not_or.1 (mt List.mem_cons.2 hk)
    rw [List.cons_append, alter, if_neg (by simpa using hl), ih hm, List.cons_append]

/-- A change under a key that is present leaves the keys. -/
theorem keys_alter_of_mem {m : Keyed κ α} {k : κ} (hk : k ∈ m.keys) (f : Option α → α) :
    (m.alter k f).keys = m.keys := by
  induction m with
  | nil => cases hk
  | cons e m ih =>
    obtain ⟨l, v⟩ := e
    by_cases hkl : k == l
    · rw [alter, if_pos hkl]
      rfl
    · have hm : k ∈ keys m := by
        rcases List.mem_cons.1 hk with h | h
        · exact absurd (by simpa using h) hkl
        · exact h
      rw [alter, if_neg hkl]
      exact congrArg (List.cons l) (ih hm)

theorem nodup_keys_alter {m : Keyed κ α} (hm : m.keys.Nodup) (k : κ) (f : Option α → α) :
    (m.alter k f).keys.Nodup := by
  by_cases hk : k ∈ m.keys
  · rw [keys_alter_of_mem hk]
    exact hm
  · rw [alter_of_not_mem hk, keys, List.map_append]
    exact hm.append (List.nodup_singleton k) (List.disjoint_singleton.2 hk)

theorem find?_of_not_mem {m : Keyed κ α} {k : κ} (hk : k ∉ m.keys) : m.find? k = none :=
  Option.eq_none_iff_forall_ne_some.2 fun v hv => hk (mem_keys.2 ⟨v, hv⟩)

theorem mem_insert {m : Keyed κ α} {k : κ} {v : α} {e : κ × α} (h : e ∈ m.insert k v) :
    e ∈ m ∨ e = (k, v) := by
  induction m with
  | nil => exact .inr (List.mem_singleton.1 h)
  | cons d m ih =>
    obtain ⟨l, w⟩ := d
    rw [insert, alter] at h
    split at h
    · rename_i hk
      rcases List.mem_cons.1 h with h | h
      · exact .inr (by rw [h, eq_of_beq hk])
      · exact .inl (List.mem_cons_of_mem _ h)
    · rcases List.mem_cons.1 h with rfl | h
      · exact .inl List.mem_cons_self
      · exact (ih h).imp_left (List.mem_cons_of_mem _)

/-! ## Laying values over others -/

theorem nodup_keys_merge {m : Keyed κ α} (hm : m.keys.Nodup) (other : Keyed κ α) :
    (m.merge other).keys.Nodup :=
  List.foldlRecOn (motive := fun m : Keyed κ α => m.keys.Nodup) other _ hm
    fun _ h e _ => nodup_keys_alter h e.1 _

theorem find?_merge (m : Keyed κ α) {other : Keyed κ α} (hother : other.keys.Nodup) (k : κ) :
    (m.merge other).find? k = (other.find? k).or (m.find? k) := by
  induction other generalizing m with
  | nil => rfl
  | cons e other ih =>
    obtain ⟨l, w⟩ := e
    obtain ⟨hl, hother⟩ := List.nodup_cons.1 hother
    have hstep := ih (m.insert l w) hother
    rw [merge, List.foldl_cons, ← merge, hstep, find?_cons, find?_insert]
    by_cases hk : k = l
    · rw [hk, find?_of_not_mem hl, if_pos (beq_self_eq_true l), if_pos (beq_self_eq_true l)]
      rfl
    · rw [if_neg (by simpa using hk), if_neg (by simpa using hk)]

theorem find?_push (m : Keyed κ (List α)) (k : κ) (v : α) (j : κ) :
    ((m.push k v).find? j).getD [] = (m.find? j).getD [] ++ if j == k then [v] else [] := by
  rw [push, find?_alter]
  split
  · rename_i hj
    rw [eq_of_beq hj, Option.getD_some]
  · rw [List.append_nil]

/-! ## Grouping -/

/-- Values grouped by their keys. -/
def grouped (es : List (κ × α)) : Keyed κ (List α) := es.foldl (fun m e => m.push e.1 e.2) []

theorem find?_grouped (es : List (κ × α)) (k : κ) :
    ((grouped es).find? k).getD [] = (es.filter fun e => k == e.1).map Prod.snd := by
  have hfold : ∀ m : Keyed κ (List α),
      ((es.foldl (fun m e => m.push e.1 e.2) m).find? k).getD [] =
        (m.find? k).getD [] ++ (es.filter fun e => k == e.1).map Prod.snd := by
    induction es with
    | nil => simp
    | cons e es ih =>
      intro m
      rw [List.foldl_cons, ih, find?_push, List.append_assoc]
      by_cases hk : k == e.1
      · simp [hk]
      · simp [hk]
  simpa [grouped] using hfold []

theorem nodup_keys_grouped (es : List (κ × α)) : (grouped es).keys.Nodup := by
  have hnone : (keys ([] : Keyed κ (List α))).Nodup := List.nodup_nil
  exact List.foldlRecOn (motive := fun m => (keys m).Nodup) es _ hnone
    fun m hm e _ => nodup_keys_alter hm e.1 _

omit [LawfulBEq κ] in
theorem grouped_ne_nil (es : List (κ × α)) : ∀ e ∈ grouped es, e.2 ≠ [] := by
  have hnone : ∀ e ∈ ([] : Keyed κ (List α)), e.2 ≠ [] := fun e he => by cases he
  exact List.foldlRecOn (motive := fun m : Keyed κ (List α) => ∀ e ∈ m, e.2 ≠ []) es _ hnone
    fun m hm e _ => push_ne_nil hm

/-- The values with a key. -/
theorem mem_values {es : List (κ × α)} {k : κ} {v : α} :
    v ∈ (es.filter fun e => k == e.1).map Prod.snd ↔ (k, v) ∈ es := by
  rw [List.mem_map]
  constructor
  · rintro ⟨⟨l, w⟩, he, rfl⟩
    obtain ⟨he, hk⟩ := List.mem_filter.1 he
    rwa [eq_of_beq hk]
  · intro he
    exact ⟨(k, v), List.mem_filter.2 ⟨he, beq_self_eq_true k⟩, rfl⟩

/-- **Grouping**: under each key that some value has there are the values with this key, in their
order. -/
theorem mem_grouped {es : List (κ × α)} {k : κ} {vs : List α} :
    (k, vs) ∈ grouped es ↔ vs ≠ [] ∧ vs = (es.filter fun e => k == e.1).map Prod.snd := by
  rw [← find?_grouped]
  constructor
  · intro h
    refine ⟨grouped_ne_nil es _ h, ?_⟩
    rw [find?_of_mem (nodup_keys_grouped es) h, Option.getD_some]
  · rintro ⟨hne, hvs⟩
    cases hfind : (grouped es).find? k with
    | none =>
      rw [hfind] at hvs
      exact absurd hvs hne
    | some ws =>
      rw [hfind, Option.getD_some] at hvs
      rw [hvs]
      exact mem_of_find? hfind

theorem mem_keys_grouped {es : List (κ × α)} {k : κ} :
    k ∈ (grouped es).keys ↔ ∃ e ∈ es, e.1 = k := by
  rw [keys, List.mem_map]
  constructor
  · rintro ⟨⟨l, vs⟩, hmem, rfl⟩
    obtain ⟨hne, hvs⟩ := mem_grouped.1 hmem
    obtain ⟨v, hv⟩ := List.exists_mem_of_ne_nil vs hne
    rw [hvs] at hv
    exact ⟨(l, v), mem_values.1 hv, rfl⟩
  · rintro ⟨⟨l, v⟩, he, rfl⟩
    have hv := mem_values.2 he
    exact ⟨(l, _), mem_grouped.2 ⟨List.ne_nil_of_mem hv, rfl⟩, rfl⟩

/-- Grouped values have their keys in the order of first appearance. -/
theorem pairwise_keys_grouped (es : List (κ × α)) :
    (grouped es).keys.Pairwise fun k l =>
      es.findIdx (fun e => k == e.1) < es.findIdx (fun e => l == e.1) := by
  induction es using List.reverseRecOn with
  | nil => exact List.Pairwise.nil
  | append_singleton es e ih =>
    have hgrouped : grouped (es ++ [e]) = (grouped es).push e.1 e.2 := List.foldl_concat ..
    have hbefore {k : κ} (hk : k ∈ (grouped es).keys) :
        es.findIdx (fun e => k == e.1) < es.length := by
      obtain ⟨d, hd, rfl⟩ := mem_keys_grouped.1 hk
      exact List.findIdx_lt_length_of_exists ⟨d, hd, beq_self_eq_true d.1⟩
    -- What has appeared keeps its place, and a key that is new has the last one.
    have hold {k : κ} (hk : k ∈ (grouped es).keys) :
        (es ++ [e]).findIdx (fun e => k == e.1) = es.findIdx (fun e => k == e.1) := by
      rw [List.findIdx_append, if_pos (hbefore hk)]
    have hkept := ih.imp_of_mem fun {k l} hk hl h => by rwa [← hold hk, ← hold hl] at h
    rw [hgrouped, push]
    by_cases hmem : e.1 ∈ (grouped es).keys
    · rw [keys_alter_of_mem hmem]
      exact hkept
    · rw [alter_of_not_mem hmem, keys, List.map_append, List.pairwise_append]
      refine ⟨hkept, List.pairwise_singleton _ _, fun k hk l hl => ?_⟩
      have hnone : ¬ es.findIdx (fun d => e.1 == d.1) < es.length := fun hlt => by
        have hfound := @List.findIdx_getElem _ (fun d => e.1 == d.1) es hlt
        exact hmem (mem_keys_grouped.2 ⟨_, List.getElem_mem hlt, (eq_of_beq hfound).symm⟩)
      rw [List.mem_singleton.1 hl, hold hk, List.findIdx_append, if_neg hnone]
      exact Nat.lt_of_lt_of_le (hbefore hk) (Nat.le_add_left _ _)

/-- The first of the keys with a property is that of the first element whose key has it. -/
theorem find?_keys_grouped (P : κ → Bool) (es : List (κ × α)) :
    (grouped es).keys.find? P = (es.map Prod.fst).find? P := by
  induction es using List.reverseRecOn with
  | nil => rfl
  | append_singleton es e ih =>
    have hgrouped : grouped (es ++ [e]) = (grouped es).push e.1 e.2 := List.foldl_concat ..
    rw [hgrouped, push, List.map_append, List.find?_append, ← ih]
    by_cases hmem : e.1 ∈ (grouped es).keys
    · rw [keys_alter_of_mem hmem]
      cases hfind : (grouped es).keys.find? P with
      | some k => rfl
      | none =>
        -- A key that is there already is no new one with the property.
        have hnot : P e.1 = false := by simpa using List.find?_eq_none.1 hfind e.1 hmem
        simp [hnot]
    · rw [alter_of_not_mem hmem, keys, List.map_append, List.find?_append]
      rfl

/-- The first group with a property is that of the first element whose group has it. -/
theorem find?_groups (P : List α → Bool) (es : List (κ × α)) :
    List.find? (fun g => P g.2) (grouped es) =
      (es.find? fun e => P ((es.filter fun d => e.1 == d.1).map Prod.snd)).map fun e =>
        (e.1, (es.filter fun d => e.1 == d.1).map Prod.snd) := by
  let valuesOf (k : κ) : List α := (es.filter fun d => k == d.1).map Prod.snd
  have hgroup : ∀ g ∈ grouped es, g.2 = valuesOf g.1 := fun g hg => (mem_grouped.1 hg).2
  have hsame : List.find? (fun g => P g.2) (grouped es) =
      List.find? ((P ∘ valuesOf) ∘ Prod.fst) (grouped es) :=
    List.find?_congr fun g hg => congrArg P (hgroup g hg)
  have hkeys := find?_keys_grouped (P ∘ valuesOf) es
  rw [keys, List.find?_map, List.find?_map] at hkeys
  change _ = (es.find? ((P ∘ valuesOf) ∘ Prod.fst)).map fun e => (e.1, valuesOf e.1)
  rw [hsame]
  cases hfound : List.find? ((P ∘ valuesOf) ∘ Prod.fst) (grouped es) with
  | none =>
    rw [hfound] at hkeys
    rw [Option.map_eq_none_iff.1 hkeys.symm, Option.map_none]
  | some g =>
    rw [hfound] at hkeys
    obtain ⟨e, he, hkey⟩ := Option.map_eq_some_iff.1 hkeys.symm
    rw [he, Option.map_some, hkey, ← hgroup g (List.mem_of_find?_eq_some hfound)]

end EvidenceLock.Keyed
