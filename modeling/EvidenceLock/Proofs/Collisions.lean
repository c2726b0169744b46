import EvidenceLock.Proofs.Readings

/-!
# Assignments that collide

A table for a group is laid over an earlier value of that group, which has to be one that can be
laid under a table (`Value.Layable`). An assignment that meets another value clashes with those
before it, and a sequence of assignments is a fault exactly where one of them clashes
(`layValues_ok_or_faulty`). Otherwise every group is left with what was last set
(`Layers.Has`).
-/

namespace EvidenceLock

/-! ## Values below a table -/

namespace Value

/-- A key and a value: two items, two characters, or the keys of two fields. -/
inductive IsPair : Value → Prop
  | items {k : Value} (h : Toml.isCompound k = false) (w : Value) : IsPair (.list [k, w])
  | text {s : String} (h : s.length = 2) : IsPair (.str s)
  | keys (e f : String × Value) : IsPair (.table [e, f])

/-- The value can be laid under a table: it counts as no, is a table, or is a list of pairs. -/
inductive Layable : Value → Prop
  | no {v : Value} (h : v.truthy = false) : Layable v
  | table (t : NamedValues) : Layable (.table t)
  | list {items : List Value} (h : ∀ v ∈ items, v.IsPair) : Layable (.list items)

end Value

/-- An element of a list is a pair or a fault. -/
theorem pairOf_ok_or_faulty (index : Nat) (v : Value) :
    (v.IsPair ∧ ∃ p, pairOf index v = .ok p) ∨ (¬ v.IsPair ∧ Faulty (pairOf index v)) := by
  cases v with
  | null | bool _ | int _ | float _ | moment _ => exact .inr ⟨nofun, .misuse⟩
  | str s =>
    have hlength : s.toList.length = s.length := String.length_toList
    by_cases htwo : s.length = 2
    · obtain ⟨k, w, hs⟩ := List.length_eq_two.1 (hlength.trans htwo)
      refine .inl ⟨.text htwo, (some (String.singleton k), .str (String.singleton w)), ?_⟩
      simp only [pairOf, hs]
    · refine .inr ⟨fun h => ?_, ?_⟩
      · cases h with
        | text h => exact htwo h
      · unfold pairOf
        dsimp only
        split
        · rename_i k w hs
          rw [hs] at hlength
          exact absurd hlength.symm htwo
        · exact .misuse
  | list items =>
    match items with
    | [] => exact .inr ⟨nofun, .misuse⟩
    | [k] | k :: _ :: _ :: _ =>
      refine .inr ⟨nofun, ?_⟩
      cases k <;> exact .misuse
    | [k, w] =>
      cases k with
      | list _ | table _ => exact .inr ⟨fun h => by cases h; contradiction, .misuse⟩
      | str k => exact .inl ⟨.items rfl w, (some k, w), rfl⟩
      | null | bool _ | int _ | float _ | moment _ => exact .inl ⟨.items rfl w, (none, w), rfl⟩
  | table fields =>
    match fields with
    | [] | [_] | _ :: _ :: _ :: _ => exact .inr ⟨nofun, .misuse⟩
    | [(k, v), (l, w)] => exact .inl ⟨.keys (k, v) (l, w), (some k, .str l), rfl⟩

/-- A sequence is a fault once an element is one and all others answer. -/
theorem mapM_ok_or_faulty {α β : Type} {f : α → Outcome β} {P : α → Prop} (as : List α)
    (h : ∀ a ∈ as, (P a ∧ ∃ b, f a = .ok b) ∨ (¬ P a ∧ Faulty (f a))) :
    ((∀ a ∈ as, P a) ∧ ∃ bs, as.mapM f = .ok bs) ∨ ((∃ a ∈ as, ¬ P a) ∧ Faulty (as.mapM f)) := by
  induction as with
  | nil => exact .inl ⟨List.forall_mem_nil P, [], rfl⟩
  | cons a as ih =>
    have hrest := ih fun b hb => h b (List.mem_cons_of_mem a hb)
    rw [List.mapM_cons]
    rcases h a List.mem_cons_self with ⟨ha, b, hb⟩ | ⟨ha, hfault⟩
    · rw [hb, Outcome.ok_bind]
      rcases hrest with ⟨hall, bs, hbs⟩ | ⟨⟨c, hc, hnot⟩, hfault⟩
      · rw [hbs]
        exact .inl ⟨List.forall_mem_cons.2 ⟨ha, hall⟩, b :: bs, rfl⟩
      · exact .inr ⟨⟨c, List.mem_cons_of_mem a hc, hnot⟩, Faulty.bind_iff.2 (.inl hfault)⟩
    · exact .inr ⟨⟨a, List.mem_cons_self, ha⟩, Faulty.bind_iff.2 (.inl hfault)⟩

/-- An earlier value is laid under a table or is a fault. -/
theorem pairsBelow_ok_or_faulty (v : Value) :
    (v.Layable ∧ ∃ pairs, pairsBelow v = .ok pairs) ∨ (¬ v.Layable ∧ Faulty (pairsBelow v)) := by
  by_cases hno : v.truthy = false
  · refine .inl ⟨.no hno, [], ?_⟩
    unfold pairsBelow
    rw [hno]
    rfl
  have hyes : v.truthy = true := by simpa using hno
  unfold pairsBelow
  rw [hyes]
  cases v with
  | null => exact absurd rfl hno
  | table t => exact .inl ⟨.table t, _, rfl⟩
  | bool _ | int _ | float _ | moment _ =>
    refine .inr ⟨fun h => ?_, .misuse⟩
    cases h with
    | no h => exact hno h
  | str s =>
    refine .inr ⟨fun h => ?_, ?_⟩
    · cases h with
      | no h => exact hno h
    · -- A character is a text of length one, and so no pair.
      have hnone : ∀ e ∈ s.toList.zipIdx, ¬ (Value.str (String.singleton e.1)).IsPair :=
        fun e _ h => by
          cases h with
          | text h => simp at h
      have hchars := mapM_ok_or_faulty
        (f := fun (e : Char × Nat) => pairOf e.2 (.str (String.singleton e.1)))
        (P := fun e => (Value.str (String.singleton e.1)).IsPair) s.toList.zipIdx
        fun e _ => pairOf_ok_or_faulty e.2 _
      rcases hchars with ⟨hall, -⟩ | ⟨-, hfault⟩
      · cases hs : s.toList.zipIdx with
        | nil =>
          have hempty : s = "" := by simpa using hs
          exact absurd (by rw [hempty]; rfl) hno
        | cons e es =>
          have he : e ∈ s.toList.zipIdx := hs ▸ List.mem_cons_self
          exact absurd (hall e he) (hnone e he)
      · exact hfault
  | list items =>
    have hitems := mapM_ok_or_faulty (f := fun (e : Value × Nat) => pairOf e.2 e.1)
      (P := fun e => e.1.IsPair) items.zipIdx fun e _ => pairOf_ok_or_faulty e.2 e.1
    rcases hitems with ⟨hall, hok⟩ | ⟨⟨e, he, hnot⟩, hfault⟩
    · refine .inl ⟨.list fun v hv => ?_, hok⟩
      obtain ⟨i, hi⟩ := List.mem_iff_getElem?.1 hv
      exact hall (v, i) (List.mk_mem_zipIdx_iff_getElem?.2 hi)
    · refine .inr ⟨fun h => ?_, hfault⟩
      cases h with
      | no h => exact hno h
      | list h => exact hnot (h _ (List.fst_mem_of_mem_zipIdx he))

/-! ## Sequences of assignments -/

/-- What the last assignment to a name wrote. -/
def lastSet (sets : NamedValues) (name : String) : Option Value := Value.field? sets.reverse name

theorem lastSet_concat (sets : NamedValues) (f : String × Value) (name : String) :
    lastSet (sets ++ [f]) name = if name = f.1 then some f.2 else lastSet sets name := by
  rw [lastSet, List.reverse_append, List.reverse_singleton, List.singleton_append]
  obtain ⟨l, v⟩ := f
  rw [Value.field?_eq_find?, Keyed.find?_cons, ← Value.field?_eq_find?]
  simp only [beq_iff_eq]
  rfl

/-- A table for a group is set over a value that cannot be laid under it. -/
def Clashes (sets : NamedValues) (f : String × Value) : Prop :=
  Regroups f.1 f.2 ∧ ∃ v, lastSet sets f.1 = some v ∧ ¬ v.Layable

/-- One of the assignments clashes with those before it. -/
def Collides (sets : NamedValues) : Prop :=
  ∃ before f after, sets = before ++ f :: after ∧ Clashes before f

theorem Collides.append {sets : NamedValues} (h : Collides sets) (more : NamedValues) :
    Collides (sets ++ more) := by
  obtain ⟨before, f, after, rfl, hf⟩ := h
  exact ⟨before, f, after ++ more, by rw [List.append_assoc, List.cons_append], hf⟩

theorem collides_concat {sets : NamedValues} {f : String × Value} :
    Collides (sets ++ [f]) ↔ Collides sets ∨ Clashes sets f := by
  constructor
  · rintro ⟨before, e, after, hsets, he⟩
    rcases List.eq_nil_or_concat' after with rfl | ⟨after, last, rfl⟩
    · obtain ⟨rfl, hef⟩ := List.append_inj' hsets rfl
      cases hef
      exact .inr he
    · rw [← List.cons_append, ← List.append_assoc] at hsets
      exact .inl ⟨before, e, after, (List.append_inj' hsets rfl).1, he⟩
  · rintro (h | h)
    · exact h.append [f]
    · exact ⟨sets, f, [], rfl, h⟩

theorem not_collides_nil : ¬ Collides [] := by
  rintro ⟨before, f, after, h, -⟩
  cases before <;> cases h

/-- Every group has what was last set, or a table where a table was last set. -/
def Layers.Has (l : Layers) (sets : NamedValues) : Prop :=
  ∀ g ∈ groupNames, Value.field? l.fields g = lastSet sets g ∨
    ∃ t u, lastSet sets g = some (.table t) ∧ Value.field? l.fields g = some (.table u)

theorem Layers.Has.layable_iff {l : Layers} {sets : NamedValues} (h : l.Has sets) {g : String}
    (hg : g ∈ groupNames) : ((Value.field? l.fields g).getD .null).Layable ↔
      ∀ v, lastSet sets g = some v → v.Layable := by
  rcases h g hg with hsame | ⟨t, u, hlast, hfield⟩
  · rw [hsame]
    cases lastSet sets g with
    | none => exact iff_of_true (.no rfl) nofun
    | some v => simp
  · rw [hlast, hfield]
    refine iff_of_true (.table u) fun v hv => ?_
    cases hv
    exact .table t

/-- An assignment to what has been laid clashes with it and is a fault, or leaves the groups with
what was last set. -/
theorem layValue_ok_or_faulty {l : Layers} {sets : NamedValues} (h : l.Has sets) (name : String)
    (v : Value) :
    (¬ Clashes sets (name, v) ∧ ∃ l', layValue l name v = .ok l' ∧ l'.Has (sets ++ [(name, v)])) ∨
      (Clashes sets (name, v) ∧ Faulty (layValue l name v)) := by
  have helse {w : Value} {g : String} (hg : g ∈ groupNames) (hne : g ≠ name) :
      Value.field? (Keyed.insert l.fields name w) g = lastSet (sets ++ [(name, v)]) g ∨
        ∃ t u, lastSet (sets ++ [(name, v)]) g = some (.table t) ∧
          Value.field? (Keyed.insert l.fields name w) g = some (.table u) := by
    rw [field?_insert, if_neg hne, lastSet_concat, if_neg hne]
    exact h g hg
  by_cases hregroups : Regroups name v
  · obtain ⟨hname, t, rfl⟩ := hregroups
    rw [layValue_group hname]
    rcases pairsBelow_ok_or_faulty ((Value.field? l.fields name).getD .null) with
      ⟨hlayable, pairs, hpairs⟩ | ⟨hnot, hfault⟩
    · rw [h.layable_iff hname] at hlayable
      rw [hpairs, Outcome.ok_bind]
      refine .inl ⟨fun ⟨_, w, hw, hnot⟩ => hnot (hlayable w hw), _, rfl, fun g hg => ?_⟩
      by_cases hgn : g = name
      · right
        rw [hgn, field?_insert, if_pos rfl, lastSet_concat, if_pos rfl]
        exact ⟨t, _, rfl, rfl⟩
      · exact helse hg hgn
    · rw [h.layable_iff hname] at hnot
      obtain ⟨w, hw⟩ := not_forall.1 hnot
      exact .inr ⟨⟨⟨hname, t, rfl⟩, w, Classical.not_imp.1 hw⟩, Faulty.bind_iff.2 (.inl hfault)⟩
  · refine .inl ⟨fun hc => hregroups hc.1, _, layValue_other hregroups, fun g hg => ?_⟩
    by_cases hgn : g = name
    · left
      rw [hgn, field?_insert, if_pos rfl, lastSet_concat, if_pos rfl]
    · exact helse hg hgn

/-- Assignments to nothing collide and are a fault, or leave the groups with what was last set. -/
theorem layValues_ok_or_faulty (sets : NamedValues) :
    (¬ Collides sets ∧ ∃ l, layValues {} sets = .ok l ∧ l.Has sets) ∨
      (Collides sets ∧ Faulty (layValues {} sets)) := by
  induction sets using List.reverseRecOn with
  | nil => exact .inl ⟨not_collides_nil, {}, rfl, fun g _ => .inl rfl⟩
  | append_singleton sets f ih =>
    obtain ⟨name, v⟩ := f
    rw [layValues_concat, collides_concat]
    rcases ih with ⟨hnot, l, hl, hhas⟩ | ⟨hcollides, hfault⟩
    · rw [hl, Outcome.ok_bind]
      rcases layValue_ok_or_faulty hhas name v with ⟨hclash, hok⟩ | ⟨hclash, hfault⟩
      · exact .inl ⟨not_or.2 ⟨hnot, hclash⟩, hok⟩
      · exact .inr ⟨.inr hclash, hfault⟩
    · exact .inr ⟨.inl hcollides, Faulty.bind_iff.2 (.inl hfault)⟩

end EvidenceLock
