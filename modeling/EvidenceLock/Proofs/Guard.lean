import EvidenceLock.Issue.Guard
import EvidenceLock.Proofs.LargeIntegers
import EvidenceLock.Proofs.Outcome

/-!
# What the guard says

The rules of the guard as predicates of an item (`EvidenceItem.Breaks`), and the search of the guard
as the first broken rule of the first item that breaks one (`First`). Everything is decided by them
but for one thing: an integer that rounds to infinity (`Value.TooLarge`) is no measurement the guard
can look at, and where the search meets one, it is a fault. `guardIssues_exact` says for every list
of issues which of the two it is.
-/

namespace EvidenceLock

/-- The first element of a list with a property. -/
inductive First {α : Type} (P : α → Prop) : List α → α → Prop
  | head {x : α} {xs : List α} (h : P x) : First P (x :: xs) x
  | tail {x y : α} {xs : List α} (h : ¬ P x) (hy : First P xs y) : First P (x :: xs) y

namespace First

variable {α : Type} {P : α → Prop} {x y : α} {xs : List α}

theorem cons_iff : First P (x :: xs) y ↔ (P x ∧ y = x) ∨ (¬ P x ∧ First P xs y) := by
  constructor
  · intro h
    cases h with
    | head h => exact .inl ⟨h, rfl⟩
    | tail h hy => exact .inr ⟨h, hy⟩
  · rintro (⟨h, rfl⟩ | ⟨h, hy⟩)
    · exact .head h
    · exact .tail h hy

theorem cons_iff_of_not (h : ¬ P x) : First P (x :: xs) y ↔ First P xs y := by
  simp [cons_iff, h]

theorem holds (h : First P xs x) : P x := by
  induction h with
  | head h => exact h
  | tail _ _ ih => exact ih

theorem mem (h : First P xs x) : x ∈ xs := by
  induction h with
  | head _ => exact List.mem_cons_self
  | tail _ _ ih => exact List.mem_cons_of_mem _ ih

/-- There is only one first element. -/
theorem unique (hx : First P xs x) (hy : First P xs y) : x = y := by
  induction hx with
  | head h =>
    cases hy with
    | head _ => rfl
    | tail hnot _ => exact absurd h hnot
  | tail hnot _ ih =>
    cases hy with
    | head h => exact absurd h hnot
    | tail _ hy => exact ih hy

end First

/-! ## The rules -/

namespace Value

/-- A text with something besides white space. -/
def Inked (v : Value) : Prop :=
  ∃ s : String, v = .str s ∧ ∃ c ∈ s.toList, Text.isBlank c = false

/-- A number that is finite and not negative, or a text with something besides white space. -/
inductive Measures : Value → Prop
  | int {i : Int} (h : 0 ≤ i) : Measures (.int i)
  | float {x : Float} {negative : Bool} {m : Nat} {e : Int}
    (hfinite : Decimal.Binary.ofFloat x = .finite negative m e) (h : 0.0 ≤ x) : Measures (.float x)
  | text {v : Value} (h : v.Inked) : Measures v

/-- An integer that rounds to infinity. -/
def TooLarge (v : Value) : Prop := ∃ i : Int, v = .int i ∧ Decimal.intLimit ≤ i.natAbs

end Value

/-- A measurement with a kind and a value to go by. -/
structure EvidenceMetric.Sound (m : EvidenceMetric) : Prop where
  kind : m.kind.Inked
  value : m.value.Measures

/-- The rules for an item, in the order in which they are checked. -/
def Lack.rules : List Lack := [.file, .range, .validRange, .metrics, .validMetric]

namespace EvidenceItem

/-- Two positive line numbers in order. -/
def Lines (i : EvidenceItem) : Prop :=
  ∃ first last : Int, i.first = .int first ∧ i.last = .int last ∧
    0 < first ∧ 0 < last ∧ first ≤ last

/-- The item breaks the rule. -/
def Breaks (i : EvidenceItem) : Lack → Prop
  | .items => False
  | .file => ¬ i.file.Inked
  | .range => i.first = .null ∨ i.last = .null
  | .validRange => ¬ i.Lines
  | .metrics => i.metrics.getD [] = []
  | .validMetric => ∃ m ∈ i.metrics.getD [], ¬ m.Sound

/-- The rule is the first one that the item breaks. -/
def FirstBreaks (i : EvidenceItem) (l : Lack) : Prop := First i.Breaks Lack.rules l

/-- The item names a file, lines of it and what is measured there. -/
structure Complete (i : EvidenceItem) : Prop where
  file : i.file.Inked
  lines : i.Lines
  measured : i.metrics.getD [] ≠ []
  sound : ∀ m ∈ i.metrics.getD [], m.Sound

end EvidenceItem

/-- The search of measurements does not go past this one. -/
def EvidenceMetric.Stops (m : EvidenceMetric) : Prop := ¬ m.Sound ∨ m.value.TooLarge

/-- The search of measurements ends at an integer that it cannot look at. -/
def MetricsOverflow (ms : List EvidenceMetric) : Prop :=
  ∃ m, First EvidenceMetric.Stops ms m ∧ m.kind.Inked ∧ m.value.TooLarge

/-- The search gets as far as the measurements of the item, and ends at an integer that it cannot
look at. -/
structure EvidenceItem.Overflows (i : EvidenceItem) : Prop where
  file : i.file.Inked
  lines : i.Lines
  measured : MetricsOverflow (i.metrics.getD [])

/-- The search of items does not go past this one. -/
def EvidenceItem.Stops (i : EvidenceItem) : Prop := ¬ i.Complete ∨ i.Overflows

namespace Issue

/-- There is an item, and every item is complete. -/
def Complete (i : Issue) : Prop := i.evidence ≠ [] ∧ ∀ e ∈ i.evidence, e.Complete

/-- The issue lacks items, or its first incomplete item breaks the rule first. -/
def FirstLack (i : Issue) (l : Lack) : Prop :=
  (i.evidence = [] ∧ l = .items) ∨ ∃ e, First (fun e => ¬ e.Complete) i.evidence e ∧
    e.FirstBreaks l

/-- The search ends at an integer that it cannot look at. -/
def Overflows (i : Issue) : Prop := ∃ e, First EvidenceItem.Stops i.evidence e ∧ e.Overflows

end Issue

/-! ## One value -/

namespace Value

theorem isInk_iff {v : Value} : v.isInk = true ↔ v.Inked := by
  cases v with
  | str s => simp [isInk, Inked, Text.hasInk, Text.allBlank]
  | _ => simp [isInk, Inked]

theorem line?_eq_some {v : Value} {i : Int} : v.line? = some i ↔ v = .int i ∧ 0 < i := by
  cases v with
  | int j =>
    simp only [line?, Option.ite_none_right_eq_some, Option.some.injEq, int.injEq]
    constructor
    · rintro ⟨h, rfl⟩
      exact ⟨rfl, h⟩
    · rintro ⟨rfl, h⟩
      exact ⟨h, rfl⟩
  | _ => simp [line?]

theorem isNull_iff {v : Value} : v.isNull = true ↔ v = .null := by
  cases v <;> simp [isNull]

/-- An integer that rounds to infinity cannot be told finite. -/
theorem TooLarge.isMeasure {v : Value} (h : v.TooLarge) :
    v.isMeasure = misuse .overflow "int too large to convert to float" := by
  obtain ⟨i, rfl, h⟩ := h
  exact if_pos (Decimal.nearestBits_eq_infinityBits_iff.2 h)

theorem isMeasure_of_not {v : Value} (h : ¬ v.TooLarge) :
    ∃ b, v.isMeasure = .ok b ∧ (b = true ↔ v.Measures) := by
  have htext {v : Value} (hint : ∀ i, v ≠ .int i) (hfloat : ∀ x, v ≠ .float x) :
      v.Measures ↔ v.isInk = true := by
    rw [isInk_iff]
    constructor
    · intro h
      cases h with
      | int _ => exact absurd rfl (hint _)
      | float _ _ => exact absurd rfl (hfloat _)
      | text h => exact h
    · exact .text
  cases v with
  | int i =>
    refine ⟨decide (0 ≤ i), if_neg fun hbits => ?_, ?_⟩
    · exact h ⟨i, rfl, Decimal.nearestBits_eq_infinityBits_iff.1 hbits⟩
    · rw [decide_eq_true_iff]
      constructor
      · exact .int
      · rintro (h | _ | ⟨_, ⟨⟩, -⟩)
        exact h
  | float x =>
    cases hx : Decimal.Binary.ofFloat x with
    | finite negative m e =>
      refine ⟨decide (0.0 ≤ x), by simp only [isMeasure, hx], ?_⟩
      rw [decide_eq_true_iff]
      constructor
      · exact .float hx
      · rintro (_ | ⟨-, h⟩ | ⟨_, ⟨⟩, -⟩)
        exact h
    | _ =>
      refine ⟨false, by simp only [isMeasure, hx], ?_⟩
      refine iff_of_false Bool.false_ne_true ?_
      rintro (_ | ⟨hfinite, -⟩ | ⟨_, ⟨⟩, -⟩)
      rw [hx] at hfinite
      cases hfinite
  | _ => exact ⟨_, rfl, (htext (by simp) (by simp)).symm⟩

end Value

/-! ## The search -/

/-- What a search for a lack gives: a fault, the first lack, or nothing. -/
inductive Lack.Found (overflows : Prop) (first : Lack → Prop) (complete : Prop) :
    Outcome (Option Lack) → Prop
  | overflow (h : overflows) :
    Found overflows first complete (misuse .overflow "int too large to convert to float")
  | lack {l : Lack} (hsmall : ¬ overflows) (h : first l) :
    Found overflows first complete (.ok (some l))
  | nothing (hsmall : ¬ overflows) (h : complete) : Found overflows first complete (.ok none)

theorem Lack.Found.congr {overflows overflows' complete complete' : Prop}
    {first first' : Lack → Prop} {x : Outcome (Option Lack)} (h : Found overflows first complete x)
    (ho : overflows ↔ overflows') (hf : ∀ l, first l ↔ first' l) (hc : complete ↔ complete') :
    Found overflows' first' complete' x := by
  cases h with
  | overflow h => exact .overflow (ho.1 h)
  | lack hsmall h => exact .lack (mt ho.2 hsmall) ((hf _).1 h)
  | nothing hsmall h => exact .nothing (mt ho.2 hsmall) (hc.1 h)

/-- **The measurements** are searched for the first that is not sound. -/
theorem metricsLack_found (ms : List EvidenceMetric) :
    Lack.Found (MetricsOverflow ms) (fun l => l = .validMetric ∧ ∃ m ∈ ms, ¬ m.Sound)
      (∀ m ∈ ms, m.Sound) (metricsLack ms) := by
  induction ms with
  | nil =>
    refine .nothing ?_ (by simp)
    rintro ⟨m, hm, -⟩
    cases hm
  | cons m rest ih =>
    -- An unsound measurement ends the search, unless its value is one that cannot be looked at.
    have hunsound (hsound : ¬ m.Sound) (hsmall : m.kind.Inked → ¬ m.value.TooLarge) :
        Lack.Found (MetricsOverflow (m :: rest))
          (fun l => l = .validMetric ∧ ∃ n ∈ m :: rest, ¬ n.Sound) (∀ n ∈ m :: rest, n.Sound)
          (.ok (some .validMetric)) := by
      refine .lack ?_ ⟨rfl, m, List.mem_cons_self, hsound⟩
      rintro ⟨n, hn, hink, hlarge⟩
      cases hn with
      | head _ => exact hsmall hink hlarge
      | tail hnot _ => exact hnot (.inl hsound)
    rw [metricsLack]
    by_cases hkind : m.kind.Inked
    · rw [Value.isInk_iff.2 hkind]
      by_cases hlarge : m.value.TooLarge
      · rw [hlarge.isMeasure]
        exact .overflow ⟨m, .head (.inr hlarge), hkind, hlarge⟩
      · obtain ⟨b, hb, hmeasures⟩ := Value.isMeasure_of_not hlarge
        rw [hb]
        cases b with
        | false =>
          exact hunsound (fun hs => absurd (hmeasures.2 hs.value) Bool.false_ne_true)
            fun _ => hlarge
        | true =>
          have hsound : m.Sound := ⟨hkind, hmeasures.1 rfl⟩
          have hpass : ¬ m.Stops := not_or.2 ⟨not_not.2 hsound, hlarge⟩
          refine ih.congr ?_ (fun l => ?_) ?_
          · simp only [MetricsOverflow, First.cons_iff_of_not hpass]
          · simp [hsound]
          · simp [hsound]
    · rw [Bool.eq_false_iff.2 (mt Value.isInk_iff.1 hkind)]
      exact hunsound (fun hs => hkind hs.kind) fun hink => absurd hink hkind

namespace EvidenceItem

variable {i : EvidenceItem}

theorem Lines.not_null (h : i.Lines) : ¬ (i.first = .null ∨ i.last = .null) := by
  obtain ⟨first, last, hfirst, hlast, -⟩ := h
  simp [hfirst, hlast]

/-- Line numbers are in order exactly when both are positive and the last one is not below the
first. -/
theorem lines_iff : i.Lines ↔
    ∃ first last, i.first.line? = some first ∧ i.last.line? = some last ∧ ¬ last < first := by
  simp only [Lines, Value.line?_eq_some, Int.not_lt]
  constructor
  · rintro ⟨first, last, hfirst, hlast, h₁, h₂, h⟩
    exact ⟨first, last, ⟨hfirst, h₁⟩, ⟨hlast, h₂⟩, h⟩
  · rintro ⟨first, last, ⟨hfirst, h₁⟩, ⟨hlast, h₂⟩, h⟩
    exact ⟨first, last, hfirst, hlast, h₁, h₂, h⟩

/-- A complete item breaks no rule. -/
theorem Complete.not_breaks (h : i.Complete) : ∀ l, ¬ i.Breaks l
  | .items => id
  | .file => fun hnot => hnot h.file
  | .range => h.lines.not_null
  | .validRange => fun hnot => hnot h.lines
  | .metrics => h.measured
  | .validMetric => fun ⟨m, hm, hnot⟩ => hnot (h.sound m hm)

open Classical in
/-- The rules for an item are checked one after the other. -/
theorem lack_eq (i : EvidenceItem) : i.lack =
    if i.Breaks .file then .ok (some .file)
    else if i.Breaks .range then .ok (some .range)
    else if i.Breaks .validRange then .ok (some .validRange)
    else if i.Breaks .metrics then .ok (some .metrics)
    else metricsLack (i.metrics.getD []) := by
  obtain ⟨file, first, last, metrics⟩ := i
  unfold EvidenceItem.lack
  simp only [Breaks, Bool.not_eq_true', Bool.or_eq_true, ← Bool.not_eq_true, Value.isInk_iff,
    Value.isNull_iff, lines_iff]
  congr 2
  cases first.line? with
  | none => simp
  | some m =>
    cases last.line? with
    | none => simp
    | some n =>
      by_cases h : n < m
      · simp [h]
      · rcases metrics with _ | _ | ⟨_, _⟩ <;> simp [h]

/-- **An item** is searched for the first rule that it breaks. -/
theorem lack_found (i : EvidenceItem) :
    Lack.Found i.Overflows i.FirstBreaks i.Complete i.lack := by
  rw [lack_eq]
  split_ifs with hfile hrange hlines hmetrics
  · exact .lack (fun h => hfile h.file) (.head hfile)
  · exact .lack (fun h => h.lines.not_null hrange) (.tail hfile (.head hrange))
  · exact .lack (fun h => hlines h.lines) (.tail hfile (.tail hrange (.head hlines)))
  · refine .lack (fun h => ?_) (.tail hfile (.tail hrange (.tail hlines (.head hmetrics))))
    obtain ⟨m, hm, -⟩ := h.measured
    rw [show i.metrics.getD [] = [] from hmetrics] at hm
    cases hm
  · -- The rules before the last one are kept, and it is the measurements that decide.
    refine (metricsLack_found _).congr ?_ (fun l => ?_) ?_
    · exact ⟨fun h => ⟨not_not.1 hfile, not_not.1 hlines, h⟩, Overflows.measured⟩
    · rw [FirstBreaks, Lack.rules, First.cons_iff_of_not hfile, First.cons_iff_of_not hrange,
        First.cons_iff_of_not hlines, First.cons_iff_of_not hmetrics, First.cons_iff]
      constructor
      · rintro ⟨rfl, h⟩
        exact .inl ⟨h, rfl⟩
      · rintro (⟨h, rfl⟩ | ⟨-, h⟩)
        · exact ⟨rfl, h⟩
        · cases h
    · exact ⟨fun h => ⟨not_not.1 hfile, not_not.1 hlines, hmetrics, h⟩, Complete.sound⟩

end EvidenceItem

/-- **The items** are searched for the first that is not complete. -/
theorem itemsLack_found (is : List EvidenceItem) :
    Lack.Found (∃ i, First EvidenceItem.Stops is i ∧ i.Overflows)
      (fun l => ∃ i, First (fun i => ¬ i.Complete) is i ∧ i.FirstBreaks l) (∀ i ∈ is, i.Complete)
      (itemsLack is) := by
  induction is with
  | nil =>
    refine .nothing ?_ (by simp)
    rintro ⟨i, hi, -⟩
    cases hi
  | cons i rest ih =>
    rw [itemsLack]
    -- The search goes past an item only if nothing was found in it.
    have hi := i.lack_found
    generalize i.lack = x at hi
    cases hi with
    | overflow h => exact .overflow ⟨i, .head (.inr h), h⟩
    | lack hsmall h =>
      have hnot : ¬ i.Complete := fun hc => hc.not_breaks _ h.holds
      refine .lack ?_ ⟨i, .head hnot, h⟩
      rintro ⟨j, hj, hover⟩
      cases hj with
      | head _ => exact hsmall hover
      | tail hpass _ => exact hpass (.inl hnot)
    | nothing hsmall h =>
      have hpass : ¬ i.Stops := not_or.2 ⟨not_not.2 h, hsmall⟩
      refine ih.congr ?_ (fun l => ?_) ?_
      · simp only [First.cons_iff_of_not hpass]
      · simp only [First.cons_iff, h, not_true_eq_false, false_and, false_or, not_false_eq_true,
          true_and]
      · simp [h]

namespace Issue

/-- **An issue** is searched for the first rule that its first incomplete item breaks. -/
theorem lack_found (i : Issue) : Lack.Found i.Overflows i.FirstLack i.Complete i.lack := by
  unfold Issue.lack
  split
  · rename_i hempty
    have hnone : i.evidence = [] := List.isEmpty_iff.1 hempty
    refine .lack ?_ (.inl ⟨hnone, rfl⟩)
    rintro ⟨e, he, -⟩
    rw [hnone] at he
    cases he
  · rename_i hempty
    have hsome : i.evidence ≠ [] := fun hnone => hempty (List.isEmpty_iff.2 hnone)
    refine (itemsLack_found i.evidence).congr Iff.rfl (fun l => ?_) ?_
    · simp [FirstLack, hsome]
    · simp [Complete, hsome]

/-- A complete issue lacks nothing. -/
theorem Complete.not_firstLack {i : Issue} (h : i.Complete) (l : Lack) : ¬ i.FirstLack l := by
  rintro (⟨hnone, -⟩ | ⟨e, he, -⟩)
  · exact h.1 hnone
  · exact he.holds (h.2 e he.mem)

/-- There is only one first lack. -/
theorem FirstLack.unique {i : Issue} {k l : Lack} (hk : i.FirstLack k) (hl : i.FirstLack l) :
    k = l := by
  rcases hk with ⟨hnone, rfl⟩ | ⟨e, he, hk⟩
  · rcases hl with ⟨-, rfl⟩ | ⟨d, hd, -⟩
    · rfl
    · rw [hnone] at hd
      cases hd
  · rcases hl with ⟨hnone, -⟩ | ⟨d, hd, hl⟩
    · rw [hnone] at he
      cases he
    · rw [he.unique hd] at hk
      exact First.unique hk hl

/-- What is looked at without a fault is complete exactly when nothing is found, and lacks first
what is found. -/
theorem lack_of_not_overflows {i : Issue} (h : ¬ i.Overflows) :
    ∃ l, i.lack = .ok l ∧ (l = none ↔ i.Complete) ∧ ∀ k, l = some k ↔ i.FirstLack k := by
  have hfound := i.lack_found
  generalize i.lack = x at hfound ⊢
  cases hfound with
  | overflow hover => exact absurd hover h
  | @lack l _ hl =>
    refine ⟨some l, rfl, iff_of_false (by simp) fun hc => hc.not_firstLack l hl, fun k => ?_⟩
    rw [Option.some.injEq]
    constructor
    · rintro rfl
      exact hl
    · exact hl.unique
  | nothing _ hc =>
    exact ⟨none, rfl, iff_of_true rfl hc, fun k => iff_of_false (by simp) (hc.not_firstLack k)⟩

theorem Overflows.lack {i : Issue} (h : i.Overflows) :
    i.lack = misuse .overflow "int too large to convert to float" := by
  have hfound := i.lack_found
  generalize i.lack = x at hfound ⊢
  cases hfound with
  | overflow _ => rfl
  | lack hsmall _ => exact absurd h hsmall
  | nothing hsmall _ => exact absurd h hsmall

theorem Overflows.guarded {i : Issue} (h : i.Overflows) :
    i.guarded = misuse .overflow "int too large to convert to float" := by
  unfold Issue.guarded
  rw [h.lack]
  rfl

/-- The verdict on an issue that is looked at without a fault. -/
structure Judged (i : Issue) (g : GuardedIssue) : Prop where
  same : g.toIssue = i
  complete_iff : g.complete = true ↔ i.Complete
  complete_iff_none : g.complete = true ↔ g.lack = none
  reason_iff : ∀ reason, g.lack = some reason ↔ ∃ l, i.FirstLack l ∧ l.reason = reason

theorem guarded_of_not_overflows {i : Issue} (h : ¬ i.Overflows) :
    ∃ g, i.guarded = .ok g ∧ i.Judged g := by
  obtain ⟨l, hl, hcomplete, hfirst⟩ := lack_of_not_overflows h
  refine ⟨{ i with complete := l.isNone, lack := l.map Lack.reason }, ?_, rfl, ?_, ?_, ?_⟩
  · unfold Issue.guarded
    rw [hl]
    rfl
  · rw [Option.isNone_iff_eq_none, hcomplete]
  · rw [Option.isNone_iff_eq_none, Option.map_eq_none_iff]
  · intro reason
    rw [Option.map_eq_some_iff]
    simp only [hfirst]

end Issue

/-- **The guard is exact** but for integers that round to infinity. An issue whose search ends at
such an integer is a fault; any other one lacks nothing exactly when it is complete, and lacks first
what its first incomplete item breaks first. A list with an issue of the first kind is a fault, and
any other list keeps its issues in order, each with the verdict that goes with it. -/
theorem guardIssues_exact (is : List Issue) :
    (∀ i : Issue,
      (i.Overflows ∧ i.lack = misuse .overflow "int too large to convert to float") ∨
      (¬ i.Overflows ∧
        ∃ l, i.lack = .ok l ∧ (l = none ↔ i.Complete) ∧ ∀ k, l = some k ↔ i.FirstLack k)) ∧
    (((∃ i ∈ is, i.Overflows) ∧
        guardIssues is = misuse .overflow "int too large to convert to float") ∨
      ((∀ i ∈ is, ¬ i.Overflows) ∧
        ∃ gs, guardIssues is = .ok gs ∧ List.Forall₂ Issue.Judged is gs)) := by
  refine ⟨fun i => ?_, ?_⟩
  · by_cases h : i.Overflows
    · exact .inl ⟨h, h.lack⟩
    · exact .inr ⟨h, Issue.lack_of_not_overflows h⟩
  · by_cases h : ∃ i ∈ is, i.Overflows
    · obtain ⟨i, hi, hover⟩ := h
      refine .inl ⟨⟨i, hi, hover⟩, Outcome.mapM_eq_error (fun j _ => ?_) ⟨i, hi, hover.guarded⟩⟩
      by_cases hj : j.Overflows
      · exact .inl hj.guarded
      · obtain ⟨g, hg, -⟩ := Issue.guarded_of_not_overflows hj
        exact .inr ⟨g, hg⟩
    · have hnone : ∀ i ∈ is, ¬ i.Overflows := fun i hi hover => h ⟨i, hi, hover⟩
      exact .inr ⟨hnone,
        Outcome.exists_mapM_eq_ok fun i hi => Issue.guarded_of_not_overflows (hnone i hi)⟩

/-- Two lines with a count that no double can hold. -/
def hugeItem : EvidenceItem :=
  { file := .str "a.py", first := .int 1, last := .int 2,
    metrics := some [{ kind := .str "loc", value := .int (Nat.pow 10 309) }] }

/-- A duplicated block that rests on them. -/
def hugeIssue : Issue :=
  { category := "duplication", signal := duplicateSignal, confidence := "high",
    evidence := [hugeItem] }

/-- Its evidence is complete, and yet the guard has no answer. -/
theorem guardIssues_huge :
    hugeIssue.Complete ∧ hugeIssue.lack = misuse .overflow "int too large to convert to float" ∧
      guardIssues [hugeIssue] = misuse .overflow "int too large to convert to float" := by
  have hfile : hugeItem.file.Inked := Value.isInk_iff.1 (by decide)
  have hlines : hugeItem.Lines := ⟨1, 2, rfl, rfl, by decide⟩
  have hloc : (Value.str "loc").Inked := Value.isInk_iff.1 (by decide)
  have hlarge : (Value.int (Nat.pow 10 309)).TooLarge := ⟨_, rfl, by decide +kernel⟩
  have hcomplete : hugeItem.Complete := by
    refine ⟨hfile, hlines, List.cons_ne_nil _ _, fun m hm => ?_⟩
    cases List.mem_singleton.1 hm
    exact ⟨hloc, .int (Int.natCast_nonneg _)⟩
  have hitem : hugeItem.Overflows := ⟨hfile, hlines, _, .head (.inr hlarge), hloc, hlarge⟩
  have hissue : hugeIssue.Overflows := ⟨hugeItem, .head (.inr hitem), hitem⟩
  refine ⟨⟨List.cons_ne_nil _ _, fun e he => ?_⟩, hissue.lack, ?_⟩
  · rw [List.mem_singleton.1 he]
    exact hcomplete
  · unfold guardIssues
    rw [List.mapM_cons, hissue.guarded]
    rfl

end EvidenceLock
