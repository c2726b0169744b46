import EvidenceLock.Logged
import Mathlib.Data.List.Forall2

/-!
# Outcomes and their faults

Facts about `Outcome` that every later module uses: how an answer of a sequence comes about, that
logging changes no outcome, and which faults a computation can end in. A computation without faults
may fail, but only for a foreseen reason (`Faultless.of_error`).
-/

namespace EvidenceLock

/-- Every element of the second list has its counterpart in the first one. -/
theorem exists_left_of_forall₂ {α β : Type} {R : α → β → Prop} {as : List α} {bs : List β}
    (h : List.Forall₂ R as bs) {b : β} (hb : b ∈ bs) : ∃ a ∈ as, R a b := by
  induction h with
  | nil => cases hb
  | @cons a c as bs hac _ ih =>
    rcases List.mem_cons.1 hb with rfl | hb
    · exact ⟨a, List.mem_cons_self, hac⟩
    · obtain ⟨a', ha', hR⟩ := ih hb
      exact ⟨a', List.mem_cons_of_mem a ha', hR⟩

namespace Outcome

variable {α β : Type}

@[simp] theorem ok_bind (a : α) (f : α → Outcome β) : ((.ok a : Outcome α) >>= f) = f a := rfl

@[simp] theorem error_bind (e : Error) (f : α → Outcome β) :
    ((.error e : Outcome α) >>= f) = .error e := rfl

theorem bind_eq_ok {x : Outcome α} {f : α → Outcome β} {b : β} :
    (x >>= f) = .ok b ↔ ∃ a, x = .ok a ∧ f a = .ok b := by
  cases x with
  | error e => simp [bind, Except.bind]
  | ok a => simp [bind, Except.bind]

theorem map_eq_ok {x : Outcome α} {f : α → β} {b : β} :
    x.map f = .ok b ↔ ∃ a, x = .ok a ∧ f a = b := by
  cases x <;> simp [Except.map]

theorem bind_eq_fail {x : Outcome α} {k : α → Outcome β} {f : Failure} :
    (x >>= k) = fail f ↔ x = fail f ∨ ∃ a, x = .ok a ∧ k a = fail f := by
  cases x with
  | error e => simp [fail]
  | ok a => simp [fail]

theorem map_eq_fail {x : Outcome α} {k : α → β} {f : Failure} : x.map k = fail f ↔ x = fail f := by
  cases x <;> simp [Except.map, fail]

theorem fail_eq_fail {f g : Failure} : (fail f : Outcome α) = fail g ↔ g = f := by
  constructor
  · intro h
    cases h
    rfl
  · rintro rfl
    rfl

/-- An answer found by evaluation. -/
theorem eq_ok_of_toOption {x : Outcome α} {a : α} (h : x.toOption = some a) : x = .ok a := by
  cases x with
  | error e => simp [Except.toOption] at h
  | ok b =>
    simp only [Except.toOption, Option.some.injEq] at h
    rw [h]

/-! ### Sequences -/

section
variable {f : α → Outcome β} {as : List α}

theorem mapM_eq_ok {g : α → β} (h : ∀ a ∈ as, f a = .ok (g a)) :
    as.mapM f = .ok (as.map g) := by
  induction as with
  | nil => rfl
  | cons a as ih =>
    rw [List.mapM_cons, h a List.mem_cons_self, ih fun a' ha' => h a' (List.mem_cons_of_mem a ha')]
    rfl

/-- A sequence answers element by element. -/
theorem forall₂_of_mapM_eq_ok {bs : List β} (h : as.mapM f = .ok bs) :
    List.Forall₂ (fun a b => f a = .ok b) as bs := by
  induction as generalizing bs with
  | nil =>
    cases h
    exact .nil
  | cons a as ih =>
    rw [List.mapM_cons] at h
    obtain ⟨b, hb, h⟩ := bind_eq_ok.1 h
    obtain ⟨bs, hbs, h⟩ := bind_eq_ok.1 h
    cases h
    exact .cons hb (ih hbs)

theorem exists_of_mapM_eq_ok {bs : List β} (h : as.mapM f = .ok bs) :
    ∀ b ∈ bs, ∃ a ∈ as, f a = .ok b := fun _ hb =>
  exists_left_of_forall₂ (forall₂_of_mapM_eq_ok h) hb

/-- A sequence whose elements all answer answers with all of them. -/
theorem exists_mapM_eq_ok {R : α → β → Prop} (h : ∀ a ∈ as, ∃ b, f a = .ok b ∧ R a b) :
    ∃ bs, as.mapM f = .ok bs ∧ List.Forall₂ R as bs := by
  induction as with
  | nil => exact ⟨[], rfl, .nil⟩
  | cons a as ih =>
    obtain ⟨b, hb, hab⟩ := h a List.mem_cons_self
    obtain ⟨bs, hbs, hrest⟩ := ih fun c hc => h c (List.mem_cons_of_mem a hc)
    refine ⟨b :: bs, ?_, .cons hab hrest⟩
    rw [List.mapM_cons, hb, ok_bind, hbs]
    rfl

/-- Where there is only one way to fail, a sequence fails so once an element does. -/
theorem mapM_eq_error {e : Error} (h : ∀ a ∈ as, f a = .error e ∨ ∃ b, f a = .ok b)
    (he : ∃ a ∈ as, f a = .error e) : as.mapM f = .error e := by
  induction as with
  | nil =>
    obtain ⟨a, ha, -⟩ := he
    cases ha
  | cons a as ih =>
    rw [List.mapM_cons]
    rcases h a List.mem_cons_self with ha | ⟨b, hb⟩
    · rw [ha]
      rfl
    · obtain ⟨c, hc, hfail⟩ := he
      rcases List.mem_cons.1 hc with rfl | hc
      · rw [hb] at hfail
        cases hfail
      · rw [hb, ok_bind, ih (fun d hd => h d (List.mem_cons_of_mem _ hd)) ⟨c, hc, hfail⟩]
        rfl

/-- A fold that adds at most one element at each step answers with what it adds at all of them. -/
theorem foldlM_eq_append {f : List β → α → Outcome (List β)} {g : α → Option β}
    (h : ∀ a ∈ as, ∀ bs, f bs a = .ok (bs ++ (g a).toList)) (bs : List β) :
    as.foldlM f bs = .ok (bs ++ as.filterMap g) := by
  induction as generalizing bs with
  | nil => exact congrArg Except.ok (List.append_nil bs).symm
  | cons a as ih =>
    rw [List.foldlM_cons, h a List.mem_cons_self, ok_bind,
      ih fun a' ha' => h a' (List.mem_cons_of_mem a ha'), List.append_assoc]
    cases hg : g a with
    | none => rw [List.filterMap_cons_none hg, Option.toList_none, List.nil_append]
    | some b => rw [List.filterMap_cons_some hg, Option.toList_some, List.singleton_append]

/-- What holds of the values before any step, and after each step if it did before, holds in the
end. -/
theorem foldlM_preserves {P : β → Prop} {step : β → α → Outcome β}
    (hstep : ∀ a b b', P b → step b a = .ok b' → P b') {b b' : β} (hb : P b)
    (h : as.foldlM step b = .ok b') : P b' := by
  induction as generalizing b with
  | nil =>
    cases h
    exact hb
  | cons a as ih =>
    rw [List.foldlM_cons] at h
    obtain ⟨c, hc, h⟩ := bind_eq_ok.1 h
    exact ih (hstep a b c hb hc) h

end

end Outcome

/-! ## Faults -/

/-- If the outcome is a fault, it is one of `P`. -/
def FaultsIn {α : Type} (P : Fault → Prop) (x : Outcome α) : Prop :=
  ∀ f, x = .error (.fault f) → P f

/-- The outcome is no fault. -/
abbrev Faultless {α : Type} (x : Outcome α) : Prop := FaultsIn (fun _ => False) x

def Faulty {α : Type} (x : Outcome α) : Prop := ∃ f, x = .error (.fault f)

theorem Faultless.of_not_faulty {α : Type} {x : Outcome α} (h : ¬ Faulty x) : Faultless x :=
  fun f hf => h ⟨f, hf⟩

namespace Faulty

variable {α β : Type}

theorem not_ok {a : α} : ¬ Faulty (.ok a : Outcome α) := by
  rintro ⟨f, hf⟩
  cases hf

theorem not_fail {g : Failure} : ¬ Faulty (fail g : Outcome α) := by
  rintro ⟨f, hf⟩
  cases hf

theorem misuse {kind : FaultKind} {message : String} :
    Faulty (EvidenceLock.misuse kind message : Outcome α) := ⟨_, rfl⟩

/-- An error that is handed on is a fault when it was one before. -/
theorem error_iff {e : Error} : Faulty (.error e : Outcome α) ↔ Faulty (.error e : Outcome β) := by
  cases e with
  | failure g => exact iff_of_false not_fail not_fail
  | fault f => exact iff_of_true ⟨f, rfl⟩ ⟨f, rfl⟩

/-- A sequence is a fault when its first part is one, or gives an answer with which the second part
is one. -/
theorem bind_iff {x : Outcome α} {f : α → Outcome β} :
    Faulty (x >>= f) ↔ Faulty x ∨ ∃ a, x = .ok a ∧ Faulty (f a) := by
  cases x with
  | error e => simp [Faulty]
  | ok a => simp [Faulty]

theorem bind_ok_iff {x : Outcome α} {f : α → β} : Faulty (x >>= fun a => .ok (f a)) ↔ Faulty x := by
  rw [bind_iff]
  exact or_iff_left fun ⟨_, _, h⟩ => not_ok h

/-- Where the first part answers or is a fault, and the second is one whatever the answer. -/
theorem bind_iff_or {x : Outcome α} {f : α → Outcome β} {Q : Prop}
    (hx : Faulty x ∨ ∃ a, x = .ok a) (hf : ∀ a, Faulty (f a) ↔ Q) :
    Faulty (x >>= f) ↔ Faulty x ∨ Q := by
  rw [bind_iff]
  simp only [hf]
  constructor
  · rintro (h | ⟨a, -, h⟩)
    · exact .inl h
    · exact .inr h
  · rintro (h | h)
    · exact .inl h
    · exact hx.imp_right fun ⟨a, ha⟩ => ⟨a, ha, h⟩

end Faulty

/-- Without faults, what is no answer is a foreseen failure. -/
theorem Faultless.of_error {α : Type} {x : Outcome α} {e : Error} (h : Faultless x)
    (hx : x = .error e) : ∃ f, e = .failure f := by
  cases e with
  | failure f => exact ⟨f, rfl⟩
  | fault f => exact (h f hx).elim

namespace FaultsIn

variable {α β : Type} {P Q : Fault → Prop}

theorem mono {x : Outcome α} (hPQ : ∀ f, P f → Q f) (h : FaultsIn P x) : FaultsIn Q x :=
  fun f hx => hPQ f (h f hx)

theorem ok (a : α) : FaultsIn P (.ok a : Outcome α) := by
  intro f h
  cases h

theorem fail (g : Failure) : FaultsIn P (EvidenceLock.fail g : Outcome α) := by
  intro f h
  cases h

theorem misuse {kind : FaultKind} {message : String} (h : P { kind, message }) :
    FaultsIn P (EvidenceLock.misuse kind message : Outcome α) := by
  intro f hf
  cases hf
  exact h

/-- An error that is handed on brings no other fault. -/
theorem error {x : Outcome α} {e : Error} (h : FaultsIn P x) (hx : x = .error e) :
    FaultsIn P (.error e : Outcome β) := by
  intro f hf
  cases hf
  exact h f hx

theorem bind {x : Outcome α} {f : α → Outcome β} (hx : FaultsIn P x)
    (hf : ∀ a, x = .ok a → FaultsIn P (f a)) : FaultsIn P (x >>= f) := by
  cases x with
  | error e =>
    intro g h
    exact hx g (by simpa using h)
  | ok a => exact hf a rfl

theorem map {x : Outcome α} (f : α → β) (hx : FaultsIn P x) : FaultsIn P (x.map f) := by
  cases x with
  | error e =>
    intro g h
    exact hx g (by simpa [Except.map] using h)
  | ok a => exact ok (f a)

theorem mapM {f : α → Outcome β} {as : List α} (hf : ∀ a ∈ as, FaultsIn P (f a)) :
    FaultsIn P (as.mapM f) := by
  induction as with
  | nil => exact ok []
  | cons a as ih =>
    rw [List.mapM_cons]
    refine (hf a List.mem_cons_self).bind fun b _ => ?_
    refine (ih fun a' ha' => hf a' (List.mem_cons_of_mem a ha')).bind fun bs _ => ?_
    exact ok (b :: bs)

theorem foldlM {f : β → α → Outcome β} {as : List α} (hf : ∀ b, ∀ a ∈ as, FaultsIn P (f b a))
    (b : β) : FaultsIn P (as.foldlM f b) := by
  induction as generalizing b with
  | nil => exact ok b
  | cons a as ih =>
    rw [List.foldlM_cons]
    refine (hf b a List.mem_cons_self).bind fun b' _ => ?_
    exact ih (fun b a' ha' => hf b a' (List.mem_cons_of_mem a ha')) b'

end FaultsIn

/-! ## Failures -/

/-- If the outcome is a foreseen failure, it is one of `P`. -/
structure FailuresIn {α : Type} (P : Failure → Prop) (x : Outcome α) : Prop where
  of_failure : ∀ f, x = .error (.failure f) → P f

/-- What is no answer is a fault. -/
abbrev Unfailing {α : Type} (x : Outcome α) : Prop := FailuresIn (fun _ => False) x

namespace FailuresIn

variable {α β : Type} {P Q : Failure → Prop}

theorem mono {x : Outcome α} (hPQ : ∀ f, P f → Q f) (h : FailuresIn P x) : FailuresIn Q x :=
  ⟨fun f hx => hPQ f (h.of_failure f hx)⟩

theorem ok (a : α) : FailuresIn P (.ok a : Outcome α) := ⟨fun _ h => by cases h⟩

theorem misuse (kind : FaultKind) (message : String) :
    FailuresIn P (EvidenceLock.misuse kind message : Outcome α) := ⟨fun _ h => by cases h⟩

theorem fail {f : Failure} (h : P f) : FailuresIn P (EvidenceLock.fail f : Outcome α) :=
  ⟨fun _ hf => by cases hf; exact h⟩

theorem bind_of_ok {x : Outcome α} {f : α → Outcome β} (hx : FailuresIn P x)
    (hf : ∀ a, x = .ok a → FailuresIn P (f a)) : FailuresIn P (x >>= f) := by
  cases x with
  | error e =>
    refine ⟨fun g h => hx.of_failure g ?_⟩
    simpa using h
  | ok a => exact hf a rfl

theorem bind {x : Outcome α} {f : α → Outcome β} (hx : FailuresIn P x)
    (hf : ∀ a, FailuresIn P (f a)) : FailuresIn P (x >>= f) := hx.bind_of_ok fun a _ => hf a

theorem mapM {f : α → Outcome β} {as : List α} (hf : ∀ a ∈ as, FailuresIn P (f a)) :
    FailuresIn P (as.mapM f) := by
  induction as with
  | nil => exact ok []
  | cons a as ih =>
    rw [List.mapM_cons]
    refine (hf a List.mem_cons_self).bind fun b => ?_
    exact (ih fun a' ha' => hf a' (List.mem_cons_of_mem a ha')).bind fun bs => ok (b :: bs)

theorem foldlM {f : β → α → Outcome β} {as : List α} (hf : ∀ b, ∀ a ∈ as, FailuresIn P (f b a))
    (b : β) : FailuresIn P (as.foldlM f b) := by
  induction as generalizing b with
  | nil => exact ok b
  | cons a as ih =>
    rw [List.foldlM_cons]
    refine (hf b a List.mem_cons_self).bind fun b' => ?_
    exact ih (fun b a' ha' => hf b a' (List.mem_cons_of_mem a ha')) b'

/-- Without failures, what is no fault is an answer. -/
theorem faulty_or_ok {x : Outcome α} (h : Unfailing x) : Faulty x ∨ ∃ a, x = .ok a := by
  cases x with
  | ok a => exact .inr ⟨a, rfl⟩
  | error e =>
    cases e with
    | failure f => exact (h.of_failure f rfl).elim
    | fault f => exact .inl ⟨f, rfl⟩

end FailuresIn

/-! ## Logging changes no outcome -/

namespace Logged

variable {α β : Type}

@[simp] theorem result_pure (a : α) : (pure a : Logged α).result = .ok a := rfl

@[simp] theorem result_write (log : Log) : (write log).result = .ok () := rfl

@[simp] theorem result_of (x : Outcome α) : (of x).result = x := rfl

@[simp] theorem result_bind (x : Logged α) (f : α → Logged β) :
    (x >>= f).result = x.result >>= fun a => (f a).result := by
  obtain ⟨log, result⟩ := x
  cases result <;> rfl

end Logged

end EvidenceLock
