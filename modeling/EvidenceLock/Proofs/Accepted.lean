import EvidenceLock.Proofs.Outcome
import EvidenceLock.Settings.Limits
import EvidenceLock.Settings.Load

/-!
# Settings that were accepted

Settings are made of named values, and only if they keep their rules. They have the values that they
were given, or the usual ones (`Settings.field?_report`), and a broken rule is never a foreseen
failure (`Settings.ofFields_unfailing`). Where the numbers that count something are whole, the rules
say about integers what they say about numbers (`Settings.Whole`), and the limits of duplicated
blocks are those of three integers in order (`Settings.Whole.blockLimits`).
-/

namespace EvidenceLock

/-! ## Whole numbers -/

namespace Number

variable {a b : Number} {i j : Int}

/-- Numbers that count as integers compare as these. -/
theorem compare?_of_toInt? (ha : a.toInt? = some i) (hb : b.toInt? = some j) :
    a.compare? b = some (compare i j) := by
  cases a with
  | float x => cases ha
  | flag x =>
    cases ha
    cases b with
    | float y => cases hb
    | flag y =>
      cases hb
      rfl
    | int y =>
      cases hb
      rfl
  | int x =>
    cases ha
    cases b with
    | float y => cases hb
    | flag y =>
      cases hb
      rfl
    | int y =>
      cases hb
      rfl

theorem lt_of_toInt? (ha : a.toInt? = some i) (hb : b.toInt? = some j) :
    a.lt b = decide (i < j) := by
  rw [← lt_int, lt, lt, compare?_of_toInt? ha hb, compare?_int]

theorem le_of_toInt? (ha : a.toInt? = some i) (hb : b.toInt? = some j) :
    a.le b = decide (i ≤ j) := by
  rw [← le_int, le, le, compare?_of_toInt? ha hb, compare?_int]

/-- A double that an integer does not exceed lies above all smaller integers, unless it is not a
number. -/
theorem compareInt?_of_lt {x : Float} (hij : i < j) (h : Decimal.compareInt? j x ≠ some .gt) :
    Decimal.compareInt? i x = none ∨ Decimal.compareInt? i x = some .lt := by
  unfold Decimal.compareInt? at h ⊢
  generalize Decimal.Binary.ofFloat x = value at h ⊢
  cases value with
  | nan => exact .inl rfl
  | infinite negative =>
    cases negative with
    | true => exact absurd rfl h
    | false => exact .inr rfl
  | finite negative m e =>
    dsimp only at h ⊢
    refine .inr (congrArg some ?_)
    have hden : (0 : Int) < ((Decimal.ratio m e).2 : Nat) :=
      Int.natCast_pos.2 (Nat.two_pow_pos _)
    have hle := Int.compare_ne_gt.1 fun hgt => h (congrArg some hgt)
    exact Int.compare_eq_lt.2 (Int.lt_of_lt_of_le (Int.mul_lt_mul_of_pos_right hij hden) hle)

/-- What is not below an integer is at most none that is smaller. -/
theorem le_eq_false_of_lt (h : a.lt (.int j) = false) (hij : i < j) : a.le (.int i) = false := by
  cases a with
  | float x =>
    have hnot : Decimal.compareInt? j x ≠ some .gt := by
      intro hgt
      simp [lt, compare?, toInt?, hgt] at h
    rcases compareInt?_of_lt hij hnot with hnone | hless
    · simp [le, compare?, toInt?, hnone]
    · simp [le, compare?, toInt?, hless]
  | flag x =>
    rw [lt_of_toInt? rfl rfl, decide_eq_false_iff_not] at h
    rw [le_of_toInt? rfl rfl, decide_eq_false_iff_not]
    omega
  | int x =>
    rw [lt_int, decide_eq_false_iff_not] at h
    rw [le_int, decide_eq_false_iff_not]
    omega

end Number

/-! ## Rules -/

theorem require_eq_ok {holds : Bool} {message : String} {u : Unit} :
    require holds message = .ok u ↔ holds = true := by
  unfold require
  cases holds with
  | false => exact iff_of_false (by simp [misuse]) (by simp)
  | true => exact iff_of_true rfl rfl

/-- Thresholds that were accepted keep their rules. -/
theorem Thresholds.ofFields_keeps {fields : NamedValues} {t : Thresholds}
    (h : ofFields fields = .ok t) : t.longFunction.lt 1 = false ∧ t.minLines.lt 1 = false ∧
      t.maxLines.lt t.minLines = false ∧ t.minOccurrences.lt 2 = false := by
  obtain ⟨-, -, h⟩ := Outcome.bind_eq_ok.1 h
  obtain ⟨longFunction, -, h⟩ := Outcome.bind_eq_ok.1 h
  obtain ⟨_, hlong, h⟩ := Outcome.bind_eq_ok.1 h
  obtain ⟨minLines, -, h⟩ := Outcome.bind_eq_ok.1 h
  obtain ⟨_, hmin, h⟩ := Outcome.bind_eq_ok.1 h
  obtain ⟨maxLines, -, h⟩ := Outcome.bind_eq_ok.1 h
  obtain ⟨_, hmax, h⟩ := Outcome.bind_eq_ok.1 h
  obtain ⟨minOccurrences, -, h⟩ := Outcome.bind_eq_ok.1 h
  obtain ⟨_, hocc, h⟩ := Outcome.bind_eq_ok.1 h
  cases h
  rw [require_eq_ok, Bool.not_eq_true'] at hlong hmin hmax hocc
  exact ⟨hlong, hmin, hmax, hocc⟩

/-- The cap of settings that were accepted is at least one. -/
theorem Settings.ofFields_maxEvidence {fields : NamedValues} {t : Thresholds}
    {g : GeneratorSettings} {s : Settings} (h : ofFields fields t g = .ok s) :
    s.maxEvidence.lt 1 = false := by
  obtain ⟨-, -, h⟩ := Outcome.bind_eq_ok.1 h
  obtain ⟨maxFileSize, -, h⟩ := Outcome.bind_eq_ok.1 h
  obtain ⟨-, -, h⟩ := Outcome.bind_eq_ok.1 h
  obtain ⟨maxEvidence, -, h⟩ := Outcome.bind_eq_ok.1 h
  obtain ⟨_, hcap, h⟩ := Outcome.bind_eq_ok.1 h
  obtain ⟨maxFixes, -, h⟩ := Outcome.bind_eq_ok.1 h
  obtain ⟨-, -, h⟩ := Outcome.bind_eq_ok.1 h
  rw [require_eq_ok, Bool.not_eq_true'] at hcap
  dsimp only at h
  split at h
  · cases h
    exact hcap
  · cases h

/-! ## Settings made of named values -/

theorem onlyKnown_eq_ok {group : String} {names : List String} {fields : NamedValues}
    (h : ∀ f ∈ fields, f.1 ∈ names) : onlyKnown group names fields = .ok () := by
  unfold onlyKnown
  split
  · rename_i name v hfind
    have hunknown := List.find?_some hfind
    have hknown := h _ (List.mem_of_find?_eq_some hfind)
    simp [hknown] at hunknown
  · rfl

theorem Value.ofNumber_of_number? {v : Value} {n : Number} (h : v.number? = some n) :
    Value.ofNumber n = v := by
  cases v <;> cases h <;> rfl

theorem Value.comparedWith_eq_ok {v : Value} {relation : String} {other n : Number}
    (h : v.comparedWith relation other = .ok n) : Value.ofNumber n = v := by
  unfold comparedWith at h
  split at h
  · rename_i hnumber
    cases h
    exact ofNumber_of_number? hnumber
  · cases h

theorem Value.comparedTo_eq_ok {v : Value} {relation : String} {other n : Number}
    (h : v.comparedTo relation other = .ok n) : Value.ofNumber n = v := by
  unfold comparedTo at h
  split at h
  · rename_i hnumber
    cases h
    exact ofNumber_of_number? hnumber
  · cases h

theorem some_valueOr {fields : NamedValues} {name : String} {v w : Value}
    (h : v = valueOr fields name w) : some v = (Value.field? fields name).or (some w) := by
  rw [h, valueOr]
  cases Value.field? fields name <;> rfl

/-- Thresholds that were accepted are the given values, or the usual ones. -/
theorem Thresholds.field?_report {fields : NamedValues} {t : Thresholds}
    (h : ofFields fields = .ok t) {name : String} (hname : name ∈ names) :
    Value.field? t.report name =
      (Value.field? fields name).or (Value.field? ({} : Thresholds).report name) := by
  obtain ⟨-, -, h⟩ := Outcome.bind_eq_ok.1 h
  obtain ⟨longFunction, hlong, h⟩ := Outcome.bind_eq_ok.1 h
  obtain ⟨-, -, h⟩ := Outcome.bind_eq_ok.1 h
  obtain ⟨minLines, hmin, h⟩ := Outcome.bind_eq_ok.1 h
  obtain ⟨-, -, h⟩ := Outcome.bind_eq_ok.1 h
  obtain ⟨maxLines, hmax, h⟩ := Outcome.bind_eq_ok.1 h
  obtain ⟨-, -, h⟩ := Outcome.bind_eq_ok.1 h
  obtain ⟨minOccurrences, hocc, h⟩ := Outcome.bind_eq_ok.1 h
  obtain ⟨-, -, h⟩ := Outcome.bind_eq_ok.1 h
  cases h
  simp only [names, List.mem_cons, List.not_mem_nil, or_false] at hname
  rcases hname with rfl | rfl | rfl | rfl
  · exact some_valueOr (Value.comparedWith_eq_ok hlong)
  · exact some_valueOr (Value.comparedWith_eq_ok hmin)
  · exact some_valueOr (Value.comparedWith_eq_ok hmax)
  · exact some_valueOr (Value.comparedWith_eq_ok hocc)

theorem GeneratorSettings.field?_report {fields : NamedValues} {g : GeneratorSettings}
    (h : ofFields fields = .ok g) {name : String} (hname : name ∈ names) :
    Value.field? g.report name =
      (Value.field? fields name).or (Value.field? ({} : GeneratorSettings).report name) := by
  obtain ⟨-, -, h⟩ := Outcome.bind_eq_ok.1 h
  obtain ⟨temperature, htemperature, h⟩ := Outcome.bind_eq_ok.1 h
  obtain ⟨-, -, h⟩ := Outcome.bind_eq_ok.1 h
  obtain ⟨maxTokens, htokens, h⟩ := Outcome.bind_eq_ok.1 h
  obtain ⟨-, -, h⟩ := Outcome.bind_eq_ok.1 h
  obtain ⟨timeout, htimeout, h⟩ := Outcome.bind_eq_ok.1 h
  obtain ⟨-, -, h⟩ := Outcome.bind_eq_ok.1 h
  cases h
  simp only [names, List.mem_cons, List.not_mem_nil, or_false] at hname
  rcases hname with rfl | rfl | rfl | rfl | rfl | rfl
  · exact some_valueOr rfl
  · exact some_valueOr rfl
  · exact some_valueOr rfl
  · exact some_valueOr (Value.comparedTo_eq_ok htemperature)
  · exact some_valueOr (Value.comparedWith_eq_ok htokens)
  · exact some_valueOr (Value.comparedWith_eq_ok htimeout)

theorem Value.str_of_str? {v : Value} {text : String} (h : v.str? = some text) :
    .str text = v := by
  cases v <;> cases h
  rfl

theorem Verbosity.name_of_named? {name : String} {v : Verbosity} (h : named? name = some v) :
    v.name = name := by
  simpa using List.find?_some h

theorem Settings.field?_report {fields : NamedValues} {t : Thresholds} {g : GeneratorSettings}
    {s : Settings} (h : ofFields fields t g = .ok s) {name : String} (hname : name ∈ names) :
    Value.field? s.report name =
      (Value.field? fields name).or (Value.field? ({} : Settings).report name) := by
  obtain ⟨-, -, h⟩ := Outcome.bind_eq_ok.1 h
  obtain ⟨maxFileSize, hsize, h⟩ := Outcome.bind_eq_ok.1 h
  obtain ⟨-, -, h⟩ := Outcome.bind_eq_ok.1 h
  obtain ⟨maxEvidence, hevidence, h⟩ := Outcome.bind_eq_ok.1 h
  obtain ⟨-, -, h⟩ := Outcome.bind_eq_ok.1 h
  obtain ⟨maxFixes, hfixes, h⟩ := Outcome.bind_eq_ok.1 h
  obtain ⟨-, -, h⟩ := Outcome.bind_eq_ok.1 h
  dsimp only at h
  split at h
  · rename_i verbosity hverbosity
    cases h
    simp only [names, List.mem_cons, List.not_mem_nil, or_false] at hname
    rcases hname with rfl | rfl | rfl | rfl | rfl | rfl | rfl | rfl
    · exact some_valueOr (Value.comparedWith_eq_ok hsize)
    · exact some_valueOr rfl
    · exact some_valueOr rfl
    · exact some_valueOr (Value.comparedWith_eq_ok hevidence)
    · exact some_valueOr rfl
    · exact some_valueOr (Value.comparedWith_eq_ok hfixes)
    · obtain ⟨word, hword, hnamed⟩ := Option.bind_eq_some_iff.1 hverbosity
      have hgiven := Value.str_of_str? hword
      rw [← Verbosity.name_of_named? hnamed] at hgiven
      exact some_valueOr hgiven
    · exact some_valueOr rfl
  · cases h

/-- Settings that were accepted have the groups that they were given. -/
theorem Settings.groups_of_ofFields {fields : NamedValues} {t : Thresholds} {g : GeneratorSettings}
    {s : Settings} (h : ofFields fields t g = .ok s) : s.thresholds = t ∧ s.generator = g := by
  obtain ⟨-, -, h⟩ := Outcome.bind_eq_ok.1 h
  obtain ⟨maxFileSize, -, h⟩ := Outcome.bind_eq_ok.1 h
  obtain ⟨-, -, h⟩ := Outcome.bind_eq_ok.1 h
  obtain ⟨maxEvidence, -, h⟩ := Outcome.bind_eq_ok.1 h
  obtain ⟨-, -, h⟩ := Outcome.bind_eq_ok.1 h
  obtain ⟨maxFixes, -, h⟩ := Outcome.bind_eq_ok.1 h
  obtain ⟨-, -, h⟩ := Outcome.bind_eq_ok.1 h
  dsimp only at h
  split at h
  · cases h
    exact ⟨rfl, rfl⟩
  · cases h

/-! ### Only the values count -/

section
variable {a b : NamedValues} (h : ∀ name, Value.field? a name = Value.field? b name)

include h

theorem valueOr_congr : valueOr a = valueOr b := by
  funext name v
  rw [valueOr, valueOr, h]

theorem Thresholds.ofFields_congr (ha : ∀ f ∈ a, f.1 ∈ names) (hb : ∀ f ∈ b, f.1 ∈ names) :
    ofFields a = ofFields b := by
  unfold ofFields
  rw [onlyKnown_eq_ok ha, onlyKnown_eq_ok hb, valueOr_congr h]

theorem GeneratorSettings.ofFields_congr (ha : ∀ f ∈ a, f.1 ∈ names) (hb : ∀ f ∈ b, f.1 ∈ names) :
    ofFields a = ofFields b := by
  unfold ofFields
  rw [onlyKnown_eq_ok ha, onlyKnown_eq_ok hb, valueOr_congr h]

theorem Settings.ofFields_congr (ha : ∀ f ∈ a, f.1 ∈ names) (hb : ∀ f ∈ b, f.1 ∈ names) :
    ofFields a = ofFields b := by
  funext t g
  unfold ofFields
  rw [onlyKnown_eq_ok ha, onlyKnown_eq_ok hb, valueOr_congr h]

end

/-! ### Broken rules are faults -/

namespace FailuresIn

variable {α β : Type}

theorem comparedWith (v : Value) (relation : String) (other : Number) :
    Unfailing (v.comparedWith relation other) := by
  unfold Value.comparedWith
  split
  · exact .ok _
  · exact .misuse _ _

theorem comparedTo (v : Value) (relation : String) (other : Number) :
    Unfailing (v.comparedTo relation other) := by
  unfold Value.comparedTo
  split
  · exact .ok _
  · exact .misuse _ _

theorem require (holds : Bool) (message : String) :
    Unfailing (EvidenceLock.require holds message) := by
  cases holds
  · exact .misuse _ _
  · exact .ok _

theorem checked {x : Outcome α} {holds : α → Bool} {message : String} {f : α → Outcome β}
    (hx : Unfailing x) (hf : ∀ a, Unfailing (f a)) :
    Unfailing (x >>= fun a => EvidenceLock.require (holds a) message >>= fun _ => f a) :=
  hx.bind fun a => (require (holds a) message).bind fun _ => hf a

theorem onlyKnown (group : String) (names : List String) (fields : NamedValues) :
    Unfailing (EvidenceLock.onlyKnown group names fields) := by
  unfold EvidenceLock.onlyKnown
  split
  · exact .misuse _ _
  · exact .ok _

end FailuresIn

theorem Thresholds.ofFields_unfailing (fields : NamedValues) : Unfailing (ofFields fields) := by
  refine .bind (.onlyKnown ..) fun _ => ?_
  refine .checked (.comparedWith ..) fun _ => .checked (.comparedWith ..) fun _ => ?_
  exact .checked (.comparedWith ..) fun _ => .checked (.comparedWith ..) fun _ => .ok _

theorem GeneratorSettings.ofFields_unfailing (fields : NamedValues) :
    Unfailing (ofFields fields) := by
  refine .bind (.onlyKnown ..) fun _ => .checked (.comparedTo ..) fun _ => ?_
  exact .checked (.comparedWith ..) fun _ => .checked (.comparedWith ..) fun _ => .ok _

theorem Settings.ofFields_unfailing (fields : NamedValues) (t : Thresholds)
    (g : GeneratorSettings) : Unfailing (ofFields fields t g) := by
  refine .bind (.onlyKnown ..) fun _ => .checked (.comparedWith ..) fun _ => ?_
  refine .checked (.comparedWith ..) fun _ => .checked (.comparedWith ..) fun _ => ?_
  dsimp only
  split
  · exact .ok _
  · exact .misuse _ _

theorem asConfiguration_error {α : Type} {start : String} {x : Outcome α} (hx : Unfailing x)
    {e : Error} (h : asConfiguration start x = .error e) :
    ∃ message, e = .failure (.configuration message []) := by
  unfold asConfiguration at h
  split at h
  · cases h
    exact ⟨_, rfl⟩
  · rename_i hfault
    cases e with
    | failure f => exact (hx.of_failure f h).elim
    | fault f => exact absurd h (hfault f)

theorem asConfiguration_eq_ok {α : Type} {start : String} {x : Outcome α} {a : α} :
    asConfiguration start x = .ok a ↔ x = .ok a := by
  unfold asConfiguration
  split
  · exact iff_of_false (by simp [fail]) (by simp)
  · rfl

/-- The usual values keep their rules. -/
theorem Thresholds.exists_usual : ∃ t, ofFields [] = .ok t := ⟨{}, rfl⟩

theorem GeneratorSettings.exists_usual : ∃ g, ofFields [] = .ok g := by
  have hsome : (ofFields []).toOption.isSome = true := by decide +kernel
  obtain ⟨g, hg⟩ := Option.isSome_iff_exists.1 hsome
  exact ⟨g, Outcome.eq_ok_of_toOption hg⟩

/-! ## Settings in whole numbers -/

/-- Settings that were accepted, with whole numbers for the cap of evidence and for what duplicated
blocks are counted by. A flag is a whole number too, zero or one, but a least length that is a flag
would be shown as one. -/
structure Settings.Whole (s : Settings) (cap minLines maxLines minOccurrences : Int) : Prop where
  thresholds : ∃ fields, Thresholds.ofFields fields = .ok s.thresholds
  accepted : ∃ fields, Settings.ofFields fields s.thresholds s.generator = .ok s
  cap : s.maxEvidence.toInt? = some cap
  minLines : s.thresholds.minLines = .int minLines
  maxLines : s.thresholds.maxLines.toInt? = some maxLines
  minOccurrences : s.thresholds.minOccurrences.toInt? = some minOccurrences

namespace Settings.Whole

variable {s : Settings} {cap minLines maxLines minOccurrences : Int}
  (h : s.Whole cap minLines maxLines minOccurrences)

include h

theorem one_le_cap : 1 ≤ cap := by
  obtain ⟨fields, hfields⟩ := h.accepted
  have hcap := ofFields_maxEvidence hfields
  rw [Number.lt_of_toInt? h.cap (j := 1) rfl, decide_eq_false_iff_not] at hcap
  omega

theorem limits_le : 1 ≤ minLines ∧ minLines ≤ maxLines ∧ 2 ≤ minOccurrences := by
  obtain ⟨fields, hfields⟩ := h.thresholds
  obtain ⟨-, hmin, hmax, hocc⟩ := Thresholds.ofFields_keeps hfields
  have hminLines : s.thresholds.minLines.toInt? = some minLines := congrArg Number.toInt? h.minLines
  rw [Number.lt_of_toInt? hminLines (j := 1) rfl, decide_eq_false_iff_not] at hmin
  rw [Number.lt_of_toInt? h.maxLines hminLines, decide_eq_false_iff_not] at hmax
  rw [Number.lt_of_toInt? h.minOccurrences (j := 2) rfl, decide_eq_false_iff_not] at hocc
  omega

/-- The limits of duplicated blocks are given by the whole numbers. -/
theorem blockLimits : s.thresholds.blockLimits =
    .ok (.of minLines.toNat maxLines.toNat minOccurrences.toNat) := by
  obtain ⟨hmin, hmax, hocc⟩ := h.limits_le
  have hwindow : s.thresholds.minLines.lineCount = .ok minLines.toNat := by
    rw [h.minLines]
    rfl
  have hgrow : (fun n : Nat => Number.lt (.int n) s.thresholds.maxLines) =
      fun n => decide (n < maxLines.toNat) := by
    funext n
    rw [Number.lt_of_toInt? rfl h.maxLines, decide_eq_decide]
    omega
  have hfew : (fun n : Nat => Number.lt (.int n) s.thresholds.minOccurrences) =
      fun n => decide (n < minOccurrences.toNat) := by
    funext n
    rw [Number.lt_of_toInt? rfl h.minOccurrences, decide_eq_decide]
    omega
  have henough : (fun n : Nat => Number.le s.thresholds.minOccurrences (.int n)) =
      fun n => decide (minOccurrences.toNat ≤ n) := by
    funext n
    rw [Number.le_of_toInt? h.minOccurrences rfl, decide_eq_decide]
    omega
  have hflag : s.thresholds.minLines.isFlag = false := by
    rw [h.minLines]
    rfl
  rw [Thresholds.blockLimits, hwindow, Outcome.ok_bind, hgrow, hfew, henough, hflag, BlockLimits.of]

end Settings.Whole

end EvidenceLock
