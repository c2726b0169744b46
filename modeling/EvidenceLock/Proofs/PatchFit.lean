import EvidenceLock.Proofs.EditPlaces
import EvidenceLock.Proofs.Lines
import Mathlib.Data.List.Chain

/-!
# Where a patch fits

A patch is applied in one pass with one cursor that its hunks share. Here the outcome is said
without it: the patch is applied exactly when its hunks fit the lines (`HunksFit`), and then each of
their segments is replaced (`replaceSegments`); otherwise the failure is about the first hunk, and
in it about the first line, that does not fit (`Hunk.Offends`). The one fault is a hunk far outside
of the text, the number of which is too long to be reported (`FilePatch.apply_outcome`).
-/

namespace EvidenceLock

open EvidenceLock.Text EvidenceLock.Decimal

/-! ## What fits -/

/-- The texts of the context and removed lines. -/
def oldTexts (ls : List HunkLine) : List String :=
  (ls.filter fun l => l.kind != .add).map HunkLine.text

/-- Behind the first `n` lines stand the texts, up to white space at their ends. -/
def LinesMatch (lines : List String) (n : Nat) (texts : List String) : Prop :=
  ∀ (i : Nat) (text : String), texts[i]? = some text →
    ∃ old, lines[n + i]? = some old ∧ sameLine old text = true

/-- The number of old lines before those that follow the hunk. -/
def Hunk.stop (h : Hunk) : Int := h.offset + (h.oldLines : Int)

/-- The hunks fit the lines behind the first `n`: they stand in ascending order without overlap and
inside of the text, and each one finds its context and removed lines. -/
structure HunksFit (lines : List String) (n : Int) (hs : List Hunk) : Prop where
  first : ∀ h ∈ hs.head?, n ≤ h.offset
  ascending : hs.IsChain fun h k => h.stop ≤ k.offset
  inside : ∀ h ∈ hs, h.stop ≤ lines.length
  matching : ∀ h ∈ hs, LinesMatch lines h.offset.toNat (oldTexts h.lines)

/-- The lines behind the first `n`, with the segment of each hunk replaced: its lines are kept as
they are or dropped, and new ones are put between them. -/
def replaceSegments (lines : List String) : Nat → List Hunk → List String
  | n, [] => lines.drop n
  | n, h :: hs =>
    (lines.drop n).take (h.offset.toNat - n) ++
      h.steps.apply ((lines.drop h.offset.toNat).take h.oldLines) ++
      replaceSegments lines (h.offset.toNat + h.oldLines) hs

/-- The hunk starts outside of the text. -/
def Hunk.Outside (h : Hunk) (lines : List String) : Prop :=
  h.offset < 0 ∨ (lines.length : Int) < h.offset

/-- What is said of the first of the texts that does not stand where it should. -/
inductive LineOffends (file : String) (start : Int) (lines : List String) (n : Nat)
    (texts : List String) : Failure → Prop
  | pastEnd (i : Nat) (hbefore : LinesMatch lines n (texts.take i)) (hi : i < texts.length)
    (hend : lines.length ≤ n + i) :
    LineOffends file start lines n texts
      (.hunkRange s!"Hunk at line {start} runs past the end of {file}" file ((n + i : Nat) + 1))
  | mismatch (i : Nat) (hbefore : LinesMatch lines n (texts.take i)) {old text : String}
    (htext : texts[i]? = some text) (hold : lines[n + i]? = some old)
    (hdiff : sameLine old text = false) :
    LineOffends file start lines n texts
      (.hunkMismatch s!"Line {n + i + 1} of {file} does not match the patch" file
        ((n + i : Nat) + 1))

/-- What is said of a hunk behind the first `n` lines that does not fit: where it starts comes
before what its lines are. -/
inductive Hunk.Offends (file : String) (lines : List String) (n : Int) (h : Hunk) : Failure → Prop
  | outside (hout : h.Outside lines) (hwrite : writable h.oldStart = true) :
    Offends file lines n h
      (.hunkRange s!"Hunk start {h.oldStart} is out of range for {file} ({lines.length} lines)" file
        h.oldStart)
  | overlap (hin : ¬ h.Outside lines) (hn : h.offset < n) :
    Offends file lines n h
      (.hunkRange s!"Hunk at line {h.oldStart} overlaps the previous hunk in {file}" file
        h.oldStart)
  | line {f : Failure} (hin : ¬ h.Outside lines) (hn : n ≤ h.offset)
    (hf : LineOffends file h.oldStart lines h.offset.toNat (oldTexts h.lines) f) :
    Offends file lines n h f

/-- The line behind the last of the hunks, or `n` if there is none. -/
def hunksEnd (n : Int) (hs : List Hunk) : Int :=
  (hs.getLast?.map fun h => h.stop).getD n

/-- The first hunk that does not fit is one of `P`, a property of the line behind the hunks before
it and of the hunk. -/
def FirstUnfit (lines : List String) (n : Int) (P : Int → Hunk → Prop) (hs : List Hunk) : Prop :=
  ∃ before h after, hs = before ++ h :: after ∧ HunksFit lines n before ∧ P (hunksEnd n before) h

/-! ## Hunk by hunk -/

section
variable {lines : List String} {n : Int} {h : Hunk} {hs : List Hunk}

theorem HunksFit.nil : HunksFit lines n [] :=
  ⟨by simp, .nil, by simp, by simp⟩

theorem hunksFit_cons : HunksFit lines n (h :: hs) ↔
    n ≤ h.offset ∧ h.stop ≤ lines.length ∧
      LinesMatch lines h.offset.toNat (oldTexts h.lines) ∧
      HunksFit lines (h.stop) hs := by
  constructor
  · rintro ⟨hfirst, hasc, hinside, hmatch⟩
    rw [List.isChain_cons] at hasc
    rw [List.forall_mem_cons] at hinside hmatch
    exact ⟨hfirst h rfl, hinside.1, hmatch.1, hasc.1, hasc.2, hinside.2, hmatch.2⟩
  · rintro ⟨hn, hinside, hmatch, hrest⟩
    refine ⟨?_, List.isChain_cons.2 ⟨hrest.first, hrest.ascending⟩,
      List.forall_mem_cons.2 ⟨hinside, hrest.inside⟩,
      List.forall_mem_cons.2 ⟨hmatch, hrest.matching⟩⟩
    rintro k hk
    cases hk
    exact hn

theorem hunksEnd_cons (before : List Hunk) :
    hunksEnd n (h :: before) = hunksEnd (h.stop) before := by
  unfold hunksEnd
  rw [List.getLast?_cons]
  cases before.getLast? <;> rfl

/-- The first unfit hunk is the first of all, or that one fits and the others have one. -/
theorem firstUnfit_cons {P : Int → Hunk → Prop} : FirstUnfit lines n P (h :: hs) ↔
    P n h ∨ (HunksFit lines n [h] ∧ FirstUnfit lines (h.stop) P hs) := by
  constructor
  · rintro ⟨before, k, after, hsplit, hfit, hP⟩
    cases before with
    | nil =>
      cases hsplit
      exact .inl hP
    | cons b before =>
      cases hsplit
      rw [hunksEnd_cons] at hP
      obtain ⟨hn, hinside, hmatch, hrest⟩ := hunksFit_cons.1 hfit
      exact .inr ⟨hunksFit_cons.2 ⟨hn, hinside, hmatch, .nil⟩, before, k, after, rfl, hrest, hP⟩
  · rintro (hP | ⟨hfirst, before, k, after, rfl, hfit, hP⟩)
    · exact ⟨[], h, hs, rfl, .nil, hP⟩
    · obtain ⟨hn, hinside, hmatch, -⟩ := hunksFit_cons.1 hfirst
      refine ⟨h :: before, k, after, rfl, hunksFit_cons.2 ⟨hn, hinside, hmatch, hfit⟩, ?_⟩
      rwa [hunksEnd_cons]

end

/-! ## Line by line -/

section
variable {lines texts : List String} {n : Nat}

theorem LinesMatch.nil : LinesMatch lines n [] := by
  intro i text h
  simp at h

theorem linesMatch_cons {text : String} : LinesMatch lines n (text :: texts) ↔
    (∃ old, lines[n]? = some old ∧ sameLine old text = true) ∧ LinesMatch lines (n + 1) texts := by
  have hnext : ∀ i, n + 1 + i = n + (i + 1) := fun i => by omega
  constructor
  · intro h
    refine ⟨h 0 text rfl, fun i t ht => ?_⟩
    rw [hnext]
    exact h (i + 1) t ht
  · rintro ⟨hfirst, hrest⟩ i t ht
    cases i with
    | zero =>
      cases ht
      exact hfirst
    | succ i =>
      rw [← hnext]
      exact hrest i t ht

theorem LinesMatch.le_length (h : LinesMatch lines n texts) (hn : n ≤ lines.length) :
    n + texts.length ≤ lines.length := by
  rcases Nat.eq_zero_or_pos texts.length with h0 | hpos
  · omega
  · obtain ⟨text, htext⟩ : ∃ text, texts[texts.length - 1]? = some text :=
      ⟨_, List.getElem?_eq_getElem (by omega)⟩
    obtain ⟨old, hold, -⟩ := h _ _ htext
    have hlt := (List.getElem?_eq_some_iff.1 hold).1
    omega

variable {file : String} {start : Int} {f : Failure}

/-- The first line offends, or it stands where it should and a later one offends. -/
theorem lineOffends_cons {text : String} : LineOffends file start lines n (text :: texts) f ↔
    (lines[n]? = none ∧
      f = .hunkRange s!"Hunk at line {start} runs past the end of {file}" file (n + 1)) ∨
    (∃ old, lines[n]? = some old ∧ sameLine old text = false ∧
      f = .hunkMismatch s!"Line {n + 1} of {file} does not match the patch" file (n + 1)) ∨
    (∃ old, lines[n]? = some old ∧ sameLine old text = true) ∧
      LineOffends file start lines (n + 1) texts f := by
  have hnext : ∀ i, n + (i + 1) = n + 1 + i := fun i => by omega
  constructor
  · intro h
    cases h with
    | pastEnd i hbefore hi hend =>
      cases i with
      | zero => exact .inl ⟨List.getElem?_eq_none hend, rfl⟩
      | succ i =>
        rw [List.take_succ_cons, linesMatch_cons] at hbefore
        rw [hnext] at hend ⊢
        exact .inr (.inr ⟨hbefore.1, .pastEnd i hbefore.2 (Nat.lt_of_succ_lt_succ hi) hend⟩)
    | mismatch i hbefore htext hold hdiff =>
      cases i with
      | zero =>
        cases htext
        exact .inr (.inl ⟨_, hold, hdiff, rfl⟩)
      | succ i =>
        rw [List.take_succ_cons, linesMatch_cons] at hbefore
        rw [hnext] at hold ⊢
        exact .inr (.inr ⟨hbefore.1, .mismatch i hbefore.2 htext hold hdiff⟩)
  · rintro (⟨hnone, rfl⟩ | ⟨old, hold, hdiff, rfl⟩ | ⟨hfirst, h⟩)
    · exact .pastEnd 0 .nil (Nat.zero_lt_succ _) (List.getElem?_eq_none_iff.1 hnone)
    · exact .mismatch 0 .nil rfl hold hdiff
    · cases h with
      | pastEnd i hbefore hi hend =>
        rw [← hnext] at hend ⊢
        refine .pastEnd (i + 1) ?_ (Nat.succ_lt_succ hi) hend
        rw [List.take_succ_cons, linesMatch_cons]
        exact ⟨hfirst, hbefore⟩
      | mismatch i hbefore htext hold hdiff =>
        rw [← hnext] at hold ⊢
        refine .mismatch (i + 1) ?_ htext hold hdiff
        rw [List.take_succ_cons, linesMatch_cons]
        exact ⟨hfirst, hbefore⟩

theorem not_lineOffends_nil : ¬ LineOffends file start lines n [] f := by
  rintro (⟨i, -, hi, -⟩ | ⟨i, -, htext, -, -⟩)
  · cases hi
  · simp at htext

end

/-! ## The application -/

namespace Applying

/-- What remains of the lines is what stands behind those that were passed. -/
structure At (lines : List String) (a : Applying) : Prop where
  rest : a.rest = lines.drop a.passed
  passed : a.passed ≤ lines.length

section
variable {lines : List String} {file : String} {start : Int} {a b : Applying}

theorem At.next (ha : a.At lines) {old : String} {rest : List String} (hrest : a.rest = old :: rest)
    (output : List String) :
    At lines { passed := a.passed + 1, rest, output } ∧ lines[a.passed]? = some old := by
  have hdrop : lines.drop a.passed = old :: rest := by rw [← ha.rest, hrest]
  have hold : lines[a.passed]? = some old := by
    rw [← List.head?_drop, hdrop, List.head?_cons]
  have hlt := (List.getElem?_eq_some_iff.1 hold).1
  refine ⟨⟨?_, hlt⟩, hold⟩
  rw [← List.drop_drop, hdrop, List.drop_one, List.tail_cons]

theorem At.keep (ha : a.At lines) {n : Nat} (hn : a.passed + n ≤ lines.length) :
    At lines (a.keep n) := by
  refine ⟨?_, hn⟩
  simp only [Applying.keep]
  rw [ha.rest, List.drop_drop]

/-- A line of the old text is not there, or differs from the one of the hunk, or is passed. -/
theorem applyLines_old (ha : a.At lines) {kind : LineKind} (hkind : kind ≠ .add) (text : String)
    (ls : List HunkLine) :
    (lines[a.passed]? = none ∧ applyLines file start a (⟨kind, text⟩ :: ls) =
      fail (.hunkRange s!"Hunk at line {start} runs past the end of {file}" file (a.passed + 1))) ∨
    (∃ old, lines[a.passed]? = some old ∧ sameLine old text = false ∧
      applyLines file start a (⟨kind, text⟩ :: ls) =
        fail (.hunkMismatch s!"Line {a.passed + 1} of {file} does not match the patch" file
          (a.passed + 1))) ∨
    (∃ old, lines[a.passed]? = some old ∧ sameLine old text = true) ∧
      ∃ c : Applying, c.At lines ∧ c.passed = a.passed + 1 ∧
        applyLines file start a (⟨kind, text⟩ :: ls) = applyLines file start c ls := by
  cases hrest : a.rest with
  | nil =>
    have hend : lines[a.passed]? = none := by
      rw [List.getElem?_eq_none_iff, ← List.drop_eq_nil_iff, ← ha.rest, hrest]
    refine .inl ⟨hend, ?_⟩
    cases kind with
    | add => exact absurd rfl hkind
    | context => simp only [applyLines, hrest]
    | remove => simp only [applyLines, hrest]
  | cons old rest =>
    let output := if kind = .context then old :: a.output else a.output
    obtain ⟨hat, hold⟩ := ha.next hrest output
    have hline : applyLines file start a (⟨kind, text⟩ :: ls) =
        if sameLine old text = true then
          applyLines file start { passed := a.passed + 1, rest, output } ls
        else fail (.hunkMismatch s!"Line {a.passed + 1} of {file} does not match the patch" file
          (a.passed + 1)) := by
      cases kind with
      | add => exact absurd rfl hkind
      | context =>
        simp only [applyLines, hrest]
        rfl
      | remove =>
        simp only [applyLines, hrest]
        rfl
    cases hsame : sameLine old text with
    | false => exact .inr (.inl ⟨old, hold, hsame, by rw [hline, hsame]; rfl⟩)
    | true => exact .inr (.inr ⟨⟨old, hold, hsame⟩, _, hat, rfl, by rw [hline, if_pos hsame]⟩)

theorem oldTexts_cons {kind : LineKind} (hkind : kind ≠ .add) (text : String)
    (ls : List HunkLine) : oldTexts (⟨kind, text⟩ :: ls) = text :: oldTexts ls := by
  rw [oldTexts, List.filter_cons_of_pos (by simpa using hkind), List.map_cons, oldTexts]

theorem applyLines_ok_iff (ha : a.At lines) (ls : List HunkLine) :
    (∃ b, applyLines file start a ls = .ok b) ↔ LinesMatch lines a.passed (oldTexts ls) := by
  induction ls generalizing a with
  | nil => exact iff_of_true ⟨a, rfl⟩ .nil
  | cons l ls ih =>
    obtain ⟨kind, text⟩ := l
    by_cases hkind : kind = .add
    · subst hkind
      exact ih (a := { a with output := text :: a.output }) ⟨ha.rest, ha.passed⟩
    · rw [oldTexts_cons hkind, linesMatch_cons]
      rcases applyLines_old ha hkind text ls with
        ⟨hnone, heq⟩ | ⟨old, hold, hdiff, heq⟩ | ⟨⟨old, hold, hsame⟩, c, hc, hpassed, heq⟩
      · rw [heq]
        simp [hnone, fail]
      · rw [heq]
        simp [hold, hdiff, fail]
      · rw [heq, ih hc, hpassed]
        simp [hold, hsame]

theorem applyLines_fail_iff (ha : a.At lines) (ls : List HunkLine) {f : Failure} :
    applyLines file start a ls = fail f ↔
      LineOffends file start lines a.passed (oldTexts ls) f := by
  induction ls generalizing a with
  | nil =>
    refine iff_of_false ?_ not_lineOffends_nil
    intro h
    cases h
  | cons l ls ih =>
    obtain ⟨kind, text⟩ := l
    by_cases hkind : kind = .add
    · subst hkind
      exact ih (a := { a with output := text :: a.output }) ⟨ha.rest, ha.passed⟩
    · rw [oldTexts_cons hkind, lineOffends_cons]
      rcases applyLines_old ha hkind text ls with
        ⟨hnone, heq⟩ | ⟨old, hold, hdiff, heq⟩ | ⟨⟨old, hold, hsame⟩, c, hc, hpassed, heq⟩
      · rw [heq]
        simp [hnone, Outcome.fail_eq_fail]
      · rw [heq]
        simp [hold, hdiff, Outcome.fail_eq_fail]
      · rw [heq, ih hc, hpassed]
        simp [hold, hsame]

theorem applyLines_at {ls : List HunkLine} (ha : a.At lines)
    (h : applyLines file start a ls = .ok b) :
    b.At lines ∧ b.passed = a.passed + (oldTexts ls).length := by
  induction ls generalizing a with
  | nil =>
    cases h
    exact ⟨ha, rfl⟩
  | cons l ls ih =>
    obtain ⟨kind, text⟩ := l
    by_cases hkind : kind = .add
    · subst hkind
      exact ih (a := { a with output := text :: a.output }) ⟨ha.rest, ha.passed⟩ h
    · rcases applyLines_old ha hkind text ls with
        ⟨-, heq⟩ | ⟨old, -, -, heq⟩ | ⟨-, c, hc, hpassed, heq⟩
      · rw [heq] at h
        cases h
      · rw [heq] at h
        cases h
      · rw [heq] at h
        obtain ⟨hb, hend⟩ := ih hc h
        rw [oldTexts_cons hkind, List.length_cons]
        exact ⟨hb, by omega⟩

/-- A hunk that starts inside of the text and behind the passed lines is applied line by line. -/
theorem applyHunk_inside (file : String) {h : Hunk} (ha : a.At lines) (hin : ¬ h.Outside lines)
    (hn : a.passed ≤ h.offset) : ∃ c : Applying, c.At lines ∧ c.passed = h.offset.toNat ∧
      applyHunk file lines.length a h = applyLines file h.oldStart c h.lines := by
  rw [Hunk.Outside, not_or] at hin
  have hplace : a.passed + (h.offset.toNat - a.passed) = h.offset.toNat := by omega
  refine ⟨a.keep (h.offset.toNat - a.passed), ha.keep (by omega), hplace, ?_⟩
  rw [applyHunk, if_neg (not_or.2 hin), if_neg (by omega)]

theorem applyHunk_outside {h : Hunk} (hout : h.Outside lines) :
    applyHunk file lines.length a h = written h.oldStart >>= fun number => fail
      (.hunkRange s!"Hunk start {number} is out of range for {file} ({lines.length} lines)" file
        h.oldStart) := by
  exact if_pos hout

theorem applyHunk_overlap {h : Hunk} (hin : ¬ h.Outside lines) (hn : h.offset < a.passed) :
    applyHunk file lines.length a h = fail
      (.hunkRange s!"Hunk at line {h.oldStart} overlaps the previous hunk in {file}" file
        h.oldStart) := by
  exact (if_neg hin).trans (if_pos hn)

theorem length_oldTexts (h : Hunk) : (oldTexts h.lines).length = h.oldLines := by
  rw [oldTexts, List.length_map, Hunk.oldLines, List.countP_eq_length_filter]

theorem applyHunk_ok_iff (file : String) {h : Hunk} (ha : a.At lines) :
    (∃ b, applyHunk file lines.length a h = .ok b) ↔ HunksFit lines a.passed [h] := by
  rw [hunksFit_cons, and_iff_left (b := HunksFit lines h.stop []) .nil]
  by_cases hout : h.Outside lines
  · rw [applyHunk_outside hout]
    refine iff_of_false ?_ ?_
    · rintro ⟨b, hb⟩
      obtain ⟨number, -, hb⟩ := Outcome.bind_eq_ok.1 hb
      cases hb
    · rintro ⟨hn, hinside, -⟩
      rw [Hunk.stop] at hinside
      rcases hout with hout | hout <;> omega
  · by_cases hn : a.passed ≤ h.offset
    · obtain ⟨c, hc, hpassed, heq⟩ := applyHunk_inside file ha hout hn
      rw [heq, applyLines_ok_iff hc, hpassed, and_iff_right hn]
      refine ⟨fun hmatch => ⟨?_, hmatch⟩, And.right⟩
      -- The lines of the hunk are found in the text, so they end inside of it.
      have hend := hmatch.le_length (by rw [← hpassed]; exact hc.passed)
      rw [length_oldTexts] at hend
      rw [Hunk.stop]
      omega
    · rw [applyHunk_overlap hout (by omega)]
      refine iff_of_false ?_ fun h => hn h.1
      rintro ⟨b, hb⟩
      cases hb

theorem applyHunk_at {h : Hunk} (ha : a.At lines) (hb : applyHunk file lines.length a h = .ok b) :
    b.At lines ∧ (b.passed : Int) = h.stop := by
  obtain ⟨hn, hinside, -⟩ := hunksFit_cons.1 ((applyHunk_ok_iff file ha).1 ⟨b, hb⟩)
  rw [Hunk.stop] at hinside ⊢
  have hin : ¬ h.Outside lines := by
    rintro (hout | hout) <;> omega
  obtain ⟨c, hc, hpassed, heq⟩ := applyHunk_inside file ha hin hn
  rw [heq] at hb
  obtain ⟨hat, hend⟩ := applyLines_at hc hb
  rw [length_oldTexts] at hend
  exact ⟨hat, by omega⟩

theorem applyHunk_fail_iff {h : Hunk} {f : Failure} (ha : a.At lines) :
    applyHunk file lines.length a h = fail f ↔ h.Offends file lines a.passed f := by
  by_cases hout : h.Outside lines
  · rw [applyHunk_outside hout]
    cases hw : writable h.oldStart with
    | true =>
      rw [written_of_writable hw, Outcome.ok_bind, Outcome.fail_eq_fail]
      constructor
      · rintro rfl
        exact .outside hout hw
      · intro hf
        cases hf with
        | outside => rfl
        | overlap hin => exact absurd hout hin
        | line hin => exact absurd hout hin
    | false =>
      obtain ⟨g, hg⟩ := written_faulty.2 hw
      rw [hg]
      refine iff_of_false (fun h => by cases h) fun hf => ?_
      cases hf with
      | outside _ hw' =>
        rw [hw] at hw'
        cases hw'
      | overlap hin => exact absurd hout hin
      | line hin => exact absurd hout hin
  · by_cases hn : a.passed ≤ h.offset
    · obtain ⟨c, hc, hpassed, heq⟩ := applyHunk_inside file ha hout hn
      rw [heq, applyLines_fail_iff hc, hpassed]
      constructor
      · exact .line hout hn
      · intro hf
        cases hf with
        | outside hout' => exact absurd hout' hout
        | overlap _ hn' => omega
        | line _ _ hf => exact hf
    · rw [applyHunk_overlap hout (by omega), Outcome.fail_eq_fail]
      constructor
      · rintro rfl
        exact .overlap hout (by omega)
      · intro hf
        cases hf with
        | outside hout' => exact absurd hout' hout
        | overlap => rfl
        | line _ hn' => exact absurd hn' hn

theorem applyHunk_faulty_iff {h : Hunk} (ha : a.At lines) :
    Faulty (applyHunk file lines.length a h) ↔ h.Outside lines ∧ writable h.oldStart = false := by
  by_cases hout : h.Outside lines
  · rw [applyHunk_outside hout, Faulty.bind_iff, written_faulty, and_iff_right hout]
    exact or_iff_left fun ⟨_, _, h⟩ => Faulty.not_fail h
  · refine iff_of_false ?_ fun h => hout h.1
    by_cases hn : a.passed ≤ h.offset
    · obtain ⟨c, -, -, heq⟩ := applyHunk_inside file ha hout hn
      rw [heq]
      rintro ⟨f, hf⟩
      exact applyLines_faultless f hf
    · rw [applyHunk_overlap hout (by omega)]
      exact Faulty.not_fail

/-! ### All hunks -/

theorem foldlM_ok_iff (ha : a.At lines) (hs : List Hunk) :
    (∃ b, hs.foldlM (applyHunk file lines.length) a = .ok b) ↔ HunksFit lines a.passed hs := by
  induction hs generalizing a with
  | nil => exact iff_of_true ⟨a, rfl⟩ .nil
  | cons h hs ih =>
    rw [List.foldlM_cons]
    constructor
    · rintro ⟨b, hb⟩
      obtain ⟨c, hc, hb⟩ := Outcome.bind_eq_ok.1 hb
      obtain ⟨hn, hinside, hmatch, -⟩ := hunksFit_cons.1 ((applyHunk_ok_iff file ha).1 ⟨c, hc⟩)
      obtain ⟨hat, hstop⟩ := applyHunk_at ha hc
      have hrest := (ih hat).1 ⟨b, hb⟩
      rw [hstop] at hrest
      exact hunksFit_cons.2 ⟨hn, hinside, hmatch, hrest⟩
    · intro hfit
      obtain ⟨hn, hinside, hmatch, hrest⟩ := hunksFit_cons.1 hfit
      obtain ⟨c, hc⟩ := (applyHunk_ok_iff file ha).2
        (hunksFit_cons.2 ⟨hn, hinside, hmatch, .nil⟩)
      obtain ⟨hat, hstop⟩ := applyHunk_at ha hc
      rw [← hstop] at hrest
      obtain ⟨b, hb⟩ := (ih hat).2 hrest
      exact ⟨b, Outcome.bind_eq_ok.2 ⟨c, hc, hb⟩⟩

/-- What ends the application of the first hunk that does not fit ends the application of all;
`ends` is being one failure, or being a fault. -/
theorem foldlM_ends_iff {P : Int → Hunk → Prop} (ends : Outcome Applying → Prop)
    (hok : ∀ b, ¬ ends (.ok b))
    (hbind : ∀ (x : Outcome Applying) (k : Applying → Outcome Applying),
      ends (x >>= k) ↔ ends x ∨ ∃ b, x = .ok b ∧ ends (k b))
    (hhunk : ∀ {a : Applying} {h : Hunk}, a.At lines →
      (ends (applyHunk file lines.length a h) ↔ P a.passed h))
    (ha : a.At lines) (hs : List Hunk) :
    ends (hs.foldlM (applyHunk file lines.length) a) ↔ FirstUnfit lines a.passed P hs := by
  induction hs generalizing a with
  | nil =>
    refine iff_of_false (hok a) ?_
    rintro ⟨before, h, after, hsplit, -⟩
    simp at hsplit
  | cons h hs ih =>
    rw [List.foldlM_cons, hbind, hhunk ha, firstUnfit_cons]
    refine or_congr_right ?_
    constructor
    · rintro ⟨b, hb, hends⟩
      obtain ⟨hat, hstop⟩ := applyHunk_at ha hb
      rw [ih hat, hstop] at hends
      exact ⟨(applyHunk_ok_iff file ha).1 ⟨b, hb⟩, hends⟩
    · rintro ⟨hfit, hfirst⟩
      obtain ⟨b, hb⟩ := (applyHunk_ok_iff file ha).2 hfit
      obtain ⟨hat, hstop⟩ := applyHunk_at ha hb
      rw [← hstop, ← ih hat] at hfirst
      exact ⟨b, hb, hfirst⟩

end

end Applying

/-! ## The new lines -/

namespace Edit

/-- An edit of steps behind others is made of the lines behind theirs. -/
theorem apply_append {e s : Edit} {ls : List String} (h : reach e ≤ ls.length) :
    apply (e ++ s) ls = apply e (ls.take (reach e)) ++ apply s (ls.drop (reach e)) := by
  induction e generalizing ls with
  | nil => simp [reach]
  | cons step e ih =>
    cases step with
    | put t => simp only [List.cons_append, apply_put, reach, ih h]
    | keep =>
      obtain ⟨l, rest, rfl, hr⟩ := exists_cons_of_reach h
      simp only [List.cons_append, apply_keep, reach, List.take_succ_cons, List.drop_succ_cons,
        ih hr]
    | drop =>
      obtain ⟨l, rest, rfl, hr⟩ := exists_cons_of_reach h
      simp only [List.cons_append, apply_drop, reach, List.take_succ_cons, List.drop_succ_cons,
        ih hr]

theorem apply_replicate_keep {n : Nat} {ls : List String} (h : n ≤ ls.length) :
    apply (List.replicate n .keep) ls = ls := by
  induction n generalizing ls with
  | zero => exact apply_nil ls
  | succ n ih =>
    obtain ⟨l, rest, rfl⟩ := List.exists_cons_of_length_pos (Nat.zero_lt_of_lt h)
    rw [List.replicate_succ, apply_keep, ih (Nat.le_of_succ_le_succ h)]

/-- The number of lines that an edit puts, and of those that it drops. -/
def puts (e : Edit) : Nat := e.countP fun step => step matches .put _

def drops (e : Edit) : Nat := e.countP fun step => step matches .drop

theorem length_apply {e : Edit} {ls : List String} (h : reach e ≤ ls.length) :
    (apply e ls).length + drops e = ls.length + puts e := by
  induction e generalizing ls with
  | nil => simp [drops, puts]
  | cons step e ih =>
    cases step with
    | put t =>
      have hrest := ih h
      simp [drops, puts] at hrest ⊢
      omega
    | keep =>
      obtain ⟨l, rest, rfl, hr⟩ := exists_cons_of_reach h
      have hrest := ih hr
      simp [drops, puts] at hrest ⊢
      omega
    | drop =>
      obtain ⟨l, rest, rfl, hr⟩ := exists_cons_of_reach h
      have hrest := ih hr
      simp [drops, puts] at hrest ⊢
      omega

/-- Every new line is an old one or was put. -/
theorem mem_of_mem_apply {e : Edit} {ls : List String} {l : String} (h : reach e ≤ ls.length)
    (hl : l ∈ apply e ls) : l ∈ ls ∨ .put l ∈ e := by
  induction e generalizing ls with
  | nil =>
    rw [apply_nil] at hl
    exact .inl hl
  | cons step e ih =>
    cases step with
    | put t =>
      rw [apply_put] at hl
      rcases List.mem_cons.1 hl with rfl | hl
      · exact .inr List.mem_cons_self
      · exact (ih h hl).imp_right (List.mem_cons_of_mem _)
    | keep =>
      obtain ⟨old, rest, rfl, hr⟩ := exists_cons_of_reach h
      rcases List.mem_cons.1 hl with rfl | hl
      · exact .inl List.mem_cons_self
      · exact (ih hr hl).imp (List.mem_cons_of_mem _) (List.mem_cons_of_mem _)
    | drop =>
      obtain ⟨old, rest, rfl, hr⟩ := exists_cons_of_reach h
      exact (ih hr hl).imp (List.mem_cons_of_mem _) (List.mem_cons_of_mem _)

end Edit

/-- The edit of hunks that fit replaces their segments. -/
theorem apply_hunksEdit {lines : List String} {n : Nat} {hs : List Hunk}
    (hfit : HunksFit lines n hs) :
    (hunksEdit n hs).apply (lines.drop n) = replaceSegments lines n hs := by
  induction hs generalizing n with
  | nil => exact Edit.apply_nil _
  | cons h hs ih =>
    obtain ⟨hn, hinside, -, hrest⟩ := hunksFit_cons.1 hfit
    have hstop : h.stop = ((h.offset.toNat + h.oldLines : Nat) : Int) := by
      rw [Hunk.stop]
      omega
    rw [hstop] at hinside hrest
    have hplace : n + (h.offset.toNat - n) = h.offset.toNat := by omega
    have hkeep : h.offset.toNat - n ≤ (lines.drop n).length := by
      rw [List.length_drop]
      omega
    have hsteps : h.steps.reach ≤ (lines.drop h.offset.toNat).length := by
      rw [List.length_drop, Hunk.reach_steps]
      omega
    have hnext := ih hrest
    rw [hunksEdit, List.append_assoc, Edit.apply_append (by simpa using hkeep),
      Edit.reach_replicate_keep, Edit.apply_replicate_keep (by simpa using hkeep), List.drop_drop,
      hplace, Edit.apply_append hsteps, Hunk.reach_steps, List.drop_drop, hnext, replaceSegments,
      List.append_assoc]

/-- Steps that do something are those of the lines of the hunks. -/
theorem countP_hunksEdit {q : EditStep → Bool} (hq : q .keep = false) (n : Nat) (hs : List Hunk) :
    (hunksEdit n hs).countP q = (hs.flatMap Hunk.lines).countP fun l => q l.step := by
  induction hs generalizing n with
  | nil => rfl
  | cons h hs ih =>
    rw [hunksEdit, List.countP_append, List.countP_append, List.countP_replicate, hq, ih,
      List.flatMap_cons, List.countP_append, Hunk.steps, List.countP_map]
    simp [Function.comp_def]

theorem Text.length_linesOf_joinLines {ls : List String} (h : ∀ l ∈ ls, '\n' ∉ l.toList) :
    (linesOf (joinLines ls)).length = max 1 ls.length := by
  cases ls with
  | nil => rfl
  | cons l ls =>
    have hlength := (forall₂_readAs (List.cons_ne_nil l ls) h).length_eq
    rw [List.length_map] at hlength
    rw [linesOf, List.length_map, ← hlength, List.length_cons]
    omega

/-! ## Patches -/

/-- The number of added lines, and of removed ones. -/
def addedLines (hs : List Hunk) : Nat := (hs.flatMap Hunk.lines).countP fun l => l.kind == .add

def removedLines (hs : List Hunk) : Nat := (hs.flatMap Hunk.lines).countP fun l => l.kind == .remove

theorem FilePatch.length_apply_edit {p : FilePatch} {lines : List String}
    (h : p.edit.reach ≤ lines.length) :
    (p.edit.apply lines).length + removedLines p.hunks = lines.length + addedLines p.hunks := by
  have hputs : p.edit.puts = addedLines p.hunks := by
    refine (countP_hunksEdit rfl 0 p.hunks).trans (List.countP_congr fun l _ => ?_)
    obtain ⟨kind, text⟩ := l
    cases kind <;> simp [HunkLine.step]
  have hdrops : p.edit.drops = removedLines p.hunks := by
    refine (countP_hunksEdit rfl 0 p.hunks).trans (List.countP_congr fun l _ => ?_)
    obtain ⟨kind, text⟩ := l
    cases kind <;> simp [HunkLine.step]
  rw [← hputs, ← hdrops]
  exact Edit.length_apply h

/-- The lines that are put are added lines of the hunks. -/
theorem FilePatch.put_mem_edit {p : FilePatch} {text : String} (h : .put text ∈ p.edit) :
    ⟨.add, text⟩ ∈ p.hunks.flatMap Hunk.lines := by
  have hcount := countP_hunksEdit (q := fun step => step = .put text) rfl 0 p.hunks
  have hpos : 0 < (hunksEdit 0 p.hunks).countP fun step => step = .put text :=
    List.countP_pos_iff.2 ⟨_, h, by simp⟩
  rw [hcount, List.countP_pos_iff] at hpos
  obtain ⟨⟨kind, t⟩, hl, hstep⟩ := hpos
  cases kind with
  | add =>
    simp only [HunkLine.step, decide_eq_true_eq, EditStep.put.injEq] at hstep
    rwa [hstep] at hl
  | context => simp [HunkLine.step] at hstep
  | remove => simp [HunkLine.step] at hstep

/-- **What applying a patch gives.** A patch is applied exactly when its hunks fit the lines of the
text, and then it replaces their segments. Otherwise the first hunk that does not fit is reported,
except that a number which is too long to be written makes this a fault. -/
theorem FilePatch.apply_outcome (p : FilePatch) (content : String) :
    ((∃ new, p.apply content = .ok new) ↔ HunksFit (linesOf content) 0 p.hunks) ∧
    (∀ new, p.apply content = .ok new → ∃ lines,
      lines = replaceSegments (linesOf content) 0 p.hunks ∧ new = joinLines lines ∧
      lines.length + removedLines p.hunks = (linesOf content).length + addedLines p.hunks ∧
      ((∀ l ∈ p.hunks.flatMap Hunk.lines, l.kind = .add → '\n' ∉ l.text.toList) →
        (linesOf new).length = max 1 lines.length)) ∧
    (∀ f, p.apply content = fail f ↔ FirstUnfit (linesOf content) 0
      (fun n h => h.Offends p.file (linesOf content) n f) p.hunks) ∧
    (Faulty (p.apply content) ↔ FirstUnfit (linesOf content) 0
      (fun _ h => h.Outside (linesOf content) ∧ writable h.oldStart = false) p.hunks) := by
  let start : Applying := { passed := 0, rest := linesOf content, output := [] }
  have hstart : start.At (linesOf content) := ⟨rfl, Nat.zero_le _⟩
  have hok : (∃ new, p.apply content = .ok new) ↔
      ∃ b, p.hunks.foldlM (Applying.applyHunk p.file (linesOf content).length) start = .ok b := by
    constructor
    · rintro ⟨new, hnew⟩
      obtain ⟨lines, hlines, -⟩ := Outcome.map_eq_ok.1 hnew
      obtain ⟨b, hb, -⟩ := Outcome.bind_eq_ok.1 hlines
      exact ⟨b, hb⟩
    · rintro ⟨b, hb⟩
      exact ⟨_, Outcome.map_eq_ok.2 ⟨_, Outcome.bind_eq_ok.2 ⟨b, hb, rfl⟩, rfl⟩⟩
  refine ⟨hok.trans (Applying.foldlM_ok_iff hstart p.hunks), fun new hnew => ?_, fun f => ?_, ?_⟩
  · have hfit := (Applying.foldlM_ok_iff hstart p.hunks).1 (hok.1 ⟨new, hnew⟩)
    obtain ⟨-, hreach, hlines⟩ := FilePatch.apply_ok hnew
    refine ⟨p.edit.apply (linesOf content), apply_hunksEdit (n := 0) hfit, hlines,
      length_apply_edit hreach, fun hadded => ?_⟩
    rw [hlines]
    refine length_linesOf_joinLines fun l hl => ?_
    rcases Edit.mem_of_mem_apply hreach hl with hold | hput
    · exact not_mem_of_mem_linesOf hold
    · exact hadded _ (put_mem_edit hput) rfl
  · rw [FilePatch.apply, Outcome.map_eq_fail, FilePatch.applyLines, Outcome.bind_eq_fail,
      or_iff_left (by rintro ⟨b, -, hb⟩; cases hb)]
    exact Applying.foldlM_ends_iff (fun x => x = fail f) (fun b hb => by cases hb)
      (fun x k => Outcome.bind_eq_fail) Applying.applyHunk_fail_iff hstart p.hunks
  · have hmap : Faulty (p.apply content) ↔ Faulty (p.applyLines (linesOf content)) := by
      rw [FilePatch.apply]
      cases p.applyLines (linesOf content) <;> simp [Faulty, Except.map]
    rw [hmap, FilePatch.applyLines, Faulty.bind_ok_iff]
    exact Applying.foldlM_ends_iff Faulty (fun _ => Faulty.not_ok) (fun _ _ => Faulty.bind_iff)
      Applying.applyHunk_faulty_iff hstart p.hunks

/-- A hunk so far outside of any file that its place has too many digits to be reported. -/
def farHunk : Hunk :=
  { oldStart := Nat.pow 10 maxDigits, oldCount := 1, newStart := 1, newCount := 1,
    lines := [⟨.remove, "x"⟩] }

def farPatch : FilePatch := { FilePatch.ofHeaders "a.py" "a.py" with hunks := [farHunk] }

/-- **A hunk far outside** does not fit, but no failure says so. -/
theorem FilePatch.apply_farPatch :
    ¬ HunksFit (linesOf "x") 0 farPatch.hunks ∧
      farPatch.apply "x" = misuse .value unwritableMessage ∧ ∀ f, farPatch.apply "x" ≠ fail f := by
  have hlines : linesOf "x" = ["x"] := by decide
  have hfar : 1 < farHunk.offset := by
    have hpow : ∀ digits ≠ 0, (1 : Int) < (Nat.pow 10 digits : Int) - 1 := by
      intro digits hdigits
      have hten : 10 ≤ Nat.pow 10 digits := Nat.le_self_pow hdigits 10
      omega
    exact hpow maxDigits (by decide)
  -- The power itself is never computed: a number is not below itself.
  have hwrite : writable farHunk.oldStart = false := by
    show decide ((Nat.pow 10 maxDigits : Int).natAbs < Nat.pow 10 maxDigits) = false
    rw [Int.natAbs_natCast]
    exact decide_eq_false (Nat.lt_irrefl _)
  have happly : farPatch.apply "x" = misuse .value unwritableMessage := by
    have hhunk : Applying.applyHunk farPatch.file ["x"].length
        { passed := 0, rest := ["x"], output := [] } farHunk = _ :=
      Applying.applyHunk_outside (.inr hfar)
    have hwritten : written farHunk.oldStart = misuse .value unwritableMessage :=
      if_neg (by simp [hwrite])
    rw [hwritten] at hhunk
    rw [FilePatch.apply, FilePatch.applyLines, hlines]
    show ([farHunk].foldlM (Applying.applyHunk farPatch.file ["x"].length) _ >>= _).map _ = _
    rw [List.foldlM_cons, hhunk]
    rfl
  refine ⟨fun hfit => ?_, happly, fun f hf => ?_⟩
  · rw [hlines] at hfit
    have hinside := hfit.inside farHunk List.mem_cons_self
    rw [Hunk.stop, List.length_singleton] at hinside
    omega
  · rw [happly] at hf
    cases hf

end EvidenceLock
