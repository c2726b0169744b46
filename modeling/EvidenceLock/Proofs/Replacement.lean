import EvidenceLock.Proofs.HunkLines
import EvidenceLock.Proofs.Scope
import EvidenceLock.Proofs.Snippet

/-!
# Replacing lines as they are shown

The prompt, the reader of diffs, the scope check and the application of patches count lines each in
their own way. They agree: a diff that replaces some lines of a snippet, under the numbers that the
snippet shows, is read, is in scope and replaces exactly these lines (`replacementDiff_applies`).
-/

namespace EvidenceLock

open EvidenceLock.Text EvidenceLock.Decimal

/-- The diff that replaces the lines `first` to `last` of a file. Its numbers must be short enough to
be written. -/
def replacementDiff (file : String) (first last : Nat) (shown new : List String) :
    Outcome String := do
  let start ← written first
  let count ← written (last + 1 - first : Nat)
  let newCount ← written new.length
  .ok (joinLines (
    ["--- a/" ++ file, "+++ b/" ++ file,
      "@@ -" ++ start ++ "," ++ count ++ " +" ++ start ++ "," ++ newCount ++ " @@"] ++
      shown.map ("-" ++ ·) ++ new.map ("+" ++ ·)))

/-- Lines of a hunk that remove some lines and then add others. -/
def replacementLines (old new : List String) : List HunkLine :=
  old.map (HunkLine.mk .remove) ++ new.map (HunkLine.mk .add)

/-- The patch that has these lines from line `first` on. -/
def replacementPatch (file : String) (first : Nat) (old new : List String) : FilePatch :=
  { file, oldPath := file, newPath := file
    hunks := [{ oldStart := first, oldCount := old.length, newStart := first
                newCount := new.length, lines := replacementLines old new }] }

/-! ## Writing the diff -/

theorem written_ok {i : Int} {s : String} (h : written i = .ok s) :
    writable i = true ∧ s = toString i := by
  unfold written at h
  split at h
  · rename_i hw
    exact ⟨hw, (Except.ok.inj h).symm⟩
  · cases h

/-- The diff can be written exactly if no number in it is too long. -/
theorem exists_replacementDiff {file : String} {first last : Nat} {shown new : List String} :
    (∃ diff, replacementDiff file first last shown new = .ok diff) ↔
      ∀ n ∈ [first, last + 1 - first, new.length], writable n = true := by
  simp only [List.forall_mem_cons, List.not_mem_nil, false_imp_iff, implies_true, and_true]
  constructor
  · rintro ⟨diff, h⟩
    obtain ⟨start, hstart, h⟩ := Outcome.bind_eq_ok.1 h
    obtain ⟨count, hcount, h⟩ := Outcome.bind_eq_ok.1 h
    obtain ⟨newCount, hnew, -⟩ := Outcome.bind_eq_ok.1 h
    exact ⟨(written_ok hstart).1, (written_ok hcount).1, (written_ok hnew).1⟩
  · rintro ⟨hstart, hcount, hnew⟩
    rw [replacementDiff, written_of_writable hstart, written_of_writable hcount,
      written_of_writable hnew]
    exact ⟨_, rfl⟩

/-- The rows of the diff. -/
def replacementRows (file : String) (first count : Nat) (shown new : List String) :
    List Diff.Line :=
  (Diff.oldMark ++ 'a' :: '/' :: file.toList) :: (Diff.newMark ++ 'b' :: '/' :: file.toList) ::
    Diff.rangesRow first count first new.length :: (replacementLines shown new).map HunkLine.row

theorem replacementDiff_ok {file diff : String} {first last : Nat} {shown new : List String}
    (h : replacementDiff file first last shown new = .ok diff) :
    (writable first = true ∧ writable (last + 1 - first : Nat) = true ∧
      writable new.length = true) ∧
      ∃ rows, diff = joinLines rows ∧ rows ≠ [] ∧
        rows.map String.toList = replacementRows file first (last + 1 - first) shown new := by
  obtain ⟨start, hstart, h⟩ := Outcome.bind_eq_ok.1 h
  obtain ⟨count, hcount, h⟩ := Outcome.bind_eq_ok.1 h
  obtain ⟨newCount, hnew, h⟩ := Outcome.bind_eq_ok.1 h
  obtain ⟨hwstart, rfl⟩ := written_ok hstart
  obtain ⟨hwcount, rfl⟩ := written_ok hcount
  obtain ⟨hwnew, rfl⟩ := written_ok hnew
  have hranges : ("@@ -" ++ toString (first : Int) ++ "," ++
      toString ((last + 1 - first : Nat) : Int) ++ " +" ++ toString (first : Int) ++ "," ++
      toString (new.length : Int) ++ " @@").toList =
      Diff.rangesRow first (last + 1 - first) first new.length := by
    have htext : ∀ n : Nat, (toString (n : Int)).toList = Nat.toDigits 10 n :=
      fun _ => String.toList_ofList
    simp only [String.toList_append, htext, Diff.rangesRow, Diff.rangeRow, List.append_assoc]
    rfl
  refine ⟨⟨hwstart, hwcount, hwnew⟩, _, (Except.ok.inj h).symm, by simp, ?_⟩
  rw [List.append_assoc, List.map_append, List.map_append, List.map_map, List.map_map,
    replacementRows, replacementLines, List.map_append, List.map_map, List.map_map,
    List.map_cons, List.map_cons, List.map_singleton, hranges]
  simp [Diff.oldMark, Diff.newMark, HunkLine.row, LineKind.marker, Function.comp_def]

/-! ## Reading the diff -/

theorem forall₂_readAs_replacementLines {shown new : List String} {rows : List Diff.Line}
    (hnew : ∀ l ∈ new, l.toList.getLast? ≠ some '\r')
    (h : List.Forall₂ ReadAs ((replacementLines shown new).map HunkLine.row) rows) :
    ∃ old, rows = (replacementLines old new).map HunkLine.row ∧
      List.Forall₂ (fun s o : String => ReadAs s.toList o.toList) shown old := by
  induction shown generalizing rows with
  | nil =>
    refine ⟨[], eq_of_forall₂_readAs h fun row hrow => ?_, .nil⟩
    obtain ⟨l, hl, rfl⟩ := List.mem_map.1 hrow
    obtain ⟨text, htext, rfl⟩ := List.mem_map.1 hl
    have hend := hnew text htext
    rw [HunkLine.row, List.getLast?_cons]
    cases hlast : text.toList.getLast? with
    | none => simp [LineKind.marker]
    | some c => rwa [hlast] at hend
  | cons s shown ih =>
    cases h with
    | @cons _ row _ rows hrow hrows =>
      have hremoved : ReadAs ('-' :: s.toList) row := hrow
      obtain ⟨tail, rfl, htail⟩ := hremoved.of_cons (by decide)
      obtain ⟨old, rfl, hold⟩ := ih hrows
      refine ⟨String.ofList tail :: old, ?_, .cons ?_ hold⟩
      · simp [replacementLines, HunkLine.row, LineKind.marker]
      · rwa [String.toList_ofList]

/-- **The rows of a replacement are read again**, where a removed line may have lost a carriage
return. -/
theorem splitLines_replacementRows {file : String} {first count : Nat} {shown new : List String}
    (hfile : Diff.PlainPath file) (hshown : ∀ l ∈ shown, '\n' ∉ l.toList)
    (hnew : ∀ l ∈ new, '\n' ∉ l.toList ∧ l.toList.getLast? ≠ some '\r') {rows : List String}
    (hne : rows ≠ []) (hrows : rows.map String.toList = replacementRows file first count shown new) :
    ∃ old, splitLines (joinLines rows).toList = replacementRows file first count old new ∧
      List.Forall₂ (fun s o : String => ReadAs s.toList o.toList) shown old := by
  have hlf : ∀ row ∈ replacementRows file first count shown new, '\n' ∉ row := by
    intro row hrow
    rcases List.mem_cons.1 hrow with rfl | hrow
    · simp [Diff.oldMark, hfile.lineFeed]
    rcases List.mem_cons.1 hrow with rfl | hrow
    · simp [Diff.newMark, hfile.lineFeed]
    rcases List.mem_cons.1 hrow with rfl | hrow
    · exact Diff.not_mem_rangesRow _ _ _ _
    obtain ⟨l, hl, rfl⟩ := List.mem_map.1 hrow
    rcases List.mem_append.1 hl with hl | hl
    · obtain ⟨text, htext, rfl⟩ := List.mem_map.1 hl
      simp [HunkLine.row, LineKind.marker, hshown text htext]
    · obtain ⟨text, htext, rfl⟩ := List.mem_map.1 hl
      simp [HunkLine.row, LineKind.marker, (hnew text htext).1]
  have hread := forall₂_readAs hne fun row hrow =>
    hlf row.toList (hrows ▸ List.mem_map_of_mem hrow)
  rw [hrows, replacementRows] at hread
  have hpath : ∀ (mark : Diff.Line) (side : Char),
      (mark ++ side :: '/' :: file.toList).getLast? ≠ some '\r' := by
    intro mark side
    have hnil : file.toList ≠ [] := by simpa using hfile.nonempty
    have hsplit : mark ++ side :: '/' :: file.toList = (mark ++ [side, '/']) ++ file.toList := by simp
    rw [hsplit, List.getLast?_append_of_ne_nil _ hnil]
    exact hfile.getLast?_ne
  generalize splitLines (joinLines rows).toList = read at hread
  cases hread with
  | cons hold hread => cases hread with
    | cons hnewPath hread => cases hread with
      | cons hranges hread =>
        obtain ⟨old, rfl, hshown⟩ :=
          forall₂_readAs_replacementLines (fun l hl => (hnew l hl).2) hread
        refine ⟨old, ?_, hshown⟩
        rw [hold.eq (hpath _ _), hnewPath.eq (hpath _ _),
          hranges.eq (by simp [Diff.getLast?_rangesRow])]
        rfl

theorem exists_getLast?_of_forall₂ {α β : Type} {R : α → β → Prop} {as : List α} {bs : List β}
    (h : List.Forall₂ R as bs) {b : β} (hb : b ∈ bs.getLast?) : ∃ a ∈ as.getLast?, R a b := by
  have hreverse := List.forall₂_reverse_iff.2 h
  rw [List.getLast?_eq_head?_reverse] at hb ⊢
  generalize as.reverse = as, bs.reverse = bs at hreverse hb ⊢
  cases hreverse with
  | nil => cases hb
  | cons hab _ =>
    cases hb
    exact ⟨_, rfl, hab⟩

namespace Diff

/-- Only the last removed line has an added line behind it. -/
theorem noneStartsFile_replacementLines {old new : List String}
    (h : ∀ o ∈ old.getLast?, ∀ n ∈ new.head?, startsWith o.toList ['-', '-', ' '] = true →
      startsWith n.toList ['+', '+', ' '] = false) :
    NoneStartsFile [] (replacementLines old new) := by
  induction old with
  | nil =>
    clear h
    induction new with
    | nil => trivial
    | cons n new ih => exact ⟨startsFile_row _ _, ih⟩
  | cons o old ih =>
    refine ⟨?_, ih fun p hp => ?_⟩
    · have hlooks : startsWith o.toList ['-', '-', ' '] = true →
          (newHeader? ((replacementLines old new).map HunkLine.row)).isSome = false := by
        intro ho
        cases old with
        | cons o' old => exact congrArg Option.isSome (newHeader?_remove o' _)
        | nil =>
          cases new with
          | nil => rfl
          | cons n new => exact (newHeader?_add n _).trans (h o rfl n rfl ho)
      change startsFile _ ((replacementLines old new).map HunkLine.row ++ []) = false
      rw [List.append_nil, startsFile_row]
      cases ho : startsWith o.toList ['-', '-', ' '] with
      | false => rfl
      | true => rw [hlooks ho, Bool.and_false]
    · cases old with
      | nil => cases hp
      | cons o' old => exact h p (by rwa [List.getLast?_cons_cons])

/-- **The rows of a replacement** are read as the patch that replaces the lines. -/
theorem parse_replacementRows {text file : String} {first : Nat} {old new : List String}
    (hlines : splitLines text.toList = replacementRows file first old.length old new)
    (hfile : PlainPath file) (hfirst : writable first = true) (hold : writable old.length = true)
    (hnew : writable new.length = true) (hne : old ≠ [])
    (hnone : NoneStartsFile [] (replacementLines old new)) :
    parse text = .ok [replacementPatch file first old new] := by
  have hink : ∀ l ∈ replacementRows file first old.length old new, allBlank l = false := by
    intro l hl
    rcases List.mem_cons.1 hl with rfl | hl
    · rfl
    rcases List.mem_cons.1 hl with rfl | hl
    · rfl
    rcases List.mem_cons.1 hl with rfl | hl
    · rfl
    obtain ⟨l, hline, rfl⟩ := List.mem_map.1 hl
    rcases List.mem_append.1 hline with hl | hl
    · obtain ⟨text, -, rfl⟩ := List.mem_map.1 hl
      rfl
    · obtain ⟨text, -, rfl⟩ := List.mem_map.1 hl
      rfl
  have hall : linesOf text = replacementRows file first old.length old new := by
    rw [linesOf, hlines]
    exact dropBlankEnd_eq fun l hl => hink l (List.mem_of_getLast? hl)
  have hheader := @hunkOfHeader_rangesRow first old.length first new.length [] List.not_mem_nil
    hfirst hold hfirst hnew
  have hmark : startsWith (rangesRow first old.length first new.length) hunkMark = true := rfl
  rw [List.append_nil] at hheader
  let start := Progress.addFile {} file file
  obtain ⟨q, hq, hread⟩ := readLines_hunk (p := start) (1 + 1 + 1) rfl hmark hheader hnone
  rw [List.append_nil] at hread
  rw [parse, hall, replacementRows, readLines_file, hfile.headerPath_eq (.inl rfl),
    hfile.headerPath_eq (.inr rfl), hread, readLines]
  have hresult : q.result = [replacementPatch file first old new] := by
    rw [Progress.result, hq]
    simp [FilePatch.ofHeaders, replacementPatch, trim, trimStart, trimEnd]
  have hchanges : (replacementPatch file first old new).hunks.any Hunk.changes = true := by
    obtain ⟨o, old, rfl⟩ := List.exists_cons_of_ne_nil hne
    rfl
  have hchecked : checked q.result = .ok [replacementPatch file first old new] := by
    rw [hresult, checked]
    simp [hchanges]
  exact hchecked

end Diff

/-! ## Scope -/

theorem checkLines_replacementLines {file : String} {ranges : List (Int × Int)} {cursor : Int}
    {old new : List String}
    (h : ∀ n, cursor ≤ n → n ≤ cursor + old.length → inRanges n ranges = true) :
    checkLines file ranges cursor (replacementLines old new) = .ok () := by
  induction old generalizing cursor with
  | nil =>
    have hcursor := h cursor (Int.le_refl _) (by simp)
    clear h
    induction new with
    | nil => rfl
    | cons n new ih =>
      change checkLines file ranges cursor (⟨.add, n⟩ :: replacementLines [] new) = .ok ()
      rw [checkLines]
      simp only [hcursor, if_true, ih]
  | cons o old ih =>
    have hcursor := h cursor (Int.le_refl _) (by omega)
    change checkLines file ranges cursor (⟨.remove, o⟩ :: replacementLines old new) = .ok ()
    rw [checkLines]
    simp only [hcursor, if_true]
    refine ih fun n hn hn' => h n (by omega) ?_
    rw [List.length_cons]
    omega

/-- A replacement is in scope when all its lines and the line behind them are cited. -/
theorem checkScope_replacementPatch {file : String} {first : Nat} {old new : List String}
    {c : Citation} (hfile : c.file = file) (hfirst : c.first ≤ first)
    (hlast : first + old.length ≤ c.last) :
    checkScope (allowedRanges [c]) [replacementPatch file first old new] = .ok () := by
  have hranges : (allowedRanges [c]).find? file = some [(c.first, c.last)] := by
    simp [allowedRanges, Keyed.push, Keyed.find?_alter, hfile]
  have hcited : ∀ n : Int, (first : Int) ≤ n → n ≤ first + old.length →
      inRanges n [(c.first, c.last)] = true := by
    intro n hn hn'
    simp only [inRanges, List.any_cons, List.any_nil, Bool.or_false, Bool.and_eq_true,
      decide_eq_true_eq]
    omega
  rw [checkScope_ok]
  intro p hp
  rw [List.mem_singleton.1 hp, FilePatch.checkScope, replacementPatch, hranges]
  refine checkHunks_ok.2 fun h hh => ?_
  rw [List.mem_singleton.1 hh]
  exact checkLines_replacementLines hcited

/-! ## Application -/

theorem Applying.applyLines_replacementLines {file : String} {start : Int} {passed : Nat}
    {before old rest output new : List String}
    (h : List.Forall₂ (fun a b => sameLine a b = true) before old) :
    applyLines file start ⟨passed, before ++ rest, output⟩ (replacementLines old new) =
      .ok ⟨passed + before.length, rest, new.reverse ++ output⟩ := by
  induction h generalizing passed with
  | nil =>
    induction new generalizing output with
    | nil => rfl
    | cons n new ih =>
      change applyLines file start ⟨passed, rest, n :: output⟩ (replacementLines [] new) = _
      have hrest := @ih (n :: output)
      rw [List.nil_append] at hrest
      rw [hrest, List.reverse_cons, List.append_assoc, List.singleton_append]
  | @cons a b before old hsame _ ih =>
    change applyLines file start ⟨passed, a :: (before ++ rest), output⟩
      (⟨.remove, b⟩ :: replacementLines old new) = _
    rw [applyLines]
    have hkind : LineKind.remove ≠ .context := by decide
    have hpassed : passed + 1 + before.length = passed + (a :: before).length := by
      rw [List.length_cons]
      omega
    simp only [hsame, if_true, if_neg hkind, ih, hpassed]

/-- A replacement puts its new lines in the place of those that it removes. -/
theorem applyLines_replacementPatch {file : String} {before removed after old new : List String}
    (h : List.Forall₂ (fun a b => sameLine a b = true) removed old) (hne : old ≠ []) :
    (replacementPatch file (before.length + 1) old new).applyLines (before ++ removed ++ after) =
      .ok (before ++ new ++ after) := by
  have hcount : (0 : Int) < old.length := Int.ofNat_lt.2 (List.length_pos_iff.2 hne)
  have hoffset : ((before.length + 1 : Nat) : Int) - 1 = before.length := by omega
  have hrange : ¬ ((before.length : Int) < 0 ∨
      (((before ++ removed ++ after).length : Nat) : Int) < before.length) := by
    simp only [List.length_append]
    omega
  have hpassed : ¬ ((before.length : Int) < ((0 : Nat) : Int)) := by omega
  have hkeep : ({ passed := 0, rest := before ++ removed ++ after, output := [] } : Applying).keep
      before.length = ⟨before.length, removed ++ after, before.reverse⟩ := by
    simp [Applying.keep]
  have hlines : Applying.applyLines file (before.length + 1 : Nat)
      ⟨before.length, removed ++ after, before.reverse⟩ (replacementLines old new) =
        .ok ⟨before.length + removed.length, after, new.reverse ++ before.reverse⟩ :=
    Applying.applyLines_replacementLines h
  rw [FilePatch.applyLines, replacementPatch, List.foldlM_cons, Applying.applyHunk, Hunk.offset]
  simp only [hcount, if_true, hoffset, hrange, hpassed, if_false, Int.toNat_natCast, Nat.sub_zero,
    hkeep, hlines]
  simp [Applying.finish]

theorem buildOverlay_singleton {read : Reader} {p : FilePatch} {content : String}
    {new : List String} (hread : read p.file = .ok content)
    (h : p.applyLines (linesOf content) = .ok new) :
    buildOverlay read [p] = .ok [(p.file, joinLines new)] := by
  have happly : p.apply content = .ok (joinLines new) := by
    rw [FilePatch.apply, h]
    rfl
  rw [buildOverlay, List.foldlM_cons, applyToOverlay_eq, Reader.through_nil, hread,
    Outcome.ok_bind, happly]
  rfl

/-! ## The whole way -/

theorem sameLine_of_readAs {s o : String} (h : ReadAs s.toList o.toList) :
    sameLine s o = true := by
  rw [sameLine, beq_iff_eq]
  rcases h with h | h
  · rw [h]
  · rw [h, trimEnd_concat _ (by decide)]

/-- The diff that replaces lines of a text is read as a patch that applies to the text. -/
theorem replacementDiff_reads {content file diff : String} {before removed after new : List String}
    (hlines : linesOf content = before ++ removed ++ after) (hne : removed ≠ [])
    (hfile : Diff.PlainPath file)
    (hnew : ∀ l ∈ new, '\n' ∉ l.toList ∧ l.toList.getLast? ≠ some '\r')
    (hmarks : ¬ ((∃ l ∈ removed.getLast?, "-- ".toList <+: l.toList) ∧
      ∃ l ∈ new.head?, "++ ".toList <+: l.toList))
    (hdiff : replacementDiff file (before.length + 1) (before.length + removed.length) removed new =
      .ok diff) :
    ∃ old, old.length = removed.length ∧
      Diff.parse diff = .ok [replacementPatch file (before.length + 1) old new] ∧
      (replacementPatch file (before.length + 1) old new).applyLines (linesOf content) =
        .ok (before ++ new ++ after) := by
  have hcount : before.length + removed.length + 1 - (before.length + 1) = removed.length := by
    omega
  obtain ⟨⟨hfirst, hwritable, hnewCount⟩, rows, rfl, hrowsne, hrows⟩ := replacementDiff_ok hdiff
  have hshown : ∀ l ∈ removed, '\n' ∉ l.toList := by
    intro l hl
    have hmem : l ∈ linesOf content := by
      rw [hlines]
      exact List.mem_append_left _ (List.mem_append_right _ hl)
    exact not_mem_of_mem_linesOf hmem
  obtain ⟨old, hold, hread⟩ := splitLines_replacementRows hfile hshown hnew hrowsne hrows
  have hlen : old.length = removed.length := hread.length_eq.symm
  have holdne : old ≠ [] := by rwa [← List.length_pos_iff, hlen, List.length_pos_iff]
  rw [hcount, ← hlen] at hold hwritable
  have hnone : Diff.NoneStartsFile [] (replacementLines old new) := by
    refine Diff.noneStartsFile_replacementLines fun o ho n hn hlooks => ?_
    obtain ⟨l, hl, hlo⟩ := exists_getLast?_of_forall₂ hread ho
    rw [Bool.eq_false_iff]
    intro hadds
    refine hmarks ⟨⟨l, hl, ?_⟩, ⟨n, hn, List.isPrefixOf_iff_prefix.1 hadds⟩⟩
    exact (List.isPrefixOf_iff_prefix.1 hlooks).trans hlo.prefix_of
  refine ⟨old, hlen,
    Diff.parse_replacementRows hold hfile hfirst hwritable hnewCount holdne hnone, ?_⟩
  rw [hlines]
  exact applyLines_replacementPatch (hread.imp fun _ _ h => sameLine_of_readAs h) holdne

theorem exists_three_parts (lines : List String) {m n : Nat} (hmn : m ≤ n)
    (hn : n ≤ lines.length) : ∃ before removed after, lines = before ++ removed ++ after ∧
      before.length = m ∧ removed.length = n - m := by
  refine ⟨lines.take m, (lines.drop m).take (n - m), lines.drop n, ?_, ?_, ?_⟩
  · rw [← List.take_add, Nat.add_sub_cancel' hmn, List.take_append_drop]
  · rw [List.length_take, Nat.min_eq_left (by omega)]
  · rw [List.length_take, List.length_drop]
    omega

/-- **Coordinates agree**: where lines of a snippet but its last one are replaced, under the numbers
and with the texts that it shows, the diff can be written unless a number in it is too long. It is
read, is in scope and puts the new lines in the place of these lines and no others. Only a removed
line that begins like a file header must not have one behind it. -/
theorem replacementDiff_applies {content file : String} {s e i j : Nat} {new : List String}
    {metrics : List EvidenceMetric} {read : Reader} (hfile : Diff.PlainPath file) (hs : 1 ≤ s)
    (hsi : s ≤ i) (hij : i ≤ j) (hje : j < e) (he : e ≤ (linesOf content).length)
    (hnew : ∀ l ∈ new, '\n' ∉ l.toList ∧ l.toList.getLast? ≠ some '\r')
    (hmarks : ¬ ((∃ l ∈ (linesOf content)[j - 1]?, "-- ".toList <+: l.toList) ∧
      ∃ l ∈ new.head?, "++ ".toList <+: l.toList))
    (hread : read file = .ok content) :
    let outcome := replacementDiff file i j (shownLines (numberedSnippet content s e) i j) new
    ((∃ diff, outcome = .ok diff) ↔ ∀ n ∈ [i, j + 1 - i, new.length], writable n = true) ∧
      ∀ diff, outcome = .ok diff → ∃ ps, Diff.parse diff = .ok ps ∧
        checkScope (allowedRanges [⟨file, s, e, metrics⟩]) ps = .ok () ∧
        buildOverlay read ps = .ok [(file,
          joinLines ((linesOf content).take (i - 1) ++ new ++ (linesOf content).drop j))] := by
  refine ⟨exists_replacementDiff, fun diff hdiff => ?_⟩
  obtain ⟨before, removed, after, hlines, hbefore, hremoved⟩ :=
    exists_three_parts (linesOf content) (m := i - 1) (n := j) (by omega) (by omega)
  have hi : before.length + 1 = i := by omega
  have hj : before.length + removed.length = j := by omega
  have hne : removed ≠ [] := List.ne_nil_of_length_pos (by omega)
  have hshown : ((linesOf content).drop (i - 1)).take (j + 1 - i) = removed := by
    rw [hlines, List.append_assoc, List.drop_left' hbefore, List.take_left' (by omega)]
  have hbehind : (linesOf content).drop j = after := by
    rw [hlines, List.drop_left' (by rw [List.length_append, hj])]
  have hindex : j - 1 - before.length = removed.length - 1 := by omega
  have hlast : (linesOf content)[j - 1]? = removed.getLast? := by
    rw [hlines, List.getElem?_append_left (by rw [List.length_append]; omega),
      List.getElem?_append_right (by omega), hindex, List.getLast?_eq_getElem?]
  have hstart : (linesOf content).take (i - 1) = before := by
    rw [hlines, List.append_assoc, List.take_left' hbefore]
  rw [shownLines_numberedSnippet hs he hsi (Nat.le_of_lt hje), hshown, ← hi, ← hj] at hdiff
  rw [hlast] at hmarks
  obtain ⟨old, hlen, hparse, happly⟩ := replacementDiff_reads hlines hne hfile hnew hmarks hdiff
  rw [hstart, hbehind]
  refine ⟨_, hparse, checkScope_replacementPatch rfl (show (s : Int) ≤ _ by omega)
    (show ((before.length + 1 : Nat) : Int) + old.length ≤ e by omega), ?_⟩
  exact buildOverlay_singleton (p := replacementPatch file (before.length + 1) old new) hread happly

/-- A text whose second line ends in a carriage return and looks like a file header once it is marked
as removed. -/
def sampleText : String := "a\n-- b\r\r\nc\nd"

/-- Its second line is replaced by two lines, the first of which almost looks like a header too. -/
theorem replacementDiff_applies_sample : ∃ diff ps,
    replacementDiff "f.py" 2 2 (shownLines (numberedSnippet sampleText 1 4) 2 2) ["++", ""] =
      .ok diff ∧
    diff = "--- a/f.py\n+++ b/f.py\n@@ -2,1 +2,2 @@\n--- b\r\n+++\n+" ∧
    Diff.parse diff = .ok ps ∧ checkScope (allowedRanges [⟨"f.py", 1, 4, []⟩]) ps = .ok () ∧
    buildOverlay (fun _ => (.ok sampleText : Outcome String)) ps = .ok [("f.py", "a\n++\n\nc\nd")] := by
  have htext : (replacementDiff "f.py" 2 2 (shownLines (numberedSnippet sampleText 1 4) 2 2)
      ["++", ""]).toOption =
        some "--- a/f.py\n+++ b/f.py\n@@ -2,1 +2,2 @@\n--- b\r\n+++\n+" := by
    decide +kernel
  have hresult : joinLines ((linesOf sampleText).take (2 - 1) ++ ["++", ""] ++
      (linesOf sampleText).drop 2) = "a\n++\n\nc\nd" := by
    decide +kernel
  obtain ⟨hwrites, happlies⟩ := @replacementDiff_applies sampleText "f.py" 1 4 2 2 ["++", ""] []
    (fun _ => .ok sampleText) ⟨by decide, by decide, by decide, by decide, by decide⟩ (by decide)
    (by decide) (by decide) (by decide) (by decide) (by decide) (by decide) rfl
  obtain ⟨diff, hdiff : replacementDiff "f.py" 2 2
    (shownLines (numberedSnippet sampleText 1 4) 2 2) ["++", ""] = .ok diff⟩ :=
      hwrites.2 (by decide +kernel)
  obtain ⟨ps, hps, hscope, hoverlay⟩ := happlies diff hdiff
  rw [hdiff] at htext
  rw [hresult] at hoverlay
  exact ⟨diff, ps, hdiff, Option.some.inj htext, hps, hscope, hoverlay⟩

/-- With a space behind the plus signs the two rows are a pair of file headers, and no line is left
to the hunk. -/
example : (Diff.parse "--- a/f.py\n+++ b/f.py\n@@ -2,1 +2,1 @@\n--- b\n+++ c").toOption = none := by
  decide +kernel

end EvidenceLock
