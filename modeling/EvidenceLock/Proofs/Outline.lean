import EvidenceLock.Proofs.Narrative
import EvidenceLock.Proofs.Rendering

/-!
# The outline of a diff

What a diff says is also given by a grammar of its rows, without a state (`Diff.Outlined`): talk, a
pair of file headers with what may stand between them, and a hunk header with the rows of its hunk
(`Diff.Body`), which end at the first row that is neither a line nor a remark. The reader follows
this grammar from any state in both directions (`Diff.readLines_outlined`,
`Diff.Outlined.readLines`), so that a text is read as patches exactly when its rows are outlined so
and something is changed (`Diff.parse_ok_iff`).
-/

namespace EvidenceLock.Diff

open EvidenceLock.Text

/-! ## The grammar -/

/-- A row that may stand between the two headers of a file. -/
def Skipped (line : Line) : Prop := allBlank line = true ∨ startsWith line "index ".toList = true

/-- The first of the rows, if there is one, ends the open hunk, if there is one. -/
def Closes (expected : Option Expected) (rows : List Line) : Prop :=
  ∀ e, expected = some e → ∀ line rest, rows = line :: rest → roleOf e.any line rest = .closing

/-- The rows of a hunk that is open with these expectations, before `rest`, and the lines that they
hold; no rows when no hunk is open. -/
inductive Body :
    (expected : Option Expected) → (rows rest : List Line) → (ls : List HunkLine) → Prop
  | done {expected : Option Expected} {rest : List Line} (h : Closes expected rest) :
    Body expected [] rest []
  | line {e : Expected} {row : Line} {rows rest : List Line} {l : HunkLine} {ls : List HunkLine}
    (hrole : roleOf e.any row (rows ++ rest) = .body l)
    (h : Body (some (e.after l.kind)) rows rest ls) :
    Body (some e) (row :: rows) rest (l :: ls)
  | remark {e : Expected} {row : Line} {rows rest : List Line} {ls : List HunkLine}
    (hrole : roleOf e.any row (rows ++ rest) = .remark) (h : Body (some e) rows rest ls) :
    Body (some e) (row :: rows) rest ls

/-- Rows outside of a hunk, the hunks that they hold before the first file, and the files. -/
inductive Outlined : (rows : List Line) → List Hunk → List FilePatch → Prop
  | nil : Outlined [] [] []
  | talk {line : Line} {rest : List Line} {hs : List Hunk} {fs : List FilePatch} (h : Talk line)
    (hrest : Outlined rest hs fs) : Outlined (line :: rest) hs fs
  | hunk {header : Line} {body rest : List Line} {h : Hunk} {ls : List HunkLine} {hs : List Hunk}
    {fs : List FilePatch} (hmark : startsWith header hunkMark = true)
    (hheader : hunkOfHeader header none = .ok h)
    (hbody : Body (some ⟨h.oldCount, h.newCount⟩) body rest ls) (hrest : Outlined rest hs fs) :
    Outlined (header :: (body ++ rest)) ({ h with lines := ls } :: hs) fs
  | file {old new : Line} {between rest : List Line} {hs : List Hunk} {fs : List FilePatch}
    (hold : startsWith old oldMark = true) (hbetween : ∀ l ∈ between, Skipped l)
    (hnew : startsWith new newMark = true) (hrest : Outlined rest hs fs) :
    Outlined (old :: (between ++ new :: rest)) []
      ({ FilePatch.ofHeaders (headerPath (old.drop 4)) (headerPath (new.drop 4)) with
        hunks := hs } :: fs)

/-! ## One row -/

theorem not_newMark_of_skipped {line : Line} (h : Skipped line) :
    startsWith line newMark = false := by
  cases hmark : startsWith line newMark with
  | false => rfl
  | true =>
    obtain ⟨tail, rfl⟩ := List.isPrefixOf_iff_prefix.1 hmark
    rcases h with h | h
    · exact absurd h (by simp [allBlank, newMark, isBlank])
    · exact absurd h (by simp [startsWith, newMark])

/-- A new-file header is found behind rows that may stand before it. -/
theorem newHeader?_between {between rest : List Line} {new : Line}
    (hbetween : ∀ l ∈ between, Skipped l) (hnew : startsWith new newMark = true) :
    newHeader? (between ++ new :: rest) = some (headerPath (new.drop 4), between.length) := by
  induction between with
  | nil => rw [List.nil_append, newHeader?, if_pos hnew, List.length_nil]
  | cons line between ih =>
    rw [List.forall_mem_cons] at hbetween
    have hskip : ¬ (!allBlank line && !startsWith line "index ".toList) = true := by
      rcases hbetween.1 with h | h <;> rw [h]
      · simp
      · simp only [Bool.not_true, Bool.and_false, Bool.false_eq_true, not_false_eq_true]
    rw [List.cons_append, newHeader?, if_neg (by simp [not_newMark_of_skipped hbetween.1]),
      if_neg hskip, ih hbetween.2]
    rfl

theorem exists_of_newHeader? {rest : List Line} {path : String} {n : Nat}
    (h : newHeader? rest = some (path, n)) : ∃ between new tail, rest = between ++ new :: tail ∧
      (∀ l ∈ between, Skipped l) ∧ startsWith new newMark = true ∧
      path = headerPath (new.drop 4) ∧ n = between.length := by
  induction rest generalizing path n with
  | nil => cases h
  | cons line rest ih =>
    rw [newHeader?] at h
    split at h
    · rename_i hmark
      cases h
      exact ⟨[], line, rest, rfl, by simp, hmark, rfl, rfl⟩
    · split at h
      · cases h
      · rename_i hskip
        obtain ⟨⟨path, m⟩, hnew, hr⟩ := Option.map_eq_some_iff.1 h
        cases hr
        obtain ⟨between, new, tail, rfl, hbetween, hmark, rfl, rfl⟩ := ih hnew
        refine ⟨line :: between, new, tail, rfl, List.forall_mem_cons.2 ⟨?_, hbetween⟩, hmark, rfl,
          rfl⟩
        simpa [Skipped, or_iff_not_imp_left] using hskip

/-- Rows that hold no new-file header where one is looked for complete no header before them. -/
theorem newHeader?_append_of_none {after : List Line} (h : newHeader? after = none)
    (rest : List Line) : newHeader? (rest ++ after) = newHeader? rest := by
  induction rest with
  | nil => rw [List.nil_append, h, newHeader?]
  | cons line rest ih => rw [List.cons_append, newHeader?, newHeader?, ih]

theorem newHeader?_blank {blank : List Line} (hblank : ∀ l ∈ blank, allBlank l = true) :
    newHeader? blank = none := by
  cases hnew : newHeader? blank with
  | none => rfl
  | some r =>
    obtain ⟨between, new, tail, rfl, -, hmark, -⟩ := exists_of_newHeader? hnew
    have hskip : Skipped new := .inl (hblank new (by simp))
    rw [not_newMark_of_skipped hskip] at hmark
    cases hmark

theorem startsFile_append_of_none {after : List Line} (h : newHeader? after = none) (line : Line)
    (rest : List Line) : startsFile line (rest ++ after) = startsFile line rest := by
  rw [startsFile, newHeader?_append_of_none h, startsFile]

/-- A line of an open hunk starts neither a file nor a hunk. Its row is the line as it is written,
or is empty and the line is an empty context line. -/
theorem of_roleOf_body {expecting : Bool} {row : Line} {rest : List Line} {l : HunkLine}
    (h : roleOf expecting row rest = .body l) :
    startsFile row rest = false ∧ startsWith row hunkMark = false ∧
      (row = l.row ∨ (row = [] ∧ l = ⟨.context, ""⟩)) := by
  unfold roleOf at h
  split at h
  · cases h
  split at h
  · cases h
  rename_i hfile
  split at h
  · cases h
  rename_i hhunk
  refine ⟨by simpa using hfile, by simpa using hhunk, ?_⟩
  split at h
  · cases h
    exact .inl (by simp [HunkLine.row, LineKind.marker])
  · cases h
    exact .inl (by simp [HunkLine.row, LineKind.marker])
  · cases h
    exact .inl (by simp [HunkLine.row, LineKind.marker])
  · split at h
    · cases h
      exact .inr ⟨rfl, rfl⟩
    · cases h
  · cases h

theorem of_roleOf_remark {expecting : Bool} {row : Line} {rest : List Line}
    (h : roleOf expecting row rest = .remark) : startsWith row ['\\'] = true := by
  unfold roleOf at h
  split at h
  · assumption
  split at h
  · cases h
  split at h
  · cases h
  split at h
  · cases h
  · cases h
  · cases h
  · split at h <;> cases h
  · cases h

theorem Talk.of_skipped {row : Line} (h : Skipped row) : Talk row := by
  refine ⟨not_oldMark (.inr h), ?_⟩
  rcases h with h | h
  · exact (Talk.of_allBlank h).noHunk
  · obtain ⟨tail, rfl⟩ := List.isPrefixOf_iff_prefix.1 h
    rfl

theorem Talk.of_newMark {row : Line} (h : startsWith row newMark = true) : Talk row := by
  obtain ⟨tail, rfl⟩ := List.isPrefixOf_iff_prefix.1 h
  exact ⟨rfl, rfl⟩

theorem Talk.of_remark {row : Line} (h : startsWith row ['\\'] = true) : Talk row := by
  obtain ⟨tail, rfl⟩ := List.isPrefixOf_iff_prefix.1 h
  exact ⟨rfl, rfl⟩

/-- What a row makes of what has been read, and how many of the next rows it takes along. -/
inductive Step (p : Progress) (line : Line) (rest : List Line) : Progress → Nat → Prop
  | line {e : Expected} {l : HunkLine} (he : p.expected = some e)
    (hrole : roleOf e.any line rest = .body l) : Step p line rest (p.addLine l) 0
  | remark {e : Expected} (he : p.expected = some e) (hrole : roleOf e.any line rest = .remark) :
    Step p line rest p 0
  | talk (hclose : Closes p.expected (line :: rest)) (htalk : Talk line) :
    Step p line rest p.close 0
  | hunk {f : FilePatch} {fs : List FilePatch} {h : Hunk}
    (hclose : Closes p.expected (line :: rest)) (hp : p.patches = f :: fs)
    (hmark : startsWith line hunkMark = true)
    (hh : hunkOfHeader line none = .ok h) :
    Step p line rest
      { patches := { f with hunks := h :: f.hunks } :: fs
        expected := some ⟨h.oldCount, h.newCount⟩ } 0
  | file {between tail : List Line} {new : Line} (hclose : Closes p.expected (line :: rest))
    (hmark : startsWith line oldMark = true) (hrest : rest = between ++ new :: tail)
    (hbetween : ∀ l ∈ between, Skipped l) (hnew : startsWith new newMark = true) :
    Step p line rest (p.addFile (headerPath (line.drop 4)) (headerPath (new.drop 4)))
      (between.length + 1)

/-- **One row** is read so. -/
theorem step_of_readLine {p q : Progress} {number : Int} {line : Line} {rest : List Line} {n : Nat}
    (h : readLine p number line rest = .ok (q, n)) : Step p line rest q n := by
  have houtside : Closes p.expected (line :: rest) →
      readOutside p.close number line rest = .ok (q, n) → Step p line rest q n := by
    intro hclose h
    unfold readOutside at h
    split at h
    · rename_i hmark
      split at h
      · cases h
      · rename_i hnew
        obtain ⟨between, new, tail, hrest, hbetween, hnewMark, rfl, rfl⟩ :=
          exists_of_newHeader? hnew
        cases h
        exact .file hclose hmark hrest hbetween hnewMark
    · rename_i hold
      split at h
      · rename_i hmark
        split at h
        · cases h
        · rename_i hne
          split at h
          · cases h
          · rename_i k hk
            cases h
            cases hp : p.patches with
            | nil => simp [Progress.close, hp] at hne
            | cons f fs =>
              have hopened : (p.close.addHunk? k).getD p.close =
                  { patches := { f with hunks := k :: f.hunks } :: fs
                    expected := some ⟨k.oldCount, k.newCount⟩ } := by
                simp [Progress.addHunk?, Progress.close, hp]
              rw [hopened]
              exact .hunk hclose hp hmark (hunkOfHeader_number hk none)
      · rename_i hmark
        cases h
        exact .talk hclose ⟨by simpa using hold, by simpa using hmark⟩
  unfold readLine at h
  split at h
  · rename_i hnone
    have hsame : p.close = p := by rw [Progress.close, ← hnone]
    refine houtside (fun e he => ?_) (by rwa [hsame])
    rw [hnone] at he
    cases he
  · rename_i e he
    split at h
    · rename_i hrole
      cases h
      exact .line he hrole
    · rename_i hrole
      cases h
      exact .remark he hrole
    · rename_i hrole
      refine houtside (fun e' he' => ?_) h
      rw [he] at he'
      cases he'
      rintro _ _ ⟨⟩
      exact hrole

/-- A row that ends the open hunk is read as one outside. -/
theorem readLine_closes {p : Progress} {line : Line} {rest : List Line}
    (h : Closes p.expected (line :: rest)) (number : Int) :
    readLine p number line rest = readOutside p.close number line rest := by
  unfold readLine
  split
  · rename_i hnone
    rw [Progress.close, ← hnone]
  · rename_i e he
    rw [h e he line rest rfl]

theorem Step.readLine {p q : Progress} {line : Line} {rest : List Line} {n : Nat}
    (h : Step p line rest q n) (number : Int) : readLine p number line rest = .ok (q, n) := by
  cases h with
  | line he hrole =>
    unfold Diff.readLine
    rw [he]
    simp only [hrole]
  | remark he hrole =>
    unfold Diff.readLine
    rw [he]
    simp only [hrole]
  | talk hclose htalk => rw [readLine_closes hclose, htalk.readOutside_eq]
  | hunk hclose hp hmark hh => exact readLine_hunkRow hp hmark (hunkOfHeader_number hh number)
  | file hclose hmark hrest hbetween hnew =>
    rw [readLine_closes hclose, readOutside, if_pos hmark, hrest, newHeader?_between hbetween hnew]
    rfl

/-! ## All rows -/

/-- The patches, last ones first, when these lines of the open hunk, hunks and files have been read
as well. -/
def Progress.patchesWith (p : Progress) (ls : List HunkLine) (hs : List Hunk)
    (fs : List FilePatch) : List FilePatch :=
  (fs.map patchLastFirst).reverse ++ (ls.foldl Progress.addLine p).patches.modifyHead
    fun f => { f with hunks := (hs.map lastFirst).reverse ++ f.hunks }

namespace Progress

theorem patchesWith_nil (p : Progress) : p.patchesWith [] [] [] = p.patches := by
  cases hp : p.patches with
  | nil => simp [patchesWith, hp]
  | cons f fs => simp [patchesWith, hp]

theorem patchesWith_hunk {p : Progress} {f : FilePatch} {ps : List FilePatch} {h : Hunk}
    (hp : p.patches = f :: ps) (hh : h.lines = []) (expected : Option Expected)
    (ls : List HunkLine) (hs : List Hunk) (fs : List FilePatch) :
    Progress.patchesWith ⟨{ f with hunks := h :: f.hunks } :: ps, expected⟩ ls hs fs =
      p.patchesWith [] ({ h with lines := ls } :: hs) fs := by
  have hlines : (ls.foldl addLine ⟨{ f with hunks := h :: f.hunks } :: ps, expected⟩).patches = _ :=
    foldl_addLine rfl ls
  simp only [patchesWith, hlines, List.foldl_nil, hp, List.modifyHead_cons, List.map_cons,
    List.reverse_cons, List.append_assoc, List.singleton_append, lastFirst, hh, List.append_nil]

theorem patchesWith_file (p : Progress) (oldPath newPath : String) (hs : List Hunk)
    (fs : List FilePatch) : (p.addFile oldPath newPath).patchesWith [] hs fs =
      p.patchesWith [] [] ({ FilePatch.ofHeaders oldPath newPath with hunks := hs } :: fs) := by
  have hsame : p.patches.modifyHead (fun f => { f with hunks := ([] : List Hunk) ++ f.hunks }) =
      p.patches := by
    cases p.patches <;> rfl
  simp only [patchesWith, addFile, List.foldl_nil, List.modifyHead_cons, List.map_cons,
    List.map_nil, List.reverse_nil, List.reverse_cons, List.append_assoc, List.singleton_append,
    hsame, patchLastFirst, FilePatch.ofHeaders, List.append_nil]

theorem empty_patchesWith (fs : List FilePatch) :
    Progress.patchesWith {} [] [] fs = (fs.map patchLastFirst).reverse := by
  simp [patchesWith]

end Progress

/-- **What is read is outlined.** Behind the rows that were taken along before, the rows are those
of the open hunk and an outline, and what they hold has been read. -/
theorem readLines_outlined {p q : Progress} {number : Int} {skip : Nat} {rows : List Line}
    (h : readLines p number skip rows = .ok q) (hskip : skip ≤ rows.length) :
    ∃ body rest ls hs fs, rows.drop skip = body ++ rest ∧ Body p.expected body rest ls ∧
      Outlined rest hs fs ∧ (p.patches = [] → hs = []) ∧ q.patches = p.patchesWith ls hs fs := by
  fun_induction readLines p number skip rows with
  | case1 p number skip =>
    cases h
    refine ⟨[], [], [], [], [], List.drop_nil, .done ?_, .nil, fun _ => rfl,
      (Progress.patchesWith_nil _).symm⟩
    rintro e he line rest ⟨⟩
  | case2 p number line rest skip ih =>
    obtain ⟨body, tail, ls, hs, fs, hrows, hparts⟩ := ih h (Nat.le_of_succ_le_succ hskip)
    exact ⟨body, tail, ls, hs, fs, by rwa [List.drop_succ_cons], hparts⟩
  | case3 => cases h
  | case4 p number line rest p' taken hline ih =>
    obtain ⟨body, tail, ls, hs, fs, hrows, hbody, hrest, hnone, hq⟩ := ih h (readLine_taken hline).1
    rw [List.drop_zero]
    -- What the row is decides which rule of the grammar stands before the rest.
    cases step_of_readLine hline with
    | line he hrole =>
      rw [List.drop_zero] at hrows
      subst hrows
      refine ⟨line :: body, tail, _ :: ls, hs, fs, rfl, ?_, hrest, ?_, hq⟩
      · rw [he]
        refine .line hrole ?_
        simpa [Progress.addLine, he] using hbody
      · intro hp
        exact hnone (by simp [Progress.addLine, hp])
    | remark he hrole =>
      rw [List.drop_zero] at hrows
      subst hrows
      refine ⟨line :: body, tail, ls, hs, fs, rfl, ?_, hrest, hnone, hq⟩
      rw [he] at hbody ⊢
      exact .remark hrole hbody
    | talk hclose htalk =>
      cases hbody
      rw [List.drop_zero, List.nil_append] at hrows
      subst hrows
      exact ⟨[], line :: rest, [], hs, fs, rfl, .done hclose, .talk htalk hrest, hnone, hq⟩
    | hunk hclose hp hmark hh =>
      rw [List.drop_zero] at hrows
      subst hrows
      rw [Progress.patchesWith_hunk hp (hunkOfHeader_ok hh).2] at hq
      refine ⟨[], _, [], _, fs, rfl, .done hclose, .hunk hmark hh hbody hrest, fun hnil => ?_, hq⟩
      rw [hp] at hnil
      cases hnil
    | file hclose hmark hsplit hbetween hnew =>
      cases hbody
      subst hsplit
      rename_i between after new _
      -- The rest is read behind the rows that were taken along with the first header.
      have hafter : after = tail := by
        rw [List.nil_append] at hrows
        rw [← hrows, ← List.drop_drop, List.drop_left, List.drop_succ_cons, List.drop_zero]
      subst hafter
      rw [Progress.patchesWith_file] at hq
      exact ⟨[], _, [], [], _, rfl, .done hclose, .file hmark hbetween hnew hrest, fun _ => rfl, hq⟩

theorem readLines_taken (p : Progress) (number : Int) (rows rest : List Line) :
    readLines p number rows.length (rows ++ rest) = readLines p (number + rows.length) 0 rest := by
  induction rows generalizing number with
  | nil => simp
  | cons line rows ih =>
    rw [add_length_cons, ← ih]
    rfl

/-- The rows of the open hunk are read as its lines, and then a row that ends it comes. -/
theorem Body.readLines {expected : Option Expected} {body rest : List Line} {ls : List HunkLine}
    (h : Body expected body rest ls) {p : Progress} (hp : p.expected = expected) (number : Int) :
    Closes (ls.foldl Progress.addLine p).expected rest ∧ readLines p number 0 (body ++ rest) =
      readLines (ls.foldl Progress.addLine p) (number + body.length) 0 rest := by
  induction h generalizing p number with
  | done hclose => exact ⟨by rwa [List.foldl_nil, hp], by simp⟩
  | line hrole _ ih =>
    obtain ⟨hclose, hrows⟩ := ih (p := p.addLine _) (by rw [Progress.addLine, hp]; rfl) (number + 1)
    refine ⟨hclose, ?_⟩
    rw [List.cons_append, Diff.readLines, (Step.line hp hrole).readLine, List.foldl_cons,
      add_length_cons]
    exact hrows
  | remark hrole _ ih =>
    obtain ⟨hclose, hrows⟩ := ih hp (number + 1)
    refine ⟨hclose, ?_⟩
    rw [List.cons_append, Diff.readLines, (Step.remark hp hrole).readLine, add_length_cons]
    exact hrows

/-- **What is outlined is read so**, from any state that the first row leaves. -/
theorem Outlined.readLines {rows : List Line} {hs : List Hunk} {fs : List FilePatch}
    (h : Outlined rows hs fs) {p : Progress} (number : Int) (hclose : Closes p.expected rows)
    (hhome : p.patches = [] → hs = []) :
    ∃ q, readLines p number 0 rows = .ok q ∧ q.patches = p.patchesWith [] hs fs := by
  have hnone : ∀ rows, Closes none rows := by
    intro rows e he
    cases he
  induction h generalizing p number with
  | nil => exact ⟨p, rfl, p.patchesWith_nil.symm⟩
  | talk htalk _ ih =>
    obtain ⟨q, hrest, hq⟩ := @ih p.close (number + 1) (hnone _) hhome
    refine ⟨q, ?_, hq⟩
    rw [Diff.readLines, (Step.talk hclose htalk).readLine]
    exact hrest
  | @hunk header body rest h ls hs fs hmark hheader hbody _ ih =>
    cases hp : p.patches with
    | nil => cases hhome hp
    | cons f ps =>
      -- First the rows of the hunk are read, then the rest from the state that they leave.
      let opened : Progress :=
        ⟨{ f with hunks := h :: f.hunks } :: ps, some ⟨h.oldCount, h.newCount⟩⟩
      obtain ⟨hleft, hrows⟩ := hbody.readLines (p := opened) rfl (number + 1)
      obtain ⟨q, hrest, hq⟩ := @ih (ls.foldl Progress.addLine opened) (number + 1 + body.length)
        hleft fun hnil => by rw [foldl_addLine (p := opened) rfl] at hnil; cases hnil
      refine ⟨q, ?_, hq.trans (Progress.patchesWith_hunk hp (hunkOfHeader_ok hheader).2 _ ls hs fs)⟩
      rw [Diff.readLines, (Step.hunk hclose hp hmark hheader).readLine]
      exact hrows.trans hrest
  | @file old new between rest hs fs hold hbetween hnew _ ih =>
    obtain ⟨q, hrest, hq⟩ := @ih (p.addFile (headerPath (old.drop 4)) (headerPath (new.drop 4)))
      (number + 1 + ((between ++ [new]).length : Nat)) (hnone _) fun hnil => by cases hnil
    refine ⟨q, ?_, hq.trans (p.patchesWith_file _ _ hs fs)⟩
    have htaken := readLines_taken (p.addFile (headerPath (old.drop 4)) (headerPath (new.drop 4)))
      (number + 1) (between ++ [new]) rest
    have hlength : (between ++ [new]).length = between.length + 1 := List.length_append
    rw [← htaken, List.append_assoc, hlength] at hrest
    rw [Diff.readLines, (Step.file hclose hold rfl hbetween hnew).readLine]
    exact hrest

/-- **What a text is read as**: the patches of the outline of its rows, if they change something. -/
theorem parse_ok_iff {text : String} {ps : List FilePatch} :
    parse text = .ok ps ↔ Outlined (linesOf text) [] ps ∧ checked ps = .ok ps := by
  constructor
  · intro h
    obtain ⟨q, hread, hchecked⟩ := Outcome.bind_eq_ok.1 h
    obtain ⟨body, rest, ls, hs, fs, hrows, hbody, hrest, hhome, hq⟩ :=
      readLines_outlined hread (Nat.zero_le _)
    cases hbody
    have hhunks : hs = [] := hhome rfl
    rw [hhunks, Progress.empty_patchesWith] at hq
    obtain ⟨rfl, -⟩ := checked_ok hchecked
    rw [result_lastFirst hq] at hchecked ⊢
    rw [List.drop_zero, List.nil_append] at hrows
    rw [hrows, ← hhunks]
    exact ⟨hrest, hchecked⟩
  · rintro ⟨hrows, hchecked⟩
    obtain ⟨q, hread, hq⟩ := hrows.readLines (p := {}) 1 (fun e he => by cases he) fun _ => rfl
    rw [Progress.empty_patchesWith] at hq
    rw [parse, hread, Outcome.ok_bind, result_lastFirst hq, hchecked]

end EvidenceLock.Diff
