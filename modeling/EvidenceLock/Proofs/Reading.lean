import EvidenceLock.Proofs.HunkLines

/-!
# Reading a diff piece by piece

The rows of a diff are read the same way whatever rows follow them (`Diff.readLines_append`), with
one exception: a removed line that begins as an old-file header may be completed to a pair of file
headers by what follows (`Diff.CompletesHeader`), and then there is one more file
(`Diff.readLines_completed`).

`Progress.Counted` is the invariant of an open hunk: what it still expects and the lines that it has
make up the counts of its header.
-/

namespace EvidenceLock.Diff

open EvidenceLock.Text

/-! ## Numbers of lines -/

theorem hunkOfHeader_number {line : Line} {number : Option Int} {h : Hunk}
    (hh : hunkOfHeader line number = .ok h) (other : Option Int) :
    hunkOfHeader line other = .ok h := by
  unfold hunkOfHeader at hh ⊢
  split at hh
  · cases hh
  · exact hh

theorem readOutside_number {p : Progress} {number : Int} {line : Line} {rest : List Line}
    {r : Progress × Nat} (h : readOutside p number line rest = .ok r) (other : Int) :
    readOutside p other line rest = .ok r := by
  unfold readOutside at h ⊢
  split at h
  · rename_i hmark
    rw [if_pos hmark]
    split at h
    · cases h
    · exact h
  · rename_i hmark
    rw [if_neg hmark]
    split at h
    · rename_i hhunk
      rw [if_pos hhunk]
      split at h
      · cases h
      · rename_i hne
        rw [if_neg hne]
        split at h
        · cases h
        · rename_i k hk
          rw [hunkOfHeader_number hk other]
          exact h
    · rename_i hhunk
      rw [if_neg hhunk]
      exact h

/-- Where nothing is refused, the numbers of lines do not matter. -/
theorem readLines_number {p q : Progress} {number : Int} {skip : Nat} {lines : List Line}
    (h : readLines p number skip lines = .ok q) (other : Int) :
    readLines p other skip lines = .ok q := by
  fun_induction readLines p number skip lines generalizing other with
  | case1 => exact h
  | case2 p number line rest skip ih =>
    rw [readLines]
    exact ih h (other + 1)
  | case3 => cases h
  | case4 p number line rest p' taken hline ih =>
    have hline' : readLine p other line rest = .ok (p', taken) := by
      unfold readLine at hline ⊢
      split at hline
      · exact readOutside_number hline other
      · split at hline
        · exact hline
        · exact hline
        · exact readOutside_number hline other
    rw [readLines, hline']
    exact ih h (other + 1)

/-! ## Rows before other rows -/

theorem not_oldMark {line : Line} (h : startsWith line newMark = true ∨ allBlank line = true ∨
    startsWith line "index ".toList = true) : startsWith line oldMark = false := by
  cases hmark : startsWith line oldMark with
  | false => rfl
  | true =>
    obtain ⟨tail, rfl⟩ := List.isPrefixOf_iff_prefix.1 hmark
    rcases h with h | h | h
    · exact absurd h (by simp [startsWith, oldMark, newMark])
    · exact absurd h (by simp [allBlank, oldMark, isBlank])
    · exact absurd h (by simp [startsWith, oldMark])

theorem newHeader?_append {rest after : List Line} {r : String × Nat}
    (h : newHeader? rest = some r) : newHeader? (rest ++ after) = some r := by
  induction rest generalizing r with
  | nil => cases h
  | cons line rest ih =>
    rw [newHeader?] at h
    rw [List.cons_append, newHeader?]
    split at h
    · rename_i hmark
      rw [if_pos hmark]
      exact h
    · rename_i hmark
      rw [if_neg hmark]
      split at h
      · cases h
      · rename_i hskip
        obtain ⟨⟨path, n⟩, hnew, hr⟩ := Option.map_eq_some_iff.1 h
        rw [if_neg hskip, ih hnew, ← hr]
        rfl

/-- The rows up to a new-file header, which are taken along with the old one. -/
theorem newHeader?_taken {rest : List Line} {path : String} {n : Nat}
    (h : newHeader? rest = some (path, n)) :
    n + 1 ≤ rest.length ∧ ∀ l ∈ rest.take (n + 1), startsWith l oldMark = false := by
  induction rest generalizing path n with
  | nil => cases h
  | cons line rest ih =>
    rw [newHeader?] at h
    split at h
    · rename_i hmark
      cases h
      refine ⟨by simp, ?_⟩
      rw [List.take_succ_cons, List.take_zero, List.forall_mem_singleton]
      exact not_oldMark (.inl hmark)
    · split at h
      · cases h
      · rename_i hskip
        obtain ⟨⟨path, m⟩, hnew, hr⟩ := Option.map_eq_some_iff.1 h
        cases hr
        obtain ⟨hle, hrest⟩ := ih hnew
        refine ⟨by simpa using hle, ?_⟩
        rw [List.take_succ_cons, List.forall_mem_cons]
        refine ⟨not_oldMark (.inr ?_), hrest⟩
        simpa [or_iff_not_imp_left] using hskip

/-- Rows that only what follows can complete have nothing but blank and index lines. -/
theorem newHeader?_completed {rest after : List Line} (hnone : newHeader? rest = none)
    (h : newHeader? (rest ++ after) ≠ none) : ∀ l ∈ rest, startsWith l oldMark = false := by
  induction rest with
  | nil => exact fun l hl => absurd hl List.not_mem_nil
  | cons line rest ih =>
    rw [newHeader?] at hnone
    rw [List.cons_append, newHeader?] at h
    split at hnone
    · cases hnone
    · rename_i hmark
      rw [if_neg hmark] at h
      split at hnone
      · rename_i hskip
        rw [if_pos hskip] at h
        exact absurd rfl h
      · rename_i hskip
        rw [if_neg hskip] at h
        rw [List.forall_mem_cons]
        refine ⟨not_oldMark (.inr ?_), ih (by simpa using hnone) (by simpa using h)⟩
        simpa [or_iff_not_imp_left] using hskip

/-- With what follows them, the rows hold the start of a file that they do not hold by themselves. -/
def CompletesHeader (after : List Line) : List Line → Prop
  | [] => False
  | line :: rest =>
    (startsFile line rest = false ∧ startsFile line (rest ++ after) = true) ∨
      CompletesHeader after rest

instance decidableCompletesHeader (after : List Line) : DecidablePred (CompletesHeader after)
  | [] => .isFalse id
  | _ :: rest =>
    have := decidableCompletesHeader after rest
    inferInstanceAs (Decidable (_ ∨ _))

theorem startsFile_append {line : Line} {rest after : List Line}
    (h : startsFile line rest = true) : startsFile line (rest ++ after) = true := by
  rw [startsFile, Bool.and_eq_true] at h ⊢
  obtain ⟨r, hr⟩ := Option.isSome_iff_exists.1 h.2
  rw [newHeader?_append hr]
  exact ⟨h.1, rfl⟩

theorem readOutside_append {p : Progress} {number : Int} {line : Line} {rest : List Line}
    {r : Progress × Nat} (h : readOutside p number line rest = .ok r) (after : List Line) :
    readOutside p number line (rest ++ after) = .ok r := by
  unfold readOutside at h ⊢
  split at h
  · rename_i hmark
    rw [if_pos hmark]
    split at h
    · cases h
    · rename_i hnew
      rw [newHeader?_append hnew]
      exact h
  · rename_i hmark
    rw [if_neg hmark]
    exact h

theorem readLine_append {p : Progress} {number : Int} {line : Line} {rest after : List Line}
    {r : Progress × Nat} (h : readLine p number line rest = .ok r)
    (hlook : ¬ (startsFile line rest = false ∧ startsFile line (rest ++ after) = true)) :
    readLine p number line (rest ++ after) = .ok r := by
  have hstart : startsFile line (rest ++ after) = startsFile line rest := by
    cases hfile : startsFile line rest with
    | true => exact startsFile_append hfile
    | false => simpa [hfile] using hlook
  have hrole : ∀ expecting, roleOf expecting line (rest ++ after) = roleOf expecting line rest := by
    intro expecting
    unfold roleOf
    rw [hstart]
  unfold readLine at h ⊢
  split at h
  · exact readOutside_append h after
  · rw [hrole]
    split at h
    · exact h
    · exact h
    · exact readOutside_append h after

/-- No more rows are taken along with a line than there are, and none of them looks like an old-file
header. -/
theorem readLine_taken {p q : Progress} {number : Int} {line : Line} {rest : List Line} {n : Nat}
    (h : readLine p number line rest = .ok (q, n)) :
    n ≤ rest.length ∧ ∀ l ∈ rest.take n, startsWith l oldMark = false := by
  have hnone : (0 : Nat) ≤ rest.length ∧ ∀ l ∈ rest.take 0, startsWith l oldMark = false :=
    ⟨Nat.zero_le _, fun l hl => absurd hl List.not_mem_nil⟩
  have houtside : ∀ c : Progress, readOutside c number line rest = .ok (q, n) →
      n ≤ rest.length ∧ ∀ l ∈ rest.take n, startsWith l oldMark = false := by
    intro c h
    unfold readOutside at h
    split at h
    · split at h
      · cases h
      · rename_i hnew
        cases h
        exact newHeader?_taken hnew
    · split at h
      · split at h
        · cases h
        · split at h
          · cases h
          · cases h
            exact hnone
      · cases h
        exact hnone
  unfold readLine at h
  split at h
  · exact houtside p h
  · split at h
    · cases h
      exact hnone
    · cases h
      exact hnone
    · exact houtside _ h

/-- **Rows and what follows them** are read one after the other, unless they hold a header that is
completed only then. -/
theorem readLines_append {p q : Progress} {number : Int} {skip : Nat} {rows after : List Line}
    (h : readLines p number skip rows = .ok q) (hskip : skip ≤ rows.length)
    (hlook : ¬ CompletesHeader after rows) :
    readLines p number skip (rows ++ after) = readLines q (number + rows.length) 0 after := by
  -- The bound on `skip` goes along: nothing taken with a line lies in `after`.
  fun_induction readLines p number skip rows with
  | case1 p number skip =>
    cases h
    rw [Nat.le_zero.1 hskip]
    simp
  | case2 p number line rest skip ih =>
    rw [List.cons_append, readLines, add_length_cons]
    exact ih h (Nat.le_of_succ_le_succ hskip) fun hrest => hlook (.inr hrest)
  | case3 => cases h
  | case4 p number line rest p' taken hline ih =>
    rw [List.cons_append, readLines, readLine_append hline fun hfirst => hlook (.inl hfirst),
      add_length_cons]
    exact ih h (readLine_taken hline).1 fun hrest => hlook (.inr hrest)

/-! ## Files -/

theorem Progress.length_addLine (p : Progress) (l : HunkLine) :
    (p.addLine l).patches.length = p.patches.length := by
  unfold Progress.addLine
  dsimp only
  split
  · rename_i hp
    rw [hp, List.length_cons, List.length_cons]
  · rfl

theorem Move.length_patches {line : Line} {p q : Progress} (h : Move line p q) :
    p.patches.length ≤ q.patches.length ∧
      (startsWith line oldMark = false → q.patches.length = p.patches.length) := by
  cases h with
  | stay => exact ⟨Nat.le_refl _, fun _ => rfl⟩
  | close => exact ⟨Nat.le_refl _, fun _ => rfl⟩
  | add l _ =>
    have hlength := p.length_addLine l
    exact ⟨Nat.le_of_eq hlength.symm, fun _ => hlength⟩
  | file oldPath newPath hmark => simp [Progress.addFile, hmark]
  | hunk hp _ _ => simp [hp]

theorem readLines_length_patches {p q : Progress} {number : Int} {skip : Nat} {rows : List Line}
    (h : readLines p number skip rows = .ok q) : p.patches.length ≤ q.patches.length :=
  readLines_preserves (P := fun r => p.patches.length ≤ r.patches.length) h
    (fun _ _ _ _ hmove hle => Nat.le_trans hle hmove.length_patches.1) (Nat.le_refl _)

/-- Without old-file headers there are no new files. -/
theorem readLines_same_patches {p q : Progress} {number : Int} {skip : Nat} {rows : List Line}
    (h : readLines p number skip rows = .ok q)
    (hrows : ∀ l ∈ rows, startsWith l oldMark = false) :
    q.patches.length = p.patches.length :=
  readLines_preserves (P := fun r => r.patches.length = p.patches.length) h
    (fun l hl _ _ hmove heq => (hmove.length_patches.2 (hrows l hl)).trans heq) rfl

/-- The start of a file adds one, whether or not a hunk is open. -/
theorem readLine_startsFile {p q : Progress} {number : Int} {line : Line} {rest : List Line}
    {n : Nat} (hfile : startsFile line rest = true) (h : readLine p number line rest = .ok (q, n)) :
    q.patches.length = p.patches.length + 1 := by
  rw [startsFile, Bool.and_eq_true] at hfile
  obtain ⟨⟨path, k⟩, hnew⟩ := Option.isSome_iff_exists.1 hfile.2
  have houtside : ∀ c : Progress, readOutside c number line rest = .ok (q, n) →
      q.patches.length = c.patches.length + 1 := by
    intro c h
    rw [readOutside, if_pos hfile.1, hnew] at h
    cases h
    rfl
  have hremark : startsWith line ['\\'] = false := by
    obtain ⟨tail, rfl⟩ := List.isPrefixOf_iff_prefix.1 hfile.1
    rfl
  unfold readLine at h
  split at h
  · exact houtside p h
  · rename_i e _
    -- It ends an open hunk even when that expects more lines.
    have hrole : roleOf e.any line rest = .closing := by
      simp [roleOf, hremark, startsFile, hfile.1, hnew]
    rw [hrole] at h
    exact houtside p.close h

/-- A line that is no start of a file by itself can be read only as one that adds no file. -/
theorem readLine_notFile {p q : Progress} {number : Int} {line : Line} {rest : List Line}
    {n : Nat} (hmark : startsWith line oldMark = true) (hnew : newHeader? rest = none)
    (h : readLine p number line rest = .ok (q, n)) :
    n = 0 ∧ q.patches.length = p.patches.length := by
  have houtside : ∀ c : Progress, readOutside c number line rest ≠ .ok (q, n) := by
    intro c h
    rw [readOutside, if_pos hmark, hnew] at h
    cases h
  unfold readLine at h
  split at h
  · exact absurd h (houtside p)
  · split at h
    · cases h
      exact ⟨rfl, p.length_addLine _⟩
    · cases h
      exact ⟨rfl, rfl⟩
    · exact absurd h (houtside p.close)

/-- **A header that is completed** by what follows makes one more file. -/
theorem readLines_completed {p q r : Progress} {number : Int} {skip : Nat} {rows after : List Line}
    (h : readLines p number skip rows = .ok q)
    (hskip : ∀ l ∈ rows.take skip, startsWith l oldMark = false)
    (hlook : CompletesHeader after rows)
    (hr : readLines p number skip (rows ++ after) = .ok r) :
    q.patches.length < r.patches.length := by
  -- A line that is skipped is not read, so the header cannot be one of those.
  fun_induction readLines p number skip rows with
  | case1 => exact hlook.elim
  | case2 p number line rest skip ih =>
    rw [List.take_succ_cons, List.forall_mem_cons] at hskip
    rw [List.cons_append, readLines] at hr
    refine ih h hskip.2 (hlook.resolve_left fun hfirst => ?_) hr
    have hmark : startsWith line oldMark = true := (Bool.and_eq_true_iff.1 hfirst.2).1
    rw [hskip.1] at hmark
    cases hmark
  | case3 => cases h
  | case4 p number line rest p' taken hline ih =>
    rw [List.cons_append, readLines] at hr
    by_cases hfirst : startsFile line rest = false ∧ startsFile line (rest ++ after) = true
    · -- The line adds a file now, and neither it nor what follows it did before.
      have hfile := Bool.and_eq_true_iff.1 hfirst.2
      have hnew : newHeader? rest = none := by
        have hnot := hfirst.1
        rw [startsFile, hfile.1, Bool.true_and] at hnot
        simpa using hnot
      have hsome : newHeader? (rest ++ after) ≠ none := Option.isSome_iff_ne_none.1 hfile.2
      obtain ⟨-, hsame⟩ := readLine_notFile hfile.1 hnew hline
      have hrest := readLines_same_patches h (newHeader?_completed hnew hsome)
      cases hnext : readLine p number line (rest ++ after) with
      | error e =>
        rw [hnext] at hr
        cases hr
      | ok next =>
        obtain ⟨p'', taken'⟩ := next
        rw [hnext] at hr
        have hadds := readLine_startsFile hfirst.2 hnext
        have hle := readLines_length_patches hr
        omega
    · rw [readLine_append hline hfirst] at hr
      exact ih h (readLine_taken hline).2 (hlook.resolve_left hfirst) hr

/-! ## Lines of the open hunk -/

/-- What the open hunk expects and the lines that it has make up the counts of its header. -/
def Progress.Counted (p : Progress) : Prop :=
  ∀ e, p.expected = some e → ∃ file oldPath newPath h hs fs,
    p.patches = ⟨file, oldPath, newPath, h :: hs⟩ :: fs ∧
      h.oldCount = h.oldLines + e.old ∧ h.newCount = h.newLines + e.new

theorem Move.counted {line : Line} {p q : Progress} (h : Move line p q) (hp : p.Counted) :
    q.Counted := by
  cases h with
  | stay => exact hp
  | close =>
    intro e he
    cases he
  | add l hopen =>
    intro e he
    obtain ⟨e', he'⟩ := Option.ne_none_iff_exists'.1 hopen
    obtain ⟨file, oldPath, newPath, h, hs, fs, hpatches, hold, hnew⟩ := hp e' he'
    have hafter : e = e'.after l.kind := by
      simpa [Progress.addLine, he'] using he.symm
    refine ⟨file, oldPath, newPath, { h with lines := l :: h.lines }, hs, fs, ?_, ?_, ?_⟩
    · rw [Progress.addLine, hpatches]
    · rw [hafter]
      simp only [Hunk.oldLines, List.countP_cons] at hold ⊢
      cases l.kind <;> simp [Expected.after] <;> omega
    · rw [hafter]
      simp only [Hunk.newLines, List.countP_cons] at hnew ⊢
      cases l.kind <;> simp [Expected.after] <;> omega
  | file oldPath newPath _ =>
    intro e he
    cases he
  | @hunk f fs number h hp _ hh =>
    intro e he
    cases he
    have hlines := (hunkOfHeader_ok hh).2
    refine ⟨f.file, f.oldPath, f.newPath, h, f.hunks, fs, rfl, ?_, ?_⟩
    · simp [Hunk.oldLines, hlines]
    · simp [Hunk.newLines, hlines]

/-- The number of lines of all hunks. -/
def lineTotal (ps : List FilePatch) : Nat :=
  (ps.map fun f => (f.hunks.map fun h => h.lines.length).sum).sum

theorem lineTotal_result (p : Progress) : lineTotal p.result = lineTotal p.patches := by
  simp [lineTotal, Progress.result, Function.comp_def, List.map_reverse, List.sum_reverse]

theorem Move.lineTotal_le {line : Line} {p q : Progress} (h : Move line p q) :
    lineTotal p.patches ≤ lineTotal q.patches := by
  cases h with
  | stay => exact Nat.le_refl _
  | close => exact Nat.le_refl _
  | add l _ =>
    unfold Progress.addLine
    dsimp only
    split
    · rename_i hp
      rw [hp]
      simp only [lineTotal, List.map_cons, List.sum_cons, List.length_cons]
      omega
    · exact Nat.le_refl _
  | file oldPath newPath _ => simp [lineTotal, Progress.addFile, FilePatch.ofHeaders]
  | hunk hp _ _ => simp [lineTotal, hp]

theorem readLines_lineTotal {p q : Progress} {number : Int} {skip : Nat} {rows : List Line}
    (h : readLines p number skip rows = .ok q) : lineTotal p.patches ≤ lineTotal q.patches :=
  readLines_preserves (P := fun r => lineTotal p.patches ≤ lineTotal r.patches) h
    (fun _ _ _ _ hmove hle => Nat.le_trans hle hmove.lineTotal_le) (Nat.le_refl _)

theorem lineTotal_addLine {p : Progress} (hopen : p.expected ≠ none) (hp : p.Counted)
    (l : HunkLine) : lineTotal (p.addLine l).patches = lineTotal p.patches + 1 := by
  obtain ⟨e, he⟩ := Option.ne_none_iff_exists'.1 hopen
  obtain ⟨file, oldPath, newPath, h, hs, fs, hpatches, -, -⟩ := hp e he
  rw [Progress.addLine, hpatches]
  simp only [lineTotal, List.map_cons, List.sum_cons, List.length_cons]
  omega

end EvidenceLock.Diff
