import EvidenceLock.Patch.Parse
import EvidenceLock.Proofs.Lines
import EvidenceLock.Proofs.Outcome
import Mathlib.Tactic.Ring

/-!
# What a diff can say

The numbers of a hunk header are read from at most 4300 digits, so that each of them can be written
again (`Diff.parse_writable`). A header with more digits is the one thing that reading a diff does
not foresee (`Diff.parse_faults`).
-/

namespace EvidenceLock

open EvidenceLock.Text EvidenceLock.Decimal

/-! ## Numbers -/

theorem Text.digitValue?_le {c : Char} {n : Nat} (h : digitValue? c = some n) : n ≤ 9 := by
  unfold digitValue? at h
  dsimp only at h
  split at h
  · split at h
    · cases h
      omega
    · cases h
  · obtain ⟨z, hz, rfl⟩ := Option.map_eq_some_iff.1 h
    have hrange := List.find?_some hz
    simp only [Bool.and_eq_true, decide_eq_true_eq] at hrange
    omega

theorem Text.foldl_digits_lt (cs : List Char) (n : Nat) :
    cs.foldl (fun n c => 10 * n + (digitValue? c).getD 0) n < (n + 1) * 10 ^ cs.length := by
  induction cs generalizing n with
  | nil => simp
  | cons c cs ih =>
    have hdigit : (digitValue? c).getD 0 ≤ 9 := by
      cases hc : digitValue? c with
      | none => exact Nat.zero_le 9
      | some d => exact digitValue?_le hc
    rw [List.foldl_cons]
    calc _ < (10 * n + (digitValue? c).getD 0 + 1) * 10 ^ cs.length := ih _
      _ ≤ (10 * n + 9 + 1) * 10 ^ cs.length := Nat.mul_le_mul_right _ (by omega)
      _ = (n + 1) * 10 ^ (c :: cs).length := by rw [List.length_cons, Nat.pow_succ]; ring

/-- The number that digits write has no more digits than they are. -/
theorem Text.digitsValue_lt {cs : List Char} {k : Nat} (hk : cs.length ≤ k) :
    digitsValue cs < Nat.pow 10 k := by
  calc digitsValue cs < (0 + 1) * 10 ^ cs.length := foldl_digits_lt cs 0
    _ = 10 ^ cs.length := by rw [Nat.zero_add, Nat.one_mul]
    _ ≤ 10 ^ k := Nat.pow_le_pow_right (by omega) hk

/-- A fault that is about the length of a number. -/
def LongNumber (f : Fault) : Prop :=
  f.kind = .value ∧
    (f.message = unwritableMessage ∨ ∃ n, maxDigits < n ∧ f.message = tooLongMessage n)

theorem written_faults (i : Int) : FaultsIn LongNumber (written i) := by
  unfold written
  split
  · exact .ok _
  · exact .misuse ⟨rfl, .inl rfl⟩

theorem written_of_writable {i : Int} (h : writable i = true) : written i = .ok (toString i) :=
  if_pos h

theorem written_faulty {i : Int} : Faulty (written i) ↔ writable i = false := by
  cases hw : writable i with
  | true => exact iff_of_false (by rw [written_of_writable hw]; exact Faulty.not_ok) (by simp)
  | false =>
    have hwritten : written i = misuse .value unwritableMessage := if_neg (by simp [hw])
    exact iff_of_true (by rw [hwritten]; exact .misuse) rfl

namespace Diff

theorem numberOf_ok {ds : Line} {n : Int} (h : numberOf ds = .ok n) : writable n = true := by
  unfold numberOf naturalOfDigits at h
  by_cases hlen : maxDigits < ds.length
  · rw [if_pos hlen] at h
    cases h
  · rw [if_neg hlen] at h
    cases h
    exact decide_eq_true (digitsValue_lt (Nat.not_lt.1 hlen))

theorem numberOf_faults (ds : Line) : FaultsIn LongNumber (numberOf ds) := by
  unfold numberOf naturalOfDigits
  by_cases hlen : maxDigits < ds.length
  · rw [if_pos hlen]
    exact .misuse ⟨rfl, .inr ⟨ds.length, hlen, rfl⟩⟩
  · rw [if_neg hlen]
    exact .ok _

theorem countOf_faults (ds : Option Line) : FaultsIn LongNumber (countOf ds) := by
  cases ds with
  | none => exact .ok 1
  | some ds => exact numberOf_faults ds

/-! ## Headers -/

theorem digits?_append {ds rest : Line} {c : Char} (hds : ∀ d ∈ ds, isDigit d = true)
    (hne : ds ≠ []) (hc : isDigit c = false) :
    digits? (ds ++ c :: rest) = some (ds, c :: rest) := by
  have htake : (ds ++ c :: rest).takeWhile isDigit = ds := by
    rw [List.takeWhile_append_of_pos hds, List.takeWhile_cons_of_neg (by simp [hc]),
      List.append_nil]
  rw [digits?, htake, if_neg (by simpa using hne), List.drop_left]

theorem after?_append (start rest : Line) : after? start (start ++ rest) = some rest := by
  have hprefix : startsWith (start ++ rest) start = true :=
    List.isPrefixOf_iff_prefix.2 (List.prefix_append start rest)
  rw [after?, if_pos hprefix, List.drop_left]

/-- The hunk that a header starts has no lines yet, and the number of its first line can be
written. -/
theorem hunkOfHeader_ok {line : Line} {number : Option Int} {h : Hunk}
    (hh : hunkOfHeader line number = .ok h) : writable h.oldStart = true ∧ h.lines = [] := by
  unfold hunkOfHeader at hh
  split at hh
  · cases hh
  · obtain ⟨oldStart, hold, hh⟩ := Outcome.bind_eq_ok.1 hh
    obtain ⟨_, -, hh⟩ := Outcome.bind_eq_ok.1 hh
    obtain ⟨_, -, hh⟩ := Outcome.bind_eq_ok.1 hh
    obtain ⟨_, -, hh⟩ := Outcome.bind_eq_ok.1 hh
    cases hh
    exact ⟨numberOf_ok hold, rfl⟩

theorem hunkOfHeader_faults (line : Line) (number : Option Int) :
    FaultsIn LongNumber (hunkOfHeader line number) := by
  unfold hunkOfHeader
  split
  · exact .fail _
  · refine (numberOf_faults _).bind fun _ _ => ?_
    refine (countOf_faults _).bind fun _ _ => ?_
    refine (numberOf_faults _).bind fun _ _ => ?_
    exact (countOf_faults _).bind fun _ _ => .ok _

/-! ## Reading lines -/

/-- What a line can make of what has been read. -/
inductive Move (line : Line) : Progress → Progress → Prop
  | stay (p : Progress) : Move line p p
  | close (p : Progress) : Move line p p.close
  | add {p : Progress} (l : HunkLine) (hopen : p.expected ≠ none) : Move line p (p.addLine l)
  | file (p : Progress) (oldPath newPath : String) (hmark : startsWith line oldMark = true) :
    Move line p (p.addFile oldPath newPath)
  | hunk {p : Progress} {f : FilePatch} {fs : List FilePatch} {number : Int} {h : Hunk}
    (hp : p.patches = f :: fs) (hmark : startsWith line hunkMark = true)
    (hh : hunkOfHeader line number = .ok h) :
    Move line p
      { patches := { f with hunks := h :: f.hunks } :: fs
        expected := some { old := h.oldCount, new := h.newCount } }

theorem Move.of_close {line : Line} {p q : Progress} (h : Move line p.close q) : Move line p q := by
  generalize hp : p.close = c at h
  cases h with
  | stay =>
    rw [← hp]
    exact .close p
  | close =>
    rw [← hp]
    exact .close p
  | add l hopen =>
    rw [← hp] at hopen
    exact absurd rfl hopen
  | file oldPath newPath hmark =>
    rw [← hp]
    exact .file p oldPath newPath hmark
  | hunk hfile hmark hh =>
    rw [← hp] at hfile
    exact .hunk hfile hmark hh

theorem readOutside_move {p q : Progress} {number : Int} {line : Line} {rest : List Line} {n : Nat}
    (h : readOutside p number line rest = .ok (q, n)) : Move line p q := by
  unfold readOutside at h
  split at h
  · rename_i hmark
    split at h
    · cases h
    · cases h
      exact .file p _ _ hmark
  · split at h
    · rename_i hmark
      split at h
      · cases h
      · rename_i hne
        split at h
        · cases h
        · rename_i k hk
          cases h
          cases hp : p.patches with
          | nil => simp [hp] at hne
          | cons f fs =>
            simp only [Progress.addHunk?, hp, Option.getD_some]
            exact .hunk hp hmark hk
    · cases h
      exact .stay p

/-- **One line** makes one of these moves. -/
theorem readLine_move {p q : Progress} {number : Int} {line : Line} {rest : List Line} {n : Nat}
    (h : readLine p number line rest = .ok (q, n)) : Move line p q := by
  unfold readLine at h
  split at h
  · exact readOutside_move h
  · rename_i e he
    split at h
    · cases h
      exact .add _ (by simp [he])
    · cases h
      exact .stay p
    · exact (readOutside_move h).of_close

/-- What every move keeps is kept by a whole reading. -/
theorem readLines_preserves {P : Progress → Prop} {p q : Progress} {number : Int} {skip : Nat}
    {lines : List Line} (h : readLines p number skip lines = .ok q)
    (hmove : ∀ line ∈ lines, ∀ a b, Move line a b → P a → P b) (hp : P p) : P q := by
  fun_induction readLines p number skip lines with
  | case1 =>
    cases h
    exact hp
  | case2 _ _ _ _ _ ih => exact ih h (fun l hl => hmove l (List.mem_cons_of_mem _ hl)) hp
  | case3 => cases h
  | case4 p number line rest p' taken hline ih =>
    exact ih h (fun l hl => hmove l (List.mem_cons_of_mem _ hl))
      (hmove line List.mem_cons_self p p' (readLine_move hline) hp)

/-- The first lines of all hunks read so far can be written. -/
def Progress.Writable (p : Progress) : Prop :=
  ∀ f ∈ p.patches, ∀ h ∈ f.hunks, writable h.oldStart = true

namespace Progress

variable {p : Progress}

theorem Writable.addFile (h : p.Writable) (oldPath newPath : String) :
    (p.addFile oldPath newPath).Writable := by
  intro f hf k hk
  rcases List.mem_cons.1 hf with rfl | hf
  · cases hk
  · exact h f hf k hk

theorem Writable.addLine (h : p.Writable) (l : HunkLine) : (p.addLine l).Writable := by
  unfold Progress.addLine Progress.Writable
  dsimp only
  split
  · rename_i file oldPath newPath k ks rest hp
    intro f hf j hj
    rcases List.mem_cons.1 hf with rfl | hf
    · rcases List.mem_cons.1 hj with rfl | hj
      · exact h ⟨file, oldPath, newPath, k :: ks⟩ (by rw [hp]; exact List.mem_cons_self) k
          List.mem_cons_self
      · exact h ⟨file, oldPath, newPath, k :: ks⟩ (by rw [hp]; exact List.mem_cons_self) j
          (List.mem_cons_of_mem k hj)
    · exact h f (by rw [hp]; exact List.mem_cons_of_mem _ hf) j hj
  · exact h

theorem Writable.move {line : Line} {q : Progress} (h : p.Writable) (hmove : Move line p q) :
    q.Writable := by
  cases hmove with
  | stay => exact h
  | close => exact h
  | add l _ => exact h.addLine l
  | file oldPath newPath _ => exact h.addFile oldPath newPath
  | @hunk f fs number k hp _ hk =>
    intro g hg j hj
    rcases List.mem_cons.1 hg with rfl | hg
    · rcases List.mem_cons.1 hj with rfl | hj
      · exact (hunkOfHeader_ok hk).1
      · exact h f (by rw [hp]; exact List.mem_cons_self) j hj
    · exact h g (by rw [hp]; exact List.mem_cons_of_mem f hg) j hj

theorem Writable.result (h : p.Writable) :
    ∀ f ∈ p.result, ∀ k ∈ f.hunks, writable k.oldStart = true := by
  intro f hf k hk
  obtain ⟨g, hg, rfl⟩ := List.mem_map.1 hf
  obtain ⟨j, hj, rfl⟩ := List.mem_map.1 hk
  exact h g (List.mem_reverse.1 hg) j (List.mem_reverse.1 hj)

end Progress

theorem readOutside_faults (p : Progress) (number : Int) (line : Line) (rest : List Line) :
    FaultsIn LongNumber (readOutside p number line rest) := by
  unfold readOutside
  split
  · split
    · exact .fail _
    · exact .ok _
  · split
    · split
      · exact .fail _
      · split
        · rename_i he
          exact (hunkOfHeader_faults _ _).error he
        · exact .ok _
    · exact .ok _

theorem readLine_faults (p : Progress) (number : Int) (line : Line) (rest : List Line) :
    FaultsIn LongNumber (readLine p number line rest) := by
  unfold readLine
  split
  · exact readOutside_faults _ _ _ _
  · split
    · exact .ok _
    · exact .ok _
    · exact readOutside_faults _ _ _ _

theorem readLines_faults (p : Progress) (number : Int) (skip : Nat) (lines : List Line) :
    FaultsIn LongNumber (readLines p number skip lines) := by
  fun_induction readLines p number skip lines with
  | case1 => exact .ok _
  | case2 _ _ _ _ _ ih => exact ih
  | case3 p number line rest e he => exact (readLine_faults _ _ _ _).error he
  | case4 _ _ _ _ _ _ _ ih => exact ih

/-! ## Whole diffs -/

theorem checked_ok {qs ps : List FilePatch} (h : checked qs = .ok ps) : ps = qs ∧ qs ≠ [] := by
  unfold checked at h
  split at h
  · cases h
  · rename_i hne
    split at h
    · exact ⟨(Except.ok.inj h).symm, fun hnil => hne (by rw [hnil]; rfl)⟩
    · cases h

theorem checked_faults (qs : List FilePatch) : Faultless (checked qs) := by
  unfold checked
  split
  · exact .fail _
  · split
    · exact .ok _
    · exact .fail _

theorem parse_ne_nil {text : String} {ps : List FilePatch} (h : parse text = .ok ps) :
    ps ≠ [] := by
  obtain ⟨p, -, h⟩ := Outcome.bind_eq_ok.1 h
  obtain ⟨rfl, hne⟩ := checked_ok h
  exact hne

/-- **The numbers of a diff**: the first line that a header names can be written. -/
theorem parse_writable {text : String} {ps : List FilePatch} (h : parse text = .ok ps) :
    ∀ p ∈ ps, ∀ k ∈ p.hunks, writable k.oldStart = true := by
  obtain ⟨p, hp, h⟩ := Outcome.bind_eq_ok.1 h
  obtain ⟨rfl, -⟩ := checked_ok h
  have hnone : Progress.Writable {} := fun f hf => by cases hf
  have hlast : p.Writable := readLines_preserves hp (fun _ _ _ _ hmove ha => ha.move hmove) hnone
  exact hlast.result

/-- The only fault that reading a text as a diff can end in is a number with too many digits. -/
theorem parse_faults (text : String) : FaultsIn LongNumber (parse text) := by
  refine (readLines_faults _ _ _ _).bind fun p _ => ?_
  exact (checked_faults _).mono fun _ h => h.elim

/-! ## Numbers that are too long -/

/-- A hunk header one of whose numbers has too many digits. -/
def LongHeader (line : Line) : Prop :=
  ∃ oldStart oldCount newStart newCount rest,
    headerParts? (trimEnd line) = some ((oldStart, oldCount), (newStart, newCount), rest) ∧
    ∃ ds ∈ oldStart :: oldCount.toList ++ newStart :: newCount.toList, maxDigits < ds.length

/-- Reading these lines, the first `skip` of which have been taken along, gets to a hunk header. -/
inductive Meets : (p : Progress) → (number : Int) → (skip : Nat) → (lines : List Line) →
    (header : Line) → Prop
  | here {p : Progress} {number : Int} {header : Line} {rest : List Line}
    (hfile : p.patches ≠ []) (hmark : startsWith header hunkMark = true) :
    Meets p number 0 (header :: rest) header
  | after {p q : Progress} {number : Int} {taken : Nat} {line header : Line} {rest : List Line}
    (hline : readLine p number line rest = .ok (q, taken))
    (h : Meets q (number + 1) taken rest header) : Meets p number 0 (line :: rest) header
  | taken {p : Progress} {number : Int} {skip : Nat} {line header : Line} {rest : List Line}
    (h : Meets p (number + 1) skip rest header) : Meets p number (skip + 1) (line :: rest) header

theorem numberOf_ok_or_faulty (ds : Line) :
    Faulty (numberOf ds) ∨ ∃ n, numberOf ds = .ok n := by
  unfold numberOf naturalOfDigits
  by_cases hlen : maxDigits < ds.length
  · rw [if_pos hlen]
    exact .inl .misuse
  · rw [if_neg hlen]
    exact .inr ⟨_, rfl⟩

theorem numberOf_faulty {ds : Line} : Faulty (numberOf ds) ↔ maxDigits < ds.length := by
  unfold numberOf naturalOfDigits
  by_cases hlen : maxDigits < ds.length
  · rw [if_pos hlen]
    exact iff_of_true .misuse hlen
  · rw [if_neg hlen]
    exact iff_of_false Faulty.not_ok hlen

theorem countOf_ok_or_faulty (ds : Option Line) :
    Faulty (countOf ds) ∨ ∃ n, countOf ds = .ok n := by
  cases ds with
  | none => exact .inr ⟨1, rfl⟩
  | some ds => exact numberOf_ok_or_faulty ds

theorem countOf_faulty {ds : Option Line} :
    Faulty (countOf ds) ↔ ∃ d ∈ ds.toList, maxDigits < d.length := by
  cases ds with
  | none => simp [countOf, Faulty.not_ok]
  | some ds => simp [countOf, numberOf_faulty]

/-- A hunk header is a fault when one of its numbers has too many digits. -/
theorem hunkOfHeader_faulty (line : Line) (number : Option Int) :
    Faulty (hunkOfHeader line number) ↔ LongHeader line := by
  unfold hunkOfHeader LongHeader
  cases hparts : headerParts? (trimEnd line) with
  | none => simp [Faulty.not_fail]
  | some parts =>
    obtain ⟨⟨oldStart, oldCount⟩, ⟨newStart, newCount⟩, rest⟩ := parts
    dsimp only
    rw [Faulty.bind_iff_or (numberOf_ok_or_faulty _) fun _ =>
        Faulty.bind_iff_or (countOf_ok_or_faulty _) fun _ =>
        Faulty.bind_iff_or (numberOf_ok_or_faulty _) fun _ =>
        Faulty.bind_iff_or (countOf_ok_or_faulty _) fun _ => iff_of_false Faulty.not_ok not_false]
    simp [numberOf_faulty, countOf_faulty, or_and_right, exists_or]

theorem not_oldMark_of_hunkMark {line : Line} (h : startsWith line hunkMark = true) :
    startsWith line oldMark = false := by
  obtain ⟨rest, rfl⟩ := List.isPrefixOf_iff_prefix.1 h
  rfl

/-- A hunk header ends an open hunk. -/
theorem roleOf_hunkMark {line : Line} {rest : List Line} {expecting : Bool}
    (h : startsWith line hunkMark = true) : roleOf expecting line rest = .closing := by
  have hold := not_oldMark_of_hunkMark h
  have hremark : startsWith line ['\\'] = false := by
    obtain ⟨rest, rfl⟩ := List.isPrefixOf_iff_prefix.1 h
    rfl
  simp [roleOf, startsFile, h, hold, hremark]

theorem readOutside_faulty {p : Progress} {number : Int} {line : Line} {rest : List Line} :
    Faulty (readOutside p number line rest) ↔
      p.patches ≠ [] ∧ startsWith line hunkMark = true ∧ LongHeader line := by
  unfold readOutside
  split
  · rename_i hold
    refine iff_of_false ?_ fun h => ?_
    · split
      · exact Faulty.not_fail
      · exact Faulty.not_ok
    · rw [not_oldMark_of_hunkMark h.2.1] at hold
      cases hold
  · split
    · rename_i hmark
      split
      · rename_i hnone
        exact iff_of_false Faulty.not_fail fun h => h.1 (List.isEmpty_iff.1 hnone)
      · rename_i hfile
        rw [and_iff_right (mt List.isEmpty_iff.2 hfile), and_iff_right hmark,
          ← hunkOfHeader_faulty line number]
        split
        · rename_i he
          rw [he]
          exact Faulty.error_iff
        · rename_i he
          rw [he]
          exact iff_of_false Faulty.not_ok Faulty.not_ok
    · rename_i hmark
      exact iff_of_false Faulty.not_ok fun h => hmark h.2.1

/-- A line is a fault when it is a header with a number that is too long. -/
theorem readLine_faulty {p : Progress} {number : Int} {line : Line} {rest : List Line} :
    Faulty (readLine p number line rest) ↔
      p.patches ≠ [] ∧ startsWith line hunkMark = true ∧ LongHeader line := by
  unfold readLine
  split
  · exact readOutside_faulty
  · split
    · rename_i hrole
      refine iff_of_false Faulty.not_ok fun h => ?_
      rw [roleOf_hunkMark h.2.1] at hrole
      cases hrole
    · rename_i hrole
      refine iff_of_false Faulty.not_ok fun h => ?_
      rw [roleOf_hunkMark h.2.1] at hrole
      cases hrole
    · exact readOutside_faulty

/-- Reading lines is a fault when it gets to a header with a number that is too long. -/
theorem readLines_faulty {p : Progress} {number : Int} {skip : Nat} {lines : List Line} :
    Faulty (readLines p number skip lines) ↔
      ∃ header, Meets p number skip lines header ∧ LongHeader header := by
  fun_induction readLines p number skip lines with
  | case1 =>
    refine iff_of_false Faulty.not_ok ?_
    rintro ⟨header, h, -⟩
    cases h
  | case2 p number line rest skip ih =>
    rw [ih]
    refine exists_congr fun header => and_congr_left fun _ => ⟨.taken, fun h => ?_⟩
    cases h with
    | taken h => exact h
  | case3 p number line rest e he =>
    have hline : Faulty (readLine p number line rest) ↔ Faulty (.error e : Outcome Progress) := by
      rw [he]
      exact Faulty.error_iff
    rw [← hline, readLine_faulty]
    constructor
    · rintro ⟨hfile, hmark, hlong⟩
      exact ⟨line, .here hfile hmark, hlong⟩
    · rintro ⟨header, h, hlong⟩
      cases h with
      | here hfile hmark => exact ⟨hfile, hmark, hlong⟩
      | after hnext _ =>
        rw [he] at hnext
        cases hnext
  | case4 p number line rest q taken hq ih =>
    -- Had this line been such a header, reading it would have been a fault.
    rw [ih]
    refine exists_congr fun header => ⟨fun h => h.imp_left (.after hq), ?_⟩
    rintro ⟨h, hlong⟩
    cases h with
    | here hfile hmark =>
      obtain ⟨f, hf⟩ := readLine_faulty.2 ⟨hfile, hmark, hlong⟩
      rw [hq] at hf
      cases hf
    | after hnext h =>
      rw [hq] at hnext
      cases hnext
      exact ⟨h, hlong⟩

/-- **Reading a diff is a fault** exactly when it gets to a hunk header with a number that is too
long. -/
theorem parse_faulty {text : String} :
    Faulty (parse text) ↔ ∃ header, Meets {} 1 0 (linesOf text) header ∧ LongHeader header := by
  rw [parse, Faulty.bind_iff, readLines_faulty]
  refine or_iff_left ?_
  rintro ⟨p, -, f, hf⟩
  exact checked_faults _ f hf

/-! ## A header with a number that is too long -/

/-- A hunk header whose first number is written by the given digits. -/
def headerWith (ds : Line) : Line := ['@', '@', ' ', '-'] ++ ds ++ [' ', '+', '1', ' ', '@', '@']

def oldLine : Line := ['-', '-', '-', ' ', 'a', '/', 'a', '.', 'p', 'y']

def newLine : Line := ['+', '+', '+', ' ', 'b', '/', 'a', '.', 'p', 'y']

/-- A diff with this header. -/
def diffWith (ds : Line) : String :=
  String.ofList (oldLine ++ '\n' :: (newLine ++ '\n' :: headerWith ds))

section
variable {ds : Line} (hdigits : ∀ c ∈ ds, isDigit c = true)

include hdigits in
theorem headerParts?_headerWith (hne : ds ≠ []) :
    headerParts? (trimEnd (headerWith ds)) = some ((ds, none), (['1'], none), []) := by
  have htrim : trimEnd (headerWith ds) = headerWith ds := by
    have hlast : (headerWith ds).reverse = '@' :: ('@' :: ' ' :: '1' :: '+' :: ' ' ::
        (['@', '@', ' ', '-'] ++ ds).reverse) := by
      simp [headerWith]
    rw [trimEnd, hlast, List.dropWhile_cons_of_neg (by decide), ← hlast, List.reverse_reverse]
  have hnumber : digits? (ds ++ [' ', '+', '1', ' ', '@', '@']) =
      some (ds, [' ', '+', '1', ' ', '@', '@']) := digits?_append hdigits hne (by decide)
  have hafter : after? ['@', '@', ' ', '-'] (headerWith ds) =
      some (ds ++ [' ', '+', '1', ' ', '@', '@']) := rfl
  have hone : digits? ['1', ' ', '@', '@'] = some (['1'], [' ', '@', '@']) := by decide +kernel
  have hplus : after? [' ', '+'] [' ', '+', '1', ' ', '@', '@'] = some ['1', ' ', '@', '@'] := rfl
  have hend : after? [' ', '@', '@'] [' ', '@', '@'] = some [] := rfl
  rw [htrim, headerParts?, hafter]
  simp [range?, hnumber, hone, hplus, hend]

include hdigits in
theorem hunkOfHeader_headerWith (hlen : maxDigits < ds.length) (number : Option Int) :
    hunkOfHeader (headerWith ds) number = misuse .value (tooLongMessage ds.length) := by
  have hne : ds ≠ [] := by
    rintro rfl
    cases hlen
  have hnumber : numberOf ds = misuse .value (tooLongMessage ds.length) := by
    rw [numberOf, naturalOfDigits, if_pos hlen]
  rw [hunkOfHeader, headerParts?_headerWith hdigits hne]
  simp only [hnumber]
  rfl

include hdigits in
theorem oneLine_headerWith : OneLine (headerWith ds) := by
  have hmarks : OneLine (['@', '@', ' ', '-'] ++ [' ', '+', '1', ' ', '@', '@']) := by
    simp [OneLine]
  intro c hc
  rcases List.mem_append.1 hc with hc | hc
  · rcases List.mem_append.1 hc with hc | hc
    · exact hmarks c (List.mem_append_left _ hc)
    · constructor
      · rintro rfl
        exact absurd (hdigits _ hc) (by decide)
      · rintro rfl
        exact absurd (hdigits _ hc) (by decide)
  · exact hmarks c (List.mem_append_right _ hc)

include hdigits in
theorem linesOf_diffWith : linesOf (diffWith ds) = [oldLine, newLine, headerWith ds] := by
  have hold : OneLine oldLine := by
    simp [OneLine, oldLine]
  have hnew : OneLine newLine := by
    simp [OneLine, newLine]
  have hink : allBlank (headerWith ds) = false := rfl
  rw [linesOf, diffWith, String.toList_ofList, splitLines, (splitLines_go_oneLine hold).2,
    (splitLines_go_oneLine hnew).2, (splitLines_go_oneLine (oneLine_headerWith hdigits)).1]
  simp [dropBlankEnd, hink]

include hdigits in
/-- **A diff with too long a number** cannot be read. -/
theorem parse_diffWith (hlen : maxDigits < ds.length) :
    parse (diffWith ds) = misuse .value (tooLongMessage ds.length) := by
  have hfile : readLine {} 1 oldLine [newLine, headerWith ds] =
      .ok (Progress.addFile {} (headerPath (oldLine.drop 4)) (headerPath (newLine.drop 4)), 1) :=
    rfl
  have hhunk : ∀ oldPath newPath number,
      readLine (({} : Progress).addFile oldPath newPath) number (headerWith ds) [] =
        misuse .value (tooLongMessage ds.length) := by
    intro oldPath newPath number
    have hold : startsWith (headerWith ds) oldMark = false := rfl
    have hmark : startsWith (headerWith ds) hunkMark = true := rfl
    show readOutside _ number (headerWith ds) [] = _
    rw [readOutside, hold, hmark, hunkOfHeader_headerWith hdigits hlen]
    rfl
  rw [parse, linesOf_diffWith hdigits, readLines, hfile]
  dsimp only
  rw [readLines, readLines, hhunk]
  rfl

end

end Diff

end EvidenceLock
