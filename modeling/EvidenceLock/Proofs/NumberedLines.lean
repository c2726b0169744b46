import EvidenceLock.Proofs.Lines
import EvidenceLock.Proofs.WhiteSpace
import Mathlib.Data.List.Count

/-!
# The numbers of normalized lines

A text has one line more than line feeds (`Text.length_splitLines`), and removing comments keeps the
line feeds (`Language.count_stripComments`). So the numbers of the normalized lines are those of
lines of the text itself, and they increase (`normalizedLines_number`, `normalizedLines_pairwise`).
-/

namespace EvidenceLock

open EvidenceLock.Text

namespace Text

/-- A text has one line more than line feeds. -/
theorem length_splitLines (cs : List Char) : (splitLines cs).length = cs.count '\n' + 1 := by
  have hgo (line cs : List Char) : (splitLines.go line cs).length = cs.count '\n' + 1 := by
    fun_induction splitLines.go line cs with
    | case1 => rfl
    | case2 line r ih => simp [ih]
    | case3 line r ih => simp [ih]
    | case4 line c r hlf _ ih =>
      rw [ih, List.count_cons_of_ne]
      exact hlf
  exact hgo [] cs

theorem length_linesOf (content : String) :
    (linesOf content).length = content.toList.count '\n' + 1 := by
  rw [linesOf, List.length_map, length_splitLines]

end Text

/-! ## Comments -/

namespace CommentStyle

/-- A comment is replaced by its line feeds. -/
theorem count_strip (style : CommentStyle) (cs : List Char) :
    (style.strip cs).count '\n' = cs.count '\n' := by
  -- Inside a comment, of which `left` characters remain, only line feeds are kept.
  have hgo (left : Nat) (acc cs : List Char) :
      (strip.go style left acc cs).count '\n' = acc.count '\n' + cs.count '\n' := by
    induction cs generalizing left acc with
    | nil => simp [strip.go]
    | cons c r ih =>
      have hkept : (if c = '\n' then c :: acc else acc).count '\n' + r.count '\n' =
          acc.count '\n' + (c :: r).count '\n' := by
        by_cases hc : c = '\n'
        · simp [hc]
          omega
        · simp [hc]
      cases left with
      | succ left => rw [strip.go, ih, hkept]
      | zero =>
        rw [strip.go]
        split
        · rw [ih, hkept]
        · rw [ih, List.count_cons, List.count_cons]
          omega
  rw [strip, hgo, List.count_nil, Nat.zero_add]

end CommentStyle

theorem Language.count_stripComments (l : Language) (cs : List Char) :
    (l.stripComments cs).count '\n' = cs.count '\n' :=
  List.foldlRecOn (motive := fun ds : List Char => ds.count '\n' = cs.count '\n') l.comments _ rfl
    fun ds hds style _ => (style.count_strip ds).trans hds

/-! ## Numbers -/

/-- **The numbered lines** are those with something besides white space. -/
theorem mem_numberedLines_iff {first : Int} {ls : List (List Char)} {n : NumberedLine} :
    n ∈ numberedLines first ls ↔ ∃ (k : Nat) (line : List Char), ls[k]? = some line ∧
      (∃ c ∈ line, isBlank c = false) ∧
      n = { number := first + k, text := String.ofList (normalLine line) } := by
  induction ls generalizing first with
  | nil => simp [numberedLines]
  | cons cs ls ih =>
    -- Line `k + 1` behind a line is line `k` of those that follow it.
    have hnext : n ∈ numberedLines (first + 1) ls ↔ ∃ (k : Nat) (line : List Char),
        (cs :: ls)[k + 1]? = some line ∧ (∃ c ∈ line, isBlank c = false) ∧
        n = { number := first + (k + 1 : Nat), text := String.ofList (normalLine line) } := by
      rw [ih]
      simp only [List.getElem?_cons_succ, Int.natCast_add, Int.natCast_one, Int.add_assoc,
        Int.add_comm 1]
    have hmem : n ∈ numberedLines first (cs :: ls) ↔
        ((∃ c ∈ cs, isBlank c = false) ∧
          n = { number := first, text := String.ofList (normalLine cs) }) ∨
        n ∈ numberedLines (first + 1) ls := by
      rw [numberedLines, ← normalLine_ne_nil_iff]
      by_cases hcs : normalLine cs = [] <;> simp [hcs]
    rw [hmem, hnext]
    constructor
    · rintro (⟨hink, rfl⟩ | ⟨k, line, hk⟩)
      · exact ⟨0, cs, rfl, hink, by simp⟩
      · exact ⟨k + 1, line, hk⟩
    · rintro ⟨k, line, hline, hink, rfl⟩
      cases k with
      | zero =>
        cases hline
        exact .inl ⟨hink, by simp⟩
      | succ k => exact .inr ⟨k, line, hline, hink, rfl⟩

theorem mem_numberedLines {first : Int} {ls : List (List Char)} {l : NumberedLine}
    (h : l ∈ numberedLines first ls) :
    first ≤ l.number ∧ l.number < first + ls.length ∧ '\n' ∉ l.text.toList := by
  obtain ⟨k, line, hline, -, rfl⟩ := mem_numberedLines_iff.1 h
  obtain ⟨hlt, -⟩ := List.getElem?_eq_some_iff.1 hline
  rw [String.toList_ofList]
  exact ⟨by dsimp only; omega, by dsimp only; omega, not_mem_normalLine line⟩

theorem numberedLines_pairwise (first : Int) (ls : List (List Char)) :
    ((numberedLines first ls).map NumberedLine.number).Pairwise (· < ·) := by
  induction ls generalizing first with
  | nil => exact .nil
  | cons cs ls ih =>
    rw [numberedLines]
    split
    · exact ih _
    · refine List.Pairwise.cons (fun n hn => ?_) (ih _)
      obtain ⟨l, hl, rfl⟩ := List.mem_map.1 hn
      exact Int.lt_of_lt_of_le (Int.lt_succ first) (mem_numberedLines hl).1

/-- **The number of a normalized line** is that of a line of the text. -/
theorem normalizedLines_number {language : Language} {content : String} {l : NumberedLine}
    (h : l ∈ normalizedLines language content) :
    1 ≤ l.number ∧ l.number ≤ (linesOf content).length ∧ '\n' ∉ l.text.toList := by
  obtain ⟨hge, hlt, htext⟩ := mem_numberedLines h
  rw [length_splitLines, language.count_stripComments, ← length_linesOf] at hlt
  exact ⟨hge, by omega, htext⟩

theorem normalizedLines_pairwise (language : Language) (content : String) :
    ((normalizedLines language content).map NumberedLine.number).Pairwise (· < ·) :=
  numberedLines_pairwise _ _

theorem numberedLines_length_le (first : Int) (ls : List (List Char)) :
    (numberedLines first ls).length ≤ ls.length := by
  induction ls generalizing first with
  | nil => exact Nat.le_refl 0
  | cons cs ls ih =>
    rw [numberedLines, List.length_cons]
    split
    · exact Nat.le_succ_of_le (ih _)
    · exact Nat.succ_le_succ (ih _)

/-- A text has no more normalized lines than lines. -/
theorem normalizedLines_length_le (language : Language) (content : String) :
    (normalizedLines language content).length ≤ (linesOf content).length := by
  refine Nat.le_trans (numberedLines_length_le _ _) (Nat.le_of_eq ?_)
  rw [length_splitLines, language.count_stripComments, length_linesOf]

end EvidenceLock
