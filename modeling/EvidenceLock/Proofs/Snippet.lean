import EvidenceLock.Fix.Prompt
import EvidenceLock.Proofs.HunkHeader

/-!
# Lines as a snippet shows them

A snippet shows each line behind its number. Looking up a number in it (`shownLine?`) gives the line
of the text with this number (`shownLine?_numberedSnippet`), since the labels of two lines differ
before the bar that ends them.
-/

namespace EvidenceLock

open EvidenceLock.Text

/-- What stands between a number and its line. -/
def bar : String := " | "

/-- The line that a snippet shows behind a number. -/
def shownLine? (snippet : String) (n : Nat) : Option String :=
  ((snippet.toList.splitOn '\n').findSome? (Diff.after? (lineLabel n ++ bar).toList)).map
    String.ofList

/-- The lines that a snippet shows behind the numbers `first` to `last`. -/
def shownLines (snippet : String) (first last : Nat) : List String :=
  (List.range' first (last + 1 - first)).filterMap (shownLine? snippet)

/-! ## Labels -/

theorem toList_lineLabel (n : Nat) : (lineLabel n).toList =
    List.replicate (4 - (Nat.toDigits 10 n).length) ' ' ++ Nat.toDigits 10 n := by
  have htext : toString (n : Int) = String.ofList (Nat.toDigits 10 n) := rfl
  simp [lineLabel, htext]

/-- The number of a label is found behind its spaces. -/
theorem digits?_lineLabel (n : Nat) (rest : Diff.Line) :
    Diff.digits? (((lineLabel n).toList ++ ' ' :: rest).dropWhile (· == ' ')) =
      some (Nat.toDigits 10 n, ' ' :: rest) := by
  obtain ⟨d, ds, hds⟩ := List.exists_cons_of_ne_nil (Nat.toDigits_ne_nil (n := n) (b := 10))
  have hd : d ≠ ' ' := by
    rintro rfl
    exact not_mem_toDigits (by decide) (hds ▸ List.mem_cons_self)
  have hspaces : ∀ c ∈ List.replicate (4 - (Nat.toDigits 10 n).length) ' ', (c == ' ') = true := by
    simp
  have hdrop : ((lineLabel n).toList ++ ' ' :: rest).dropWhile (· == ' ') =
      Nat.toDigits 10 n ++ ' ' :: rest := by
    rw [toList_lineLabel, List.append_assoc, List.dropWhile_append_of_pos hspaces, hds,
      List.cons_append, List.dropWhile_cons_of_neg (by simpa using hd)]
  rw [hdrop, Diff.digits?_toDigits n (by decide)]

/-- The row that shows a line. -/
def snippetRow (n : Nat) (line : String) : String := lineLabel n ++ bar ++ line

/-- A row shows its line behind its own number and nothing behind another one. -/
theorem after?_snippetRow (m n : Nat) (line : String) :
    Diff.after? (lineLabel n ++ bar).toList (snippetRow m line).toList =
      if m = n then some line.toList else none := by
  rw [snippetRow, String.toList_append (s := lineLabel m ++ bar)]
  split
  · rename_i h
    rw [h, Diff.after?_append]
  · rename_i h
    rw [Diff.after?, if_neg]
    intro hprefix
    obtain ⟨r, hr⟩ := List.isPrefixOf_iff_prefix.1 hprefix
    have hlabels := congrArg (fun cs => Diff.digits? (cs.dropWhile (· == ' '))) hr
    simp only [bar, String.toList_append, String.reduceToList, List.append_assoc, List.cons_append,
      digits?_lineLabel] at hlabels
    have hdigits := congrArg digitsValue (Prod.mk.inj (Option.some.inj hlabels)).1
    rw [digitsValue_toDigits, digitsValue_toDigits] at hdigits
    exact h hdigits.symm

theorem not_mem_snippetRow (n : Nat) {line : String} (h : '\n' ∉ line.toList) :
    '\n' ∉ (snippetRow n line).toList := by
  have hdigits : '\n' ∉ Nat.toDigits 10 n := not_mem_toDigits (by decide)
  simp [snippetRow, bar, toList_lineLabel, h, hdigits]

/-! ## Rows -/

/-- The rows of a snippet that starts with line `first`. -/
def snippetRows (first : Nat) (lines : List (String × Nat)) : List String :=
  lines.map fun (line, i) => snippetRow (first + i) line

theorem findSome?_snippetRows {first k n : Nat} (lines : List String) (h : first + k ≤ n) :
    ((snippetRows first (lines.zipIdx k)).map String.toList).findSome?
      (Diff.after? (lineLabel n ++ bar).toList) =
        (lines[n - (first + k)]?).map String.toList := by
  induction lines generalizing k with
  | nil => rfl
  | cons line lines ih =>
    rw [snippetRows, List.zipIdx_cons, List.map_cons, List.map_cons, List.findSome?_cons,
      after?_snippetRow]
    by_cases hn : first + k = n
    · simp [hn]
    · have hnext : n - (first + k) = n - (first + (k + 1)) + 1 := by omega
      rw [if_neg hn, hnext, List.getElem?_cons_succ]
      exact ih (by omega)

/-- Looking up consecutive lines gives a piece of the text. -/
theorem filterMap_range' (lines : List String) {m : Nat} (hm : 1 ≤ m) (count : Nat) :
    (List.range' m count).filterMap (fun n => lines[n - 1]?) =
      (lines.drop (m - 1)).take count := by
  induction count generalizing m with
  | zero => simp
  | succ count ih =>
    rw [List.range'_succ, List.filterMap_cons, ih (by omega), Nat.add_sub_cancel]
    by_cases hlt : m - 1 < lines.length
    · have hdrop := List.drop_eq_getElem_cons hlt
      rw [Nat.sub_add_cancel hm] at hdrop
      rw [List.getElem?_eq_getElem hlt, hdrop, List.take_succ_cons]
    · rw [List.getElem?_eq_none (by omega), List.drop_eq_nil_of_le (by omega),
        List.drop_eq_nil_of_le (by omega)]
      simp

theorem numberedSnippet_eq (content : String) {first : Nat} (last : Nat) (hfirst : 1 ≤ first) :
    numberedSnippet content first last =
      joinLines (snippetRows first
        (((linesOf content).drop (first - 1)).take (last + 1 - first)).zipIdx) := by
  have hneg : ¬ (first : Int) - 1 < 0 := by omega
  have hneg' : ¬ (last : Int) < 0 := by omega
  have hstart : ((first : Int) - 1).toNat = first - 1 := by omega
  have hcount : last - (first - 1) = last + 1 - first := by omega
  rw [numberedSnippet, sliceOf]
  simp only [hneg, hneg', if_false, hstart, Int.toNat_natCast, hcount]
  rfl

section
variable {content : String} {first last : Nat} (hfirst : 1 ≤ first)
  (hlast : last ≤ (linesOf content).length)

include hfirst hlast

/-- **A snippet shows the lines of its text** behind their numbers. -/
theorem shownLine?_numberedSnippet {n : Nat} (hn : first ≤ n) (hn' : n ≤ last) :
    shownLine? (numberedSnippet content first last) n = (linesOf content)[n - 1]? := by
  let lines := ((linesOf content).drop (first - 1)).take (last + 1 - first)
  have hlen : lines.length = last + 1 - first := by
    rw [List.length_take, List.length_drop]
    omega
  have hne : snippetRows first lines.zipIdx ≠ [] := by
    rw [← List.length_pos_iff, snippetRows, List.length_map, List.length_zipIdx, hlen]
    omega
  have hrows : ∀ row ∈ snippetRows first lines.zipIdx, '\n' ∉ row.toList := by
    intro row hrow
    obtain ⟨⟨line, i⟩, hline, rfl⟩ := List.mem_map.1 hrow
    have hmem := List.mem_of_mem_drop (List.mem_of_mem_take (List.fst_mem_of_mem_zipIdx hline))
    exact not_mem_snippetRow _ (not_mem_of_mem_linesOf hmem)
  have hline : lines[n - first]? = (linesOf content)[n - 1]? := by
    rw [List.getElem?_take_of_lt (by omega), List.getElem?_drop]
    congr 1
    omega
  have hfound := findSome?_snippetRows lines (k := 0) hn
  rw [Nat.add_zero, hline] at hfound
  rw [shownLine?, numberedSnippet_eq content last hfirst, splitOn_joinLines hne hrows, hfound,
    Option.map_map]
  simp

/-- The lines that a snippet shows behind some numbers are those of its text. -/
theorem shownLines_numberedSnippet {m n : Nat} (hm : first ≤ m) (hn : n ≤ last) :
    shownLines (numberedSnippet content first last) m n =
      ((linesOf content).drop (m - 1)).take (n + 1 - m) := by
  have hshown : ∀ k ∈ List.range' m (n + 1 - m),
      shownLine? (numberedSnippet content first last) k = (linesOf content)[k - 1]? := by
    intro k hk
    obtain ⟨hmk, hkn⟩ := List.mem_range'_1.1 hk
    exact shownLine?_numberedSnippet hfirst hlast (by omega) (by omega)
  rw [shownLines, List.filterMap_congr hshown, filterMap_range']
  omega

end

end EvidenceLock
