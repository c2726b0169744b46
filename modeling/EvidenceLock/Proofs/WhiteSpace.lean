import EvidenceLock.Proofs.HunkHeader
import EvidenceLock.Source.Normalized
import Mathlib.Data.List.Chain

/-!
# White space in normalized lines

What is left of a line are its words with single spaces between them (`normalLine_eq`). Nothing is
left of a line without a word; all others become tidy (`tidy_normalLine`): no white space at either
end, no two spaces in a row, and no white space but spaces, so no break of a line either.
-/

namespace EvidenceLock

namespace Text

/-- The longest stretches of a text without white space. -/
def words (cs : List Char) : List (List Char) := (cs.splitOnP isBlank).filter fun w => !w.isEmpty

/-- Words with a space between neighbours. -/
def spaced (ws : List (List Char)) : List Char := [' '].intercalate ws

theorem spaced_cons_cons (w v : List Char) (ws : List (List Char)) :
    spaced (w :: v :: ws) = w ++ ' ' :: spaced (v :: ws) := by
  rw [spaced, List.intercalate_cons_cons, List.append_assoc]
  rfl

theorem spaced_cons_word (c : Char) (w : List Char) (ws : List (List Char)) :
    spaced ((c :: w) :: ws) = c :: spaced (w :: ws) := by
  cases ws with
  | nil => simp [spaced]
  | cons v ws => rw [spaced_cons_cons, spaced_cons_cons, List.cons_append]

theorem of_mem_words {cs w : List Char} (h : w ∈ words cs) :
    w ≠ [] ∧ ∀ c ∈ w, isBlank c = false := by
  obtain ⟨hw, hne⟩ := List.mem_filter.1 h
  refine ⟨by simpa using hne, fun c hc => ?_⟩
  clear hne h
  induction cs generalizing w with
  | nil =>
    rw [List.splitOnP_nil, List.mem_singleton] at hw
    rw [hw] at hc
    cases hc
  | cons d cs ih =>
    rw [List.splitOnP_cons_eq_if_modifyHead] at hw
    split at hw
    · rcases List.mem_cons.1 hw with rfl | hw
      · cases hc
      · exact ih hw hc
    · rename_i hd
      obtain ⟨v, vs, hvs⟩ := List.exists_cons_of_ne_nil (List.splitOnP_ne_nil isBlank cs)
      rw [hvs] at hw ih
      rcases List.mem_cons.1 hw with rfl | hw
      · rcases List.mem_cons.1 hc with rfl | hc
        · simpa using hd
        · exact ih List.mem_cons_self hc
      · exact ih (List.mem_cons_of_mem v hw) hc

theorem words_blank {c : Char} (h : isBlank c = true) (cs : List Char) :
    words (c :: cs) = words cs := by
  rw [words, List.splitOnP_cons_eq_if_modifyHead, if_pos h, List.filter_cons_of_neg (by simp), words]

theorem words_concat {c : Char} (h : isBlank c = true) (cs : List Char) :
    words (cs ++ [c]) = words cs := by
  rw [words, List.splitOnP_append_cons cs [] h, List.splitOnP_nil, List.filter_append, words]
  exact List.append_nil _

/-- White space ends the word before it. -/
theorem words_ink_blank {c d : Char} (hc : isBlank c = false) (hd : isBlank d = true)
    (cs : List Char) : words (c :: d :: cs) = [c] :: words cs := by
  simp [words, List.splitOnP_cons_eq_if_modifyHead, hc, hd]

/-- Other characters belong to the word that comes next. -/
theorem exists_words_ink {c : Char} (hc : isBlank c = false) (cs : List Char) :
    ∃ w ws, words (c :: cs) = (c :: w) :: ws ∧
      ∀ d, isBlank d = false → words (d :: c :: cs) = (d :: c :: w) :: ws := by
  obtain ⟨w, ws, hws⟩ := List.exists_cons_of_ne_nil (List.splitOnP_ne_nil isBlank cs)
  refine ⟨w, ws.filter fun w => !w.isEmpty, ?_, fun d hd => ?_⟩
  · simp [words, List.splitOnP_cons_eq_if_modifyHead, hws, hc]
  · simp [words, List.splitOnP_cons_eq_if_modifyHead, hws, hc, hd]

/-- A text has words where it has something besides white space. -/
theorem words_ne_nil_iff {cs : List Char} : words cs ≠ [] ↔ ∃ c ∈ cs, isBlank c = false := by
  induction cs with
  | nil => simp [words]
  | cons c cs ih =>
    by_cases hc : isBlank c = true
    · rw [words_blank hc, ih]
      simp [hc]
    · rw [Bool.not_eq_true] at hc
      obtain ⟨w, ws, hws, -⟩ := exists_words_ink hc cs
      rw [hws]
      simp [hc]

theorem spaced_words_ne_nil {cs : List Char} (h : words cs ≠ []) : spaced (words cs) ≠ [] := by
  obtain ⟨w, ws, hws⟩ := List.exists_cons_of_ne_nil h
  obtain ⟨hw, -⟩ := of_mem_words (hws ▸ List.mem_cons_self)
  obtain ⟨c, w, rfl⟩ := List.exists_cons_of_ne_nil hw
  rw [hws, spaced_cons_word]
  exact List.cons_ne_nil _ _

/-! ## Collapsing -/

theorem trim_concat {c : Char} (hc : isBlank c = true) (cs : List Char) :
    trim (cs ++ [c]) = trim cs := by
  rw [trim, trim, trimStart, trimStart, List.dropWhile_append]
  split
  · rename_i hempty
    rw [List.isEmpty_iff.1 hempty, List.dropWhile_cons_of_pos hc]
    rfl
  · exact trimEnd_concat _ hc

theorem trimEnd_append (as bs : List Char) :
    trimEnd (as ++ bs) = if trimEnd bs = [] then trimEnd as else as ++ trimEnd bs := by
  unfold trimEnd
  rw [List.reverse_append, List.dropWhile_append]
  by_cases h : bs.reverse.dropWhile isBlank = []
  · simp [h]
  · simp [h]

theorem collapse_go_eq (inRun : Bool) (acc cs : List Char) :
    collapse.go inRun acc cs = acc.reverse ++ collapse.go inRun [] cs := by
  induction cs generalizing inRun acc with
  | nil => simp [collapse.go]
  | cons c cs ih =>
    rw [collapse.go, collapse.go]
    split
    · rw [ih, ih _ (if inRun = true then [] else [' '])]
      cases inRun <;> simp
    · rw [ih, ih _ [c]]
      simp

theorem collapse_go_blank {c : Char} (h : isBlank c = true) (inRun : Bool) (cs : List Char) :
    collapse.go inRun [] (c :: cs) = (if inRun then [] else [' ']) ++ collapse.go true [] cs := by
  rw [collapse.go, if_pos h, collapse_go_eq]
  cases inRun <;> rfl

theorem collapse_go_ink {c : Char} (h : isBlank c = false) (inRun : Bool) (cs : List Char) :
    collapse.go inRun [] (c :: cs) = c :: collapse.go false [] cs := by
  rw [collapse.go, if_neg (by simp [h]), collapse_go_eq]
  rfl

/-- Inside a run of white space nothing begins with any. -/
theorem trimStart_collapse (cs : List Char) :
    trimStart (collapse.go true [] cs) = collapse.go true [] cs ∧
      trimStart (collapse cs) = collapse.go true [] cs := by
  induction cs with
  | nil => exact ⟨rfl, rfl⟩
  | cons c cs ih =>
    rw [collapse]
    by_cases hc : isBlank c = true
    · rw [collapse_go_blank hc, collapse_go_blank hc]
      refine ⟨ih.1, ?_⟩
      simp only [Bool.false_eq_true, if_false, if_true, List.singleton_append, List.nil_append]
      rw [trimStart, List.dropWhile_cons_of_pos isBlank_space]
      exact ih.1
    · rw [Bool.not_eq_true] at hc
      rw [collapse_go_ink hc, collapse_go_ink hc, trimStart,
        List.dropWhile_cons_of_neg (by simp [hc])]
      exact ⟨rfl, rfl⟩

/-- What is left of a text behind white space, and of one behind a character that is none. -/
theorem trimEnd_collapse (cs : List Char) :
    trimEnd (collapse.go true [] cs) = spaced (words cs) ∧
      ∀ c, isBlank c = false → trimEnd (c :: collapse.go false [] cs) = spaced (words (c :: cs)) := by
  induction cs with
  | nil =>
    refine ⟨rfl, fun c hc => ?_⟩
    simp [trimEnd, words, spaced, collapse.go, hc, List.splitOnP_cons_eq_if_modifyHead]
  | cons d cs ih =>
    obtain ⟨hrun, hword⟩ := ih
    by_cases hd : isBlank d = true
    · rw [collapse_go_blank hd, words_blank hd]
      refine ⟨hrun, fun c hc => ?_⟩
      rw [collapse_go_blank hd, words_ink_blank hc hd]
      change trimEnd ([c, ' '] ++ collapse.go true [] cs) = _
      rw [trimEnd_append, hrun]
      cases hcs : words cs with
      | nil => simp [spaced, trimEnd, isBlank_space, hc]
      | cons w ws =>
        rw [← hcs, if_neg (spaced_words_ne_nil (by simp [hcs])), hcs, spaced_cons_cons]
        rfl
    · rw [Bool.not_eq_true] at hd
      rw [collapse_go_ink hd]
      refine ⟨hword d hd, fun c hc => ?_⟩
      obtain ⟨w, ws, hws, hws'⟩ := exists_words_ink hd cs
      rw [collapse_go_ink hd]
      change trimEnd ([c] ++ d :: collapse.go false [] cs) = _
      rw [trimEnd_append, hword d hd, if_neg (spaced_words_ne_nil (by simp [hws])), hws, hws' c hc,
        spaced_cons_word c]
      rfl

/-! ## Tidy lines -/

/-- There is something, with white space only within, and there single spaces. -/
structure Tidy (cs : List Char) : Prop where
  ne_nil : cs ≠ []
  spaces : ∀ c ∈ cs, isBlank c = true → c = ' '
  first : ∀ c ∈ cs.head?, isBlank c = false
  last : ∀ c ∈ cs.getLast?, isBlank c = false
  single : cs.IsChain fun c d => isBlank c = true → isBlank d = false

namespace Tidy

theorem word {w : List Char} (hne : w ≠ []) (hw : ∀ c ∈ w, isBlank c = false) : Tidy w where
  ne_nil := hne
  spaces c hc hblank := by simp [hw c hc] at hblank
  first c hc := hw c (List.mem_of_mem_head? hc)
  last c hc := hw c (List.mem_of_mem_getLast? hc)
  single := by
    refine List.Pairwise.isChain ?_
    exact List.pairwise_of_forall_mem_list fun _ _ d hd _ => hw d hd

/-- A word before a tidy text, and a space between them. -/
theorem word_append {w cs : List Char} (hne : w ≠ []) (hw : ∀ c ∈ w, isBlank c = false)
    (h : Tidy cs) : Tidy (w ++ ' ' :: cs) where
  ne_nil := List.append_ne_nil_of_left_ne_nil hne _
  spaces c hc hblank := by
    rcases List.mem_append.1 hc with hc | hc
    · simp [hw c hc] at hblank
    · rcases List.mem_cons.1 hc with rfl | hc
      · rfl
      · exact h.spaces c hc hblank
  first c hc := by
    rw [List.head?_append_of_ne_nil _ hne] at hc
    exact hw c (List.mem_of_mem_head? hc)
  last c hc := by
    have hlast : (w ++ ' ' :: cs).getLast? = cs.getLast? := by
      rw [List.getLast?_append_cons, List.getLast?_cons_of_ne_nil h.ne_nil]
    exact h.last c (hlast ▸ hc)
  single := by
    rw [List.isChain_append]
    refine ⟨(word hne hw).single, ?_, fun c hc d _ hblank => ?_⟩
    · rw [List.isChain_cons]
      exact ⟨fun d hd _ => h.first d hd, h.single⟩
    · simp [hw c (List.mem_of_mem_getLast? hc)] at hblank

theorem spaced {ws : List (List Char)} (hne : ws ≠ [])
    (hws : ∀ w ∈ ws, w ≠ [] ∧ ∀ c ∈ w, isBlank c = false) : Tidy (Text.spaced ws) := by
  induction ws with
  | nil => exact absurd rfl hne
  | cons w ws ih =>
    obtain ⟨hw, hrest⟩ := List.forall_mem_cons.1 hws
    cases ws with
    | nil =>
      rw [Text.spaced, List.intercalate_singleton]
      exact word hw.1 hw.2
    | cons v ws =>
      rw [spaced_cons_cons]
      exact word_append hw.1 hw.2 (ih (List.cons_ne_nil v ws) hrest)

end Tidy

end Text

open EvidenceLock.Text

/-- **What is left of a line** are its words. -/
theorem normalLine_eq (cs : List Char) : normalLine cs = spaced (words cs) := by
  rw [normalLine, trim, (trimStart_collapse cs).2, (trimEnd_collapse cs).1]

theorem normalLine_ne_nil_iff {cs : List Char} :
    normalLine cs ≠ [] ↔ ∃ c ∈ cs, isBlank c = false := by
  rw [normalLine_eq, ← words_ne_nil_iff]
  refine ⟨fun h hnil => h ?_, spaced_words_ne_nil⟩
  rw [hnil]
  rfl

theorem tidy_normalLine {cs : List Char} (h : ∃ c ∈ cs, isBlank c = false) :
    Tidy (normalLine cs) := by
  rw [normalLine_eq]
  exact .spaced (words_ne_nil_iff.2 h) fun _ => of_mem_words

theorem not_mem_normalLine (cs : List Char) : '\n' ∉ normalLine cs := by
  intro hlf
  have hne : normalLine cs ≠ [] := List.ne_nil_of_mem hlf
  have hspace := (tidy_normalLine (normalLine_ne_nil_iff.1 hne)).spaces _ hlf isBlank_newline
  exact absurd hspace (by decide)

example : String.ofList (normalLine "\t a  b\u00a0c ".toList) = "a b c" := by decide +kernel

end EvidenceLock
