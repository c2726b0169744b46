import EvidenceLock.Proofs.NumberedLines
import EvidenceLock.Proofs.Replacement

/-!
# Lines without comments

Removing comments deletes characters, but no line feeds. So line `k` of what is left is line `k` of
the text with characters left out, carriage returns before line feeds included
(`Language.forall₂_stripComments`), and the numbers of the normalized lines are those by which
snippets show the lines of the text and patches replace them (`normalizedLines_aligned`).
-/

namespace EvidenceLock

open EvidenceLock.Text

namespace Text

/-- Where no line feed is missing, what stands before the first one stays before it. -/
theorem head?_of_sublist_lf {as bs : List Char} (h : as.Sublist bs)
    (hcount : as.count '\n' = bs.count '\n') (hbs : bs.head? = some '\n') :
    as.head? = some '\n' := by
  cases h with
  | slnil => cases hbs
  | @cons _ bs c h =>
    cases hbs
    have hle := h.count_le '\n'
    rw [List.count_cons_self] at hcount
    omega
  | cons_cons c _ => exact hbs

/-- **Lines stay aligned** where only characters other than line feeds are deleted. -/
theorem forall₂_splitLines_of_sublist {as bs : List Char} (h : as.Sublist bs)
    (hcount : as.count '\n' = bs.count '\n') :
    List.Forall₂ List.Sublist (splitLines as) (splitLines bs) := by
  have hgo : ∀ line line' : List Char, line.Sublist line' →
      List.Forall₂ List.Sublist (splitLines.go line as) (splitLines.go line' bs) := by
    induction h with
    | slnil =>
      intro line line' hline
      exact .cons hline.reverse .nil
    | @cons as bs c h ih =>
      intro line line' hline
      have hlf : c ≠ '\n' := by
        rintro rfl
        have hle := h.count_le '\n'
        rw [List.count_cons_self] at hcount
        omega
      rw [List.count_cons_of_ne hlf] at hcount
      by_cases hend : c = '\r' ∧ bs.head? = some '\n'
      · obtain ⟨rfl, hhead⟩ := hend
        obtain ⟨r, rfl⟩ := List.head?_eq_some_iff.1 hhead
        exact ih hcount line line' hline
      · rw [splitLines_go_cons hlf fun hcr hhead => hend ⟨hcr, hhead⟩]
        exact ih hcount line (c :: line') (hline.cons c)
    | @cons_cons as bs c h ih =>
      intro line line' hline
      by_cases hlf : c = '\n'
      · subst hlf
        rw [List.count_cons_self, List.count_cons_self, Nat.add_right_cancel_iff] at hcount
        exact .cons hline.reverse (ih hcount [] [] (List.Sublist.refl []))
      · rw [List.count_cons_of_ne hlf, List.count_cons_of_ne hlf] at hcount
        by_cases hend : c = '\r' ∧ as.head? = some '\n'
        · obtain ⟨rfl, hhead⟩ := hend
          obtain ⟨r, rfl⟩ := List.head?_eq_some_iff.1 hhead
          -- The carriage return is gone from the first text, and from the second one only if a line
          -- feed follows it there too.
          by_cases hend' : bs.head? = some '\n'
          · obtain ⟨r', rfl⟩ := List.head?_eq_some_iff.1 hend'
            exact ih hcount line line' hline
          · have hkept : splitLines.go line' ('\r' :: bs) = splitLines.go ('\r' :: line') bs :=
              splitLines_go_cons hlf fun _ hhead' => hend' hhead'
            rw [hkept]
            exact ih hcount line ('\r' :: line') (hline.cons '\r')
        · have hend' : ¬ (c = '\r' ∧ bs.head? = some '\n') := fun ⟨hcr, hhead⟩ =>
            hend ⟨hcr, head?_of_sublist_lf h hcount hhead⟩
          rw [splitLines_go_cons hlf fun hcr hhead => hend ⟨hcr, hhead⟩,
            splitLines_go_cons hlf fun hcr hhead => hend' ⟨hcr, hhead⟩]
          exact ih hcount (c :: line) (c :: line') (hline.cons_cons c)
  exact hgo [] [] (List.Sublist.refl [])

end Text

/-! ## Comments -/

namespace CommentStyle

/-- What is left where comments are removed are characters of the text in their order. -/
theorem strip_sublist (style : CommentStyle) (cs : List Char) : (style.strip cs).Sublist cs := by
  have hgo (left : Nat) (acc cs : List Char) :
      (strip.go style left acc cs).Sublist (acc.reverse ++ cs) := by
    induction cs generalizing left acc with
    | nil => simp [strip.go]
    | cons c r ih =>
      have hkeep : (strip.go style 0 (c :: acc) r).Sublist (acc.reverse ++ c :: r) := by
        simpa using ih 0 (c :: acc)
      have hskip (left : Nat) : (strip.go style left (if c = '\n' then c :: acc else acc) r).Sublist
          (acc.reverse ++ c :: r) := by
        split
        · simpa using ih left (c :: acc)
        · exact (ih left acc).trans ((List.Sublist.refl _).append (List.sublist_cons_self c r))
      cases left with
      | succ left => exact hskip left
      | zero =>
        rw [strip.go]
        split
        · exact hskip _
        · exact hkeep
  exact hgo 0 [] cs

end CommentStyle

namespace Language

theorem stripComments_sublist (l : Language) (cs : List Char) : (l.stripComments cs).Sublist cs :=
  List.foldlRecOn (motive := fun ds : List Char => ds.Sublist cs) l.comments _
    (List.Sublist.refl cs) fun ds hds style _ => (style.strip_sublist ds).trans hds

/-- **Removing comments** deletes characters within lines and moves none of them to another one. -/
theorem forall₂_stripComments (l : Language) (cs : List Char) :
    List.Forall₂ List.Sublist (splitLines (l.stripComments cs)) (splitLines cs) :=
  forall₂_splitLines_of_sublist (l.stripComments_sublist cs) (l.count_stripComments cs)

end Language

/-! ## The lines of the text -/

/-- A patch that replaces line `k + 1` of a text does so by the number under which it is known. -/
theorem apply_replacementPatch_line {content raw : String} {k : Nat}
    (hraw : (linesOf content)[k]? = some raw) (file : String) (new : List String) :
    (replacementPatch file (k + 1) [raw] new).apply content =
      .ok (joinLines ((linesOf content).take k ++ new ++ (linesOf content).drop (k + 1))) := by
  obtain ⟨hlt, hget⟩ := List.getElem?_eq_some_iff.1 hraw
  have hsplit : linesOf content =
      (linesOf content).take k ++ [raw] ++ (linesOf content).drop (k + 1) := by
    rw [← hget, List.take_append_getElem, List.take_append_drop]
  have hbefore : ((linesOf content).take k).length = k := by
    rw [List.length_take]
    omega
  have hsame : List.Forall₂ (fun a b => sameLine a b = true) [raw] [raw] :=
    .cons (by simp [sameLine]) .nil
  have happly : (replacementPatch file (((linesOf content).take k).length + 1) [raw] new).applyLines
      ((linesOf content).take k ++ [raw] ++ (linesOf content).drop (k + 1)) =
      .ok ((linesOf content).take k ++ new ++ (linesOf content).drop (k + 1)) :=
    applyLines_replacementPatch hsame (List.cons_ne_nil raw [])
  rw [hbefore, ← hsplit] at happly
  rw [FilePatch.apply, happly]
  rfl

/-- **Normalized lines keep their numbers.** Without its comments a text has as many line feeds as
before, and each of its lines is a line of the text with characters deleted. The normalized lines
are those with something besides white space left, as words with single spaces between them, in
ascending order; their numbers are those of the lines in snippets and for patches. -/
theorem normalizedLines_aligned (l : Language) (content : String) :
    let stripped := l.stripComments content.toList
    let kept := normalizedLines l content
    stripped.count '\n' = content.toList.count '\n' ∧
    List.Forall₂ List.Sublist (splitLines stripped) (splitLines content.toList) ∧
    (∀ n, n ∈ kept ↔ ∃ (k : Nat) (line : List Char), (splitLines stripped)[k]? = some line ∧
      (∃ c ∈ line, isBlank c = false) ∧
      n = { number := 1 + k, text := String.ofList (spaced (words line)) }) ∧
    (kept.map NumberedLine.number).Pairwise (· < ·) ∧
    (kept.map NumberedLine.text).length = (kept.map NumberedLine.number).length ∧
    (∀ n ∈ kept, Tidy n.text.toList) ∧
    ∀ n ∈ kept, ∃ (k : Nat) (raw : String), n.number = 1 + k ∧ (linesOf content)[k]? = some raw ∧
      (∀ first last : Nat, 1 ≤ first → first ≤ k + 1 → k + 1 ≤ last →
        last ≤ (linesOf content).length →
        shownLine? (numberedSnippet content first last) (k + 1) = some raw) ∧
      ∀ file new, (replacementPatch file (k + 1) [raw] new).apply content =
        .ok (joinLines ((linesOf content).take k ++ new ++ (linesOf content).drop (k + 1))) := by
  intro stripped kept
  have hlines : List.Forall₂ List.Sublist (splitLines stripped) (splitLines content.toList) :=
    l.forall₂_stripComments content.toList
  have hkept {n : NumberedLine} : n ∈ kept ↔ ∃ (k : Nat) (line : List Char),
      (splitLines stripped)[k]? = some line ∧ (∃ c ∈ line, isBlank c = false) ∧
      n = { number := 1 + k, text := String.ofList (normalLine line) } := mem_numberedLines_iff
  refine ⟨l.count_stripComments content.toList, hlines, ?_, normalizedLines_pairwise l content,
    by rw [List.length_map, List.length_map], fun n hn => ?_, fun n hn => ?_⟩
  · simp only [← normalLine_eq]
    exact fun n => hkept
  · obtain ⟨k, line, -, hink, rfl⟩ := hkept.1 hn
    rw [String.toList_ofList]
    exact tidy_normalLine hink
  · obtain ⟨k, line, hline, -, rfl⟩ := hkept.1 hn
    have hlt : k < (linesOf content).length := by
      rw [linesOf, List.length_map, ← hlines.length_eq]
      exact (List.getElem?_eq_some_iff.1 hline).1
    have hraw := List.getElem?_eq_getElem hlt
    refine ⟨k, _, rfl, hraw, fun first last hfirst hk hk' hlast => ?_,
      apply_replacementPatch_line hraw⟩
    rw [shownLine?_numberedSnippet hfirst hlast hk hk', Nat.add_sub_cancel, hraw]

end EvidenceLock
