import EvidenceLock.Fix.Prompt
import EvidenceLock.Patch.Apply
import EvidenceLock.Patch.Parse
import EvidenceLock.Proofs.LineBreaks

/-!
# Both kinds of line ends

Where a text has no carriage returns of its own, its lines are the same with or without carriage
returns before its line feeds (`Text.splitLines_fewerReturns`), whether all line feeds have one or
some. Patches and snippets see a text as lines; comments are removed before lines are split, which
`normalizedLines_fewerReturns` is about. So no part of the program tells both kinds of line ends
apart (`lineEnds_alike`).
-/

namespace EvidenceLock

namespace Text

/-- The lines of a text do not depend on carriage returns before its line feeds. -/
theorem splitLines_fewerReturns {as bs : List Char} (h : FewerReturns as bs) (hbs : '\r' ∉ bs) :
    splitLines as = splitLines bs := by
  have hgo : ∀ line, splitLines.go line as = splitLines.go line bs := by
    induction h with
    | nil =>
      intro line
      rfl
    | cons c h ih =>
      intro line
      have hcr : c ≠ '\r' := (List.ne_of_not_mem_cons hbs).symm
      have hnext := ih (List.not_mem_of_not_mem_cons hbs)
      by_cases hlf : c = '\n'
      · rw [hlf, splitLines.go, splitLines.go, hnext]
      · have hline := hnext (c :: line)
        rwa [← splitLines_go_cons hlf (absurd · hcr), ← splitLines_go_cons hlf (absurd · hcr)]
          at hline
    | drop h ih =>
      intro line
      rw [splitLines.go, splitLines.go, ih (List.not_mem_of_not_mem_cons hbs)]
  exact hgo []

/-- The text with a carriage return before each line feed. -/
def crlf (s : String) : String :=
  String.ofList (s.toList.flatMap fun c => if c = '\n' then ['\r', '\n'] else [c])

theorem fewerReturns_crlf (s : String) : FewerReturns (crlf s).toList s.toList := by
  rw [crlf, String.toList_ofList]
  induction s.toList with
  | nil => exact .nil
  | cons c cs ih =>
    by_cases hc : c = '\n'
    · rw [hc]
      exact .drop ih
    · rw [List.flatMap_cons, if_neg hc]
      exact .cons c ih

theorem splitLines_crlf {s : String} (h : '\r' ∉ s.toList) :
    splitLines (crlf s).toList = splitLines s.toList :=
  splitLines_fewerReturns (fewerReturns_crlf s) h

theorem linesOf_crlf {s : String} (h : '\r' ∉ s.toList) : linesOf (crlf s) = linesOf s := by
  rw [linesOf, linesOf, splitLines_crlf h]

end Text

open EvidenceLock.Text

theorem Diff.parse_crlf {diff : String} (h : '\r' ∉ diff.toList) :
    Diff.parse (crlf diff) = Diff.parse diff := by
  rw [Diff.parse, Diff.parse, Diff.linesOf, Diff.linesOf, splitLines_crlf h]

theorem FilePatch.apply_crlf (p : FilePatch) {content : String} (h : '\r' ∉ content.toList) :
    p.apply (crlf content) = p.apply content := by
  rw [apply, apply, linesOf_crlf h]

theorem numberedSnippet_crlf {content : String} (h : '\r' ∉ content.toList) (first last : Int) :
    numberedSnippet (crlf content) first last = numberedSnippet content first last := by
  rw [numberedSnippet, numberedSnippet, linesOf_crlf h]

/-- **Both kinds of line ends** are treated alike. A text or a diff with carriage returns before all
of its line feeds is read, patched, shown and normalized as without them, or refused as without
them. -/
theorem lineEnds_alike {content diff : String} (hcontent : '\r' ∉ content.toList)
    (hdiff : '\r' ∉ diff.toList) :
    Diff.parse (crlf diff) = Diff.parse diff ∧
    (∀ p : FilePatch, p.apply (crlf content) = p.apply content) ∧
    (∀ first last : Int,
      numberedSnippet (crlf content) first last = numberedSnippet content first last) ∧
    ∀ l : Language, normalizedLines l (crlf content) = normalizedLines l content :=
  ⟨Diff.parse_crlf hdiff, fun p => p.apply_crlf hcontent, numberedSnippet_crlf hcontent,
    fun l => normalizedLines_fewerReturns l (fewerReturns_crlf content)⟩

theorem lineEnds_alike_edit :
    let content := "a();  // one\n/* two\n*/ b();\n"
    let diff := "--- a/x.ts\n+++ b/x.ts\n@@ -1,1 +1,0 @@\n-a();  // one\n"
    let patch := { FilePatch.ofHeaders "x.ts" "x.ts" with
      hunks := [⟨1, 1, 1, 0, [⟨.remove, "a();  // one"⟩], ""⟩] }
    '\r' ∉ content.toList ∧ '\r' ∉ diff.toList ∧ Diff.parse (crlf diff) = .ok [patch] ∧
      patch.apply (crlf content) = .ok "/* two\n*/ b();\n" ∧
      numberedSnippet (crlf content) 2 3 = "   2 | /* two\n   3 | */ b();" ∧
      normalizedLines .typescript (crlf content) = [⟨1, "a();"⟩, ⟨3, "b();"⟩] := by
  intro content diff patch
  have hcontent : '\r' ∉ content.toList := by decide +kernel
  have hdiff : '\r' ∉ diff.toList := by decide +kernel
  obtain ⟨hparse, happly, hsnippet, hnormalized⟩ := lineEnds_alike hcontent hdiff
  rw [hparse, happly, hsnippet, hnormalized]
  refine ⟨hcontent, hdiff, Outcome.eq_ok_of_toOption ?_, Outcome.eq_ok_of_toOption ?_, ?_, ?_⟩
  · decide +kernel
  · decide +kernel
  · decide +kernel
  · decide +kernel

end EvidenceLock
