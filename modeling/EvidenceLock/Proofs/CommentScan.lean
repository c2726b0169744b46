import EvidenceLock.Proofs.Alignment
import EvidenceLock.Proofs.LineBreaks

/-!
# Comments in one scan

One scan reads a text from left to right as lexemes: a comment where one begins, from two slashes to
the end of the line or from a slash and a star up to the next star and slash, and otherwise a
character of code. Each text is read in exactly one way (`existsUnique_scanned`).

Removing comments reads a text twice, for the enclosed comments first. A slash and a star inside of
a comment to the end of a line then begin a comment that may end on a later line. Where this happens
to no comment (`Clear`), the two passes leave what the scan leaves (`Language.stripComments_scan`).
-/

namespace EvidenceLock

open EvidenceLock.Text

/-- What one scan of a text reads at a time. -/
inductive Lexeme where
  | code (c : Char)
  | line (body : List Char)
  | enclosed (body : List Char)
  deriving DecidableEq, Repr

namespace Lexeme

def text : Lexeme → List Char
  | code c => [c]
  | line body => ['/', '/'] ++ body
  | enclosed body => ['/', '*'] ++ (body ++ ['*', '/'])

/-- A comment leaves its line feeds. -/
def left : Lexeme → List Char
  | code c => [c]
  | comment => keepLineFeeds comment.text

end Lexeme

/-- The text that is read as the lexemes. -/
def textOf (ps : List Lexeme) : List Char := ps.flatMap Lexeme.text

/-- What the lexemes leave without the comments. -/
def leftOf (ps : List Lexeme) : List Char := ps.flatMap Lexeme.left

@[simp] theorem textOf_cons (p : Lexeme) (ps : List Lexeme) :
    textOf (p :: ps) = p.text ++ textOf ps := List.flatMap_cons

@[simp] theorem leftOf_cons (p : Lexeme) (ps : List Lexeme) :
    leftOf (p :: ps) = p.left ++ leftOf ps := List.flatMap_cons

theorem Lexeme.left_sublist (p : Lexeme) : p.left.Sublist p.text := by
  cases p with
  | code c => exact List.Sublist.refl [c]
  | line body => exact List.filter_sublist
  | enclosed body => exact List.filter_sublist

theorem leftOf_sublist (ps : List Lexeme) : (leftOf ps).Sublist (textOf ps) := by
  induction ps with
  | nil => exact List.Sublist.refl []
  | cons p ps ih =>
    rw [leftOf_cons, textOf_cons]
    exact p.left_sublist.append ih

theorem Lexeme.left_line {body : List Char} (h : '\n' ∉ body) : (Lexeme.line body).left = [] :=
  keepLineFeeds_eq_nil (by simp [text, h])

/-- No star and slash come before those that follow the text. -/
def Unclosed (body : List Char) : Prop := ¬ ['*', '/'] <:+: body ++ ['*']

/-- The text starts with an enclosed comment. Without a star and slash behind them, a slash and a
star are code. -/
def Opens (cs : List Char) : Prop := ['/', '*'] <+: cs ∧ ['*', '/'] <:+: cs.drop 2

/-- The text, if there is any, starts with a line feed. -/
def AtLineEnd : List Char → Prop
  | [] => True
  | c :: _ => c = '\n'

/-- The lexeme is the one that a scan reads before the rest of a text. -/
def Lexeme.Before (rest : List Char) : Lexeme → Prop
  | code c => ¬ ['/', '/'] <+: c :: rest ∧ ¬ Opens (c :: rest)
  | line body => '\n' ∉ body ∧ AtLineEnd rest
  | enclosed body => Unclosed body

/-- The lexemes are those of one scan from left to right. -/
def Scanned : List Lexeme → Prop
  | [] => True
  | p :: ps => p.Before (textOf ps) ∧ Scanned ps

section Decidable

instance : DecidablePred Unclosed := fun body =>
  @instDecidableNot _ (List.instDecidableIsInfixOfDecidableEq ['*', '/'] (body ++ ['*']))

instance : DecidablePred Opens := fun cs =>
  @instDecidableAnd _ _ _ (List.instDecidableIsInfixOfDecidableEq ['*', '/'] (cs.drop 2))

instance : DecidablePred AtLineEnd
  | [] => inferInstanceAs (Decidable True)
  | c :: _ => inferInstanceAs (Decidable (c = '\n'))

instance (rest : List Char) : DecidablePred (Lexeme.Before rest)
  | .code c => inferInstanceAs (Decidable (¬ ['/', '/'] <+: c :: rest ∧ ¬ Opens (c :: rest)))
  | .line body => inferInstanceAs (Decidable ('\n' ∉ body ∧ AtLineEnd rest))
  | .enclosed body => inferInstanceAs (Decidable (Unclosed body))

instance decidableScanned : DecidablePred Scanned
  | [] => inferInstanceAs (Decidable True)
  | p :: ps =>
    have := decidableScanned ps
    inferInstanceAs (Decidable (p.Before (textOf ps) ∧ Scanned ps))

end Decidable

/-! ## The end of an enclosed comment -/

theorem unclosed_cons {c : Char} {body : List Char} :
    Unclosed (c :: body) ↔ ¬ ['*', '/'] <+: c :: (body ++ ['*']) ∧ Unclosed body := by
  rw [Unclosed, List.cons_append, List.infix_cons_iff, not_or, Unclosed]

theorem closingLength?_append {body : List Char} (h : Unclosed body) (k : Nat) (rest : List Char) :
    closingLength? k (body ++ '*' :: '/' :: rest) = some (k + body.length + 2) := by
  induction body generalizing k with
  | nil => rfl
  | cons c body ih =>
    obtain ⟨hc, hbody⟩ := unclosed_cons.1 h
    have hnext : ∀ r, c = '*' → body ++ '*' :: '/' :: rest = '/' :: r → False := by
      rintro r rfl hr
      cases body with
      | nil => cases hr
      | cons d body =>
        cases hr
        exact hc (List.prefix_append ['*', '/'] _)
    rw [List.cons_append, closingLength?.eq_3 k c _ hnext, ih hbody, List.length_cons,
      Nat.add_right_comm k, Nat.add_assoc k]

theorem closingLength?_eq_none {cs : List Char} (h : ¬ ['*', '/'] <:+: cs) (k : Nat) :
    closingLength? k cs = none := by
  fun_induction closingLength? k cs with
  | case1 k => rfl
  | case2 k r => exact absurd (List.prefix_append ['*', '/'] r).isInfix h
  | case3 k c r _ ih => exact ih fun hr => h (List.infix_cons hr)

/-- There is a first star and slash where there is one. -/
theorem exists_unclosed {cs : List Char} (h : ['*', '/'] <:+: cs) :
    ∃ body rest, Unclosed body ∧ cs = body ++ '*' :: '/' :: rest := by
  induction cs with
  | nil => simp at h
  | cons c cs ih =>
    by_cases hc : ['*', '/'] <+: c :: cs
    · obtain ⟨rest, hrest⟩ := hc
      exact ⟨[], rest, by decide, hrest.symm⟩
    · obtain ⟨body, rest, hbody, rfl⟩ := ih ((List.infix_cons_iff.1 h).resolve_left hc)
      refine ⟨c :: body, rest, unclosed_cons.2 ⟨fun hp => hc (hp.trans ?_), hbody⟩, rfl⟩
      exact ⟨'/' :: rest, by simp⟩

theorem takeWhile_line {body rest : List Char} (hbody : '\n' ∉ body) (hrest : AtLineEnd rest) :
    (body ++ rest).takeWhile (· != '\n') = body := by
  have hpos : ∀ c ∈ body, (c != '\n') = true := fun c hc => by
    simpa using ne_of_mem_of_not_mem hc hbody
  rw [List.takeWhile_append_of_pos hpos]
  cases rest with
  | nil => rw [List.takeWhile_nil, List.append_nil]
  | cons c rest =>
    obtain rfl : c = '\n' := hrest
    rw [List.takeWhile_cons_of_neg (by decide), List.append_nil]

/-! ## There is one scan of a text -/

namespace Lexeme

variable {p q : Lexeme} {r s : List Char}

theorem text_ne_nil (p : Lexeme) : p.text ≠ [] := by
  cases p <;> simp [text]

theorem prefix_line {cs body : List Char} (h : cs = (line body).text ++ r) : ['/', '/'] <+: cs := by
  rw [h, text, List.append_assoc]
  exact List.prefix_append _ _

theorem opens_enclosed {cs body : List Char} (h : cs = (enclosed body).text ++ r) : Opens cs := by
  rw [h, text, List.append_assoc]
  exact ⟨List.prefix_append _ _, body, r, by simp⟩

/-- The lexeme that comes first in a text is determined by the text. -/
theorem Before.unique (hp : p.Before r) (hq : q.Before s) (h : p.text ++ r = q.text ++ s) :
    p = q := by
  cases p with
  | code c =>
    cases q with
    | code d =>
      cases h
      rfl
    | line body => exact absurd (prefix_line h) hp.1
    | enclosed body => exact absurd (opens_enclosed h) hp.2
  | line body =>
    cases q with
    | code d => exact absurd (prefix_line h.symm) hq.1
    | line body' =>
      have hlines : body ++ r = body' ++ s := by simpa [text] using h
      rw [← takeWhile_line hp.1 hp.2, hlines, takeWhile_line hq.1 hq.2]
    | enclosed body' => simp [text] at h
  | enclosed body =>
    cases q with
    | code d => exact absurd (opens_enclosed h.symm) hq.2
    | line body' => simp [text] at h
    | enclosed body' =>
      have hclose : body ++ '*' :: '/' :: r = body' ++ '*' :: '/' :: s := by simpa [text] using h
      have hlength := congrArg (closingLength? 0) hclose
      rw [closingLength?_append hp, closingLength?_append hq, Option.some.injEq] at hlength
      rw [(List.append_inj hclose (by omega)).1]

theorem exists_before {cs : List Char} (h : cs ≠ []) :
    ∃ (p : Lexeme) (rest : List Char), p.Before rest ∧ cs = p.text ++ rest := by
  obtain ⟨c, r, rfl⟩ := List.exists_cons_of_ne_nil h
  by_cases hline : ['/', '/'] <+: c :: r
  · obtain ⟨t, ht⟩ := hline
    refine ⟨line (t.takeWhile (· != '\n')), t.dropWhile (· != '\n'), ⟨fun hlf => ?_, ?_⟩, ?_⟩
    · simpa using List.mem_takeWhile_imp hlf
    · have hhead := List.head?_dropWhile_not (· != '\n') t
      cases hend : t.dropWhile (· != '\n') with
      | nil => trivial
      | cons d r => simpa [hend, AtLineEnd] using hhead
    · rw [text, List.append_assoc, List.takeWhile_append_dropWhile, ht]
  · by_cases hopen : Opens (c :: r)
    · obtain ⟨⟨t, ht⟩, hclosed⟩ := hopen
      rw [← ht] at hclosed ⊢
      obtain ⟨body, rest, hbody, rfl⟩ := exists_unclosed hclosed
      exact ⟨enclosed body, rest, hbody, by simp [text]⟩
    · exact ⟨code c, r, ⟨hline, hopen⟩, rfl⟩

end Lexeme

theorem exists_scanned (cs : List Char) : ∃ ps, Scanned ps ∧ textOf ps = cs := by
  -- By the length of the text: what a lexeme leaves of it to read is shorter.
  induction hn : cs.length using Nat.strong_induction_on generalizing cs with
  | _ n ih =>
    subst hn
    by_cases hcs : cs = []
    · exact ⟨[], trivial, hcs.symm⟩
    · obtain ⟨p, rest, hp, rfl⟩ := Lexeme.exists_before hcs
      have hshorter : rest.length < (p.text ++ rest).length := by
        have := List.length_pos_iff.2 p.text_ne_nil
        rw [List.length_append]
        omega
      obtain ⟨ps, hps, rfl⟩ := ih _ hshorter rest rfl
      exact ⟨p :: ps, ⟨hp, hps⟩, textOf_cons p ps⟩

theorem Scanned.unique {ps qs : List Lexeme} (hps : Scanned ps) (hqs : Scanned qs)
    (h : textOf ps = textOf qs) : ps = qs := by
  induction ps generalizing qs with
  | nil =>
    cases qs with
    | nil => rfl
    | cons q qs =>
      rw [textOf_cons] at h
      exact absurd (List.append_eq_nil_iff.1 h.symm).1 q.text_ne_nil
  | cons p ps ih =>
    cases qs with
    | nil =>
      rw [textOf_cons] at h
      exact absurd (List.append_eq_nil_iff.1 h).1 p.text_ne_nil
    | cons q qs =>
      rw [textOf_cons, textOf_cons] at h
      obtain rfl := hps.1.unique hqs.1 h
      rw [ih hps.2 hqs.2 (List.append_cancel_left h)]

theorem existsUnique_scanned (cs : List Char) : ∃! ps, Scanned ps ∧ textOf ps = cs := by
  obtain ⟨ps, hps, rfl⟩ := exists_scanned cs
  exact ⟨ps, ⟨hps, rfl⟩, fun qs ⟨hqs, h⟩ => hqs.unique hps h⟩

/-! ## The two passes -/

/-- The lexeme is the one that the first pass finds before the rest of a text. -/
def Lexeme.Sifted (rest : List Char) : Lexeme → Prop
  | code c => ¬ Opens (c :: rest)
  | line _ => False
  | enclosed body => Unclosed body

/-- The lexemes are those that the first pass finds before `behind`, where no comment that starts
among them goes on. -/
def Sifted (behind : List Char) : List Lexeme → Prop
  | [] => True
  | p :: ps => p.Sifted (textOf ps ++ behind) ∧ Sifted behind ps

/-- The first pass leaves a comment to the end of the line as one: the comments that it finds in
there end in there, and both slashes are left. -/
def Harmless (body behind : List Char) : Prop :=
  ∃ ps out, Sifted behind ps ∧ textOf ps = '/' :: body ∧ leftOf ps = '/' :: out

/-- All comments to the ends of lines are harmless where they stand. -/
def Clear : List Lexeme → Prop
  | [] => True
  | .line body :: ps => Harmless body (textOf ps) ∧ Clear ps
  | _ :: ps => Clear ps

section Decidable

instance (rest : List Char) : DecidablePred (Lexeme.Sifted rest)
  | .code c => inferInstanceAs (Decidable (¬ Opens (c :: rest)))
  | .line _ => inferInstanceAs (Decidable False)
  | .enclosed body => inferInstanceAs (Decidable (Unclosed body))

instance decidableSifted (behind : List Char) : DecidablePred (Sifted behind)
  | [] => inferInstanceAs (Decidable True)
  | p :: ps =>
    have := decidableSifted behind ps
    inferInstanceAs (Decidable (p.Sifted (textOf ps ++ behind) ∧ Sifted behind ps))

end Decidable

namespace CommentStyle

variable {c : Char} {body r : List Char}

theorem strip_enclosed_append (h : Unclosed body) (r : List Char) :
    CommentStyle.enclosed.strip ((Lexeme.enclosed body).text ++ r) =
      (Lexeme.enclosed body).left ++ CommentStyle.enclosed.strip r := by
  refine strip_append (Lexeme.text_ne_nil _) ?_
  have hclose := closingLength?_append h 2 r
  rw [Lexeme.text, List.append_assoc, lengthAt?_enclosed, List.append_assoc]
  refine hclose.trans ?_
  rw [List.length_append, List.length_append, Nat.add_assoc]
  rfl

theorem strip_enclosed_cons (h : ¬ Opens (c :: r)) :
    CommentStyle.enclosed.strip (c :: r) = c :: CommentStyle.enclosed.strip r := by
  refine strip_cons ?_
  by_cases hstart : ['/', '*'] <+: c :: r
  · obtain ⟨t, ht⟩ := hstart
    rw [← ht] at h ⊢
    rw [lengthAt?_enclosed]
    exact closingLength?_eq_none (fun hclose => h ⟨List.prefix_append _ _, hclose⟩) 2
  · exact lengthAt?_enclosed_eq_none hstart

theorem strip_enclosed_of_ne (h : c ≠ '/') (r : List Char) :
    CommentStyle.enclosed.strip (c :: r) = c :: CommentStyle.enclosed.strip r := by
  refine strip_enclosed_cons fun hopen => h ?_
  exact (List.cons_prefix_cons.1 hopen.1).1.symm

/-- **The first pass** over the lexemes that it finds. -/
theorem strip_enclosed_sifted {ps : List Lexeme} {behind : List Char} (h : Sifted behind ps) :
    CommentStyle.enclosed.strip (textOf ps ++ behind) =
      leftOf ps ++ CommentStyle.enclosed.strip behind := by
  induction ps with
  | nil => rfl
  | cons p ps ih =>
    rw [textOf_cons, leftOf_cons, List.append_assoc, List.append_assoc, ← ih h.2]
    cases p with
    | code c => exact strip_enclosed_cons h.1
    | line body => exact h.1.elim
    | enclosed body => exact strip_enclosed_append h.1 _

/-- The first pass brings no two slashes together behind a character of code. -/
theorem prefix_of_strip_enclosed (h : ['/', '/'] <+: c :: CommentStyle.enclosed.strip r) :
    ['/', '/'] <+: c :: r := by
  obtain ⟨hc, hr⟩ := List.cons_prefix_cons.1 h
  refine List.cons_prefix_cons.2 ⟨hc, ?_⟩
  cases r with
  | nil => exact hr
  | cons d r =>
    by_cases hd : d = '/'
    · rw [hd]
      exact List.prefix_append ['/'] r
    · rw [strip_enclosed_of_ne hd] at hr
      exact absurd (List.cons_prefix_cons.1 hr).1.symm hd

theorem atLineEnd_strip_enclosed (h : AtLineEnd r) : AtLineEnd (CommentStyle.enclosed.strip r) := by
  cases r with
  | nil => exact h
  | cons c r =>
    obtain rfl : c = '\n' := h
    rw [strip_enclosed_of_ne (by decide)]
    rfl

theorem strip_line_append (hbody : '\n' ∉ body) (hr : AtLineEnd r) :
    (toLineEnd ['/', '/']).strip ((Lexeme.line body).text ++ r) =
      (Lexeme.line body).left ++ (toLineEnd ['/', '/']).strip r := by
  refine strip_append (Lexeme.text_ne_nil _) ?_
  rw [Lexeme.text, List.append_assoc, lengthAt?_toLineEnd, takeWhile_line hbody hr]

theorem strip_line_cons (h : ¬ ['/', '/'] <+: c :: r) :
    (toLineEnd ['/', '/']).strip (c :: r) = c :: (toLineEnd ['/', '/']).strip r :=
  strip_cons (lengthAt?_toLineEnd_eq_none h)

theorem strip_line_lineFeeds {ks : List Char} (h : ∀ c ∈ ks, c = '\n') (r : List Char) :
    (toLineEnd ['/', '/']).strip (ks ++ r) = ks ++ (toLineEnd ['/', '/']).strip r := by
  induction ks with
  | nil => rfl
  | cons c ks ih =>
    obtain ⟨rfl, hks⟩ := List.forall_mem_cons.1 h
    rw [List.cons_append, strip_line_cons (by simp), ih hks, List.cons_append]

/-- **Both passes** over a text without harm leave what one scan leaves. -/
theorem strip_strip {ps : List Lexeme} (h : Scanned ps) (hclear : Clear ps) :
    (toLineEnd ['/', '/']).strip (CommentStyle.enclosed.strip (textOf ps)) = leftOf ps := by
  induction ps with
  | nil => rfl
  | cons p ps ih =>
    obtain ⟨hp, hps⟩ := h
    rw [textOf_cons, leftOf_cons]
    cases p with
    | code c =>
      rw [← ih hps hclear]
      refine (congrArg _ (strip_enclosed_cons hp.2)).trans (strip_line_cons fun hslashes => ?_)
      exact hp.1 (prefix_of_strip_enclosed hslashes)
    | enclosed body =>
      rw [strip_enclosed_append hp, strip_line_lineFeeds, ih hps hclear]
      intro c hc
      simpa using (List.mem_filter.1 hc).2
    | line body =>
      obtain ⟨hbody, hend⟩ := hp
      obtain ⟨⟨qs, out, hqs, htext, hleft⟩, hclear⟩ := hclear
      have hout : '\n' ∉ out := fun hmem => by
        have htext' := (leftOf_sublist qs).subset (hleft ▸ List.mem_cons_of_mem '/' hmem)
        rw [htext] at htext'
        simp [hbody] at htext'
      have hfirst : CommentStyle.enclosed.strip ((Lexeme.line body).text ++ textOf ps) =
          (Lexeme.line out).text ++ CommentStyle.enclosed.strip (textOf ps) := by
        have hsifted := strip_enclosed_sifted hqs
        rw [htext, hleft] at hsifted
        refine (strip_enclosed_cons ?_).trans (congrArg _ hsifted)
        simp [Opens]
      rw [hfirst, strip_line_append hout (atLineEnd_strip_enclosed hend), ih hps hclear,
        Lexeme.left_line hout, Lexeme.left_line hbody]

end CommentStyle

/-! ## Comments that do harm -/

/-- The end of an enclosed comment on the next line. -/
def closing : List Lexeme := [.code '\n', .code '*', .code '/']

theorem textOf_closing : textOf closing = ['\n', '*', '/'] := rfl

theorem strip_enclosed_closing :
    CommentStyle.enclosed.strip (textOf closing) = textOf closing := by decide

theorem opens_closing (t : List Char) : Opens ('/' :: '*' :: t ++ textOf closing) :=
  ⟨List.prefix_append ['/', '*'] _, t ++ ['\n'], [], by simp [closing, textOf, Lexeme.text]⟩

/-- An enclosed comment does not begin with the last character of a line. -/
theorem exists_of_opens {c : Char} {r behind : List Char} (hend : AtLineEnd behind)
    (h : Opens (c :: r ++ behind)) : c = '/' ∧ ∃ t, r = '*' :: t := by
  obtain ⟨hc, hr⟩ := List.cons_prefix_cons.1 h.1
  refine ⟨hc.symm, ?_⟩
  cases r with
  | nil =>
    cases behind with
    | nil => simp at hr
    | cons d behind =>
      obtain rfl : d = '\n' := hend
      simp at hr
  | cons d r =>
    obtain ⟨rfl, -⟩ := List.cons_prefix_cons.1 hr
    exact ⟨r, rfl⟩

theorem Sifted.of_closing {ps : List Lexeme} {behind : List Char} (h : Sifted (textOf closing) ps)
    (hend : AtLineEnd behind) : Sifted behind ps := by
  induction ps with
  | nil => trivial
  | cons p ps ih =>
    refine ⟨?_, ih h.2⟩
    cases p with
    | code c =>
      intro hopen
      obtain ⟨rfl, t, ht⟩ := exists_of_opens hend hopen
      apply h.1
      rw [ht]
      exact opens_closing t
    | line body => exact h.1
    | enclosed body => exact h.1

theorem unclosed_concat {t : List Char} (h : ¬ ['*', '/'] <:+: t) : Unclosed (t ++ ['\n']) := by
  induction t with
  | nil => decide
  | cons c t ih =>
    rw [List.infix_cons_iff, not_or] at h
    refine unclosed_cons.2 ⟨fun hp => h.1 ?_, ih h.2⟩
    cases t with
    | nil => simp at hp
    | cons d t => simpa using hp

theorem strip_enclosed_swallowed {t : List Char} (h : ¬ ['*', '/'] <:+: t)
    (hlf : '\n' ∉ '/' :: '*' :: t) :
    CommentStyle.enclosed.strip ('/' :: '*' :: t ++ textOf closing) = ['\n'] := by
  have hstrip := CommentStyle.strip_enclosed_append (unclosed_concat h) []
  have hkept : t.filter (· == '\n') = [] :=
    keepLineFeeds_eq_nil fun hmem => hlf (by simp [hmem])
  have hnil : CommentStyle.enclosed.strip [] = [] := rfl
  simpa [closing, textOf, Lexeme.text, Lexeme.left, keepLineFeeds, hkept, hnil] using hstrip

/-- Before the end of an enclosed comment on the next line, a line is left in its part, or a comment
that starts in it goes on up to there. -/
theorem sifted_or_swallowed {cs : List Char} (hcs : '\n' ∉ cs) :
    (∃ ps, Sifted (textOf closing) ps ∧ textOf ps = cs) ∨
      ∃ out, '\n' ∉ out ∧ CommentStyle.enclosed.strip (cs ++ textOf closing) = out ++ ['\n'] := by
  induction hn : cs.length using Nat.strong_induction_on generalizing cs with
  | _ n ih =>
    subst hn
    cases cs with
    | nil => exact .inl ⟨[], trivial, rfl⟩
    | cons c r =>
      by_cases hopen : Opens (c :: r ++ textOf closing)
      · obtain ⟨rfl, t, rfl⟩ := exists_of_opens (by simp [AtLineEnd, closing, Lexeme.text]) hopen
        by_cases hclosed : ['*', '/'] <:+: t
        · obtain ⟨body, rest, hbody, rfl⟩ := exists_unclosed hclosed
          have htext : '/' :: '*' :: (body ++ '*' :: '/' :: rest) =
              (Lexeme.enclosed body).text ++ rest := by simp [Lexeme.text]
          have hrest : '\n' ∉ rest := fun hmem => hcs (by simp [hmem])
          rw [htext] at hcs ⊢
          have hshorter : rest.length < ('/' :: '*' :: (body ++ '*' :: '/' :: rest)).length := by
            simp only [List.length_cons, List.length_append]
            omega
          rcases ih _ hshorter hrest rfl with ⟨ps, hps, rfl⟩ | ⟨out, hout, hstrip⟩
          · exact .inl ⟨.enclosed body :: ps, ⟨hbody, hps⟩, textOf_cons _ _⟩
          · refine .inr ⟨(Lexeme.enclosed body).left ++ out, fun hmem => ?_, ?_⟩
            · rcases List.mem_append.1 hmem with hmem | hmem
              · exact hcs (List.mem_append_left _ ((Lexeme.left_sublist _).subset hmem))
              · exact hout hmem
            · rw [List.append_assoc, CommentStyle.strip_enclosed_append hbody, hstrip,
                List.append_assoc]
        · exact .inr ⟨[], List.not_mem_nil, strip_enclosed_swallowed hclosed hcs⟩
      · have hr : '\n' ∉ r := List.not_mem_of_not_mem_cons hcs
        rcases ih _ (Nat.lt_succ_self _) hr rfl with ⟨ps, hps, rfl⟩ | ⟨out, hout, hstrip⟩
        · exact .inl ⟨.code c :: ps, ⟨hopen, hps⟩, rfl⟩
        · refine .inr ⟨c :: out, ?_, ?_⟩
          · rw [List.mem_cons, not_or] at hcs ⊢
            exact ⟨hcs.1, hout⟩
          · exact (CommentStyle.strip_enclosed_cons hopen).trans (congrArg _ hstrip)

theorem scanned_closing {body : List Char} (hbody : '\n' ∉ body) :
    Scanned (.line body :: closing) := ⟨⟨hbody, by decide⟩, by decide⟩

theorem leftOf_closing {body : List Char} (hbody : '\n' ∉ body) :
    leftOf (.line body :: closing) = textOf closing := by
  rw [leftOf_cons, Lexeme.left_line hbody]
  rfl

/-- What is left of a text that ends with its only line feed has nothing behind a line feed. -/
theorem strip_concat_ne {out : List Char} (hout : '\n' ∉ out) (style : CommentStyle) :
    style.strip (out ++ ['\n']) ≠ textOf closing := by
  intro h
  have hsub := style.strip_sublist (out ++ ['\n'])
  rw [h, textOf_closing] at hsub
  obtain ⟨as, bs, heq, has, hbs⟩ := List.sublist_append_iff.1 hsub
  cases as with
  | nil =>
    have hlength := hbs.length_le
    rw [← List.nil_append bs, ← heq] at hlength
    simp at hlength
  | cons a as =>
    obtain ⟨rfl, -⟩ := List.cons.inj heq
    exact hout (has.subset List.mem_cons_self)

/-- **The next line tells** whether a comment is harmless wherever it stands. -/
theorem strip_closing_iff {body : List Char} (hbody : '\n' ∉ body) :
    (CommentStyle.toLineEnd ['/', '/']).strip
        (CommentStyle.enclosed.strip (textOf (.line body :: closing))) =
      leftOf (.line body :: closing) ↔
      ∀ behind, AtLineEnd behind → Harmless body behind := by
  constructor
  · intro h behind hend
    have hline : '\n' ∉ '/' :: body := by simp [hbody]
    have hfirst : CommentStyle.enclosed.strip (textOf (.line body :: closing)) =
        '/' :: CommentStyle.enclosed.strip ('/' :: body ++ textOf closing) :=
      CommentStyle.strip_enclosed_cons (by simp [Opens])
    rw [leftOf_closing hbody, hfirst] at h
    rcases sifted_or_swallowed hline with ⟨ps, hps, htext⟩ | ⟨out, hout, hstrip⟩
    · rw [← htext, CommentStyle.strip_enclosed_sifted hps, strip_enclosed_closing] at h
      cases hleft : leftOf ps with
      | nil =>
        rw [hleft, CommentStyle.strip_line_cons (by decide)] at h
        cases h
      | cons d out =>
        by_cases hd : d = '/'
        · exact ⟨ps, out, hps.of_closing hend, htext, hd ▸ hleft⟩
        · rw [hleft, CommentStyle.strip_line_cons (by simp [Ne.symm hd])] at h
          cases h
    · have hslash : '\n' ∉ '/' :: out := by simp [hout]
      rw [hstrip] at h
      exact absurd h (strip_concat_ne hslash _)
  · intro h
    exact CommentStyle.strip_strip (scanned_closing hbody) ⟨h _ (by decide), trivial⟩

theorem Language.stripComments_eq {l : Language} (hl : l ≠ .python) (cs : List Char) :
    l.stripComments cs =
      (CommentStyle.toLineEnd ['/', '/']).strip (CommentStyle.enclosed.strip cs) := by
  cases l <;> first | rfl | exact absurd rfl hl

/-- **Comments are removed as one scan reads them** where no comment to the end of its line does
harm. Each text is read by a scan in one way. A comment that does harm somewhere does so before the
end of an enclosed comment on the next line. -/
theorem Language.stripComments_scan {l : Language} (hl : l ≠ .python) :
    (∀ cs, ∃! ps, Scanned ps ∧ textOf ps = cs) ∧
    (∀ ps, Scanned ps → Clear ps → l.stripComments (textOf ps) = leftOf ps) ∧
    ∀ body, '\n' ∉ body → Scanned (.line body :: closing) ∧
      (l.stripComments (textOf (.line body :: closing)) = leftOf (.line body :: closing) ↔
        ∀ behind, AtLineEnd behind → Harmless body behind) := by
  refine ⟨existsUnique_scanned, fun ps hps hclear => ?_, fun body hbody => ?_⟩
  · rw [stripComments_eq hl]
    exact CommentStyle.strip_strip hps hclear
  · rw [stripComments_eq hl]
    exact ⟨scanned_closing hbody, strip_closing_iff hbody⟩

theorem Language.stripComments_scan_nested :
    let ps := "f(); ".toList.map .code ++ .line " see /* here */ too".toList ::
      "\ng();\n".toList.map .code
    Language.javascript ≠ .python ∧ Scanned ps ∧ Clear ps ∧
      Language.javascript.stripComments (textOf ps) = "f(); \ng();\n".toList := by
  intro ps
  have hscan : Scanned ps := by decide +kernel
  have hclear : Clear ps := by
    refine ⟨⟨"/ see ".toList.map .code ++ .enclosed " here ".toList :: " too".toList.map .code,
      " see  too".toList, ?_, ?_, ?_⟩, trivial⟩
    · decide +kernel
    · decide +kernel
    · decide +kernel
  refine ⟨by decide, hscan, hclear, ?_⟩
  rw [(Language.stripComments_scan (by decide)).2.1 ps hscan hclear]
  decide +kernel

/-- A text without quotes, backticks, backslashes and slashes other than those of comments. The line
of code between its two comments disappears. -/
theorem Language.stripComments_swallowed :
    let ps := .line " see /* here".toList :: "\nx = 1;\n".toList.map .code ++
      .enclosed " b ".toList :: " y = 2;\n".toList.map .code
    (∀ n ∈ [34, 39, 92, 96], Char.ofNat n ∉ textOf ps) ∧ .code '/' ∉ ps ∧ Scanned ps ∧
      leftOf ps = "\nx = 1;\n y = 2;\n".toList ∧
      Language.typescript.stripComments (textOf ps) = "\n\n y = 2;\n".toList := by
  decide +kernel

end EvidenceLock
