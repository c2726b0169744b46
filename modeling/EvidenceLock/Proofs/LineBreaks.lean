import EvidenceLock.Proofs.WhiteSpace
import Mathlib.Data.List.TakeWhile

/-!
# Carriage returns before line feeds

`Text.FewerReturns` relates a text with one that lacks some of the carriage returns that stand
before line feeds, as the lines of a text do when they are written again
(`Text.fewerReturns_joinLines`). Such a carriage return is white space at the end of a line: no
comment begins or ends differently without it, so removing comments keeps the relation
(`Language.stripComments_fewerReturns`), and the normalized lines are the same
(`normalizedLines_joinLines`).
-/

namespace EvidenceLock

namespace Text

/-- The second text is the first one without some carriage returns before line feeds. -/
inductive FewerReturns : List Char → List Char → Prop
  | nil : FewerReturns [] []
  | cons {as bs : List Char} (c : Char) (h : FewerReturns as bs) : FewerReturns (c :: as) (c :: bs)
  | drop {as bs : List Char} (h : FewerReturns as bs) :
    FewerReturns ('\r' :: '\n' :: as) ('\n' :: bs)

namespace FewerReturns

variable {as bs : List Char}

theorem refl : ∀ cs : List Char, FewerReturns cs cs
  | [] => .nil
  | c :: cs => .cons c (refl cs)

theorem append_left (cs : List Char) (h : FewerReturns as bs) :
    FewerReturns (cs ++ as) (cs ++ bs) := by
  induction cs with
  | nil => exact h
  | cons c cs ih => exact .cons c ih

/-- Only a line feed can stand for two characters. -/
theorem of_cons_left {c : Char} (h : FewerReturns (c :: as) bs) (hc : c ≠ '\r') :
    ∃ cs, bs = c :: cs ∧ FewerReturns as cs := by
  cases h with
  | cons _ h => exact ⟨_, rfl, h⟩
  | drop h => exact absurd rfl hc

theorem of_cons_right {c : Char} (h : FewerReturns as (c :: bs)) (hc : c ≠ '\n') :
    ∃ cs, as = c :: cs ∧ FewerReturns cs bs := by
  cases h with
  | cons _ h => exact ⟨_, rfl, h⟩
  | drop h => exact absurd rfl hc

/-- One of the texts begins with a marker when the other one does. -/
theorem of_append {marker : List Char} (hmarker : OneLine marker) (h : FewerReturns as bs) :
    (∀ r, as = marker ++ r → ∃ s, bs = marker ++ s ∧ FewerReturns r s) ∧
      ∀ s, bs = marker ++ s → ∃ r, as = marker ++ r ∧ FewerReturns r s := by
  induction marker generalizing as bs with
  | nil =>
    constructor
    · rintro r rfl
      exact ⟨bs, rfl, h⟩
    · rintro s rfl
      exact ⟨as, rfl, h⟩
  | cons c marker ih =>
    obtain ⟨hlf, hcr⟩ := hmarker c List.mem_cons_self
    have hrest : OneLine marker := fun d hd => hmarker d (List.mem_cons_of_mem c hd)
    constructor
    · rintro r rfl
      obtain ⟨cs, rfl, hcs⟩ := of_cons_left h hcr
      obtain ⟨s, rfl, hs⟩ := (ih hrest hcs).1 r rfl
      exact ⟨s, rfl, hs⟩
    · rintro s rfl
      obtain ⟨cs, rfl, hcs⟩ := of_cons_right h hlf
      obtain ⟨r, rfl, hr⟩ := (ih hrest hcs).2 s rfl
      exact ⟨r, rfl, hr⟩

theorem readAs_cons {written read : List (List Char)} (c : Char)
    (h : List.Forall₂ ReadAs written read) :
    List.Forall₂ ReadAs (written.modifyHead (List.cons c)) (read.modifyHead (List.cons c)) := by
  cases h with
  | nil => exact .nil
  | cons hread hrest =>
    refine .cons ?_ hrest
    rcases hread with rfl | rfl
    · exact .inl rfl
    · exact .inr rfl

/-- The pieces between line feeds differ by carriage returns at their ends. -/
theorem forall₂_splitOn (h : FewerReturns as bs) :
    List.Forall₂ ReadAs (as.splitOn '\n') (bs.splitOn '\n') := by
  unfold List.splitOn
  induction h with
  | nil => exact .cons (.inl rfl) .nil
  | cons c h ih =>
    rw [List.splitOnP_cons_eq_if_modifyHead, List.splitOnP_cons_eq_if_modifyHead]
    split
    · exact .cons (.inl rfl) ih
    · exact readAs_cons c ih
  | drop h ih => exact .cons (.inr rfl) ih

end FewerReturns

/-- Lines that are written again lack the carriage returns before their line feeds. -/
theorem fewerReturns_joinLines (content : String) :
    FewerReturns content.toList (joinLines (linesOf content)).toList := by
  have hgo : ∀ line cs, FewerReturns (line.reverse ++ cs)
      (['\n'].intercalate (splitLines.go line cs)) := by
    intro line cs
    have hnext : ∀ l r, ['\n'].intercalate (l :: splitLines.go [] r) =
        l ++ '\n' :: ['\n'].intercalate (splitLines.go [] r) := by
      intro l r
      obtain ⟨m, ms, hms⟩ := List.exists_cons_of_ne_nil (splitLines_go_ne_nil [] r)
      rw [hms, List.intercalate_cons_cons, List.append_assoc, List.singleton_append]
    fun_induction splitLines.go line cs with
    | case1 line =>
      rw [List.append_nil, List.intercalate_singleton]
      exact .refl _
    | case2 line r ih =>
      rw [hnext]
      exact .append_left _ (.cons _ ih)
    | case3 line r ih =>
      rw [hnext]
      exact .append_left _ (.drop ih)
    | case4 line c r _ _ ih =>
      rw [List.reverse_cons, List.append_assoc, List.singleton_append] at ih
      exact ih
  have hchars : (linesOf content).map String.toList = splitLines content.toList := by
    simp [linesOf]
  rw [toList_joinLines, hchars]
  exact hgo [] content.toList

end Text

open EvidenceLock.Text

/-! ## Normalized lines -/

theorem normalLine_of_readAs {written read : List Char} (h : ReadAs written read) :
    normalLine written = normalLine read := by
  rcases h with rfl | rfl
  · rfl
  · rw [normalLine_eq, normalLine_eq, words_concat (by decide)]

theorem map_normalLine {written read : List (List Char)} (h : List.Forall₂ ReadAs written read) :
    written.map normalLine = read.map normalLine := by
  induction h with
  | nil => rfl
  | cons hread _ ih => rw [List.map_cons, List.map_cons, normalLine_of_readAs hread, ih]

theorem numberedLines_congr {first : Int} {ls ms : List (List Char)}
    (h : ls.map normalLine = ms.map normalLine) : numberedLines first ls = numberedLines first ms := by
  induction ls generalizing first ms with
  | nil =>
    cases ms with
    | nil => rfl
    | cons m ms => cases h
  | cons l ls ih =>
    cases ms with
    | nil => cases h
    | cons m ms =>
      rw [List.map_cons, List.map_cons, List.cons.injEq] at h
      rw [numberedLines, numberedLines, h.1, ih h.2]

/-! ## Comments -/

theorem keepLineFeeds_eq_nil {cs : List Char} (h : '\n' ∉ cs) : keepLineFeeds cs = [] := by
  refine List.filter_eq_nil_iff.2 fun c hc => ?_
  simpa using ne_of_mem_of_not_mem hc h

/-- The next star and slash are found in both texts, with the same line feeds before them. -/
theorem closingLength?_fewerReturns {as bs : List Char} (h : FewerReturns as bs) (k m : Nat) :
    (closingLength? k as = none ∧ closingLength? m bs = none) ∨
      ∃ x r y s, as = x ++ r ∧ bs = y ++ s ∧ closingLength? k as = some (k + x.length) ∧
        closingLength? m bs = some (m + y.length) ∧ keepLineFeeds x = keepLineFeeds y ∧
        FewerReturns r s := by
  induction h generalizing k m with
  | nil => exact .inl ⟨rfl, rfl⟩
  | @cons as bs c h ih =>
    by_cases hclose : c = '*' ∧ ∃ r, as = '/' :: r
    · obtain ⟨rfl, r, rfl⟩ := hclose
      obtain ⟨s, rfl, hs⟩ := h.of_cons_left (by decide)
      exact .inr ⟨['*', '/'], r, ['*', '/'], s, rfl, rfl, rfl, rfl, rfl, hs⟩
    · have has : closingLength? k (c :: as) = closingLength? (k + 1) as := by
        rw [closingLength?]
        rintro r rfl rfl
        exact hclose ⟨rfl, r, rfl⟩
      have hbs : closingLength? m (c :: bs) = closingLength? (m + 1) bs := by
        rw [closingLength?]
        rintro s rfl rfl
        obtain ⟨r, rfl, -⟩ := h.of_cons_right (by decide)
        exact hclose ⟨rfl, r, rfl⟩
      rw [has, hbs]
      rcases ih (k + 1) (m + 1) with hnone | ⟨x, r, y, s, rfl, rfl, hx, hy, hkeep, hr⟩
      · exact .inl hnone
      · refine .inr ⟨c :: x, r, c :: y, s, rfl, rfl, ?_, ?_, ?_, hr⟩
        · rw [hx, List.length_cons, Nat.add_right_comm, Nat.add_assoc]
        · rw [hy, List.length_cons, Nat.add_right_comm, Nat.add_assoc]
        · simp only [keepLineFeeds, List.filter_cons] at hkeep ⊢
          rw [hkeep]
  | @drop as bs h ih =>
    have has : closingLength? k ('\r' :: '\n' :: as) = closingLength? (k + 1 + 1) as := rfl
    have hbs : closingLength? m ('\n' :: bs) = closingLength? (m + 1) bs := rfl
    rw [has, hbs]
    rcases ih (k + 1 + 1) (m + 1) with hnone | ⟨x, r, y, s, rfl, rfl, hx, hy, hkeep, hr⟩
    · exact .inl hnone
    · refine .inr ⟨'\r' :: '\n' :: x, r, '\n' :: y, s, rfl, rfl, ?_, ?_, ?_, hr⟩
      · rw [hx, List.length_cons, List.length_cons]
        congr 1
        omega
      · rw [hy, List.length_cons]
        congr 1
        omega
      · simp only [keepLineFeeds, List.filter_cons] at hkeep ⊢
        rw [hkeep]
        rfl

/-- The rest of a line ends in both texts before the same line feed. -/
theorem takeWhile_fewerReturns {as bs : List Char} (h : FewerReturns as bs) :
    ∃ r s, as = as.takeWhile (· != '\n') ++ r ∧ bs = bs.takeWhile (· != '\n') ++ s ∧
      FewerReturns r s := by
  induction h with
  | nil => exact ⟨[], [], rfl, rfl, .nil⟩
  | @cons as bs c h ih =>
    by_cases hc : c = '\n'
    · subst hc
      exact ⟨'\n' :: as, '\n' :: bs, rfl, rfl, .cons _ h⟩
    · obtain ⟨r, s, hr, hs, hrest⟩ := ih
      have hne : (c != '\n') = true := by simpa using hc
      refine ⟨r, s, ?_, ?_, hrest⟩
      · rw [List.takeWhile_cons, if_pos hne, List.cons_append, ← hr]
      · rw [List.takeWhile_cons, if_pos hne, List.cons_append, ← hs]
  | @drop as bs h ih => exact ⟨'\n' :: as, '\n' :: bs, rfl, rfl, .cons _ h⟩

namespace CommentStyle

/-- The marker of the style is something, and within a line. -/
def Plain : CommentStyle → Prop
  | .enclosed => True
  | .toLineEnd marker => marker ≠ [] ∧ OneLine marker

theorem lengthAt?_enclosed (r : List Char) :
    CommentStyle.enclosed.lengthAt? (['/', '*'] ++ r) = closingLength? 2 r := rfl

theorem lengthAt?_enclosed_eq_none {cs : List Char} (h : ¬ ['/', '*'] <+: cs) :
    CommentStyle.enclosed.lengthAt? cs = none := by
  unfold lengthAt?
  dsimp only
  split
  · exact absurd (List.prefix_append ['/', '*'] _) h
  · rfl

theorem lengthAt?_toLineEnd (marker r : List Char) :
    (toLineEnd marker).lengthAt? (marker ++ r) =
      some (marker ++ r.takeWhile (· != '\n')).length := by
  have hprefix : startsWith (marker ++ r) marker = true :=
    List.isPrefixOf_iff_prefix.2 (List.prefix_append marker r)
  simp only [lengthAt?, hprefix, if_true, List.drop_left, List.length_append]

theorem lengthAt?_toLineEnd_eq_none {marker cs : List Char} (h : ¬ marker <+: cs) :
    (toLineEnd marker).lengthAt? cs = none := by
  have hprefix : ¬ startsWith cs marker = true := fun hp => h (List.isPrefixOf_iff_prefix.1 hp)
  rw [lengthAt?, if_neg hprefix]

theorem keepLineFeeds_toLineEnd {marker : List Char} (hmarker : OneLine marker) (r : List Char) :
    keepLineFeeds (marker ++ r.takeWhile (· != '\n')) = [] := by
  refine keepLineFeeds_eq_nil fun hlf => ?_
  rcases List.mem_append.1 hlf with hlf | hlf
  · exact (hmarker _ hlf).1 rfl
  · simpa using List.mem_takeWhile_imp hlf

/-- Both texts start with a comment, with the same line feeds in it, or neither does. -/
theorem lengthAt?_fewerReturns {style : CommentStyle} (hstyle : style.Plain) {as bs : List Char}
    (h : FewerReturns as bs) :
    (style.lengthAt? as = none ∧ style.lengthAt? bs = none) ∨
      ∃ x r y s, as = x ++ r ∧ bs = y ++ s ∧ x ≠ [] ∧ y ≠ [] ∧
        style.lengthAt? as = some x.length ∧ style.lengthAt? bs = some y.length ∧
        keepLineFeeds x = keepLineFeeds y ∧ FewerReturns r s := by
  cases style with
  | enclosed =>
    have hopen : OneLine ['/', '*'] := by simp [OneLine]
    by_cases hstart : ['/', '*'] <+: as
    · obtain ⟨r, rfl⟩ := hstart
      obtain ⟨s, rfl, hrest⟩ := (h.of_append hopen).1 r rfl
      rw [lengthAt?_enclosed, lengthAt?_enclosed]
      rcases closingLength?_fewerReturns hrest 2 2 with hnone | ⟨x, r, y, s, rfl, rfl, hx, hy, hk, hr⟩
      · exact .inl hnone
      · refine .inr ⟨'/' :: '*' :: x, r, '/' :: '*' :: y, s, rfl, rfl, List.cons_ne_nil _ _,
          List.cons_ne_nil _ _, ?_, ?_, ?_, hr⟩
        · rw [hx, List.length_cons, List.length_cons, Nat.add_comm 2]
        · rw [hy, List.length_cons, List.length_cons, Nat.add_comm 2]
        · simpa [keepLineFeeds] using hk
    · refine .inl ⟨lengthAt?_enclosed_eq_none hstart, lengthAt?_enclosed_eq_none ?_⟩
      rintro ⟨s, hs⟩
      obtain ⟨r, hr, -⟩ := (h.of_append hopen).2 s hs.symm
      exact hstart ⟨r, hr.symm⟩
  | toLineEnd marker =>
    obtain ⟨hne, hmarker⟩ := hstyle
    by_cases hstart : marker <+: as
    · obtain ⟨r, rfl⟩ := hstart
      obtain ⟨s, rfl, hrest⟩ := (h.of_append hmarker).1 r rfl
      obtain ⟨r', s', hr, hs, hrest'⟩ := takeWhile_fewerReturns hrest
      refine .inr ⟨_, r', _, s', ?_, ?_, ?_, ?_, lengthAt?_toLineEnd marker r,
        lengthAt?_toLineEnd marker s, ?_, hrest'⟩
      · rw [List.append_assoc, ← hr]
      · rw [List.append_assoc, ← hs]
      · exact List.append_ne_nil_of_left_ne_nil hne _
      · exact List.append_ne_nil_of_left_ne_nil hne _
      · rw [keepLineFeeds_toLineEnd hmarker, keepLineFeeds_toLineEnd hmarker]
    · refine .inl ⟨lengthAt?_toLineEnd_eq_none hstart, lengthAt?_toLineEnd_eq_none ?_⟩
      rintro ⟨s, hs⟩
      obtain ⟨r, hr, -⟩ := (h.of_append hmarker).2 s hs.symm
      exact hstart ⟨r, hr.symm⟩

/-! ## Removing comments -/

variable {style : CommentStyle}

theorem strip_go_eq (left : Nat) (acc cs : List Char) :
    strip.go style left acc cs =
      acc.reverse ++ keepLineFeeds (cs.take left) ++ style.strip (cs.drop left) := by
  induction cs generalizing left acc with
  | nil => simp [strip, strip.go, keepLineFeeds]
  | cons c r ih =>
    cases left with
    | succ left =>
      rw [strip.go, ih]
      by_cases hc : c = '\n' <;> simp [keepLineFeeds, hc]
    | zero =>
      rw [List.take_zero, List.drop_zero, strip, strip.go, strip.go]
      cases style.lengthAt? (c :: r) with
      | none =>
        dsimp only
        rw [ih, ih]
        simp [keepLineFeeds]
      | some n =>
        cases n with
        | zero =>
          dsimp only
          rw [ih, ih]
          simp [keepLineFeeds]
        | succ n =>
          dsimp only
          rw [ih, ih]
          by_cases hc : c = '\n' <;> simp [keepLineFeeds, hc]

theorem strip_cons {c : Char} {r : List Char} (h : style.lengthAt? (c :: r) = none) :
    style.strip (c :: r) = c :: style.strip r := by
  rw [strip, strip.go, h]
  dsimp only
  rw [strip_go_eq]
  simp [keepLineFeeds]

/-- A comment leaves its line feeds. -/
theorem strip_append {x r : List Char} (hx : x ≠ [])
    (h : style.lengthAt? (x ++ r) = some x.length) :
    style.strip (x ++ r) = keepLineFeeds x ++ style.strip r := by
  obtain ⟨c, x, rfl⟩ := List.exists_cons_of_ne_nil hx
  rw [List.cons_append, List.length_cons] at h
  rw [List.cons_append, strip, strip.go, h]
  dsimp only
  rw [strip_go_eq, List.take_left, List.drop_left]
  by_cases hc : c = '\n' <;> simp [keepLineFeeds, hc]

/-- **Removing comments** sees no difference. -/
theorem strip_fewerReturns (hstyle : style.Plain) {as bs : List Char} (h : FewerReturns as bs) :
    FewerReturns (style.strip as) (style.strip bs) := by
  -- By the length of the text: behind a comment it is shorter, whatever the comment is.
  induction hn : as.length using Nat.strong_induction_on generalizing as bs with
  | _ n ih =>
    subst hn
    rcases lengthAt?_fewerReturns hstyle h with
      ⟨has, hbs⟩ | ⟨x, r, y, s, rfl, rfl, hx, hy, has, hbs, hkeep, hrest⟩
    · cases h with
      | nil => exact .nil
      | cons c h =>
        rw [strip_cons has, strip_cons hbs]
        exact .cons c (ih _ (Nat.lt_succ_self _) h rfl)
      | @drop as bs h =>
        have hfeed : style.lengthAt? ('\n' :: as) = none := by
          rcases lengthAt?_fewerReturns hstyle (.cons '\n' h) with
            hnone | ⟨x, r, y, s, -, -, -, -, -, hsome, -⟩
          · exact hnone.1
          · rw [hbs] at hsome
            cases hsome
        rw [strip_cons has, strip_cons hfeed, strip_cons hbs]
        exact .drop (ih _ (Nat.lt_succ_of_lt (Nat.lt_succ_self _)) h rfl)
    · have hshorter : r.length < (x ++ r).length := by
        have hpos := List.length_pos_iff.2 hx
        rw [List.length_append]
        omega
      rw [strip_append hx has, strip_append hy hbs, hkeep]
      exact .append_left _ (ih _ hshorter hrest rfl)

end CommentStyle

theorem Language.plain_comments (l : Language) : ∀ style ∈ l.comments, style.Plain := by
  intro style hstyle
  cases l <;> revert style <;> simp [Language.comments, CommentStyle.Plain, OneLine]

theorem Language.stripComments_fewerReturns (l : Language) {as bs : List Char}
    (h : FewerReturns as bs) : FewerReturns (l.stripComments as) (l.stripComments bs) := by
  have hplain := l.plain_comments
  unfold Language.stripComments
  generalize l.comments = styles at hplain ⊢
  induction styles generalizing as bs with
  | nil => exact h
  | cons style styles ih =>
    rw [List.forall_mem_cons] at hplain
    exact ih (CommentStyle.strip_fewerReturns hplain.1 h) hplain.2

/-- **Carriage returns before line feeds** make no difference to the normalized lines. -/
theorem normalizedLines_fewerReturns (l : Language) {content other : String}
    (h : FewerReturns content.toList other.toList) :
    normalizedLines l content = normalizedLines l other := by
  have hstripped := l.stripComments_fewerReturns h
  refine numberedLines_congr ?_
  rw [← map_normalLine (forall₂_splitLines _), ← map_normalLine (forall₂_splitLines _)]
  exact map_normalLine hstripped.forall₂_splitOn

theorem normalizedLines_joinLines (l : Language) (content : String) :
    normalizedLines l (joinLines (linesOf content)) = normalizedLines l content :=
  (normalizedLines_fewerReturns l (fewerReturns_joinLines content)).symm

end EvidenceLock
