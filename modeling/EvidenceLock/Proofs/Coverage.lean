import EvidenceLock.Proofs.DuplicateBlocks
import Mathlib.Data.List.Perm.Subperm
import Mathlib.Logic.Relation

/-!
# Nothing is lost where blocks are dropped

A block is dropped when another one covers it, even if that one is dropped as well. No duplicate is
lost by this: a block that covers another one has a longer text (`ListsRepeated.covers`), so that
following the covering blocks comes to an end at one that is kept (`exists_covering`).
`duplicateBlocks_complete` puts this together with the repeated texts.
-/

namespace EvidenceLock

/-- The lines of a place are among those of another place of the same file. -/
def Occurrence.LiesIn (inner outer : Occurrence) : Prop :=
  inner.file = outer.file ∧ outer.first ≤ inner.first ∧ inner.last ≤ outer.last

theorem Occurrence.inside_eq_true {inner outer : Occurrence} :
    inner.inside outer = true ↔ inner.LiesIn outer := by
  simp only [Occurrence.inside, Occurrence.LiesIn, Bool.and_eq_true, beq_iff_eq, decide_eq_true_eq,
    and_assoc]
  rw [@eq_comm _ outer.file]

theorem Occurrence.LiesIn.refl (o : Occurrence) : o.LiesIn o :=
  ⟨rfl, Int.le_refl _, Int.le_refl _⟩

theorem Occurrence.LiesIn.trans {o o' o'' : Occurrence} (h : o.LiesIn o') (h' : o'.LiesIn o'') :
    o.LiesIn o'' :=
  ⟨h.1.trans h'.1, Int.le_trans h'.2.1 h.2.1, Int.le_trans h.2.2 h'.2.2⟩

namespace DuplicateBlock

/-- The block has at least as many places as another one, and each place of the other lies in one of
them. -/
def Covers (large small : DuplicateBlock) : Prop :=
  small.occurrences.length ≤ large.occurrences.length ∧
    ∀ o ∈ small.occurrences, ∃ o' ∈ large.occurrences, o.LiesIn o'

theorem coveredBy_eq_true {small large : DuplicateBlock} :
    small.coveredBy large = true ↔ large.Covers small := by
  simp [coveredBy, Covers, Occurrence.inside_eq_true]

theorem Covers.refl (b : DuplicateBlock) : b.Covers b :=
  ⟨Nat.le_refl _, fun o ho => ⟨o, ho, .refl o⟩⟩

theorem Covers.trans {a b c : DuplicateBlock} (h : b.Covers a) (h' : c.Covers b) : c.Covers a := by
  refine ⟨Nat.le_trans h.1 h'.1, fun o ho => ?_⟩
  obtain ⟨o', ho', hin⟩ := h.2 o ho
  obtain ⟨o'', ho'', hin'⟩ := h'.2 o' ho'
  exact ⟨o'', ho'', hin.trans hin'⟩

end DuplicateBlock

/-! ## Dropping covered blocks -/

section
variable {bs : List DuplicateBlock}

/-- Of different blocks those are kept that no other one covers. -/
theorem mem_dropCovered (hbs : bs.Nodup) {b : DuplicateBlock} :
    b ∈ dropCovered bs ↔ b ∈ bs ∧ ∀ c ∈ bs, c.Covers b → c = b := by
  simp only [dropCovered, List.mem_map, List.mem_filter, Bool.not_eq_true', List.any_eq_false,
    Bool.and_eq_true, bne_iff_ne, DuplicateBlock.coveredBy_eq_true, Prod.forall,
    List.mem_zipIdx_iff_getElem?]
  constructor
  · rintro ⟨⟨b, i⟩, ⟨hi, hnone⟩, rfl⟩
    refine ⟨List.mem_of_getElem? hi, fun c hcbs hcovers => ?_⟩
    obtain ⟨j, hj⟩ := List.getElem?_of_mem hcbs
    by_cases hij : i = j
    · subst hij
      exact Option.some.inj (hj.symm.trans hi)
    · exact absurd ⟨hij, hcovers⟩ (hnone c j hj)
  · rintro ⟨hb, hnone⟩
    obtain ⟨i, hi⟩ := List.getElem?_of_mem hb
    refine ⟨(b, i), ⟨hi, fun c j hj => ?_⟩, rfl⟩
    rintro ⟨hij, hcovers⟩
    have hcb := hnone c (List.mem_of_getElem? hj) hcovers
    have hlt := (List.getElem?_eq_some_iff.1 hi).1
    exact hij ((List.getElem?_inj hlt hbs).1 (by rw [hi, hj, hcb]))

/-- One block of a list is the reason for another one to be dropped. -/
def Eliminates (bs : List DuplicateBlock) (b c : DuplicateBlock) : Prop :=
  b ∈ bs ∧ c ∈ bs ∧ b ≠ c ∧ b.Covers c

variable (hlonger : ∀ b ∈ bs, ∀ c ∈ bs, c.Covers b → c = b ∨ b.length < c.length)

include hlonger in
/-- Where covering blocks are longer, each block is covered by one that is kept. -/
theorem exists_covering (hbs : bs.Nodup) {bound : Int} (hbound : ∀ b ∈ bs, b.length ≤ bound) :
    ∀ b ∈ bs, ∃ c ∈ dropCovered bs, c.Covers b := by
  intro b hb
  -- What is left between the length of a block and the bound shrinks from block to block.
  induction hn : (bound - b.length).toNat using Nat.strongRecOn generalizing b with
  | ind n ih =>
    by_cases hkept : ∀ c ∈ bs, c.Covers b → c = b
    · exact ⟨b, (mem_dropCovered hbs).2 ⟨hb, hkept⟩, .refl b⟩
    · push Not at hkept
      obtain ⟨c, hc, hcovers, hne⟩ := hkept
      have hlt := (hlonger b hb c hc hcovers).resolve_left hne
      have hle := hbound c hc
      obtain ⟨d, hd, hcovers'⟩ := ih (bound - c.length).toNat (by omega) c hc rfl
      exact ⟨d, hd, hcovers.trans hcovers'⟩

include hlonger in
/-- Where covering blocks are longer, blocks do not eliminate each other in turn. -/
theorem length_lt_of_eliminates {b c : DuplicateBlock}
    (h : Relation.TransGen (Eliminates bs) b c) : c.length < b.length := by
  have hstep : ∀ {b c}, Eliminates bs b c → c.length < b.length :=
    fun ⟨hb, hc, hne, hcovers⟩ => (hlonger _ hc _ hb hcovers).resolve_left hne
  induction h with
  | single h => exact hstep h
  | tail _ h ih => exact Int.lt_trans (hstep h) ih

end

/-! ## Covering blocks are longer -/

variable {files : List NormalizedFile} {minLines maxLines minOccurrences : Nat}

/-- A block that covers another one has the same text or a longer one. -/
theorem IsBlockOf.covers (hc : Corpus files) (hmin : 0 < minLines) {s t : List String}
    {b c : DuplicateBlock} (hs : Repeated files minLines maxLines minOccurrences s)
    (ht : Repeated files minLines maxLines minOccurrences t) (hb : IsBlockOf files minLines s b)
    (hcb : IsBlockOf files minLines t c) (hne : b.occurrences ≠ []) (hcovers : c.Covers b) :
    s = t ∨ s.length < t.length := by
  obtain ⟨o, ho⟩ := List.exists_mem_of_ne_nil _ hne
  obtain ⟨o', ho', hin⟩ := hcovers.2 o ho
  obtain ⟨p, hp, hplace⟩ := hb.exists_position ho
  obtain ⟨q, hq, hplace'⟩ := hcb.exists_position ho'
  have hspos := Nat.lt_of_lt_of_le hmin hs.least
  have htpos := Nat.lt_of_lt_of_le hmin ht.least
  obtain ⟨hpath, hle, hge⟩ :=
    (hc.inside_iff hspos htpos hplace hplace').1 (Occurrence.inside_eq_true.2 hin)
  by_cases hlen : s.length = t.length
  · left
    have hpq : p = q := Prod.ext hpath (by omega)
    have hsp := (hc.occursAt_iff (List.ne_nil_of_length_pos hspos)).1 (hs.whole p hp)
    have htq := (hc.occursAt_iff (List.ne_nil_of_length_pos htpos)).1 (ht.whole q hq)
    rw [← hpq] at htq
    exact (List.prefix_of_prefix_length_le hsp htq (Nat.le_of_eq hlen)).eq_of_length hlen
  · omega

namespace ListsRepeated

variable {found : List (List String × DuplicateBlock)}

theorem occurrences_ne_nil (h : ListsRepeated files minLines maxLines minOccurrences found)
    (hocc : 0 < minOccurrences) {e : List String × DuplicateBlock} (he : e ∈ found) :
    e.2.occurrences ≠ [] := by
  have hrepeated := (h.texts e.1).1 (List.mem_map_of_mem he)
  have hle := (h.blocks e he).length_le hrepeated
  exact List.ne_nil_of_length_pos (Nat.lt_of_lt_of_le hocc hle)

/-- Among the blocks of the repeated texts, those that cover another one are longer. -/
theorem covers (hc : Corpus files) (hmin : 0 < minLines) (hocc : 0 < minOccurrences)
    (h : ListsRepeated files minLines maxLines minOccurrences found) :
    ∀ b ∈ found.map Prod.snd, ∀ c ∈ found.map Prod.snd, c.Covers b →
      c = b ∨ b.length < c.length := by
  intro b hb c hcb hcovers
  obtain ⟨⟨s, b⟩, hs, rfl⟩ := List.mem_map.1 hb
  obtain ⟨⟨t, c⟩, ht, rfl⟩ := List.mem_map.1 hcb
  have hsb := h.blocks _ hs
  have htc := h.blocks _ ht
  rcases hsb.covers hc hmin ((h.texts s).1 (List.mem_map_of_mem hs))
    ((h.texts t).1 (List.mem_map_of_mem ht)) htc (h.occurrences_ne_nil hocc hs) hcovers with
    hst | hlt
  · left
    have heq := List.inj_on_of_nodup_map h.nodup ht hs hst.symm
    rw [heq]
  · right
    rw [hsb.length, htc.length]
    exact Int.ofNat_lt.2 hlt

/-- Different texts have different blocks. -/
theorem nodup_blocks (hc : Corpus files) (hmin : 0 < minLines) (hocc : 0 < minOccurrences)
    (h : ListsRepeated files minLines maxLines minOccurrences found) :
    (found.map Prod.snd).Nodup := by
  refine h.nodup.of_map.map_on ?_
  rintro ⟨s, b⟩ hs ⟨t, c⟩ ht rfl
  have hsb := h.blocks _ hs
  have htb := h.blocks _ ht
  have hlen : s.length = t.length := Int.ofNat_inj.1 (hsb.length.symm.trans htb.length)
  have hst := hsb.covers hc hmin ((h.texts s).1 (List.mem_map_of_mem hs))
    ((h.texts t).1 (List.mem_map_of_mem ht)) htb (h.occurrences_ne_nil hocc hs) (.refl b)
  rw [hst.resolve_right (by omega)]

theorem length_le (h : ListsRepeated files minLines maxLines minOccurrences found) :
    ∀ b ∈ found.map Prod.snd, b.length ≤ (maxLines : Int) := by
  intro b hb
  obtain ⟨e, he, rfl⟩ := List.mem_map.1 hb
  rw [(h.blocks e he).length]
  exact Int.ofNat_le.2 ((h.texts e.1).1 (List.mem_map_of_mem he)).most

end ListsRepeated

/-! ## Completeness -/

/-- A window that occurs often enough is the beginning of a repeated text. -/
theorem exists_repeated (hc : Corpus files) (hmin : 0 < minLines) (hmax : minLines ≤ maxLines)
    (hocc : 0 < minOccurrences) {window : List String} (hwindow : window.length = minLines)
    {ps : List Position} (hnodup : ps.Nodup) (hps : ∀ p ∈ ps, OccursAt files window p)
    (hlen : minOccurrences ≤ ps.length) :
    ∃ text, Repeated files minLines maxLines minOccurrences text ∧
      text.take minLines = window := by
  obtain ⟨p, hp⟩ := List.exists_mem_of_length_pos (Nat.lt_of_lt_of_le hocc hlen)
  obtain ⟨qs, -, hqs⟩ := hc.exists_windowGroup hmin hwindow (hps p hp)
  have hsub : ps ⊆ qs := fun q hq => (hqs.mem q).2 (hps q hq)
  have hlen' := Nat.le_trans hlen (List.subperm_of_subset hnodup hsub).length_le
  have hgroup := @groupOf_of_mem _ (.of minLines maxLines minOccurrences) hc hmin _ hwindow _ hqs
    (List.ne_nil_of_mem (hsub hp)) (BlockLimits.few_of_eq_false.2 hlen')
  exact ⟨_, groupText_repeated hc hmin hmax hwindow hqs hgroup.nonempty hlen', hgroup.take⟩

/-- **No duplicate is missed.** All occurrences of a window that occurs often enough lie in those of
one reported block. Every block that is dropped is covered by one that is kept, blocks do not
eliminate each other in a cycle, and no reported block covers another. -/
theorem duplicateBlocks_complete (hc : Corpus files) (hmin : 1 ≤ minLines)
    (hmax : minLines ≤ maxLines) (hocc : 1 ≤ minOccurrences) :
    ∃ candidates reported,
      candidateBlocks files (.of minLines maxLines minOccurrences) = .ok candidates ∧
      duplicateBlocks files (.of minLines maxLines minOccurrences) = .ok reported ∧
      (∀ (window : List String) (ps : List Position), window.length = minLines → ps.Nodup →
        (∀ p ∈ ps, OccursAt files window p) → minOccurrences ≤ ps.length →
        ∃ b ∈ reported, ∀ p, OccursAt files window p → ∃ o, PlaceOf files minLines p o ∧
          ∃ o' ∈ b.occurrences, o.LiesIn o') ∧
      candidates.Nodup ∧ reported.Sublist candidates ∧
      (∀ b ∈ candidates, b ∉ reported → ∃ c ∈ reported, c.Covers b) ∧
      (∀ b, ¬ Relation.TransGen (Eliminates candidates) b b) ∧
      reported.Pairwise (fun b c => ¬ b.Covers c ∧ ¬ c.Covers b) := by
  obtain ⟨found, hfound, hlists⟩ := candidateBlocks_ok hc hmin hmax hocc
  have hlonger := hlists.covers hc hmin hocc
  have hnodup := hlists.nodup_blocks hc hmin hocc
  have hcovering := exists_covering hlonger hnodup hlists.length_le
  have hsub := dropCovered_sublist (found.map Prod.snd)
  refine ⟨_, _, hfound, duplicateBlocks_eq hfound, ?_, hnodup, hsub, ?_, ?_, ?_⟩
  · intro window ps hwindow hps hat hlen
    obtain ⟨text, htext, htake⟩ := exists_repeated hc hmin hmax hocc hwindow hps hat hlen
    obtain ⟨⟨s, b⟩, he, rfl⟩ := List.mem_map.1 ((hlists.texts text).2 htext)
    obtain ⟨c, hkept, hcovers⟩ := hcovering b (List.mem_map_of_mem he)
    refine ⟨c, hkept, fun p hp => ?_⟩
    have hblock := hlists.blocks _ he
    obtain ⟨o, ho⟩ := hp.exists_placeOf (List.ne_nil_of_length_pos (by omega))
    rw [hwindow] at ho
    obtain ⟨o', hmem, ho'⟩ := hblock.exists_place (htake ▸ hp)
    obtain ⟨o'', hmem', hin⟩ := hcovers.2 o' hmem
    -- The window lies in the place of its text, and this in one of the block that is kept.
    have hfirst : o.inside o' = true := by
      rw [hc.inside_iff hmin (Nat.lt_of_lt_of_le hmin htext.least) ho ho']
      exact ⟨rfl, Nat.le_refl _, Nat.add_le_add_left htext.least _⟩
    exact ⟨o, ho, o'', hmem', (Occurrence.inside_eq_true.1 hfirst).trans hin⟩
  · exact fun b hb _ => hcovering b hb
  · exact fun b h => Int.lt_irrefl _ (length_lt_of_eliminates hlonger h)
  · refine (hnodup.sublist hsub).pairwise_of_forall_ne fun b hb c hcb hne => ?_
    obtain ⟨hb, hnone⟩ := (mem_dropCovered hnodup).1 hb
    obtain ⟨hcb, hnone'⟩ := (mem_dropCovered hnodup).1 hcb
    exact ⟨fun h => hne (hnone' b hb h), fun h => hne (hnone c hcb h).symm⟩

/-- The last two lines that the files have in common are found as a block of their own, which the
reported block covers. -/
theorem duplicateBlocks_complete_twins : ∃ candidates b,
    candidateBlocks twinFiles (.of 2 5 2) = .ok candidates ∧ candidates.length = 2 ∧
    duplicateBlocks twinFiles (.of 2 5 2) = .ok [b] ∧ (∀ c ∈ candidates, c ≠ b → b.Covers c) ∧
    ∀ p ∈ [("a.py", 1), ("b.py", 2)], ∃ o, PlaceOf twinFiles 2 p o ∧
      ∃ o' ∈ b.occurrences, o.LiesIn o' := by
  obtain ⟨candidates, reported, hcandidates, hreported, hfound, -, -, hdropped, -⟩ :=
    @duplicateBlocks_complete twinFiles 2 5 2 twinFiles_corpus (by decide) (by decide) (by decide)
  have htwo : (candidateBlocks twinFiles (.of 2 5 2)).toOption.map List.length = some 2 := by
    decide +kernel
  have hone : (duplicateBlocks twinFiles (.of 2 5 2)).toOption.map List.length = some 1 := by
    decide +kernel
  rw [hcandidates] at htwo
  rw [hreported] at hone
  obtain ⟨b, rfl⟩ := List.length_eq_one_iff.1 (Option.some.inj hone)
  obtain ⟨c, hc, hplaces⟩ := hfound ["y", "z"] [("a.py", 1), ("b.py", 2)] (by decide) (by decide)
    (by decide) (by decide)
  cases List.mem_singleton.1 hc
  refine ⟨candidates, b, hcandidates, Option.some.inj htwo, hreported, fun c hc hne => ?_, ?_⟩
  · obtain ⟨d, hd, hcovers⟩ := hdropped c hc fun h => hne (List.mem_singleton.1 h)
    cases List.mem_singleton.1 hd
    exact hcovers
  · have hoccurs : ∀ p ∈ [("a.py", 1), ("b.py", 2)], OccursAt twinFiles ["y", "z"] p := by decide
    exact fun p hp => hplaces p (hoccurs p hp)

end EvidenceLock
