import EvidenceLock.Proofs.Coverage
import Mathlib.Data.List.Perm.Basic

/-!
# The order of the files

Which blocks are reported is said by the files alone, not by their order: they are those of the
uncovered texts (`duplicateBlocks_uncovered`), and what makes a text one of these looks only at what
files there are (`Uncovered.congr`). Two blocks of one text are the same up to the order of their
places (`IsBlockOf.sameAs`), so that `duplicateBlocks_perm` pairs the blocks of two runs.
-/

namespace EvidenceLock

namespace DuplicateBlock

/-- Two blocks agree in everything but the order of their places. -/
structure SameAs (b c : DuplicateBlock) : Prop where
  hash : b.hash = c.hash
  length : b.length = c.length
  occurrences : b.occurrences.Perm c.occurrences

/-- Covering does not look at the order of places. -/
theorem Covers.sameAs {b b' c c' : DuplicateBlock} (h : c.Covers b) (hb : b.SameAs b')
    (hc : c.SameAs c') : c'.Covers b' := by
  refine ⟨?_, fun o ho => ?_⟩
  · rw [← hb.occurrences.length_eq, ← hc.occurrences.length_eq]
    exact h.1
  · obtain ⟨o', ho', hin⟩ := h.2 o (hb.occurrences.mem_iff.2 ho)
    exact ⟨o', hc.occurrences.mem_iff.1 ho', hin⟩

end DuplicateBlock

variable {files others : List NormalizedFile} {minLines maxLines minOccurrences : Nat}

/-- A text has one block, up to the order of its places. -/
theorem IsBlockOf.sameAs (hc : Corpus files) {text : List String} {b c : DuplicateBlock}
    (hb : IsBlockOf files minLines text b) (hcb : IsBlockOf files minLines text c) :
    b.SameAs c := by
  refine ⟨hb.hash.trans hcb.hash.symm, hb.length.trans hcb.length.symm, ?_⟩
  have hsub : ∀ {b c : DuplicateBlock}, IsBlockOf files minLines text b →
      IsBlockOf files minLines text c → b.occurrences ⊆ c.occurrences := by
    intro b c hb hcb o ho
    obtain ⟨p, hp, hplace⟩ := hb.exists_position ho
    obtain ⟨o', ho', hplace'⟩ := hcb.exists_place hp
    rwa [hc.place_eq_of_placeOf hplace hplace']
  exact (List.perm_ext_iff_of_nodup hb.distinct hcb.distinct).2 fun o =>
    ⟨fun h => hsub hb hcb h, fun h => hsub hcb hb h⟩

/-! ## Uncovered texts -/

/-- The text is repeated, and its block is covered by that of no other repeated text. -/
structure Uncovered (files : List NormalizedFile) (minLines maxLines minOccurrences : Nat)
    (text : List String) : Prop where
  repeated : Repeated files minLines maxLines minOccurrences text
  alone : ∀ t b c, Repeated files minLines maxLines minOccurrences t →
    IsBlockOf files minLines text b → IsBlockOf files minLines t c → c.Covers b → t = text

/-- The text of a block is uncovered exactly when the block is kept. -/
theorem ListsRepeated.uncovered_iff (hc : Corpus files) (hmin : 0 < minLines)
    (hocc : 0 < minOccurrences) {found : List (List String × DuplicateBlock)}
    (h : ListsRepeated files minLines maxLines minOccurrences found)
    {e : List String × DuplicateBlock} (he : e ∈ found) :
    Uncovered files minLines maxLines minOccurrences e.1 ↔
      e.2 ∈ dropCovered (found.map Prod.snd) := by
  have hnodup := h.nodup_blocks hc hmin hocc
  rw [mem_dropCovered hnodup]
  constructor
  · intro huncovered
    refine ⟨List.mem_map_of_mem he, fun c hcb hcovers => ?_⟩
    obtain ⟨d, hd, rfl⟩ := List.mem_map.1 hcb
    have htext := huncovered.alone d.1 e.2 d.2 ((h.texts d.1).1 (List.mem_map_of_mem hd))
      (h.blocks e he) (h.blocks d hd) hcovers
    rw [List.inj_on_of_nodup_map h.nodup hd he htext]
  · rintro ⟨-, hkept⟩
    refine ⟨(h.texts e.1).1 (List.mem_map_of_mem he), fun t b c ht hb hcb hcovers => ?_⟩
    obtain ⟨d, hd, rfl⟩ := List.mem_map.1 ((h.texts t).2 ht)
    have hcovers' := hcovers.sameAs (hb.sameAs hc (h.blocks e he)) (hcb.sameAs hc (h.blocks d hd))
    have hblock := hkept d.2 (List.mem_map_of_mem hd) hcovers'
    rw [List.inj_on_of_nodup_map hnodup hd he hblock]

/-- **What is reported**: the blocks of the uncovered texts, each one once. -/
theorem duplicateBlocks_uncovered (hc : Corpus files) (hmin : 0 < minLines)
    (hmax : minLines ≤ maxLines) (hocc : 0 < minOccurrences) :
    ∃ found : List (List String × DuplicateBlock),
      duplicateBlocks files (.of minLines maxLines minOccurrences) = .ok (found.map Prod.snd) ∧
      (found.map Prod.fst).Nodup ∧
      (∀ text, text ∈ found.map Prod.fst ↔
        Uncovered files minLines maxLines minOccurrences text) ∧
      ∀ e ∈ found, IsBlockOf files minLines e.1 e.2 := by
  obtain ⟨all, hall, hlists⟩ := candidateBlocks_ok hc hmin hmax hocc
  obtain ⟨found, hsub, hfound⟩ := List.sublist_map_iff.1 (dropCovered_sublist (all.map Prod.snd))
  refine ⟨found, ?_, hlists.nodup.sublist (hsub.map Prod.fst), fun text => ?_, fun e he => ?_⟩
  · rw [duplicateBlocks_eq hall, hfound]
  · constructor
    · intro h
      obtain ⟨e, he, rfl⟩ := List.mem_map.1 h
      rw [hlists.uncovered_iff hc hmin hocc (hsub.subset he), hfound]
      exact List.mem_map_of_mem he
    · intro h
      obtain ⟨e, he, rfl⟩ := List.mem_map.1 ((hlists.texts text).2 h.repeated)
      rw [hlists.uncovered_iff hc hmin hocc he, hfound] at h
      obtain ⟨d, hd, hde⟩ := List.mem_map.1 h
      have hnodup := hlists.nodup_blocks hc hmin hocc
      rw [← List.inj_on_of_nodup_map hnodup (hsub.subset hd) he hde]
      exact List.mem_map_of_mem hd
  · exact hlists.blocks e (hsub.subset he)

/-! ## The same files in another order -/

theorem Corpus.perm (hc : Corpus files) (hperm : files.Perm others) : Corpus others where
  paths := (hperm.map NormalizedFile.path).nodup_iff.1 hc.paths
  oneLine f hf := hc.oneLine f (hperm.mem_iff.2 hf)
  increasing f hf := hc.increasing f (hperm.mem_iff.2 hf)

section
variable (hmem : ∀ f, f ∈ files ↔ f ∈ others) {text : List String}

include hmem

theorem OccursExactly.congr {ps : List Position} (h : OccursExactly files text ps) :
    OccursExactly others text ps :=
  ⟨h.nodup, fun p => (h.mem p).trans (OccursAt.congr hmem)⟩

theorem CannotGrow.congr (h : CannotGrow files text) : CannotGrow others text := by
  rcases h with ⟨f, hf, hends⟩ | ⟨p, q, l, m, hlm, hp, hq⟩
  · exact .inl ⟨f, (hmem f).1 hf, hends⟩
  · exact .inr ⟨p, q, l, m, hlm, (OccursAt.congr hmem).1 hp, (OccursAt.congr hmem).1 hq⟩

theorem Repeated.congr (h : Repeated files minLines maxLines minOccurrences text) :
    Repeated others minLines maxLines minOccurrences text where
  least := h.least
  most := h.most
  often := by
    obtain ⟨ps, hps, hlen⟩ := h.often
    exact ⟨ps, hps.congr hmem, hlen⟩
  whole p hp := (OccursAt.congr hmem).1 (h.whole p ((OccursAt.congr hmem).2 hp))
  full hmore := (h.full hmore).congr hmem

theorem IsBlockOf.congr {b : DuplicateBlock} (h : IsBlockOf files minLines text b) :
    IsBlockOf others minLines text b where
  length := h.length
  hash := h.hash
  distinct := h.distinct
  places := by
    obtain ⟨ps, hps, hplaces⟩ := h.places
    exact ⟨ps, hps.congr hmem, hplaces.imp fun _ _ h => (PlaceOf.congr hmem).1 h⟩

theorem Uncovered.congr (h : Uncovered files minLines maxLines minOccurrences text) :
    Uncovered others minLines maxLines minOccurrences text := by
  have hback : ∀ f, f ∈ others ↔ f ∈ files := fun f => (hmem f).symm
  refine ⟨h.repeated.congr hmem, fun t b c ht hb hcb hcovers => ?_⟩
  exact h.alone t b c (ht.congr hback) (hb.congr hback) (hcb.congr hback) hcovers

end

/-- **File order**: the same files in another order have the same blocks, up to the order of the
blocks and that of the places of each. -/
theorem duplicateBlocks_perm (hc : Corpus files) (hperm : files.Perm others) (hmin : 1 ≤ minLines)
    (hmax : minLines ≤ maxLines) (hocc : 1 ≤ minOccurrences) :
    ∃ blocks blocks' reordered,
      duplicateBlocks files (.of minLines maxLines minOccurrences) = .ok blocks ∧
      duplicateBlocks others (.of minLines maxLines minOccurrences) = .ok blocks' ∧
      List.Forall₂ DuplicateBlock.SameAs blocks reordered ∧ reordered.Perm blocks' ∧
      blocks.length = blocks'.length := by
  have hmem : ∀ f, f ∈ others ↔ f ∈ files := fun f => hperm.mem_iff.symm
  obtain ⟨found, hfound, hnodup, htexts, hblocks⟩ := duplicateBlocks_uncovered hc hmin hmax hocc
  obtain ⟨found', hfound', hnodup', htexts', hblocks'⟩ :=
    duplicateBlocks_uncovered (hc.perm hperm) hmin hmax hocc
  have hsame : (found.map Prod.fst).Perm (found'.map Prod.fst) := by
    rw [List.perm_ext_iff_of_nodup hnodup hnodup']
    intro text
    rw [htexts, htexts']
    exact ⟨fun h => h.congr fun f => (hmem f).symm, fun h => h.congr hmem⟩
  have hpairs : List.Forall₂ (IsBlockOf files minLines) (found'.map Prod.fst)
      (found'.map Prod.snd) := by
    rw [List.forall₂_map_left_iff, List.forall₂_map_right_iff, List.forall₂_same]
    exact fun e he => (hblocks' e he).congr hmem
  -- The texts of the first run, paired with the blocks of the second one.
  obtain ⟨reordered, hreordered, hperm'⟩ := List.perm_comp_forall₂ hsame hpairs
  have hsames : List.Forall₂ DuplicateBlock.SameAs (found.map Prod.snd) reordered := by
    rw [List.forall₂_map_left_iff] at hreordered ⊢
    exact ((List.forall₂_and_left _ _).2 ⟨hblocks, hreordered⟩).imp fun _ _ h =>
      h.1.sameAs hc h.2
  exact ⟨_, _, reordered, hfound, hfound', hsames, hperm',
    hsames.length_eq.trans hperm'.length_eq⟩

/-- Where the two files are given the other way round, the places of their block are too. -/
theorem duplicateBlocks_perm_twins : ∃ b c, duplicateBlocks twinFiles (.of 2 5 2) = .ok [b] ∧
    duplicateBlocks twinFiles.reverse (.of 2 5 2) = .ok [c] ∧ b.SameAs c ∧
    b.occurrences = c.occurrences.reverse ∧ b.occurrences ≠ c.occurrences := by
  obtain ⟨blocks, blocks', reordered, hblocks, hblocks', hsame, hperm, -⟩ :=
    @duplicateBlocks_perm twinFiles twinFiles.reverse 2 5 2 twinFiles_corpus
      twinFiles.reverse_perm.symm (by decide) (by decide) (by decide)
  have hplaces : (duplicateBlocks twinFiles (.of 2 5 2)).toOption.map
      (List.map DuplicateBlock.occurrences) = some [[⟨"a.py", 1, 4⟩, ⟨"b.py", 3, 7⟩]] := by
    decide +kernel
  have hplaces' : (duplicateBlocks twinFiles.reverse (.of 2 5 2)).toOption.map
      (List.map DuplicateBlock.occurrences) = some [[⟨"b.py", 3, 7⟩, ⟨"a.py", 1, 4⟩]] := by
    decide +kernel
  rw [hblocks] at hplaces
  rw [hblocks'] at hplaces'
  obtain ⟨b, rfl, hb⟩ := List.map_eq_singleton_iff.1 (Option.some.inj hplaces)
  obtain ⟨c, rfl, hcb⟩ := List.map_eq_singleton_iff.1 (Option.some.inj hplaces')
  rw [List.perm_singleton.1 hperm, List.forall₂_cons] at hsame
  refine ⟨b, c, hblocks, hblocks', hsame.1, ?_, ?_⟩
  · rw [hb, hcb]
    rfl
  · rw [hb, hcb]
    decide

end EvidenceLock
