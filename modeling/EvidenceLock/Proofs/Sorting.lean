import Mathlib.Data.List.Perm.Basic
import Mathlib.Data.Prod.Lex
import Mathlib.Data.String.Basic

/-!
# Sorting by a key

A list that is sorted by a key has its elements in the order of their keys. What the key tells apart
is sorted in one way, in whatever order it came (`mergeSort_perm_eq`), and what is cut off at the
end stands behind what is kept (`not_lt_of_mem_drop`).
-/

namespace EvidenceLock

section
variable {α β κ : Type} [LinearOrder κ] {le : α → α → Bool} {key : α → κ}
  (hle : ∀ a b, le a b = true ↔ key a ≤ key b)

include hle

theorem pairwise_mergeSort_key (as : List α) :
    (as.mergeSort le).Pairwise fun a b => key a ≤ key b := by
  have htrans (a b c : α) (hab : le a b = true) (hbc : le b c = true) : le a c = true :=
    (hle a c).2 (((hle a b).1 hab).trans ((hle b c).1 hbc))
  have htotal (a b : α) : (le a b || le b a) = true := by
    rw [Bool.or_eq_true, hle, hle]
    exact le_total (key a) (key b)
  exact (List.pairwise_mergeSort htrans htotal as).imp fun hab => (hle _ _).1 hab

/-- Elements with different keys are in strict order. -/
theorem pairwise_lt_mergeSort {as : List α} (has : (as.map key).Nodup) :
    (as.mergeSort le).Pairwise fun a b => key a < key b := by
  have hnodup : ((as.mergeSort le).map key).Nodup :=
    ((List.mergeSort_perm as le).map key).nodup_iff.2 has
  exact (pairwise_mergeSort_key hle as).imp₂ (fun _ _ => lt_of_le_of_ne)
    (List.pairwise_map.1 hnodup)

/-- No element that is cut off has a smaller key than one that is kept. -/
theorem not_lt_of_mem_drop {as : List α} {n : Nat} {a b : α} (ha : a ∈ (as.mergeSort le).take n)
    (hb : b ∈ (as.mergeSort le).drop n) : ¬ key b < key a := by
  have hsorted := pairwise_mergeSort_key hle as
  rw [← List.take_append_drop n (as.mergeSort le), List.pairwise_append] at hsorted
  exact not_lt.2 (hsorted.2.2 a ha b hb)

/-- What depends on the key only is sorted in one way. -/
theorem map_mergeSort_perm {f : α → β} {as bs : List α} (hperm : as.Perm bs)
    (hf : ∀ a ∈ as, ∀ b ∈ as, key a = key b → f a = f b) :
    (as.mergeSort le).map f = (bs.mergeSort le).map f := by
  have hsorted : (as.mergeSort le).Perm (bs.mergeSort le) :=
    (List.mergeSort_perm as le).trans (hperm.trans (List.mergeSort_perm bs le).symm)
  -- The keys come in the same order, and so does what depends on them.
  have hkeys : (as.mergeSort le).map key = (bs.mergeSort le).map key :=
    (hsorted.map key).eq_of_pairwise (fun _ _ _ _ => le_antisymm)
      (List.pairwise_map.2 (pairwise_mergeSort_key hle as))
      (List.pairwise_map.2 (pairwise_mergeSort_key hle bs))
  refine List.ext_getElem (by rw [List.length_map, List.length_map, hsorted.length_eq]) ?_
  intro i ha hb
  rw [List.getElem_map, List.getElem_map]
  refine hf _ (List.mem_mergeSort.1 (List.getElem_mem _)) _
    (List.mem_mergeSort.1 (hsorted.mem_iff.2 (List.getElem_mem _))) ?_
  have hi : i < ((as.mergeSort le).map key).length := by rwa [List.length_map] at ha ⊢
  have hkey := List.getElem_of_eq hkeys hi
  rwa [List.getElem_map, List.getElem_map] at hkey

/-- What the key tells apart is sorted in one way. -/
theorem mergeSort_perm_eq {as bs : List α} (hperm : as.Perm bs)
    (hkey : ∀ a ∈ as, ∀ b ∈ as, key a = key b → a = b) : as.mergeSort le = bs.mergeSort le := by
  have hmap := map_mergeSort_perm hle (f := id) hperm hkey
  rwa [List.map_id, List.map_id] at hmap

end

end EvidenceLock
