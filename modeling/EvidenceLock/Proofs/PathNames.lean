import EvidenceLock.Path

/-!
# The names in a path

What a path leads to is said by its names, and joining, normalizing and tidying a path keep them:
`names_join`, `names_normalize`, `names_tidy`. A part that leads upwards is a name as well, and
normal form takes it away together with the one before it; without such a part nothing is lost. A
path under a folder has the names of both (`names_under`), so that a null character in it comes from
one of them (`holdsNull_resolveUnder`).
-/

namespace EvidenceLock

open EvidenceLock.Text

theorem Text.splitOnChar_eq (sep : Char) (cs : List Char) :
    splitOnChar sep cs = cs.splitOn sep := by
  have hgo (piece cs : List Char) :
      splitOnChar.go sep piece cs = List.splitOnPPrepend (· == sep) cs piece := by
    induction cs generalizing piece with
    | nil => rfl
    | cons c cs ih =>
      rw [splitOnChar.go, List.splitOnPPrepend_cons_eq_if, ih, ← List.splitOnP_eq_splitOnPPrepend,
        ih, List.splitOnP_eq_splitOnPPrepend]
      simp
  exact hgo [] cs

namespace Path

/-- The part names something. -/
structure IsName (part : List Char) : Prop where
  ne_nil : part ≠ []
  ne_here : part ≠ here
  plain : '/' ∉ part

theorem split_eq (p : List Char) : split p = p.splitOn '/' := splitOnChar_eq '/' p

theorem names_eq (p : List Char) :
    names p = (p.splitOn '/').filter fun part => !part.isEmpty && part != here := by
  rw [names, split_eq]

theorem not_mem_of_mem_splitOn {p part : List Char} (h : part ∈ p.splitOn '/') : '/' ∉ part := by
  induction p generalizing part with
  | nil =>
    rw [List.splitOn_nil, List.mem_singleton] at h
    simp [h]
  | cons c p ih =>
    rw [List.splitOn_cons_eq_if_modifyHead] at h
    split at h
    · rcases List.mem_cons.1 h with rfl | h
      · simp
      · exact ih h
    · rename_i hc
      obtain ⟨first, rest, hsplit⟩ := List.exists_cons_of_ne_nil (List.splitOn_ne_nil '/' p)
      rw [hsplit, List.modifyHead_cons] at h
      rw [hsplit] at ih
      rcases List.mem_cons.1 h with rfl | h
      · have hfirst := ih List.mem_cons_self
        have hne : '/' ≠ c := fun he => hc (beq_iff_eq.2 he.symm)
        simp [hfirst, hne]
      · exact ih (List.mem_cons_of_mem _ h)

theorem isName_of_mem_names {p part : List Char} (h : part ∈ names p) : IsName part := by
  rw [names_eq, List.mem_filter] at h
  obtain ⟨hmem, hname⟩ := h
  simp only [Bool.and_eq_true, Bool.not_eq_true', List.isEmpty_eq_false_iff, bne_iff_ne] at hname
  exact ⟨hname.1, hname.2, not_mem_of_mem_splitOn hmem⟩

@[simp] theorem names_nil : names [] = [] := rfl

theorem names_append_slash (a b : List Char) : names (a ++ '/' :: b) = names a ++ names b := by
  rw [names_eq, names_eq, names_eq, List.splitOn_append_cons_self, List.filter_append]

@[simp] theorem names_slash (b : List Char) : names ('/' :: b) = names b :=
  names_append_slash [] b

/-- Names joined by slashes are found again. -/
theorem names_join {ns : List (List Char)} (h : ∀ n ∈ ns, IsName n) : names (join ns) = ns := by
  by_cases hne : ns = []
  · subst hne
    rfl
  · rw [names_eq, join, List.splitOn_intercalate '/' (fun n hn => (h n hn).plain) hne,
      List.filter_eq_self]
    intro n hn
    simp [(h n hn).ne_nil, (h n hn).ne_here]

/-- What a path starts with is slashes, and names nothing. -/
theorem names_rootOf_append (p q : List Char) : names (rootOf p ++ q) = names q := by
  unfold rootOf
  split <;> simp

/-- A tidy path has the names of the path. -/
theorem names_tidy (p : List Char) : names (tidy p) = names p := by
  have hjoin : names (rootOf p ++ join (names p)) = names p := by
    rw [names_rootOf_append, names_join fun _ => isName_of_mem_names]
  unfold tidy
  dsimp only
  split
  · -- Where nothing is left of a path it becomes a dot, which is no name.
    rename_i hempty
    rw [List.isEmpty_iff] at hempty
    rw [hempty, names_nil] at hjoin
    rw [← hjoin]
    rfl
  · exact hjoin

/-- A path under a folder has the names of both. -/
theorem names_under (dir p : List Char) : names (under dir p) = names dir ++ names p := by
  have hbelow : names (join (names p)) = names p := names_join fun _ => isName_of_mem_names
  have hbase := names_tidy dir
  unfold under
  dsimp only
  split
  · rename_i hnone
    rw [hbase, List.isEmpty_iff.1 hnone, List.append_nil]
  · split
    · rename_i hhere
      have hdir : names dir = [] := by
        rw [← hbase, hhere]
        rfl
      rw [hbelow, hdir, List.nil_append]
    · split
      · rename_i hslash
        obtain ⟨cs, hcs⟩ := List.getLast?_eq_some_iff.1 hslash
        rw [hcs] at hbase ⊢
        rw [List.append_assoc, List.singleton_append, names_append_slash, hbelow, ← hbase,
          names_append_slash, names_nil, List.append_nil]
      · rw [names_append_slash, hbase, hbelow]

/-! ## Normal form -/

theorem pushPart_of_ne_above {rooted : Bool} {stack : List (List Char)} {part : List Char}
    (h : part ≠ above) :
    pushPart rooted stack part =
      ([part].filter fun part => !part.isEmpty && part != here) ++ stack := by
  unfold pushPart
  by_cases hskip : part = [] ∨ part = here
  · rw [if_pos hskip]
    rcases hskip with rfl | rfl <;> rfl
  · rw [if_neg hskip, if_pos h]
    simp only [not_or] at hskip
    simp [hskip.1, hskip.2]

/-- Without parts that lead upwards the normal form only leaves out what names nothing. -/
theorem normalParts_eq {rooted : Bool} {parts : List (List Char)} (h : above ∉ parts) :
    normalParts rooted parts = parts.filter fun part => !part.isEmpty && part != here := by
  have hfold (stack : List (List Char)) : parts.foldl (pushPart rooted) stack =
      (parts.filter fun part => !part.isEmpty && part != here).reverse ++ stack := by
    induction parts generalizing stack with
    | nil => rfl
    | cons part parts ih =>
      rw [List.foldl_cons, pushPart_of_ne_above (fun he => h (he ▸ List.mem_cons_self)),
        ih (fun hmem => h (List.mem_cons_of_mem _ hmem))]
      by_cases hname : (!part.isEmpty && part != here) = true <;> simp [hname]
  rw [normalParts, hfold, List.append_nil, List.reverse_reverse]

/-- **Normal form keeps the names** of a path that does not lead upwards. -/
theorem names_normalize {p : List Char} (h : above ∉ names p) : names (normalize p) = names p := by
  have hsplit : above ∉ split p := fun hmem => h (List.mem_filter.2 ⟨hmem, rfl⟩)
  unfold normalize
  dsimp only
  rw [normalParts_eq hsplit]
  exact names_tidy p

/-! ## Characters -/

theorem mem_iff_splitOn {c : Char} (hc : c ≠ '/') (p : List Char) :
    c ∈ p ↔ ∃ part ∈ p.splitOn '/', c ∈ part := by
  induction p with
  | nil => simp
  | cons d p ih =>
    rw [List.splitOn_cons_eq_if_modifyHead, List.mem_cons, ih]
    split
    · rename_i hd
      have hne : c ≠ d := by
        rw [beq_iff_eq.1 hd]
        exact hc
      simp [hne]
    · obtain ⟨first, rest, hsplit⟩ := List.exists_cons_of_ne_nil (List.splitOn_ne_nil '/' p)
      rw [hsplit, List.modifyHead_cons]
      simp [or_assoc]

/-- A character that is neither a slash nor a dot belongs to a name. -/
theorem mem_iff_names {c : Char} (hslash : c ≠ '/') (hdot : c ≠ '.') (p : List Char) :
    c ∈ p ↔ ∃ n ∈ names p, c ∈ n := by
  rw [mem_iff_splitOn hslash, names_eq]
  constructor
  · rintro ⟨part, hpart, hc⟩
    refine ⟨part, List.mem_filter.2 ⟨hpart, ?_⟩, hc⟩
    have hhere : part ≠ here := by
      rintro rfl
      exact hdot (List.mem_singleton.1 hc)
    simp [List.ne_nil_of_mem hc, hhere]
  · rintro ⟨n, hn, hc⟩
    exact ⟨n, (List.mem_filter.1 hn).1, hc⟩

/-- A path under a folder holds a null character when the folder or the path does. -/
theorem holdsNull_resolveUnder (dir p : String) :
    holdsNull (resolveUnder dir p) = (holdsNull dir || holdsNull p) := by
  have hnames := fun q => @mem_iff_names '\x00' (by decide) (by decide) q
  rw [Bool.eq_iff_iff, Bool.or_eq_true, holdsNull, holdsNull, holdsNull, resolveUnder,
    String.toList_ofList, List.contains_iff_mem, List.contains_iff_mem, List.contains_iff_mem,
    hnames, hnames, hnames, names_under]
  simp only [List.mem_append, or_and_right, exists_or]

end Path

end EvidenceLock
