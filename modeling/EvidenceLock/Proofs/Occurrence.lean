import EvidenceLock.Proofs.Duplicate
import EvidenceLock.Proofs.Lines

/-!
# Where a text occurs

A text, given line by line, occurs at the positions of a list of files at which its lines stand one
after the other (`OccursAt`). A place names such a position by the numbers of the first and the last
line (`PlaceOf`). In a `Corpus` both say the same: a place lies inside another exactly when the
positions do (`Corpus.inside_iff`), and the windows that are grouped together are the positions at
which one text occurs (`Corpus.mem_windowGroups`).
-/

namespace EvidenceLock

open EvidenceLock.Text

/-- Files whose paths differ, with lines that hold no line feed and have increasing numbers. -/
structure Corpus (files : List NormalizedFile) : Prop where
  paths : (files.map NormalizedFile.path).Nodup
  oneLine : ∀ f ∈ files, ∀ l ∈ f.texts, '\n' ∉ l.toList
  increasing : ∀ f ∈ files, f.numbers.Pairwise (· < ·)

/-- The text stands in a file from the line with a given index on. -/
def OccursAt (files : List NormalizedFile) (text : List String) (p : Position) : Prop :=
  ∃ f ∈ files, f.path = p.1 ∧ text <+: f.texts.drop p.2

instance (files : List NormalizedFile) (text : List String) (p : Position) :
    Decidable (OccursAt files text p) :=
  inferInstanceAs (Decidable (∃ f ∈ files, f.path = p.1 ∧ text <+: f.texts.drop p.2))

/-- These are the positions at which a text occurs, each one once. -/
structure OccursExactly (files : List NormalizedFile) (text : List String)
    (ps : List Position) : Prop where
  nodup : ps.Nodup
  mem : ∀ p, p ∈ ps ↔ OccursAt files text p

/-- The place reaches from the number of the line at a position to that of the last one of `length`
lines. -/
def PlaceOf (files : List NormalizedFile) (length : Nat) (p : Position) (o : Occurrence) : Prop :=
  o.file = p.1 ∧ ∃ f ∈ files, f.path = p.1 ∧
    f.numbers[p.2]? = some o.first ∧ f.numbers[p.2 + length - 1]? = some o.last

/-- The lines of a file from a position on. -/
def linesFrom (files : List NormalizedFile) (p : Position) : List String :=
  ((linesAt files p.1).drop p.2).map NumberedLine.text

variable {files : List NormalizedFile}

/-! ## Lines and their texts -/

theorem exists_file_of_linesAt {path : String} (h : linesAt files path ≠ []) :
    ∃ f ∈ files, f.path = path ∧ linesAt files path = f.lines := by
  unfold linesAt at h ⊢
  cases hfound : files.reverse.find? fun g => g.path == path with
  | none => simp [hfound] at h
  | some f =>
    have hf := List.mem_reverse.1 (List.mem_of_find?_eq_some hfound)
    have hpath := List.find?_some (p := fun g : NormalizedFile => g.path == path) hfound
    exact ⟨f, hf, eq_of_beq hpath, rfl⟩

theorem lineAfter?_text (p : Position) (offset : Nat) :
    (lineAfter? files p offset).map NumberedLine.text = (linesFrom files p)[offset]? := by
  rw [lineAfter?, linesFrom, List.getElem?_map, List.getElem?_drop]

theorem fits_iff {length : Nat} {p : Position} (hpos : 0 < length) :
    Fits files length p ↔ length ≤ (linesFrom files p).length := by
  rw [Fits, linesFrom, List.length_map, List.length_drop]
  omega

theorem numberAt_ok {p : Position} {offset : Nat} {n : Int}
    (h : numberAt files p offset = .ok n) :
    ∃ line, (linesAt files p.1)[p.2 + offset]? = some line ∧ line.number = n := by
  unfold numberAt at h
  split at h
  · rename_i line hline
    exact ⟨line, hline, Except.ok.inj h⟩
  · cases h

/-- The place that is looked up for a position is the one of this position. -/
theorem occurrenceAt_ok {length : Nat} {p : Position} {o : Occurrence} (hpos : 0 < length)
    (h : occurrenceAt files length p = .ok o) : PlaceOf files length p o := by
  obtain ⟨first, hfirst, h⟩ := Outcome.bind_eq_ok.1 h
  obtain ⟨last, hlast, h⟩ := Outcome.bind_eq_ok.1 h
  cases h
  obtain ⟨l, hl, rfl⟩ := numberAt_ok hfirst
  obtain ⟨m, hm, rfl⟩ := numberAt_ok hlast
  have hne : linesAt files p.1 ≠ [] := by
    intro hnil
    rw [hnil] at hl
    cases hl
  obtain ⟨f, hf, hpath, hlines⟩ := exists_file_of_linesAt hne
  rw [hlines, Nat.add_zero] at hl
  rw [hlines, ← Nat.add_sub_assoc hpos] at hm
  refine ⟨rfl, f, hf, hpath, ?_, ?_⟩
  · rw [NormalizedFile.numbers, List.getElem?_map, hl, Option.map_some]
  · rw [NormalizedFile.numbers, List.getElem?_map, hm, Option.map_some]

theorem OccursAt.take {text : List String} {p : Position} (h : OccursAt files text p) (n : Nat) :
    OccursAt files (text.take n) p := by
  obtain ⟨f, hf, hpath, htext⟩ := h
  exact ⟨f, hf, hpath, (List.take_prefix n text).trans htext⟩

theorem OccursAt.exists_placeOf {text : List String} {p : Position} (h : OccursAt files text p)
    (hne : text ≠ []) : ∃ o, PlaceOf files text.length p o := by
  obtain ⟨f, hf, hpath, htext⟩ := h
  have hpos := List.length_pos_iff.2 hne
  have hle := htext.length_le
  rw [List.length_drop, NormalizedFile.texts, List.length_map] at hle
  have hfirst : p.2 < f.numbers.length := by
    rw [NormalizedFile.numbers, List.length_map]
    omega
  have hlast : p.2 + text.length - 1 < f.numbers.length := by
    rw [NormalizedFile.numbers, List.length_map]
    omega
  exact ⟨⟨p.1, f.numbers[p.2], f.numbers[p.2 + text.length - 1]⟩, rfl, f, hf, hpath,
    List.getElem?_eq_getElem hfirst, List.getElem?_eq_getElem hlast⟩

theorem OccursAt.congr {others : List NormalizedFile} (hmem : ∀ f, f ∈ files ↔ f ∈ others)
    {text : List String} {p : Position} : OccursAt files text p ↔ OccursAt others text p :=
  exists_congr fun f => and_congr_left fun _ => hmem f

theorem OccursExactly.perm {text : List String} {ps qs : List Position}
    (hps : OccursExactly files text ps) (hqs : OccursExactly files text qs) : ps.Perm qs :=
  (List.perm_ext_iff_of_nodup hps.nodup hqs.nodup).2 fun p => by rw [hps.mem, hqs.mem]

theorem PlaceOf.congr {others : List NormalizedFile} (hmem : ∀ f, f ∈ files ↔ f ∈ others)
    {length : Nat} {p : Position} {o : Occurrence} :
    PlaceOf files length p o ↔ PlaceOf others length p o :=
  and_congr_right fun _ => exists_congr fun f => and_congr_left fun _ => hmem f

namespace Corpus

theorem eq_of_path (hc : Corpus files) {f g : NormalizedFile} (hf : f ∈ files) (hg : g ∈ files)
    (h : f.path = g.path) : f = g :=
  List.inj_on_of_nodup_map hc.paths hf hg h

theorem consistent (hc : Corpus files) : Consistent files := by
  intro f hf g hg h
  rw [hc.eq_of_path hf hg h]

/-- Where a text occurs, the lines from this position on begin with it. -/
theorem occursAt_iff (hc : Corpus files) {text : List String} (hne : text ≠ []) {p : Position} :
    OccursAt files text p ↔ text <+: linesFrom files p := by
  constructor
  · rintro ⟨f, hf, hpath, h⟩
    rwa [linesFrom, ← hpath, linesAt_eq hc.consistent hf, List.map_drop]
  · intro h
    have hlines : linesAt files p.1 ≠ [] := by
      intro hnil
      rw [linesFrom, hnil, List.drop_nil, List.map_nil, List.prefix_nil] at h
      exact hne h
    obtain ⟨f, hf, hpath, hf'⟩ := exists_file_of_linesAt hlines
    refine ⟨f, hf, hpath, ?_⟩
    rwa [linesFrom, hf', List.map_drop] at h

theorem oneLine_of_occursAt (hc : Corpus files) {text : List String} {p : Position}
    (h : OccursAt files text p) : ∀ l ∈ text, '\n' ∉ l.toList := by
  obtain ⟨f, hf, -, htext⟩ := h
  exact fun l hl => hc.oneLine f hf l (List.mem_of_mem_drop (htext.subset hl))

/-- Texts that occur are determined by what is written of them. -/
theorem blockText_injective (hc : Corpus files) {s t : List String} (hs : s ≠ []) (ht : t ≠ [])
    {p q : Position} (hsp : OccursAt files s p) (htq : OccursAt files t q)
    (h : blockText s = blockText t) : s = t :=
  joinLines_injective hs ht (hc.oneLine_of_occursAt hsp) (hc.oneLine_of_occursAt htq) h

/-! ## Places -/

/-- The numbers of two lines of a file are ordered as the lines are. -/
theorem number_le_iff (hc : Corpus files) {f : NormalizedFile} (hf : f ∈ files) {i j : Nat}
    {m n : Int} (hi : f.numbers[i]? = some m) (hj : f.numbers[j]? = some n) : m ≤ n ↔ i ≤ j := by
  obtain ⟨hi', rfl⟩ := List.getElem?_eq_some_iff.1 hi
  obtain ⟨hj', rfl⟩ := List.getElem?_eq_some_iff.1 hj
  have hlt := List.pairwise_iff_getElem.1 (hc.increasing f hf)
  rcases Nat.lt_trichotomy i j with h | rfl | h
  · have := hlt i j hi' hj' h
    omega
  · simp
  · have := hlt j i hj' hi' h
    omega

/-- **Places and positions**: a place lies inside another when its lines are among those of the
other. -/
theorem inside_iff (hc : Corpus files) {m n : Nat} (hm : 0 < m) (hn : 0 < n) {p q : Position}
    {o o' : Occurrence} (ho : PlaceOf files m p o) (ho' : PlaceOf files n q o') :
    o.inside o' = true ↔ p.1 = q.1 ∧ q.2 ≤ p.2 ∧ p.2 + m ≤ q.2 + n := by
  obtain ⟨hp, f, hf, hpf, hfirst, hlast⟩ := ho
  obtain ⟨hq, g, hg, hqg, hfirst', hlast'⟩ := ho'
  simp only [Occurrence.inside, Bool.and_eq_true, beq_iff_eq, decide_eq_true_eq, and_assoc]
  rw [hp, hq, eq_comm]
  refine and_congr_right fun hpq => ?_
  have hfg : f = g := hc.eq_of_path hf hg (by rw [hpf, hqg, hpq])
  subst hfg
  rw [hc.number_le_iff hf hfirst' hfirst, hc.number_le_iff hf hlast hlast']
  omega

/-- Places of equally many lines are the same at one position only. -/
theorem position_eq_of_placeOf (hc : Corpus files) {n : Nat} (hn : 0 < n) {p q : Position}
    {o : Occurrence} (hp : PlaceOf files n p o) (hq : PlaceOf files n q o) : p = q := by
  have hself : o.inside o = true := by simp [Occurrence.inside]
  obtain ⟨hpath, hle, -⟩ := (hc.inside_iff hn hn hp hq).1 hself
  obtain ⟨-, hge, -⟩ := (hc.inside_iff hn hn hq hp).1 hself
  exact Prod.ext hpath (Nat.le_antisymm hge hle)

theorem place_eq_of_placeOf (hc : Corpus files) {n : Nat} {p : Position} {o o' : Occurrence}
    (h : PlaceOf files n p o) (h' : PlaceOf files n p o') : o = o' := by
  obtain ⟨file, first, last⟩ := o
  obtain ⟨file', first', last'⟩ := o'
  obtain ⟨hp, f, hf, hpf, hfirst, hlast⟩ := h
  obtain ⟨hp', g, hg, hpg, hfirst', hlast'⟩ := h'
  have hfg : f = g := hc.eq_of_path hf hg (by rw [hpf, hpg])
  subst hfg
  rw [hfirst] at hfirst'
  rw [hlast] at hlast'
  cases hfirst'
  cases hlast'
  rw [Occurrence.mk.injEq]
  exact ⟨hp.trans hp'.symm, rfl, rfl⟩

/-! ## Windows -/

section
variable {window : Nat}

/-- The windows of a text are the positions at which it occurs. -/
theorem mem_windows_iff (hc : Corpus files) (hpos : 0 < window) {text : List String}
    (hlen : text.length = window) {p q : Position} (hq : OccursAt files text q) :
    (blockText text, p) ∈ windows window files ↔ OccursAt files text p := by
  have hne : text ≠ [] := List.ne_nil_of_length_pos (by omega)
  rw [mem_windows]
  constructor
  · rintro ⟨f, hf, hpath, hle, hkey⟩
    have hwindow : OccursAt files ((f.texts.drop p.2).take window) p :=
      ⟨f, hf, hpath, List.take_prefix _ _⟩
    have hlen' : ((f.texts.drop p.2).take window).length = window := by
      rw [List.length_take, List.length_drop]
      omega
    have hne' : (f.texts.drop p.2).take window ≠ [] := List.ne_nil_of_length_pos (by omega)
    rwa [hc.blockText_injective hne hne' hq hwindow hkey]
  · rintro ⟨f, hf, hpath, htext⟩
    have hle := htext.length_le
    rw [List.length_drop] at hle
    refine ⟨f, hf, hpath, by omega, ?_⟩
    rw [← hlen, ← List.prefix_iff_eq_take.1 htext]

theorem nodup_windows (hc : Corpus files) : ((windows window files).map Prod.snd).Nodup := by
  rw [windows, List.map_flatMap, List.nodup_flatMap]
  constructor
  · intro f _
    rw [List.map_map]
    exact List.nodup_range.map fun i j h => (Prod.mk.inj h).2
  · refine (List.pairwise_map.1 hc.paths).imp fun hne => ?_
    -- Positions in two files differ in their paths.
    rintro ⟨path, i⟩ hf hg
    simp only [List.map_map, List.mem_map, Function.comp_apply, Prod.mk.injEq] at hf hg
    obtain ⟨_, _, hf, -⟩ := hf
    obtain ⟨_, _, hg, -⟩ := hg
    exact hne (hf.trans hg.symm)

/-- The values under the text of a window are its positions. -/
theorem occursExactly_windows (hc : Corpus files) (hpos : 0 < window) {text : List String}
    (hlen : text.length = window) {q : Position} (hq : OccursAt files text q) :
    OccursExactly files text
      (((windows window files).filter fun e => blockText text == e.1).map Prod.snd) where
  nodup := hc.nodup_windows.sublist (List.filter_sublist.map Prod.snd)
  mem p := by rw [Keyed.mem_values, hc.mem_windows_iff hpos hlen hq]

/-- **Windows by their text**: a group holds the positions at which one text occurs. -/
theorem mem_windowGroups (hc : Corpus files) (hpos : 0 < window) {key : String}
    {ps : List Position} (h : (key, ps) ∈ windowGroups window files) :
    ps ≠ [] ∧ ∃ text, text.length = window ∧ key = blockText text ∧
      OccursExactly files text ps := by
  rw [windowGroups_eq] at h
  obtain ⟨hne, hps⟩ := Keyed.mem_grouped.1 h
  obtain ⟨q, hq⟩ := List.exists_mem_of_ne_nil ps hne
  rw [hps, Keyed.mem_values] at hq
  obtain ⟨f, hf, hpath, hle, rfl⟩ := mem_windows.1 hq
  have hlen : ((f.texts.drop q.2).take window).length = window := by
    rw [List.length_take, List.length_drop]
    omega
  have hoccurs : OccursAt files ((f.texts.drop q.2).take window) q :=
    ⟨f, hf, hpath, List.take_prefix _ _⟩
  refine ⟨hne, _, hlen, rfl, ?_⟩
  rw [hps]
  exact hc.occursExactly_windows hpos hlen hoccurs

/-- Every text of the length of a window that occurs has a group. -/
theorem exists_windowGroup (hc : Corpus files) (hpos : 0 < window) {text : List String}
    (hlen : text.length = window) {p : Position} (hp : OccursAt files text p) :
    ∃ ps, (blockText text, ps) ∈ windowGroups window files ∧ OccursExactly files text ps := by
  rw [windowGroups_eq]
  refine ⟨_, Keyed.mem_grouped.2 ⟨?_, rfl⟩, hc.occursExactly_windows hpos hlen hp⟩
  exact List.ne_nil_of_mem (Keyed.mem_values.2 ((hc.mem_windows_iff hpos hlen hp).2 hp))

end

end Corpus

end EvidenceLock
