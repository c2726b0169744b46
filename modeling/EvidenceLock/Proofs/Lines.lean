import EvidenceLock.Text.Lines
import EvidenceLock.Proofs.Edit

/-!
# Lines that are written and split again

Lines are what stands between line feeds, each one perhaps without a carriage return at its end
(`Text.forall₂_splitLines`), so lines that are written to a text are read from it again
(`Text.forall₂_readAs`), and a text among them is split by itself
(`Text.splitLines_joinLines_append`).

Between two patches of one file the lines are written to a text and that text is split again. This
is an edit of its own (`Edit.apply_resplit`): a line that ends in a carriage return loses it, and
where no line was left there is an empty one.
-/

namespace EvidenceLock

namespace Text

theorem splitLines_go_ne_nil (line cs : List Char) : splitLines.go line cs ≠ [] := by
  fun_induction splitLines.go line cs with
  | case1 => exact List.cons_ne_nil _ _
  | case2 => exact List.cons_ne_nil _ _
  | case3 => exact List.cons_ne_nil _ _
  | case4 _ _ _ _ _ ih => exact ih

/-- All characters but the ends of lines go to the line. -/
theorem splitLines_go_cons {line r : List Char} {c : Char} (hlf : c ≠ '\n')
    (hcrlf : c = '\r' → r.head? ≠ some '\n') :
    splitLines.go line (c :: r) = splitLines.go (c :: line) r := by
  rw [splitLines.go]
  · exact hlf
  · rintro r' hcr rfl
    exact hcrlf hcr rfl

theorem splitLines_go_cons_append {line r tail : List Char} {c : Char} (hlf : c ≠ '\n')
    (hcrlf : ∀ r', c = '\r' → r = '\n' :: r' → False)
    (hend : c = '\r' → r = [] → tail.head? ≠ some '\n') :
    splitLines.go line (c :: (r ++ tail)) = splitLines.go (c :: line) (r ++ tail) := by
  refine splitLines_go_cons hlf fun hcr hhead => ?_
  cases r with
  | nil => exact hend hcr rfl hhead
  | cons d r =>
    cases hhead
    exact hcrlf r hcr rfl

/-- What comes after a line feed is split by itself. -/
theorem splitLines_go_append_lf (line a b : List Char) :
    splitLines.go line (a ++ '\n' :: b) =
      (splitLines.go line (a ++ ['\n'])).dropLast ++ splitLines.go [] b := by
  fun_induction splitLines.go line a with
  | case1 line => simp [splitLines.go]
  | case2 line r ih =>
    simp only [List.cons_append, splitLines.go]
    rw [ih, List.dropLast_cons_of_ne_nil (splitLines_go_ne_nil _ _), List.cons_append]
  | case3 line r ih =>
    simp only [List.cons_append, splitLines.go]
    rw [ih, List.dropLast_cons_of_ne_nil (splitLines_go_ne_nil _ _), List.cons_append]
  | case4 line c r hlf hcrlf ih =>
    -- A carriage return at the very end makes one break of the line together with the line feed.
    by_cases hc : c = '\r' ∧ r = []
    · obtain ⟨rfl, rfl⟩ := hc
      simp [splitLines.go]
    · have hgo : ∀ t, splitLines.go line (c :: (r ++ '\n' :: t)) =
          splitLines.go (c :: line) (r ++ '\n' :: t) := fun t =>
        splitLines_go_cons_append hlf hcrlf fun hcr hr => absurd ⟨hcr, hr⟩ hc
      rw [List.cons_append, List.cons_append, hgo, hgo, ih]

/-- The characters hold no end of a line. -/
def OneLine (cs : List Char) : Prop := ∀ c ∈ cs, c ≠ '\n' ∧ c ≠ '\r'

theorem splitLines_go_oneLine {line cs : List Char} (h : OneLine cs) :
    splitLines.go line cs = [line.reverse ++ cs] ∧
      ∀ r, splitLines.go line (cs ++ '\n' :: r) = (line.reverse ++ cs) :: splitLines.go [] r := by
  induction cs generalizing line with
  | nil => simp [splitLines.go]
  | cons c cs ih =>
    obtain ⟨hlf, hcr⟩ := h c List.mem_cons_self
    have hgo : ∀ t, splitLines.go line (c :: t) = splitLines.go (c :: line) t := fun t =>
      splitLines_go_cons hlf fun hc => absurd hc hcr
    obtain ⟨hend, hnext⟩ := @ih (c :: line) fun d hd => h d (List.mem_cons_of_mem c hd)
    rw [List.reverse_cons, List.append_assoc, List.singleton_append] at hend hnext
    refine ⟨by rw [hgo, hend], fun r => ?_⟩
    rw [List.cons_append, hgo, hnext]

theorem toList_joinLines (ls : List String) :
    (joinLines ls).toList = ['\n'].intercalate (ls.map String.toList) := by
  rw [joinLines, String.toList_intercalate]
  rfl

/-- Lines without line feeds are found again where their text is split at line feeds. -/
theorem splitOn_joinLines {ls : List String} (hne : ls ≠ []) (hls : ∀ l ∈ ls, '\n' ∉ l.toList) :
    (joinLines ls).toList.splitOn '\n' = ls.map String.toList := by
  rw [toList_joinLines]
  refine List.splitOn_intercalate '\n' (fun l hl => ?_) (by simpa using hne)
  obtain ⟨s, hs, rfl⟩ := List.mem_map.1 hl
  exact hls s hs

/-- Lines without line feeds are determined by their text. -/
theorem joinLines_injective {ls ms : List String} (hls : ls ≠ []) (hms : ms ≠ [])
    (hl : ∀ l ∈ ls, '\n' ∉ l.toList) (hm : ∀ m ∈ ms, '\n' ∉ m.toList)
    (h : joinLines ls = joinLines ms) : ls = ms := by
  have hchars : ls.map String.toList = ms.map String.toList := by
    rw [← splitOn_joinLines hls hl, ← splitOn_joinLines hms hm, h]
  exact List.map_injective_iff.2 (fun _ _ => String.toList_inj.1) hchars

/-- A line that is written may come back without a carriage return at its end. -/
def ReadAs (written read : List Char) : Prop := read = written ∨ written = read ++ ['\r']

theorem ReadAs.eq {written read : List Char} (h : ReadAs written read)
    (hend : written.getLast? ≠ some '\r') : read = written := by
  rcases h with h | rfl
  · exact h
  · exact absurd (by simp) hend

theorem ReadAs.of_cons {c : Char} {written read : List Char} (h : ReadAs (c :: written) read)
    (hc : c ≠ '\r') : ∃ tail, read = c :: tail ∧ ReadAs written tail := by
  rcases h with rfl | h
  · exact ⟨written, rfl, .inl rfl⟩
  · cases read with
    | nil => exact absurd (List.cons.inj h).1 hc
    | cons d tail =>
      obtain ⟨rfl, htail⟩ := List.cons.inj h
      exact ⟨tail, rfl, .inr htail⟩

theorem ReadAs.prefix_of {written read : List Char} (h : ReadAs written read) : read <+: written := by
  rcases h with rfl | rfl
  · exact List.prefix_refl _
  · exact List.prefix_append _ _

theorem eq_of_forall₂_readAs {written read : List (List Char)}
    (h : List.Forall₂ ReadAs written read) (hend : ∀ w ∈ written, w.getLast? ≠ some '\r') :
    read = written := by
  induction h with
  | nil => rfl
  | cons hr _ ih =>
    rw [hr.eq (hend _ List.mem_cons_self), ih fun w hw => hend w (List.mem_cons_of_mem _ hw)]

/-- What stands before a line feed is one line, read with or without a carriage return. -/
theorem splitLines_go_line {line cs : List Char} (h : '\n' ∉ cs) (r : List Char) :
    ∃ l, ReadAs (line.reverse ++ cs) l ∧
      splitLines.go line (cs ++ '\n' :: r) = l :: splitLines.go [] r := by
  induction cs generalizing line with
  | nil => exact ⟨line.reverse, .inl (List.append_nil _).symm, rfl⟩
  | cons c cs ih =>
    by_cases hc : c = '\r' ∧ cs = []
    · obtain ⟨rfl, rfl⟩ := hc
      exact ⟨line.reverse, .inr rfl, rfl⟩
    · have hgo : splitLines.go line (c :: (cs ++ '\n' :: r)) =
          splitLines.go (c :: line) (cs ++ '\n' :: r) := by
        refine splitLines_go_cons_append ?_ ?_ fun hcr hcs => absurd ⟨hcr, hcs⟩ hc
        · rintro rfl
          exact h List.mem_cons_self
        · rintro r' - rfl
          exact h (List.mem_cons_of_mem c List.mem_cons_self)
      obtain ⟨l, hl, hsplit⟩ := @ih (c :: line) (List.not_mem_of_not_mem_cons h)
      rw [List.reverse_cons, List.append_assoc, List.singleton_append] at hl
      exact ⟨l, hl, by rw [List.cons_append, hgo, hsplit]⟩

/-- Lines are what stands between line feeds, each one perhaps without a carriage return at its
end. -/
theorem forall₂_splitLines (cs : List Char) :
    List.Forall₂ ReadAs (cs.splitOn '\n') (splitLines cs) := by
  have hid : ∀ pieces : List (List Char), pieces.modifyHead ([] ++ ·) = pieces := by
    intro pieces
    cases pieces <;> rfl
  have hgo : ∀ line, List.Forall₂ ReadAs ((cs.splitOn '\n').modifyHead (line.reverse ++ ·))
      (splitLines.go line cs) := by
    intro line
    unfold List.splitOn
    fun_induction splitLines.go line cs with
    | case1 line => exact .cons (.inl (List.append_nil _).symm) .nil
    | case2 line r ih =>
      rw [List.reverse_nil, hid] at ih
      exact .cons (.inl (List.append_nil _).symm) ih
    | case3 line r ih =>
      rw [List.reverse_nil, hid] at ih
      exact .cons (.inr rfl) ih
    | case4 line c r hlf hcrlf ih =>
      have hpieces : (List.splitOnP (· == '\n') (c :: r)).modifyHead (line.reverse ++ ·) =
          (List.splitOnP (· == '\n') r).modifyHead ((c :: line).reverse ++ ·) := by
        rw [List.splitOnP_cons_eq_if_modifyHead, if_neg (by simpa using hlf)]
        cases List.splitOnP (· == '\n') r <;> simp
      rw [hpieces]
      exact ih
  have hlines := hgo []
  rwa [List.reverse_nil, hid] at hlines

/-- **Lines that are written are read again**, each one perhaps without its carriage return. -/
theorem forall₂_readAs {ls : List String} (hne : ls ≠ []) (hls : ∀ l ∈ ls, '\n' ∉ l.toList) :
    List.Forall₂ ReadAs (ls.map String.toList) (splitLines (joinLines ls).toList) := by
  rw [← splitOn_joinLines hne hls]
  exact forall₂_splitLines _

theorem getLast?_append_ne {as bs : List Char} (ha : as.getLast? ≠ some '\r')
    (hb : bs.getLast? ≠ some '\r') : (as ++ bs).getLast? ≠ some '\r' := by
  rw [List.getLast?_append]
  cases hlast : bs.getLast? with
  | none => simpa using ha
  | some c => simpa [hlast] using hb

/-- A line feed after the last line adds an empty one. -/
theorem splitLines_go_concat_lf {line cs : List Char} (h : cs.getLast? ≠ some '\r') :
    splitLines.go line (cs ++ ['\n']) = splitLines.go line cs ++ [[]] := by
  have htail : ∀ {c : Char} {r : List Char}, (c :: r).getLast? ≠ some '\r' →
      r.getLast? ≠ some '\r' := by
    intro c r hc hr
    rw [List.getLast?_cons, hr] at hc
    exact hc rfl
  fun_induction splitLines.go line cs with
  | case1 line => rfl
  | case2 line r ih =>
    rw [List.cons_append, splitLines.go, ih (htail h), List.cons_append]
  | case3 line r ih =>
    rw [List.cons_append, List.cons_append, splitLines.go, ih (htail (htail h)), List.cons_append]
  | case4 line c r hlf hcrlf ih =>
    have hgo : splitLines.go line (c :: (r ++ ['\n'])) = splitLines.go (c :: line) (r ++ ['\n']) := by
      refine splitLines_go_cons_append hlf hcrlf ?_
      rintro rfl rfl
      exact absurd rfl h
    rw [List.cons_append, hgo, ih (htail h)]

/-- **A text among lines** is split by itself, unless its last line ends in a carriage return. -/
theorem splitLines_joinLines_append {before behind : List String} {text : String}
    (hlf : ∀ l ∈ before ++ behind, '\n' ∉ l.toList)
    (hend : behind = [] ∨ text.toList.getLast? ≠ some '\r') :
    ∃ first last, List.Forall₂ ReadAs (before.map String.toList) first ∧
      List.Forall₂ ReadAs (behind.map String.toList) last ∧
      splitLines (joinLines (before ++ text :: behind)).toList =
        first ++ splitLines text.toList ++ last := by
  induction before with
  | nil =>
    cases behind with
    | nil =>
      refine ⟨[], [], .nil, .nil, ?_⟩
      rw [List.nil_append, joinLines, String.intercalate_singleton, List.nil_append, List.append_nil]
    | cons m behind =>
      have hcr := hend.resolve_left (List.cons_ne_nil m behind)
      have hread := forall₂_readAs (List.cons_ne_nil m behind) hlf
      refine ⟨[], _, .nil, hread, ?_⟩
      have htext : (joinLines (text :: m :: behind)).toList =
          text.toList ++ '\n' :: (joinLines (m :: behind)).toList := by
        simp [joinLines, String.intercalate_cons_cons]
      rw [List.nil_append, List.nil_append, htext, splitLines, splitLines_go_append_lf,
        splitLines_go_concat_lf hcr, List.dropLast_concat]
      rfl
  | cons b before ih =>
    obtain ⟨first, last, hfirst, hlast, hsplit⟩ :=
      ih fun l hl => hlf l (List.mem_cons_of_mem b hl)
    have hb : '\n' ∉ b.toList := hlf b List.mem_cons_self
    obtain ⟨l, hl, hline⟩ :=
      @splitLines_go_line [] _ hb (joinLines (before ++ text :: behind)).toList
    refine ⟨l :: first, last, .cons hl hfirst, hlast, ?_⟩
    have htext : (joinLines (b :: (before ++ text :: behind))).toList =
        b.toList ++ '\n' :: (joinLines (before ++ text :: behind)).toList := by
      cases before with
      | nil => simp [joinLines, String.intercalate_cons_cons]
      | cons c before => simp [joinLines, String.intercalate_cons_cons]
    rw [List.cons_append, htext, splitLines, hline, ← splitLines, hsplit, List.cons_append,
      List.cons_append]

/-- Lines that end in no carriage return are read again as they are. -/
theorem splitLines_joinLines {ls : List (List Char)} (hne : ls ≠ [])
    (hls : ∀ l ∈ ls, '\n' ∉ l ∧ l.getLast? ≠ some '\r') :
    splitLines (joinLines (ls.map String.ofList)).toList = ls := by
  have hchars : (ls.map String.ofList).map String.toList = ls := by simp
  have hlf : ∀ l ∈ ls.map String.ofList, '\n' ∉ l.toList := by
    intro l hl
    obtain ⟨cs, hcs, rfl⟩ := List.mem_map.1 hl
    rw [String.toList_ofList]
    exact (hls cs hcs).1
  have hread := forall₂_readAs (by simpa using hne) hlf
  rw [hchars] at hread
  exact eq_of_forall₂_readAs hread fun l hl => (hls l hl).2

theorem joinLines_concat_nil {ls : List String} (hne : ls ≠ []) :
    joinLines (ls ++ [""]) = joinLines ls ++ "\n" := by
  unfold joinLines
  induction ls with
  | nil => exact absurd rfl hne
  | cons l ls ih =>
    cases ls with
    | nil => simp [String.intercalate_cons_cons]
    | cons m ls =>
      rw [List.cons_append, List.cons_append, String.intercalate_cons_cons, ← List.cons_append,
        ih (List.cons_ne_nil m ls), String.intercalate_cons_cons]
      simp only [String.append_assoc]

theorem not_mem_of_mem_splitLines_go {line cs l : List Char} (hline : '\n' ∉ line)
    (hl : l ∈ splitLines.go line cs) : '\n' ∉ l := by
  fun_induction splitLines.go line cs with
  | case1 line =>
    rw [List.mem_singleton.1 hl, List.mem_reverse]
    exact hline
  | case2 line r ih =>
    rcases List.mem_cons.1 hl with rfl | hl
    · rwa [List.mem_reverse]
    · exact ih List.not_mem_nil hl
  | case3 line r ih =>
    rcases List.mem_cons.1 hl with rfl | hl
    · rwa [List.mem_reverse]
    · exact ih List.not_mem_nil hl
  | case4 line c r hlf _ ih =>
    refine ih (fun h => ?_) hl
    rcases List.mem_cons.1 h with h | h
    · exact hlf h.symm
    · exact hline h

theorem not_mem_of_mem_linesOf {text l : String} (hl : l ∈ linesOf text) : '\n' ∉ l.toList := by
  obtain ⟨cs, hcs, rfl⟩ := List.mem_map.1 hl
  rw [String.toList_ofList]
  exact not_mem_of_mem_splitLines_go List.not_mem_nil hcs

theorem linesOf_joinLines_cons (l m : String) (ls : List String) :
    linesOf (joinLines (l :: m :: ls)) =
      (linesOf (l ++ "\n")).dropLast ++ linesOf (joinLines (m :: ls)) := by
  have htext : (joinLines (l :: m :: ls)).toList =
      l.toList ++ '\n' :: (joinLines (m :: ls)).toList := by
    simp [joinLines, String.intercalate_cons_cons]
  have hline : (l ++ "\n").toList = l.toList ++ ['\n'] := by simp
  unfold linesOf splitLines
  rw [htext, hline, splitLines_go_append_lf, List.map_append, List.map_dropLast]

end Text

namespace Edit

open EvidenceLock.Text

/-- Puts `parts` in the place of a line; the line is kept where it is the only one of them. -/
def instead (l : String) (parts : List String) : Edit :=
  if parts = [l] then [.keep] else parts.map .put ++ [.drop]

/-- What becomes of lines that are written to a text and split again. -/
def resplit : List String → Edit
  | [] => [.put ""]
  | [l] => instead l (linesOf l)
  | l :: m :: ls => instead l (linesOf (l ++ "\n")).dropLast ++ resplit (m :: ls)

theorem apply_map_put (parts : List String) (e : Edit) (ls : List String) :
    apply (parts.map .put ++ e) ls = parts ++ apply e ls := by
  induction parts with
  | nil => rfl
  | cons t parts ih => rw [List.map_cons, List.cons_append, apply_put, ih, List.cons_append]

theorem apply_instead (l : String) (parts : List String) (e : Edit) (ls : List String) :
    apply (instead l parts ++ e) (l :: ls) = parts ++ apply e ls := by
  unfold instead
  split
  · rename_i h
    rw [h]
    rfl
  · rw [List.append_assoc, apply_map_put, List.singleton_append, apply_drop]

theorem reach_map_put (parts : List String) : reach (parts.map .put) = 0 := by
  induction parts with
  | nil => rfl
  | cons t parts ih => exact ih

theorem reach_instead (l : String) (parts : List String) : reach (instead l parts) = 1 := by
  unfold instead
  split
  · rfl
  · rw [reach_append, reach_map_put]
    rfl

theorem reach_resplit (ls : List String) : reach (resplit ls) ≤ ls.length := by
  fun_induction resplit ls with
  | case1 => exact Nat.le_refl 0
  | case2 l => exact Nat.le_of_eq (reach_instead l _)
  | case3 l m ls ih =>
    rw [reach_append, reach_instead, List.length_cons]
    omega

/-- **Lines that are split again** are the lines after `resplit`. -/
theorem apply_resplit (ls : List String) :
    apply (resplit ls) ls = linesOf (joinLines ls) := by
  fun_induction resplit ls with
  | case1 => rfl
  | case2 l =>
    have h := apply_instead l (linesOf l) [] []
    rw [List.append_nil, apply_nil, List.append_nil] at h
    rw [h, joinLines, String.intercalate_singleton]
  | case3 l m ls ih => rw [apply_instead, ih, linesOf_joinLines_cons]

end Edit

end EvidenceLock
