import EvidenceLock.Language
import EvidenceLock.Proofs.PathNames
import Mathlib.Data.List.Basic
import Mathlib.Data.List.TakeWhile

/-!
# Paths as walks

A path without a root is a walk that starts at the root: a name leads down, `..` leads up, and what
names nothing leads nowhere. Its normal form is the place where the walk ends
(`normalize_of_walk`), and begins with `..` when the walk has left the root on its way
(`normalize_of_leaving`). A path that is seen from a folder is walked from this folder
(`walk_folder_append`).
-/

namespace EvidenceLock

open EvidenceLock.Text

namespace Path

/-- The part can stand for a file or a folder and for nothing else. -/
structure IsOrdinary (part : List Char) : Prop extends IsName part where
  not_above : ¬ above <+: part

theorem IsOrdinary.ne_above {part : List Char} (h : IsOrdinary part) : part ≠ above :=
  fun he => h.not_above (he ▸ List.prefix_rfl)

/-! ## Walking -/

/-- The place that one part of a path leads to; above the root there is none. A place is given by
the names that lead to it from the root. -/
def enter (place : List (List Char)) (part : List Char) : Option (List (List Char)) :=
  if part = [] ∨ part = here then some place
  else if part ≠ above then some (place ++ [part])
  else if place = [] then none
  else some place.dropLast

/-- The place that the parts of a path lead to one after the other. -/
def walk (place : List (List Char)) (parts : List (List Char)) : Option (List (List Char)) :=
  parts.foldlM enter place

@[simp] theorem walk_nil (place : List (List Char)) : walk place [] = some place := rfl

theorem walk_cons (place : List (List Char)) (part : List Char) (parts : List (List Char)) :
    walk place (part :: parts) = (enter place part).bind fun next => walk next parts :=
  List.foldlM_cons

theorem walk_append (place : List (List Char)) (parts others : List (List Char)) :
    walk place (parts ++ others) = (walk place parts).bind fun next => walk next others :=
  List.foldlM_append

theorem enter_of_isName {place : List (List Char)} {part : List Char} (h : IsName part)
    (habove : part ≠ above) : enter place part = some (place ++ [part]) := by
  rw [enter, if_neg (not_or.2 ⟨h.ne_nil, h.ne_here⟩), if_pos habove]

/-- Names lead down. -/
theorem walk_of_isName {place parts : List (List Char)} (hname : ∀ part ∈ parts, IsName part)
    (habove : above ∉ parts) : walk place parts = some (place ++ parts) := by
  induction parts generalizing place with
  | nil => rw [walk_nil, List.append_nil]
  | cons part parts ih =>
    obtain ⟨hpart, hparts⟩ := List.forall_mem_cons.1 hname
    obtain ⟨hne, habove⟩ := not_or.1 (mt List.mem_cons.2 habove)
    rw [walk_cons, enter_of_isName hpart (Ne.symm hne), Option.bind_some, ih hparts habove,
      List.append_assoc, List.singleton_append]

/-- Parts that lead up leave out as many names, if there are so many. -/
theorem walk_replicate_above (place : List (List Char)) (n : Nat) :
    walk place (List.replicate n above) =
      if n ≤ place.length then some (place.take (place.length - n)) else none := by
  induction n generalizing place with
  | zero => simp
  | succ n ih =>
    have hup : enter place above = if place = [] then none else some place.dropLast := by
      rw [enter, if_neg (by decide), if_neg (not_not_intro rfl)]
    rw [List.replicate_succ, walk_cons, hup]
    by_cases hroot : place = []
    · rw [if_pos hroot, hroot, Option.bind_none, if_neg (by simp)]
    · have hpos := List.length_pos_iff.2 hroot
      rw [if_neg hroot, Option.bind_some, ih, List.length_dropLast]
      by_cases hn : n + 1 ≤ place.length
      · rw [if_pos hn, if_pos (by omega), List.dropLast_eq_take, List.take_take,
          Nat.min_eq_left (by omega)]
        congr 2
        omega
      · rw [if_neg hn, if_neg (by omega)]

/-! ## The walk and the normal form -/

/-- A step of the walk is one of normalization, whose stack holds the place from its end on. -/
theorem pushPart_of_enter {place next : List (List Char)} {part : List Char}
    (habove : above ∉ place) (h : enter place part = some next) :
    pushPart false place.reverse part = next.reverse ∧ above ∉ next := by
  unfold enter at h
  unfold pushPart
  by_cases hskip : part = [] ∨ part = here
  · rw [if_pos hskip] at h ⊢
    cases h
    exact ⟨rfl, habove⟩
  · rw [if_neg hskip] at h ⊢
    by_cases hname : part ≠ above
    · rw [if_pos hname] at h ⊢
      cases h
      exact ⟨by simp, by simpa [habove] using Ne.symm hname⟩
    · rw [if_neg hname] at h ⊢
      -- What is on top of the stack is the last name of the place.
      rcases List.eq_nil_or_concat' place with rfl | ⟨outer, name, rfl⟩
      · cases h
      · rw [if_neg (by simp), List.dropLast_concat] at h
        cases h
        rw [List.mem_append, List.mem_singleton, not_or] at habove
        rw [List.reverse_concat]
        exact ⟨if_neg (Ne.symm habove.2), habove.1⟩

theorem pushPart_of_leaving {place : List (List Char)} {part : List Char}
    (h : enter place part = none) : pushPart false place.reverse part = [above] := by
  unfold enter at h
  unfold pushPart
  split at h
  · cases h
  · rename_i hskip
    rw [if_neg hskip]
    split at h
    · cases h
    · rename_i hname
      split at h
      · rename_i hroot
        rw [if_neg hname, hroot]
        rfl
      · cases h

/-- What has led out of the root stays there. -/
theorem getLast?_pushPart {stack : List (List Char)} (h : stack.getLast? = some above)
    (part : List Char) : (pushPart false stack part).getLast? = some above := by
  unfold pushPart
  split
  · exact h
  · split
    · rw [List.getLast?_cons, h, Option.getD_some]
    · cases stack with
      | nil => cases h
      | cons top rest =>
        dsimp only
        split
        · rw [List.getLast?_cons, h, Option.getD_some]
        · rename_i htop
          cases rest with
          | nil => exact absurd (Option.some.inj h) htop
          | cons below rest => rwa [List.getLast?_cons_cons] at h

theorem foldl_pushPart_of_walk {start place parts : List (List Char)} (hstart : above ∉ start)
    (h : walk start parts = some place) :
    parts.foldl (pushPart false) start.reverse = place.reverse ∧ above ∉ place := by
  induction parts generalizing start with
  | nil =>
    cases h
    exact ⟨rfl, hstart⟩
  | cons part parts ih =>
    rw [walk_cons] at h
    obtain ⟨next, hnext, h⟩ := Option.bind_eq_some_iff.1 h
    obtain ⟨hpush, hnext⟩ := pushPart_of_enter hstart hnext
    rw [List.foldl_cons, hpush]
    exact ih hnext h

theorem foldl_pushPart_of_leaving {start parts : List (List Char)} (hstart : above ∉ start)
    (h : walk start parts = none) :
    (parts.foldl (pushPart false) start.reverse).getLast? = some above := by
  induction parts generalizing start with
  | nil => cases h
  | cons part parts ih =>
    rw [walk_cons] at h
    rw [List.foldl_cons]
    cases hnext : enter start part with
    | none =>
      rw [pushPart_of_leaving hnext]
      exact List.foldlRecOn (motive := fun stack => List.getLast? stack = some above) parts _ rfl
        fun _ h part _ => getLast?_pushPart h part
    | some next =>
      obtain ⟨hpush, habove⟩ := pushPart_of_enter hstart hnext
      rw [hnext, Option.bind_some] at h
      rw [hpush]
      exact ih habove h

theorem normalParts_of_walk {place parts : List (List Char)} (h : walk [] parts = some place) :
    normalParts false parts = place ∧ above ∉ place := by
  obtain ⟨hstack, habove⟩ := foldl_pushPart_of_walk List.not_mem_nil h
  rw [List.reverse_nil] at hstack
  rw [normalParts, hstack, List.reverse_reverse]
  exact ⟨rfl, habove⟩

theorem normalParts_of_leaving {parts : List (List Char)} (h : walk [] parts = none) :
    ∃ rest, normalParts false parts = above :: rest := by
  have hlast := foldl_pushPart_of_leaving List.not_mem_nil h
  rw [List.reverse_nil, ← List.head?_reverse] at hlast
  exact List.head?_eq_some_iff.1 hlast

/-- Whatever a walk passes is a name. -/
theorem isName_of_walk {start place parts : List (List Char)} (hplain : ∀ part ∈ parts, '/' ∉ part)
    (hstart : ∀ name ∈ start, IsName name) (h : walk start parts = some place) :
    ∀ name ∈ place, IsName name := by
  induction parts generalizing start with
  | nil =>
    cases h
    exact hstart
  | cons part parts ih =>
    obtain ⟨hpart, hplain⟩ := List.forall_mem_cons.1 hplain
    rw [walk_cons] at h
    obtain ⟨next, hnext, h⟩ := Option.bind_eq_some_iff.1 h
    refine ih hplain (fun name hname => ?_) h
    unfold enter at hnext
    split at hnext
    · cases hnext
      exact hstart name hname
    · rename_i hskip
      obtain ⟨hnil, hhere⟩ := not_or.1 hskip
      split at hnext
      · cases hnext
        rcases List.mem_append.1 hname with hname | hname
        · exact hstart name hname
        · rw [List.mem_singleton.1 hname]
          exact ⟨hnil, hhere, hpart⟩
      · split at hnext
        · cases hnext
        · cases hnext
          exact hstart name (List.dropLast_subset _ hname)

/-! ## Splitting and joining -/

@[simp] theorem join_nil : join [] = [] := rfl

@[simp] theorem join_singleton (n : List Char) : join [n] = n := List.intercalate_singleton

@[simp] theorem join_cons_cons (n m : List Char) (ns : List (List Char)) :
    join (n :: m :: ns) = n ++ '/' :: join (m :: ns) := by
  rw [join, join, List.intercalate_cons_cons, List.append_assoc, List.singleton_append]

theorem split_join {ns : List (List Char)} (hplain : ∀ n ∈ ns, '/' ∉ n) (hne : ns ≠ []) :
    split (join ns) = ns := by
  rw [split_eq, join, List.splitOn_intercalate '/' hplain hne]

theorem join_split (p : List Char) : join (split p) = p := by
  rw [split_eq, join, List.intercalate_splitOn]

theorem split_append_slash (p q : List Char) : split (p ++ '/' :: q) = split p ++ split q := by
  rw [split_eq, split_eq, split_eq, List.splitOn_append_cons_self]

theorem plain_of_mem_split {p part : List Char} (h : part ∈ split p) : '/' ∉ part :=
  not_mem_of_mem_splitOn (split_eq p ▸ h)

theorem split_of_plain {p : List Char} (h : '/' ∉ p) : split p = [p] := by
  have hone := @split_join [p] (fun n hn => List.mem_singleton.1 hn ▸ h) (List.cons_ne_nil _ _)
  rwa [join_singleton] at hone

theorem join_concat {ns : List (List Char)} (hne : ns ≠ []) (name : List Char) :
    join (ns ++ [name]) = join ns ++ '/' :: name := by
  induction ns with
  | nil => exact absurd rfl hne
  | cons n ns ih =>
    cases ns with
    | nil => rw [List.singleton_append, join_cons_cons, join_singleton, join_singleton]
    | cons m ns =>
      rw [List.cons_append, List.cons_append, join_cons_cons, ← List.cons_append,
        ih (List.cons_ne_nil _ _), join_cons_cons, List.append_assoc, List.cons_append]

theorem head?_join {ns : List (List Char)} (hname : ∀ n ∈ ns, IsName n) :
    (join ns).head? ≠ some '/' := by
  cases ns with
  | nil => simp
  | cons n ns =>
    obtain ⟨hn, -⟩ := List.forall_mem_cons.1 hname
    obtain ⟨c, cs, rfl⟩ := List.exists_cons_of_ne_nil hn.ne_nil
    have hc : c ≠ '/' := fun he => hn.plain (he ▸ List.mem_cons_self)
    cases ns <;> simp [hc]

theorem join_ne_nil {ns : List (List Char)} (hname : ∀ n ∈ ns, IsName n) (hne : ns ≠ []) :
    join ns ≠ [] := by
  obtain ⟨n, ns, rfl⟩ := List.exists_cons_of_ne_nil hne
  obtain ⟨hn, -⟩ := List.forall_mem_cons.1 hname
  cases ns <;> simp [hn.ne_nil]

theorem getLast?_join {ns : List (List Char)} (hname : ∀ n ∈ ns, IsName n) :
    (join ns).getLast? ≠ some '/' := by
  rcases List.eq_nil_or_concat' ns with rfl | ⟨outer, name, rfl⟩
  · simp
  · obtain ⟨houter, hlast⟩ := List.forall_mem_append.1 hname
    have hn := hlast name List.mem_cons_self
    have hend : name.getLast? ≠ some '/' := fun he => hn.plain (List.mem_of_getLast? he)
    by_cases hone : outer = []
    · simpa [hone] using hend
    · obtain ⟨c, cs, rfl⟩ := List.exists_cons_of_ne_nil hn.ne_nil
      rw [join_concat hone, List.getLast?_append]
      simpa using hend

/-! ## Normal form -/

/-- The normal form of the path to a place. -/
def toPlace (place : List (List Char)) : List Char := if place = [] then here else join place

theorem rootOf_of_head? {p : List Char} (h : p.head? ≠ some '/') : rootOf p = [] := by
  unfold rootOf
  split <;> simp_all

theorem normalize_of_rootless {p : List Char} (h : p.head? ≠ some '/') :
    normalize p = if join (normalParts false (split p)) = [] then here
      else join (normalParts false (split p)) := by
  unfold normalize
  rw [rootOf_of_head? h]
  simp

/-- **Normal form** is the path to the place where the walk ends. -/
theorem normalize_of_walk {p : List Char} {place : List (List Char)} (hroot : p.head? ≠ some '/')
    (h : walk [] (split p) = some place) : normalize p = toPlace place := by
  have hname := isName_of_walk (fun _ => plain_of_mem_split) (by simp) h
  rw [normalize_of_rootless hroot, (normalParts_of_walk h).1, toPlace]
  by_cases hne : place = []
  · rw [hne]
    rfl
  · rw [if_neg (join_ne_nil hname hne), if_neg hne]

/-- The normal form of a path that leaves the root begins with the part that leads out of it. -/
theorem normalize_of_leaving {p : List Char} (hroot : p.head? ≠ some '/')
    (h : walk [] (split p) = none) : ∃ rest, normalize p = join (above :: rest) := by
  obtain ⟨rest, hrest⟩ := normalParts_of_leaving h
  refine ⟨rest, ?_⟩
  rw [normalize_of_rootless hroot, hrest, if_neg]
  cases rest <;> simp [above]

/-! ## The folder of a file -/

theorem dropWhile_reverse_join {outer : List (List Char)} (hname : ∀ n ∈ outer, IsName n) :
    (join outer).reverse.dropWhile (· == '/') = (join outer).reverse := by
  have hlast := getLast?_join hname
  rw [← List.head?_reverse] at hlast
  cases hjoin : (join outer).reverse with
  | nil => rfl
  | cons c cs =>
    rw [hjoin] at hlast
    rw [List.dropWhile_cons_of_neg (by simpa using hlast)]

theorem throughLastSlash_concat {outer : List (List Char)} {name : List Char} (h : '/' ∉ name) :
    throughLastSlash (join (outer ++ [name])) = if outer = [] then [] else join outer ++ ['/'] := by
  have hname : name.reverse.dropWhile (· != '/') = [] := by
    refine List.dropWhile_eq_nil_iff.2 fun c hc => ?_
    have hne : c ≠ '/' := fun he => h (he ▸ List.mem_reverse.1 hc)
    simpa using hne
  unfold throughLastSlash
  split
  · rename_i hone
    simp [hone, hname]
  · rename_i hone
    rw [join_concat hone, List.reverse_append, List.reverse_cons, List.append_assoc,
      List.dropWhile_append, hname]
    simp

/-- The folder of a file is where its path leads without its name. -/
theorem folder_join {outer : List (List Char)} {name : List Char} (houter : ∀ n ∈ outer, IsName n)
    (hname : '/' ∉ name) : folder (join (outer ++ [name])) = join outer := by
  unfold folder
  dsimp only
  rw [throughLastSlash_concat hname]
  by_cases hone : outer = []
  · simp [hone]
  · have hall : ¬ (join outer ++ ['/']).all (· == '/') = true := by
      intro hall
      obtain ⟨c, cs, hc⟩ := List.exists_cons_of_ne_nil (join_ne_nil houter hone)
      have hhead := head?_join houter
      rw [hc] at hall hhead
      simp only [List.cons_append, List.all_cons, Bool.and_eq_true, beq_iff_eq] at hall
      exact hhead (by rw [List.head?_cons, hall.1])
    rw [if_neg hone, if_neg hall, List.reverse_append, List.reverse_singleton,
      List.singleton_append, List.dropWhile_cons_of_pos (by simp), dropWhile_reverse_join houter,
      List.reverse_reverse]

/-- A path seen from a folder has the parts of the folder before its own. -/
theorem split_append {outer : List (List Char)} {q : List Char} (hname : ∀ n ∈ outer, IsName n)
    (hroot : q.head? ≠ some '/') : split (append (join outer) q) = outer ++ split q := by
  unfold append
  rw [if_neg hroot]
  by_cases hone : outer = []
  · simp [hone]
  · have hsep : ((join outer).isEmpty || (join outer).getLast? == some '/') = false := by
      rw [Bool.or_eq_false_iff]
      exact ⟨by simpa using join_ne_nil hname hone, by simpa using getLast?_join hname⟩
    rw [hsep, if_neg Bool.false_ne_true, split_append_slash,
      split_join (fun n hn => (hname n hn).plain) hone]

theorem head?_append {outer : List (List Char)} {q : List Char} (hname : ∀ n ∈ outer, IsName n)
    (hroot : q.head? ≠ some '/') : (append (join outer) q).head? ≠ some '/' := by
  have hhead := head?_join hname
  unfold append
  rw [if_neg hroot]
  cases hjoin : join outer with
  | nil => simpa using hroot
  | cons c cs =>
    rw [hjoin] at hhead
    split <;> simpa using hhead

/-- **A path seen from a folder** is walked from there. -/
theorem walk_folder_append {outer : List (List Char)} {q : List Char}
    (hname : ∀ n ∈ outer, IsName n) (habove : above ∉ outer) (hroot : q.head? ≠ some '/') :
    walk [] (split (append (join outer) q)) = walk outer (split q) := by
  rw [split_append hname hroot, walk_append, walk_of_isName hname habove, Option.bind_some,
    List.nil_append]

/-- One more name leads down from a place. -/
theorem normalize_append_name {place : List (List Char)} {name : List Char}
    (hplace : ∀ n ∈ place, IsName n) (habove : above ∉ place) (hname : IsOrdinary name) :
    normalize (append (toPlace place) name) = join (place ++ [name]) := by
  have hroot : name.head? ≠ some '/' := fun he => hname.plain (List.mem_of_mem_head? he)
  have hsplit := split_of_plain hname.plain
  have hdown : walk place [name] = some (place ++ [name]) :=
    walk_of_isName (fun part hpart => List.mem_singleton.1 hpart ▸ hname.toIsName)
      fun hmem => hname.ne_above (List.mem_singleton.1 hmem).symm
  have hgoal : join (place ++ [name]) = toPlace (place ++ [name]) := (if_neg (by simp)).symm
  rw [hgoal]
  by_cases hone : place = []
  · -- From the root the path to the place is `.`, which is no name.
    subst hone
    have hpath : append (toPlace []) name = here ++ '/' :: name := if_neg hroot
    rw [hpath]
    refine normalize_of_walk (by simp [here]) ?_
    rw [split_append_slash, hsplit]
    exact hdown
  · rw [toPlace, if_neg hone]
    refine normalize_of_walk (head?_append hplace hroot) ?_
    rw [walk_folder_append hplace habove hroot, hsplit, hdown]

/-! ## Suffixes -/

theorem takeWhile_ne_self {x : Char} {cs : List Char} (h : x ∉ cs) :
    cs.takeWhile (· != x) = cs := by
  refine List.takeWhile_eq_self_iff.2 fun c hc => ?_
  have hne : c ≠ x := fun he => h (he ▸ hc)
  simpa using hne

theorem takeWhile_ne_append {x : Char} {cs : List Char} (h : x ∉ cs) (rest : List Char) :
    (cs ++ x :: rest).takeWhile (· != x) = cs := by
  rw [List.takeWhile_append, takeWhile_ne_self h, if_pos rfl, List.takeWhile_cons_of_neg (by simp),
    List.append_nil]

/-- The suffix of a name is what follows its last dot, the dot included. -/
theorem nameSuffix_append {stem ext : List Char} (hstem : stem ≠ []) (hext : ext ≠ [])
    (hdot : '.' ∉ ext) : nameSuffix (stem ++ '.' :: ext) = '.' :: ext := by
  have htail : (stem ++ '.' :: ext).reverse.takeWhile (· != '.') = ext.reverse := by
    rw [List.reverse_append, List.reverse_cons, List.append_assoc]
    exact takeWhile_ne_append (by simpa using hdot) _
  have hstem := List.length_pos_iff.2 hstem
  unfold nameSuffix
  dsimp only
  rw [htail, if_neg (by simp; omega), if_neg, List.reverse_reverse]
  simp [hext]
  omega

end Path

/-- The language of a path by the extension of its last name. -/
theorem Language.ofPath?_of_extension {path : String} {outer : List (List Char)}
    {stem ext : List Char} {language : Language}
    (hparts : Path.split path.toList = outer ++ [stem ++ '.' :: ext])
    (hname : ∀ part ∈ Path.split path.toList, Path.IsName part) (hstem : stem ≠ [])
    (hdot : '.' ∉ ext)
    (hlanguage : lowered (String.ofList ('.' :: ext)) ∈ language.extensions) :
    Language.ofPath? path = some language := by
  have hnames : Path.names path.toList = Path.split path.toList := by
    rw [Path.names, List.filter_eq_self]
    intro part hpart
    simp [(hname part hpart).ne_nil, (hname part hpart).ne_here]
  have hext : ext ≠ [] := by
    rintro rfl
    revert hlanguage
    cases language <;> decide
  rw [ofPath?, Path.suffix, hnames, hparts, List.getLast?_concat, Option.getD_some,
    Path.nameSuffix_append hstem hext hdot, ofExtension?]
  -- No extension is one of two languages.
  generalize lowered (String.ofList ('.' :: ext)) = low at hlanguage
  revert low
  cases language <;> decide

end EvidenceLock
