import EvidenceLock.Proofs.Keyed
import EvidenceLock.Proofs.PathNames
import EvidenceLock.Proofs.Utf8
import EvidenceLock.Session

/-!
# Texts written to disk

A file is read back as it was written, and another one is read as before when neither of the two
paths lies below the other (`Apart`). So a folder to which the texts of an overlay were written
(`Written`) reads as the overlay did (`Written.readsAlike`), and that is what a commit makes of the
folder of a session (`Session.read_commit`).
-/

namespace EvidenceLock

/-- The file of a path cannot be read, for whatever reason. -/
def Unreadable (read : Reader) (path : String) : Prop :=
  ∃ full reason, read path = fail (.fileAccess full reason)

/-- Both readers give the same for a path, be it a text or an error, or neither can read its
file. -/
def ReadsAlike (read read' : Reader) (path : String) : Prop :=
  read path = read' path ∨ Unreadable read path ∧ Unreadable read' path

/-- The same bytes are found under two paths, or none under either of them; and both can be looked
up, or neither can. -/
structure SameBytes (x y : Except AccessError (List Nat)) : Prop where
  bytes : ∀ bytes, x = .ok bytes ↔ y = .ok bytes
  null : x = .error .nullCharacter ↔ y = .error .nullCharacter

namespace SameBytes

variable {x y z : Except AccessError (List Nat)}

theorem refl (x : Except AccessError (List Nat)) : SameBytes x x := ⟨fun _ => Iff.rfl, Iff.rfl⟩

theorem trans (hxy : SameBytes x y) (hyz : SameBytes y z) : SameBytes x z :=
  ⟨fun bytes => (hxy.bytes bytes).trans (hyz.bytes bytes), hxy.null.trans hyz.null⟩

end SameBytes

/-- Under a path a folder holds the text of an overlay in UTF-8, or what another folder holds when
there is none. -/
def Written (h : Host) (root : String) (overlay : Overlay) (h' : Host) (root' path : String) :
    Prop :=
  match overlay.find? path with
  | some text => h'.readBytes (Path.resolveUnder root' path) = .ok (Text.Utf8.encode text)
  | none => SameBytes (h.readBytes (Path.resolveUnder root path))
      (h'.readBytes (Path.resolveUnder root' path))

/-- Neither path of names leads to something below the other. -/
def Apart (ns ms : List String) : Prop := ¬ ns <+: ms ∧ ¬ ms <+: ns

namespace Entry

/-- The entry under a path of names, none of which leads upwards. -/
def descend? (e : Entry) : List String → Option Entry
  | [] => some e
  | n :: ns => (e.child? n).bind fun c => c.descend? ns

theorem child?_put (e new : Entry) (n : String) (ns : List String) (m : String) :
    (e.put (n :: ns) new).child? m =
      if m = n then some (((e.child? n).getD (.folder [])).put ns new) else e.child? m := by
  cases e with
  | file bytes =>
    rw [put, child?, ← Keyed.find?, Keyed.find?_insert]
    simp [child?]
  | folder es =>
    rw [put, child?, ← Keyed.find?, Keyed.find?_insert]
    simp only [beq_iff_eq]
    rfl

theorem descend?_put_self (e new : Entry) (ns : List String) :
    (e.put ns new).descend? ns = some new := by
  induction ns generalizing e with
  | nil => rfl
  | cons n ns ih => rw [descend?, child?_put, if_pos rfl, Option.bind_some, ih]

theorem descend?_put_apart (e new : Entry) {ns ms : List String} (h : Apart ns ms) :
    (e.put ns new).descend? ms = e.descend? ms := by
  induction ns generalizing e ms with
  | nil => exact absurd List.nil_prefix h.1
  | cons n ns ih =>
    cases ms with
    | nil => exact absurd List.nil_prefix h.2
    | cons m ms =>
      rw [descend?, child?_put, descend?]
      split
      · rename_i heq
        subst heq
        have hrest : Apart ns ms :=
          ⟨fun hp => h.1 (List.cons_prefix_cons.2 ⟨rfl, hp⟩),
            fun hp => h.2 (List.cons_prefix_cons.2 ⟨rfl, hp⟩)⟩
        rw [Option.bind_some, ih _ hrest]
        cases e.child? m with
        | some c => rfl
        | none =>
          -- The folder that was made on the way holds nothing else.
          cases ms with
          | nil => exact absurd List.nil_prefix hrest.2
          | cons k ks => rfl
      · rfl

end Entry

namespace Host

/-- The names that are looked up for a path. -/
def namesOf (h : Host) (path : String) : List String :=
  (Path.names (Path.append h.workdir.toList path.toList)).map String.ofList

/-- The path leads downwards only, by names that a folder can hold. -/
structure Plain (h : Host) (path : String) : Prop where
  given : path ≠ ""
  clean : Path.holdsNull path = false
  names : ∀ n ∈ h.namesOf path, n ≠ ".." ∧ n.utf8ByteSize ≤ 255

theorem walk_eq_ok {here e : Entry} {up : List Entry} {ns : List String}
    (h : ∀ n ∈ ns, n ≠ ".." ∧ n.utf8ByteSize ≤ 255) :
    walk (here :: up) ns = .ok e ↔ here.descend? ns = some e := by
  induction ns generalizing here up with
  | nil => simp [walk, Entry.descend?]
  | cons n ns ih =>
    obtain ⟨hdown, hshort⟩ := h n List.mem_cons_self
    cases here with
    | file bytes => simp [walk, Entry.descend?, Entry.child?]
    | folder es =>
      rw [walk, if_neg hdown, if_neg (Nat.not_lt.2 hshort), Entry.descend?]
      · cases hchild : (Entry.folder es).child? n with
        | none => simp
        | some c => exact ih fun m hm => h m (List.mem_cons_of_mem n hm)
      · simp

/-- Walking from folder to folder does not look at characters. -/
theorem walk_ne_null (trail : List Entry) (ns : List String) :
    walk trail ns ≠ .error .nullCharacter := by
  fun_induction walk trail ns with
  | case1 | case2 | case3 | case5 | case7 => nofun
  | case4 | case6 => assumption

variable {h : Host} {path : String}

theorem readBytes_eq_null :
    h.readBytes path = .error .nullCharacter ↔ Path.holdsNull path = true := by
  have hfind : h.find path = .error .nullCharacter ↔ Path.holdsNull path = true := by
    unfold find
    split
    · rename_i hnull
      exact iff_of_true rfl hnull
    · rename_i hnull
      refine iff_of_false ?_ hnull
      split
      · nofun
      · exact walk_ne_null _ _
  rw [← hfind, readBytes]
  cases h.find path with
  | error e => simp [bind, Except.bind]
  | ok e => cases e <;> simp [bind, Except.bind]

/-- A path with a null character leads nowhere. -/
theorem isPresent_of_null (hnull : Path.holdsNull path = true) : h.isPresent path = .ok false := by
  rw [isPresent, find, if_pos hnull]

theorem find_eq_ok (hp : h.Plain path) {e : Entry} :
    h.find path = .ok e ↔ h.root.descend? (h.namesOf path) = some e := by
  rw [find, if_neg (by simp [hp.clean]), if_neg (by simpa using hp.given)]
  exact walk_eq_ok hp.names

theorem readBytes_eq_ok (hp : h.Plain path) {bytes : List Nat} :
    h.readBytes path = .ok bytes ↔ h.root.descend? (h.namesOf path) = some (.file bytes) := by
  rw [← find_eq_ok hp, readBytes]
  cases h.find path with
  | error e => simp [bind, Except.bind]
  | ok e => cases e <;> simp [bind, Except.bind]

/-- A name on the path is too long to be looked up. -/
def Overlong (h : Host) (path : String) : Prop := h.find path = .error .nameTooLong

theorem isPresent_of_overlong (hlong : h.Overlong path) :
    h.isPresent path = AccessError.nameTooLong.misused path := by rw [isPresent, hlong]

theorem not_overlong {there : Bool} (hpresent : h.isPresent path = .ok there) :
    ¬ h.Overlong path := by
  intro hlong
  rw [isPresent_of_overlong hlong] at hpresent
  cases hpresent

theorem isPresent_of_not_overlong (hshort : ¬ h.Overlong path) :
    ∃ there, h.isPresent path = .ok there := by
  unfold isPresent
  split
  · exact ⟨true, rfl⟩
  · rename_i hlong
    exact absurd hlong hshort
  · exact ⟨false, rfl⟩

/-- A path that leads downwards is written where it is looked up. -/
theorem namesTo_eq (hp : h.Plain path) : h.namesTo path = h.namesOf path := by
  unfold namesTo namesOf Path.absolute
  rw [String.toList_ofList, Path.names_normalize]
  intro habove
  exact (hp.names _ (List.mem_map_of_mem habove)).1 rfl

theorem namesOf_write {other : String} {bytes : List Nat} :
    (h.write path bytes).namesOf other = h.namesOf other := by
  rw [write, namesOf, namesOf]

/-- Which paths lead downwards does not depend on what the folders hold. -/
theorem Plain.of_namesOf {h' : Host} (hp : h.Plain path)
    (hnames : h'.namesOf path = h.namesOf path) : h'.Plain path := by
  refine ⟨hp.given, hp.clean, ?_⟩
  rw [hnames]
  exact hp.names

theorem Plain.write (hp : h.Plain path) {other : String} {bytes : List Nat} :
    (h.write other bytes).Plain path := hp.of_namesOf namesOf_write

/-- A file is read as it was written. -/
theorem readBytes_write_self (hp : h.Plain path) (bytes : List Nat) :
    (h.write path bytes).readBytes path = .ok bytes := by
  rw [readBytes_eq_ok hp.write, namesOf_write, write, namesTo_eq hp]
  exact Entry.descend?_put_self _ _ _

/-- A file that lies apart from a written one is read as before. -/
theorem sameBytes_write_apart {other : String} (hp : h.Plain path) (ho : h.Plain other)
    (hapart : Apart (h.namesOf path) (h.namesOf other)) (bytes : List Nat) :
    SameBytes (h.readBytes other) ((h.write path bytes).readBytes other) := by
  refine ⟨fun found => ?_, readBytes_eq_null.trans readBytes_eq_null.symm⟩
  rw [readBytes_eq_ok ho.write, readBytes_eq_ok ho, namesOf_write, write, namesTo_eq hp]
  dsimp only
  rw [Entry.descend?_put_apart _ _ hapart]

/-- Texts written under a folder one after the other. -/
def writeTexts (h : Host) (root : String) (texts : List (String × String)) : Host :=
  texts.foldl (fun h e => h.write (Path.resolveUnder root e.1) (Text.Utf8.encode e.2)) h

theorem writeTexts_cons (h : Host) (root p text : String) (texts : List (String × String)) :
    h.writeTexts root ((p, text) :: texts) =
      (h.write (Path.resolveUnder root p) (Text.Utf8.encode text)).writeTexts root texts :=
  List.foldl_cons ..

/-- **Texts written under a folder** are there, as long as none of them lies in the way of what is
looked up. -/
theorem written_writeTexts {root : String} {texts : Keyed String String}
    (hnodup : texts.keys.Nodup) (hp : h.Plain (Path.resolveUnder root path))
    (hplain : ∀ q ∈ texts.keys, h.Plain (Path.resolveUnder root q))
    (hapart : ∀ q ∈ texts.keys, q ≠ path →
      Apart (h.namesOf (Path.resolveUnder root q)) (h.namesOf (Path.resolveUnder root path))) :
    Written h root texts (h.writeTexts root texts) root path := by
  -- The first text is written first. It stays, since no other one has its path or lies in its way.
  induction texts generalizing h with
  | nil => exact .refl _
  | cons e texts ih =>
    obtain ⟨q, text⟩ := e
    rw [Keyed.keys, List.map_cons, List.nodup_cons] at hnodup
    have hq : q ∈ Keyed.keys ((q, text) :: texts) := List.mem_cons_self
    have hrest := @ih (h.write (Path.resolveUnder root q) (Text.Utf8.encode text)) hnodup.2
      hp.write (fun p hmem => (hplain p (List.mem_cons_of_mem _ hmem)).write)
      (fun p hmem hne => by
        rw [namesOf_write, namesOf_write]
        exact hapart p (List.mem_cons_of_mem _ hmem) hne)
    rw [writeTexts_cons, Written, Keyed.find?_cons]
    rw [Written] at hrest
    by_cases heq : path = q
    · subst heq
      have hnone : Keyed.find? texts path = none := by
        rw [Option.eq_none_iff_forall_ne_some]
        exact fun t ht => hnodup.1 (Keyed.mem_keys.2 ⟨t, ht⟩)
      rw [hnone] at hrest
      rw [beq_self_eq_true, if_pos rfl]
      exact (hrest.bytes _).1 (readBytes_write_self hp _)
    · rw [if_neg (by simpa using heq)]
      cases hfind : Keyed.find? texts path with
      | some t =>
        rw [hfind] at hrest
        exact hrest
      | none =>
        rw [hfind] at hrest
        exact (sameBytes_write_apart (hplain q hq) hp (hapart q hq (Ne.symm heq)) _).trans hrest

/-! ### Reading texts -/

/-- A path with a null character is asked for in vain. -/
theorem reader_of_null {root : String}
    (hnull : Path.holdsNull (Path.resolveUnder root path) = true) :
    h.reader root path = misuse .value "embedded null byte" := by
  rw [reader, readBytes_eq_null.2 hnull]
  rfl

theorem reader_of_error {root : String} {e : AccessError}
    (hbytes : h.readBytes (Path.resolveUnder root path) = .error e) (he : e ≠ .nullCharacter) :
    Unreadable (h.reader root) path := by
  refine ⟨Path.resolveUnder root path, e.report (Path.resolveUnder root path), ?_⟩
  rw [reader, hbytes]
  cases e with
  | nullCharacter => exact absurd rfl he
  | missing | notFolder | isFolder | nameTooLong => rfl

/-- A file is there, or it cannot be read. -/
theorem reader_of_clean {root : String}
    (hclean : Path.holdsNull (Path.resolveUnder root path) = false) :
    (∃ text, h.reader root path = .ok text) ∨ Unreadable (h.reader root) path := by
  cases hbytes : h.readBytes (Path.resolveUnder root path) with
  | ok bytes => exact .inl ⟨Text.Utf8.decodeLossy bytes, by rw [reader, hbytes]⟩
  | error e =>
    refine .inr (reader_of_error hbytes ?_)
    rintro rfl
    rw [readBytes_eq_null.1 hbytes] at hclean
    cases hclean

/-- Where the same bytes are found, they are read alike. -/
theorem readsAlike_of_sameBytes {h' : Host} {root root' : String}
    (hsame : SameBytes (h.readBytes (Path.resolveUnder root path))
      (h'.readBytes (Path.resolveUnder root' path))) :
    ReadsAlike (h.reader root) (h'.reader root') path := by
  cases hbytes : h.readBytes (Path.resolveUnder root path) with
  | ok bytes => exact .inl (by rw [reader, reader, hbytes, (hsame.bytes bytes).1 hbytes])
  | error e =>
    cases hbytes' : h'.readBytes (Path.resolveUnder root' path) with
    | ok bytes =>
      rw [(hsame.bytes bytes).2 hbytes'] at hbytes
      cases hbytes
    | error e' =>
      rw [hbytes, hbytes'] at hsame
      have hnull : e = .nullCharacter ↔ e' = .nullCharacter := by simpa using hsame.null
      by_cases he : e = .nullCharacter
      · rw [he] at hbytes
        rw [hnull.1 he] at hbytes'
        exact .inl (by rw [reader_of_null (readBytes_eq_null.1 hbytes),
          reader_of_null (readBytes_eq_null.1 hbytes')])
      · exact .inr ⟨reader_of_error hbytes he, reader_of_error hbytes' fun he' => he (hnull.2 he')⟩

end Host

/-- A folder to which an overlay was written reads as the overlay did. -/
theorem Written.readsAlike {h h' : Host} {root root' path : String} {overlay : Overlay}
    (hw : Written h root overlay h' root' path) :
    ReadsAlike ((h.reader root).through overlay) (h'.reader root') path := by
  rw [Written] at hw
  rw [ReadsAlike, Unreadable, Reader.through]
  cases hfind : overlay.find? path with
  | none =>
    rw [hfind] at hw
    exact Host.readsAlike_of_sameBytes hw
  | some new =>
    rw [hfind] at hw
    refine .inl ?_
    dsimp only
    rw [Host.reader, hw]
    exact congrArg Except.ok (Text.Utf8.decodeLossy_encode new).symm

namespace Session

/-- Where a path of the session is looked up. -/
def namesOf (s : Session) (path : String) : List String :=
  s.host.namesOf (Path.resolveUnder s.root path)

/-- The texts of the overlay can be written to disk without one of them or one of the records being
in the way of another. -/
structure Writable (s : Session) (rs : List FileRecord) : Prop where
  keys : s.overlay.keys.Nodup
  plain : ∀ p, p ∈ s.overlay.keys ∨ p ∈ rs.map FileRecord.path →
    s.host.Plain (Path.resolveUnder s.root p)
  apart : ∀ p ∈ s.overlay.keys, ∀ q ∈ rs.map FileRecord.path, p ≠ q →
    Apart (s.namesOf p) (s.namesOf q)

theorem commit_eq (s : Session) : s.commit =
    { s with host := s.host.writeTexts s.root s.overlay, overlay := [] } := by
  have hfold (s : Session) (texts : List (String × String)) :
      texts.foldl (fun s e => s.writeFile e.1 (Text.Utf8.encode e.2)) s =
        { s with host := s.host.writeTexts s.root texts } := by
    induction texts generalizing s with
    | nil => rfl
    | cons e texts ih =>
      rw [List.foldl_cons, ih, writeFile, Host.writeTexts_cons]
  rw [commit, hfold]

/-- **After a commit** every record reads as it did through the overlay. -/
theorem read_commit {s : Session} {rs : List FileRecord} (h : s.Writable rs) {r : FileRecord}
    (hr : r ∈ rs) : ReadsAlike s.read s.commit.read r.path := by
  have hpath : r.path ∈ rs.map FileRecord.path := List.mem_map_of_mem hr
  have hwritten := Host.written_writeTexts h.keys (h.plain _ (.inr hpath))
    (fun q hq => h.plain q (.inl hq)) fun q hq hne => h.apart q hq _ hpath hne
  rw [commit_eq, read, read, Reader.through_nil]
  exact hwritten.readsAlike

end Session

end EvidenceLock
