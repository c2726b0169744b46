import EvidenceLock.Text.Utf8
import Mathlib.Data.List.Forall2
import Mathlib.Tactic.SplitIfs

/-!
# Text written as bytes and read again

The bytes of a character are one well-formed sequence (`pieceAt_charBytes`), and so the reader takes
a written text apart into its characters: reading what was written gives the text
(`decodeLossy_encode`).
-/

namespace EvidenceLock.Text.Utf8

/-- The bytes of a character. -/
def charBytes (c : Char) : List Nat :=
  let v := c.toNat
  if v ≤ 0x7F then [v]
  else if v ≤ 0x7FF then [v / 64 % 32 + 0xC0, v % 64 + 0x80]
  else if v ≤ 0xFFFF then [v / 4096 % 16 + 0xE0, v / 64 % 64 + 0x80, v % 64 + 0x80]
  else [v / 262144 % 8 + 0xF0, v / 4096 % 64 + 0x80, v / 64 % 64 + 0x80, v % 64 + 0x80]

theorem map_utf8EncodeChar (c : Char) :
    (String.utf8EncodeChar c).map UInt8.toNat = charBytes c := by
  have hbyte {n : Nat} (h : n < 256) : (UInt8.ofNat n).toNat = n := UInt8.toNat_ofNat_of_lt' h
  have hv : c.val.toNat = c.toNat := rfl
  unfold String.utf8EncodeChar charBytes
  simp only [hv]
  split_ifs with h₁ h₂ h₃
  · simp only [List.map_cons, List.map_nil, hbyte (by omega : c.toNat < 256)]
  all_goals
    simp only [List.map_cons, List.map_nil]
    repeat' rw [hbyte (by omega)]

theorem toList_loop_eq (bs : ByteArray) (i : Nat) (acc : List UInt8) :
    ByteArray.toList.loop bs i acc = acc.reverse ++ bs.data.toList.drop i := by
  fun_induction ByteArray.toList.loop bs i acc with
  | case1 i acc h ih =>
    have hi : i < bs.data.toList.length := by simpa using h
    rw [ih, List.drop_eq_getElem_cons hi]
    simp [ByteArray.get!, h]
  | case2 i acc h =>
    rw [List.drop_eq_nil_of_le (by simpa using Nat.le_of_not_lt h), List.append_nil]

theorem encode_eq (s : String) : encode s = s.toList.flatMap charBytes := by
  have hbytes : s.toUTF8.toList = s.toList.flatMap String.utf8EncodeChar := by
    conv_lhs => rw [← String.ofList_toList (s := s)]
    rw [String.toUTF8_eq_toByteArray, String.toByteArray_ofList, List.utf8Encode,
      ByteArray.toList, toList_loop_eq, List.toList_data_toByteArray]
    rfl
  rw [encode, hbytes, List.map_flatMap]
  simp only [map_utf8EncodeChar]

/-! ## One character -/

/-- No character stands for half of a pair. -/
theorem toNat_valid (c : Char) : c.toNat < 0xD800 ∨ (0xDFFF < c.toNat ∧ c.toNat < 0x110000) :=
  c.valid

theorem shape?_two {b : Nat} (h : 0xC2 ≤ b ∧ b ≤ 0xDF) : shape? b = some (1, 0x80, 0xBF) := by
  unfold shape?
  rw [if_neg (by omega), if_pos h]

/-- The second of three bytes is in the range that goes with the first, which leaves out what is
shorter in two bytes and the halves of pairs. -/
theorem shape?_three {b m : Nat} (hb : 0xE0 ≤ b ∧ b ≤ 0xEF) (hm : 0x80 ≤ m ∧ m ≤ 0xBF)
    (hlong : b = 0xE0 → 0xA0 ≤ m) (hhalf : b = 0xED → m ≤ 0x9F) :
    ∃ lo hi, shape? b = some (2, lo, hi) ∧ lo ≤ m ∧ m ≤ hi := by
  by_cases h₁ : b = 0xE0
  · subst h₁
    exact ⟨_, _, rfl, hlong rfl, hm.2⟩
  by_cases h₂ : b = 0xED
  · subst h₂
    exact ⟨_, _, rfl, hm.1, hhalf rfl⟩
  · refine ⟨0x80, 0xBF, ?_, hm.1, hm.2⟩
    unfold shape?
    rw [if_neg (by omega), if_neg (by omega), if_neg h₁, if_neg h₂, if_pos (by omega)]

/-- The second of four bytes is in the range that goes with the first. -/
theorem shape?_four {b m : Nat} (hb : 0xF0 ≤ b ∧ b ≤ 0xF4) (hm : 0x80 ≤ m ∧ m ≤ 0xBF)
    (hlong : b = 0xF0 → 0x90 ≤ m) (hlast : b = 0xF4 → m ≤ 0x8F) :
    ∃ lo hi, shape? b = some (3, lo, hi) ∧ lo ≤ m ∧ m ≤ hi := by
  by_cases h₁ : b = 0xF0
  · subst h₁
    exact ⟨_, _, rfl, hlong rfl, hm.2⟩
  by_cases h₂ : b = 0xF4
  · subst h₂
    exact ⟨_, _, rfl, hm.1, hlast rfl⟩
  · refine ⟨0x80, 0xBF, ?_, hm.1, hm.2⟩
    unfold shape?
    rw [if_neg (by omega), if_neg (by omega), if_neg (by omega), if_neg (by omega),
      if_neg (by omega), if_neg h₁, if_pos (by omega)]

theorem continuation_step {seen : List Nat} {code more lo hi b : Nat} {rest : List Nat}
    (h : lo ≤ b ∧ b ≤ hi) :
    continuation seen code (more + 1) lo hi (b :: rest) =
      continuation (b :: seen) (code * 64 + b % 64) more 0x80 0xBF rest := by
  rw [continuation, if_pos h]

/-- **The bytes of a character** are one piece, whatever follows them. -/
theorem pieceAt_charBytes (c : Char) (rest : List Nat) :
    ∃ b tail, charBytes c = b :: tail ∧ pieceAt b (tail ++ rest) = .char c (tail.length + 1) := by
  have hvalid := toNat_valid c
  have hchar {n : Nat} (h : n = c.toNat) : Char.ofNat n = c := by rw [h, Char.ofNat_toNat]
  unfold charBytes
  dsimp only
  -- In each range of codes the first byte has the shape of as many bytes as are written.
  split_ifs with h₁ h₂ h₃
  · refine ⟨_, [], rfl, ?_⟩
    have hshape : shape? c.toNat = some (0, 0, 0) := if_pos (by omega)
    simp only [pieceAt, hshape, continuation, leadBits, Char.ofNat_toNat]
    rfl
  · refine ⟨_, [_], rfl, ?_⟩
    have hshape : shape? (c.toNat / 64 % 32 + 0xC0) = some (1, 0x80, 0xBF) :=
      shape?_two (by omega)
    simp only [pieceAt, hshape, List.cons_append, List.nil_append]
    rw [continuation_step (by omega), continuation, hchar (by rw [leadBits]; omega)]
    rfl
  · refine ⟨_, [_, _], rfl, ?_⟩
    obtain ⟨lo, hi, hshape, hm⟩ :=
      shape?_three (b := c.toNat / 4096 % 16 + 0xE0) (m := c.toNat / 64 % 64 + 0x80)
        (by omega) (by omega) (by omega) (by omega)
    simp only [pieceAt, hshape, List.cons_append, List.nil_append]
    rw [continuation_step hm, continuation_step (by omega), continuation,
      hchar (by rw [leadBits]; omega)]
    rfl
  · refine ⟨_, [_, _, _], rfl, ?_⟩
    obtain ⟨lo, hi, hshape, hm⟩ :=
      shape?_four (b := c.toNat / 262144 % 8 + 0xF0) (m := c.toNat / 4096 % 64 + 0x80)
        (by omega) (by omega) (by omega) (by omega)
    simp only [pieceAt, hshape, List.cons_append, List.nil_append]
    rw [continuation_step hm, continuation_step (by omega), continuation_step (by omega),
      continuation, hchar (by simp only [leadBits]; omega)]
    rfl

/-! ## A whole text -/

theorem go_skip (tail rest : List Nat) (n : Nat) (acc : List (Nat × Piece)) :
    scan.go n tail.length acc (tail ++ rest) = scan.go (n + tail.length) 0 acc rest := by
  induction tail generalizing n with
  | nil => rfl
  | cons b tail ih =>
    rw [List.cons_append, List.length_cons, scan.go, ih]
    congr 1
    omega

/-- The pieces of a written text are its characters. -/
theorem go_flatMap (cs : List Char) (n : Nat) (acc : List (Nat × Piece)) :
    ∃ pieces, scan.go n 0 acc (cs.flatMap charBytes) = acc.reverse ++ pieces ∧
      List.Forall₂ (fun c p => ∃ size, p.2 = .char c size) cs pieces := by
  induction cs generalizing n acc with
  | nil => exact ⟨[], by simp [scan.go], .nil⟩
  | cons c cs ih =>
    obtain ⟨b, tail, hbytes, hpiece⟩ := pieceAt_charBytes c (cs.flatMap charBytes)
    obtain ⟨pieces, hpieces, hchars⟩ :=
      ih (n + 1 + tail.length) ((n, .char c (tail.length + 1)) :: acc)
    refine ⟨(n, .char c (tail.length + 1)) :: pieces, ?_, .cons ⟨_, rfl⟩ hchars⟩
    -- The scan takes the character at its first byte and skips the others.
    rw [List.flatMap_cons, hbytes, List.cons_append, scan.go, hpiece, Piece.size,
      Nat.add_sub_cancel, go_skip, hpieces, List.reverse_cons, List.append_assoc]
    rfl

/-- **What is written is read back.** -/
theorem decodeLossy_encode (s : String) : decodeLossy (encode s) = s := by
  obtain ⟨pieces, hpieces, hchars⟩ := go_flatMap s.toList 0 []
  rw [decodeLossy, scan, encode_eq, hpieces, List.reverse_nil, List.nil_append]
  refine Eq.trans (congrArg String.ofList ?_) String.ofList_toList
  clear hpieces
  generalize s.toList = cs at hchars
  induction hchars with
  | nil => rfl
  | @cons c p cs pieces h _ ih =>
    obtain ⟨n, piece⟩ := p
    obtain ⟨size, rfl⟩ := h
    rw [List.map_cons, ih]

end EvidenceLock.Text.Utf8
