import Savvy.Json.Codec

/-!
UTF-8 as the protocol checks it. `savvy_utf8_validate` accepts exactly the
encodings of lists of characters, and `utf16_literal_to_utf8` writes the
encoding of a character. A character of more than one byte is given by the
groups of six bits that its bytes carry.
-/

namespace Savvy.CJson

open String

def utf8 (cs : List Char) : List UInt8 := cs.flatMap utf8EncodeChar

@[simp] theorem utf8_nil : utf8 [] = [] := rfl

@[simp] theorem utf8_cons (c : Char) (cs : List Char) :
    utf8 (c :: cs) = utf8EncodeChar c ++ utf8 cs := rfl

/-! ### Bytes -/

/-- The byte that carries the bits `x` behind the mark `m`. -/
def marked (m x : ℕ) : UInt8 := UInt8.ofNat (x + m)

/-- A statement about bytes can be checked one by one. -/
theorem forall_byte {P : UInt8 → Prop} (h : ∀ n < 256, P (UInt8.ofNat n)) (b : UInt8) : P b := by
  have hb := h b.toNat b.toNat_lt
  rwa [UInt8.ofNat_toNat] at hb

theorem marked_two : ∀ x < 32, ¬ marked 0xC0 x < 0x80 ∧ marked 0xC0 x &&& 0xE0 = 0xC0 ∧
    (marked 0xC0 x &&& 0x1F).toNat = x := by
  decide

theorem marked_three : ∀ x < 16, ¬ marked 0xE0 x < 0x80 ∧ marked 0xE0 x &&& 0xE0 ≠ 0xC0 ∧
    marked 0xE0 x &&& 0xF0 = 0xE0 ∧ (marked 0xE0 x &&& 0x0F).toNat = x := by
  decide

theorem marked_four : ∀ x < 8, ¬ marked 0xF0 x < 0x80 ∧ marked 0xF0 x &&& 0xE0 ≠ 0xC0 ∧
    marked 0xF0 x &&& 0xF0 ≠ 0xE0 ∧ marked 0xF0 x &&& 0xF8 = 0xF0 ∧
    (marked 0xF0 x &&& 0x07).toNat = x := by
  decide

theorem marked_tail : ∀ x < 64, isContinuation (marked 0x80 x) = true ∧
    (marked 0x80 x &&& 0x3F).toNat = x := by
  decide

theorem eq_marked_two (b : UInt8) :
    b &&& 0xE0 = 0xC0 → (b &&& 0x1F).toNat < 32 ∧ b = marked 0xC0 (b &&& 0x1F).toNat := by
  revert b
  apply forall_byte
  set_option maxRecDepth 4000 in
  decide

theorem eq_marked_three (b : UInt8) :
    b &&& 0xF0 = 0xE0 → (b &&& 0x0F).toNat < 16 ∧ b = marked 0xE0 (b &&& 0x0F).toNat := by
  revert b
  apply forall_byte
  set_option maxRecDepth 4000 in
  decide

theorem eq_marked_four (b : UInt8) :
    b &&& 0xF8 = 0xF0 → (b &&& 0x07).toNat < 8 ∧ b = marked 0xF0 (b &&& 0x07).toNat := by
  revert b
  apply forall_byte
  set_option maxRecDepth 4000 in
  decide

theorem eq_marked_tail (b : UInt8) :
    isContinuation b = true → (b &&& 0x3F).toNat < 64 ∧ b = marked 0x80 (b &&& 0x3F).toNat := by
  revert b
  apply forall_byte
  set_option maxRecDepth 4000 in
  decide

theorem addBits_eq (cp : ℕ) {b : UInt8} (hb : isContinuation b = true) :
    addBits cp b = cp * 64 + (b &&& 0x3F).toNat := by
  have hlt := (eq_marked_tail b hb).1
  rw [addBits, ← Nat.shiftLeft_add_eq_or_of_lt hlt, Nat.shiftLeft_eq]

/-! ### Characters -/

def IsScalar (cp : ℕ) : Prop := cp < 0xD800 ∨ 0xDFFF < cp ∧ cp < 0x110000

theorem isScalar_char (c : Char) : IsScalar c.toNat := c.valid

theorem toNat_ofNat {cp : ℕ} (h : IsScalar cp) : (Char.ofNat cp).toNat = cp := by
  have hvalid : cp.isValidChar := h
  rw [Char.ofNat, dif_pos hvalid]
  rfl

theorem isScalar_of_valid {minCp cp : ℕ} (h : validCodePoint minCp cp = true) :
    minCp ≤ cp ∧ IsScalar cp := by
  simp only [validCodePoint, Bool.and_eq_true, Bool.not_eq_true', Bool.and_eq_false_iff,
    decide_eq_true_eq, decide_eq_false_iff_not] at h
  unfold IsScalar
  omega

theorem validCodePoint_of_isScalar {minCp cp : ℕ} (hmin : minCp ≤ cp) (h : IsScalar cp) :
    validCodePoint minCp cp = true := by
  unfold IsScalar at h
  simp only [validCodePoint, Bool.and_eq_true, Bool.not_eq_true', Bool.and_eq_false_iff,
    decide_eq_true_eq, decide_eq_false_iff_not]
  omega

theorem encodeChar_one {c : Char} (hc : c.toNat < 0x80) :
    utf8EncodeChar c = [UInt8.ofNat c.toNat] := by
  change c.val.toNat < 0x80 at hc
  simp only [utf8EncodeChar]
  rw [if_pos (by omega)]
  rfl

theorem encodeChar_two {c : Char} {x y : ℕ} (hc : c.toNat = x * 64 + y) (hx : x < 32)
    (hy : y < 64) (hmin : 0x80 ≤ x * 64 + y) :
    utf8EncodeChar c = [marked 0xC0 x, marked 0x80 y] := by
  change c.val.toNat = _ at hc
  have hx' : c.val.toNat / 64 % 0x20 = x := by omega
  have hy' : c.val.toNat % 0x40 = y := by omega
  simp only [utf8EncodeChar]
  rw [if_neg (by omega), if_pos (by omega), hx', hy']
  rfl

theorem encodeChar_three {c : Char} {x y z : ℕ} (hc : c.toNat = (x * 64 + y) * 64 + z)
    (hx : x < 16) (hy : y < 64) (hz : z < 64) (hmin : 0x800 ≤ (x * 64 + y) * 64 + z) :
    utf8EncodeChar c = [marked 0xE0 x, marked 0x80 y, marked 0x80 z] := by
  change c.val.toNat = _ at hc
  have hx' : c.val.toNat / 4096 % 0x10 = x := by omega
  have hy' : c.val.toNat / 64 % 0x40 = y := by omega
  have hz' : c.val.toNat % 0x40 = z := by omega
  simp only [utf8EncodeChar]
  rw [if_neg (by omega), if_neg (by omega), if_pos (by omega), hx', hy', hz']
  rfl

theorem encodeChar_four {c : Char} {w x y z : ℕ} (hc : c.toNat = ((w * 64 + x) * 64 + y) * 64 + z)
    (hw : w < 8) (hx : x < 64) (hy : y < 64) (hz : z < 64)
    (hmin : 0x10000 ≤ ((w * 64 + x) * 64 + y) * 64 + z) :
    utf8EncodeChar c = [marked 0xF0 w, marked 0x80 x, marked 0x80 y, marked 0x80 z] := by
  change c.val.toNat = _ at hc
  have hw' : c.val.toNat / 262144 % 0x08 = w := by omega
  have hx' : c.val.toNat / 4096 % 0x40 = x := by omega
  have hy' : c.val.toNat / 64 % 0x40 = y := by omega
  have hz' : c.val.toNat % 0x40 = z := by omega
  simp only [utf8EncodeChar]
  rw [if_neg (by omega), if_neg (by omega), if_neg (by omega), hw', hx', hy', hz']
  rfl

/-! ### The check -/

theorem utf8Loop_one {b : UInt8} (hb : b < 0x80) (r : List UInt8) :
    utf8Loop (b :: r) = utf8Loop r := by
  rw [utf8Loop.eq_def]
  exact if_pos hb

theorem utf8Loop_two {x y : ℕ} (hx : x < 32) (hy : y < 64) (r : List UInt8) :
    utf8Loop (marked 0xC0 x :: marked 0x80 y :: r) =
      (validCodePoint 0x80 (x * 64 + y) && utf8Loop r) := by
  obtain ⟨hlead, hmark, hbits⟩ := marked_two x hx
  obtain ⟨htail, htbits⟩ := marked_tail y hy
  rw [utf8Loop, if_neg hlead, if_pos hmark, addBits_eq _ htail, hbits, htbits, htail,
    Bool.true_and]

theorem utf8Loop_three {x y z : ℕ} (hx : x < 16) (hy : y < 64) (hz : z < 64) (r : List UInt8) :
    utf8Loop (marked 0xE0 x :: marked 0x80 y :: marked 0x80 z :: r) =
      (validCodePoint 0x800 ((x * 64 + y) * 64 + z) && utf8Loop r) := by
  obtain ⟨hlead, hmark, hmark', hbits⟩ := marked_three x hx
  obtain ⟨htail, htbits⟩ := marked_tail y hy
  obtain ⟨htail', htbits'⟩ := marked_tail z hz
  rw [utf8Loop, if_neg hlead, if_neg hmark, if_pos hmark']
  simp only [addBits_eq _ htail', addBits_eq _ htail, hbits, htbits, htbits', htail, htail',
    Bool.true_and]

theorem utf8Loop_four {w x y z : ℕ} (hw : w < 8) (hx : x < 64) (hy : y < 64) (hz : z < 64)
    (r : List UInt8) :
    utf8Loop (marked 0xF0 w :: marked 0x80 x :: marked 0x80 y :: marked 0x80 z :: r) =
      (validCodePoint 0x10000 (((w * 64 + x) * 64 + y) * 64 + z) && utf8Loop r) := by
  obtain ⟨hlead, hmark, hmark', hmark'', hbits⟩ := marked_four w hw
  obtain ⟨htail, htbits⟩ := marked_tail x hx
  obtain ⟨htail', htbits'⟩ := marked_tail y hy
  obtain ⟨htail'', htbits''⟩ := marked_tail z hz
  rw [utf8Loop, if_neg hlead, if_neg hmark, if_neg hmark', if_pos hmark'']
  simp only [addBits_eq _ htail'', addBits_eq _ htail', addBits_eq _ htail, hbits, htbits, htbits',
    htbits'', htail, htail', htail'', Bool.true_and]

theorem encodeChar_cases (c : Char) :
    (c.toNat < 0x80 ∧ utf8EncodeChar c = [UInt8.ofNat c.toNat]) ∨
      (∃ x < 32, ∃ y < 64, c.toNat = x * 64 + y ∧ 0x80 ≤ x * 64 + y ∧
        utf8EncodeChar c = [marked 0xC0 x, marked 0x80 y]) ∨
      (∃ x < 16, ∃ y < 64, ∃ z < 64, c.toNat = (x * 64 + y) * 64 + z ∧
        0x800 ≤ (x * 64 + y) * 64 + z ∧
        utf8EncodeChar c = [marked 0xE0 x, marked 0x80 y, marked 0x80 z]) ∨
      ∃ w < 8, ∃ x < 64, ∃ y < 64, ∃ z < 64, c.toNat = ((w * 64 + x) * 64 + y) * 64 + z ∧
        0x10000 ≤ ((w * 64 + x) * 64 + y) * 64 + z ∧
        utf8EncodeChar c = [marked 0xF0 w, marked 0x80 x, marked 0x80 y, marked 0x80 z] := by
  have hc := isScalar_char c
  unfold IsScalar at hc
  by_cases h1 : c.toNat < 0x80
  · exact .inl ⟨h1, encodeChar_one h1⟩
  by_cases h2 : c.toNat < 0x800
  · have hsplit : c.toNat = c.toNat / 64 * 64 + c.toNat % 64 := by omega
    exact .inr (.inl ⟨c.toNat / 64, by omega, c.toNat % 64, by omega, hsplit, by omega,
      encodeChar_two hsplit (by omega) (by omega) (by omega)⟩)
  by_cases h3 : c.toNat < 0x10000
  · have hsplit : c.toNat = (c.toNat / 4096 * 64 + c.toNat / 64 % 64) * 64 + c.toNat % 64 := by
      omega
    exact .inr (.inr (.inl ⟨c.toNat / 4096, by omega, c.toNat / 64 % 64, by omega, c.toNat % 64,
      by omega, hsplit, by omega,
      encodeChar_three hsplit (by omega) (by omega) (by omega) (by omega)⟩))
  · have hsplit : c.toNat = ((c.toNat / 262144 * 64 + c.toNat / 4096 % 64) * 64 +
        c.toNat / 64 % 64) * 64 + c.toNat % 64 := by
      omega
    exact .inr (.inr (.inr ⟨c.toNat / 262144, by omega, c.toNat / 4096 % 64, by omega,
      c.toNat / 64 % 64, by omega, c.toNat % 64, by omega, hsplit, by omega,
      encodeChar_four hsplit (by omega) (by omega) (by omega) (by omega) (by omega)⟩))

/-- The check goes over a character. -/
theorem utf8Loop_encodeChar (c : Char) (r : List UInt8) :
    utf8Loop (utf8EncodeChar c ++ r) = utf8Loop r := by
  have hscalar := isScalar_char c
  obtain ⟨h1, henc⟩ | ⟨x, hx, y, hy, hc, hmin, henc⟩ | ⟨x, hx, y, hy, z, hz, hc, hmin, henc⟩ |
    ⟨w, hw, x, hx, y, hy, z, hz, hc, hmin, henc⟩ := encodeChar_cases c
  · rw [henc]
    apply utf8Loop_one
    rw [UInt8.lt_iff_toNat_lt, UInt8.toNat_ofNat_of_lt' (Nat.lt_trans h1 (by decide))]
    exact h1
  · rw [hc] at hscalar
    rw [henc]
    refine (utf8Loop_two hx hy r).trans ?_
    rw [validCodePoint_of_isScalar hmin hscalar, Bool.true_and]
  · rw [hc] at hscalar
    rw [henc]
    refine (utf8Loop_three hx hy hz r).trans ?_
    rw [validCodePoint_of_isScalar hmin hscalar, Bool.true_and]
  · rw [hc] at hscalar
    rw [henc]
    refine (utf8Loop_four hw hx hy hz r).trans ?_
    rw [validCodePoint_of_isScalar hmin hscalar, Bool.true_and]

/-- What the check accepts starts with a character. -/
theorem utf8Loop_cons {b : UInt8} {r : List UInt8} (h : utf8Loop (b :: r) = true) :
    ∃ c r', b :: r = utf8EncodeChar c ++ r' ∧ utf8Loop r' = true := by
  rw [utf8Loop.eq_def] at h
  dsimp only at h
  split at h
  · next hone =>
      have hlt : b.toNat < 0x80 := UInt8.lt_iff_toNat_lt.mp hone
      have hchar : (Char.ofNat b.toNat).toNat = b.toNat := toNat_ofNat (.inl (by omega))
      refine ⟨Char.ofNat b.toNat, r, ?_, h⟩
      rw [encodeChar_one (by omega), hchar, UInt8.ofNat_toNat]
      rfl
  split at h
  · next hmark =>
      split at h
      · next b1 r' =>
          simp only [Bool.and_eq_true] at h
          obtain ⟨⟨htail, hvalid⟩, hrest⟩ := h
          obtain ⟨hx, hb⟩ := eq_marked_two b hmark
          obtain ⟨hy, hb1⟩ := eq_marked_tail b1 htail
          rw [addBits_eq _ htail] at hvalid
          obtain ⟨hmin, hscalar⟩ := isScalar_of_valid hvalid
          have henc := encodeChar_two (toNat_ofNat hscalar) hx hy hmin
          rw [← hb, ← hb1] at henc
          exact ⟨_, r', by rw [henc]; rfl, hrest⟩
      · cases h
  split at h
  · next hmark =>
      split at h
      · next b1 b2 r' =>
          simp only [Bool.and_eq_true] at h
          obtain ⟨⟨⟨htail, htail'⟩, hvalid⟩, hrest⟩ := h
          obtain ⟨hx, hb⟩ := eq_marked_three b hmark
          obtain ⟨hy, hb1⟩ := eq_marked_tail b1 htail
          obtain ⟨hz, hb2⟩ := eq_marked_tail b2 htail'
          rw [addBits_eq _ htail', addBits_eq _ htail] at hvalid
          obtain ⟨hmin, hscalar⟩ := isScalar_of_valid hvalid
          have henc := encodeChar_three (toNat_ofNat hscalar) hx hy hz hmin
          rw [← hb, ← hb1, ← hb2] at henc
          exact ⟨_, r', by rw [henc]; rfl, hrest⟩
      · cases h
  split at h
  · next hmark =>
      split at h
      · next b1 b2 b3 r' =>
          simp only [Bool.and_eq_true] at h
          obtain ⟨⟨⟨⟨htail, htail'⟩, htail''⟩, hvalid⟩, hrest⟩ := h
          obtain ⟨hw, hb⟩ := eq_marked_four b hmark
          obtain ⟨hx, hb1⟩ := eq_marked_tail b1 htail
          obtain ⟨hy, hb2⟩ := eq_marked_tail b2 htail'
          obtain ⟨hz, hb3⟩ := eq_marked_tail b3 htail''
          rw [addBits_eq _ htail'', addBits_eq _ htail', addBits_eq _ htail] at hvalid
          obtain ⟨hmin, hscalar⟩ := isScalar_of_valid hvalid
          have henc := encodeChar_four (toNat_ofNat hscalar) hw hx hy hz hmin
          rw [← hb, ← hb1, ← hb2, ← hb3] at henc
          exact ⟨_, r', by rw [henc]; rfl, hrest⟩
      · cases h
  · cases h

theorem utf8Loop_utf8 (cs : List Char) (r : List UInt8) :
    utf8Loop (utf8 cs ++ r) = utf8Loop r := by
  induction cs with
  | nil => rfl
  | cons c cs ih => rw [utf8_cons, List.append_assoc, utf8Loop_encodeChar, ih]

/-- The check accepts the encodings of characters, and nothing else. -/
theorem utf8Loop_iff (bs : List UInt8) : utf8Loop bs = true ↔ ∃ cs, bs = utf8 cs := by
  constructor
  · intro h
    induction hlen : bs.length using Nat.strongRecOn generalizing bs with
    | _ n ih =>
        cases bs with
        | nil => exact ⟨[], rfl⟩
        | cons b r =>
            obtain ⟨c, r', hsplit, hrest⟩ := utf8Loop_cons h
            have hpos : 0 < (utf8EncodeChar c).length := by
              rw [length_utf8EncodeChar]
              exact c.utf8Size_pos
            have hlt : r'.length < n := by
              rw [← hlen, hsplit, List.length_append]
              omega
            obtain ⟨cs, rfl⟩ := ih _ hlt r' hrest rfl
            exact ⟨c :: cs, hsplit⟩
  · rintro ⟨cs, rfl⟩
    have h := utf8Loop_utf8 cs []
    rw [List.append_nil] at h
    exact h

/-! ### The encoder -/

theorem tail_eq (n : ℕ) : UInt8.ofNat ((n ||| 0x80) &&& 0xBF) = marked 0x80 (n % 64) := by
  have hbyte (b : UInt8) : (b ||| 0x80) &&& 0xBF = marked 0x80 (b.toNat % 64) := by
    revert b
    apply forall_byte
    set_option maxRecDepth 4000 in
    decide
  have hmod : n % 256 % 64 = n % 64 := Nat.mod_mod_of_dvd n (by decide)
  have h := hbyte (UInt8.ofNat n)
  rw [UInt8.toNat_ofNat', hmod] at h
  rw [UInt8.ofNat_and, UInt8.ofNat_or]
  exact h

theorem first_two : ∀ x < 32, UInt8.ofNat ((x ||| 0xC0) &&& 0xFF) = marked 0xC0 x := by decide

theorem first_three : ∀ x < 16, UInt8.ofNat ((x ||| 0xE0) &&& 0xFF) = marked 0xE0 x := by decide

theorem first_four : ∀ x < 8, UInt8.ofNat ((x ||| 0xF0) &&& 0xFF) = marked 0xF0 x := by decide

theorem encodeUtf8_eq {cp : ℕ} (h : IsScalar cp) :
    encodeUtf8 cp = utf8EncodeChar (Char.ofNat cp) := by
  have hchar := toNat_ofNat h
  unfold IsScalar at h
  unfold encodeUtf8
  dsimp only
  simp only [Nat.shiftRight_eq_div_pow, tail_eq]
  split
  · next h1 =>
      have hand : cp &&& 0x7F = cp % 128 := Nat.and_two_pow_sub_one_eq_mod cp 7
      rw [encodeChar_one (by omega), hchar, hand, Nat.mod_eq_of_lt h1]
  split
  · next h2 =>
      rw [first_two _ (by omega), encodeChar_two (x := cp / 2 ^ 6) (y := cp % 64) (by omega)
        (by omega) (by omega) (by omega)]
  split
  · next h3 =>
      rw [first_three _ (by omega), encodeChar_three (x := cp / 2 ^ 12) (y := cp / 2 ^ 6 % 64)
        (z := cp % 64) (by omega) (by omega) (by omega) (by omega) (by omega)]
  · next h4 =>
      rw [first_four _ (by omega), encodeChar_four (w := cp / 2 ^ 18) (x := cp / 2 ^ 12 % 64)
        (y := cp / 2 ^ 6 % 64) (z := cp % 64) (by omega) (by omega) (by omega) (by omega)
        (by omega) (by omega)]

end Savvy.CJson
