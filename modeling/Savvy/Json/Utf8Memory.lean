import Savvy.Json.Utf8

/-!
`savvy_utf8_validate` on memory (`src/protocol/json/json_codec.c`). The function
walks a pointer over the bytes of a C string; a read behind the end of the block
is a fault. A block that ends right behind the terminator is enough for it: the
terminator is no continuation byte, so a sequence that is cut short ends there.
-/

namespace Savvy.CJson

/-- What the first byte of a longer sequence says: how many bytes follow, its
bits of the code point and the least code point of that length. -/
def utf8Lead (b0 : UInt8) : Option (ℕ × UInt32 × UInt32) :=
  if b0 &&& 0xE0 = 0xC0 then some (1, (b0 &&& 0x1F).toUInt32, 0x80)
  else if b0 &&& 0xF0 = 0xE0 then some (2, (b0 &&& 0x0F).toUInt32, 0x800)
  else if b0 &&& 0xF8 = 0xF0 then some (3, (b0 &&& 0x07).toUInt32, 0x10000)
  else none

/-- `cp = (cp << 6) | (b & 0x3F)`. -/
def shiftIn (cp : UInt32) (b : UInt8) : UInt32 := cp <<< 6 ||| (b &&& 0x3F).toUInt32

/-- The inner loop over the bytes that follow: the code point and the memory
behind them. -/
def utf8Extra : ℕ → UInt32 → List UInt8 → Option (Except Status (UInt32 × List UInt8))
  | 0, cp, p => some (.ok (cp, p))
  | _ + 1, _, [] => none
  | extra + 1, cp, b :: p =>
      if b &&& 0xC0 ≠ 0x80 then some (.error .protocol) else utf8Extra extra (shiftIn cp b) p

theorem length_utf8Extra {extra : ℕ} {cp cp' : UInt32} {p p' : List UInt8}
    (h : utf8Extra extra cp p = some (.ok (cp', p'))) : p'.length ≤ p.length := by
  induction extra generalizing cp p with
  | zero => cases h; exact Nat.le_refl _
  | succ extra ih =>
      cases p with
      | nil => cases h
      | cons b p =>
          rw [utf8Extra] at h
          split at h
          · cases h
          · exact Nat.le_succ_of_le (ih h)

def utf8ValidateFrom : List UInt8 → Option Status
  | [] => none
  | b0 :: p =>
      if b0 = 0 then some .ok
      else if b0 < 0x80 then utf8ValidateFrom p
      else
        match utf8Lead b0 with
        | none => some .protocol
        | some (extra, bits, minCp) =>
            match _h : utf8Extra extra bits p with
            | none => none
            | some (.error status) => some status
            | some (.ok (cp, p')) =>
                if cp < minCp then some .protocol
                else if 0xD800 ≤ cp ∧ cp ≤ 0xDFFF then some .protocol
                else if 0x10FFFF < cp then some .protocol
                else utf8ValidateFrom p'
  termination_by p => p.length
  decreasing_by
  · exact Nat.lt_succ_self _
  · exact Nat.lt_succ_of_le (length_utf8Extra _h)

/-- `savvy_utf8_validate`, on a pointer that may be null. -/
def utf8ValidateAt : Option (List UInt8) → Option Status
  | none => some .invalidArgument
  | some mem => utf8ValidateFrom mem

/-! ### Code points -/

theorem toNat_shiftIn {cp : UInt32} (hcp : cp.toNat * 64 < 4294967296) (b : UInt8) :
    (shiftIn cp b).toNat = addBits cp.toNat b := by
  have hshift : cp.toNat <<< 6 < 2 ^ 32 := by
    rw [Nat.shiftLeft_eq]
    omega
  simp only [shiftIn, addBits, UInt32.toNat_or, UInt32.toNat_shiftLeft]
  rw [show (6 : UInt32).toNat % 32 = 6 from rfl, Nat.mod_eq_of_lt hshift]
  rfl

/-- The code point fits in 32 bits while the bytes are shifted in. -/
theorem toNat_foldl_shiftIn {bs : List UInt8} (hbs : bs.all isContinuation = true) {cp : UInt32}
    (hcp : (cp.toNat + 1) * 64 ^ bs.length ≤ 4294967296) :
    (bs.foldl shiftIn cp).toNat = bs.foldl addBits cp.toNat := by
  induction bs generalizing cp with
  | nil => rfl
  | cons b bs ih =>
      rw [List.all_cons, Bool.and_eq_true] at hbs
      rw [List.length_cons, Nat.pow_succ'] at hcp
      have hstep : (cp.toNat + 1) * 64 ≤ (cp.toNat + 1) * (64 * 64 ^ bs.length) :=
        Nat.mul_le_mul_left _ (Nat.le_mul_of_pos_right 64 (Nat.pow_pos (by decide)))
      have hshift : (shiftIn cp b).toNat = addBits cp.toNat b := toNat_shiftIn (by omega) b
      have hnext : (shiftIn cp b).toNat + 1 ≤ (cp.toNat + 1) * 64 := by
        have hlt := (eq_marked_tail b hbs.1).1
        rw [hshift, addBits_eq _ hbs.1]
        omega
      rw [List.foldl_cons, List.foldl_cons, ih hbs.2, hshift]
      calc ((shiftIn cp b).toNat + 1) * 64 ^ bs.length
          ≤ (cp.toNat + 1) * 64 * 64 ^ bs.length := Nat.mul_le_mul_right _ hnext
        _ = (cp.toNat + 1) * (64 * 64 ^ bs.length) := Nat.mul_assoc _ _ _
        _ ≤ 4294967296 := hcp

theorem checks_eq (minCp cp : UInt32) (next : Option Status) :
    (if cp < minCp then some .protocol
      else if 0xD800 ≤ cp ∧ cp ≤ 0xDFFF then some .protocol
      else if 0x10FFFF < cp then some .protocol
      else next) =
      if validCodePoint minCp.toNat cp.toNat then next else some .protocol := by
  have hvalid : validCodePoint minCp.toNat cp.toNat = true ↔
      ¬ cp < minCp ∧ ¬ (0xD800 ≤ cp ∧ cp ≤ 0xDFFF) ∧ ¬ 0x10FFFF < cp := by
    simp only [validCodePoint, Bool.and_eq_true, Bool.not_eq_true', Bool.and_eq_false_iff,
      decide_eq_true_eq, decide_eq_false_iff_not, UInt32.lt_iff_toNat_lt, UInt32.le_iff_toNat_le,
      UInt32.reduceToNat]
    omega
  by_cases hmin : cp < minCp
  · rw [if_pos hmin, if_neg (by rw [hvalid]; tauto)]
  · by_cases hsurrogate : 0xD800 ≤ cp ∧ cp ≤ 0xDFFF
    · rw [if_neg hmin, if_pos hsurrogate, if_neg (by rw [hvalid]; tauto)]
    · by_cases hmax : 0x10FFFF < cp
      · rw [if_neg hmin, if_neg hsurrogate, if_pos hmax, if_neg (by rw [hvalid]; tauto)]
      · rw [if_neg hmin, if_neg hsurrogate, if_neg hmax, if_pos (hvalid.mpr ⟨hmin, hsurrogate, hmax⟩)]

/-! ### The walk -/

/-- The bytes that follow, when they are all there. -/
theorem utf8Extra_append (bs p : List UInt8) (cp : UInt32) :
    utf8Extra bs.length cp (bs ++ p) =
      if bs.all isContinuation then some (.ok (bs.foldl shiftIn cp, p))
      else some (.error .protocol) := by
  induction bs generalizing cp with
  | nil => rfl
  | cons b bs ih =>
      rw [List.length_cons, List.cons_append, utf8Extra, List.all_cons, isContinuation]
      by_cases hb : b &&& 0xC0 = 0x80
      · rw [if_neg (not_not.mpr hb), ih, decide_eq_true hb, Bool.true_and, List.foldl_cons]
      · rw [if_pos hb, decide_eq_false hb, Bool.false_and, if_neg (by decide)]

/-- The terminator ends a sequence that is cut short. -/
theorem utf8Extra_short {extra : ℕ} {r : List UInt8} (hr : r.length < extra) (cp : UInt32)
    (p : List UInt8) : utf8Extra extra cp (r ++ 0 :: p) = some (.error .protocol) := by
  induction r generalizing extra cp with
  | nil =>
      obtain ⟨extra, rfl⟩ := Nat.exists_eq_succ_of_ne_zero (Nat.ne_of_gt hr)
      rw [List.nil_append, utf8Extra, if_pos (by decide)]
  | cons b r ih =>
      obtain ⟨extra, rfl⟩ := Nat.exists_eq_succ_of_ne_zero (Nat.ne_of_gt (Nat.zero_lt_of_lt hr))
      rw [List.cons_append, utf8Extra, ih (Nat.lt_of_succ_lt_succ hr), ite_self]

/-- A first byte leaves room for the bits that follow. -/
theorem utf8Lead_bounds {b0 : UInt8} {extra : ℕ} {bits minCp : UInt32}
    (h : utf8Lead b0 = some (extra, bits, minCp)) : (bits.toNat + 1) * 64 ^ extra ≤ 4294967296 := by
  have hbyte (b : UInt8) {n : ℕ} (hn : n ≤ 3) : (b.toUInt32.toNat + 1) * 64 ^ n ≤ 4294967296 := by
    calc (b.toUInt32.toNat + 1) * 64 ^ n
        ≤ 256 * 64 ^ 3 := Nat.mul_le_mul b.toNat_lt (Nat.pow_le_pow_right (by decide) hn)
      _ ≤ 4294967296 := by decide
  unfold utf8Lead at h
  split_ifs at h
  · cases h
    exact hbyte _ (by decide)
  · cases h
    exact hbyte _ (by decide)
  · cases h
    exact hbyte _ (by decide)

def verdict (ok : Bool) : Status := if ok then .ok else .protocol

section Sequence

variable {b0 : UInt8} {extra : ℕ} {bits minCp : UInt32} (hb0 : ¬ b0 < 0x80)
  (hlead : utf8Lead b0 = some (extra, bits, minCp))

include hb0 hlead

theorem utf8ValidateFrom_sequence (bs : List UInt8) (hextra : extra = bs.length) {p : List UInt8}
    {ok : Bool} (hp : utf8ValidateFrom p = some (verdict ok)) :
    utf8ValidateFrom (b0 :: (bs ++ p)) =
      some (verdict (bs.all isContinuation &&
        (validCodePoint minCp.toNat (bs.foldl addBits bits.toNat) && ok))) := by
  have hne : b0 ≠ 0 := by
    rintro rfl
    exact hb0 (by decide)
  have hall := utf8Extra_append bs p bits
  have hbits := utf8Lead_bounds hlead
  rw [hextra] at hbits
  rw [← hextra] at hall
  rw [utf8ValidateFrom, if_neg hne, if_neg hb0, hlead]
  dsimp only
  cases hbs : bs.all isContinuation with
  | false =>
      rw [hbs, if_neg (by decide)] at hall
      rw [Bool.false_and]
      split
      · next heq => cases hall.symm.trans heq
      · next heq => cases hall.symm.trans heq; rfl
      · next heq => cases hall.symm.trans heq
  | true =>
      rw [hbs, if_pos rfl] at hall
      rw [Bool.true_and, ← toNat_foldl_shiftIn hbs hbits]
      split
      · next heq => cases hall.symm.trans heq
      · next heq => cases hall.symm.trans heq
      · next heq =>
          cases hall.symm.trans heq
          rw [checks_eq, hp]
          cases validCodePoint minCp.toNat (bs.foldl shiftIn bits).toNat with
          | false => rfl
          | true => rfl

theorem utf8ValidateFrom_short {r : List UInt8} (hr : r.length < extra) (p : List UInt8) :
    utf8ValidateFrom (b0 :: (r ++ 0 :: p)) = some .protocol := by
  have hne : b0 ≠ 0 := by
    rintro rfl
    exact hb0 (by decide)
  have hshort := utf8Extra_short hr bits p
  rw [utf8ValidateFrom, if_neg hne, if_neg hb0, hlead]
  dsimp only
  split
  · next heq => cases hshort.symm.trans heq
  · next heq => cases hshort.symm.trans heq; rfl
  · next heq => cases hshort.symm.trans heq

end Sequence

/-- The walk over a C string ends at its terminator, with the result of the
check of the bytes before it. -/
theorem utf8ValidateFrom_eq {s : List UInt8} (hs : 0 ∉ s) (more : List UInt8) :
    utf8ValidateFrom (s ++ 0 :: more) = some (verdict (utf8Loop s)) := by
  fun_induction utf8Loop s with
  | case1 =>
      rw [List.nil_append, utf8ValidateFrom, if_pos rfl]
      rfl
  | case2 b0 r hb0 ih =>
      rw [List.mem_cons, not_or] at hs
      rw [List.cons_append, utf8ValidateFrom, if_neg (Ne.symm hs.1), if_pos hb0, ih hs.2]
  | case3 b0 hb0 hmark b1 r ih =>
      have hlead : utf8Lead b0 = some (1, (b0 &&& 0x1F).toUInt32, 0x80) := if_pos hmark
      simp only [List.mem_cons, not_or] at hs
      refine (utf8ValidateFrom_sequence hb0 hlead [b1] rfl (ih hs.2.2)).trans ?_
      simp only [List.all_cons, List.all_nil, Bool.and_true, Bool.and_assoc]
      rfl
  | case4 b0 hb0 hmark =>
      have hlead : utf8Lead b0 = some (1, (b0 &&& 0x1F).toUInt32, 0x80) := if_pos hmark
      exact utf8ValidateFrom_short hb0 hlead (r := []) (by decide) more
  | case5 b0 hb0 htwo hmark b1 b2 r ih =>
      have hlead : utf8Lead b0 = some (2, (b0 &&& 0x0F).toUInt32, 0x800) := by
        rw [utf8Lead, if_neg htwo, if_pos hmark]
      simp only [List.mem_cons, not_or] at hs
      refine (utf8ValidateFrom_sequence hb0 hlead [b1, b2] rfl (ih hs.2.2.2)).trans ?_
      simp only [List.all_cons, List.all_nil, Bool.and_true, Bool.and_assoc]
      rfl
  | case6 b0 r hb0 htwo hmark hshort =>
      have hlead : utf8Lead b0 = some (2, (b0 &&& 0x0F).toUInt32, 0x800) := by
        rw [utf8Lead, if_neg htwo, if_pos hmark]
      refine utf8ValidateFrom_short hb0 hlead ?_ more
      rcases r with _ | ⟨b1, _ | ⟨b2, r⟩⟩
      · decide
      · simp
      · exact absurd rfl (hshort b1 b2 r)
  | case7 b0 hb0 htwo hthree hmark b1 b2 b3 r ih =>
      have hlead : utf8Lead b0 = some (3, (b0 &&& 0x07).toUInt32, 0x10000) := by
        rw [utf8Lead, if_neg htwo, if_neg hthree, if_pos hmark]
      simp only [List.mem_cons, not_or] at hs
      refine (utf8ValidateFrom_sequence hb0 hlead [b1, b2, b3] rfl (ih hs.2.2.2.2)).trans ?_
      simp only [List.all_cons, List.all_nil, Bool.and_true, Bool.and_assoc]
      rfl
  | case8 b0 r hb0 htwo hthree hmark hshort =>
      have hlead : utf8Lead b0 = some (3, (b0 &&& 0x07).toUInt32, 0x10000) := by
        rw [utf8Lead, if_neg htwo, if_neg hthree, if_pos hmark]
      refine utf8ValidateFrom_short hb0 hlead ?_ more
      rcases r with _ | ⟨b1, _ | ⟨b2, _ | ⟨b3, r⟩⟩⟩
      · decide
      · simp
      · simp
      · exact absurd rfl (hshort b1 b2 b3 r)
  | case9 b0 r hb0 htwo hthree hfour =>
      have hlead : utf8Lead b0 = none := by
        rw [utf8Lead, if_neg htwo, if_neg hthree, if_neg hfour]
      have hne : b0 ≠ 0 := by
        rintro rfl
        exact hb0 (by decide)
      rw [List.cons_append, utf8ValidateFrom, if_neg hne, if_neg hb0, hlead]
      rfl

/-- The check of a string of a tree is the function on its bytes and the
terminator behind them. -/
theorem utf8ValidateAt_eq (s more : List UInt8) :
    utf8ValidateAt (some (s ++ 0 :: more)) = some (verdict (utf8Validate s)) := by
  have hsplit : ∃ more', s ++ 0 :: more = cstr s ++ 0 :: more' := by
    induction s with
    | nil => exact ⟨more, rfl⟩
    | cons b s ih =>
        by_cases hb : b = 0
        · subst hb
          exact ⟨s ++ 0 :: more, rfl⟩
        · obtain ⟨more', heq⟩ := ih
          refine ⟨more', ?_⟩
          have hcstr : cstr (b :: s) = b :: cstr s :=
            List.takeWhile_cons_of_pos (by simpa using hb)
          rw [hcstr, List.cons_append, heq, List.cons_append]
  obtain ⟨more', heq⟩ := hsplit
  rw [heq, utf8ValidateAt, utf8Validate]
  exact utf8ValidateFrom_eq (zero_notMem_cstr s) more'

theorem toNat_ne_zero {cs : List Char} (h : 0 ∉ utf8 cs) : ∀ c ∈ cs, c.toNat ≠ 0 := by
  intro c hc hzero
  apply h
  rw [utf8, List.mem_flatMap]
  refine ⟨c, hc, ?_⟩
  rw [encodeChar_one (by omega), hzero]
  exact List.mem_singleton.mpr rfl

/-- `savvy_utf8_validate` accepts the encodings of the characters from `U+0001`
on and nothing else, and a block that ends right behind the terminator is enough
for it. -/
theorem utf8ValidateAt_rfc3629 {s : List UInt8} (hs : 0 ∉ s) (more : List UInt8) :
    (utf8ValidateAt (some (s ++ 0 :: more)) = some .ok ↔
        ∃ cs : List Char, (∀ c ∈ cs, c.toNat ≠ 0) ∧ s = utf8 cs) ∧
      utf8ValidateAt (some (s ++ [0])) = utf8ValidateAt (some (s ++ 0 :: more)) ∧
      utf8ValidateAt (some (s ++ [0])) ≠ none := by
  simp only [utf8ValidateAt, utf8ValidateFrom_eq hs]
  refine ⟨?_, trivial, by simp⟩
  have hok : some (verdict (utf8Loop s)) = some .ok ↔ utf8Loop s = true := by
    cases utf8Loop s with
    | false => simp [verdict]
    | true => simp [verdict]
  rw [hok, utf8Loop_iff]
  constructor
  · rintro ⟨cs, rfl⟩
    exact ⟨cs, toNat_ne_zero hs, rfl⟩
  · rintro ⟨cs, -, hcs⟩
    exact ⟨cs, hcs⟩

/-- A sequence of three bytes that the terminator cuts short. -/
theorem utf8ValidateAt_rfc3629_cut :
    (∃ cs : List Char, (∀ c ∈ cs, c.toNat ≠ 0) ∧ [0xE2, 0x82, 0xAC] = utf8 cs) ∧
      utf8ValidateAt (some [0xE2, 0x82, 0xAC, 0]) = some .ok ∧
      utf8ValidateAt (some [0xE2, 0x82, 0]) ≠ none := by
  have hchar : ∃ cs : List Char, (∀ c ∈ cs, c.toNat ≠ 0) ∧ [0xE2, 0x82, 0xAC] = utf8 cs :=
    ⟨['€'], by simp, by decide⟩
  exact ⟨hchar, (utf8ValidateAt_rfc3629 (s := [0xE2, 0x82, 0xAC]) (by decide) []).1.mpr hchar,
    (utf8ValidateAt_rfc3629 (s := [0xE2, 0x82]) (by decide) []).2.2⟩

end Savvy.CJson
