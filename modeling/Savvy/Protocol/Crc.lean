import Savvy.Kit.CrcPolynomial
import Savvy.Protocol.PacketCodec

/-!
The checksum of a packet is CRC-32/ISO-HDLC. `savvy_crc32` takes a byte at a
time through a table of 256 words; the definition takes a bit at a time, the
lowest bit of each byte first.
-/

namespace Savvy

open Kit.Crc Polynomial

def isoHdlc : Params 32 where
  poly := 0xEDB88320
  init := 0xFFFFFFFF
  xorOut := 0xFFFFFFFF

def byteBits (b : UInt8) : List Bool := (List.range 8).map b.toBitVec.getLsbD

def messageBits (data : List UInt8) : List Bool := data.flatMap byteBits

@[simp] theorem messageBits_nil : messageBits [] = [] := rfl

@[simp] theorem messageBits_cons (b : UInt8) (data : List UInt8) :
    messageBits (b :: data) = byteBits b ++ messageBits data := rfl

@[simp] theorem messageBits_append (data data' : List UInt8) :
    messageBits (data ++ data') = messageBits data ++ messageBits data' := List.flatMap_append

/-! ### The table -/

theorem and_one_ne_zero (c : UInt32) : c &&& 1 ≠ 0 ↔ c.toBitVec.getLsbD 0 = true := by
  rw [Ne, ← UInt32.toBitVec_inj, UInt32.toBitVec_and,
    show (1 : UInt32).toBitVec = 1#32 from rfl, BitVec.and_one_eq_setWidth_ofBool_getLsbD]
  cases c.toBitVec.getLsbD 0 with
  | false => decide
  | true => decide

theorem toBitVec_crc32TableLoop (k : ℕ) (c : UInt32) :
    (crc32TableLoop k c).toBitVec = (shift isoHdlc.poly)^[k] c.toBitVec := by
  induction k generalizing c with
  | zero => rfl
  | succ k ih =>
      rw [crc32TableLoop, ih, Function.iterate_succ_apply, shift]
      congr 1
      by_cases hc : c.toBitVec.getLsbD 0 = true
      · rw [if_pos ((and_one_ne_zero c).mpr hc), if_pos hc, UInt32.toBitVec_xor, BitVec.xor_comm]
        rfl
      · rw [if_neg (mt (and_one_ne_zero c).mp hc), if_neg hc]
        rfl

theorem getLsbD_255 (i : ℕ) : (255#32).getLsbD i = decide (i < 8) := by
  rw [BitVec.getLsbD_ofNat, show (255 : ℕ) = 2 ^ 8 - 1 from rfl, Nat.testBit_two_pow_sub_one]
  by_cases hi : i < 8
  · simp [hi, Nat.lt_trans hi]
  · simp [hi]

theorem toBitVec_crc32Update (crc : UInt32) (b : UInt8) :
    (crc32Update crc b).toBitVec =
      (shift isoHdlc.poly)^[8] (crc.toBitVec ^^^ b.toBitVec.setWidth 32) := by
  have hindex : ((crc ^^^ b.toUInt32) &&& 0xFF).toBitVec =
      (crc.toBitVec ^^^ b.toBitVec.setWidth 32) &&& 255#32 := rfl
  have hlow : ∀ i < 32, ((crc ^^^ b.toUInt32) &&& 0xFF).toBitVec.getLsbD i =
      (decide (i < 8) && (crc.toBitVec ^^^ b.toBitVec.setWidth 32).getLsbD i) := by
    intro i _
    rw [hindex, BitVec.getLsbD_and, getLsbD_255, Bool.and_comm]
  have hbyte : b.toBitVec.setWidth 32 >>> 8 = 0#32 := by
    apply BitVec.eq_of_getLsbD_eq
    intro i _
    rw [BitVec.getLsbD_ushiftRight, BitVec.getLsbD_setWidth, BitVec.getLsbD_of_ge _ _ (by omega)]
    simp
  have hhigh : (crc.toBitVec ^^^ b.toBitVec.setWidth 32) >>> 8 = (crc >>> 8).toBitVec := by
    rw [BitVec.ushiftRight_xor_distrib, hbyte, BitVec.xor_zero]
    rfl
  rw [crc32Update, UInt32.toBitVec_xor, crc32Table, toBitVec_crc32TableLoop,
    iterate_shift_split isoHdlc.poly _ _ hlow, hhigh]

/-! ### Bytes as bits -/

@[simp] theorem length_byteBits (b : UInt8) : (byteBits b).length = 8 := by
  simp [byteBits]

theorem word_byteBits (b : UInt8) : word 32 (byteBits b) = b.toBitVec.setWidth 32 := by
  apply BitVec.eq_of_getLsbD_eq
  intro i hi
  rw [getLsbD_word hi, byteBits, BitVec.getLsbD_setWidth, decide_eq_true hi, Bool.true_and]
  by_cases hi8 : i < 8
  · simp [hi8]
  · simp [hi8, BitVec.getLsbD_of_ge _ i (Nat.le_of_not_lt hi8)]

theorem foldl_feed_byteBits (r : BitVec 32) (b : UInt8) :
    (byteBits b).foldl (feed isoHdlc.poly) r =
      (shift isoHdlc.poly)^[8] (r ^^^ b.toBitVec.setWidth 32) := by
  rw [foldl_feed (by simp), length_byteBits, word_byteBits]

theorem length_messageBits (data : List UInt8) : (messageBits data).length = 8 * data.length := by
  induction data with
  | nil => rfl
  | cons b data ih =>
      rw [messageBits_cons, List.length_append, length_byteBits, ih, List.length_cons]
      omega

theorem toBitVec_foldl_crc32Update (data : List UInt8) (crc : UInt32) :
    (data.foldl crc32Update crc).toBitVec =
      (messageBits data).foldl (feed isoHdlc.poly) crc.toBitVec := by
  induction data generalizing crc with
  | nil => rfl
  | cons b data ih =>
      rw [List.foldl_cons, ih, toBitVec_crc32Update, messageBits_cons, List.foldl_append,
        foldl_feed_byteBits]

/-- The table gives the check that is defined bit by bit. -/
theorem toBitVec_crc32 (data : List UInt8) :
    (crc32 data).toBitVec = isoHdlc.value (messageBits data) := by
  rw [crc32, UInt32.toBitVec_xor, toBitVec_foldl_crc32Update]
  rfl

/-! ### The generator -/

noncomputable def crc32Generator : (ZMod 2)[X] :=
  X ^ 32 + X ^ 26 + X ^ 23 + X ^ 22 + X ^ 16 + X ^ 12 + X ^ 11 + X ^ 10 + X ^ 8 + X ^ 7 + X ^ 5 +
    X ^ 4 + X ^ 2 + X + 1

theorem generator_isoHdlc : generator isoHdlc.poly = crc32Generator := by
  simp only [generator, toPoly, isoHdlc, Finset.sum_range_succ, Finset.sum_range_zero]
  simp [crc32Generator]
  ring

/-- `savvy_crc32` is the check that is defined bit by bit, and up to the final
exclusive or the remainder of the message with 32 zero bits behind it and 32
ones added at its front. -/
theorem crc32_isoHdlc (data : List UInt8) :
    (crc32 data).toBitVec = isoHdlc.value (messageBits data) ∧
      toPoly (crc32 data).toBitVec =
        (message (messageBits data) * X ^ 32 +
            (∑ i ∈ Finset.range 32, X ^ i) * X ^ (8 * data.length)) %ₘ crc32Generator +
          ∑ i ∈ Finset.range 32, X ^ i := by
  have hones : (∑ i ∈ Finset.range 32, X ^ i : (ZMod 2)[X]) = toPoly (BitVec.allOnes 32) :=
    toPoly_allOnes.symm
  have hinit : isoHdlc.init = BitVec.allOnes 32 ∧ isoHdlc.xorOut = BitVec.allOnes 32 := by
    constructor
    · rfl
    · rfl
  refine ⟨toBitVec_crc32 data, ?_⟩
  rw [toBitVec_crc32, Params.value, toPoly_xor, toPoly_foldl_feed (by decide), generator_isoHdlc,
    length_messageBits, hinit.1, hinit.2, hones]

/-- The check value of CRC-32/ISO-HDLC. -/
example : crc32 [0x31, 0x32, 0x33, 0x34, 0x35, 0x36, 0x37, 0x38, 0x39] = 0xCBF43926 := by
  decide +kernel

/-! ### Short corruption -/

theorem byteBits_injective : Function.Injective byteBits := by
  intro b b' h
  rw [← UInt8.toBitVec_inj]
  have hword := congrArg (word 32) h
  rw [word_byteBits, word_byteBits] at hword
  apply BitVec.eq_of_getLsbD_eq
  intro i hi
  have hbit := congrArg (fun r => r.getLsbD i) hword
  have hi32 : i < 32 := by omega
  simpa [BitVec.getLsbD_setWidth, hi32] using hbit

theorem messageBits_injective {data data' : List UInt8} (hlen : data.length = data'.length)
    (h : messageBits data = messageBits data') : data = data' := by
  induction data generalizing data' with
  | nil => exact (List.length_eq_zero_iff.mp hlen.symm).symm
  | cons b data ih =>
      cases data' with
      | nil => cases hlen
      | cons b' data' =>
          rw [messageBits_cons, messageBits_cons] at h
          obtain ⟨hb, hrest⟩ := List.append_inj h (by simp)
          rw [byteBits_injective hb, ih (Nat.succ.inj hlen) hrest]

/-- Two strings of the same length that differ, and only within a window of
`n` bytes. -/
structure DifferWithin (n : ℕ) (data data' : List UInt8) : Prop where
  length_eq : data.length = data'.length
  ne : data ≠ data'
  window : ∃ i, ∀ j, j < i ∨ i + n ≤ j → data[j]? = data'[j]?

/-- What is in front of the window, what is in it, and what is behind it. -/
theorem DifferWithin.split {n : ℕ} {data data' : List UInt8} (h : DifferWithin n data data') :
    ∃ before burst burst' after, data = before ++ burst ++ after ∧
      data' = before ++ burst' ++ after ∧ burst.length = burst'.length ∧ burst.length ≤ n := by
  obtain ⟨i, hi⟩ := h.window
  have hbefore : data.take i = data'.take i := by
    apply List.ext_getElem?
    intro j
    rw [List.getElem?_take, List.getElem?_take]
    split
    · next hj => exact hi j (.inl hj)
    · rfl
  have hafter : data.drop (i + n) = data'.drop (i + n) := by
    apply List.ext_getElem?
    intro j
    rw [List.getElem?_drop, List.getElem?_drop]
    exact hi _ (.inr (Nat.le_add_right _ _))
  have hsplit (xs : List UInt8) : xs = xs.take i ++ (xs.drop i).take n ++ xs.drop (i + n) := by
    rw [List.append_assoc, ← List.drop_drop, List.take_append_drop, List.take_append_drop]
  refine ⟨data.take i, (data.drop i).take n, (data'.drop i).take n, data.drop (i + n), hsplit data,
    ?_, ?_, ?_⟩
  · rw [hbefore, hafter]
    exact hsplit data'
  · rw [List.length_take, List.length_take, List.length_drop, List.length_drop, h.length_eq]
  · exact List.length_take_le _ _

theorem DifferWithin.crc32_ne {data data' : List UInt8} (h : DifferWithin 4 data data') :
    crc32 data ≠ crc32 data' := by
  intro heq
  obtain ⟨before, burst, burst', after, hdata, hdata', hlen, hle⟩ := h.split
  rw [← UInt32.toBitVec_inj, toBitVec_crc32, toBitVec_crc32] at heq
  have hreg := (BitVec.xor_left_inj _).mp heq
  rw [hdata, hdata'] at hreg
  simp only [messageBits_append] at hreg
  have hbits : messageBits burst = messageBits burst' := by
    refine foldl_feed_burst (by decide) ?_ ?_ hreg
    · rw [length_messageBits, length_messageBits, hlen]
    · rw [length_messageBits]
      omega
  apply h.ne
  rw [hdata, hdata', messageBits_injective hlen hbits]

end Savvy
