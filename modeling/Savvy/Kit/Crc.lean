import Mathlib.Logic.Function.Iterate
import Mathlib.Tactic.Common

/-!
Cyclic redundancy checks, reflected, with a register of any width. A bit of the
message is compared with the low end of the register, which then moves down by
one place; the bit that falls out puts the polynomial in. A move is linear in
exclusive or, and if the polynomial has its highest bit set it loses nothing, so
bits that fit into the register can be told apart.
-/

namespace Savvy.Kit.Crc

variable {w : ℕ}

def shift (poly r : BitVec w) : BitVec w :=
  if r.getLsbD 0 then (r >>> 1) ^^^ poly else r >>> 1

def feed (poly r : BitVec w) (b : Bool) : BitVec w :=
  if (r.getLsbD 0 ^^ b) then (r >>> 1) ^^^ poly else r >>> 1

/-- The parameters of a check besides its polynomial. -/
structure Params (w : ℕ) where
  poly : BitVec w
  init : BitVec w
  xorOut : BitVec w

def Params.value (p : Params w) (bits : List Bool) : BitVec w :=
  bits.foldl (feed p.poly) p.init ^^^ p.xorOut

/-! ### Moves are linear -/

theorem shift_xor (poly a b : BitVec w) :
    shift poly (a ^^^ b) = shift poly a ^^^ shift poly b := by
  unfold shift
  rw [BitVec.getLsbD_xor, BitVec.ushiftRight_xor_distrib]
  cases a.getLsbD 0 with
  | false =>
      cases b.getLsbD 0 with
      | false => rfl
      | true => simp [BitVec.xor_assoc]
  | true =>
      cases b.getLsbD 0 with
      | false => simp only [Bool.xor_false, if_true, Bool.false_eq_true, if_false]; ac_rfl
      | true =>
          have hcancel : (a >>> 1 ^^^ poly) ^^^ (b >>> 1 ^^^ poly) =
              (a >>> 1 ^^^ b >>> 1) ^^^ (poly ^^^ poly) := by
            ac_rfl
          simp [hcancel]

theorem iterate_shift_xor (poly : BitVec w) (n : ℕ) (a b : BitVec w) :
    (shift poly)^[n] (a ^^^ b) = (shift poly)^[n] a ^^^ (shift poly)^[n] b := by
  induction n generalizing a b with
  | zero => rfl
  | succ n ih => rw [Function.iterate_succ_apply, shift_xor, ih]; rfl

/-- A register whose highest bits are clear, moved up and down again. -/
theorem iterate_shift_shiftLeft (poly : BitVec w) {n : ℕ} {y : BitVec w}
    (hy : ∀ i, w ≤ i + n → y.getLsbD i = false) : (shift poly)^[n] (y <<< n) = y := by
  induction n with
  | zero => simp
  | succ n ih =>
      have hlow : (y <<< (n + 1)).getLsbD 0 = false := by simp
      have hback : y <<< (n + 1) >>> 1 = y <<< n := by
        apply BitVec.eq_of_getLsbD_eq
        intro i hi
        rw [BitVec.getLsbD_ushiftRight, BitVec.getLsbD_shiftLeft, BitVec.getLsbD_shiftLeft,
          Nat.add_comm 1 i, Nat.add_sub_add_right]
        by_cases hin : i < n
        · simp [hin]
        · by_cases htop : i + 1 < w
          · simp [hin, htop, hi]
          · -- the highest bit has fallen out, and it was clear
            simp [htop, hy (i - n) (by omega)]
      rw [Function.iterate_succ_apply, shift, hlow, if_neg (by decide), hback]
      exact ih fun i hi => hy i (by omega)

/-! ### Many bits at once -/

/-- Bits in the low places of a register, the first one lowest. -/
def word (w : ℕ) : List Bool → BitVec w
  | [] => 0
  | b :: bs => (word w bs <<< 1) ^^^ (BitVec.ofBool b).setWidth w

theorem getLsbD_word {bs : List Bool} {i : ℕ} (hi : i < w) :
    (word w bs).getLsbD i = bs.getD i false := by
  induction bs generalizing i with
  | nil => simp [word]
  | cons b bs ih =>
      rw [word, BitVec.getLsbD_xor, BitVec.getLsbD_shiftLeft, BitVec.getLsbD_setWidth]
      cases i with
      | zero => simp [hi]
      | succ i => simp [hi, ih (Nat.lt_of_succ_lt hi)]

theorem word_injective {bs bs' : List Bool} (hlen : bs.length = bs'.length) (hw : bs.length ≤ w)
    (h : word w bs = word w bs') : bs = bs' := by
  apply List.ext_getElem hlen
  intro i hi hi'
  have hbit := congrArg (fun r => r.getLsbD i) h
  simp only [getLsbD_word (Nat.lt_of_lt_of_le hi hw)] at hbit
  simpa [hi, hi'] using hbit

theorem feed_eq (poly r : BitVec w) (b : Bool) :
    feed poly r b = shift poly (r ^^^ (BitVec.ofBool b).setWidth w) := by
  rcases Nat.eq_zero_or_pos w with rfl | hw
  · exact Subsingleton.elim _ _
  · have hlow : ((BitVec.ofBool b).setWidth w).getLsbD 0 = b := by simp [hw]
    have hrest : (BitVec.ofBool b).setWidth w >>> 1 = 0#w := by
      apply BitVec.eq_of_getLsbD_eq
      intro i hi
      rw [BitVec.getLsbD_ushiftRight, BitVec.getLsbD_setWidth, BitVec.getLsbD_of_ge _ _ (by omega)]
      simp
    rw [feed, shift, BitVec.getLsbD_xor, hlow, BitVec.ushiftRight_xor_distrib, hrest,
      BitVec.xor_zero]

/-- Bits that fit into the register can be put into it first and moved out
after. -/
theorem foldl_feed {bs : List Bool} (hw : bs.length ≤ w) (poly r : BitVec w) :
    bs.foldl (feed poly) r = (shift poly)^[bs.length] (r ^^^ word w bs) := by
  induction bs generalizing r with
  | nil => simp [word]
  | cons b bs ih =>
      rw [List.length_cons] at hw
      have htop : shift poly (word w bs <<< 1) = word w bs := by
        apply iterate_shift_shiftLeft poly (n := 1)
        intro i hi
        by_cases hiw : i < w
        · rw [getLsbD_word hiw, List.getD_eq_getElem?_getD, List.getElem?_eq_none (by omega)]
          rfl
        · exact BitVec.getLsbD_of_ge _ _ (by omega)
      rw [List.foldl_cons, ih (by omega), List.length_cons, Function.iterate_succ_apply, word,
        ← BitVec.xor_assoc, BitVec.xor_comm r, BitVec.xor_assoc, shift_xor, htop, feed_eq,
        BitVec.xor_comm]

/-- Some moves at once: those of the low bits, and the rest moved down. -/
theorem iterate_shift_split (poly x : BitVec w) {n : ℕ} (low : BitVec w)
    (hlow : ∀ i < w, low.getLsbD i = (decide (i < n) && x.getLsbD i)) :
    (shift poly)^[n] x = (shift poly)^[n] low ^^^ (x >>> n) := by
  have hsplit : x = low ^^^ (x >>> n <<< n) := by
    apply BitVec.eq_of_getLsbD_eq
    intro i hi
    rw [BitVec.getLsbD_xor, hlow i hi, BitVec.getLsbD_shiftLeft, BitVec.getLsbD_ushiftRight]
    by_cases hin : i < n
    · simp [hin]
    · simp [hin, hi, Nat.add_sub_cancel' (Nat.le_of_not_lt hin)]
  have hhigh : ∀ i, w ≤ i + n → (x >>> n).getLsbD i = false := by
    intro i hi
    rw [BitVec.getLsbD_ushiftRight]
    exact BitVec.getLsbD_of_ge _ _ (by omega)
  conv_lhs => rw [hsplit]
  rw [iterate_shift_xor, iterate_shift_shiftLeft poly hhigh]

/-! ### Nothing is lost -/

section Injective

variable {poly : BitVec w} (htop : poly.msb = true)

include htop

theorem msb_shift (r : BitVec w) : (shift poly r).msb = r.getLsbD 0 := by
  unfold shift
  cases hr : r.getLsbD 0 with
  | false => simp [BitVec.msb_ushiftRight]
  | true => simp [BitVec.msb_xor, BitVec.msb_ushiftRight, htop]

theorem shift_injective : Function.Injective (shift poly) := by
  intro r r' h
  have hlow : r.getLsbD 0 = r'.getLsbD 0 := by
    rw [← msb_shift htop r, ← msb_shift htop r', h]
  have hrest : r >>> 1 = r' >>> 1 := by
    unfold shift at h
    rw [hlow] at h
    split_ifs at h
    · exact (BitVec.xor_left_inj _).mp h
    · exact h
  apply BitVec.eq_of_getLsbD_eq
  intro i hi
  cases i with
  | zero => exact hlow
  | succ i =>
      have hbit := congrArg (fun x => x.getLsbD i) hrest
      simp only [BitVec.getLsbD_ushiftRight, Nat.add_comm 1 i] at hbit
      exact hbit

theorem feed_injective (b : Bool) : Function.Injective fun r => feed poly r b := by
  intro r r' h
  dsimp only at h
  rw [feed_eq, feed_eq] at h
  exact (BitVec.xor_left_inj _).mp (shift_injective htop h)

theorem foldl_feed_injective (bs : List Bool) :
    Function.Injective fun r => bs.foldl (feed poly) r := by
  induction bs with
  | nil => exact Function.injective_id
  | cons b bs ih => exact ih.comp (feed_injective htop b)

/-- Messages that differ in bits that fit into the register have different
registers. -/
theorem foldl_feed_burst {before burst burst' after : List Bool}
    (hlen : burst.length = burst'.length) (hw : burst.length ≤ w) {r : BitVec w}
    (h : (before ++ burst ++ after).foldl (feed poly) r =
      (before ++ burst' ++ after).foldl (feed poly) r) : burst = burst' := by
  simp only [List.foldl_append] at h
  have hburst := foldl_feed_injective htop after h
  generalize before.foldl (feed poly) r = r at hburst
  have hw' : burst'.length ≤ w := by omega
  rw [foldl_feed hw, foldl_feed hw', ← hlen] at hburst
  have hword := (shift_injective htop).iterate _ hburst
  exact word_injective hlen hw ((BitVec.xor_right_inj _).mp hword)

end Injective

end Savvy.Kit.Crc
