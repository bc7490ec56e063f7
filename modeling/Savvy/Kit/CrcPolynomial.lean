import Mathlib.Algebra.CharP.Two
import Mathlib.Algebra.Field.ZMod
import Mathlib.Algebra.Polynomial.Div
import Mathlib.Tactic.LinearCombination
import Savvy.Kit.Crc

/-!
Cyclic redundancy checks as remainders. A reflected register is a polynomial
over the field of two elements whose highest power is its lowest bit. To move
the register is to multiply it by `X` modulo the generator, so the register
after a message is the remainder of the message, with as many zero bits behind
it as the register is wide and the first register in front of it.
-/

namespace Savvy.Kit.Crc

open Polynomial

variable {w : ℕ}

/-- The polynomial of a register: bit `i` is the coefficient of `X ^ (w - 1 - i)`. -/
noncomputable def toPoly (r : BitVec w) : (ZMod 2)[X] :=
  ∑ i ∈ Finset.range w, if r.getLsbD i then X ^ (w - 1 - i) else 0

/-- The generator: the polynomial of the check below the power that is left
out. -/
noncomputable def generator (poly : BitVec w) : (ZMod 2)[X] := X ^ w + toPoly poly

/-- The polynomial of a message, the first bit with the highest power. -/
noncomputable def message : List Bool → (ZMod 2)[X]
  | [] => 0
  | b :: bs => (if b then X ^ bs.length else 0) + message bs

theorem coeff_toPoly (r : BitVec w) (d : ℕ) :
    (toPoly r).coeff d = if r.getMsbD d then 1 else 0 := by
  have hterm (i : ℕ) : (if r.getLsbD i then (X : (ZMod 2)[X]) ^ (w - 1 - i) else 0).coeff d =
      if r.getLsbD i = true ∧ d = w - 1 - i then 1 else 0 := by
    by_cases hi : r.getLsbD i = true
    · simp [hi, coeff_X_pow]
    · simp [hi]
  rw [toPoly, finsetSum_coeff, Finset.sum_congr rfl fun i _ => hterm i, BitVec.getMsbD]
  by_cases hd : d < w
  · rw [Finset.sum_eq_single (w - 1 - d)]
    · have hback : d = w - 1 - (w - 1 - d) := by omega
      simp only [← hback, and_true, hd, decide_true, Bool.true_and]
    · intro i hi hne
      rw [Finset.mem_range] at hi
      exact if_neg fun h => hne (by omega)
    · intro hnot
      exact absurd (Finset.mem_range.mpr (by omega)) hnot
  · rw [Finset.sum_eq_zero]
    · simp [hd]
    · intro i hi
      rw [Finset.mem_range] at hi
      exact if_neg fun h => hd (by omega)

theorem toPoly_xor (a b : BitVec w) : toPoly (a ^^^ b) = toPoly a + toPoly b := by
  ext d
  rw [coeff_add, coeff_toPoly, coeff_toPoly, coeff_toPoly, BitVec.getMsbD_xor]
  cases a.getMsbD d with
  | false => simp
  | true =>
      cases b.getMsbD d with
      | false => simp
      | true => simp [CharTwo.add_self_eq_zero]

theorem toPoly_allOnes : toPoly (BitVec.allOnes w) = ∑ i ∈ Finset.range w, X ^ i := by
  rw [toPoly, ← Finset.sum_range_reflect (fun i => (X : (ZMod 2)[X]) ^ i)]
  refine Finset.sum_congr rfl fun i hi => ?_
  rw [Finset.mem_range] at hi
  rw [BitVec.getLsbD_allOnes, if_pos (decide_eq_true hi)]

theorem degree_toPoly_lt (r : BitVec w) : (toPoly r).degree < w := by
  rw [degree_lt_iff_coeff_zero]
  intro d hd
  rw [coeff_toPoly, BitVec.getMsbD_of_ge _ _ hd, if_neg (by decide)]

theorem monic_generator (poly : BitVec w) : (generator poly).Monic :=
  monic_X_pow_add (degree_toPoly_lt poly)

theorem degree_generator (poly : BitVec w) : (generator poly).degree = w := by
  rw [generator, degree_add_eq_left_of_degree_lt, degree_X_pow]
  rw [degree_X_pow]
  exact degree_toPoly_lt poly

/-! ### Moves -/

theorem X_mul_toPoly (r : BitVec w) :
    X * toPoly r = toPoly (r >>> 1) + if r.getLsbD 0 then X ^ w else 0 := by
  have hterm (d : ℕ) : (if r.getLsbD 0 then (X : (ZMod 2)[X]) ^ w else 0).coeff d =
      if r.getLsbD 0 = true ∧ d = w then 1 else 0 := by
    by_cases hr : r.getLsbD 0 = true
    · simp [hr, coeff_X_pow]
    · simp [hr]
  ext d
  rw [coeff_add, coeff_toPoly, BitVec.getMsbD_ushiftRight, hterm]
  cases d with
  | zero =>
      have hzero : ¬ (r.getLsbD 0 = true ∧ 0 = w) := by
        rintro ⟨hr, rfl⟩
        simp at hr
      simp [if_neg hzero]
  | succ d =>
      rw [coeff_X_mul, coeff_toPoly, Nat.add_sub_cancel]
      by_cases hd : d + 1 < w
      · simp [hd, Nat.ne_of_lt hd]
      · by_cases hlast : d + 1 = w
        · -- the bit that falls out
          have hmsb : r.getMsbD d = r.getLsbD 0 := by
            rw [BitVec.getMsbD, decide_eq_true (by omega), Bool.true_and]
            congr 1
            omega
          simp [hlast, hmsb]
        · simp [hd, hlast, BitVec.getMsbD_of_ge r d (by omega)]

/-- A move of the register is a multiplication, up to the generator. -/
theorem X_mul_toPoly_shift (poly r : BitVec w) :
    X * toPoly r = toPoly (shift poly r) + if r.getLsbD 0 then generator poly else 0 := by
  rw [X_mul_toPoly, shift]
  cases r.getLsbD 0 with
  | false => simp
  | true =>
      have hcancel : toPoly poly + toPoly poly = 0 := CharTwo.add_self_eq_zero _
      simp only [if_true, toPoly_xor, generator]
      linear_combination -hcancel

/-- The lowest bit has the highest power. -/
theorem toPoly_ofBool (hw : 0 < w) (b : Bool) :
    toPoly ((BitVec.ofBool b).setWidth w) = if b then X ^ (w - 1) else 0 := by
  cases b with
  | false => simp [toPoly]
  | true =>
      rw [if_pos rfl, toPoly, Finset.sum_eq_single 0]
      · simp [hw]
      · intro i _ hi
        simp [hi]
      · intro hnot
        exact absurd (Finset.mem_range.mpr hw) hnot

/-- The register after a message, up to multiples of the generator. -/
theorem generator_dvd (hw : 0 < w) (poly r : BitVec w) (bits : List Bool) :
    generator poly ∣ message bits * X ^ w + toPoly r * X ^ bits.length -
      toPoly (bits.foldl (feed poly) r) := by
  induction bits generalizing r with
  | nil => simp [message]
  | cons b bits ih =>
      obtain ⟨q, hq⟩ := ih (feed poly r b)
      -- the bit goes in below the lowest place and is multiplied with it
      have hin : X * toPoly (r ^^^ (BitVec.ofBool b).setWidth w) =
          X * toPoly r + if b then X ^ w else 0 := by
        rw [toPoly_xor, toPoly_ofBool hw, mul_add, mul_ite, mul_zero, ← pow_succ',
          Nat.sub_add_cancel hw]
      have hmove := X_mul_toPoly_shift poly (r ^^^ (BitVec.ofBool b).setWidth w)
      rw [hin, ← feed_eq] at hmove
      rw [List.foldl_cons, List.length_cons, message]
      generalize (r ^^^ (BitVec.ofBool b).setWidth w).getLsbD 0 = out at hmove
      refine ⟨q + X ^ bits.length * if out then 1 else 0, ?_⟩
      cases b <;> cases out <;> simp only [if_true, Bool.false_eq_true, if_false] at hmove ⊢ <;>
        linear_combination hq + X ^ bits.length * hmove

/-- The register after a message is the remainder of the message, with zero bits
behind it and the first register in front of it. -/
theorem toPoly_foldl_feed (hw : 0 < w) (poly r : BitVec w) (bits : List Bool) :
    toPoly (bits.foldl (feed poly) r) =
      (message bits * X ^ w + toPoly r * X ^ bits.length) %ₘ generator poly := by
  have hmonic := monic_generator poly
  rw [modByMonic_eq_of_dvd_sub hmonic (generator_dvd hw poly r bits), eq_comm,
    modByMonic_eq_self_iff hmonic, degree_generator]
  exact degree_toPoly_lt _

end Savvy.Kit.Crc
