import Savvy.Json.RoundTrip

/-!
The texts of numbers. `print_number` converts a number with `sprintf` into a
buffer of 26 bytes, once with 15 significant digits and once with 17 if those are
not enough. For every `double` either text fits.
-/

namespace Savvy.CJson

/-- The range of a `double`: zero, or as large as the least one and below the power
of two that is out of range. -/
def Double.InRange : Double → Prop
  | .inf _ => True
  | .finite q => q = 0 ∨
      q.num.natAbs < 2 ^ 1024 * q.den ∧ q.den ≤ q.num.natAbs * 2 ^ 1074

/-- The texts that `print_number` makes of a number, one after the other. -/
def numberTexts : Double → List (List UInt8)
  | .inf _ => [[110, 117, 108, 108]]
  | .finite q =>
      if q = ((Double.finite q).valueint : ℚ) then [formatInt (Double.finite q).valueint]
      else
        let short := formatGeneral 15 q
        match strtod short with
        | some (test, _) =>
            if compareDouble test q then [short] else [short, formatGeneral 17 q]
        | none => [short, formatGeneral 17 q]

/-! ### Lengths -/

theorem length_decimalLoop_le {fuel n k : ℕ} {acc : List UInt8} (h : n < 10 ^ (k + 1)) :
    (decimalLoop fuel n acc).length ≤ acc.length + (k + 1) := by
  induction fuel generalizing n k acc with
  | zero =>
      rw [decimalLoop]
      omega
  | succ fuel ih =>
      rw [decimalLoop]
      split
      · rw [List.length_cons]
        omega
      · next hten =>
          obtain ⟨j, rfl⟩ : ∃ j, k = j + 1 := by
            refine Nat.exists_eq_succ_of_ne_zero ?_
            rintro rfl
            omega
          have hlt : n / 10 < 10 ^ (j + 1) := by
            rw [Nat.div_lt_iff_lt_mul (by decide), ← Nat.pow_succ]
            exact h
          have hle := @ih (n / 10) j (UInt8.ofNat (48 + n % 10) :: acc) hlt
          rw [List.length_cons] at hle
          omega

theorem length_decimal_le {n k : ℕ} (h : n < 10 ^ (k + 1)) : (decimal n).length ≤ k + 1 := by
  have hle : (decimal n).length ≤ 0 + (k + 1) := length_decimalLoop_le h
  omega

/-- The longest code is `-2147483648`. -/
theorem length_formatInt_le {code : ℤ} (hcode : IsInt32 code) : (formatInt code).length ≤ 11 := by
  have hlt : code.natAbs < 10 ^ (9 + 1) := by
    obtain ⟨hmin, hmax⟩ := hcode
    unfold intMin at hmin
    unfold intMax at hmax
    omega
  have hle := length_decimal_le hlt
  rw [formatInt]
  split
  · rw [List.length_cons]
    omega
  · omega

/-! ### Significant digits -/

/-- The first digit of `a / b` is at `firstPlace`: nothing is in front of it. -/
theorem scaleTen_firstPlace_lt {a b p n d : ℕ} (ha : 0 < a) (hb : 0 < b)
    (h : scaleTen a b (firstPlace a b - p + 1) = (n, d)) : n < d * 10 ^ p ∧ 0 < d := by
  unfold scaleTen firstPlace at h
  by_cases hba : b ≤ a
  · rw [if_pos hba] at h
    have hlog : a < b * 10 ^ (Nat.log 10 (a / b) + 1) := by
      rw [Nat.mul_comm, ← Nat.div_lt_iff_lt_mul hb]
      exact Nat.lt_pow_succ_log_self (by decide) _
    generalize Nat.log 10 (a / b) = x at h hlog
    split at h
    · next hk =>
        obtain ⟨rfl, rfl⟩ := Prod.mk.inj h
        have hexp : x + 1 = ((x : ℤ) - p + 1).toNat + p := by omega
        rw [hexp, Nat.pow_add, ← Nat.mul_assoc] at hlog
        exact ⟨hlog, Nat.mul_pos hb (Nat.pow_pos (by decide))⟩
    · next hk =>
        obtain ⟨rfl, rfl⟩ := Prod.mk.inj h
        have hexp : p = x + 1 + (-((x : ℤ) - p + 1)).toNat := by omega
        refine ⟨?_, hb⟩
        calc a * 10 ^ (-((x : ℤ) - p + 1)).toNat
            < b * 10 ^ (x + 1) * 10 ^ (-((x : ℤ) - p + 1)).toNat :=
              Nat.mul_lt_mul_of_pos_right hlog (Nat.pow_pos (by decide))
          _ = b * 10 ^ p := by rw [Nat.mul_assoc, ← Nat.pow_add, ← hexp]
  · rw [if_neg hba] at h
    have hne : (b - 1) / a ≠ 0 := by
      have := Nat.div_pos (show a ≤ b - 1 by omega) ha
      omega
    have hlog : a * 10 ^ Nat.log 10 ((b - 1) / a) < b := by
      have hle := Nat.pow_log_le_self 10 hne
      have hmul := (Nat.le_div_iff_mul_le ha).mp hle
      rw [Nat.mul_comm] at hmul
      omega
    generalize Nat.log 10 ((b - 1) / a) = x at h hlog
    split at h
    · next hk =>
        obtain ⟨rfl, rfl⟩ := Prod.mk.inj h
        have hsmall : p = 0 ∧ x = 0 := by omega
        obtain ⟨rfl, rfl⟩ := hsmall
        simpa using ⟨by omega, hb⟩
    · next hk =>
        obtain ⟨rfl, rfl⟩ := Prod.mk.inj h
        have hexp : (-(-((x : ℤ) + 1) - p + 1)).toNat = x + p := by omega
        rw [hexp, Nat.pow_add, ← Nat.mul_assoc]
        exact ⟨Nat.mul_lt_mul_of_pos_right hlog (Nat.pow_pos (by decide)), hb⟩

theorem roundHalfEven_le {n d m : ℕ} (h : n < d * m) : roundHalfEven n d ≤ m := by
  have hlt : n / d < m := Nat.div_lt_of_lt_mul h
  rw [roundHalfEven]
  split
  · omega
  · omega

/-- There are as many significant digits as were asked for, and their place is that
of the first digit or the one in front of it. -/
theorem significant_spec {p a b m : ℕ} {x : ℤ} (hp : 0 < p) (ha : 0 < a) (hb : 0 < b)
    (h : significant p a b = (m, x)) :
    m < 10 ^ p ∧ firstPlace a b ≤ x ∧ x ≤ firstPlace a b + 1 := by
  rw [significant] at h
  rcases hscale : scaleTen a b (firstPlace a b - p + 1) with ⟨n, d⟩
  rw [hscale] at h
  have hle := roundHalfEven_le (scaleTen_firstPlace_lt ha hb hscale).1
  dsimp only at h
  split at h
  · obtain ⟨rfl, rfl⟩ := Prod.mk.inj h
    refine ⟨Nat.pow_lt_pow_right (by decide) (by omega), by omega, by omega⟩
  · next hne =>
      obtain ⟨rfl, rfl⟩ := Prod.mk.inj h
      exact ⟨lt_of_le_of_ne hle hne, le_refl _, by omega⟩

/-- The first digit of a `double` is not further away than its range goes. -/
theorem firstPlace_bounds {a b : ℕ} (ha : 0 < a) (hb : 0 < b) (hmax : a < 2 ^ 1024 * b)
    (hmin : b ≤ a * 2 ^ 1074) : -400 < firstPlace a b ∧ firstPlace a b < 400 := by
  -- Nine bits are less than three digits.
  have hpow (k m n : ℕ) (hm : m ≤ 9 * k) (hn : 3 * k ≤ n) : 2 ^ m ≤ 10 ^ n :=
    calc 2 ^ m ≤ 2 ^ (9 * k) := Nat.pow_le_pow_right (by decide) hm
      _ = (2 ^ 9) ^ k := Nat.pow_mul ..
      _ ≤ (10 ^ 3) ^ k := Nat.pow_le_pow_left (by decide) _
      _ = 10 ^ (3 * k) := (Nat.pow_mul ..).symm
      _ ≤ 10 ^ n := Nat.pow_le_pow_right (by decide) hn
  unfold firstPlace
  split
  · have hlog : Nat.log 10 (a / b) < 400 := by
      refine Nat.log_lt_of_lt_pow' (by decide) ?_
      calc a / b < 2 ^ 1024 := (Nat.div_lt_iff_lt_mul hb).mpr hmax
        _ ≤ 10 ^ 400 := hpow 120 _ _ (by decide) (by decide)
    omega
  · have hlog : Nat.log 10 ((b - 1) / a) < 399 := by
      refine Nat.log_lt_of_lt_pow' (by decide) ?_
      calc (b - 1) / a < 2 ^ 1074 := by
            rw [Nat.div_lt_iff_lt_mul ha, Nat.mul_comm]
            omega
        _ ≤ 10 ^ 399 := hpow 120 _ _ (by decide) (by decide)
    omega

/-! ### The longest texts -/

theorem length_stripZeros_le (ds : List UInt8) : (stripZeros ds).length ≤ ds.length := by
  rw [stripZeros, List.length_reverse]
  have hle := List.length_dropWhile_le (fun b : UInt8 => decide (b = 48)) ds.reverse
  rwa [List.length_reverse] at hle

theorem length_withFraction_le (int frac : List UInt8) :
    (withFraction int frac).length ≤ int.length + 1 + frac.length := by
  have hle := length_stripZeros_le frac
  rw [withFraction]
  split
  · omega
  · rw [List.length_append, List.length_cons]
    omega

theorem length_formatExponent_le {x : ℤ} (hx : x.natAbs < 1000) :
    (formatExponent x).length ≤ 5 := by
  have hle : (decimal x.natAbs).length ≤ 3 := length_decimal_le (k := 2) hx
  simp only [formatExponent, List.length_cons]
  split
  · rw [List.length_cons]
    omega
  · omega

/-- `%1.<p>g` of a `double` has a sign, a point, four places in front of the digits
or an exponent of five bytes, and the digits. -/
theorem length_formatGeneral_le {p : ℕ} {q : ℚ} (hp : 0 < p) (hq : q ≠ 0)
    (hrange : (Double.finite q).InRange) : (formatGeneral p q).length ≤ p + 7 := by
  obtain ⟨hmax, hmin⟩ := hrange.resolve_left hq
  have hnum : 0 < q.num.natAbs := Int.natAbs_pos.mpr (Rat.num_ne_zero.mpr hq)
  have hden : 0 < q.den := q.den_pos
  obtain ⟨hlow, hhigh⟩ := firstPlace_bounds hnum hden hmax hmin
  rcases hsig : significant p q.num.natAbs q.den with ⟨m, x⟩
  obtain ⟨hm, hxlow, hxhigh⟩ := significant_spec hp hnum hden hsig
  have hdigits : (decimal m).length ≤ p := by
    obtain ⟨k, rfl⟩ : ∃ k, p = k + 1 := ⟨p - 1, by omega⟩
    exact length_decimal_le hm
  rw [formatGeneral, hsig]
  dsimp only
  have hbody : (if -4 ≤ x ∧ x < p then
        if 0 ≤ x then
          withFraction ((decimal m).take (x.toNat + 1)) ((decimal m).drop (x.toNat + 1))
        else withFraction [48] (List.replicate ((-x).toNat - 1) 48 ++ decimal m)
      else withFraction ((decimal m).take 1) ((decimal m).drop 1) ++ formatExponent x).length ≤
        p + 6 := by
    split
    · split
      · have hle := length_withFraction_le ((decimal m).take (x.toNat + 1))
          ((decimal m).drop (x.toNat + 1))
        simp only [List.length_take, List.length_drop] at hle
        omega
      · have hle := length_withFraction_le [48] (List.replicate ((-x).toNat - 1) 48 ++ decimal m)
        simp only [List.length_append, List.length_replicate, List.length_singleton] at hle
        omega
    · have hle := length_withFraction_le ((decimal m).take 1) ((decimal m).drop 1)
      have hexp := length_formatExponent_le (x := x) (by omega)
      simp only [List.length_take, List.length_drop] at hle
      rw [List.length_append]
      omega
  split
  · rw [List.length_cons]
    omega
  · omega

theorem isInt32_of_eq_valueint {q : ℚ} (hq : q = ((Double.finite q).valueint : ℚ)) :
    IsInt32 (Double.finite q).valueint := by
  by_cases hmax : (intMax : ℚ) ≤ q
  · rw [Double.valueint, if_pos hmax]
    exact ⟨by decide, le_refl _⟩
  by_cases hmin : q ≤ (intMin : ℚ)
  · rw [Double.valueint, if_neg hmax, if_pos hmin]
    exact ⟨le_refl _, by decide⟩
  rw [hq, Rat.intCast_le_intCast] at hmax hmin
  exact ⟨by omega, by omega⟩

/-- Every text that `print_number` converts a `double` to fits into its buffer. -/
theorem length_numberTexts_le {d : Double} (hd : d.InRange) :
    ∀ text ∈ numberTexts d, text.length + 1 ≤ 26 := by
  intro text htext
  cases d with
  | inf neg =>
      obtain rfl := List.mem_singleton.mp htext
      decide
  | finite q =>
      rw [numberTexts] at htext
      split at htext
      · next hint =>
          obtain rfl := List.mem_singleton.mp htext
          have hle := length_formatInt_le (isInt32_of_eq_valueint hint)
          omega
      next hint =>
      have hne : q ≠ 0 := by
        rintro rfl
        exact hint rfl
      have hshort := length_formatGeneral_le (p := 15) (by decide) hne hd
      have hlong := length_formatGeneral_le (p := 17) (by decide) hne hd
      have hmem : text = formatGeneral 15 q ∨ text = formatGeneral 17 q := by
        dsimp only at htext
        split at htext
        · split at htext
          · exact .inl (List.mem_singleton.mp htext)
          · simpa using htext
        · simpa using htext
      rcases hmem with rfl | rfl
      all_goals omega

/-! ### No zeros -/

theorem zero_not_mem_decimal (n : ℕ) : 0 ∉ decimal n := fun h =>
  absurd ((decimal_spec n).2.1 0 h) (by decide)

theorem zero_not_mem_formatInt (i : ℤ) : 0 ∉ formatInt i := by
  rw [formatInt]
  split
  · simpa using zero_not_mem_decimal i.natAbs
  · exact zero_not_mem_decimal _

theorem zero_not_mem_withFraction {int frac : List UInt8} (hint : 0 ∉ int) (hfrac : 0 ∉ frac) :
    0 ∉ withFraction int frac := by
  have hstrip : 0 ∉ stripZeros frac := by
    rw [stripZeros, List.mem_reverse]
    exact fun h => hfrac (List.mem_reverse.mp ((List.dropWhile_sublist _).subset h))
  rw [withFraction]
  split
  · exact hint
  · simpa using ⟨hint, hstrip⟩

theorem zero_not_mem_formatExponent (x : ℤ) : 0 ∉ formatExponent x := by
  have hdigits := zero_not_mem_decimal x.natAbs
  rw [formatExponent]
  split
  all_goals split
  all_goals simpa using hdigits

theorem zero_not_mem_formatGeneral (p : ℕ) (q : ℚ) : 0 ∉ formatGeneral p q := by
  rcases hsig : significant p q.num.natAbs q.den with ⟨m, x⟩
  have hdigits := zero_not_mem_decimal m
  have htake (n : ℕ) : 0 ∉ (decimal m).take n := fun h => hdigits (List.mem_of_mem_take h)
  have hdrop (n : ℕ) : 0 ∉ (decimal m).drop n := fun h => hdigits (List.mem_of_mem_drop h)
  have hbody : 0 ∉ if -4 ≤ x ∧ x < p then
        if 0 ≤ x then
          withFraction ((decimal m).take (x.toNat + 1)) ((decimal m).drop (x.toNat + 1))
        else withFraction [48] (List.replicate ((-x).toNat - 1) 48 ++ decimal m)
      else withFraction ((decimal m).take 1) ((decimal m).drop 1) ++ formatExponent x := by
    split
    · split
      · exact zero_not_mem_withFraction (htake _) (hdrop _)
      · refine zero_not_mem_withFraction (by decide) ?_
        simp [hdigits]
    · rw [List.mem_append, not_or]
      exact ⟨zero_not_mem_withFraction (htake _) (hdrop _), zero_not_mem_formatExponent x⟩
  rw [formatGeneral, hsig]
  dsimp only
  split
  · simpa using hbody
  · exact hbody

theorem zero_not_mem_printNumber_any (d : Double) : 0 ∉ printNumber d := by
  cases d with
  | inf neg => exact (by decide : (0 : UInt8) ∉ [110, 117, 108, 108])
  | finite q =>
      rw [printNumber]
      dsimp only
      split
      · exact zero_not_mem_formatInt _
      · split
        · split
          · exact zero_not_mem_formatGeneral _ _
          · exact zero_not_mem_formatGeneral _ _
        · exact zero_not_mem_formatGeneral _ _

theorem zero_not_mem_printValue_any (v : Json) : 0 ∉ printValue v := by
  induction v using Json.induct with
  | null => decide
  | bool b => cases b <;> decide
  | number d => exact zero_not_mem_printNumber_any d
  | string s => exact zero_not_mem_printString s
  | array items ih => simpa [printValue] using zero_not_mem_printItems ih
  | object members ih => simpa [printValue] using zero_not_mem_printMembers ih

end Savvy.CJson
