import Mathlib.Data.List.TakeWhile
import Mathlib.Data.Nat.Size
import Savvy.Json.Codec
import Savvy.Json.Print

/-!
What is printed parses to what was printed, up to the nesting limit of the
parser. The trees are those whose numbers are `int32_t` values and whose strings
have no zero in them; for these the parser reads back each part of a printed
value, and stops in front of what follows it.
-/

namespace Savvy.CJson

/-! ### Whole numbers -/

theorem roundHalfEven_one (n : ℕ) : roundHalfEven n 1 = n := by
  simp [roundHalfEven, Nat.mod_one]

theorem lt_two_pow_of_le {n k m : ℕ} (hn : n < 2 ^ k) (hkm : k ≤ m) : n < 2 ^ m :=
  Nat.lt_of_lt_of_le hn (Nat.pow_le_pow_right (by decide) hkm)

theorem roundDouble_exact (neg : Bool) {n : ℕ} (hn : n < 2 ^ 53) :
    roundDouble neg n 1 = .finite (signed neg n 1) := by
  rcases Nat.eq_zero_or_pos n with rfl | hpos
  · cases neg <;> simp [roundDouble, signed]
  have hne : n ≠ 0 := Nat.ne_of_gt hpos
  have hlog : Nat.log2 n ≤ 52 := by
    have := (Nat.log2_lt hne).mpr hn
    omega
  have hself : 2 ^ Nat.log2 n ≤ n := Nat.log2_self_le hne
  have hone : Nat.log2 1 = 0 := by decide
  -- the last place is 52 bits below the first
  have hplace : lastPlace n 1 = (Nat.log2 n : ℤ) - 52 := by
    have hneg : ¬ (0 : ℤ) ≤ (Nat.log2 n : ℤ) - (0 : ℕ) - 53 := by omega
    have hbig : ¬ n * 2 ^ (-((Nat.log2 n : ℤ) - (0 : ℕ) - 53)).toNat / 1 < 2 ^ 53 := by
      have hexp : (-((Nat.log2 n : ℤ) - (0 : ℕ) - 53)).toNat = 53 - Nat.log2 n := by omega
      have hsplit : (2 : ℕ) ^ 53 = 2 ^ Nat.log2 n * 2 ^ (53 - Nat.log2 n) := by
        rw [← Nat.pow_add]
        congr 1
        omega
      rw [hexp, Nat.div_one, hsplit]
      exact Nat.not_lt.mpr (Nat.mul_le_mul_right _ hself)
    simp only [lastPlace, hone, scaleTwo, if_neg hneg, if_neg hbig]
    omega
  have hscale : ∃ t : ℕ, scaleTwo n 1 ((Nat.log2 n : ℤ) - 52) = (n * 2 ^ t, 1) ∧
      timesTwo (n * 2 ^ t) ((Nat.log2 n : ℤ) - 52) = (n * 2 ^ t, 2 ^ t) := by
    refine ⟨52 - Nat.log2 n, ?_⟩
    rcases Nat.lt_or_ge (Nat.log2 n) 52 with hlt | hge
    · have hneg : ¬ (0 : ℤ) ≤ (Nat.log2 n : ℤ) - 52 := by omega
      have hexp : (-((Nat.log2 n : ℤ) - 52)).toNat = 52 - Nat.log2 n := by omega
      simp only [scaleTwo, timesTwo, if_neg hneg, hexp]
      exact ⟨trivial, trivial⟩
    · have heq : Nat.log2 n = 52 := by omega
      rw [heq]
      simp [scaleTwo, timesTwo]
  obtain ⟨t, ht, htt⟩ := hscale
  have hlarge (m : ℕ) (hm : 53 ≤ m) : ¬ 2 ^ t * 2 ^ m ≤ n * 2 ^ t := by
    rw [Nat.mul_comm n, Nat.not_le]
    exact Nat.mul_lt_mul_of_pos_left (lt_two_pow_of_le hn hm) (Nat.two_pow_pos t)
  have hfin := hlarge 1024 (by decide)
  simp only [roundDouble, if_neg hne, hplace, ht, roundHalfEven_one, htt, if_neg hfin]
  congr 1
  have hpow : (2 : ℕ) ^ t ≠ 0 := Nat.pos_iff_ne_zero.mp (Nat.two_pow_pos t)
  cases neg with
  | false =>
      simp only [signed, Bool.false_eq_true, if_false]
      have := Rat.mkRat_mul_right (n := (n : ℤ)) (d := 1) hpow
      simpa using this
  | true =>
      simp only [signed, if_true]
      have := Rat.mkRat_mul_right (n := -(n : ℤ)) (d := 1) hpow
      rw [Int.neg_mul] at this
      simpa using this

/-! ### Decimal digits -/

theorem isDigit_ofNat {d : ℕ} (hd : d < 10) : isDigit (UInt8.ofNat (48 + d)) = true := by
  have : ∀ d : Fin 10, isDigit (UInt8.ofNat (48 + d)) = true := by decide
  exact this ⟨d, hd⟩

theorem toNat_digit {d : ℕ} (hd : d < 10) : (UInt8.ofNat (48 + d)).toNat - 48 = d := by
  have : ∀ d : Fin 10, (UInt8.ofNat (48 + d)).toNat - 48 = d := by decide
  exact this ⟨d, hd⟩

theorem digitsValue_concat (ds : List UInt8) (b : UInt8) :
    digitsValue (ds ++ [b]) = 10 * digitsValue ds + (b.toNat - 48) := by
  simp [digitsValue]

theorem decimalLoop_spec (fuel n : ℕ) (acc : List UInt8) (hfuel : n < fuel) :
    ∃ ds, decimalLoop fuel n acc = ds ++ acc ∧ ds ≠ [] ∧ (∀ b ∈ ds, isDigit b = true) ∧
      digitsValue ds = n := by
  induction fuel generalizing n acc with
  | zero => omega
  | succ fuel ih =>
      have hmod : n % 10 < 10 := Nat.mod_lt _ (by decide)
      simp only [decimalLoop]
      split
      · next hlast =>
          refine ⟨[UInt8.ofNat (48 + n % 10)], rfl, by simp, ?_, ?_⟩
          · intro b hb
            rw [List.mem_singleton] at hb
            exact hb ▸ isDigit_ofNat hmod
          · simp only [digitsValue, List.foldl_cons, List.foldl_nil, toNat_digit hmod]
            omega
      · next hmore =>
          obtain ⟨ds, hds, -, hdigit, hvalue⟩ :=
            ih (n / 10) (UInt8.ofNat (48 + n % 10) :: acc) (by omega)
          refine ⟨ds ++ [UInt8.ofNat (48 + n % 10)], ?_, by simp, ?_, ?_⟩
          · rw [hds, List.append_assoc]
            rfl
          · intro b hb
            rcases List.mem_append.mp hb with hb | hb
            · exact hdigit b hb
            · rw [List.mem_singleton] at hb
              exact hb ▸ isDigit_ofNat hmod
          · rw [digitsValue_concat, hvalue, toNat_digit hmod]
            omega

theorem decimal_spec (n : ℕ) :
    decimal n ≠ [] ∧ (∀ b ∈ decimal n, isDigit b = true) ∧ digitsValue (decimal n) = n := by
  obtain ⟨ds, hds, hne, hdigit, hvalue⟩ := decimalLoop_spec (n + 1) n [] (by omega)
  rw [List.append_nil] at hds
  rw [decimal, hds]
  exact ⟨hne, hdigit, hvalue⟩

/-- `strtod` reads the digits of a whole number back. -/
theorem strtod_digits {n : ℕ} (hn : n < 2 ^ 53) (neg : Bool) :
    strtod (if neg then 45 :: decimal n else decimal n) =
      some (.finite (signed neg n 1), []) := by
  obtain ⟨hne, hdigit, hvalue⟩ := decimal_spec n
  have hsign : scanSign (if neg then 45 :: decimal n else decimal n) = (neg, decimal n) := by
    cases neg with
    | true => rfl
    | false =>
        cases hd : decimal n with
        | nil => exact absurd hd hne
        | cons b r =>
            have hb : isDigit b = true := hdigit b (by rw [hd]; exact List.mem_cons_self)
            have h45 : b ≠ 45 := by
              rintro rfl
              exact absurd hb (by decide)
            have h43 : b ≠ 43 := by
              rintro rfl
              exact absurd hb (by decide)
            simp only [Bool.false_eq_true, if_false]
            unfold scanSign
            split
            · next heq => exact absurd (List.cons.inj heq).1 h45
            · next heq => exact absurd (List.cons.inj heq).1 h43
            · rfl
  have htake : (decimal n).takeWhile isDigit = decimal n :=
    List.takeWhile_eq_self_iff.mpr hdigit
  have hdrop : (decimal n).dropWhile isDigit = [] := by
    rw [List.dropWhile_eq_nil_iff]
    exact hdigit
  simp only [strtod, hsign, htake, hdrop, scanFraction, hne, false_and, if_false, scanExponent,
    List.append_nil, hvalue, List.length_nil]
  simp [roundDouble_exact neg hn]

def IsInt32 (i : ℤ) : Prop := intMin ≤ i ∧ i ≤ intMax

theorem signed_natAbs (i : ℤ) : signed (decide (i < 0)) i.natAbs 1 = (i : ℚ) := by
  have habs : (if decide (i < 0) = true then -(i.natAbs : ℤ) else i.natAbs) = i := by
    by_cases hi : i < 0
    · simp only [hi, decide_true, if_true]
      omega
    · simp only [hi, decide_false, Bool.false_eq_true, if_false]
      omega
  rw [signed, habs]
  simpa using Rat.mkRat_self (i : ℚ)

theorem valueint_of_int32 {i : ℤ} (hi : IsInt32 i) : (Double.finite (i : ℚ)).valueint = i := by
  obtain ⟨hmin, hmax⟩ := hi
  simp only [Double.valueint, Rat.intCast_le_intCast]
  split
  · omega
  · split
    · omega
    · simp

theorem printNumber_int32 {i : ℤ} (hi : IsInt32 i) :
    printNumber (.finite (i : ℚ)) =
      if decide (i < 0) then 45 :: decimal i.natAbs else decimal i.natAbs := by
  simp only [printNumber, valueint_of_int32 hi, if_true, formatInt]
  by_cases h : i < 0
  · simp [h]
  · simp [h]

theorem isNumberByte_of_isDigit {b : UInt8} (hb : isDigit b = true) : isNumberByte b = true := by
  simp [isNumberByte, hb]

/-- What may follow a number: not a byte that would belong to it. -/
def Ends (rest : List UInt8) : Prop := rest.takeWhile isNumberByte = []

theorem ends_cons {b : UInt8} {rest : List UInt8} (hb : isNumberByte b = false) :
    Ends (b :: rest) := by
  simp [Ends, hb]

theorem parseNumber_print {i : ℤ} (hi : IsInt32 i) {rest : List UInt8} (hrest : Ends rest) :
    parseNumber (printNumber (.finite (i : ℚ)) ++ rest) = some (.number (.finite i), rest) := by
  have hbytes : ∀ b ∈ printNumber (.finite (i : ℚ)), isNumberByte b = true := by
    rw [printNumber_int32 hi]
    have hdigits : ∀ b ∈ decimal i.natAbs, isNumberByte b = true := fun b hb =>
      isNumberByte_of_isDigit ((decimal_spec _).2.1 b hb)
    split
    · intro b hb
      rcases List.mem_cons.mp hb with rfl | hb
      · decide
      · exact hdigits b hb
    · exact hdigits
  have htake : (printNumber (.finite (i : ℚ)) ++ rest).takeWhile isNumberByte =
      printNumber (.finite (i : ℚ)) := by
    rw [List.takeWhile_append_of_pos hbytes, hrest, List.append_nil]
  have hsmall : i.natAbs < 2 ^ 53 := by
    obtain ⟨hmin, hmax⟩ := hi
    unfold intMin intMax at *
    omega
  have hread : strtod (printNumber (.finite (i : ℚ))) = some (.finite i, []) := by
    rw [printNumber_int32 hi, strtod_digits hsmall, signed_natAbs]
  simp only [parseNumber, htake, hread, Option.map_some, List.length_nil, Nat.sub_zero,
    List.drop_left]

/-! ### Strings -/

theorem parseHex4_control {b : UInt8} (hb : b < 32) :
    parseHex4 48 48 (hexChar (b.toNat / 16)) (hexChar (b.toNat % 16)) = b.toNat := by
  have hall : ∀ n : Fin 32, parseHex4 48 48 (hexChar (n / 16)) (hexChar (n % 16)) = n := by
    decide
  exact hall ⟨b.toNat, UInt8.lt_iff_toNat_lt.mp hb⟩

theorem scanString_quote (r : List UInt8) : scanString (34 :: r) = some ([], r) := by
  cases r with
  | nil => simp [scanString]
  | cons c r => simp [scanString]

theorem scanString_pair (c : UInt8) (r : List UInt8) :
    scanString (92 :: c :: r) =
      (scanString r).map fun (lit, behind) => (92 :: c :: lit, behind) := by
  simp [scanString]

theorem scanString_byte {b : UInt8} (h34 : b ≠ 34) (h92 : b ≠ 92) (r : List UInt8) :
    scanString (b :: r) = (scanString r).map fun (lit, behind) => (b :: lit, behind) := by
  cases r with
  | nil => simp [scanString, h34, h92]
  | cons c r => simp [scanString, h34, h92]

theorem unescape_byte {b : UInt8} (h92 : b ≠ 92) (r : List UInt8) :
    unescape (b :: r) = (unescape r).map (b :: ·) := by
  rw [unescape.eq_def]
  simp [h92]

theorem unescape_pair {c x : UInt8} (hx : simpleEscape c = some x) (r : List UInt8) :
    unescape (92 :: c :: r) = (unescape r).map (x :: ·) := by
  rw [unescape.eq_def]
  simp [hx]

theorem unescape_hex {b0 b1 b2 b3 : UInt8} {n : ℕ} (hn : parseHex4 b0 b1 b2 b3 = n)
    (hscalar : n < 0xD800 ∨ 0xDFFF < n) (r : List UInt8) :
    unescape (92 :: 117 :: b0 :: b1 :: b2 :: b3 :: r) = (unescape r).map (encodeUtf8 n ++ ·) := by
  have hnone : simpleEscape 117 = none := by decide
  have hlow : ¬ (0xDC00 ≤ n ∧ n ≤ 0xDFFF) := by omega
  have hhigh : ¬ (0xD800 ≤ n ∧ n ≤ 0xDBFF) := by omega
  rw [unescape.eq_def]
  simp [hnone, hn, hlow, hhigh]

theorem encodeUtf8_control {b : UInt8} (hb : b < 32) : encodeUtf8 b.toNat = [b] := by
  have hall : ∀ n : Fin 32, encodeUtf8 n = [UInt8.ofNat n] := by decide
  have := hall ⟨b.toNat, UInt8.lt_iff_toNat_lt.mp hb⟩
  simpa using this

theorem escapeByte_cases (b : UInt8) :
    (escapeByte b = [b] ∧ b ≠ 34 ∧ b ≠ 92) ∨
      (∃ c, escapeByte b = [92, c] ∧ simpleEscape c = some b) ∨
      (b < 32 ∧ escapeByte b = [92, 117, 48, 48, hexChar (b.toNat / 16), hexChar (b.toNat % 16)]) := by
  unfold escapeByte
  split
  · next h => exact .inl ⟨rfl, h.2⟩
  · next h =>
      have hlow : b ≠ 92 → b ≠ 34 → b < 32 := by
        intro h92 h34
        have : ¬ 31 < b := fun h31 => h ⟨h31, h34, h92⟩
        rw [UInt8.lt_iff_toNat_lt] at this ⊢
        simp only [UInt8.reduceToNat] at *
        omega
      repeat' split
      case isFalse h92 h34 _ _ _ _ _ => exact .inr (.inr ⟨hlow h92 h34, rfl⟩)
      all_goals
        subst b
        exact .inr (.inl ⟨_, rfl, by decide⟩)

theorem hexChar_ne {n : ℕ} (hn : n < 16) : hexChar n ≠ 34 ∧ hexChar n ≠ 92 := by
  have hall : ∀ n : Fin 16, hexChar n ≠ 34 ∧ hexChar n ≠ 92 := by decide
  exact hall ⟨n, hn⟩

/-- The first loop of `parse_string` passes over a printed byte. -/
theorem scanString_escapeByte (b : UInt8) (t : List UInt8) :
    scanString (escapeByte b ++ t) =
      (scanString t).map fun (lit, behind) => (escapeByte b ++ lit, behind) := by
  rcases escapeByte_cases b with ⟨heq, h34, h92⟩ | ⟨c, heq, -⟩ | ⟨hlow, heq⟩
  · rw [heq]
    exact scanString_byte h34 h92 t
  · rw [heq]
    exact scanString_pair c t
  · rw [UInt8.lt_iff_toNat_lt] at hlow
    simp only [UInt8.reduceToNat] at hlow
    have hhigh := @hexChar_ne (b.toNat / 16) (by omega)
    have hrem := @hexChar_ne (b.toNat % 16) (by omega)
    rw [heq]
    simp only [List.cons_append, List.nil_append]
    rw [scanString_pair, scanString_byte (by decide) (by decide),
      scanString_byte (by decide) (by decide), scanString_byte hhigh.1 hhigh.2,
      scanString_byte hrem.1 hrem.2]
    simp only [Option.map_map]
    rfl

/-- The second loop reads it back. -/
theorem unescape_escapeByte (b : UInt8) (t : List UInt8) :
    unescape (escapeByte b ++ t) = (unescape t).map (b :: ·) := by
  rcases escapeByte_cases b with ⟨heq, -, h92⟩ | ⟨c, heq, hc⟩ | ⟨hlow, heq⟩
  · rw [heq]
    exact unescape_byte h92 t
  · rw [heq]
    exact unescape_pair hc t
  · rw [heq]
    simp only [List.cons_append, List.nil_append]
    have hsmall : b.toNat < 0xD800 := by
      rw [UInt8.lt_iff_toNat_lt] at hlow
      simp only [UInt8.reduceToNat] at hlow
      omega
    rw [unescape_hex (parseHex4_control hlow) (.inl hsmall), encodeUtf8_control hlow]
    rfl

theorem scanString_escaped (s rest : List UInt8) :
    scanString (s.flatMap escapeByte ++ 34 :: rest) = some (s.flatMap escapeByte, rest) := by
  induction s with
  | nil => exact scanString_quote rest
  | cons b s ih =>
      rw [List.flatMap_cons, List.append_assoc, scanString_escapeByte, ih]
      rfl

theorem unescape_escaped (s : List UInt8) : unescape (s.flatMap escapeByte) = some s := by
  induction s with
  | nil => simp [unescape]
  | cons b s ih =>
      rw [List.flatMap_cons, unescape_escapeByte, ih]
      rfl

/-- A printed string is read back as the C string that was printed. -/
theorem parseString_print (s rest : List UInt8) :
    parseString (printString s ++ rest) = some (cstr s, rest) := by
  have hshape : printString s ++ rest = 34 :: ((cstr s).flatMap escapeByte ++ 34 :: rest) := by
    simp [printString]
  rw [hshape]
  simp [parseString, scanString_escaped, unescape_escaped]

/-! ### Trees -/

mutual

def depth : Json → ℕ
  | .array items => depthItems items + 1
  | .object members => depthMembers members + 1
  | _ => 0

def depthItems : List Json → ℕ
  | [] => 0
  | v :: vs => max (depth v) (depthItems vs)

def depthMembers : List (List UInt8 × Json) → ℕ
  | [] => 0
  | (_, v) :: ms => max (depth v) (depthMembers ms)

end

def isInt32 : Double → Bool
  | .finite q => q.den = 1 && intMin ≤ q.num && q.num ≤ intMax
  | .inf _ => false

mutual

/-- The numbers of a value are `int32_t` values, its strings and names have no
zero in them. -/
def isPlain : Json → Bool
  | .null => true
  | .bool _ => true
  | .number d => isInt32 d
  | .string s => !s.contains 0
  | .array items => isPlainItems items
  | .object members => isPlainMembers members

def isPlainItems : List Json → Bool
  | [] => true
  | v :: vs => isPlain v && isPlainItems vs

def isPlainMembers : List (List UInt8 × Json) → Bool
  | [] => true
  | (name, v) :: ms => !name.contains 0 && isPlain v && isPlainMembers ms

end

theorem isInt32_cases {d : Double} (hd : isInt32 d = true) :
    ∃ i : ℤ, IsInt32 i ∧ d = .finite i := by
  cases d with
  | inf neg => simp [isInt32] at hd
  | finite q =>
      simp only [isInt32, Bool.and_eq_true, decide_eq_true_eq] at hd
      exact ⟨q.num, ⟨hd.1.2, hd.2⟩, by rw [(Rat.den_eq_one_iff q).mp hd.1.1]⟩

theorem cstr_of_not_contains {s : List UInt8} (hs : (!s.contains 0) = true) : cstr s = s := by
  rw [cstr, List.takeWhile_eq_self_iff]
  intro b hb
  have hzero : 0 ∉ s := by simpa using hs
  have : b ≠ 0 := fun h => hzero (h ▸ hb)
  simpa using this

/-- The first byte of a printed value is a character of ASCII, and neither white
space nor a closing bracket. -/
def Opens (text : List UInt8) : Prop :=
  ∃ b r, text = b :: r ∧ 32 < b ∧ b < 128 ∧ b ≠ 93 ∧ b ≠ 125

theorem opens_append {text : List UInt8} (htext : Opens text) (rest : List UInt8) :
    Opens (text ++ rest) := by
  obtain ⟨b, r, rfl, hb⟩ := htext
  exact ⟨b, r ++ rest, rfl, hb⟩

theorem skipWhitespace_of_lt {b : UInt8} (hb : 32 < b) (r : List UInt8) :
    skipWhitespace (b :: r) = b :: r := by
  have hle : ¬ b ≤ 32 := UInt8.not_le.mpr hb
  simp [skipWhitespace, hle]

theorem skipWhitespace_of_opens {text : List UInt8} (htext : Opens text) :
    skipWhitespace text = text := by
  obtain ⟨b, r, rfl, hb, -⟩ := htext
  exact skipWhitespace_of_lt hb r

theorem opens_printString (s : List UInt8) : Opens (printString s) :=
  ⟨34, _, rfl, by decide, by decide, by decide, by decide⟩

theorem printNumber_head {i : ℤ} (hi : IsInt32 i) :
    ∃ b r, printNumber (.finite (i : ℚ)) = b :: r ∧ (b = 45 ∨ isDigit b = true) := by
  rw [printNumber_int32 hi]
  split
  · exact ⟨45, _, rfl, .inl rfl⟩
  · obtain ⟨hne, hdigit, -⟩ := decimal_spec i.natAbs
    obtain ⟨b, r, hbr⟩ := List.exists_cons_of_ne_nil hne
    exact ⟨b, r, hbr, .inr (hdigit b (hbr ▸ List.mem_cons_self))⟩

theorem range_of_number_head {b : UInt8} (hb : b = 45 ∨ isDigit b = true) : 45 ≤ b ∧ b ≤ 57 := by
  rcases hb with rfl | hb
  · decide
  · simp only [isDigit, Bool.and_eq_true, decide_eq_true_eq] at hb
    exact ⟨UInt8.le_trans (by decide) hb.1, hb.2⟩

theorem opens_printValue {v : Json} (hv : isPlain v = true) : Opens (printValue v) := by
  cases v with
  | null => exact ⟨110, ascii "ull", by decide, by decide, by decide, by decide, by decide⟩
  | bool b =>
      cases b with
      | false => exact ⟨102, ascii "alse", by decide, by decide, by decide, by decide, by decide⟩
      | true => exact ⟨116, ascii "rue", by decide, by decide, by decide, by decide, by decide⟩
  | number d =>
      obtain ⟨i, hi, rfl⟩ := isInt32_cases (by simpa [isPlain] using hv)
      obtain ⟨b, r, hbr, hb⟩ := printNumber_head hi
      have hrange := range_of_number_head hb
      refine ⟨b, r, by rw [printValue, hbr], UInt8.lt_of_lt_of_le (by decide) hrange.1,
        UInt8.lt_of_le_of_lt hrange.2 (by decide), ?_, ?_⟩
      · rintro rfl
        exact absurd hrange.2 (by decide)
      · rintro rfl
        exact absurd hrange.2 (by decide)
  | string s =>
      rw [printValue]
      exact opens_printString s
  | array items =>
      rw [printValue]
      exact ⟨91, _, rfl, by decide, by decide, by decide, by decide⟩
  | object members =>
      rw [printValue]
      exact ⟨123, _, rfl, by decide, by decide, by decide, by decide⟩

theorem ascii_null : ascii "null" = [110, 117, 108, 108] := by decide

theorem ascii_false : ascii "false" = [102, 97, 108, 115, 101] := by decide

theorem ascii_true : ascii "true" = [116, 114, 117, 101] := by decide

section Values

variable (pv : List UInt8 → Option (Json × List UInt8))
  (array object : (List UInt8 → Option (Json × List UInt8)) → List UInt8 →
    Option (Json × List UInt8))

theorem parseValueWith_null (rest : List UInt8) :
    parseValueWith pv array object (ascii "null" ++ rest) = some (.null, rest) := by
  simp [parseValueWith, ascii_null]

theorem parseValueWith_bool (b : Bool) (rest : List UInt8) :
    parseValueWith pv array object (printValue (.bool b) ++ rest) = some (.bool b, rest) := by
  cases b with
  | false => simp [parseValueWith, printValue, ascii_null, ascii_false]
  | true => simp [parseValueWith, printValue, ascii_null, ascii_false, ascii_true]

theorem parseValueWith_string (s rest : List UInt8) :
    parseValueWith pv array object (printString s ++ rest) = some (.string (cstr s), rest) := by
  have hparse := parseString_print s rest
  have hshape : printString s ++ rest = 34 :: ((cstr s).flatMap escapeByte ++ 34 :: rest) := by
    simp [printString]
  rw [hshape] at hparse ⊢
  simp [parseValueWith, ascii_null, ascii_false, ascii_true, hparse]

theorem parseValueWith_number {i : ℤ} (hi : IsInt32 i) {rest : List UInt8} (hrest : Ends rest) :
    parseValueWith pv array object (printNumber (.finite (i : ℚ)) ++ rest) =
      some (.number (.finite i), rest) := by
  have hparse := parseNumber_print hi hrest
  obtain ⟨b, r, hbr, hb⟩ := printNumber_head hi
  obtain ⟨hmin, hmax⟩ := range_of_number_head hb
  rw [hbr, List.cons_append] at hparse ⊢
  have hne (c : UInt8) (hc : 57 < c) : c ≠ b := by
    rintro rfl
    exact absurd hmax (UInt8.not_le.mpr hc)
  have hquote : b ≠ 34 := by
    rintro rfl
    exact absurd hmin (by decide)
  simp [parseValueWith, ascii_null, ascii_false, ascii_true, hne, hquote, hb, hparse]

theorem parseValueWith_array (r : List UInt8) :
    parseValueWith pv array object (91 :: r) = array pv r := by
  simp [parseValueWith, ascii_null, ascii_false, ascii_true, isDigit]

theorem parseValueWith_object (r : List UInt8) :
    parseValueWith pv array object (123 :: r) = object pv r := by
  simp [parseValueWith, ascii_null, ascii_false, ascii_true, isDigit]

end Values

section Loops

variable {pv : List UInt8 → Option (Json × List UInt8)}

theorem parseItems_none {text : List UInt8} (htext : Opens text) (hpv : pv text = none)
    (turns : ℕ) : parseItems pv turns text = none := by
  cases turns with
  | zero => rfl
  | succ turns => simp [parseItems, skipWhitespace_of_opens htext, hpv]

theorem parseItems_last {text rest : List UInt8} {v : Json} (htext : Opens text)
    (hpv : pv text = some (v, 93 :: rest)) (turns : ℕ) :
    parseItems pv (turns + 1) text = some ([v], rest) := by
  simp [parseItems, skipWhitespace_of_opens htext, hpv,
    skipWhitespace_of_lt (show (32 : UInt8) < 93 by decide)]

theorem parseItems_comma {text rest : List UInt8} {v : Json} (htext : Opens text)
    (hpv : pv text = some (v, 44 :: rest)) (turns : ℕ) :
    parseItems pv (turns + 1) text =
      (parseItems pv turns rest).map fun (vs, rest) => (v :: vs, rest) := by
  simp [parseItems, skipWhitespace_of_opens htext, hpv,
    skipWhitespace_of_lt (show (32 : UInt8) < 44 by decide)]

theorem parseMembers_none {name text : List UInt8} (htext : Opens text) (hpv : pv text = none)
    (turns : ℕ) : parseMembers pv turns (printString name ++ 58 :: text) = none := by
  cases turns with
  | zero => rfl
  | succ turns =>
      simp [parseMembers, skipWhitespace_of_opens (opens_append (opens_printString name) _),
        parseString_print, skipWhitespace_of_lt (show (32 : UInt8) < 58 by decide),
        skipWhitespace_of_opens htext, hpv]

theorem parseMembers_last {name text rest : List UInt8} {v : Json} (htext : Opens text)
    (hpv : pv text = some (v, 125 :: rest)) (turns : ℕ) :
    parseMembers pv (turns + 1) (printString name ++ 58 :: text) =
      some ([(cstr name, v)], rest) := by
  simp [parseMembers, skipWhitespace_of_opens (opens_append (opens_printString name) _),
    parseString_print, skipWhitespace_of_lt (show (32 : UInt8) < 58 by decide),
    skipWhitespace_of_opens htext, hpv, skipWhitespace_of_lt (show (32 : UInt8) < 125 by decide)]

theorem parseMembers_comma {name text rest : List UInt8} {v : Json} (htext : Opens text)
    (hpv : pv text = some (v, 44 :: rest)) (turns : ℕ) :
    parseMembers pv (turns + 1) (printString name ++ 58 :: text) =
      (parseMembers pv turns rest).map fun (ms, rest) => ((cstr name, v) :: ms, rest) := by
  simp [parseMembers, skipWhitespace_of_opens (opens_append (opens_printString name) _),
    parseString_print, skipWhitespace_of_lt (show (32 : UInt8) < 58 by decide),
    skipWhitespace_of_opens htext, hpv, skipWhitespace_of_lt (show (32 : UInt8) < 44 by decide)]

end Loops

theorem length_le_printItems {items : List Json} (hplain : isPlainItems items = true) :
    items.length ≤ (printItems items).length := by
  induction items with
  | nil => simp
  | cons v vs ih =>
      simp only [isPlainItems, Bool.and_eq_true] at hplain
      obtain ⟨b, r, hbr, -⟩ := opens_printValue hplain.1
      have hrest := ih hplain.2
      cases vs with
      | nil => simp [printItems, hbr]
      | cons w ws =>
          simp only [printItems, hbr, List.isEmpty_cons, Bool.false_eq_true, if_false,
            List.length_append, List.length_cons] at hrest ⊢
          omega

theorem length_le_printMembers (members : List (List UInt8 × Json)) :
    members.length ≤ (printMembers members).length := by
  induction members with
  | nil => simp
  | cons m ms ih =>
      obtain ⟨name, v⟩ := m
      cases ms with
      | nil => simp [printMembers, printString]
      | cons w ws =>
          simp only [printMembers, List.isEmpty_cons, Bool.false_eq_true, if_false,
            List.length_append, List.length_cons] at ih ⊢
          omega

/-- The parser reads a printed value back if it has the levels for it. -/
def ReadsBack (v : Json) : Prop :=
  ∀ levels rest, Ends rest →
    parseValue levels (printValue v ++ rest) =
      if depth v ≤ levels then some (v, rest) else none

theorem map_if_max {α β : Type} {a b levels : ℕ} (f : α → β) (x : α) (hle : a ≤ levels) :
    (if b ≤ levels then some x else none).map f = if max a b ≤ levels then some (f x) else none := by
  by_cases hb : b ≤ levels
  · rw [if_pos hb, if_pos (Nat.max_le.mpr ⟨hle, hb⟩)]
    rfl
  · rw [if_neg hb, if_neg (fun h => hb (Nat.max_le.mp h).2)]
    rfl

theorem if_max_none {α : Type} {a b levels : ℕ} (x : α) (hgt : ¬ a ≤ levels) :
    (if max a b ≤ levels then some x else none) = none :=
  if_neg fun h => hgt (Nat.max_le.mp h).1

theorem parseItems_print {levels : ℕ} {items : List Json} (hne : items ≠ [])
    (hplain : isPlainItems items = true) (hread : ∀ v ∈ items, ReadsBack v) {turns : ℕ}
    (hturns : items.length ≤ turns) (rest : List UInt8) :
    parseItems (parseValue levels) turns (printItems items ++ 93 :: rest) =
      if depthItems items ≤ levels then some (items, rest) else none := by
  induction items generalizing turns with
  | nil => exact absurd rfl hne
  | cons v vs ih =>
      simp only [isPlainItems, Bool.and_eq_true] at hplain
      simp only [List.length_cons] at hturns
      obtain ⟨turns, rfl⟩ : ∃ t, turns = t + 1 := ⟨turns - 1, by omega⟩
      have hv := hread v List.mem_cons_self levels
      have hopens := opens_printValue hplain.1
      rw [depthItems]
      cases vs with
      | nil =>
          have hv := hv (93 :: rest) (ends_cons (by decide))
          have htext : printItems [v] ++ 93 :: rest = printValue v ++ 93 :: rest := by
            simp [printItems]
          rw [htext]
          simp only [depthItems, Nat.max_zero]
          by_cases hle : depth v ≤ levels
          · rw [if_pos hle] at hv ⊢
            exact parseItems_last (opens_append hopens _) hv turns
          · rw [if_neg hle] at hv ⊢
            exact parseItems_none (opens_append hopens _) hv (turns + 1)
      | cons w ws =>
          have hv := hv (44 :: (printItems (w :: ws) ++ 93 :: rest)) (ends_cons (by decide))
          have htext : printItems (v :: w :: ws) ++ 93 :: rest =
              printValue v ++ 44 :: (printItems (w :: ws) ++ 93 :: rest) := by
            rw [printItems]
            simp
          have hvs : parseItems (parseValue levels) turns (printItems (w :: ws) ++ 93 :: rest) =
              if depthItems (w :: ws) ≤ levels then some (w :: ws, rest) else none :=
            ih (List.cons_ne_nil w ws) hplain.2 (fun u hu => hread u (List.mem_cons_of_mem v hu))
              (by omega)
          rw [htext]
          by_cases hle : depth v ≤ levels
          · rw [if_pos hle] at hv
            rw [parseItems_comma (opens_append hopens _) hv, hvs, map_if_max _ _ hle]
          · rw [if_neg hle] at hv
            rw [parseItems_none (opens_append hopens _) hv, if_max_none _ hle]

theorem parseMembers_print {levels : ℕ} {members : List (List UInt8 × Json)} (hne : members ≠ [])
    (hplain : isPlainMembers members = true) (hread : ∀ m ∈ members, ReadsBack m.2) {turns : ℕ}
    (hturns : members.length ≤ turns) (rest : List UInt8) :
    parseMembers (parseValue levels) turns (printMembers members ++ 125 :: rest) =
      if depthMembers members ≤ levels then some (members, rest) else none := by
  induction members generalizing turns with
  | nil => exact absurd rfl hne
  | cons m ms ih =>
      obtain ⟨name, v⟩ := m
      simp only [isPlainMembers, Bool.and_eq_true] at hplain
      simp only [List.length_cons] at hturns
      obtain ⟨turns, rfl⟩ : ∃ t, turns = t + 1 := ⟨turns - 1, by omega⟩
      have hv := hread (name, v) List.mem_cons_self levels
      have hopens := opens_printValue hplain.1.2
      have hname := cstr_of_not_contains hplain.1.1
      rw [depthMembers]
      cases ms with
      | nil =>
          have hv := hv (125 :: rest) (ends_cons (by decide))
          have htext : printMembers [(name, v)] ++ 125 :: rest =
              printString name ++ 58 :: (printValue v ++ 125 :: rest) := by
            simp [printMembers]
          rw [htext]
          simp only [depthMembers, Nat.max_zero]
          by_cases hle : depth v ≤ levels
          · rw [if_pos hle] at hv ⊢
            rw [parseMembers_last (opens_append hopens _) hv turns, hname]
          · rw [if_neg hle] at hv ⊢
            exact parseMembers_none (opens_append hopens _) hv (turns + 1)
      | cons w ws =>
          have hv := hv (44 :: (printMembers (w :: ws) ++ 125 :: rest)) (ends_cons (by decide))
          have htext : printMembers ((name, v) :: w :: ws) ++ 125 :: rest =
              printString name ++ 58 ::
                (printValue v ++ 44 :: (printMembers (w :: ws) ++ 125 :: rest)) := by
            rw [printMembers]
            simp
          have hvs : parseMembers (parseValue levels) turns
              (printMembers (w :: ws) ++ 125 :: rest) =
              if depthMembers (w :: ws) ≤ levels then some (w :: ws, rest) else none :=
            ih (List.cons_ne_nil w ws) hplain.2 (fun u hu => hread u (List.mem_cons_of_mem _ hu))
              (by omega)
          rw [htext]
          by_cases hle : depth v ≤ levels
          · rw [if_pos hle] at hv
            rw [parseMembers_comma (opens_append hopens _) hv, hvs, map_if_max _ _ hle, hname]
          · rw [if_neg hle] at hv
            rw [parseMembers_none (opens_append hopens _) hv, if_max_none _ hle]

theorem opens_printItems {items : List Json} (hne : items ≠ [])
    (hplain : isPlainItems items = true) : Opens (printItems items) := by
  obtain ⟨v, vs, rfl⟩ := List.exists_cons_of_ne_nil hne
  simp only [isPlainItems, Bool.and_eq_true] at hplain
  rw [printItems]
  exact opens_append (opens_printValue hplain.1) _

theorem opens_printMembers {members : List (List UInt8 × Json)} (hne : members ≠ []) :
    Opens (printMembers members) := by
  obtain ⟨⟨name, v⟩, ms, rfl⟩ := List.exists_cons_of_ne_nil hne
  rw [printMembers]
  exact opens_append (opens_printString name) _

theorem parseArray_print {levels : ℕ} {items : List Json} (hplain : isPlainItems items = true)
    (hread : ∀ v ∈ items, ReadsBack v) (rest : List UInt8) :
    parseArray (parseValue levels) (printItems items ++ 93 :: rest) =
      if depthItems items ≤ levels then some (.array items, rest) else none := by
  by_cases hne : items = []
  · subst hne
    simp [printItems, depthItems, parseArray,
      skipWhitespace_of_lt (show (32 : UInt8) < 93 by decide)]
  · have hopens := opens_append (opens_printItems hne hplain) (93 :: rest)
    have hlen := length_le_printItems hplain
    have hskip := skipWhitespace_of_opens hopens
    obtain ⟨b, r, hbr, -, -, h93, -⟩ := hopens
    have hturns : items.length ≤ r.length + 1 := by
      have := congrArg List.length hbr
      simp only [List.length_append, List.length_cons] at this
      omega
    have hitems := @parseItems_print levels items hne hplain hread _ hturns rest
    rw [hbr] at hskip hitems ⊢
    simp only [parseArray, hskip, if_neg h93, hitems]
    split <;> rfl

theorem parseObject_print {levels : ℕ} {members : List (List UInt8 × Json)}
    (hplain : isPlainMembers members = true) (hread : ∀ m ∈ members, ReadsBack m.2)
    (rest : List UInt8) :
    parseObject (parseValue levels) (printMembers members ++ 125 :: rest) =
      if depthMembers members ≤ levels then some (.object members, rest) else none := by
  by_cases hne : members = []
  · subst hne
    simp [printMembers, depthMembers, parseObject,
      skipWhitespace_of_lt (show (32 : UInt8) < 125 by decide)]
  · have hopens := opens_append (opens_printMembers hne) (125 :: rest)
    have hlen := length_le_printMembers members
    have hskip := skipWhitespace_of_opens hopens
    obtain ⟨b, r, hbr, -, -, -, h125⟩ := hopens
    have hturns : members.length ≤ r.length + 1 := by
      have := congrArg List.length hbr
      simp only [List.length_append, List.length_cons] at this
      omega
    have hmembers := @parseMembers_print levels members hne hplain hread _ hturns rest
    rw [hbr] at hskip hmembers ⊢
    simp only [parseObject, hskip, if_neg h125, hmembers]
    split <;> rfl

theorem isPlainItems_mem {items : List Json} (hplain : isPlainItems items = true) :
    ∀ v ∈ items, isPlain v = true := by
  induction items with
  | nil => simp
  | cons v vs ih =>
      simp only [isPlainItems, Bool.and_eq_true] at hplain
      exact List.forall_mem_cons.mpr ⟨hplain.1, ih hplain.2⟩

theorem isPlainMembers_mem {members : List (List UInt8 × Json)}
    (hplain : isPlainMembers members = true) :
    ∀ m ∈ members, (!m.1.contains 0) = true ∧ isPlain m.2 = true := by
  induction members with
  | nil => simp
  | cons m ms ih =>
      simp only [isPlainMembers, Bool.and_eq_true] at hplain
      exact List.forall_mem_cons.mpr ⟨hplain.1, ih hplain.2⟩

/-- A printed value is read back, and nothing behind it, exactly if it is not
nested deeper than the parser may go. -/
theorem parseValue_print {v : Json} (hplain : isPlain v = true) : ReadsBack v := by
  induction v using Json.induct with
  | null =>
      intro levels rest _
      cases levels <;> simp [parseValue, printValue, depth, parseValueWith_null]
  | bool b =>
      intro levels rest _
      cases levels <;> simp [parseValue, depth, parseValueWith_bool]
  | number d =>
      intro levels rest hrest
      obtain ⟨i, hi, rfl⟩ := isInt32_cases (by simpa [isPlain] using hplain)
      cases levels <;> simp [parseValue, printValue, depth, parseValueWith_number _ _ _ hi hrest]
  | string s =>
      intro levels rest _
      have hs := cstr_of_not_contains (by simpa only [isPlain] using hplain)
      cases levels <;> simp [parseValue, printValue, depth, parseValueWith_string, hs]
  | array items ih =>
      intro levels rest _
      simp only [isPlain] at hplain
      have hread (v : Json) (hv : v ∈ items) : ReadsBack v :=
        ih v hv (isPlainItems_mem hplain v hv)
      have htext : printValue (.array items) ++ rest = 91 :: (printItems items ++ 93 :: rest) := by
        simp [printValue]
      rw [htext, depth]
      cases levels with
      | zero => rw [parseValue, parseValueWith_array, if_neg (by omega)]
      | succ levels =>
          rw [parseValue, parseValueWith_array, parseArray_print hplain hread]
          simp only [Nat.add_le_add_iff_right]
  | object members ih =>
      intro levels rest _
      simp only [isPlain] at hplain
      have hread (m : List UInt8 × Json) (hm : m ∈ members) : ReadsBack m.2 :=
        ih m hm (isPlainMembers_mem hplain m hm).2
      have htext : printValue (.object members) ++ rest =
          123 :: (printMembers members ++ 125 :: rest) := by
        simp [printValue]
      rw [htext, depth]
      cases levels with
      | zero => rw [parseValue, parseValueWith_object, if_neg (by omega)]
      | succ levels =>
          rw [parseValue, parseValueWith_object, parseObject_print hplain hread]
          simp only [Nat.add_le_add_iff_right]

/-! ### Texts -/

theorem zero_not_mem_escapeByte {b : UInt8} (hb : b ≠ 0) : 0 ∉ escapeByte b := by
  have hhex : ∀ n : Fin 16, hexChar n ≠ 0 := by decide
  rcases escapeByte_cases b with ⟨heq, -⟩ | ⟨c, heq, hc⟩ | ⟨hlow, heq⟩
  · rw [heq]
    simpa using hb.symm
  · have hc0 : c ≠ 0 := by
      rintro rfl
      rw [show simpleEscape 0 = none by decide] at hc
      exact absurd hc (by simp)
    rw [heq]
    simpa using hc0.symm
  · rw [UInt8.lt_iff_toNat_lt] at hlow
    simp only [UInt8.reduceToNat] at hlow
    have hhigh := hhex ⟨b.toNat / 16, by omega⟩
    have hrem := hhex ⟨b.toNat % 16, by omega⟩
    rw [heq]
    simpa using ⟨hhigh.symm, hrem.symm⟩

theorem zero_not_mem_printString (s : List UInt8) : 0 ∉ printString s := by
  have hbytes : 0 ∉ (cstr s).flatMap escapeByte := by
    rw [List.mem_flatMap]
    rintro ⟨b, hb, hmem⟩
    have hne : b ≠ 0 := by simpa using List.mem_takeWhile_imp hb
    exact zero_not_mem_escapeByte hne hmem
  simpa [printString] using hbytes

theorem zero_not_mem_printNumber {i : ℤ} (hi : IsInt32 i) :
    0 ∉ printNumber (.finite (i : ℚ)) := by
  have hdigits : 0 ∉ decimal i.natAbs := fun h0 =>
    absurd ((decimal_spec _).2.1 0 h0) (by decide)
  rw [printNumber_int32 hi]
  split
  · simpa using hdigits
  · exact hdigits

theorem zero_not_mem_printItems {items : List Json} (hitems : ∀ v ∈ items, 0 ∉ printValue v) :
    0 ∉ printItems items := by
  induction items with
  | nil => simp [printItems]
  | cons v vs ih =>
      obtain ⟨hv, hvs⟩ := List.forall_mem_cons.mp hitems
      have hrest := ih hvs
      rw [printItems]
      split <;> simp [hv, hrest]

theorem zero_not_mem_printMembers {members : List (List UInt8 × Json)}
    (hmembers : ∀ m ∈ members, 0 ∉ printValue m.2) : 0 ∉ printMembers members := by
  induction members with
  | nil => simp [printMembers]
  | cons m ms ih =>
      obtain ⟨name, v⟩ := m
      obtain ⟨hv, hvs⟩ := List.forall_mem_cons.mp hmembers
      have hrest := ih hvs
      have hname := zero_not_mem_printString name
      simp only at hv
      rw [printMembers]
      split <;> simp [hv, hrest, hname]

theorem zero_not_mem_printValue {v : Json} (hplain : isPlain v = true) : 0 ∉ printValue v := by
  induction v using Json.induct with
  | null => decide
  | bool b => cases b <;> decide
  | number d =>
      obtain ⟨i, hi, rfl⟩ := isInt32_cases (by simpa [isPlain] using hplain)
      rw [printValue]
      exact zero_not_mem_printNumber hi
  | string s =>
      rw [printValue]
      exact zero_not_mem_printString s
  | array items ih =>
      simp only [isPlain] at hplain
      have := zero_not_mem_printItems fun v hv => ih v hv (isPlainItems_mem hplain v hv)
      simpa [printValue] using this
  | object members ih =>
      simp only [isPlain] at hplain
      have := zero_not_mem_printMembers fun m hm => ih m hm (isPlainMembers_mem hplain m hm).2
      simpa [printValue] using this

/-- A printed value is a text of its own. -/
theorem parseWithOpts_print {v : Json} (hplain : isPlain v = true) :
    parseWithOpts (printUnformatted v) = if depth v ≤ nestingLimit then some v else none := by
  have hopens := opens_append (opens_printValue hplain) [0]
  have hbom : skipUtf8Bom (printValue v ++ [0]) = printValue v ++ [0] := by
    obtain ⟨b, r, hbr, -, hb, -⟩ := opens_printValue hplain
    have hne : b ≠ 0xEF := by
      rintro rfl
      exact absurd hb (by decide)
    simp [skipUtf8Bom, hbr, hne]
  have hread := parseValue_print hplain nestingLimit [0] (ends_cons (by decide))
  have hend : skipWhitespace [0] = [0] := by decide
  rw [parseWithOpts_eq, printUnformatted, hbom, skipWhitespace_of_opens hopens, hread]
  split
  · simp [hend]
  · rfl

/-- A printed value that passes the checks of the protocol is accepted. -/
theorem parseAt_print {allowDuplicateKeys : Bool} {v : Json} (hplain : isPlain v = true)
    (hdepth : depth v ≤ nestingLimit)
    (hkeys : allowDuplicateKeys = true ∨ checkNoDuplicateKeys v = true) (hutf8 : checkUtf8 v = true)
    (more : List UInt8) :
    parseAt allowDuplicateKeys (printUnformatted v ++ 0 :: more) (printUnformatted v).length =
      some (.ok v) := by
  have hget : (printUnformatted v ++ 0 :: more)[(printUnformatted v).length]? = some 0 := by simp
  have hzero : (printUnformatted v).contains 0 = false := by
    have := zero_not_mem_printValue hplain
    simpa [printUnformatted] using this
  have hcheck : (!allowDuplicateKeys && !checkNoDuplicateKeys v) = false := by
    obtain hallow | hkeys := hkeys
    · rw [hallow]
      rfl
    · rw [hkeys]
      simp
  simp only [parseAt, hget, ne_eq, not_true, if_false, List.take_left, hzero, parseText,
    parseWithOpts_print hplain, if_pos hdepth, hcheck, hutf8, Bool.not_true, Bool.false_eq_true]

end Savvy.CJson
