import Savvy.Json.Literals
import Savvy.Json.RoundTrip
import Savvy.Json.Utf8

/-!
What the strings of an accepted text stand for. A string literal denotes a list
of characters; a reader of the tree takes its string as a C string. The two
agree unless the literal has an escape `\u` that is `\u0000`, or that is not
followed by four hexadecimal digits: `parse_hex4` takes the latter for zero, and
a zero ends a C string.
-/

namespace Savvy.CJson

open String

/-! ### The characters of a literal -/

def hexValue (b : UInt8) : Option ℕ :=
  ((ascii "0123456789abcdef").idxOf? b).or ((ascii "0123456789ABCDEF").idxOf? b)

def hex4 : List UInt8 → Option ℕ
  | [b0, b1, b2, b3] =>
      (hexValue b0).bind fun d0 => (hexValue b1).bind fun d1 =>
        (hexValue b2).bind fun d2 => (hexValue b3).map fun d3 =>
          ((d0 * 16 + d1) * 16 + d2) * 16 + d3
  | _ => none

def escapeChar (b : UInt8) : Option Char :=
  [(34, '\"'), (92, '\\'), (47, '/'), (98, '\x08'), (102, '\x0c'), (110, '\n'), (114, '\r'),
    (116, '\t')].lookup b

def pairChar (hi lo : ℕ) : Char := Char.ofNat (0x10000 + (hi - 0xD800) * 0x400 + (lo - 0xDC00))

/-- The decoding of a literal by section 7 of RFC 8259. A control character that
is not escaped stands for itself, as section 9 lets a parser do. -/
inductive Decodes : List UInt8 → List Char → Prop
  | nil : Decodes [] []
  | char {c : Char} {lit : List UInt8} {cs : List Char} (hquote : c ≠ '\"') (hescape : c ≠ '\\')
      (h : Decodes lit cs) : Decodes (utf8EncodeChar c ++ lit) (c :: cs)
  | letter {b : UInt8} {c : Char} {lit : List UInt8} {cs : List Char}
      (hb : escapeChar b = some c) (h : Decodes lit cs) : Decodes (92 :: b :: lit) (c :: cs)
  | unit {b0 b1 b2 b3 : UInt8} {cp : ℕ} {lit : List UInt8} {cs : List Char}
      (hcp : hex4 [b0, b1, b2, b3] = some cp) (hscalar : IsScalar cp) (h : Decodes lit cs) :
      Decodes (92 :: 117 :: b0 :: b1 :: b2 :: b3 :: lit) (Char.ofNat cp :: cs)
  | pair {b0 b1 b2 b3 c0 c1 c2 c3 : UInt8} {hi lo : ℕ} {lit : List UInt8} {cs : List Char}
      (hhi : hex4 [b0, b1, b2, b3] = some hi) (hlo : hex4 [c0, c1, c2, c3] = some lo)
      (hhigh : 0xD800 ≤ hi ∧ hi ≤ 0xDBFF) (hlow : 0xDC00 ≤ lo ∧ lo ≤ 0xDFFF)
      (h : Decodes lit cs) :
      Decodes (92 :: 117 :: b0 :: b1 :: b2 :: b3 :: 92 :: 117 :: c0 :: c1 :: c2 :: c3 :: lit)
        (pairChar hi lo :: cs)

/-- What stands behind each `\u` of a literal: four bytes, or what there is. -/
def unicodeEscapes : List UInt8 → List (List UInt8)
  | [] => []
  | b :: r =>
      if b = 92 then
        match r with
        | [] => []
        | c :: r => if c = 117 then r.take 4 :: unicodeEscapes r else unicodeEscapes r
      else unicodeEscapes r

/-- No string is cut, none is left unchecked. -/
structure StringsFaithful (text : List UInt8) (root : Json) : Prop where
  /-- Each string, read as a C string, is the decoding of its literal. -/
  decoded : List.Forall₂ (fun lit s => ∃ cs, Decodes lit cs ∧ cstr s = utf8 cs)
    (literals text) (strings root)
  /-- Each `\u` has its four digits. -/
  digits : ∀ lit ∈ literals text, ∀ ds ∈ unicodeEscapes lit, (hex4 ds).isSome
  /-- Literals of different decodings do not compare equal. -/
  distinct : ∀ p ∈ (literals text).zip (strings root), ∀ q ∈ (literals text).zip (strings root),
    ∀ cs cs', Decodes p.1 cs → Decodes q.1 cs' → cs ≠ cs' → cstr p.2 ≠ cstr q.2
  /-- All bytes of a literal are UTF-8. -/
  encoded : ∀ lit ∈ literals text, ∃ cs, lit = utf8 cs

/-- Each `\u` of a literal is followed by four hexadecimal digits that are not
all zero. -/
def EscapesNonzero (lit : List UInt8) : Prop :=
  ∀ ds ∈ unicodeEscapes lit, ∃ n, hex4 ds = some n ∧ n ≠ 0

instance : DecidablePred EscapesNonzero := fun lit =>
  decidable_of_iff (∀ ds ∈ unicodeEscapes lit, (hex4 ds).any (· ≠ 0) = true)
    (by simp only [Option.any_eq_true, decide_eq_true_eq, EscapesNonzero])

/-! ### Bytes of characters -/

/-- A byte with a mark is no ASCII code. -/
theorem marked_not_lt {m x : ℕ} (hm : 0x80 ≤ m) (hlt : x + m < 256) : ¬ marked m x < 0x80 := by
  rw [UInt8.lt_iff_toNat_lt, marked, UInt8.toNat_ofNat_of_lt' hlt]
  exact Nat.not_lt.mpr (Nat.le_add_left_of_le hm)

theorem first_one : ∀ x < 0x80, isContinuation (UInt8.ofNat x) = false := by
  set_option maxRecDepth 4000 in
  decide

theorem first_marked_two : ∀ x < 32, isContinuation (marked 0xC0 x) = false := by decide

theorem first_marked_three : ∀ x < 16, isContinuation (marked 0xE0 x) = false := by decide

theorem first_marked_four : ∀ x < 8, isContinuation (marked 0xF0 x) = false := by decide

/-- A byte of a character that is an ASCII code is the whole of it. -/
theorem toNat_of_mem_encodeChar {c : Char} {b : UInt8} (hb : b ∈ utf8EncodeChar c)
    (hlow : b < 0x80) : c.toNat = b.toNat := by
  obtain ⟨h1, henc⟩ | ⟨x, hx, y, hy, -, -, henc⟩ | ⟨x, hx, y, hy, z, hz, -, -, henc⟩ |
    ⟨w, hw, x, hx, y, hy, z, hz, -, -, henc⟩ := encodeChar_cases c
  · rw [henc, List.mem_singleton] at hb
    rw [hb, UInt8.toNat_ofNat_of_lt' (Nat.lt_trans h1 (by decide))]
  all_goals
    rw [henc] at hb
    simp only [List.mem_cons, List.not_mem_nil, or_false] at hb
    exfalso
  · obtain rfl | rfl := hb
    · exact marked_not_lt (by decide) (by omega) hlow
    · exact marked_not_lt (by decide) (by omega) hlow
  · obtain rfl | rfl | rfl := hb
    · exact marked_not_lt (by decide) (by omega) hlow
    · exact marked_not_lt (by decide) (by omega) hlow
    · exact marked_not_lt (by decide) (by omega) hlow
  · obtain rfl | rfl | rfl | rfl := hb
    · exact marked_not_lt (by decide) (by omega) hlow
    · exact marked_not_lt (by decide) (by omega) hlow
    · exact marked_not_lt (by decide) (by omega) hlow
    · exact marked_not_lt (by decide) (by omega) hlow

theorem notMem_encodeChar {c d : Char} {b : UInt8} (hd : d.toNat = b.toNat) (hlow : b < 0x80)
    (hne : c ≠ d) : b ∉ utf8EncodeChar c := fun hb =>
  hne (Char.toNat_inj.mp ((toNat_of_mem_encodeChar hb hlow).trans hd.symm))

/-- A character starts with a byte that is no continuation, and goes on with
continuation bytes. -/
theorem encodeChar_cons (c : Char) :
    ∃ b tail, utf8EncodeChar c = b :: tail ∧ isContinuation b = false ∧
      ∀ t ∈ tail, isContinuation t = true := by
  have htail {x : ℕ} (hx : x < 64) := (marked_tail x hx).1
  obtain ⟨h1, henc⟩ | ⟨x, hx, y, hy, -, -, henc⟩ | ⟨x, hx, y, hy, z, hz, -, -, henc⟩ |
    ⟨w, hw, x, hx, y, hy, z, hz, -, -, henc⟩ := encodeChar_cases c
  · exact ⟨_, [], henc, first_one _ h1, by simp⟩
  · refine ⟨_, _, henc, first_marked_two x hx, ?_⟩
    simp [htail hy]
  · refine ⟨_, _, henc, first_marked_three x hx, ?_⟩
    simp [htail hy, htail hz]
  · refine ⟨_, _, henc, first_marked_four w hw, ?_⟩
    simp [htail hx, htail hy, htail hz]

theorem utf8_injective {cs cs' : List Char} (h : utf8 cs = utf8 cs') : cs = cs' := by
  have hbytes : cs.utf8Encode = cs'.utf8Encode := congrArg List.toByteArray h
  have hstr : String.ofList cs = String.ofList cs' :=
    String.toByteArray_inj.mp (by rw [toByteArray_ofList, toByteArray_ofList, hbytes])
  exact String.ofList_inj.mp hstr

theorem hexValue_eq (b : UInt8) : hexValue b = hexDigit b := by
  revert b
  apply forall_byte
  decide +kernel

theorem escapeChar_eq (b : UInt8) :
    (escapeChar b).map utf8EncodeChar = (simpleEscape b).map ([·]) := by
  revert b
  apply forall_byte
  set_option maxRecDepth 4000 in
  decide

theorem hex4_eq {b0 b1 b2 b3 : UInt8} {n : ℕ} (h : hex4 [b0, b1, b2, b3] = some n) :
    parseHex4 b0 b1 b2 b3 = n := by
  simp only [hex4, hexValue_eq] at h
  obtain ⟨d0, h0, h⟩ := Option.bind_eq_some_iff.mp h
  obtain ⟨d1, h1, h⟩ := Option.bind_eq_some_iff.mp h
  obtain ⟨d2, h2, h⟩ := Option.bind_eq_some_iff.mp h
  obtain ⟨d3, h3, h⟩ := Option.map_eq_some_iff.mp h
  simp only [parseHex4, h0, h1, h2, h3]
  exact h

/-! ### The escapes of a literal -/

theorem unescape_append {bs : List UInt8} (h : 92 ∉ bs) (r : List UInt8) :
    unescape (bs ++ r) = (unescape r).map (bs ++ ·) := by
  induction bs with
  | nil => simp
  | cons b bs ih =>
      obtain ⟨hb, hbs⟩ := List.ne_and_not_mem_of_not_mem_cons h
      rw [List.cons_append, unescape_byte hb.symm, ih hbs, Option.map_map]
      rfl

theorem unescape_surrogates {b0 b1 b2 b3 c0 c1 c2 c3 : UInt8} {hi lo : ℕ}
    (hhi : parseHex4 b0 b1 b2 b3 = hi) (hlo : parseHex4 c0 c1 c2 c3 = lo)
    (hhigh : 0xD800 ≤ hi ∧ hi ≤ 0xDBFF) (hlow : 0xDC00 ≤ lo ∧ lo ≤ 0xDFFF) (r : List UInt8) :
    unescape (92 :: 117 :: b0 :: b1 :: b2 :: b3 :: 92 :: 117 :: c0 :: c1 :: c2 :: c3 :: r) =
      (unescape r).map (encodeUtf8 (0x10000 + ((hi &&& 0x3FF) <<< 10 ||| lo &&& 0x3FF)) ++ ·) := by
  have hletter : simpleEscape 117 = none := by decide
  rw [unescape.eq_def]
  simp only [hletter, hhi, hlo, ne_eq, not_true, if_false, or_self]
  rw [if_neg (by omega), if_pos hhigh, if_neg (by omega)]

theorem unescape_cases {lit s : List UInt8} (h : unescape lit = some s) :
    (lit = [] ∧ s = []) ∨ (lit = [92] ∧ s = [34]) ∨
      (∃ b r s', lit = b :: r ∧ b ≠ 92 ∧ unescape r = some s' ∧ s = b :: s') ∨
      (∃ c x r s', lit = 92 :: c :: r ∧ simpleEscape c = some x ∧ unescape r = some s' ∧
        s = x :: s') ∨
      (∃ b0 b1 b2 b3 r s', lit = 92 :: 117 :: b0 :: b1 :: b2 :: b3 :: r ∧
        (parseHex4 b0 b1 b2 b3 < 0xD800 ∨ 0xDFFF < parseHex4 b0 b1 b2 b3) ∧
        unescape r = some s' ∧ s = encodeUtf8 (parseHex4 b0 b1 b2 b3) ++ s') ∨
      ∃ b0 b1 b2 b3 c0 c1 c2 c3 r s',
        lit = 92 :: 117 :: b0 :: b1 :: b2 :: b3 :: 92 :: 117 :: c0 :: c1 :: c2 :: c3 :: r ∧
        (0xD800 ≤ parseHex4 b0 b1 b2 b3 ∧ parseHex4 b0 b1 b2 b3 ≤ 0xDBFF) ∧
        (0xDC00 ≤ parseHex4 c0 c1 c2 c3 ∧ parseHex4 c0 c1 c2 c3 ≤ 0xDFFF) ∧
        unescape r = some s' ∧ s = encodeUtf8 (0x10000 +
          ((parseHex4 b0 b1 b2 b3 &&& 0x3FF) <<< 10 ||| parseHex4 c0 c1 c2 c3 &&& 0x3FF)) ++ s' := by
  rw [unescape.eq_def] at h
  split at h
  · cases h
    exact .inl ⟨rfl, rfl⟩
  next b r =>
  split at h
  · next hb =>
      obtain ⟨s', hs', rfl⟩ := Option.map_eq_some_iff.mp h
      exact .inr (.inr (.inl ⟨b, r, s', rfl, hb, hs', rfl⟩))
  next hb =>
  obtain rfl : b = 92 := Decidable.not_not.mp hb
  split at h
  · cases h
    exact .inr (.inl ⟨rfl, rfl⟩)
  next c r =>
  split at h
  · next x hx =>
      obtain ⟨s', hs', rfl⟩ := Option.map_eq_some_iff.mp h
      exact .inr (.inr (.inr (.inl ⟨c, x, r, s', rfl, hx, hs', rfl⟩)))
  split at h
  · cases h
  next hc =>
  obtain rfl : c = 117 := Decidable.not_not.mp hc
  split at h
  · next b0 b1 b2 b3 r =>
    dsimp only at h
    split at h
    · cases h
    next hnotlow =>
    split at h
    · next hhigh =>
        split at h
        · next x y c0 c1 c2 c3 r =>
          split at h
          · cases h
          next hmark =>
          split at h
          · cases h
          next hlow =>
            obtain ⟨s', hs', rfl⟩ := Option.map_eq_some_iff.mp h
            obtain ⟨rfl, rfl⟩ : x = 92 ∧ y = 117 := by
              rw [not_or, ne_eq, ne_eq, Decidable.not_not, Decidable.not_not] at hmark
              exact hmark
            exact .inr (.inr (.inr (.inr (.inr ⟨b0, b1, b2, b3, c0, c1, c2, c3, r, s', rfl, hhigh,
              by omega, hs', rfl⟩))))
        · cases h
    · obtain ⟨s', hs', rfl⟩ := Option.map_eq_some_iff.mp h
      exact .inr (.inr (.inr (.inr (.inl ⟨b0, b1, b2, b3, r, s', rfl, by omega, hs', rfl⟩))))
  · cases h

/-! ### From the literal to the string -/

/-- The code point that `utf16_literal_to_utf8` makes of a surrogate pair. -/
theorem pair_eq {hi lo : ℕ} (hhigh : 0xD800 ≤ hi ∧ hi ≤ 0xDBFF)
    (hlow : 0xDC00 ≤ lo ∧ lo ≤ 0xDFFF) :
    0x10000 + ((hi &&& 0x3FF) <<< 10 ||| lo &&& 0x3FF) =
      0x10000 + (hi - 0xD800) * 0x400 + (lo - 0xDC00) := by
  have hbits (n : ℕ) : n &&& 0x3FF = n % 1024 := Nat.and_two_pow_sub_one_eq_mod n 10
  have hlt : lo % 1024 < 2 ^ 10 := by omega
  rw [hbits, hbits, ← Nat.shiftLeft_add_eq_or_of_lt hlt, Nat.shiftLeft_eq]
  omega

theorem encodeUtf8_pair {hi lo : ℕ} (hhigh : 0xD800 ≤ hi ∧ hi ≤ 0xDBFF)
    (hlow : 0xDC00 ≤ lo ∧ lo ≤ 0xDFFF) :
    encodeUtf8 (0x10000 + ((hi &&& 0x3FF) <<< 10 ||| lo &&& 0x3FF)) =
      utf8EncodeChar (pairChar hi lo) := by
  rw [pair_eq hhigh hlow]
  exact encodeUtf8_eq (.inr (by omega))

/-- A literal with a decoding is unescaped to the bytes of it. -/
theorem unescape_of_decodes {lit : List UInt8} {cs : List Char} (h : Decodes lit cs) :
    unescape lit = some (utf8 cs) := by
  induction h with
  | nil => rfl
  | char hquote hescape _ ih =>
      have hraw := notMem_encodeChar (show '\\'.toNat = (92 : UInt8).toNat from rfl) (by decide)
        hescape
      rw [unescape_append hraw, ih]
      rfl
  | @letter b c lit cs hb _ ih =>
      have heq := escapeChar_eq b
      rw [hb] at heq
      obtain ⟨x, hx, henc⟩ := Option.map_eq_some_iff.mp heq.symm
      rw [unescape_pair hx, ih, Option.map_some, utf8_cons, ← henc]
      rfl
  | unit hcp hscalar _ ih =>
      rw [unescape_hex (hex4_eq hcp) (hscalar.imp_right And.left), ih, encodeUtf8_eq hscalar]
      rfl
  | pair hhi hlo hhigh hlow _ ih =>
      rw [unescape_surrogates (hex4_eq hhi) (hex4_eq hlo) hhigh hlow, ih, encodeUtf8_pair hhigh hlow]
      rfl

theorem decodes_unique {lit : List UInt8} {cs cs' : List Char} (h : Decodes lit cs)
    (h' : Decodes lit cs') : cs = cs' := by
  have heq := (unescape_of_decodes h).symm.trans (unescape_of_decodes h')
  exact utf8_injective (Option.some.inj heq)

theorem encodeChar_ascii {b : UInt8} (hb : b < 0x80) :
    utf8EncodeChar (Char.ofNat b.toNat) = [b] := by
  have hlt : b.toNat < 0x80 := UInt8.lt_iff_toNat_lt.mp hb
  have hchar : (Char.ofNat b.toNat).toNat = b.toNat := toNat_ofNat (.inl (by omega))
  rw [encodeChar_one (by omega), hchar, UInt8.ofNat_toNat]

theorem hexValue_lt {b : UInt8} : (hexValue b).isSome = true → b < 0x80 := by
  rw [hexValue_eq]
  revert b
  apply forall_byte
  set_option maxRecDepth 4000 in
  decide

theorem escapeChar_lt {b : UInt8} : (escapeChar b).isSome = true → b < 0x80 := by
  revert b
  apply forall_byte
  set_option maxRecDepth 4000 in
  decide

/-- Bytes that are ASCII codes, in front of the encoding of characters. -/
theorem ascii_append_utf8 {bs lit : List UInt8} (hbs : ∀ b ∈ bs, b < 0x80)
    (h : ∃ cs, lit = utf8 cs) : ∃ cs, bs ++ lit = utf8 cs := by
  induction bs with
  | nil => exact h
  | cons b bs ih =>
      obtain ⟨hb, hbs⟩ := List.forall_mem_cons.mp hbs
      obtain ⟨cs, hcs⟩ := ih hbs
      refine ⟨Char.ofNat b.toNat :: cs, ?_⟩
      rw [List.cons_append, hcs, utf8_cons, encodeChar_ascii hb]
      rfl

theorem hex4_digits {b0 b1 b2 b3 : UInt8} {n : ℕ} (h : hex4 [b0, b1, b2, b3] = some n) :
    ∀ b ∈ [b0, b1, b2, b3], (hexValue b).isSome = true := by
  obtain ⟨d0, h0, h⟩ := Option.bind_eq_some_iff.mp h
  obtain ⟨d1, h1, h⟩ := Option.bind_eq_some_iff.mp h
  obtain ⟨d2, h2, h⟩ := Option.bind_eq_some_iff.mp h
  obtain ⟨d3, h3, h⟩ := Option.map_eq_some_iff.mp h
  simp [h0, h1, h2, h3]

/-- All bytes of a literal with a decoding are UTF-8. -/
theorem Decodes.encoded {lit : List UInt8} {cs : List Char} (h : Decodes lit cs) :
    ∃ cs, lit = utf8 cs := by
  have hdigits {b0 b1 b2 b3 : UInt8} {n : ℕ} (h : hex4 [b0, b1, b2, b3] = some n) :
      ∀ b ∈ 92 :: 117 :: [b0, b1, b2, b3], b < 0x80 := by
    have hlt : ∀ b ∈ [b0, b1, b2, b3], b < 0x80 := fun b hb => hexValue_lt (hex4_digits h b hb)
    exact List.forall_mem_cons.mpr ⟨by decide, List.forall_mem_cons.mpr ⟨by decide, hlt⟩⟩
  induction h with
  | nil => exact ⟨[], rfl⟩
  | @char c lit cs _ _ _ ih =>
      obtain ⟨cs', rfl⟩ := ih
      exact ⟨c :: cs', rfl⟩
  | @letter b c lit cs hb _ ih =>
      have hlt : b < 0x80 := escapeChar_lt (by rw [hb]; rfl)
      have hboth : ∀ x ∈ [92, b], x < 0x80 := by simp [hlt]
      exact ascii_append_utf8 hboth ih
  | unit hcp _ _ ih => exact ascii_append_utf8 (hdigits hcp) ih
  | pair hhi hlo _ _ _ ih =>
      exact ascii_append_utf8 (hdigits hhi) (ascii_append_utf8 (hdigits hlo) ih)

theorem unicodeEscapes_byte {b : UInt8} (hb : b ≠ 92) (r : List UInt8) :
    unicodeEscapes (b :: r) = unicodeEscapes r := by
  rw [unicodeEscapes.eq_def]
  exact if_neg hb

theorem unicodeEscapes_append {bs : List UInt8} (h : 92 ∉ bs) (r : List UInt8) :
    unicodeEscapes (bs ++ r) = unicodeEscapes r := by
  induction bs with
  | nil => rfl
  | cons b bs ih =>
      obtain ⟨hb, hbs⟩ := List.ne_and_not_mem_of_not_mem_cons h
      rw [List.cons_append, unicodeEscapes_byte hb.symm, ih hbs]

theorem unicodeEscapes_letter {c : UInt8} (hc : c ≠ 117) (r : List UInt8) :
    unicodeEscapes (92 :: c :: r) = unicodeEscapes r := by
  rw [unicodeEscapes.eq_def]
  simp only [if_pos, if_neg hc]

theorem hex4_notMem {b0 b1 b2 b3 : UInt8} {n : ℕ} (h : hex4 [b0, b1, b2, b3] = some n) {b : UInt8}
    (hb : hexValue b = none) : b ∉ [b0, b1, b2, b3] := by
  intro hmem
  have hsome := hex4_digits h b hmem
  rw [hb] at hsome
  cases hsome

theorem unicodeEscapes_unit (b0 b1 b2 b3 : UInt8) (r : List UInt8) :
    [b0, b1, b2, b3] ∈ unicodeEscapes (92 :: 117 :: b0 :: b1 :: b2 :: b3 :: r) := by
  rw [unicodeEscapes.eq_def]
  simp

/-- Behind four digits the next escape starts. -/
theorem unicodeEscapes_digits {b0 b1 b2 b3 : UInt8} {n : ℕ} (h : hex4 [b0, b1, b2, b3] = some n)
    (r : List UInt8) :
    unicodeEscapes (92 :: 117 :: b0 :: b1 :: b2 :: b3 :: r) =
      [b0, b1, b2, b3] :: unicodeEscapes r := by
  have hskip := unicodeEscapes_append (hex4_notMem h (by decide : hexValue 92 = none)) r
  rw [unicodeEscapes.eq_def]
  simp only [if_true]
  exact congrArg _ hskip

theorem escapeChar_ne {b : UInt8} : (escapeChar b).isSome = true → b ≠ 117 := by
  rintro h rfl
  exact absurd h (by decide)

/-- The escapes of a literal with a decoding: a digit is missing nowhere, and a
value of zero leaves a zero behind. -/
theorem Decodes.escapes {lit : List UInt8} {cs : List Char} (h : Decodes lit cs) :
    ∀ ds ∈ unicodeEscapes lit, ∃ n, hex4 ds = some n ∧ (n = 0 → 0 ∈ utf8 cs) := by
  induction h with
  | nil => simp [unicodeEscapes]
  | char hquote hescape _ ih =>
      have hraw := notMem_encodeChar (show '\\'.toNat = (92 : UInt8).toNat from rfl) (by decide)
        hescape
      rw [unicodeEscapes_append hraw]
      intro ds hds
      obtain ⟨n, hn, hzero⟩ := ih ds hds
      exact ⟨n, hn, fun h0 => List.mem_append_right _ (hzero h0)⟩
  | @letter b c lit cs hb _ ih =>
      rw [unicodeEscapes_letter (escapeChar_ne (by rw [hb]; rfl))]
      intro ds hds
      obtain ⟨n, hn, hzero⟩ := ih ds hds
      exact ⟨n, hn, fun h0 => List.mem_append_right _ (hzero h0)⟩
  | @unit b0 b1 b2 b3 cp lit cs hcp _ _ ih =>
      rw [unicodeEscapes_digits hcp]
      intro ds hds
      obtain rfl | hds := List.mem_cons.mp hds
      · refine ⟨cp, hcp, ?_⟩
        rintro rfl
        exact List.mem_append_left _ (by decide)
      · obtain ⟨n, hn, hzero⟩ := ih ds hds
        exact ⟨n, hn, fun h0 => List.mem_append_right _ (hzero h0)⟩
  | @pair b0 b1 b2 b3 c0 c1 c2 c3 hi lo lit cs hhi hlo hhigh hlow _ ih =>
      rw [unicodeEscapes_digits hhi, unicodeEscapes_digits hlo]
      intro ds hds
      obtain rfl | hds := List.mem_cons.mp hds
      · exact ⟨hi, hhi, fun h0 => by omega⟩
      obtain rfl | hds := List.mem_cons.mp hds
      · exact ⟨lo, hlo, fun h0 => by omega⟩
      · obtain ⟨n, hn, hzero⟩ := ih ds hds
        exact ⟨n, hn, fun h0 => List.mem_append_right _ (hzero h0)⟩

/-! ### From the string to the literal -/

/-- A literal has no quotation mark outside of its escapes and no backslash at
its end. -/
def closed : List UInt8 → Bool
  | [] => true
  | b :: r =>
      if b = 34 then false
      else if b = 92 then
        match r with
        | [] => false
        | _ :: r => closed r
      else closed r

theorem closed_quote (r : List UInt8) : closed (34 :: r) = false := by
  rw [closed.eq_def]
  rfl

theorem closed_pair (c : UInt8) (r : List UInt8) : closed (92 :: c :: r) = closed r := by
  rw [closed.eq_def]
  rfl

theorem closed_byte {b : UInt8} (h34 : b ≠ 34) (h92 : b ≠ 92) (r : List UInt8) :
    closed (b :: r) = closed r := by
  rw [closed.eq_def]
  dsimp only
  rw [if_neg h34, if_neg h92]

theorem closed_append {bs : List UInt8} (h34 : 34 ∉ bs) (h92 : 92 ∉ bs) (r : List UInt8) :
    closed (bs ++ r) = closed r := by
  induction bs with
  | nil => rfl
  | cons b bs ih =>
      obtain ⟨hb34, h34⟩ := List.ne_and_not_mem_of_not_mem_cons h34
      obtain ⟨hb92, h92⟩ := List.ne_and_not_mem_of_not_mem_cons h92
      rw [List.cons_append, closed_byte hb34.symm hb92.symm, ih h34 h92]

theorem closed_digits {b0 b1 b2 b3 : UInt8} {n : ℕ} (h : hex4 [b0, b1, b2, b3] = some n)
    (r : List UInt8) : closed (92 :: 117 :: b0 :: b1 :: b2 :: b3 :: r) = closed r := by
  have hquote := hex4_notMem h (by decide : hexValue 34 = none)
  have hescape := hex4_notMem h (by decide : hexValue 92 = none)
  exact (closed_pair _ _).trans (closed_append hquote hescape r)

/-- The literals of a text are closed. The invariant of an open literal is that
closed bytes behind it leave it closed. -/
theorem literalsFrom_closed {st : Option (List UInt8)} {text : List UInt8}
    (hst : ∀ lit ∈ st, ∀ more, closed more = true → closed (lit ++ more) = true) :
    ∀ lit ∈ literalsFrom st text, closed lit = true := by
  fun_induction literalsFrom st text with
  | case1 st => simp
  | case2 r ih => exact ih (by simp)
  | case3 b r hb ih => exact ih (by simp)
  | case4 lit r ih =>
      have hlit := hst lit rfl [] rfl
      rw [List.append_nil] at hlit
      exact List.forall_mem_cons.mpr ⟨hlit, ih (by simp)⟩
  | case5 lit _ => simp
  | case6 lit c r _ ih =>
      apply ih
      intro lit' hlit more hmore
      obtain rfl := Option.some.inj hlit
      rw [List.append_assoc]
      exact hst lit rfl _ ((closed_pair c more).trans hmore)
  | case7 lit b r h34 h92 ih =>
      apply ih
      intro lit' hlit more hmore
      obtain rfl := Option.some.inj hlit
      rw [List.append_assoc]
      exact hst lit rfl _ ((closed_byte h34 h92 more).trans hmore)

/-- The bytes of a literal are bytes of the text. -/
theorem mem_of_mem_literalsFrom {st : Option (List UInt8)} {text : List UInt8} :
    ∀ lit ∈ literalsFrom st text, ∀ b ∈ lit, b ∈ st.getD [] ++ text := by
  fun_induction literalsFrom st text with
  | case1 st => simp
  | case2 r ih =>
      intro lit hlit b hb
      exact List.mem_cons_of_mem _ (ih lit hlit b hb)
  | case3 b r hb ih =>
      intro lit hlit b hb
      exact List.mem_cons_of_mem _ (ih lit hlit b hb)
  | case4 lit r ih =>
      refine List.forall_mem_cons.mpr ⟨fun b hb => List.mem_append_left _ hb, ?_⟩
      intro lit' hlit b hb
      exact List.mem_append_right _ (List.mem_cons_of_mem _ (ih lit' hlit b hb))
  | case5 lit _ => simp
  | case6 lit c r _ ih =>
      intro lit' hlit b hb
      have hmem := ih lit' hlit b hb
      rw [Option.getD_some, List.append_assoc] at hmem
      exact hmem
  | case7 lit b r h34 h92 ih =>
      intro lit' hlit b hb
      have hmem := ih lit' hlit b hb
      rw [Option.getD_some, List.append_assoc] at hmem
      exact hmem

theorem simpleEscape_ne {c x : UInt8} (h : simpleEscape c = some x) :
    x ≠ 0 ∧ x < 0x80 ∧ c ≠ 117 ∧ ∃ ch, escapeChar c = some ch ∧ utf8EncodeChar ch = [x] := by
  have heq := escapeChar_eq c
  rw [h] at heq
  obtain ⟨ch, hch, henc⟩ := Option.map_eq_some_iff.mp heq
  have hall (c : UInt8) : ∀ x ∈ simpleEscape c, x ≠ 0 ∧ x < 0x80 := by
    revert c
    apply forall_byte
    set_option maxRecDepth 4000 in
    decide
  obtain ⟨hzero, hlow⟩ := hall c x h
  exact ⟨hzero, hlow, escapeChar_ne (by rw [hch]; rfl), ch, hch, henc⟩

/-- What the escape at the front of a literal is, when all its escapes are good. -/
theorem EscapesNonzero.unit {b0 b1 b2 b3 : UInt8} {r : List UInt8}
    (h : EscapesNonzero (92 :: 117 :: b0 :: b1 :: b2 :: b3 :: r)) :
    hex4 [b0, b1, b2, b3] = some (parseHex4 b0 b1 b2 b3) ∧ parseHex4 b0 b1 b2 b3 ≠ 0 ∧
      EscapesNonzero r := by
  obtain ⟨n, hn, hzero⟩ := h _ (unicodeEscapes_unit b0 b1 b2 b3 r)
  obtain rfl := hex4_eq hn
  refine ⟨hn, hzero, fun ds hds => h ds ?_⟩
  rw [unicodeEscapes_digits hn]
  exact List.mem_cons_of_mem _ hds

theorem hexDigit_lt (b : UInt8) : ∀ d ∈ hexDigit b, d < 16 := by
  revert b
  apply forall_byte
  set_option maxRecDepth 4000 in
  decide

theorem parseHex4_lt (b0 b1 b2 b3 : UInt8) : parseHex4 b0 b1 b2 b3 < 0x10000 := by
  unfold parseHex4
  split
  · next d0 d1 d2 d3 h0 h1 h2 h3 =>
      have := hexDigit_lt b0 d0 h0
      have := hexDigit_lt b1 d1 h1
      have := hexDigit_lt b2 d2 h2
      have := hexDigit_lt b3 d3 h3
      omega
  · decide

theorem isScalar_parseHex4 {b0 b1 b2 b3 : UInt8}
    (h : parseHex4 b0 b1 b2 b3 < 0xD800 ∨ 0xDFFF < parseHex4 b0 b1 b2 b3) :
    IsScalar (parseHex4 b0 b1 b2 b3) := by
  have hlt := parseHex4_lt b0 b1 b2 b3
  unfold IsScalar
  omega

/-- Without escapes that are zero, only a zero of the literal becomes one. -/
theorem zero_notMem_unescape {lit s : List UInt8} (h : unescape lit = some s) (hzero : 0 ∉ lit)
    (hesc : EscapesNonzero lit) : 0 ∉ s := by
  have hchar {c : Char} (hc : c.toNat ≠ 0) : 0 ∉ utf8EncodeChar c := fun hmem =>
    hc (toNat_of_mem_encodeChar hmem (by decide))
  induction hlen : lit.length using Nat.strongRecOn generalizing lit s with
  | _ n ih =>
      obtain ⟨rfl, rfl⟩ | ⟨rfl, rfl⟩ | ⟨b, r, s', rfl, hb, hs', rfl⟩ |
        ⟨c, x, r, s', rfl, hx, hs', rfl⟩ | ⟨b0, b1, b2, b3, r, s', rfl, hscalar, hs', rfl⟩ |
        ⟨b0, b1, b2, b3, c0, c1, c2, c3, r, s', rfl, hhigh, hlow, hs', rfl⟩ := unescape_cases h
      · simp
      · simp
      · have hrest := ih r.length (by simp only [List.length_cons] at hlen; omega) hs'
          (fun hmem => hzero (List.mem_cons_of_mem _ hmem))
          (fun ds hds => hesc ds (by rwa [unicodeEscapes_byte hb])) rfl
        intro hmem
        obtain rfl | hmem := List.mem_cons.mp hmem
        · exact hzero List.mem_cons_self
        · exact hrest hmem
      · obtain ⟨hxzero, -, hc, -⟩ := simpleEscape_ne hx
        have hrest := ih r.length (by simp only [List.length_cons] at hlen; omega) hs'
          (fun hmem => hzero (List.mem_cons_of_mem _ (List.mem_cons_of_mem _ hmem)))
          (fun ds hds => hesc ds (by rwa [unicodeEscapes_letter hc])) rfl
        intro hmem
        obtain rfl | hmem := List.mem_cons.mp hmem
        · exact hxzero rfl
        · exact hrest hmem
      · obtain ⟨hhex, hne, hesc'⟩ := hesc.unit
        have hrest := ih r.length (by simp only [List.length_cons] at hlen; omega) hs'
          (fun hmem => hzero (by simp [hmem])) hesc' rfl
        have hcp := isScalar_parseHex4 hscalar
        rw [encodeUtf8_eq hcp, List.mem_append, not_or]
        exact ⟨hchar (by rwa [toNat_ofNat hcp]), hrest⟩
      · obtain ⟨hhex, hne, hesc'⟩ := hesc.unit
        obtain ⟨hhex', hne', hesc'⟩ := hesc'.unit
        have hrest := ih r.length (by simp only [List.length_cons] at hlen; omega) hs'
          (fun hmem => hzero (by simp [hmem])) hesc' rfl
        rw [encodeUtf8_pair hhigh hlow, List.mem_append, not_or]
        refine ⟨hchar ?_, hrest⟩
        rw [pairChar, toNat_ofNat (.inr (by omega))]
        omega

/-- A byte that continues a character was no escape. -/
theorem unescape_continuation {lit tail s : List UInt8} (htail : ∀ t ∈ tail, isContinuation t = true)
    (h : unescape lit = some (tail ++ s)) : ∃ r, lit = tail ++ r ∧ unescape r = some s := by
  have hfirst {c : Char} {t : UInt8} {s s' : List UInt8} (ht : isContinuation t = true) :
      t :: s ≠ utf8EncodeChar c ++ s' := by
    obtain ⟨b, tail, henc, hb, -⟩ := encodeChar_cons c
    intro heq
    rw [henc] at heq
    obtain rfl := (List.cons.inj heq).1
    rw [ht] at hb
    cases hb
  induction tail generalizing lit with
  | nil => exact ⟨lit, rfl, h⟩
  | cons t tail ih =>
      obtain ⟨ht, htail⟩ := List.forall_mem_cons.mp htail
      obtain ⟨rfl, heq⟩ | ⟨rfl, heq⟩ | ⟨b, r, s', rfl, hb, hs', heq⟩ |
        ⟨c, x, r, s', rfl, hx, hs', heq⟩ | ⟨b0, b1, b2, b3, r, s', rfl, hscalar, hs', heq⟩ |
        ⟨b0, b1, b2, b3, c0, c1, c2, c3, r, s', rfl, hhigh, hlow, hs', heq⟩ := unescape_cases h
      · cases heq
      · obtain rfl := (List.cons.inj heq).1
        exact absurd ht (by decide)
      · obtain ⟨rfl, rfl⟩ := List.cons.inj heq
        obtain ⟨r', rfl, hr'⟩ := ih htail hs'
        exact ⟨r', rfl, hr'⟩
      · obtain ⟨-, -, -, ch, -, henc⟩ := simpleEscape_ne hx
        rw [List.cons_append, show x :: s' = utf8EncodeChar ch ++ s' by rw [henc]; rfl] at heq
        exact absurd heq (hfirst ht)
      · rw [encodeUtf8_eq (isScalar_parseHex4 hscalar)] at heq
        exact absurd heq (hfirst ht)
      · rw [encodeUtf8_pair hhigh hlow] at heq
        exact absurd heq (hfirst ht)

/-- A string that is UTF-8 was made of a literal with a decoding. -/
theorem decodes_of_unescape {lit s : List UInt8} (h : unescape lit = some s)
    (hutf8 : utf8Loop s = true) (hclosed : closed lit = true) (hesc : EscapesNonzero lit) :
    ∃ cs, Decodes lit cs := by
  induction hlen : lit.length using Nat.strongRecOn generalizing lit s with
  | _ n ih =>
      obtain ⟨rfl, rfl⟩ | ⟨rfl, rfl⟩ | ⟨b, r, s', rfl, hb, hs', rfl⟩ |
        ⟨c, x, r, s', rfl, hx, hs', rfl⟩ | ⟨b0, b1, b2, b3, r, s', rfl, hscalar, hs', rfl⟩ |
        ⟨b0, b1, b2, b3, c0, c1, c2, c3, r, s', rfl, hhigh, hlow, hs', rfl⟩ := unescape_cases h
      · exact ⟨[], .nil⟩
      · cases hclosed
      · -- the character the byte starts goes on with bytes of the literal
        obtain ⟨c, s'', hsplit, hrest⟩ := utf8Loop_cons hutf8
        obtain ⟨b', tail, henc, -, htail⟩ := encodeChar_cons c
        rw [henc] at hsplit
        obtain ⟨rfl, rfl⟩ := List.cons.inj hsplit
        obtain ⟨r', rfl, hr'⟩ := unescape_continuation htail hs'
        have hquote : c ≠ '\"' := by
          rintro rfl
          have hb34 : b = 34 := (List.cons.inj henc).1.symm
          rw [hb34, closed_quote] at hclosed
          cases hclosed
        have hescape : c ≠ '\\' := by
          rintro rfl
          exact hb (List.cons.inj henc).1.symm
        have h34 := notMem_encodeChar (show '\"'.toNat = (34 : UInt8).toNat from rfl) (by decide)
          hquote
        have h92 := notMem_encodeChar (show '\\'.toNat = (92 : UInt8).toNat from rfl) (by decide)
          hescape
        have hlit : b :: (tail ++ r') = utf8EncodeChar c ++ r' := by rw [henc]; rfl
        rw [hlit] at hclosed hesc ⊢
        rw [closed_append h34 h92] at hclosed
        rw [EscapesNonzero, unicodeEscapes_append h92] at hesc
        obtain ⟨cs, hcs⟩ := ih r'.length
          (by simp only [List.length_cons, List.length_append] at hlen; omega) hr' hrest hclosed
          hesc rfl
        exact ⟨c :: cs, .char hquote hescape hcs⟩
      · obtain ⟨-, -, hc, ch, hch, henc⟩ := simpleEscape_ne hx
        rw [show x :: s' = utf8EncodeChar ch ++ s' by rw [henc]; rfl, utf8Loop_encodeChar] at hutf8
        rw [closed_pair] at hclosed
        rw [EscapesNonzero, unicodeEscapes_letter hc] at hesc
        obtain ⟨cs, hcs⟩ := ih r.length (by simp only [List.length_cons] at hlen; omega) hs' hutf8
          hclosed hesc rfl
        exact ⟨ch :: cs, .letter hch hcs⟩
      · obtain ⟨hhex, -, hesc⟩ := hesc.unit
        have hcp := isScalar_parseHex4 hscalar
        rw [encodeUtf8_eq hcp, utf8Loop_encodeChar] at hutf8
        rw [closed_digits hhex] at hclosed
        obtain ⟨cs, hcs⟩ := ih r.length (by simp only [List.length_cons] at hlen; omega) hs' hutf8
          hclosed hesc rfl
        exact ⟨_, .unit hhex hcp hcs⟩
      · obtain ⟨hhex, -, hesc⟩ := hesc.unit
        obtain ⟨hhex', -, hesc⟩ := hesc.unit
        rw [encodeUtf8_pair hhigh hlow, utf8Loop_encodeChar] at hutf8
        rw [closed_digits hhex, closed_digits hhex'] at hclosed
        obtain ⟨cs, hcs⟩ := ih r.length (by simp only [List.length_cons] at hlen; omega) hs' hutf8
          hclosed hesc rfl
        exact ⟨_, .pair hhex hhex' hhigh hlow hcs⟩

/-! ### Accepted texts -/

mutual

theorem utf8Validate_of_checkUtf8 (v : Json) (h : checkUtf8 v = true) :
    ∀ s ∈ strings v, utf8Validate s = true := by
  match v with
  | .null => simp [strings]
  | .bool _ => simp [strings]
  | .number _ => simp [strings]
  | .string s =>
      rw [checkUtf8] at h
      simpa [strings] using h
  | .array items => exact utf8Validate_of_items items h
  | .object members => exact utf8Validate_of_members members h

theorem utf8Validate_of_items (vs : List Json) (h : checkUtf8Items vs = true) :
    ∀ s ∈ stringsItems vs, utf8Validate s = true := by
  match vs with
  | [] => simp [stringsItems]
  | v :: vs =>
      rw [checkUtf8Items, Bool.and_eq_true] at h
      rw [stringsItems]
      exact List.forall_mem_append.mpr
        ⟨utf8Validate_of_checkUtf8 v h.1, utf8Validate_of_items vs h.2⟩

theorem utf8Validate_of_members (ms : List (List UInt8 × Json)) (h : checkUtf8Members ms = true) :
    ∀ s ∈ stringsMembers ms, utf8Validate s = true := by
  match ms with
  | [] => simp [stringsMembers]
  | (name, v) :: ms =>
      rw [checkUtf8Members, Bool.and_eq_true, Bool.and_eq_true] at h
      rw [stringsMembers]
      exact List.forall_mem_cons.mpr ⟨h.1.1, List.forall_mem_append.mpr
        ⟨utf8Validate_of_checkUtf8 v h.1.2, utf8Validate_of_members ms h.2⟩⟩

end

theorem parseAt_ok {allowDuplicateKeys : Bool} {mem : List UInt8} {len : ℕ} {root : Json}
    (h : parseAt allowDuplicateKeys mem len = some (.ok root)) :
    0 ∉ mem.take len ∧ parseWithOpts (mem.take len) = some root ∧ checkUtf8 root = true := by
  unfold parseAt at h
  split at h
  · cases h
  split at h
  · cases h
  split at h
  · cases h
  next hzero =>
    have hparse := Option.some.inj h
    unfold parseText at hparse
    split at hparse
    · cases hparse
    next v hv =>
      split at hparse
      · cases hparse
      split at hparse
      · cases hparse
      next hutf8 =>
        cases hparse
        rw [Bool.not_eq_true', Bool.not_eq_false] at hutf8
        rw [List.contains_iff_mem] at hzero
        exact ⟨hzero, hv, hutf8⟩

theorem cstr_eq_self {s : List UInt8} (h : 0 ∉ s) : cstr s = s :=
  cstr_of_not_contains (by simpa using h)

/-- One string of an accepted text without zero escapes. -/
theorem string_decoded {lit s : List UInt8} (h : unescape lit = some s) (hzero : 0 ∉ lit)
    (hutf8 : utf8Validate s = true) (hclosed : closed lit = true) (hesc : EscapesNonzero lit) :
    ∃ cs, Decodes lit cs ∧ cstr s = utf8 cs := by
  rw [utf8Validate, cstr_eq_self (zero_notMem_unescape h hzero hesc)] at hutf8
  obtain ⟨cs, hcs⟩ := decodes_of_unescape h hutf8 hclosed hesc
  rw [unescape_of_decodes hcs] at h
  cases h
  exact ⟨cs, hcs, cstr_eq_self (zero_notMem_unescape (unescape_of_decodes hcs) hzero hesc)⟩

theorem exists_string {R : List UInt8 → List UInt8 → Prop} {lits strs : List (List UInt8)}
    (h : List.Forall₂ R lits strs) {lit : List UInt8} (hlit : lit ∈ lits) : ∃ s, R lit s := by
  induction h with
  | nil => cases hlit
  | cons hfirst _ ih =>
      obtain rfl | hlit := List.mem_cons.mp hlit
      · exact ⟨_, hfirst⟩
      · exact ih hlit

/-- The decodings of the strings give the rest. -/
theorem StringsFaithful.of_decoded {text : List UInt8} {root : Json}
    (h : List.Forall₂ (fun lit s => ∃ cs, Decodes lit cs ∧ cstr s = utf8 cs)
      (literals text) (strings root)) : StringsFaithful text root := by
  refine ⟨h, ?_, ?_, ?_⟩
  · intro lit hlit ds hds
    obtain ⟨s, cs, hcs, -⟩ := exists_string h hlit
    obtain ⟨n, hn, -⟩ := hcs.escapes ds hds
    rw [hn]
    rfl
  · rintro ⟨lit, s⟩ hp ⟨lit', s'⟩ hq cs cs' hcs hcs' hne heq
    obtain ⟨ds, hds, hs⟩ := List.forall₂_zip h hp
    obtain ⟨ds', hds', hs'⟩ := List.forall₂_zip h hq
    obtain rfl := decodes_unique hcs hds
    obtain rfl := decodes_unique hcs' hds'
    exact hne (utf8_injective (hs.symm.trans (heq.trans hs')))
  · intro lit hlit
    obtain ⟨s, cs, hcs, -⟩ := exists_string h hlit
    exact hcs.encoded

/-- Without zero escapes, the strings of an accepted text are the decodings of
its literals. -/
theorem strings_decoded {text : List UInt8} {root : Json} (hzero : 0 ∉ text)
    (hparse : parseWithOpts text = some root) (hutf8 : checkUtf8 root = true)
    (hesc : ∀ lit ∈ literals text, EscapesNonzero lit) :
    List.Forall₂ (fun lit s => ∃ cs, Decodes lit cs ∧ cstr s = utf8 cs)
      (literals text) (strings root) := by
  have hstrings := parseWithOpts_literals hparse
  refine List.forall₂_iff_zip.mpr ⟨hstrings.length_eq, fun {lit s} hmem => ?_⟩
  obtain ⟨hlit, hs⟩ := List.of_mem_zip hmem
  have hbytes : 0 ∉ lit := fun h0 => hzero (mem_of_mem_literalsFrom lit hlit 0 h0)
  have hclosed : closed lit = true := literalsFrom_closed (by simp) lit hlit
  exact string_decoded (List.forall₂_zip hstrings hmem) hbytes
    (utf8Validate_of_checkUtf8 root hutf8 s hs) hclosed (hesc lit hlit)

/-- A string that is the decoding of its literal was not cut: none of the
escapes was zero. -/
theorem StringsFaithful.escapes {text : List UInt8} {root : Json} (h : StringsFaithful text root) :
    ∀ lit ∈ literals text, EscapesNonzero lit := by
  intro lit hlit ds hds
  obtain ⟨s, cs, hcs, hs⟩ := exists_string h.decoded hlit
  obtain ⟨n, hn, hzero⟩ := hcs.escapes ds hds
  refine ⟨n, hn, fun h0 => ?_⟩
  have hmem := hzero h0
  rw [← hs] at hmem
  exact zero_notMem_cstr s hmem

/-- The strings of the tree that an accepted text gives mean what the text says
if and only if no `\u` of it is `\u0000` or short of digits. -/
theorem parseAt_strings_iff {allowDuplicateKeys : Bool} {mem : List UInt8} {len : ℕ} {root : Json}
    (h : parseAt allowDuplicateKeys mem len = some (.ok root)) :
    StringsFaithful (mem.take len) root ↔ ∀ lit ∈ literals (mem.take len), EscapesNonzero lit := by
  obtain ⟨hzero, hparse, hutf8⟩ := parseAt_ok h
  constructor
  · intro hfaithful
    exact hfaithful.escapes
  · intro hesc
    exact .of_decoded (strings_decoded hzero hparse hutf8 hesc)

theorem parseAt_strings_escaped :
    parseAt false (ascii "\x7b\"a\":\"b\\u00e9\"\x7d\x00") 15 =
        some (.ok (.object [(ascii "a", .string (ascii "bé"))])) ∧
      StringsFaithful ((ascii "\x7b\"a\":\"b\\u00e9\"\x7d\x00").take 15)
        (.object [(ascii "a", .string (ascii "bé"))]) := by
  have hparse : parseAt false (ascii "\x7b\"a\":\"b\\u00e9\"\x7d\x00") 15 =
      some (.ok (.object [(ascii "a", .string (ascii "bé"))])) := rfl
  exact ⟨hparse, (parseAt_strings_iff hparse).mpr (by decide)⟩

/-- The text is accepted, and a reader of the tree sees the result `4`. -/
theorem parseAt_strings_cut :
    parseAt false (ascii "\x7b\"result\":\"4\\u0000\"\x7d\x00") 20 =
        some (.ok (.object [(ascii "result", .string [52, 0])])) ∧
      ¬ StringsFaithful ((ascii "\x7b\"result\":\"4\\u0000\"\x7d\x00").take 20)
        (.object [(ascii "result", .string [52, 0])]) := by
  refine ⟨rfl, fun hfaithful => ?_⟩
  have hesc := hfaithful.escapes (ascii "4\\u0000") (by decide)
  exact absurd hesc (by decide)

end Savvy.CJson
