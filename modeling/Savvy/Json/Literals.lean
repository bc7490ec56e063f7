import Mathlib.Data.List.Forall2
import Mathlib.Data.List.TakeWhile
import Savvy.Json.Codec

/-!
The string literals of a JSON text. Outside of literals the parser never goes
over a quotation mark, so the literals can be read off the text without
parsing it; the strings of the tree are those that `parse_string` makes of
them, in the same order.
-/

namespace Savvy.CJson

/-! ### The literals of a text -/

/-- The literals from a place of a text on. In an open literal, of which `lit`
has been read, a backslash takes the byte behind it along. -/
def literalsFrom : Option (List UInt8) → List UInt8 → List (List UInt8)
  | _, [] => []
  | none, b :: r => if b = 34 then literalsFrom (some []) r else literalsFrom none r
  | some lit, b :: r =>
      if b = 34 then lit :: literalsFrom none r
      else if b = 92 then
        match r with
        | [] => []
        | c :: r => literalsFrom (some (lit ++ [b, c])) r
      else literalsFrom (some (lit ++ [b])) r

def literals (text : List UInt8) : List (List UInt8) := literalsFrom none text

mutual

/-- The strings of a tree in the order of the text, names before values. -/
def strings : Json → List (List UInt8)
  | .string s => [s]
  | .array items => stringsItems items
  | .object members => stringsMembers members
  | _ => []

def stringsItems : List Json → List (List UInt8)
  | [] => []
  | v :: vs => strings v ++ stringsItems vs

def stringsMembers : List (List UInt8 × Json) → List (List UInt8)
  | [] => []
  | (name, v) :: ms => name :: (strings v ++ stringsMembers ms)

end

/-! ### Reading literals -/

theorem literals_cons {b : UInt8} (hb : b ≠ 34) (r : List UInt8) :
    literals (b :: r) = literals r := by
  rw [literals, literalsFrom, if_neg hb]
  rfl

theorem literals_append {done : List UInt8} (h : ∀ b ∈ done, b ≠ 34) (r : List UInt8) :
    literals (done ++ r) = literals r := by
  induction done with
  | nil => rfl
  | cons b done ih =>
      obtain ⟨hb, hdone⟩ := List.forall_mem_cons.mp h
      rw [List.cons_append, literals_cons hb, ih hdone]

theorem literalsFrom_close (lit r : List UInt8) :
    literalsFrom (some lit) (34 :: r) = lit :: literals r := by
  rw [literalsFrom.eq_def]
  rfl

theorem literalsFrom_pair (lit : List UInt8) (c : UInt8) (r : List UInt8) :
    literalsFrom (some lit) (92 :: c :: r) = literalsFrom (some (lit ++ [92, c])) r := by
  rw [literalsFrom.eq_def]
  rfl

theorem literalsFrom_byte (lit : List UInt8) {b : UInt8} (h34 : b ≠ 34) (h92 : b ≠ 92)
    (r : List UInt8) : literalsFrom (some lit) (b :: r) = literalsFrom (some (lit ++ [b])) r := by
  rw [literalsFrom.eq_def]
  dsimp only
  rw [if_neg h34, if_neg h92]

/-- An open literal is read as the first loop of `parse_string` reads it. -/
theorem literalsFrom_some (lit r : List UInt8) :
    literalsFrom (some lit) r =
      match scanString r with
      | some (more, behind) => (lit ++ more) :: literals behind
      | none => [] := by
  fun_induction scanString r generalizing lit with
  | case1 => rfl
  | case2 r => simp [literalsFrom_close]
  | case3 _ => rfl
  | case4 c r _ ih =>
      rw [literalsFrom_pair, ih]
      cases scanString r with
      | none => rfl
      | some p => simp
  | case5 b r h34 h92 ih =>
      rw [literalsFrom_byte lit h34 h92, ih]
      cases scanString r with
      | none => rfl
      | some p => simp

theorem literals_quote {r lit behind : List UInt8} (h : scanString r = some (lit, behind)) :
    literals (34 :: r) = lit :: literals behind := by
  rw [literals, literalsFrom, if_pos rfl, literalsFrom_some, h]
  rfl

theorem literals_skipWhitespace (rest : List UInt8) :
    literals (skipWhitespace rest) = literals rest := by
  have hsplit := List.takeWhile_append_dropWhile (p := (· ≤ 32)) (l := rest)
  have hspace : ∀ b ∈ rest.takeWhile (· ≤ 32), b ≠ 34 := by
    intro b hb heq
    have hle := List.mem_takeWhile_imp hb
    rw [heq] at hle
    exact absurd hle (by decide)
  unfold skipWhitespace
  split
  · next hnil =>
      -- the whole rest is white space, also the byte that is kept
      rw [hnil, List.append_nil] at hsplit
      rw [hsplit] at hspace
      have hkept : ∀ b ∈ rest.drop (rest.length - 1), b ≠ 34 := fun b hb =>
        hspace b (List.mem_of_mem_drop hb)
      have hall := literals_append hspace []
      have hlast := literals_append hkept []
      rw [List.append_nil] at hall hlast
      rw [hall, hlast]
  · next b r hcons =>
      rw [hcons] at hsplit
      rw [← literals_append hspace (b :: r), hsplit]

theorem literals_skipUtf8Bom (rest : List UInt8) : literals (skipUtf8Bom rest) = literals rest := by
  unfold skipUtf8Bom
  split
  · next h =>
      have hsplit := List.take_append_drop 3 rest
      rw [h.2] at hsplit
      rw [← hsplit]
      simp [literals_cons]
  · rfl

theorem literalsFrom_terminator (st : Option (List UInt8)) (text : List UInt8) :
    literalsFrom st (text ++ [0]) = literalsFrom st text := by
  fun_induction literalsFrom st text with
  | case1 st => cases st <;> rfl
  | case2 r ih => simpa [literalsFrom] using ih
  | case3 b r hb ih => simpa [literalsFrom, hb] using ih
  | case4 lit r ih =>
      rw [List.cons_append, literalsFrom_close]
      exact congrArg _ ih
  | case5 lit _ => rfl
  | case6 lit c r _ ih =>
      rw [List.cons_append, List.cons_append, literalsFrom_pair, ih]
  | case7 lit b r h34 h92 ih =>
      rw [List.cons_append, literalsFrom_byte lit h34 h92, ih]

/-! ### Literals and strings -/

/-- From `rest` to `behind` the parser went over the literals of the strings
`strs`. -/
def Lexes (strs : List (List UInt8)) (rest behind : List UInt8) : Prop :=
  ∃ lits, List.Forall₂ (fun lit s => unescape lit = some s) lits strs ∧
    literals rest = lits ++ literals behind

theorem Lexes.skip {rest behind : List UInt8} (h : literals rest = literals behind) :
    Lexes [] rest behind :=
  ⟨[], .nil, h⟩

theorem Lexes.trans {strs strs' : List (List UInt8)} {a b c : List UInt8} (h : Lexes strs a b)
    (h' : Lexes strs' b c) : Lexes (strs ++ strs') a c := by
  obtain ⟨lits, hlits, heq⟩ := h
  obtain ⟨lits', hlits', heq'⟩ := h'
  exact ⟨lits ++ lits', List.rel_append hlits hlits', by rw [heq, heq', List.append_assoc]⟩

theorem Lexes.of_eq {strs : List (List UInt8)} {rest rest' behind behind' : List UInt8}
    (h : Lexes strs rest behind) (hrest : literals rest' = literals rest)
    (hbehind : literals behind = literals behind') : Lexes strs rest' behind' := by
  obtain ⟨lits, hlits, heq⟩ := h
  exact ⟨lits, hlits, by rw [hrest, heq, hbehind]⟩

theorem lexes_parseString {rest s behind : List UInt8} (h : parseString rest = some (s, behind)) :
    Lexes [s] rest behind := by
  unfold parseString at h
  split at h
  · cases h
  next b r =>
    split at h
    · cases h
    next hb =>
      obtain ⟨⟨lit, behind'⟩, hscan, hrest⟩ := Option.bind_eq_some_iff.mp h
      obtain ⟨s', hs, heq⟩ := Option.map_eq_some_iff.mp hrest
      cases heq
      obtain rfl : b = 34 := Decidable.not_not.mp hb
      exact ⟨[lit], .cons hs .nil, literals_quote hscan⟩

theorem isNumberByte_ne {b : UInt8} (h : isNumberByte b = true) : b ≠ 34 := by
  rintro rfl
  exact absurd h (by decide)

theorem lexes_parseNumber {rest behind : List UInt8} {v : Json}
    (h : parseNumber rest = some (v, behind)) : Lexes (strings v) rest behind := by
  obtain ⟨⟨d, tail⟩, -, heq⟩ := Option.map_eq_some_iff.mp h
  cases heq
  apply Lexes.skip
  -- what is dropped is a part of the number
  generalize hn : (rest.takeWhile isNumberByte).length - tail.length = n
  have hsplit := List.take_append_drop n rest
  have hbytes : ∀ b ∈ rest.take n, b ≠ 34 := by
    intro b hb
    have hle : n ≤ (rest.takeWhile isNumberByte).length := by omega
    have hpre : rest.take n <+: rest.takeWhile isNumberByte := by
      refine List.prefix_of_prefix_length_le (List.take_prefix _ _) (List.takeWhile_prefix _) ?_
      rw [List.length_take]
      omega
    exact isNumberByte_ne (List.mem_takeWhile_imp (hpre.subset hb))
  rw [← literals_append hbytes (rest.drop n), hsplit]

/-- A parser of values goes over the literals of the strings it returns. -/
def LexesValues (pv : List UInt8 → Option (Json × List UInt8)) : Prop :=
  ∀ rest v behind, pv rest = some (v, behind) → Lexes (strings v) rest behind

section Loops

variable {pv : List UInt8 → Option (Json × List UInt8)}

/-- Whitespace and a byte that is no quotation mark hide no literal. -/
theorem literals_behind {rest r : List UInt8} {b : UInt8} (hb : skipWhitespace rest = b :: r)
    (hne : b ≠ 34) : literals rest = literals r := by
  rw [← literals_skipWhitespace, hb, literals_cons hne]

theorem lexes_parseItems (hpv : LexesValues pv) {turns : ℕ} {rest behind : List UInt8}
    {vs : List Json} (h : parseItems pv turns rest = some (vs, behind)) :
    Lexes (stringsItems vs) rest behind := by
  induction turns generalizing rest vs with
  | zero => cases h
  | succ turns ih =>
      obtain ⟨v, r, hv, hend⟩ := parseItems_cases h
      have hvalue := (hpv _ _ _ hv).of_eq (literals_skipWhitespace rest).symm rfl
      obtain ⟨r', vs', hcomma, hitems, rfl⟩ | ⟨hclose, rfl⟩ := hend
      · exact (hvalue.of_eq rfl (literals_behind hcomma (by decide))).trans (ih hitems)
      · rw [stringsItems, stringsItems, List.append_nil]
        exact hvalue.of_eq rfl (literals_behind hclose (by decide))

theorem lexes_parseMembers (hpv : LexesValues pv) {turns : ℕ} {rest behind : List UInt8}
    {ms : List (List UInt8 × Json)} (h : parseMembers pv turns rest = some (ms, behind)) :
    Lexes (stringsMembers ms) rest behind := by
  induction turns generalizing rest ms with
  | zero => cases h
  | succ turns ih =>
      obtain ⟨name, r, r', v, r'', hname, hcolon, hv, hend⟩ := parseMembers_cases h
      have hskip : literals r = literals (skipWhitespace r') :=
        (literals_behind hcolon (by decide)).trans (literals_skipWhitespace r').symm
      have hmember : Lexes ([name] ++ strings v) rest r'' :=
        ((lexes_parseString hname).of_eq (literals_skipWhitespace rest).symm hskip).trans
          (hpv _ _ _ hv)
      obtain ⟨r₃, ms', hcomma, hmembers, rfl⟩ | ⟨hclose, rfl⟩ := hend
      · have hlex := (hmember.of_eq rfl (literals_behind hcomma (by decide))).trans (ih hmembers)
        rw [List.append_assoc] at hlex
        exact hlex
      · rw [stringsMembers, stringsMembers, List.append_nil]
        exact hmember.of_eq rfl (literals_behind hclose (by decide))

theorem lexes_parseArray (hpv : LexesValues pv) : LexesValues (parseArray pv) := by
  intro rest v behind h
  obtain ⟨hclose, rfl⟩ | ⟨turns, vs, hitems, rfl⟩ := parseArray_cases h
  · exact .skip (literals_behind hclose (by decide))
  · exact (lexes_parseItems hpv hitems).of_eq (literals_skipWhitespace rest).symm rfl

theorem lexes_parseObject (hpv : LexesValues pv) : LexesValues (parseObject pv) := by
  intro rest v behind h
  obtain ⟨hclose, rfl⟩ | ⟨turns, ms, hmembers, rfl⟩ := parseObject_cases h
  · exact .skip (literals_behind hclose (by decide))
  · exact (lexes_parseMembers hpv hmembers).of_eq (literals_skipWhitespace rest).symm rfl

end Loops

/-- A word without quotation marks in front of a text. -/
theorem literals_drop_word {word rest : List UInt8} (h : word.isPrefixOf rest = true)
    (hword : ∀ b ∈ word, b ≠ 34) : literals rest = literals (rest.drop word.length) := by
  obtain ⟨r, rfl⟩ := List.isPrefixOf_iff_prefix.mp h
  rw [List.drop_left, literals_append hword]

theorem lexes_parseValueWith {pv : List UInt8 → Option (Json × List UInt8)}
    {array object : (List UInt8 → Option (Json × List UInt8)) → List UInt8 →
      Option (Json × List UInt8)} (harray : LexesValues (array pv))
    (hobject : LexesValues (object pv)) : LexesValues (parseValueWith pv array object) := by
  intro rest v behind h
  unfold parseValueWith at h
  split at h
  · next hword =>
      cases h
      exact .skip (literals_drop_word hword (by decide +kernel))
  split at h
  · next hword =>
      cases h
      exact .skip (literals_drop_word hword (by decide +kernel))
  split at h
  · next hword =>
      cases h
      exact .skip (literals_drop_word hword (by decide +kernel))
  split at h
  · cases h
  next b r _ _ _ =>
    split at h
    · obtain ⟨⟨s, behind'⟩, hstr, heq⟩ := Option.map_eq_some_iff.mp h
      cases heq
      exact lexes_parseString hstr
    next hquote =>
      split at h
      · exact lexes_parseNumber h
      have hskip : literals (b :: r) = literals r := literals_cons hquote r
      split at h
      · exact (harray _ _ _ h).of_eq hskip rfl
      split at h
      · exact (hobject _ _ _ h).of_eq hskip rfl
      · cases h

theorem lexes_parseValue (levels : ℕ) : LexesValues (parseValue levels) := by
  induction levels with
  | zero => exact lexes_parseValueWith (fun _ _ _ h => nomatch h) fun _ _ _ h => nomatch h
  | succ levels ih => exact lexes_parseValueWith (lexes_parseArray ih) (lexes_parseObject ih)

/-- Where the parser ends, only white space is left. -/
theorem literals_end {rest r : List UInt8} (h : skipWhitespace rest = 0 :: r) :
    literals rest = [] := by
  rw [← literals_skipWhitespace]
  unfold skipWhitespace at h ⊢
  split at h
  · next hnil =>
      have hlen := congrArg List.length h
      rw [List.length_drop, List.length_cons] at hlen
      obtain rfl : r = [] := List.length_eq_zero_iff.mp (by omega)
      rw [h]
      rfl
  · next b r' hcons =>
      cases h
      have hhead := List.head?_dropWhile_not (fun b : UInt8 => b ≤ 32) rest
      rw [hcons] at hhead
      simp at hhead

/-- The strings of the tree are made of the literals of the text, one by one. -/
theorem parseWithOpts_literals {text : List UInt8} {root : Json}
    (h : parseWithOpts text = some root) :
    List.Forall₂ (fun lit s => unescape lit = some s) (literals text) (strings root) := by
  rw [parseWithOpts_eq] at h
  obtain ⟨⟨v, rest⟩, hparse, hend⟩ := Option.bind_eq_some_iff.mp h
  obtain ⟨lits, hlits, heq⟩ := lexes_parseValue nestingLimit _ _ _ hparse
  rw [literals_skipWhitespace, literals_skipUtf8Bom] at heq
  dsimp only at hend
  split at hend
  · cases hend
  next b r hb =>
    split at hend
    · next hzero =>
        cases hend
        rw [hzero] at hb
        rw [literals_end hb, List.append_nil] at heq
        rw [literals, ← literalsFrom_terminator]
        rw [← heq] at hlits
        exact hlits
    · cases hend

end Savvy.CJson
