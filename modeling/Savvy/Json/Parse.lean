import Savvy.Json.Number

/-!
The parser of cJSON (`third_party/cJSON/cJSON.c`). The parse buffer is what is
left of the text: its bytes from the current offset on, with the terminating
zero. An index is accessible when the list is long enough.

The nesting limit is the number the recursion of `parseValue` is on. The loops
over the members of an array or an object consume a byte in each turn, so as
many turns as there are bytes left are enough.
-/

namespace Savvy.CJson

def ascii (s : String) : List UInt8 := s.toByteArray.data.toList

/-- A `cJSON` item. A string is kept as its bytes before the terminating zero
that `parse_string` writes; a zero among them ends it for every reader. -/
inductive Json
  | null
  | bool (b : Bool)
  | number (d : Double)
  | string (s : List UInt8)
  | array (items : List Json)
  | object (members : List (List UInt8 × Json))

/-- Induction over a tree, with a hypothesis for every element and member. -/
theorem Json.induct {motive : Json → Prop} (null : motive .null) (bool : ∀ b, motive (.bool b))
    (number : ∀ d, motive (.number d)) (string : ∀ s, motive (.string s))
    (array : ∀ items, (∀ v ∈ items, motive v) → motive (.array items))
    (object : ∀ members, (∀ m ∈ members, motive m.2) → motive (.object members)) :
    ∀ v, motive v := by
  refine @Json.rec motive (fun items => ∀ v ∈ items, motive v)
    (fun members => ∀ m ∈ members, motive m.2) (fun m => motive m.2)
    null bool number string array object ?_ ?_ ?_ ?_ ?_
  · intro v hv
    exact absurd hv List.not_mem_nil
  · intro v vs hv hvs
    exact List.forall_mem_cons.mpr ⟨hv, hvs⟩
  · intro m hm
    exact absurd hm List.not_mem_nil
  · intro m ms hm hms
    exact List.forall_mem_cons.mpr ⟨hm, hms⟩
  · intro name v hv
    exact hv

/-- What a reader of a C string sees. -/
def cstr (s : List UInt8) : List UInt8 := s.takeWhile (· ≠ 0)

theorem zero_notMem_cstr (s : List UInt8) : 0 ∉ cstr s := by
  intro hmem
  have hzero := List.all_eq_true.mp (List.all_takeWhile (p := fun b : UInt8 => b ≠ 0)) 0 hmem
  exact absurd hzero (by decide)

theorem cstr_append_zero {s : List UInt8} (hs : 0 ∉ s) (t : List UInt8) : cstr (s ++ 0 :: t) = s := by
  rw [cstr, List.takeWhile_append_of_pos, List.takeWhile_cons_of_neg (by simp), List.append_nil]
  intro b hb
  rw [decide_eq_true_eq]
  rintro rfl
  exact hs hb

/-! ### The buffer -/

def skipWhitespace (rest : List UInt8) : List UInt8 :=
  match rest.dropWhile (· ≤ 32) with
  -- at the end of the buffer it steps back by one
  | [] => rest.drop (rest.length - 1)
  | b :: r => b :: r

def skipUtf8Bom (rest : List UInt8) : List UInt8 :=
  if 4 < rest.length ∧ rest.take 3 = [0xEF, 0xBB, 0xBF] then rest.drop 3 else rest

/-! ### Numbers -/

/-- The bytes that `parse_number` copies for `strtod`. -/
def isNumberByte (b : UInt8) : Bool := isDigit b || b = 43 || b = 45 || b = 101 || b = 69 || b = 46

def parseNumber (rest : List UInt8) : Option (Json × List UInt8) :=
  let text := rest.takeWhile isNumberByte
  (strtod text).map fun (d, behind) => (.number d, rest.drop (text.length - behind.length))

/-! ### Strings -/

def hexDigit (b : UInt8) : Option ℕ :=
  if 48 ≤ b ∧ b ≤ 57 then some (b.toNat - 48)
  else if 65 ≤ b ∧ b ≤ 70 then some (10 + b.toNat - 65)
  else if 97 ≤ b ∧ b ≤ 102 then some (10 + b.toNat - 97)
  else none

/-- `parse_hex4`. A digit that is none makes the whole number zero. -/
def parseHex4 (b0 b1 b2 b3 : UInt8) : ℕ :=
  match hexDigit b0, hexDigit b1, hexDigit b2, hexDigit b3 with
  | some d0, some d1, some d2, some d3 => ((d0 * 16 + d1) * 16 + d2) * 16 + d3
  | _, _, _, _ => 0

/-- The UTF-8 bytes of a code point, as `utf16_literal_to_utf8` writes them. -/
def encodeUtf8 (cp : ℕ) : List UInt8 :=
  let tail (n : ℕ) : UInt8 := UInt8.ofNat ((n ||| 0x80) &&& 0xBF)
  if cp < 0x80 then [UInt8.ofNat (cp &&& 0x7F)]
  else if cp < 0x800 then [UInt8.ofNat ((cp >>> 6 ||| 0xC0) &&& 0xFF), tail cp]
  else if cp < 0x10000 then
    [UInt8.ofNat ((cp >>> 12 ||| 0xE0) &&& 0xFF), tail (cp >>> 6), tail cp]
  else
    [UInt8.ofNat ((cp >>> 18 ||| 0xF0) &&& 0xFF), tail (cp >>> 12), tail (cp >>> 6), tail cp]

def simpleEscape (c : UInt8) : Option UInt8 :=
  if c = 98 then some 8
  else if c = 102 then some 12
  else if c = 110 then some 10
  else if c = 114 then some 13
  else if c = 116 then some 9
  else if c = 34 ∨ c = 92 ∨ c = 47 then some c
  else none

/-- The first loop of `parse_string`: the literal up to the closing quote, and
what is behind the quote. -/
def scanString : List UInt8 → Option (List UInt8 × List UInt8)
  | [] => none
  | b :: r =>
      if b = 34 then some ([], r)
      else if b = 92 then
        match r with
        | [] => none
        | c :: r => (scanString r).map fun (lit, behind) => (b :: c :: lit, behind)
      else (scanString r).map fun (lit, behind) => (b :: lit, behind)

/-- The second loop of `parse_string`, over the literal, with
`utf16_literal_to_utf8`. -/
def unescape : List UInt8 → Option (List UInt8)
  | [] => some []
  | b :: r =>
      if b ≠ 92 then (unescape r).map (b :: ·)
      else
        match r with
        -- only behind a malformed `\u`: the byte that follows is the closing quote
        | [] => some [34]
        | c :: r =>
            match simpleEscape c with
            | some x => (unescape r).map (x :: ·)
            | none =>
                if c ≠ 117 then none
                else
                  match r with
                  | b0 :: b1 :: b2 :: b3 :: r =>
                      let first := parseHex4 b0 b1 b2 b3
                      if 0xDC00 ≤ first ∧ first ≤ 0xDFFF then none
                      else if 0xD800 ≤ first ∧ first ≤ 0xDBFF then
                        match r with
                        | x :: y :: c0 :: c1 :: c2 :: c3 :: r =>
                            let second := parseHex4 c0 c1 c2 c3
                            if x ≠ 92 ∨ y ≠ 117 then none
                            else if second < 0xDC00 ∨ 0xDFFF < second then none
                            else
                              (unescape r).map (encodeUtf8
                                (0x10000 + ((first &&& 0x3FF) <<< 10 ||| second &&& 0x3FF)) ++ ·)
                        | _ => none
                      else (unescape r).map (encodeUtf8 first ++ ·)
                  | _ => none

def parseString (rest : List UInt8) : Option (List UInt8 × List UInt8) :=
  match rest with
  | [] => none
  | b :: r =>
      if b ≠ 34 then none
      else
        (scanString r).bind fun (lit, behind) =>
          (unescape lit).map fun s => (s, behind)

/-! ### Values -/

/-- The loop of `parse_array` from an element on, where `pv` parses a value. -/
def parseItems (pv : List UInt8 → Option (Json × List UInt8)) :
    ℕ → List UInt8 → Option (List Json × List UInt8)
  | 0, _ => none
  | turns + 1, rest =>
      (pv (skipWhitespace rest)).bind fun (v, rest) =>
        match skipWhitespace rest with
        | [] => none
        | b :: rest =>
            if b = 44 then (parseItems pv turns rest).map fun (vs, rest) => (v :: vs, rest)
            else if b = 93 then some ([v], rest)
            else none

def parseArray (pv : List UInt8 → Option (Json × List UInt8)) (rest : List UInt8) :
    Option (Json × List UInt8) :=
  match skipWhitespace rest with
  | [] => none
  | b :: r =>
      if b = 93 then some (.array [], r)
      else (parseItems pv (r.length + 1) (b :: r)).map fun (vs, rest) => (.array vs, rest)

/-- The loop of `parse_object` from a name on. -/
def parseMembers (pv : List UInt8 → Option (Json × List UInt8)) :
    ℕ → List UInt8 → Option (List (List UInt8 × Json) × List UInt8)
  | 0, _ => none
  | turns + 1, rest =>
      (parseString (skipWhitespace rest)).bind fun (name, rest) =>
        match skipWhitespace rest with
        | [] => none
        | b :: rest =>
            if b ≠ 58 then none
            else
              (pv (skipWhitespace rest)).bind fun (v, rest) =>
                match skipWhitespace rest with
                | [] => none
                | b :: rest =>
                    if b = 44 then
                      (parseMembers pv turns rest).map fun (ms, rest) => ((name, v) :: ms, rest)
                    else if b = 125 then some ([(name, v)], rest)
                    else none

/-- `parse_object`, behind the opening brace. -/
def parseObject (pv : List UInt8 → Option (Json × List UInt8)) (rest : List UInt8) :
    Option (Json × List UInt8) :=
  match skipWhitespace rest with
  | [] => none
  | b :: r =>
      if b = 125 then some (.object [], r)
      else (parseMembers pv (r.length + 1) (b :: r)).map fun (ms, rest) => (.object ms, rest)

/-- `parse_value`, where `pv` parses the values one level deeper. -/
def parseValueWith (pv : List UInt8 → Option (Json × List UInt8))
    (array object : (List UInt8 → Option (Json × List UInt8)) → List UInt8 →
      Option (Json × List UInt8)) (rest : List UInt8) : Option (Json × List UInt8) :=
  if (ascii "null").isPrefixOf rest then some (.null, rest.drop 4)
  else if (ascii "false").isPrefixOf rest then some (.bool false, rest.drop 5)
  else if (ascii "true").isPrefixOf rest then some (.bool true, rest.drop 4)
  else
    match rest with
    | [] => none
    | b :: r =>
        if b = 34 then (parseString (b :: r)).map fun (s, rest) => (.string s, rest)
        else if b = 45 ∨ isDigit b then parseNumber (b :: r)
        else if b = 91 then array pv r
        else if b = 123 then object pv r
        else none

def parseValue : ℕ → List UInt8 → Option (Json × List UInt8)
  -- `parse_array` and `parse_object` fail at the limit
  | 0, rest => parseValueWith (fun _ => none) (fun _ _ => none) (fun _ _ => none) rest
  | levels + 1, rest => parseValueWith (parseValue levels) parseArray parseObject rest

def nestingLimit : ℕ := 1000

def parseWithLengthOpts (requireNullTerminated : Bool) (content : List UInt8) : Option Json :=
  (parseValue nestingLimit (skipWhitespace (skipUtf8Bom content))).bind fun (v, rest) =>
    if requireNullTerminated then
      match skipWhitespace rest with
      | [] => none
      | b :: _ => if b = 0 then some v else none
    else some v

/-- `cJSON_ParseWithOpts` with `require_null_terminated`, on the C string
`text`: its terminator is part of the text that is parsed. -/
def parseWithOpts (text : List UInt8) : Option Json := parseWithLengthOpts true (text ++ [0])

theorem parseWithOpts_eq (text : List UInt8) : parseWithOpts text =
    (parseValue nestingLimit (skipWhitespace (skipUtf8Bom (text ++ [0])))).bind fun (v, rest) =>
      match skipWhitespace rest with
      | [] => none
      | b :: _ => if b = 0 then some v else none :=
  rfl

/-! ### The turns are enough -/

theorem length_skipWhitespace_le (rest : List UInt8) :
    (skipWhitespace rest).length ≤ rest.length := by
  have hdrop := (List.dropWhile_sublist (· ≤ 32) (l := rest)).length_le
  unfold skipWhitespace
  split
  · rw [List.length_drop]
    omega
  · next hcons =>
      rw [hcons] at hdrop
      exact hdrop

/-- What a parser leaves is never longer than what it was given. -/
def Shrinks {α : Type} (parse : List UInt8 → Option (α × List UInt8)) : Prop :=
  ∀ rest x behind, parse rest = some (x, behind) → behind.length ≤ rest.length

theorem scanString_shrinks : Shrinks scanString := by
  intro rest lit behind h
  fun_induction scanString rest generalizing lit behind with
  | case1 => cases h
  | case2 r =>
      cases h
      exact Nat.le_succ _
  | case3 _ => cases h
  | case4 _ c r ih =>
      obtain ⟨⟨lit', behind'⟩, hscan, heq⟩ := Option.map_eq_some_iff.mp h
      cases heq
      have hlen := ih _ _ hscan
      simp only [List.length_cons]
      omega
  | case5 b r _ _ ih =>
      obtain ⟨⟨lit', behind'⟩, hscan, heq⟩ := Option.map_eq_some_iff.mp h
      cases heq
      have hlen := ih _ _ hscan
      simp only [List.length_cons]
      omega

theorem parseString_shrinks : Shrinks parseString := by
  intro rest x behind h
  unfold parseString at h
  split at h
  · cases h
  next b r =>
    split at h
    · cases h
    · obtain ⟨⟨lit, behind'⟩, hscan, hrest⟩ := Option.bind_eq_some_iff.mp h
      obtain ⟨y, -, heq⟩ := Option.map_eq_some_iff.mp hrest
      cases heq
      have hlen := scanString_shrinks _ _ _ hscan
      simp only [List.length_cons]
      omega

theorem parseNumber_shrinks : Shrinks parseNumber := by
  intro rest x behind h
  obtain ⟨⟨d, tail⟩, -, heq⟩ := Option.map_eq_some_iff.mp h
  cases heq
  rw [List.length_drop]
  omega

section Loops

variable {pv : List UInt8 → Option (Json × List UInt8)}

/-- A value of the loops, the byte behind it, and what is behind that. -/
theorem length_behind {rest behind r : List UInt8} {v : Json} {b : UInt8} (hpv : Shrinks pv)
    (hv : pv (skipWhitespace rest) = some (v, behind)) (hb : skipWhitespace behind = b :: r) :
    r.length < rest.length := by
  have h1 := length_skipWhitespace_le rest
  have h2 := hpv _ _ _ hv
  have h3 := length_skipWhitespace_le behind
  rw [hb, List.length_cons] at h3
  omega

/-- One turn of the loop of `parse_array`: a value, and then a comma and the rest
of the loop, or the closing bracket. -/
theorem parseItems_cases {turns : ℕ} {rest behind : List UInt8} {vs : List Json}
    (h : parseItems pv (turns + 1) rest = some (vs, behind)) :
    ∃ v r, pv (skipWhitespace rest) = some (v, r) ∧
      ((∃ r' vs', skipWhitespace r = 44 :: r' ∧ parseItems pv turns r' = some (vs', behind) ∧
          vs = v :: vs') ∨
        (skipWhitespace r = 93 :: behind ∧ vs = [v])) := by
  simp only [parseItems] at h
  obtain ⟨⟨v, r⟩, hv, hrest⟩ := Option.bind_eq_some_iff.mp h
  refine ⟨v, r, hv, ?_⟩
  dsimp only at hrest
  split at hrest
  · cases hrest
  next b r' hb =>
    split at hrest
    · next hcomma =>
        obtain ⟨⟨vs', behind'⟩, hitems, heq⟩ := Option.map_eq_some_iff.mp hrest
        cases heq
        exact .inl ⟨r', vs', by rw [hb, hcomma], hitems, rfl⟩
    · split at hrest
      · next hclose =>
          cases hrest
          exact .inr ⟨by rw [hb, hclose], rfl⟩
      · cases hrest

theorem parseItems_shrinks (hpv : Shrinks pv) (turns : ℕ) : Shrinks (parseItems pv turns) := by
  induction turns with
  | zero =>
      intro rest x behind h
      cases h
  | succ turns ih =>
      intro rest x behind h
      obtain ⟨v, r, hv, ⟨r', vs', hcomma, hitems, -⟩ | ⟨hclose, -⟩⟩ := parseItems_cases h
      · have hlt := length_behind hpv hv hcomma
        exact Nat.le_of_lt (Nat.lt_of_le_of_lt (ih _ _ _ hitems) hlt)
      · exact Nat.le_of_lt (length_behind hpv hv hclose)

/-- One turn for each byte that is left is enough. -/
theorem parseItems_turns (hpv : Shrinks pv) (hnil : pv [] = none) {turns turns' : ℕ}
    {rest : List UInt8} (hle : rest.length ≤ turns) (hle' : rest.length ≤ turns') :
    parseItems pv turns rest = parseItems pv turns' rest := by
  have hempty (turns : ℕ) : parseItems pv turns [] = none := by
    cases turns with
    | zero => rfl
    | succ turns =>
        have : skipWhitespace [] = [] := rfl
        simp [parseItems, this, hnil]
  induction turns generalizing turns' rest with
  | zero =>
      obtain rfl : rest = [] := List.length_eq_zero_iff.mp (by omega)
      rw [hempty, hempty]
  | succ turns ih =>
      cases turns' with
      | zero =>
          obtain rfl : rest = [] := List.length_eq_zero_iff.mp (by omega)
          rw [hempty, hempty]
      | succ turns' =>
          simp only [parseItems]
          apply Option.bind_congr
          rintro ⟨v, behind⟩ hv
          dsimp only
          split
          · rfl
          next b r hb =>
            have hlt := length_behind hpv hv hb
            rw [ih (by omega) (show r.length ≤ turns' by omega)]

/-- A member of an object, the byte behind it, and what is behind that. -/
theorem length_behind_member {rest behind r r' behind' : List UInt8} {name : List UInt8} {v : Json}
    {b b' : UInt8} (hpv : Shrinks pv)
    (hname : parseString (skipWhitespace rest) = some (name, behind))
    (hcolon : skipWhitespace behind = b :: r) (hv : pv (skipWhitespace r) = some (v, behind'))
    (hb : skipWhitespace behind' = b' :: r') : r'.length < rest.length := by
  have h1 := length_skipWhitespace_le rest
  have h2 := parseString_shrinks _ _ _ hname
  have h3 := length_skipWhitespace_le behind
  have h4 := length_behind hpv hv hb
  rw [hcolon, List.length_cons] at h3
  omega

/-- One turn of the loop of `parse_object`: a name, a colon and a value, and then
a comma and the rest of the loop, or the closing brace. -/
theorem parseMembers_cases {turns : ℕ} {rest behind : List UInt8} {ms : List (List UInt8 × Json)}
    (h : parseMembers pv (turns + 1) rest = some (ms, behind)) :
    ∃ name r r' v r'', parseString (skipWhitespace rest) = some (name, r) ∧
      skipWhitespace r = 58 :: r' ∧ pv (skipWhitespace r') = some (v, r'') ∧
      ((∃ r₃ ms', skipWhitespace r'' = 44 :: r₃ ∧ parseMembers pv turns r₃ = some (ms', behind) ∧
          ms = (name, v) :: ms') ∨
        (skipWhitespace r'' = 125 :: behind ∧ ms = [(name, v)])) := by
  simp only [parseMembers] at h
  obtain ⟨⟨name, r⟩, hname, hrest⟩ := Option.bind_eq_some_iff.mp h
  dsimp only at hrest
  split at hrest
  · cases hrest
  next b r' hb =>
    split at hrest
    · cases hrest
    next hcolon =>
      obtain ⟨⟨v, r''⟩, hv, hrest⟩ := Option.bind_eq_some_iff.mp hrest
      refine ⟨name, r, r', v, r'', hname, by rw [hb, Decidable.not_not.mp hcolon], hv, ?_⟩
      dsimp only at hrest
      split at hrest
      · cases hrest
      next b' r₃ hb' =>
        split at hrest
        · next hcomma =>
            obtain ⟨⟨ms', behind'⟩, hmembers, heq⟩ := Option.map_eq_some_iff.mp hrest
            cases heq
            exact .inl ⟨r₃, ms', by rw [hb', hcomma], hmembers, rfl⟩
        · split at hrest
          · next hclose =>
              cases hrest
              exact .inr ⟨by rw [hb', hclose], rfl⟩
          · cases hrest

theorem parseMembers_shrinks (hpv : Shrinks pv) (turns : ℕ) : Shrinks (parseMembers pv turns) := by
  induction turns with
  | zero =>
      intro rest x behind h
      cases h
  | succ turns ih =>
      intro rest x behind h
      obtain ⟨name, r, r', v, r'', hname, hcolon, hv, hend⟩ := parseMembers_cases h
      obtain ⟨r₃, ms', hcomma, hmembers, -⟩ | ⟨hclose, -⟩ := hend
      · have hlt := length_behind_member hpv hname hcolon hv hcomma
        exact Nat.le_of_lt (Nat.lt_of_le_of_lt (ih _ _ _ hmembers) hlt)
      · exact Nat.le_of_lt (length_behind_member hpv hname hcolon hv hclose)

theorem parseMembers_turns (hpv : Shrinks pv) {turns turns' : ℕ} {rest : List UInt8}
    (hle : rest.length ≤ turns) (hle' : rest.length ≤ turns') :
    parseMembers pv turns rest = parseMembers pv turns' rest := by
  have hempty (turns : ℕ) : parseMembers pv turns [] = none := by
    cases turns with
    | zero => rfl
    | succ turns => rfl
  induction turns generalizing turns' rest with
  | zero =>
      obtain rfl : rest = [] := List.length_eq_zero_iff.mp (by omega)
      rw [hempty, hempty]
  | succ turns ih =>
      cases turns' with
      | zero =>
          obtain rfl : rest = [] := List.length_eq_zero_iff.mp (by omega)
          rw [hempty, hempty]
      | succ turns' =>
          simp only [parseMembers]
          apply Option.bind_congr
          rintro ⟨name, behind⟩ hname
          dsimp only
          split
          · rfl
          next b r hcolon =>
            split
            · rfl
            apply Option.bind_congr
            rintro ⟨v, behind'⟩ hv
            dsimp only
            split
            · rfl
            next b' r' hb =>
              have hlt := length_behind_member hpv hname hcolon hv hb
              rw [ih (by omega) (show r'.length ≤ turns' by omega)]

/-- `parse_array` took a closing bracket, or its loop ran from the first byte that
is not whitespace. -/
theorem parseArray_cases {rest behind : List UInt8} {v : Json}
    (h : parseArray pv rest = some (v, behind)) :
    (skipWhitespace rest = 93 :: behind ∧ v = .array []) ∨
      ∃ turns vs, parseItems pv turns (skipWhitespace rest) = some (vs, behind) ∧
        v = .array vs := by
  unfold parseArray at h
  split at h
  · cases h
  next b r hb =>
    split at h
    · next hclose =>
        cases h
        exact .inl ⟨by rw [hb, hclose], rfl⟩
    · obtain ⟨⟨vs, behind'⟩, hitems, heq⟩ := Option.map_eq_some_iff.mp h
      cases heq
      exact .inr ⟨r.length + 1, vs, by rw [hb, hitems], rfl⟩

/-- `parse_object` took a closing brace, or its loop ran from the first byte that
is not whitespace. -/
theorem parseObject_cases {rest behind : List UInt8} {v : Json}
    (h : parseObject pv rest = some (v, behind)) :
    (skipWhitespace rest = 125 :: behind ∧ v = .object []) ∨
      ∃ turns ms, parseMembers pv turns (skipWhitespace rest) = some (ms, behind) ∧
        v = .object ms := by
  unfold parseObject at h
  split at h
  · cases h
  next b r hb =>
    split at h
    · next hclose =>
        cases h
        exact .inl ⟨by rw [hb, hclose], rfl⟩
    · obtain ⟨⟨ms, behind'⟩, hmembers, heq⟩ := Option.map_eq_some_iff.mp h
      cases heq
      exact .inr ⟨r.length + 1, ms, by rw [hb, hmembers], rfl⟩

theorem parseArray_shrinks (hpv : Shrinks pv) : Shrinks (parseArray pv) := by
  intro rest x behind h
  have hskip := length_skipWhitespace_le rest
  obtain ⟨hclose, -⟩ | ⟨turns, vs, hitems, -⟩ := parseArray_cases h
  · rw [hclose, List.length_cons] at hskip
    omega
  · exact Nat.le_trans (parseItems_shrinks hpv _ _ _ _ hitems) hskip

theorem parseObject_shrinks (hpv : Shrinks pv) : Shrinks (parseObject pv) := by
  intro rest x behind h
  have hskip := length_skipWhitespace_le rest
  obtain ⟨hclose, -⟩ | ⟨turns, ms, hmembers, -⟩ := parseObject_cases h
  · rw [hclose, List.length_cons] at hskip
    omega
  · exact Nat.le_trans (parseMembers_shrinks hpv _ _ _ _ hmembers) hskip

theorem parseValueWith_shrinks {array object : (List UInt8 → Option (Json × List UInt8)) →
      List UInt8 → Option (Json × List UInt8)} (harray : Shrinks (array pv))
    (hobject : Shrinks (object pv)) : Shrinks (parseValueWith pv array object) := by
  intro rest x behind h
  have hdrop (n : ℕ) : (rest.drop n).length ≤ rest.length := by
    rw [List.length_drop]
    omega
  unfold parseValueWith at h
  split at h
  · cases h
    exact hdrop 4
  split at h
  · cases h
    exact hdrop 5
  split at h
  · cases h
    exact hdrop 4
  split at h
  · cases h
  next b r =>
    split at h
    · obtain ⟨⟨str, behind'⟩, hstr, heq⟩ := Option.map_eq_some_iff.mp h
      cases heq
      exact parseString_shrinks _ _ _ hstr
    split at h
    · exact parseNumber_shrinks _ _ _ h
    split at h
    · exact Nat.le_succ_of_le (harray _ _ _ h)
    split at h
    · exact Nat.le_succ_of_le (hobject _ _ _ h)
    · cases h

end Loops

theorem parseValue_shrinks (levels : ℕ) : Shrinks (parseValue levels) := by
  induction levels with
  | zero =>
      apply parseValueWith_shrinks
      · intro rest x behind h
        cases h
      · intro rest x behind h
        cases h
  | succ levels ih =>
      apply parseValueWith_shrinks
      · exact parseArray_shrinks ih
      · exact parseObject_shrinks ih

/-- The loops of `parse_array` and `parse_object` never run out of turns: more of
them change nothing. -/
theorem parseLoops_turns (levels : ℕ) {turns : ℕ} {rest : List UInt8} (hle : rest.length ≤ turns) :
    parseItems (parseValue levels) turns rest =
        parseItems (parseValue levels) rest.length rest ∧
      parseMembers (parseValue levels) turns rest =
        parseMembers (parseValue levels) rest.length rest := by
  have hnil : parseValue levels [] = none := by
    cases levels with
    | zero => rfl
    | succ levels => rfl
  constructor
  · exact parseItems_turns (parseValue_shrinks levels) hnil hle (Nat.le_refl _)
  · exact parseMembers_turns (parseValue_shrinks levels) hle (Nat.le_refl _)

end Savvy.CJson
