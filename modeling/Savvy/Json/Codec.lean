import Savvy.Core.Status
import Savvy.Json.Parse

/-!
The JSON helpers of the protocol (`src/protocol/json/json_codec.c`): what a
text has to satisfy beyond parsing, and how a number becomes an `int32_t`.
Memory allocation succeeds.
-/

namespace Savvy.CJson

/-! ### Names and strings of a tree -/

/-- The two nested loops over the members of one object: no two names are the
same C string. -/
def distinctNames : List (List UInt8 × Json) → Bool
  | [] => true
  | m :: ms => (ms.all fun m' => cstr m.1 != cstr m'.1) && distinctNames ms

mutual

def checkNoDuplicateKeys : Json → Bool
  | .array items => checkNoDuplicateKeysItems items
  | .object members => distinctNames members && checkNoDuplicateKeysMembers members
  | _ => true

def checkNoDuplicateKeysItems : List Json → Bool
  | [] => true
  | v :: vs => checkNoDuplicateKeys v && checkNoDuplicateKeysItems vs

def checkNoDuplicateKeysMembers : List (List UInt8 × Json) → Bool
  | [] => true
  | (_, v) :: ms => checkNoDuplicateKeys v && checkNoDuplicateKeysMembers ms

end

def isContinuation (b : UInt8) : Bool := b &&& 0xC0 = 0x80

def addBits (cp : ℕ) (b : UInt8) : ℕ := cp <<< 6 ||| (b &&& 0x3F).toNat

/-- The checks of a code point decoded from more than one byte. -/
def validCodePoint (minCp cp : ℕ) : Bool :=
  minCp ≤ cp && !(0xD800 ≤ cp && cp ≤ 0xDFFF) && cp ≤ 0x10FFFF

/-- The loop of `savvy_utf8_validate`, on the bytes before the terminator. A
sequence cut short ends at the terminator, which is no continuation byte. -/
def utf8Loop : List UInt8 → Bool
  | [] => true
  | b0 :: r =>
      if b0 < 0x80 then utf8Loop r
      else if b0 &&& 0xE0 = 0xC0 then
        match r with
        | b1 :: r =>
            isContinuation b1 && validCodePoint 0x80 (addBits (b0 &&& 0x1F).toNat b1) && utf8Loop r
        | [] => false
      else if b0 &&& 0xF0 = 0xE0 then
        match r with
        | b1 :: b2 :: r =>
            isContinuation b1 && isContinuation b2 &&
              validCodePoint 0x800 (addBits (addBits (b0 &&& 0x0F).toNat b1) b2) && utf8Loop r
        | _ => false
      else if b0 &&& 0xF8 = 0xF0 then
        match r with
        | b1 :: b2 :: b3 :: r =>
            isContinuation b1 && isContinuation b2 && isContinuation b3 &&
              validCodePoint 0x10000 (addBits (addBits (addBits (b0 &&& 0x07).toNat b1) b2) b3) &&
              utf8Loop r
        | _ => false
      else false

def utf8Validate (s : List UInt8) : Bool := utf8Loop (cstr s)

mutual

/-- `savvy_json_check_utf8`, on an item without a name. -/
def checkUtf8 : Json → Bool
  | .string s => utf8Validate s
  | .array items => checkUtf8Items items
  | .object members => checkUtf8Members members
  | _ => true

def checkUtf8Items : List Json → Bool
  | [] => true
  | v :: vs => checkUtf8 v && checkUtf8Items vs

/-- The same on items with a name. -/
def checkUtf8Members : List (List UInt8 × Json) → Bool
  | [] => true
  | (name, v) :: ms => utf8Validate name && checkUtf8 v && checkUtf8Members ms

end

/-! ### Parsing a text -/

/-- What `savvy_json_parse` does once the text is known to be a C string, and
`savvy_json_parse_allow_duplicate_keys`. -/
def parseText (allowDuplicateKeys : Bool) (text : List UInt8) : Except Status Json :=
  match parseWithOpts text with
  | none => .error .protocol
  | some root =>
      if !allowDuplicateKeys && !checkNoDuplicateKeys root then .error .protocol
      else if !checkUtf8 root then .error .protocol
      else .ok root

/-- The two functions on a block of memory and a length. Reading outside of the
block is a fault (`none`). -/
def parseAt (allowDuplicateKeys : Bool) (mem : List UInt8) (len : ℕ) :
    Option (Except Status Json) :=
  match mem[len]? with
  | none => none
  | some b =>
      if b ≠ 0 then some (.error .invalidArgument)
      else if (mem.take len).contains 0 then some (.error .protocol)
      else some (parseText allowDuplicateKeys (mem.take len))

/-- `savvy_json_parse` on a text that is terminated at its length. -/
def jsonParse (text : List UInt8) : Except Status Json :=
  if text.contains 0 then .error .protocol else parseText false text

/-- `savvy_json_parse_allow_duplicate_keys` on such a text. -/
def jsonParseAllowDuplicateKeys (text : List UInt8) : Except Status Json :=
  if text.contains 0 then .error .protocol else parseText true text

theorem parseAt_terminated (text more : List UInt8) :
    parseAt false (text ++ 0 :: more) text.length = some (jsonParse text) := by
  have hget : (text ++ 0 :: more)[text.length]? = some 0 := by simp
  simp only [parseAt, hget, ne_eq, not_true, if_false, List.take_left, jsonParse]
  split <;> rfl

/-! ### Reading a tree -/

def numberToInt32 : Json → Except Status ℤ
  | .number (.finite q) =>
      if q.den ≠ 1 then .error .protocol
      else if q.num < intMin ∨ intMax < q.num then .error .protocol
      else .ok q.num
  | _ => .error .protocol

/-- `cJSON_GetObjectItemCaseSensitive`. -/
def getObjectItem (v : Json) (name : List UInt8) : Option Json :=
  match v with
  | .object members => (members.find? fun m => cstr m.1 == name).map (·.2)
  | _ => none

end Savvy.CJson
