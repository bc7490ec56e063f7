import Savvy.Json.Parse

/-!
The unformatted printer of cJSON (`third_party/cJSON/cJSON.c`). The print
buffer grows as needed, so a value prints to the list of its bytes.
-/

namespace Savvy.CJson

def hexChar (n : ℕ) : UInt8 := UInt8.ofNat (if n < 10 then 48 + n else 87 + n)

def escapeByte (b : UInt8) : List UInt8 :=
  if 31 < b ∧ b ≠ 34 ∧ b ≠ 92 then [b]
  else if b = 92 then [92, 92]
  else if b = 34 then [92, 34]
  else if b = 8 then [92, 98]
  else if b = 12 then [92, 102]
  else if b = 10 then [92, 110]
  else if b = 13 then [92, 114]
  else if b = 9 then [92, 116]
  else [92, 117, 48, 48, hexChar (b.toNat / 16), hexChar (b.toNat % 16)]

/-- `print_string_ptr`. -/
def printString (s : List UInt8) : List UInt8 := 34 :: ((cstr s).flatMap escapeByte ++ [34])

mutual

def printValue : Json → List UInt8
  | .null => ascii "null"
  | .bool false => ascii "false"
  | .bool true => ascii "true"
  | .number d => printNumber d
  | .string s => printString s
  | .array items => 91 :: (printItems items ++ [93])
  | .object members => 123 :: (printMembers members ++ [125])

def printItems : List Json → List UInt8
  | [] => []
  | v :: rest => printValue v ++ if rest.isEmpty then [] else 44 :: printItems rest

def printMembers : List (List UInt8 × Json) → List UInt8
  | [] => []
  | (name, v) :: rest =>
      printString name ++ 58 :: (printValue v ++ if rest.isEmpty then [] else 44 :: printMembers rest)

end

def printUnformatted (v : Json) : List UInt8 := printValue v

end Savvy.CJson
