import Savvy.Json.Codec
import Savvy.Json.Print

/-!
The result of an analysis as the server sends it
(`src/protocol/json/data_result_codec.c`): an object whose member `result` is a
number, also in quotes.
-/

namespace Savvy.CJson

def llongMin : ℤ := -9223372036854775808

def llongMax : ℤ := 9223372036854775807

/-- `savvy_data_result_string_to_int32`, on a C string. -/
def stringToInt32 (s : List UInt8) : Except Status ℤ :=
  let digits := if s.head? = some 45 then s.drop 1 else s
  if digits = [] then .error .protocol
  else if digits.any fun b => !isDigit b then .error .protocol
  else
    let v : ℤ := if s.head? = some 45 then -(digitsValue digits : ℤ) else digitsValue digits
    -- `strtoll` fails with `ERANGE`
    if v < llongMin ∨ llongMax < v then .error .protocol
    else if v < intMin ∨ intMax < v then .error .protocol
    else .ok v

def valueToInt32 : Json → Except Status ℤ
  | .number d => numberToInt32 (.number d)
  | .string s => stringToInt32 (cstr s)
  | _ => .error .protocol

/-- The loop over the members: the last one with the name wins. -/
def lastResult (members : List (List UInt8 × Json)) : Option Json :=
  members.foldl (fun item m => if cstr m.1 = ascii "result" then some m.2 else item) none

/-- `savvy_data_result_parse` from the parsed text on. -/
def dataResultOfRoot : Json → Except Status ℤ
  | .object members =>
      match lastResult members with
      | none => .ok 0
      | some .null => .ok 0
      | some item => valueToInt32 item
  | _ => .error .protocol

/-- `savvy_data_result_parse` on a text that is terminated at its length. -/
def dataResultParse (text : List UInt8) : Except Status ℤ :=
  match jsonParseAllowDuplicateKeys text with
  | .error status => .error status
  | .ok root => dataResultOfRoot root

/-- `savvy_data_result_parse` from the parsed text on, with what `*out` holds
before and after. -/
def dataResultOfRootInto (root : Json) (out : ℤ) : Status × ℤ :=
  match root with
  | .object members =>
      match lastResult members with
      | none => (.ok, 0)
      | some .null => (.ok, 0)
      | some item =>
          match valueToInt32 item with
          | .ok v => (.ok, v)
          | .error _ => (.protocol, out)
  | _ => (.protocol, out)

/-- `savvy_data_result_parse` on a block of memory and a length. -/
def dataResultParseInto (mem : List UInt8) (len : ℕ) (out : ℤ) : Option (Status × ℤ) :=
  match parseAt true mem len with
  | none => none
  | some (.error status) => some (status, out)
  | some (.ok root) => some (dataResultOfRootInto root out)

def dataResultBuild (result : ℤ) : List UInt8 :=
  printUnformatted (.object [(ascii "result", .number (.finite result))])

theorem stringToInt32_error {s : List UInt8} {status : Status}
    (h : stringToInt32 s = .error status) : status = .protocol := by
  simp only [stringToInt32] at h
  generalize (if s.head? = some 45 then s.drop 1 else s) = ds at h
  generalize (if s.head? = some 45 then -(digitsValue ds : ℤ) else digitsValue ds) = v at h
  repeat' split at h
  all_goals cases h
  all_goals rfl

theorem valueToInt32_error {item : Json} {status : Status}
    (h : valueToInt32 item = .error status) : status = .protocol := by
  cases item with
  | number d =>
      simp only [valueToInt32, numberToInt32] at h
      repeat' split at h
      all_goals cases h
      all_goals rfl
  | string s => exact stringToInt32_error h
  | _ =>
      cases h
      rfl

theorem parseText_error {allowDuplicateKeys : Bool} {text : List UInt8} {status : Status}
    (h : parseText allowDuplicateKeys text = .error status) : status = .protocol := by
  unfold parseText at h
  split at h
  · cases h
    rfl
  split at h
  · cases h
    rfl
  split at h
  · cases h
    rfl
  · cases h

theorem dataResultParse_error {text : List UInt8} {status : Status}
    (h : dataResultParse text = .error status) : status = .protocol := by
  unfold dataResultParse at h
  split at h
  · next status' hparse =>
      obtain rfl := Except.error.inj h
      unfold jsonParseAllowDuplicateKeys at hparse
      split at hparse
      · exact (Except.error.inj hparse).symm
      · exact parseText_error hparse
  · next root _ =>
      unfold dataResultOfRoot at h
      repeat' split at h
      · cases h
      · cases h
      · exact valueToInt32_error h
      · exact (Except.error.inj h).symm

/-- An error of the parser leaves `*out` as it was. -/
theorem dataResultOfRootInto_eq (root : Json) (out : ℤ) :
    dataResultOfRootInto root out =
      match dataResultOfRoot root with
      | .ok r => (.ok, r)
      | .error status => (status, out) := by
  cases root with
  | object members =>
      simp only [dataResultOfRootInto, dataResultOfRoot]
      split
      · rfl
      · rfl
      · next item _ _ =>
          cases hvalue : valueToInt32 item with
          | ok v => rfl
          | error status => rw [valueToInt32_error hvalue]
  | _ => rfl

theorem dataResultParseInto_terminated (text more : List UInt8) (out : ℤ) :
    dataResultParseInto (text ++ 0 :: more) text.length out =
      some (match dataResultParse text with
        | .ok r => (.ok, r)
        | .error status => (status, out)) := by
  have hget : (text ++ 0 :: more)[text.length]? = some 0 := by simp
  have hparse : parseAt true (text ++ 0 :: more) text.length =
      some (jsonParseAllowDuplicateKeys text) := by
    simp only [parseAt, hget, ne_eq, not_true, if_false, List.take_left,
      jsonParseAllowDuplicateKeys]
    split <;> rfl
  rw [dataResultParseInto, hparse, dataResultParse]
  cases jsonParseAllowDuplicateKeys text with
  | error status => rfl
  | ok root => simp only [dataResultOfRootInto_eq]

end Savvy.CJson
