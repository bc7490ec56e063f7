import Savvy.Json.RoundTrip
import Savvy.Kit.Buffer
import Savvy.Kit.Words
import Savvy.Settings.FieldTable

/-!
The Config and Device codecs on the bytes of their structs
(`src/protocol/json/field_table.c`, `config_codec.c`, `device_codec.c`). A struct
is laid out as its declaration says; a row of a table names a member of a JSON
object, the type of its field and where the field is. A byte outside of the
struct is a fault.
-/

namespace Savvy.Settings

open CJson Kit

/-! ### Structs -/

/-- The types of the members: `char name[n]` and `int32_t name`. -/
inductive CType
  | chars (n : ℕ)
  | int32
  deriving DecidableEq

def CType.size : CType → ℕ
  | .chars n => n
  | .int32 => 4

def CType.align : CType → ℕ
  | .chars _ => 1
  | .int32 => 4

def alignUp (off align : ℕ) : ℕ := (off + align - 1) / align * align

structure Slot (ι : Type) where
  member : ι
  type : CType
  offset : ℕ

/-- The members of a declaration, laid out from an offset on. -/
def layoutFrom {ι : Type} : ℕ → List (ι × CType) → List (Slot ι)
  | _, [] => []
  | off, (m, t) :: decls =>
      ⟨m, t, alignUp off t.align⟩ :: layoutFrom (alignUp off t.align + t.size) decls

def layout {ι : Type} (decls : List (ι × CType)) : List (Slot ι) := layoutFrom 0 decls

def sizeof {ι : Type} (decls : List (ι × CType)) : ℕ :=
  alignUp (((layout decls).getLast?.map fun s => s.offset + s.type.size).getD 0) 4

def offsetof {ι : Type} [DecidableEq ι] (decls : List (ι × CType)) (m : ι) : ℕ :=
  (((layout decls).find? fun s => s.member = m).map Slot.offset).getD 0

/-! ### Numbers in memory -/

inductive ByteOrder
  | little
  | big

def int32Bytes (o : ByteOrder) (v : Int32) : List UInt8 :=
  let u := v.toUInt32
  match o with
  | .big => [octet u 24, octet u 16, octet u 8, octet u 0]
  | .little => [octet u 0, octet u 8, octet u 16, octet u 24]

def int32OfBytes (o : ByteOrder) : List UInt8 → Int32
  | [b0, b1, b2, b3] =>
      match o with
      | .big => (join32 b0 b1 b2 b3).toInt32
      | .little => (join32 b3 b2 b1 b0).toInt32
  | _ => 0

/-! ### Tables -/

inductive FieldType
  | string
  | int32
  deriving DecidableEq

/-- `savvy_field_desc_t`. -/
structure FieldRow where
  jsonKey : List UInt8
  type : FieldType
  offset : ℕ
  strCap : ℕ

def fieldTableHasKey (fields : List FieldRow) (key : List UInt8) : Bool :=
  fields.any fun f => f.jsonKey = key

/-- The calls of `log_fn`: the names of the members that have no row. -/
def unknownKeys (fields : List FieldRow) (members : List (List UInt8 × Json)) :
    List (List UInt8) :=
  (members.map fun m => cstr m.1).filter fun key => !fieldTableHasKey fields key

/-- A turn of the second loop of `savvy_apply_field_table` on a member that is
there; `.error` is the end of the function, `none` a fault. -/
def applyRow (o : ByteOrder) (f : FieldRow) (item : Json) (out : List UInt8) :
    Option (Except Status (List UInt8)) :=
  match f.type with
  | .string =>
      match item with
      | .string s =>
          if f.strCap ≤ (cstr s).length then some (.error .protocol)
          else (copy out f.offset (cstr s ++ [0]) 0 ((cstr s).length + 1)).map .ok
      | _ => some (.error .protocol)
  | .int32 =>
      match numberToInt32 item with
      | .error _ => some (.error .protocol)
      | .ok v => (copy out f.offset (int32Bytes o (Int32.ofInt v)) 0 4).map .ok

/-- The second loop of `savvy_apply_field_table`. -/
def applyRows (o : ByteOrder) (root : Json) : List FieldRow → List UInt8 →
    Option (Status × List UInt8)
  | [], out => some (.ok, out)
  | f :: fields, out =>
      match getObjectItem root f.jsonKey with
      | none => applyRows o root fields out
      | some .null => some (.protocol, out)
      | some item =>
          (applyRow o f item out).bind fun
            | .error status => some (status, out)
            | .ok out => applyRows o root fields out

/-- `savvy_config_parse` and `savvy_device_parse` with their tables: the status,
the struct and the unknown keys that were logged. -/
def parseRows (o : ByteOrder) (fields : List FieldRow) (mem : List UInt8) (len : ℕ)
    (out : List UInt8) : Option (Status × List UInt8 × List (List UInt8)) :=
  match parseAt false mem len with
  | none => none
  | some (.error status) => some (status, out, [])
  | some (.ok (.object members)) =>
      (applyRows o (.object members) fields out).map fun (status, out) =>
        (status, out, unknownKeys fields members)
  | some (.ok _) => some (.protocol, out, [])

/-- A turn of the loop of `savvy_build_field_table`. -/
def buildRow (o : ByteOrder) (f : FieldRow) (mem : List UInt8) : Option Json :=
  match f.type with
  | .string =>
      -- the string ends at the first zero behind the offset
      if (mem.drop f.offset).contains 0 then some (.string (cstr (mem.drop f.offset))) else none
  | .int32 =>
      if f.offset + 4 ≤ mem.length then
        some (.number (.finite (int32OfBytes o (slice mem f.offset (f.offset + 4))).toInt))
      else none

/-- The members that `savvy_build_field_table` puts into the object. -/
def buildRows (o : ByteOrder) (mem : List UInt8) :
    List FieldRow → Option (List (List UInt8 × Json))
  | [] => some []
  | f :: fields =>
      (buildRow o f mem).bind fun v => (buildRows o mem fields).map fun ms => (f.jsonKey, v) :: ms

/-- `savvy_config_build` and `savvy_device_build` with their tables. -/
def buildTable (o : ByteOrder) (fields : List FieldRow) (mem : List UInt8) :
    Option (List UInt8) :=
  (buildRows o mem fields).map fun ms => printUnformatted (.object ms)

/-! ### Config and Device -/

inductive ConfigMember
  | serverIp
  | ftpIp
  | selectWifi
  | selectBeacon
  | videoTime
  | frame
  | dangerCount
  | decibel
  | inoutTime
  | buzzerTime
  | pixelCount
  | milliMeter
  | sendingLogTime
  | keepAliveTime
  | keepServerIp
  | bootAutoTime
  | compress
  | fractureFramePixel
  | fractureFrameCnt
  | resetFramePixel
  | resetFrameCnt
  | sameFramePixel
  | sameFrameCnt
  | alertSmoke
  | useRknn
  | volume
  | buzzerOnStream
  | buzzerOnVoice
  | buzzerOnBeacon
  | buzzerOnSmoke
  deriving DecidableEq

def configStruct : List (ConfigMember × CType) :=
  [(.serverIp, .chars strLen),
    (.ftpIp, .chars strLen),
    (.selectWifi, .chars strLen),
    (.selectBeacon, .chars strLen),
    (.videoTime, .int32),
    (.frame, .int32),
    (.dangerCount, .int32),
    (.decibel, .int32),
    (.inoutTime, .int32),
    (.buzzerTime, .int32),
    (.pixelCount, .int32),
    (.milliMeter, .int32),
    (.sendingLogTime, .chars strLen),
    (.keepAliveTime, .int32),
    (.keepServerIp, .chars strLen),
    (.bootAutoTime, .chars strLen),
    (.compress, .int32),
    (.fractureFramePixel, .int32),
    (.fractureFrameCnt, .int32),
    (.resetFramePixel, .int32),
    (.resetFrameCnt, .int32),
    (.sameFramePixel, .int32),
    (.sameFrameCnt, .int32),
    (.alertSmoke, .int32),
    (.useRknn, .int32),
    (.volume, .int32),
    (.buzzerOnStream, .int32),
    (.buzzerOnVoice, .int32),
    (.buzzerOnBeacon, .int32),
    (.buzzerOnSmoke, .int32)]

/-- `CONFIG_FIELDS`. -/
def configRows : List FieldRow :=
  [⟨ascii "serverIp", .string, offsetof configStruct .serverIp, strLen⟩,
    ⟨ascii "ftpIp", .string, offsetof configStruct .ftpIp, strLen⟩,
    ⟨ascii "selectWifi", .string, offsetof configStruct .selectWifi, strLen⟩,
    ⟨ascii "selectBeacon", .string, offsetof configStruct .selectBeacon, strLen⟩,
    ⟨ascii "videoTime", .int32, offsetof configStruct .videoTime, 0⟩,
    ⟨ascii "frame", .int32, offsetof configStruct .frame, 0⟩,
    ⟨ascii "dangerCount", .int32, offsetof configStruct .dangerCount, 0⟩,
    ⟨ascii "decibel", .int32, offsetof configStruct .decibel, 0⟩,
    ⟨ascii "inoutTime", .int32, offsetof configStruct .inoutTime, 0⟩,
    ⟨ascii "buzzerTime", .int32, offsetof configStruct .buzzerTime, 0⟩,
    ⟨ascii "pixelCount", .int32, offsetof configStruct .pixelCount, 0⟩,
    ⟨ascii "milliMeter", .int32, offsetof configStruct .milliMeter, 0⟩,
    ⟨ascii "sendingLogTime", .string, offsetof configStruct .sendingLogTime, strLen⟩,
    ⟨ascii "keepAliveTime", .int32, offsetof configStruct .keepAliveTime, 0⟩,
    ⟨ascii "keepServerIp", .string, offsetof configStruct .keepServerIp, strLen⟩,
    ⟨ascii "bootAutoTime", .string, offsetof configStruct .bootAutoTime, strLen⟩,
    ⟨ascii "compress", .int32, offsetof configStruct .compress, 0⟩,
    ⟨ascii "fractureFramePixel", .int32, offsetof configStruct .fractureFramePixel, 0⟩,
    ⟨ascii "fractureFrameCnt", .int32, offsetof configStruct .fractureFrameCnt, 0⟩,
    ⟨ascii "resetFramePixel", .int32, offsetof configStruct .resetFramePixel, 0⟩,
    ⟨ascii "resetFrameCnt", .int32, offsetof configStruct .resetFrameCnt, 0⟩,
    ⟨ascii "sameFramePixel", .int32, offsetof configStruct .sameFramePixel, 0⟩,
    ⟨ascii "sameFrameCnt", .int32, offsetof configStruct .sameFrameCnt, 0⟩,
    ⟨ascii "alertSmoke", .int32, offsetof configStruct .alertSmoke, 0⟩,
    ⟨ascii "useRknn", .int32, offsetof configStruct .useRknn, 0⟩,
    ⟨ascii "volume", .int32, offsetof configStruct .volume, 0⟩,
    ⟨ascii "buzzerOnStream", .int32, offsetof configStruct .buzzerOnStream, 0⟩,
    ⟨ascii "buzzerOnVoice", .int32, offsetof configStruct .buzzerOnVoice, 0⟩,
    ⟨ascii "buzzerOnBeacon", .int32, offsetof configStruct .buzzerOnBeacon, 0⟩,
    ⟨ascii "buzzerOnSmoke", .int32, offsetof configStruct .buzzerOnSmoke, 0⟩]

/-- `savvy_config_parse`. -/
def configParseAt (o : ByteOrder) (mem : List UInt8) (len : ℕ) (out : List UInt8) :
    Option (Status × List UInt8 × List (List UInt8)) :=
  parseRows o configRows mem len out

def configBuild (o : ByteOrder) (cfg : List UInt8) : Option (List UInt8) :=
  buildTable o configRows cfg

inductive DeviceMember
  | deviceSerial
  | deviceMac
  | deviceIp
  | btName
  | blueTooth
  | mic
  | wifi
  | tof
  | led
  | buzzer
  | moveSensor
  | reboot
  | appMgr
  | appSensor
  | os
  | tName
  | toilet
  | stall
  | beacon
  | appRknn
  | verRknn
  | smokeValue
  | dataCollection
  deriving DecidableEq

def deviceStruct : List (DeviceMember × CType) :=
  [(.deviceSerial, .chars strLen),
    (.deviceMac, .chars strLen),
    (.deviceIp, .chars strLen),
    (.btName, .chars strLen),
    (.blueTooth, .int32),
    (.mic, .int32),
    (.wifi, .int32),
    (.tof, .int32),
    (.led, .int32),
    (.buzzer, .int32),
    (.moveSensor, .int32),
    (.reboot, .int32),
    (.appMgr, .chars strLen),
    (.appSensor, .chars strLen),
    (.os, .chars strLen),
    (.tName, .chars strLen),
    (.toilet, .int32),
    (.stall, .int32),
    (.beacon, .int32),
    (.appRknn, .chars strLen),
    (.verRknn, .chars strLen),
    (.smokeValue, .int32),
    (.dataCollection, .int32)]

/-- `DEVICE_FIELDS`. -/
def deviceRows : List FieldRow :=
  [⟨ascii "deviceSerial", .string, offsetof deviceStruct .deviceSerial, strLen⟩,
    ⟨ascii "deviceMAC", .string, offsetof deviceStruct .deviceMac, strLen⟩,
    ⟨ascii "deviceIp", .string, offsetof deviceStruct .deviceIp, strLen⟩,
    ⟨ascii "btName", .string, offsetof deviceStruct .btName, strLen⟩,
    ⟨ascii "blueTooth", .int32, offsetof deviceStruct .blueTooth, 0⟩,
    ⟨ascii "mic", .int32, offsetof deviceStruct .mic, 0⟩,
    ⟨ascii "wifi", .int32, offsetof deviceStruct .wifi, 0⟩,
    ⟨ascii "tof", .int32, offsetof deviceStruct .tof, 0⟩,
    ⟨ascii "led", .int32, offsetof deviceStruct .led, 0⟩,
    ⟨ascii "buzzer", .int32, offsetof deviceStruct .buzzer, 0⟩,
    ⟨ascii "moveSensor", .int32, offsetof deviceStruct .moveSensor, 0⟩,
    ⟨ascii "reboot", .int32, offsetof deviceStruct .reboot, 0⟩,
    ⟨ascii "appMgr", .string, offsetof deviceStruct .appMgr, strLen⟩,
    ⟨ascii "appSensor", .string, offsetof deviceStruct .appSensor, strLen⟩,
    ⟨ascii "os", .string, offsetof deviceStruct .os, strLen⟩,
    ⟨ascii "t_name", .string, offsetof deviceStruct .tName, strLen⟩,
    ⟨ascii "toilet", .int32, offsetof deviceStruct .toilet, 0⟩,
    ⟨ascii "stall", .int32, offsetof deviceStruct .stall, 0⟩,
    ⟨ascii "beacon", .int32, offsetof deviceStruct .beacon, 0⟩,
    ⟨ascii "appRknn", .string, offsetof deviceStruct .appRknn, strLen⟩,
    ⟨ascii "verRknn", .string, offsetof deviceStruct .verRknn, strLen⟩,
    ⟨ascii "smokeValue", .int32, offsetof deviceStruct .smokeValue, 0⟩,
    ⟨ascii "dataCollection", .int32, offsetof deviceStruct .dataCollection, 0⟩]

/-- `savvy_device_parse`. -/
def deviceParseAt (o : ByteOrder) (mem : List UInt8) (len : ℕ) (out : List UInt8) :
    Option (Status × List UInt8 × List (List UInt8)) :=
  parseRows o deviceRows mem len out

def deviceBuild (o : ByteOrder) (dev : List UInt8) : Option (List UInt8) :=
  buildTable o deviceRows dev

end Savvy.Settings
