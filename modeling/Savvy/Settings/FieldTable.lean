import Savvy.Json.Codec

/-!
The Config and Device objects (`src/protocol/json/field_table.c`,
`config_codec.c` and `device_codec.c` there). A table says which member of a
JSON object goes into which field; a member that is missing leaves its field
alone, and one of the wrong type ends the parse with the fields before it
written. A `char` array is the C string in it.
-/

namespace Savvy.Settings

open CJson

/-- `SAVVY_CONFIG_STR_LEN` and `SAVVY_DEVICE_STR_LEN`. -/
def strLen : ℕ := 64

/-- A C string in an array of that size. -/
structure FieldString where
  bytes : List UInt8
  length_lt : bytes.length < strLen
  deriving DecidableEq

def FieldString.empty : FieldString := ⟨[], by decide⟩

/-- `savvy_field_desc_t`: the name of a member and the field it goes to. -/
inductive FieldDesc (σ : Type)
  | string (key : List UInt8) (set : FieldString → σ → σ)
  | int32 (key : List UInt8) (set : Int32 → σ → σ)

def FieldDesc.key {σ : Type} : FieldDesc σ → List UInt8
  | .string key _ => key
  | .int32 key _ => key

/-- A turn of the loop of `savvy_apply_field_table` on a member that is there:
the object with the field written, or an error. -/
def applyItem {σ : Type} (item : Json) (out : σ) : FieldDesc σ → Option σ
  | .string _ set =>
      match item with
      | .string s =>
          if h : (cstr s).length < strLen then some (set ⟨cstr s, h⟩ out) else none
      | _ => none
  | .int32 _ set =>
      match numberToInt32 item with
      | .ok v => some (set (Int32.ofInt v) out)
      | .error _ => none

def applyFieldTable {σ : Type} (root : Json) : List (FieldDesc σ) → σ → Status × σ
  | [], out => (.ok, out)
  | f :: fs, out =>
      match getObjectItem root f.key with
      | none => applyFieldTable root fs out
      | some .null => (.protocol, out)
      | some item =>
          match applyItem item out f with
          | none => (.protocol, out)
          | some out => applyFieldTable root fs out

/-- `savvy_config_parse` and `savvy_device_parse` with their tables. Without
memory for the tree `savvy_json_parse` fails. -/
def parseTable {σ : Type} (fields : List (FieldDesc σ)) (memory : Bool) (text : List UInt8)
    (out : σ) : Status × σ :=
  match if memory then jsonParse text else .error .protocol with
  | .error status => (status, out)
  | .ok (.object members) => applyFieldTable (.object members) fields out
  | .ok _ => (.protocol, out)

/-! ### Config -/

structure Config where
  serverIp : FieldString
  ftpIp : FieldString
  selectWifi : FieldString
  selectBeacon : FieldString
  videoTime : Int32
  frame : Int32
  dangerCount : Int32
  decibel : Int32
  inoutTime : Int32
  buzzerTime : Int32
  pixelCount : Int32
  milliMeter : Int32
  sendingLogTime : FieldString
  keepAliveTime : Int32
  keepServerIp : FieldString
  bootAutoTime : FieldString
  compress : Int32
  fractureFramePixel : Int32
  fractureFrameCnt : Int32
  resetFramePixel : Int32
  resetFrameCnt : Int32
  sameFramePixel : Int32
  sameFrameCnt : Int32
  alertSmoke : Int32
  useRknn : Int32
  volume : Int32
  buzzerOnStream : Int32
  buzzerOnVoice : Int32
  buzzerOnBeacon : Int32
  buzzerOnSmoke : Int32
  deriving DecidableEq

def configFields : List (FieldDesc Config) :=
  [.string (ascii "serverIp") fun v c => { c with serverIp := v },
    .string (ascii "ftpIp") fun v c => { c with ftpIp := v },
    .string (ascii "selectWifi") fun v c => { c with selectWifi := v },
    .string (ascii "selectBeacon") fun v c => { c with selectBeacon := v },
    .int32 (ascii "videoTime") fun v c => { c with videoTime := v },
    .int32 (ascii "frame") fun v c => { c with frame := v },
    .int32 (ascii "dangerCount") fun v c => { c with dangerCount := v },
    .int32 (ascii "decibel") fun v c => { c with decibel := v },
    .int32 (ascii "inoutTime") fun v c => { c with inoutTime := v },
    .int32 (ascii "buzzerTime") fun v c => { c with buzzerTime := v },
    .int32 (ascii "pixelCount") fun v c => { c with pixelCount := v },
    .int32 (ascii "milliMeter") fun v c => { c with milliMeter := v },
    .string (ascii "sendingLogTime") fun v c => { c with sendingLogTime := v },
    .int32 (ascii "keepAliveTime") fun v c => { c with keepAliveTime := v },
    .string (ascii "keepServerIp") fun v c => { c with keepServerIp := v },
    .string (ascii "bootAutoTime") fun v c => { c with bootAutoTime := v },
    .int32 (ascii "compress") fun v c => { c with compress := v },
    .int32 (ascii "fractureFramePixel") fun v c => { c with fractureFramePixel := v },
    .int32 (ascii "fractureFrameCnt") fun v c => { c with fractureFrameCnt := v },
    .int32 (ascii "resetFramePixel") fun v c => { c with resetFramePixel := v },
    .int32 (ascii "resetFrameCnt") fun v c => { c with resetFrameCnt := v },
    .int32 (ascii "sameFramePixel") fun v c => { c with sameFramePixel := v },
    .int32 (ascii "sameFrameCnt") fun v c => { c with sameFrameCnt := v },
    .int32 (ascii "alertSmoke") fun v c => { c with alertSmoke := v },
    .int32 (ascii "useRknn") fun v c => { c with useRknn := v },
    .int32 (ascii "volume") fun v c => { c with volume := v },
    .int32 (ascii "buzzerOnStream") fun v c => { c with buzzerOnStream := v },
    .int32 (ascii "buzzerOnVoice") fun v c => { c with buzzerOnVoice := v },
    .int32 (ascii "buzzerOnBeacon") fun v c => { c with buzzerOnBeacon := v },
    .int32 (ascii "buzzerOnSmoke") fun v c => { c with buzzerOnSmoke := v }]

/-- `savvy_config_set_defaults`. -/
def configDefaults : Config where
  serverIp := .empty
  ftpIp := .empty
  selectWifi := .empty
  selectBeacon := .empty
  videoTime := 4
  frame := 3
  dangerCount := 4
  decibel := 100000
  inoutTime := 5
  buzzerTime := 30
  pixelCount := 2000
  milliMeter := 200
  sendingLogTime := ⟨ascii "03:00", by decide⟩
  keepAliveTime := 60000
  keepServerIp := ⟨ascii "13.125.173.114", by decide⟩
  bootAutoTime := ⟨ascii "01:00", by decide⟩
  compress := 0
  fractureFramePixel := 53760
  fractureFrameCnt := 30
  resetFramePixel := 768
  resetFrameCnt := 6
  sameFramePixel := 460
  sameFrameCnt := 900
  alertSmoke := 0
  useRknn := 0
  volume := 80
  buzzerOnStream := 1
  buzzerOnVoice := 1
  buzzerOnBeacon := 1
  buzzerOnSmoke := 1

def configParse (memory : Bool) (text : List UInt8) (out : Config) : Status × Config :=
  parseTable configFields memory text out

/-! ### Device -/

structure Device where
  deviceSerial : FieldString
  deviceMac : FieldString
  deviceIp : FieldString
  btName : FieldString
  blueTooth : Int32
  mic : Int32
  wifi : Int32
  tof : Int32
  led : Int32
  buzzer : Int32
  moveSensor : Int32
  reboot : Int32
  appMgr : FieldString
  appSensor : FieldString
  os : FieldString
  tName : FieldString
  toilet : Int32
  stall : Int32
  beacon : Int32
  appRknn : FieldString
  verRknn : FieldString
  smokeValue : Int32
  dataCollection : Int32
  deriving DecidableEq

def deviceFields : List (FieldDesc Device) :=
  [.string (ascii "deviceSerial") fun v c => { c with deviceSerial := v },
    .string (ascii "deviceMAC") fun v c => { c with deviceMac := v },
    .string (ascii "deviceIp") fun v c => { c with deviceIp := v },
    .string (ascii "btName") fun v c => { c with btName := v },
    .int32 (ascii "blueTooth") fun v c => { c with blueTooth := v },
    .int32 (ascii "mic") fun v c => { c with mic := v },
    .int32 (ascii "wifi") fun v c => { c with wifi := v },
    .int32 (ascii "tof") fun v c => { c with tof := v },
    .int32 (ascii "led") fun v c => { c with led := v },
    .int32 (ascii "buzzer") fun v c => { c with buzzer := v },
    .int32 (ascii "moveSensor") fun v c => { c with moveSensor := v },
    .int32 (ascii "reboot") fun v c => { c with reboot := v },
    .string (ascii "appMgr") fun v c => { c with appMgr := v },
    .string (ascii "appSensor") fun v c => { c with appSensor := v },
    .string (ascii "os") fun v c => { c with os := v },
    .string (ascii "t_name") fun v c => { c with tName := v },
    .int32 (ascii "toilet") fun v c => { c with toilet := v },
    .int32 (ascii "stall") fun v c => { c with stall := v },
    .int32 (ascii "beacon") fun v c => { c with beacon := v },
    .string (ascii "appRknn") fun v c => { c with appRknn := v },
    .string (ascii "verRknn") fun v c => { c with verRknn := v },
    .int32 (ascii "smokeValue") fun v c => { c with smokeValue := v },
    .int32 (ascii "dataCollection") fun v c => { c with dataCollection := v }]

/-- `savvy_device_set_defaults`. -/
def deviceDefaults : Device where
  deviceSerial := .empty
  deviceMac := .empty
  deviceIp := .empty
  btName := .empty
  blueTooth := 0
  mic := 0
  wifi := 0
  tof := 0
  led := 0
  buzzer := 0
  moveSensor := 0
  reboot := 0
  appMgr := .empty
  appSensor := .empty
  os := .empty
  tName := .empty
  toilet := 0
  stall := 0
  beacon := 0
  appRknn := .empty
  verRknn := .empty
  smokeValue := 0
  dataCollection := 0

def deviceParse (memory : Bool) (text : List UInt8) (out : Device) : Status × Device :=
  parseTable deviceFields memory text out

end Savvy.Settings
