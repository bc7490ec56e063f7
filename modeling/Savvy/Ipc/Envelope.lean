import Savvy.Json.Codec
import Savvy.Json.Print

/-!
The IPC envelope and the catalog of its actions
(`src/protocol/ipc/ipc_envelope_codec.c`, `src/protocol/ipc/ipc_action_catalog.c`).
An envelope is the text of an object with two members, the action and its
payload. Memory allocation succeeds.
-/

namespace Savvy.Ipc

open CJson

def maxMessage : ℕ := 65536

/-- `savvy_ipc_envelope_t`: two C strings. -/
structure Envelope where
  action : List UInt8
  payloadJson : List UInt8
  deriving DecidableEq, Repr

/-! ### The envelope -/

/-- `savvy_ipc_envelope_parse` from the parsed text on. -/
def envelopeOfRoot (root : Json) : Except Status Envelope :=
  match root with
  | .object members =>
      match members.length == 2, getObjectItem root (ascii "action"),
        getObjectItem root (ascii "payload") with
      | true, some (.string action), some (.object payload) =>
          if cstr action = [] then .error .protocol
          else .ok ⟨cstr action, printUnformatted (.object payload)⟩
      | _, _, _ => .error .protocol
  | _ => .error .protocol

/-- `savvy_ipc_envelope_parse` on a block of memory and a length. -/
def envelopeParseAt (mem : List UInt8) (len : ℕ) : Option (Except Status Envelope) :=
  (parseAt false mem len).map fun r =>
    match r with
    | .error status => .error status
    | .ok root => envelopeOfRoot root

/-- `savvy_ipc_envelope_parse` on a text that is terminated at its length. -/
def envelopeParse (text : List UInt8) : Except Status Envelope :=
  match jsonParse text with
  | .error status => .error status
  | .ok root => envelopeOfRoot root

def envelopeBuild (action payloadJson : List UInt8) : Except Status (List UInt8) :=
  if action = [] then .error .invalidArgument
  else
    match jsonParse payloadJson with
    | .error _ => .error .invalidArgument
    | .ok (.object payload) =>
        let text := printUnformatted (.object
          [(ascii "action", .string action), (ascii "payload", .object payload)])
        if text.length > maxMessage then .error .overflow else .ok text
    | .ok _ => .error .invalidArgument

/-! ### The catalog -/

inductive Direction
  | mgrToSensor
  | sensorToMgr
  deriving DecidableEq, Repr

inductive ValueType
  | object
  | string
  | number
  deriving DecidableEq, Repr

structure CatalogKey where
  name : List UInt8
  type : ValueType
  required : Bool
  nullable : Bool

structure CatalogEntry where
  action : List UInt8
  direction : Direction
  payloadKeys : List CatalogKey

/-- A key that has to be there with a value of its type. -/
def requiredKey (name : String) (type : ValueType) : CatalogKey := ⟨ascii name, type, true, false⟩

def noKeys : List CatalogKey := []
def configKeys : List CatalogKey := [requiredKey "jsonConfigDto" .object]
def deviceKeys : List CatalogKey := [requiredKey "jsonDeviceDto" .object]
def testKeys : List CatalogKey := [requiredKey "TEST" .string]
def resetKeys : List CatalogKey := [requiredKey "RESET" .string]
def ledpwrKeys : List CatalogKey := [requiredKey "PwrLedState" .string]
def alertKeys : List CatalogKey :=
  [requiredKey "AlertLedState" .string, requiredKey "AlertTime" .string,
    requiredKey "AlertSec" .string]
def rknnResultKeys : List CatalogKey := [requiredKey "rknnAnalResult" .string]
def getstateKeys : List CatalogKey := [requiredKey "SENSOR" .string, requiredKey "STATE" .string]
def ifcommStartKeys : List CatalogKey := [requiredKey "IFCOMM_START" .string]
def uploadKeys : List CatalogKey :=
  [requiredKey "targetFilePath" .string, requiredKey "targetFileNm" .string]
def delayKeys : List CatalogKey := [requiredKey "DELAY_SEC" .string]
def rsltKeys : List CatalogKey := [requiredKey "rslt" .string]

/-- Keys that may be missing or null. -/
def tofPropKeys : List CatalogKey :=
  [⟨ascii "TofTemperature", .number, false, true⟩, ⟨ascii "TofTemperDrv", .number, false, true⟩,
    ⟨ascii "SmokeValue", .number, false, true⟩, ⟨ascii "MicValue", .number, false, true⟩]

def catalogToSensor : List CatalogEntry :=
  [⟨ascii "com.uniuni.savvysensor.config", .mgrToSensor, configKeys⟩,
    ⟨ascii "com.uniuni.savvysensor.device", .mgrToSensor, deviceKeys⟩,
    ⟨ascii "com.uniuni.savvysensor.serverip", .mgrToSensor, noKeys⟩,
    ⟨ascii "com.uniuni.savvysensor.voicestart", .mgrToSensor, noKeys⟩,
    ⟨ascii "com.uniuni.savvysensor.streamstart", .mgrToSensor, noKeys⟩,
    ⟨ascii "com.uniuni.savvysensor.test", .mgrToSensor, testKeys⟩,
    ⟨ascii "com.uniuni.savvysensor.sensor.reset", .mgrToSensor, resetKeys⟩,
    ⟨ascii "com.uniuni.savvysensor.sensor.beaconnotify", .mgrToSensor, noKeys⟩,
    ⟨ascii "com.uniuni.savvysensor.sensor.apkupdate", .mgrToSensor, noKeys⟩,
    ⟨ascii "com.uniuni.savvysensor.sensor.status.ledpwr", .mgrToSensor, ledpwrKeys⟩,
    ⟨ascii "com.uniuni.savvysensor.sensor.status.alert", .mgrToSensor, alertKeys⟩,
    ⟨ascii "com.uniuni.savvysensor.sensor.rknn.alert", .mgrToSensor, noKeys⟩,
    ⟨ascii "com.uniuni.savvysensor.sensor.update.threash.hold", .mgrToSensor, noKeys⟩,
    ⟨ascii "com.uniuni.savvysensor.sensor.rknn.anal.result", .mgrToSensor, rknnResultKeys⟩,
    ⟨ascii "com.uniuni.savvysensor.sensor.max.cpu.temp", .mgrToSensor, noKeys⟩]

def catalogToMgr : List CatalogEntry :=
  [⟨ascii "com.uniuni.savvymgr.ipc.connect", .sensorToMgr, noKeys⟩,
    ⟨ascii "com.uniuni.savvymgr.getstate.sensor", .sensorToMgr, getstateKeys⟩,
    ⟨ascii "com.uniuni.savvymgr.alert.sensor", .sensorToMgr, ifcommStartKeys⟩,
    ⟨ascii "com.uniuni.savvymgr.upload.sensor", .sensorToMgr, uploadKeys⟩,
    ⟨ascii "com.uniuni.savvymgr.restart.sensor", .sensorToMgr, delayKeys⟩,
    ⟨ascii "com.uniuni.savvymgr.fracture.sensor", .sensorToMgr, noKeys⟩,
    ⟨ascii "com.uniuni.savvymgr.tof.property", .sensorToMgr, tofPropKeys⟩,
    ⟨ascii "com.uniuni.savvymgr.update.threash.rslt", .sensorToMgr, rsltKeys⟩]

def catalog : List CatalogEntry := catalogToSensor ++ catalogToMgr

def findEntry (action : List UInt8) : Option CatalogEntry :=
  catalog.find? fun e => e.action == action

def actionKnown (action : List UInt8) : Bool := (findEntry action).isSome

def actionDirection (action : List UInt8) : Direction :=
  match findEntry action with
  | some e => e.direction
  | none => .mgrToSensor

def valueMatchesType (v : Json) : ValueType → Bool
  | .object => (v matches .object _)
  | .string => (v matches .string _)
  | .number => (numberToInt32 v matches .ok _)

/-- One turn of the loop of `savvy_ipc_action_validate_payload`. -/
def keyAccepted (root : Json) (key : CatalogKey) : Bool :=
  match getObjectItem root key.name with
  | none => !key.required
  | some .null => key.nullable
  | some v => valueMatchesType v key.type

/-- `savvy_ipc_action_validate_payload` from the parsed payload on. -/
def validateRoot (keys : List CatalogKey) (root : Json) : Status :=
  match root with
  | .object _ => if keys.all (keyAccepted root) then .ok else .protocol
  | _ => .protocol

def validatePayload (action payloadJson : List UInt8) : Status :=
  match findEntry action with
  | none => .protocol
  | some e =>
      match jsonParse payloadJson with
      | .error status => status
      | .ok root => validateRoot e.payloadKeys root

end Savvy.Ipc
