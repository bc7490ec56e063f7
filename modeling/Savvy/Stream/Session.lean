import Savvy.Protocol.PacketRoundTrip
import Savvy.Stream.Bzip
import Savvy.Stream.ResultPolicy
import Savvy.Stream.Wav

/-!
The sends of a stream session (`src/features/stream/session.c`) up to the
channel: what is encoded into the session's buffer and handed to
`sensor_tcp_channel_submit`, `sensor_tcp_channel_submit_final` or
`sensor_tcp_channel_try_relay`. The allocations on the way succeed or fail by
choice.
-/

namespace Savvy.Stream

/-! ### Capacity -/

/-- `calculate_encoded_packet_capacity` on the role: room for the payload. -/
def roleCapacity (A : Arch) (role : Role) (maxPayloadSize : ℕ) : Except Status ℕ :=
  match role with
  | .voice =>
      if maxPayloadSize > A.sub (A.sizeBound - 1) wavHeaderLen then .error .overflow
      else .ok (A.add maxPayloadSize wavHeaderLen)
  | .stream => .ok maxPayloadSize

/-- The same on the compression: room for a body that grows. -/
def bzipCapacity (A : Arch) (compress : ℤ) (bodyCapacity : ℕ) : Except Status ℕ :=
  if compress = 1 then
    if bodyCapacity > uintMax then .error .overflow
    else
      let growth := bodyCapacity / 100
      if bodyCapacity > A.sub (A.sizeBound - 1) growth then .error .overflow
      else
        let bodyCapacity := A.add bodyCapacity growth
        if bodyCapacity > A.sub (A.sizeBound - 1) 600 then .error .overflow
        else .ok (A.add bodyCapacity 600)
  else .ok bodyCapacity

/-- `calculate_encoded_packet_capacity`, in `size_t` arithmetic. -/
def calculateEncodedPacketCapacity (A : Arch) (role : Role) (compress : ℤ) (maxPayloadSize : ℕ) :
    Except Status ℕ :=
  (roleCapacity A role maxPayloadSize).bind fun bodyCapacity =>
    (bzipCapacity A compress bodyCapacity).bind fun bodyCapacity =>
      if bodyCapacity > 2 ^ 32 - 1 then .error .overflow
      else if bodyCapacity > A.sub (A.sizeBound - 1) packetHeaderLen then .error .overflow
      else .ok (A.add packetHeaderLen bodyCapacity)

/-! ### The session -/

/-- The fields of `struct sensor_stream_session` that the sends use, with the
`max_packet_size` of its channel. The capacity of the buffer is its length. -/
structure Session (A : Arch) where
  role : Role
  compress : ℤ
  maxPayloadSize : ℕ
  deviceSerial : List UInt8
  encodeBuf : List UInt8
  maxPacketSize : ℕ
  serial_length : deviceSerial.length = packetSerialLen
  encodeBuf_lt : encodeBuf.length < A.sizeBound

/-- `sensor_stream_config_t`, as far as the sends depend on it. -/
structure SessionConfig (A : Arch) where
  compress : ℤ
  maxPayloadSize : ℕ
  deviceSerial : List UInt8
  serial_length : deviceSerial.length = packetSerialLen
  maxPayloadSize_lt : maxPayloadSize < A.sizeBound

/-- `sensor_stream_session_create` up to its channel and its policy. The block
that `malloc` returns is `buf`, if it returns one; no object has more than
`PTRDIFF_MAX` bytes. -/
def sessionCreate {A : Arch} (role : Role) (config : SessionConfig A) (buf : Option (List UInt8)) :
    Except Status (Session A) :=
  match calculateEncodedPacketCapacity A role config.compress config.maxPayloadSize with
  | .error status => .error status
  | .ok capacity =>
      match buf with
      | none => .error .outOfMemory
      | some block =>
          if h : block.length = capacity ∧ capacity ≤ (A.sizeBound - 1) / 2 then
            .ok
              { role := role
                compress := config.compress
                maxPayloadSize := config.maxPayloadSize
                deviceSerial := config.deviceSerial
                encodeBuf := block
                maxPacketSize := capacity
                serial_length := config.serial_length
                encodeBuf_lt := by
                  have := A.two_pow_32_le_sizeBound
                  omega }
          else .error .outOfMemory

def blockOf {A : Arch} (bytes : List UInt8) : Span A :=
  if h : bytes.length < A.sizeBound then .block bytes h else .null A

namespace Session

variable {A : Arch}

def startByte (s : Session A) : UInt8 :=
  match s.role with
  | .stream => 83
  | .voice => 86

def serial (s : Session A) : Span A :=
  .block s.deviceSerial (by
    rw [s.serial_length]
    exact lt_of_lt_of_le (by decide) A.two_pow_32_le_sizeBound)

/-- A call of `savvy_packet_encode` on the session's buffer. -/
def encode (s : Session A) (start command device config : UInt8) (body : Span A) : EncodeResult :=
  packetEncode start command device config s.serial body (.block s.encodeBuf s.encodeBuf_lt) (some 0)

/-- The session behind the call, and the bytes that were written. -/
def encodePacket (s : Session A) (start command device config : UInt8) (body : Span A) :
    Session A × Except Status (List UInt8) :=
  let r := s.encode start command device config body
  let buf := r.out.getD s.encodeBuf
  if h : buf.length < A.sizeBound then
    ({ s with encodeBuf := buf, encodeBuf_lt := h },
      if r.status = .ok then .ok (buf.take (r.outWritten.getD 0)) else .error r.status)
  else (s, .error r.status)

/-- The end of a send: the `pending_send_t` is allocated, and the packet goes to
the channel. -/
def withPending (r : Session A × Except Status (List UInt8)) (malloc : Bool) :
    Session A × Except Status (List UInt8) :=
  match r.2 with
  | .error _ => r
  | .ok _ => if malloc then r else (r.1, .error .outOfMemory)

def sendPirin (s : Session A) (malloc : Bool) : Session A × Except Status (List UInt8) :=
  withPending (s.encodePacket s.startByte 73 0 0 (.null A)) malloc

def sendPirout (s : Session A) (malloc : Bool) : Session A × Except Status (List UInt8) :=
  withPending (s.encodePacket s.startByte 79 0 0 (.null A)) malloc

def relayRknnResult (s : Session A) (payload : Span A) : Session A × Except Status (List UInt8) :=
  if s.role ≠ .stream then (s, .error .invalidArgument)
  else if payload.len > s.maxPayloadSize then (s, .error .overflow)
  else s.encodePacket 84 83 0 0 payload

end Session

/-- The allocations of `sensor_stream_session_send_data`. -/
structure SendMemory where
  wav : Bool
  bzip : BzMemory
  pending : Bool

/-- The first half of `sensor_stream_session_send_data`: a Voice payload is
wrapped. -/
def wavBody {A : Arch} (role : Role) (payload : Span A) (m : SendMemory) : Except Status (Span A) :=
  match role with
  | .stream => .ok payload
  | .voice => (wavWrap payload m.wav).map blockOf

def bzipBody {A : Arch} (B : Bz2) (compress : ℤ) (body : Span A) (m : SendMemory) :
    Except Status (Span A) :=
  if compress = 1 then (bzipCompress B m.bzip body).map blockOf else .ok body

namespace Session

variable {A : Arch}

def dataCommand (s : Session A) : UInt8 :=
  if s.compress = 1 then 90
  else
    match s.role with
    | .stream => 83
    | .voice => 86

/-- The bytes of the microphone value in a Voice packet. -/
def micBytes (s : Session A) (mic : Int16) : UInt8 × UInt8 :=
  match s.role with
  | .stream => (0, 0)
  | .voice => ((mic.toUInt16 >>> 8).toUInt8, (mic.toUInt16 &&& 0xFF).toUInt8)

def sendData (B : Bz2) (s : Session A) (payload : Span A) (mic : Int16) (m : SendMemory) :
    Session A × Except Status (List UInt8) :=
  if payload.bytes = none ∧ payload.len > 0 then (s, .error .invalidArgument)
  else if payload.len > s.maxPayloadSize then (s, .error .overflow)
  else
    match wavBody s.role payload m with
    | .error status => (s, .error status)
    | .ok body =>
        match bzipBody B s.compress body m with
        | .error status => (s, .error status)
        | .ok body =>
            withPending (s.encodePacket s.startByte s.dataCommand (s.micBytes mic).1
              (s.micBytes mic).2 body) m.pending

end Session

end Savvy.Stream
