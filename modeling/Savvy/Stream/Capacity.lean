import Savvy.Stream.Session

/-!
The capacity of a session's buffer. `calculate_encoded_packet_capacity` adds up,
without a wrap, the largest body that a payload can turn into and the packet
header, so no send of a payload within `max_payload_size` finds the buffer, the
32-bit fields or the channel too small.
-/

namespace Savvy.Stream

open Kit

variable {A : Arch}

/-! ### The sums -/

def roleSize (role : Role) (n : ℕ) : ℕ :=
  match role with
  | .voice => n + wavHeaderLen
  | .stream => n

/-- A bound on the size of a body. -/
def bodySize (role : Role) (compress : ℤ) (n : ℕ) : ℕ :=
  if compress = 1 then roleSize role n + roleSize role n / 100 + 600 else roleSize role n

theorem roleCapacity_ok {role : Role} {n capacity : ℕ} (hn : n < A.sizeBound)
    (h : roleCapacity A role n = .ok capacity) :
    capacity = roleSize role n ∧ roleSize role n < A.sizeBound := by
  have hbound := A.two_pow_32_le_sizeBound
  cases role with
  | stream =>
      cases h
      exact ⟨rfl, hn⟩
  | voice =>
      simp only [roleCapacity] at h
      rw [A.sub_max (by decide)] at h
      split at h
      · exact absurd h (by simp)
      · next hfits =>
          have hlt : n + wavHeaderLen < A.sizeBound := by
            unfold wavHeaderLen at hfits ⊢
            omega
          cases h
          exact ⟨A.add_of_lt hlt, hlt⟩

theorem bzipCapacity_ok {role : Role} {compress : ℤ} {n capacity : ℕ}
    (hrole : roleSize role n < A.sizeBound)
    (h : bzipCapacity A compress (roleSize role n) = .ok capacity) :
    capacity = bodySize role compress n ∧ bodySize role compress n < A.sizeBound ∧
      (compress = 1 → roleSize role n ≤ uintMax) := by
  have hbound := A.two_pow_32_le_sizeBound
  unfold bodySize
  generalize roleSize role n = body at hrole h ⊢
  unfold bzipCapacity at h
  by_cases hcompress : compress = 1
  · simp only [if_pos hcompress] at h ⊢
    split at h
    · exact absurd h (by simp)
    next huint =>
      have hgrowth : body / 100 < 2 ^ 32 := by
        unfold uintMax at huint
        omega
      rw [A.sub_max hgrowth] at h
      split at h
      · exact absurd h (by simp)
      next hgrow =>
        have hsum : body + body / 100 < A.sizeBound := by omega
        rw [A.sub_max (by decide), A.add_of_lt hsum] at h
        split at h
        · exact absurd h (by simp)
        next hextra =>
          have hall : body + body / 100 + 600 < A.sizeBound := by omega
          rw [A.add_of_lt hall] at h
          cases h
          exact ⟨rfl, hall, fun _ => Nat.not_lt.mp huint⟩
  · simp only [if_neg hcompress] at h ⊢
    cases h
    exact ⟨rfl, hrole, fun h => absurd h hcompress⟩

/-- The capacity is the exact sum, and the limits of all encoders lie above it. -/
theorem capacity_ok {role : Role} {compress : ℤ} {n capacity : ℕ} (hn : n < A.sizeBound)
    (h : calculateEncodedPacketCapacity A role compress n = .ok capacity) :
    capacity = packetHeaderLen + bodySize role compress n ∧
      packetHeaderLen + bodySize role compress n < A.sizeBound ∧
      bodySize role compress n ≤ 2 ^ 32 - 1 ∧ (compress = 1 → roleSize role n ≤ uintMax) := by
  have hbound := A.two_pow_32_le_sizeBound
  unfold calculateEncodedPacketCapacity at h
  cases hrole : roleCapacity A role n with
  | error status => simp [hrole, Except.bind] at h
  | ok body =>
      obtain ⟨rfl, hlt⟩ := roleCapacity_ok hn hrole
      cases hbzip : bzipCapacity A compress (roleSize role n) with
      | error status => simp [hrole, hbzip, Except.bind] at h
      | ok body =>
          obtain ⟨rfl, hsize, huint⟩ := bzipCapacity_ok hlt hbzip
          simp only [hrole, hbzip, Except.bind] at h
          rw [A.sub_max (by decide)] at h
          split at h
          · exact absurd h (by simp)
          next hlength =>
            split at h
            · exact absurd h (by simp)
            next hheader =>
              have hall : packetHeaderLen + bodySize role compress n < A.sizeBound := by
                unfold packetHeaderLen at hheader ⊢
                omega
              rw [A.add_of_lt hall] at h
              cases h
              exact ⟨rfl, hall, Nat.not_lt.mp hlength, huint⟩

theorem roleSize_mono {role : Role} {n n' : ℕ} (h : n ≤ n') : roleSize role n ≤ roleSize role n' := by
  cases role with
  | stream => exact h
  | voice => exact Nat.add_le_add_right h _

/-! ### Encoding -/

@[simp] theorem content_blockOf {bytes : List UInt8} (h : bytes.length < A.sizeBound) :
    (blockOf bytes : Span A) = .block bytes h := dif_pos h

theorem encodePacket_of_fits {s : Session A} {body : Span A} (start command device config : UInt8)
    (hnull : body.bytes = none → body.len = 0) (hfield : body.len ≤ 2 ^ 32 - 1)
    (hfits : packetHeaderLen + body.len ≤ s.encodeBuf.length) :
    (s.encodePacket start command device config body).2 =
        .ok (packetBytes start command device config s.deviceSerial body.content) ∧
      (s.encodePacket start command device config body).1.encodeBuf.length =
        s.encodeBuf.length := by
  have hlt := s.encodeBuf_lt
  obtain ⟨hok, hresult, -⟩ := packetEncode_spec start command device config s.serial body
    (.block s.encodeBuf s.encodeBuf_lt) (some 0)
  have hstatus : (s.encode start command device config body).status = .ok := by
    refine hok.mpr ⟨⟨by simp [Session.serial], hnull, by simp, by simp⟩, ?_, hfield, ?_, hfits⟩
    · exact s.serial_length
    · omega
  have heq : s.encode start command device config body = _ := hresult hstatus
  have hserial : s.serial.content = s.deviceSerial := rfl
  have hbody : body.content.length = body.len := Span.length_content hnull
  have hpacket : (packetBytes start command device config s.deviceSerial body.content).length =
      packetHeaderLen + body.len := by
    rw [length_packetBytes s.serial_length, hbody]
  have hbuf : (packetBytes start command device config s.deviceSerial body.content ++
      s.encodeBuf.drop (packetHeaderLen + body.len)).length = s.encodeBuf.length := by
    rw [List.length_append, hpacket, List.length_drop]
    omega
  have hbound : (packetBytes start command device config s.deviceSerial body.content ++
      s.encodeBuf.drop (packetHeaderLen + body.len)).length < A.sizeBound := hbuf ▸ hlt
  simp only [Session.encodePacket, heq, hserial, Span.content_block, Option.getD_some]
  rw [dif_pos hbound]
  refine ⟨?_, hbuf⟩
  simp only [if_true]
  rw [List.take_left' hpacket]

/-- A null body with a length is an error of the caller. -/
theorem encodePacket_of_null {s : Session A} {body : Span A} (start command device config : UInt8)
    (hnull : body.bytes = none) (hlen : body.len ≠ 0) :
    s.encodePacket start command device config body = (s, .error .invalidArgument) := by
  have hserial : ¬ (s.serial.bytes = none ∨ s.serial.len ≠ packetSerialLen) := by
    simp [Session.serial, s.serial_length]
  have hencode : s.encode start command device config body =
      ⟨.invalidArgument, some s.encodeBuf, some 0⟩ := by
    rw [Session.encode, packetEncode, if_neg hserial, if_pos ⟨hnull, hlen⟩]
    rfl
  simp [Session.encodePacket, hencode, s.encodeBuf_lt]

/-! ### Sends that always fit -/

/-- A send that finds no limit: it does not report an overflow, the packet is
within the limit of the channel, and it is written within the buffer. -/
structure Fits (s : Session A) (r : Session A × Except Status (List UInt8)) : Prop where
  status : r.2 ≠ .error .overflow
  packet : ∀ packet, r.2 = .ok packet → 0 < packet.length ∧ packet.length ≤ s.maxPacketSize ∧
    packet.length ≤ s.encodeBuf.length
  buffer : r.1.encodeBuf.length = s.encodeBuf.length

structure MadeWith (s : Session A) (role : Role) (compress : ℤ) (maxPayloadSize capacity : ℕ) :
    Prop where
  role : s.role = role
  compress : s.compress = compress
  maxPayloadSize : s.maxPayloadSize = maxPayloadSize
  encodeBuf : s.encodeBuf.length = capacity
  maxPacketSize : s.maxPacketSize = capacity

theorem Fits.error {s : Session A} {status : Status} (h : status ≠ .overflow) :
    Fits s (s, .error status) where
  status := by simpa using h
  packet packet hp := absurd hp (by simp)
  buffer := rfl

theorem Fits.withPending {s : Session A} {r : Session A × Except Status (List UInt8)}
    (h : Fits s r) (malloc : Bool) : Fits s (Session.withPending r malloc) := by
  unfold Session.withPending
  split
  · exact h
  · cases malloc with
    | true => exact h
    | false => exact ⟨by simp, fun packet hp => absurd hp (by simp), h.buffer⟩

theorem Fits.encodePacket {s : Session A} {body : Span A} (start command device config : UInt8)
    (hfield : body.len ≤ 2 ^ 32 - 1) (hfits : packetHeaderLen + body.len ≤ s.encodeBuf.length)
    (hchannel : s.maxPacketSize = s.encodeBuf.length) :
    Fits s (s.encodePacket start command device config body) := by
  by_cases hnull : body.bytes = none → body.len = 0
  · obtain ⟨hpacket, hbuffer⟩ :=
      @encodePacket_of_fits A s body start command device config hnull hfield hfits
    refine ⟨by simp [hpacket], fun packet hp => ?_, hbuffer⟩
    rw [hpacket] at hp
    cases hp
    rw [length_packetBytes s.serial_length, Span.length_content hnull, hchannel]
    refine ⟨?_, hfits, hfits⟩
    unfold packetHeaderLen
    omega
  · rw [Classical.not_imp] at hnull
    rw [encodePacket_of_null start command device config hnull.1 hnull.2]
    exact .error (by simp)

section Sends

variable {role : Role} {compress : ℤ} {n capacity : ℕ} {s : Session A}

theorem fits_empty (hn : n < A.sizeBound)
    (hcap : calculateEncodedPacketCapacity A role compress n = .ok capacity)
    (hs : MadeWith s role compress n capacity) (start command : UInt8) :
    Fits s (s.encodePacket start command 0 0 (.null A)) := by
  obtain ⟨hsum, -⟩ := capacity_ok hn hcap
  apply Fits.encodePacket
  · simp
  · rw [hs.encodeBuf, hsum, Span.len_null]
    omega
  · rw [hs.maxPacketSize, hs.encodeBuf]

theorem fits_relay (hn : n < A.sizeBound)
    (hcap : calculateEncodedPacketCapacity A role compress n = .ok capacity)
    (hs : MadeWith s role compress n capacity) {payload : Span A} (hlen : payload.len ≤ n) :
    Fits s (s.relayRknnResult payload) := by
  obtain ⟨hsum, -, hfield, -⟩ := capacity_ok hn hcap
  have hbody : payload.len ≤ bodySize role compress n := by
    have hrole : n ≤ roleSize role n := by
      cases role with
      | stream => exact Nat.le_refl n
      | voice => exact Nat.le_add_right n _
    unfold bodySize
    split <;> omega
  unfold Session.relayRknnResult
  split
  · exact .error (by simp)
  · rw [if_neg (by rw [hs.maxPayloadSize]; omega)]
    apply Fits.encodePacket
    · omega
    · rw [hs.encodeBuf, hsum]
      omega
    · rw [hs.maxPacketSize, hs.encodeBuf]

theorem wavBody_ok {payload body : Span A} {m : SendMemory}
    (h : wavBody role payload m = .ok body) :
    body.len = roleSize role payload.len := by
  cases role with
  | stream =>
      cases h
      rfl
  | voice =>
      simp only [wavBody] at h
      cases hwav : wavWrap payload m.wav with
      | error status => simp [hwav, Except.map] at h
      | ok wav =>
          obtain ⟨rfl, hcontent, -, hlt⟩ := wavWrap_ok hwav
          have hlen : (wavHeader (UInt32.ofNat payload.len) ++ payload.content).length =
              payload.len + wavHeaderLen := by
            rw [List.length_append, length_wavHeader, hcontent, Nat.add_comm]
          simp only [hwav, Except.map] at h
          cases h
          rw [content_blockOf (hlen ▸ hlt), Span.len_block, hlen]
          rfl

/-- The limits of the encoders lie above every payload. -/
theorem roleSize_le_field (hcap : calculateEncodedPacketCapacity A role compress n = .ok capacity)
    (hn : n < A.sizeBound) {k : ℕ} (hk : k ≤ n) : roleSize role k ≤ 2 ^ 32 - 1 := by
  obtain ⟨-, -, hfield, -⟩ := capacity_ok hn hcap
  have hmono := @roleSize_mono role k n hk
  unfold bodySize at hfield
  split at hfield <;> omega

theorem wavBody_not_overflow
    (hcap : calculateEncodedPacketCapacity A role compress n = .ok capacity) (hn : n < A.sizeBound)
    {payload : Span A} (hlen : payload.len ≤ n) (m : SendMemory) {status : Status}
    (h : wavBody role payload m = .error status) : status ≠ .overflow := by
  cases role with
  | stream => exact absurd h (by simp [wavBody])
  | voice =>
      have hfield := roleSize_le_field hcap hn hlen
      rintro rfl
      simp only [wavBody] at h
      cases hwav : wavWrap payload m.wav with
      | ok wav => simp [hwav, Except.map] at h
      | error status =>
          simp only [hwav, Except.map, Except.error.injEq] at h
          exact wavWrap_not_overflow m.wav hfield (by rw [hwav, h])

theorem length_bzipCompress_le {B : Bz2} {Stream : List UInt8 → List UInt8 → Prop}
    (hB : B.Documented Stream) {k : ℕ} (hk : k ≤ n) {body : Span A}
    (hbody : body.len = roleSize role k) {m : BzMemory} {z : List UInt8}
    (hz : bzipCompress B m body = .ok z) : z.length ≤ bodySize role 1 n := by
  obtain ⟨hstream, hcontent, -⟩ := bzipCompress_ok hB hz
  have hbound := hB.length_le _ _ hstream
  have hmono := @roleSize_mono role k n hk
  have hdiv : roleSize role k / 100 ≤ roleSize role n / 100 := Nat.div_le_div_right hmono
  rw [hcontent, hbody] at hbound
  rw [bodySize, if_pos rfl]
  omega

theorem bzipBody_ok {B : Bz2} {Stream : List UInt8 → List UInt8 → Prop}
    (hB : B.Documented Stream)
    (hcap : calculateEncodedPacketCapacity A role compress n = .ok capacity) (hn : n < A.sizeBound)
    {k : ℕ} (hk : k ≤ n) {body body' : Span A} (hbody : body.len = roleSize role k)
    {m : SendMemory} (h : bzipBody B compress body m = .ok body') :
    body'.len ≤ bodySize role compress n := by
  obtain ⟨-, hsum, -, -⟩ := capacity_ok hn hcap
  unfold bzipBody at h
  by_cases hcompress : compress = 1
  · subst hcompress
    rw [if_pos rfl] at h
    cases hz : bzipCompress B m.bzip body with
    | error status => simp [hz, Except.map] at h
    | ok z =>
        have hle := length_bzipCompress_le hB hk hbody hz
        simp only [hz, Except.map] at h
        cases h
        rw [content_blockOf (by omega)]
        exact hle
  · rw [if_neg hcompress] at h
    cases h
    rw [bodySize, if_neg hcompress, hbody]
    exact roleSize_mono hk

theorem bzipBody_not_overflow {B : Bz2}
    (hcap : calculateEncodedPacketCapacity A role compress n = .ok capacity) (hn : n < A.sizeBound)
    {k : ℕ} (hk : k ≤ n) {body : Span A} (hbody : body.len = roleSize role k) (m : SendMemory)
    {status : Status} (h : bzipBody B compress body m = .error status) : status ≠ .overflow := by
  obtain ⟨-, -, -, huint⟩ := capacity_ok hn hcap
  have hmono := @roleSize_mono role k n hk
  rintro rfl
  unfold bzipBody at h
  by_cases hcompress : compress = 1
  · have hlen : body.len ≤ uintMax := hbody ▸ Nat.le_trans hmono (huint hcompress)
    rw [if_pos hcompress] at h
    cases hz : bzipCompress B m.bzip body with
    | ok z => simp [hz, Except.map] at h
    | error status =>
        simp only [hz, Except.map, Except.error.injEq] at h
        exact bzipCompress_not_overflow hlen (by rw [hz, h])
  · rw [if_neg hcompress] at h
    exact absurd h (by simp)

theorem fits_sendData {B : Bz2} {Stream : List UInt8 → List UInt8 → Prop}
    (hB : B.Documented Stream) (hn : n < A.sizeBound)
    (hcap : calculateEncodedPacketCapacity A role compress n = .ok capacity)
    (hs : MadeWith s role compress n capacity) {payload : Span A} (hlen : payload.len ≤ n)
    (mic : Int16) (m : SendMemory) : Fits s (s.sendData B payload mic m) := by
  obtain ⟨hsum, -, hfield, -⟩ := capacity_ok hn hcap
  unfold Session.sendData
  split
  · exact .error (by simp)
  rw [if_neg (by rw [hs.maxPayloadSize]; omega), hs.role, hs.compress]
  split
  · next status hwav => exact .error (wavBody_not_overflow hcap hn hlen m hwav)
  next body hwav =>
    have hbody := wavBody_ok hwav
    split
    · next status hbzip => exact .error (bzipBody_not_overflow hcap hn hlen hbody m hbzip)
    next body' hbzip =>
      have hle := bzipBody_ok hB hcap hn hlen hbody hbzip
      apply Fits.withPending
      apply Fits.encodePacket
      · omega
      · rw [hs.encodeBuf, hsum]
        omega
      · rw [hs.maxPacketSize, hs.encodeBuf]

/-- A payload that is too long is refused before anything is encoded. -/
theorem sendData_of_too_long (B : Bz2) (hs : s.maxPayloadSize = n) {payload : Span A}
    (hlen : n < payload.len) (mic : Int16) (m : SendMemory) :
    s.sendData B payload mic m =
      (s, .error (if payload.bytes = none then .invalidArgument else .overflow)) := by
  have hmax : payload.len > s.maxPayloadSize := hs ▸ hlen
  rw [Session.sendData]
  by_cases hbytes : payload.bytes = none
  · rw [if_pos ⟨hbytes, Nat.zero_lt_of_lt hlen⟩, if_pos hbytes]
  · rw [if_neg (fun h => hbytes h.1), if_pos hmax, if_neg hbytes]

theorem relayRknnResult_of_too_long (hs : MadeWith s role compress n capacity) {payload : Span A}
    (hlen : n < payload.len) :
    s.relayRknnResult payload =
      (s, .error (if role = .stream then .overflow else .invalidArgument)) := by
  have hmax : payload.len > s.maxPayloadSize := hs.maxPayloadSize ▸ hlen
  rw [Session.relayRknnResult, hs.role]
  by_cases hrole : role = .stream
  · rw [if_neg (not_not.mpr hrole), if_pos hmax, if_pos hrole]
  · rw [if_pos hrole, if_neg hrole]

end Sends

/-- The capacity is always sufficient: no sum wraps, no send of a payload within
`max_payload_size` meets a limit, and a larger payload is refused before anything
is encoded. -/
theorem capacity_sufficient {B : Bz2} {Stream : List UInt8 → List UInt8 → Prop}
    (hB : B.Documented Stream) {role : Role} {compress : ℤ} {n capacity : ℕ} (hn : n < A.sizeBound)
    (hcap : calculateEncodedPacketCapacity A role compress n = .ok capacity) :
    (capacity = packetHeaderLen + bodySize role compress n ∧
        packetHeaderLen + bodySize role compress n < A.sizeBound) ∧
      ∀ s : Session A, MadeWith s role compress n capacity →
        (∀ payload : Span A, payload.len ≤ n →
          (∀ mic m, Fits s (s.sendData B payload mic m)) ∧ Fits s (s.relayRknnResult payload)) ∧
        (∀ malloc, Fits s (s.sendPirin malloc) ∧ Fits s (s.sendPirout malloc)) ∧
        ∀ payload : Span A, n < payload.len →
          -- a null payload, and a relay on a Voice session, are refused even earlier
          (∀ mic m, s.sendData B payload mic m =
            (s, .error (if payload.bytes = none then .invalidArgument else .overflow))) ∧
          s.relayRknnResult payload =
            (s, .error (if role = .stream then .overflow else .invalidArgument)) := by
  obtain ⟨hsum, hlt, -⟩ := capacity_ok hn hcap
  refine ⟨⟨hsum, hlt⟩, fun s hs => ⟨fun payload hlen => ⟨fun mic m => ?_, ?_⟩, ?_, ?_⟩⟩
  · exact fits_sendData hB hn hcap hs hlen mic m
  · exact fits_relay hn hcap hs hlen
  · intro malloc
    exact ⟨(fits_empty hn hcap hs _ _).withPending malloc,
      (fits_empty hn hcap hs _ _).withPending malloc⟩
  · intro payload hlen
    exact ⟨sendData_of_too_long B hs.maxPayloadSize hlen, relayRknnResult_of_too_long hs hlen⟩

/-- A Stream configuration with compression, for payloads of three bytes. -/
def threeConfig : SessionConfig .lp64 where
  compress := 1
  maxPayloadSize := 3
  deviceSerial := List.replicate 14 65
  serial_length := by decide
  maxPayloadSize_lt := by decide

def threeSession : Session .lp64 where
  role := .stream
  compress := 1
  maxPayloadSize := 3
  deviceSerial := List.replicate 14 65
  encodeBuf := List.replicate 629 0
  maxPacketSize := 629
  serial_length := by decide
  encodeBuf_lt := by
    rw [List.length_replicate]
    decide

theorem threeSession_created :
    sessionCreate .stream threeConfig (some (List.replicate 629 0)) = .ok threeSession := by
  have hcap : calculateEncodedPacketCapacity .lp64 .stream threeConfig.compress
      threeConfig.maxPayloadSize = .ok 629 := by decide
  have hblock : (List.replicate 629 (0 : UInt8)).length = 629 ∧
      629 ≤ (Arch.lp64.sizeBound - 1) / 2 :=
    ⟨List.length_replicate, by decide⟩
  rw [sessionCreate, hcap]
  exact dif_pos hblock

/-- The session for three bytes has room for 629, and sends them. -/
theorem capacity_sufficient_three :
    sessionCreate .stream threeConfig (some (List.replicate 629 0)) = .ok threeSession ∧
      Fits threeSession (threeSession.sendData storingCodec.library (blockOf [1, 2, 3]) 0
        ⟨true, .enough, true⟩) ∧
      ∃ packet, (threeSession.sendData storingCodec.library (blockOf [1, 2, 3]) 0
        ⟨true, .enough, true⟩).2 = .ok packet := by
  have hcap : calculateEncodedPacketCapacity .lp64 .stream 1 3 = .ok 629 := by decide
  have hs : MadeWith threeSession .stream 1 3 629 := ⟨rfl, rfl, rfl, List.length_replicate, rfl⟩
  have hlen : (blockOf [1, 2, 3] : Span .lp64).len ≤ 3 := by decide
  have hsent : (threeSession.sendData storingCodec.library (blockOf [1, 2, 3]) 0
      ⟨true, .enough, true⟩).2.toBool = true := by
    decide +kernel
  have hall := (capacity_sufficient storingCodec.library_documented (by decide) hcap).2 _ hs
  refine ⟨threeSession_created, (hall.1 _ hlen).1 0 _, ?_⟩
  cases hsend : (threeSession.sendData storingCodec.library (blockOf [1, 2, 3]) 0
      ⟨true, .enough, true⟩).2 with
  | error status =>
      rw [hsend] at hsent
      cases hsent
  | ok packet => exact ⟨packet, rfl⟩

end Savvy.Stream
