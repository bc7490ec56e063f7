import Savvy.Stream.Capacity

/-!
Data packets on the wire. Whatever a session hands to its channel decodes, on the
other side, to the start and the command of the session, its serial, the checksum
of the body, and a body from which the payload comes back: through
`sensor_bzip_decompress` behind the command `'Z'`, and behind the WAV header on a
Voice session.
-/

namespace Savvy.Stream

open Kit

variable {A : Arch} {B : Bz2} {role : Role} {config : SessionConfig A} {s : Session A}

/-! ### Sessions in use -/

/-- The sessions that `sensor_stream_session_create` makes, behind any sends. -/
inductive InUse (B : Bz2) (role : Role) (config : SessionConfig A) : Session A → Prop
  | create {buf : Option (List UInt8)} {s : Session A} (h : sessionCreate role config buf = .ok s) :
      InUse B role config s
  | sendData {s : Session A} (h : InUse B role config s) (payload : Span A) (mic : Int16)
      (m : SendMemory) : InUse B role config (s.sendData B payload mic m).1
  | sendPirin {s : Session A} (h : InUse B role config s) (malloc : Bool) :
      InUse B role config (s.sendPirin malloc).1
  | sendPirout {s : Session A} (h : InUse B role config s) (malloc : Bool) :
      InUse B role config (s.sendPirout malloc).1
  | relayRknnResult {s : Session A} (h : InUse B role config s) (payload : Span A) :
      InUse B role config (s.relayRknnResult payload).1

/-- A send changes nothing of a session but the bytes in its buffer. -/
structure SameSetup (s s' : Session A) : Prop where
  role : s'.role = s.role
  compress : s'.compress = s.compress
  maxPayloadSize : s'.maxPayloadSize = s.maxPayloadSize
  deviceSerial : s'.deviceSerial = s.deviceSerial
  maxPacketSize : s'.maxPacketSize = s.maxPacketSize

theorem SameSetup.refl (s : Session A) : SameSetup s s := ⟨rfl, rfl, rfl, rfl, rfl⟩

theorem sameSetup_encodePacket (s : Session A) (start command device config : UInt8)
    (body : Span A) : SameSetup s (s.encodePacket start command device config body).1 := by
  unfold Session.encodePacket
  dsimp only
  split
  · exact ⟨rfl, rfl, rfl, rfl, rfl⟩
  · exact .refl s

theorem SameSetup.withPending {r : Session A × Except Status (List UInt8)} (h : SameSetup s r.1)
    (malloc : Bool) : SameSetup s (Session.withPending r malloc).1 := by
  unfold Session.withPending
  split
  · exact h
  · split <;> exact h

theorem sameSetup_sendData (B : Bz2) (s : Session A) (payload : Span A) (mic : Int16)
    (m : SendMemory) : SameSetup s (s.sendData B payload mic m).1 := by
  unfold Session.sendData
  split
  · exact .refl s
  split
  · exact .refl s
  split
  · exact .refl s
  split
  · exact .refl s
  · exact (sameSetup_encodePacket _ _ _ _ _ _).withPending _

theorem sameSetup_relayRknnResult (s : Session A) (payload : Span A) :
    SameSetup s (s.relayRknnResult payload).1 := by
  unfold Session.relayRknnResult
  split
  · exact .refl s
  split
  · exact .refl s
  · exact sameSetup_encodePacket _ _ _ _ _ _

/-- What holds of a session in use: it has the values of its configuration, and a
buffer of the capacity that was calculated for them. -/
structure SetUp (role : Role) (config : SessionConfig A) (capacity : ℕ) (s : Session A) : Prop where
  madeWith : MadeWith s role config.compress config.maxPayloadSize capacity
  deviceSerial : s.deviceSerial = config.deviceSerial
  calculated :
    calculateEncodedPacketCapacity A role config.compress config.maxPayloadSize = .ok capacity
  capacity_le : capacity ≤ (A.sizeBound - 1) / 2

theorem SetUp.create {buf : Option (List UInt8)} (h : sessionCreate role config buf = .ok s) :
    ∃ capacity, SetUp role config capacity s := by
  unfold sessionCreate at h
  split at h
  · exact absurd h (by simp)
  next capacity hcap =>
    split at h
    · exact absurd h (by simp)
    next block =>
      split at h
      · next hblock =>
          cases h
          exact ⟨capacity, ⟨rfl, rfl, rfl, hblock.1, rfl⟩, rfl, hcap, hblock.2⟩
      · exact absurd h (by simp)

theorem SetUp.step {capacity : ℕ} {s' : Session A} (h : SetUp role config capacity s)
    (hsame : SameSetup s s') (hbuf : s'.encodeBuf.length = s.encodeBuf.length) :
    SetUp role config capacity s' where
  madeWith :=
    { role := hsame.role.trans h.madeWith.role
      compress := hsame.compress.trans h.madeWith.compress
      maxPayloadSize := hsame.maxPayloadSize.trans h.madeWith.maxPayloadSize
      encodeBuf := hbuf.trans h.madeWith.encodeBuf
      maxPacketSize := hsame.maxPacketSize.trans h.madeWith.maxPacketSize }
  deviceSerial := hsame.deviceSerial.trans h.deviceSerial
  calculated := h.calculated
  capacity_le := h.capacity_le

variable {Stream : List UInt8 → List UInt8 → Prop}

theorem InUse.setUp (hB : B.Documented Stream) (h : InUse B role config s) :
    ∃ capacity, SetUp role config capacity s := by
  have hn := config.maxPayloadSize_lt
  induction h with
  | create h => exact SetUp.create h
  | @sendData s _ payload mic m ih =>
      obtain ⟨capacity, hs⟩ := ih
      refine ⟨capacity, hs.step (sameSetup_sendData B s payload mic m) ?_⟩
      by_cases hlen : payload.len ≤ config.maxPayloadSize
      · exact (fits_sendData hB hn hs.calculated hs.madeWith hlen mic m).buffer
      · rw [sendData_of_too_long B hs.madeWith.maxPayloadSize (Nat.not_le.mp hlen)]
  | @sendPirin s _ malloc ih =>
      obtain ⟨capacity, hs⟩ := ih
      exact ⟨capacity, hs.step ((sameSetup_encodePacket _ _ _ _ _ _).withPending _)
        ((fits_empty hn hs.calculated hs.madeWith _ _).withPending malloc).buffer⟩
  | @sendPirout s _ malloc ih =>
      obtain ⟨capacity, hs⟩ := ih
      exact ⟨capacity, hs.step ((sameSetup_encodePacket _ _ _ _ _ _).withPending _)
        ((fits_empty hn hs.calculated hs.madeWith _ _).withPending malloc).buffer⟩
  | @relayRknnResult s _ payload ih =>
      obtain ⟨capacity, hs⟩ := ih
      refine ⟨capacity, hs.step (sameSetup_relayRknnResult s payload) ?_⟩
      by_cases hlen : payload.len ≤ config.maxPayloadSize
      · exact (fits_relay hn hs.calculated hs.madeWith hlen).buffer
      · rw [relayRknnResult_of_too_long hs.madeWith (Nat.not_le.mp hlen)]

/-! ### What is sent -/

/-- A send that reaches the channel has gone through every encoder. -/
theorem sendData_ok {payload : Span A} {mic : Int16} {m : SendMemory} {packet : List UInt8}
    (h : (s.sendData B payload mic m).2 = .ok packet) :
    (payload.bytes = none → payload.len = 0) ∧ payload.len ≤ s.maxPayloadSize ∧
      ∃ body body', wavBody s.role payload m = .ok body ∧
        bzipBody B s.compress body m = .ok body' ∧
        (s.encodePacket s.startByte s.dataCommand (s.micBytes mic).1 (s.micBytes mic).2 body').2 =
          .ok packet := by
  unfold Session.sendData at h
  split at h
  · exact absurd h (by simp)
  next hnull =>
    split at h
    · exact absurd h (by simp)
    next hlen =>
      split at h
      · exact absurd h (by simp)
      next body hwav =>
        split at h
        · exact absurd h (by simp)
        next body' hbzip =>
          refine ⟨fun hnone => ?_, Nat.not_lt.mp hlen, body, body', hwav, hbzip, ?_⟩
          · by_contra hne
            exact hnull ⟨hnone, Nat.pos_of_ne_zero hne⟩
          · unfold Session.withPending at h
            split at h
            · exact h
            · next packet' hpacket =>
                split at h
                · exact h
                · exact absurd h (by simp)

/-- The body of a packet before compression: the payload, or a WAV file of it. -/
def IsPlain (role : Role) (payload : Span A) (plain : List UInt8) : Prop :=
  match role with
  | .stream => plain = payload.content
  | .voice =>
      plain.length = wavHeaderLen + payload.len ∧ plain.drop wavHeaderLen = payload.content ∧
        (fieldLE32 plain 4).toNat = plain.length - 8 ∧ (fieldLE32 plain 40).toNat = payload.len

theorem wavBody_plain {payload body : Span A} {m : SendMemory}
    (hnull : payload.bytes = none → payload.len = 0) (h : wavBody role payload m = .ok body) :
    IsPlain role payload body.content ∧ (body.bytes = none → body.len = 0) := by
  cases role with
  | stream =>
      cases h
      exact ⟨rfl, hnull⟩
  | voice =>
      simp only [wavBody] at h
      cases hwav : wavWrap payload m.wav with
      | error status => simp [hwav, Except.map] at h
      | ok wav =>
          obtain ⟨rfl, hcontent, hfield, hlt⟩ := wavWrap_ok hwav
          obtain ⟨hriff, hdata⟩ := wavHeader_sizes (UInt32.ofNat payload.len) payload.content
          have hlen : (wavHeader (UInt32.ofNat payload.len) ++ payload.content).length =
              wavHeaderLen + payload.len := by
            rw [List.length_append, length_wavHeader, hcontent]
          have hword : (UInt32.ofNat payload.len).toNat = payload.len := by
            rw [UInt32.toNat_ofNat']
            exact Nat.mod_eq_of_lt (by omega)
          simp only [hwav, Except.map] at h
          cases h
          rw [content_blockOf (by rw [hlen]; omega), Span.content_block]
          refine ⟨⟨hlen, ?_, ?_, ?_⟩, by simp⟩
          · exact List.drop_left' (length_wavHeader _)
          · rw [hriff, hlen, UInt32.toNat_add, hword]
            change (36 + payload.len) % 2 ^ 32 = _
            unfold wavHeaderLen
            omega
          · rw [hdata, hword]

/-- What the receiver makes of a body. -/
def Unpacked (A : Arch) (B : Bz2) (compressed : Prop) [Decidable compressed]
    (body plain : List UInt8) : Prop :=
  if compressed then bzipDecompress B .enough (blockOf body : Span A) = .ok plain
  else plain = body

theorem bzipBody_unpacked {compress : ℤ} {n capacity k : ℕ} (hB : B.Documented Stream)
    (hcap : calculateEncodedPacketCapacity A role compress n = .ok capacity) (hn : n < A.sizeBound)
    (hhalf : capacity ≤ (A.sizeBound - 1) / 2) (hk : k ≤ n) {body body' : Span A}
    (hnull : body.bytes = none → body.len = 0) (hbody : body.len = roleSize role k)
    {m : SendMemory} (h : bzipBody B compress body m = .ok body') :
    Unpacked A B (compress = 1) body'.content body.content ∧
      (body'.bytes = none → body'.len = 0) := by
  obtain ⟨hsum, hlt, hfield, huint⟩ := capacity_ok hn hcap
  unfold bzipBody at h
  unfold Unpacked
  by_cases hcompress : compress = 1
  · subst hcompress
    rw [if_pos rfl] at h ⊢
    cases hz : bzipCompress B m.bzip body with
    | error status => simp [hz, Except.map] at h
    | ok z =>
        obtain ⟨hstream, hcontent, hlen⟩ := bzipCompress_ok hB hz
        have hle := length_bzipCompress_le hB hk hbody hz
        have hplain : body.content.length ≤ bodySize role 1 n := by
          have hmono := @roleSize_mono role k n hk
          rw [hcontent, hbody, bodySize, if_pos rfl]
          omega
        have hblock : z.length < A.sizeBound := by omega
        simp only [hz, Except.map] at h
        cases h
        rw [content_blockOf hblock, Span.content_block, content_blockOf hblock]
        refine ⟨?_, by simp⟩
        apply bzipDecompress_ok hB
        · exact hstream
        · simp
        · rw [Span.len_block]
          exact Nat.le_trans hle hfield
        · rw [hcontent]
          exact hlen
        · omega
  · rw [if_neg hcompress] at h ⊢
    cases h
    exact ⟨rfl, hnull⟩

theorem micBytes_join (mic : Int16) :
    Int16.ofNat ((mic.toUInt16 >>> 8).toUInt8.toNat * 256 + (mic.toUInt16 &&& 0xFF).toUInt8.toNat) =
      mic := by
  have hlt := mic.toUInt16.toNat_lt
  have hand : mic.toUInt16.toNat &&& 255 = mic.toUInt16.toNat % 256 :=
    Nat.and_two_pow_sub_one_eq_mod _ 8
  have hhigh : (mic.toUInt16 >>> 8).toUInt8.toNat = mic.toUInt16.toNat / 256 := by
    simp only [UInt16.toNat_toUInt8, UInt16.toNat_shiftRight, Nat.shiftRight_eq_div_pow]
    change mic.toUInt16.toNat / 256 % 256 = _
    omega
  have hlow : (mic.toUInt16 &&& 0xFF).toUInt8.toNat = mic.toUInt16.toNat % 256 := by
    simp only [UInt16.toNat_toUInt8, UInt16.toNat_and]
    change (mic.toUInt16.toNat &&& 255) % 256 = _
    omega
  have hsum : mic.toUInt16.toNat / 256 * 256 + mic.toUInt16.toNat % 256 = mic.toUInt16.toNat := by
    omega
  rw [hhigh, hlow, hsum, ← UInt16.toInt16_ofNat', UInt16.ofNat_toNat, Int16.toInt16_toUInt16]

/-! ### What is received -/

/-- Data packets survive the wire. -/
theorem sendData_round_trip (hB : B.Documented Stream) (hs : InUse B role config s)
    {payload : Span A} {mic : Int16} {m : SendMemory} {packet : List UInt8}
    (h : (s.sendData B payload mic m).2 = .ok packet) :
    ∃ (header : PacketHeader) (off len : ℕ) (plain : List UInt8),
      packetDecode A packet = .ok (header, off, len) ∧
      header.start = (if role = .stream then 83 else 86) ∧
      header.command = (if config.compress = 1 then 90 else if role = .stream then 83 else 86) ∧
      header.serial = config.deviceSerial ∧
      header.crc32 = crc32 (slice packet off (off + len)) ∧
      Unpacked A B (header.command = 90) (slice packet off (off + len)) plain ∧
      IsPlain role payload plain ∧
      match role with
      | .stream => header.device = 0 ∧ header.config = 0
      | .voice => Int16.ofNat (header.device.toNat * 256 + header.config.toNat) = mic := by
  obtain ⟨capacity, hs⟩ := hs.setUp hB
  obtain ⟨hsum, hlt, hfield, -⟩ := capacity_ok config.maxPayloadSize_lt hs.calculated
  obtain ⟨hnull, hlen, body, body', hwav, hbzip, hpacket⟩ := sendData_ok h
  rw [hs.madeWith.role] at hwav
  rw [hs.madeWith.compress] at hbzip
  rw [hs.madeWith.maxPayloadSize] at hlen
  have hbody := wavBody_ok hwav
  obtain ⟨hplain, hbodyNull⟩ := wavBody_plain hnull hwav
  obtain ⟨hunpacked, hnull'⟩ := bzipBody_unpacked hB hs.calculated config.maxPayloadSize_lt
    hs.capacity_le hlen hbodyNull hbody hbzip
  have hle := bzipBody_ok hB hs.calculated config.maxPayloadSize_lt hlen hbody hbzip
  -- the encoder finds room, and what it writes decodes
  have hsize : body'.content.length = body'.len := Span.length_content hnull'
  have hroom : packetHeaderLen + body'.len ≤ s.encodeBuf.length := by
    rw [hs.madeWith.encodeBuf, hsum]
    omega
  rw [(encodePacket_of_fits _ _ _ _ hnull' (by omega) hroom).1] at hpacket
  cases hpacket
  have hbound : (packetBytes s.startByte s.dataCommand (s.micBytes mic).1 (s.micBytes mic).2
      s.deviceSerial body'.content ++ []).length < A.sizeBound := by
    rw [List.append_nil, length_packetBytes s.serial_length, hsize]
    omega
  obtain ⟨hdecode, hslice⟩ :=
    packetDecode_packetBytes s.serial_length (by omega) hbound
  rw [List.append_nil] at hdecode hslice
  refine ⟨_, _, _, body.content, hdecode, ?_, ?_, hs.deviceSerial, ?_, ?_, hplain, ?_⟩
  · simp only [Session.startByte, hs.madeWith.role]
    cases role <;> rfl
  · simp only [Session.dataCommand, hs.madeWith.role, hs.madeWith.compress]
    cases role <;> rfl
  · rw [hslice]
  · rw [hslice]
    have hcommand : s.dataCommand = 90 ↔ config.compress = 1 := by
      simp only [Session.dataCommand, hs.madeWith.role, hs.madeWith.compress]
      cases role <;> simp
    simpa only [Unpacked, hcommand] using hunpacked
  · simp only [Session.micBytes, hs.madeWith.role]
    cases role with
    | stream => exact ⟨rfl, rfl⟩
    | voice => exact micBytes_join mic

/-- Three bytes, sent by a session for three bytes. -/
theorem sendData_round_trip_three :
    (threeSession.sendData storingCodec.library (blockOf [1, 2, 3]) 0
        ⟨true, .enough, true⟩).2 =
        .ok (packetBytes 83 90 0 0 (List.replicate 14 65) bzipOfThree) ∧
      ∃ header off len plain,
        packetDecode .lp64 (packetBytes 83 90 0 0 (List.replicate 14 65) bzipOfThree) =
          .ok (header, off, len) ∧
        header.command = 90 ∧
        bzipDecompress storingCodec.library .enough
          (blockOf (slice (packetBytes 83 90 0 0 (List.replicate 14 65) bzipOfThree) off
            (off + len)) : Span .lp64) = .ok plain ∧
        plain = [1, 2, 3] := by
  have hsend : (threeSession.sendData storingCodec.library (blockOf [1, 2, 3]) 0
      ⟨true, .enough, true⟩).2 =
      .ok (packetBytes 83 90 0 0 (List.replicate 14 65) bzipOfThree) := by
    decide +kernel
  refine ⟨hsend, ?_⟩
  obtain ⟨header, off, len, plain, hdecode, -, hcommand, -, -, hunpacked, hplain, -⟩ :=
    sendData_round_trip storingCodec.library_documented (.create threeSession_created) hsend
  have hz : header.command = 90 := hcommand
  rw [Unpacked, if_pos hz] at hunpacked
  refine ⟨header, off, len, plain, hdecode, hz, hunpacked, ?_⟩
  exact hplain

end Savvy.Stream
