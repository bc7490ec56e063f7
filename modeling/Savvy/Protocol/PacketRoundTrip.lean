import Savvy.Protocol.PacketCodec

/-!
Encoding and decoding a packet are inverse to each other. `packetBytes` is the
packet as one byte string; the stores of the encoder leave exactly that string
at the front of the output block, and its header reads back field by field.
-/

namespace Savvy

open Kit

def packetBytes (start command device config : UInt8) (serial data : List UInt8) : List UInt8 :=
  [start, command, device, config] ++ writeBE32 (UInt32.ofNat data.length) ++ serial ++
    writeBE32 (crc32 data) ++ data

@[simp] theorem length_writeBE32 (v : UInt32) : (writeBE32 v).length = 4 := rfl

theorem length_packetBytes {start command device config : UInt8} {serial data : List UInt8}
    (hserial : serial.length = packetSerialLen) :
    (packetBytes start command device config serial data).length =
      packetHeaderLen + data.length := by
  simp only [packetBytes, List.length_append, List.length_cons, List.length_nil,
    length_writeBE32, hserial, packetSerialLen, packetHeaderLen]

/-! ### What the encoder writes -/

/-- The stores fill the front of the block one after the other. -/
theorem packetStores_eq {start command device config : UInt8} {serial data buf : List UInt8}
    (hserial : serial.length = packetSerialLen) :
    packetStores start command device config serial data buf =
      packetBytes start command device config serial data ++
        buf.drop (packetHeaderLen + data.length) := by
  have htake : serial.take packetSerialLen = serial := List.take_of_length_le hserial.le
  have hstart : write buf 0 [start, command, device, config] =
      [start, command, device, config] ++ buf.drop 4 := by
    simp [write]
  simp only [packetStores, htake, hstart]
  rw [write_append (by simp), write_append (by simp),
    write_append (by simp [hserial, packetSerialLen])]
  simp only [List.drop_drop, length_writeBE32, hserial]
  split
  · rw [write_append (by simp [hserial, packetSerialLen, packetHeaderLen]), List.drop_drop]
    rfl
  · have hnil : data = [] := List.length_eq_zero_iff.mp (by omega)
    subst hnil
    simp only [packetBytes, List.append_nil]
    rfl

theorem packetEncode_spec {A : Arch} (start command device config : UInt8)
    (serial data out : Span A) (outWritten : Option ℕ) :
    ((packetEncode start command device config serial data out outWritten).status = .ok ↔
        (serial.bytes ≠ none ∧ (data.bytes = none → data.len = 0) ∧ out.bytes ≠ none ∧
            outWritten ≠ none) ∧
          serial.len = packetSerialLen ∧ data.len ≤ 2 ^ 32 - 1 ∧
          packetHeaderLen + data.len ≤ A.sizeBound - 1 ∧
          packetHeaderLen + data.len ≤ out.len) ∧
      ((packetEncode start command device config serial data out outWritten).status = .ok →
        packetEncode start command device config serial data out outWritten =
          ⟨.ok, some (packetBytes start command device config serial.content data.content ++
              out.content.drop (packetHeaderLen + data.len)),
            some (packetHeaderLen + data.len)⟩) ∧
      ((packetEncode start command device config serial data out outWritten).status ≠ .ok →
        (packetEncode start command device config serial data out outWritten).out = out.bytes ∧
        (packetEncode start command device config serial data out outWritten).outWritten =
          outWritten) := by
  have hbound := A.two_pow_32_le_sizeBound
  have hsub : A.sub (A.sizeBound - 1) packetHeaderLen = A.sizeBound - 1 - packetHeaderLen :=
    A.sub_max (by decide)
  unfold packetEncode
  by_cases h1 : serial.bytes = none ∨ serial.len ≠ packetSerialLen
  · rw [if_pos h1]
    refine ⟨⟨nofun, fun h => ?_⟩, nofun, fun _ => ⟨rfl, rfl⟩⟩
    exact absurd h1 (not_or.mpr ⟨h.1.1, not_not.mpr h.2.1⟩)
  rw [if_neg h1]
  by_cases h2 : data.bytes = none ∧ data.len ≠ 0
  · rw [if_pos h2]
    refine ⟨⟨nofun, fun h => ?_⟩, nofun, fun _ => ⟨rfl, rfl⟩⟩
    exact absurd (h.1.2.1 h2.1) h2.2
  rw [if_neg h2]
  by_cases h3 : out.bytes = none ∨ outWritten = none
  · rw [if_pos h3]
    refine ⟨⟨nofun, fun h => ?_⟩, nofun, fun _ => ⟨rfl, rfl⟩⟩
    exact absurd h3 (not_or.mpr ⟨h.1.2.2.1, h.1.2.2.2⟩)
  rw [if_neg h3]
  by_cases h4 : data.len > 2 ^ 32 - 1
  · rw [if_pos h4]
    refine ⟨⟨nofun, fun h => ?_⟩, nofun, fun _ => ⟨rfl, rfl⟩⟩
    exact absurd h4 (not_lt.mpr h.2.2.1)
  rw [if_neg h4, hsub]
  by_cases h5 : data.len > A.sizeBound - 1 - packetHeaderLen
  · rw [if_pos h5]
    refine ⟨⟨nofun, fun h => ?_⟩, nofun, fun _ => ⟨rfl, rfl⟩⟩
    have := h.2.2.2.1
    omega
  have hadd : A.add packetHeaderLen data.len = packetHeaderLen + data.len := by
    apply A.add_of_lt
    unfold packetHeaderLen at h5 ⊢
    omega
  rw [if_neg h5, hadd]
  by_cases h6 : out.len < packetHeaderLen + data.len
  · rw [if_pos h6]
    refine ⟨⟨nofun, fun h => ?_⟩, nofun, fun _ => ⟨rfl, rfl⟩⟩
    exact absurd h6 (not_lt.mpr h.2.2.2.2)
  rw [if_neg h6]
  rw [not_or] at h1 h3
  have hdata : data.bytes = none → data.len = 0 := by
    intro hnull
    by_contra hne
    exact h2 ⟨hnull, hne⟩
  refine ⟨⟨fun _ => ?_, fun _ => rfl⟩, fun _ => ?_, fun h => absurd rfl h⟩
  · refine ⟨⟨h1.1, hdata, h3.1, h3.2⟩, not_not.mp h1.2, not_lt.mp h4, ?_, not_lt.mp h6⟩
    unfold packetHeaderLen at h5 ⊢
    omega
  · obtain ⟨buf, hbuf⟩ := Option.ne_none_iff_exists'.mp h3.1
    have hserial : serial.content.length = packetSerialLen := by
      rw [Span.length_content fun hnone => absurd hnone h1.1]
      exact not_not.mp h1.2
    have hcontent : out.content = buf := by simp [Span.content, hbuf]
    rw [hbuf, hcontent, Option.map_some, packetStores_eq hserial, Span.length_content hdata]

/-! ### Reading a packet back -/

theorem fieldBE32_writeBE32 {before after : List UInt8} {i : ℕ} (v : UInt32)
    (hi : before.length = i) : fieldBE32 (before ++ writeBE32 v ++ after) i = v := by
  have hbyte : ∀ k b, (writeBE32 v ++ after)[k]? = some b →
      byteAt (before ++ writeBE32 v ++ after) (i + k) = b := by
    intro k b hk
    rw [byteAt, List.getD_eq_getElem?_getD, List.append_assoc, ← hi,
      List.getElem?_append_right (by omega), Nat.add_sub_cancel_left, hk]
    rfl
  rw [fieldBE32, hbyte 1 _ rfl, hbyte 2 _ rfl, hbyte 3 _ rfl]
  have h0 := hbyte 0 _ rfl
  rw [Nat.add_zero] at h0
  rw [h0]
  exact join32_octet v

theorem readHeader_packetBytes {start command device config : UInt8} {serial data t : List UInt8}
    (hserial : serial.length = packetSerialLen) :
    readHeader (packetBytes start command device config serial data ++ t) =
      ⟨start, command, device, config, UInt32.ofNat data.length, serial, crc32 data⟩ := by
  have hlength : fieldBE32 (packetBytes start command device config serial data ++ t) 4 =
      UInt32.ofNat data.length := by
    simp only [packetBytes, List.append_assoc]
    rw [← List.append_assoc]
    exact fieldBE32_writeBE32 _ rfl
  have hcrc : fieldBE32 (packetBytes start command device config serial data ++ t) 22 =
      crc32 data := by
    have hbefore : ([start, command, device, config] ++ writeBE32 (UInt32.ofNat data.length) ++
        serial).length = 22 := by
      simp [hserial, packetSerialLen]
    rw [packetBytes, List.append_assoc]
    exact fieldBE32_writeBE32 _ hbefore
  have hserialField :
      ((packetBytes start command device config serial data ++ t).drop 8).take packetSerialLen =
        serial := by
    have hdrop : (packetBytes start command device config serial data ++ t).drop 8 =
        serial ++ (writeBE32 (crc32 data) ++ data ++ t) := by
      simp only [packetBytes, List.append_assoc]
      rw [← List.append_assoc]
      exact List.drop_left' rfl
    rw [hdrop, ← hserial]
    exact List.take_left' rfl
  rw [readHeader, hlength, hcrc, hserialField]
  rfl

theorem packetDecode_packetBytes {A : Arch} {start command device config : UInt8}
    {serial data t : List UInt8} (hserial : serial.length = packetSerialLen)
    (hdata : data.length ≤ 2 ^ 32 - 1)
    (hlen : (packetBytes start command device config serial data ++ t).length < A.sizeBound) :
    packetDecode A (packetBytes start command device config serial data ++ t) =
        .ok (⟨start, command, device, config, UInt32.ofNat data.length, serial, crc32 data⟩,
          packetHeaderLen, data.length) ∧
      slice (packetBytes start command device config serial data ++ t) packetHeaderLen
        (packetHeaderLen + data.length) = data := by
  have hwidth : (UInt32.ofNat data.length).toNat = data.length := by
    rw [UInt32.toNat_ofNat']
    exact Nat.mod_eq_of_lt (by omega)
  have hpacket : (packetBytes start command device config serial data).length =
      packetHeaderLen + data.length := length_packetBytes hserial
  constructor
  · have hread : readHeader (packetBytes start command device config serial data ++ t) =
        ⟨start, command, device, config, UInt32.ofNat data.length, serial, crc32 data⟩ :=
      readHeader_packetBytes hserial
    rw [packetDecode_of_le hlen, hread, hwidth]
    rw [hread, hwidth, List.length_append, hpacket]
    omega
  · rw [slice, ← hpacket, List.take_left' rfl, packetBytes]
    exact List.drop_left' (by simp [hserial, packetSerialLen, packetHeaderLen])

/-! ### Writing a decoded packet again -/

theorem packetDecode_eq_ok {A : Arch} {bytes : List UInt8} {header : PacketHeader} {off len : ℕ}
    (hA : bytes.length < A.sizeBound) (h : packetDecode A bytes = .ok (header, off, len)) :
    header = readHeader bytes ∧ off = packetHeaderLen ∧ len = (readHeader bytes).length.toNat ∧
      packetHeaderLen + len ≤ bytes.length := by
  simp only [packetDecode] at h
  split at h
  · simp at h
  · rename_i hlen
    rw [A.sub_of_le (by omega) hA] at h
    split at h
    · simp at h
    · simp only [Except.ok.injEq, Prod.mk.injEq] at h
      obtain ⟨rfl, rfl, rfl⟩ := h
      exact ⟨rfl, rfl, rfl, by omega⟩

/-- Decoding succeeds exactly on the strings that hold the header and the data
it announces. -/
theorem packetDecode_isOk_iff {A : Arch} {bytes : List UInt8} (hA : bytes.length < A.sizeBound) :
    (∃ r, packetDecode A bytes = .ok r) ↔
      packetHeaderLen + (readHeader bytes).length.toNat ≤ bytes.length := by
  constructor
  · rintro ⟨⟨header, off, len⟩, h⟩
    obtain ⟨-, -, rfl, hle⟩ := packetDecode_eq_ok hA h
    exact hle
  · intro h
    exact ⟨_, packetDecode_of_le hA h⟩

/-- The bytes at offset `i` as the field read there writes them again. -/
theorem writeBE32_fieldBE32 {bytes : List UInt8} {i : ℕ} (h : i + 4 ≤ bytes.length) :
    writeBE32 (fieldBE32 bytes i) = slice bytes i (i + 4) := by
  obtain ⟨h0, h1, h2, h3⟩ := octet_join32 (byteAt bytes i) (byteAt bytes (i + 1))
    (byteAt bytes (i + 2)) (byteAt bytes (i + 3))
  change [octet (join32 _ _ _ _) 24, octet (join32 _ _ _ _) 16, octet (join32 _ _ _ _) 8,
    octet (join32 _ _ _ _) 0] = _
  rw [h0, h1, h2, h3]
  exact (slice_four 0 h).symm

/-- The header fields, written in their order, are the bytes they were read from. -/
theorem headerBytes_readHeader {bytes : List UInt8} (h : packetHeaderLen ≤ bytes.length) :
    [(readHeader bytes).start, (readHeader bytes).command, (readHeader bytes).device,
        (readHeader bytes).config] ++ writeBE32 (readHeader bytes).length ++
      (readHeader bytes).serial ++ writeBE32 (readHeader bytes).crc32 =
      bytes.take packetHeaderLen := by
  unfold packetHeaderLen at h ⊢
  have hfirst : [(readHeader bytes).start, (readHeader bytes).command, (readHeader bytes).device,
      (readHeader bytes).config] = slice bytes 0 4 :=
    (slice_four 0 (by omega)).symm
  have hlength : writeBE32 (readHeader bytes).length = slice bytes 4 8 :=
    writeBE32_fieldBE32 (by omega)
  have hserial : (readHeader bytes).serial = slice bytes 8 22 := by
    rw [slice, List.drop_take]
    rfl
  have hcrc : writeBE32 (readHeader bytes).crc32 = slice bytes 22 26 :=
    writeBE32_fieldBE32 (by omega)
  rw [hfirst, hlength, hserial, hcrc, slice_append_slice (by omega) (by omega) (by omega),
    slice_append_slice (by omega) (by omega) (by omega),
    slice_append_slice (by omega) (by omega) h]
  rfl

/-- The front of a decoded string is the packet with the decoded fields. -/
theorem packetBytes_readHeader {bytes : List UInt8} {len : ℕ}
    (hlen : len = (readHeader bytes).length.toNat) (hle : packetHeaderLen + len ≤ bytes.length)
    (hcrc : (readHeader bytes).crc32 =
      crc32 (slice bytes packetHeaderLen (packetHeaderLen + len))) :
    packetBytes (readHeader bytes).start (readHeader bytes).command (readHeader bytes).device
        (readHeader bytes).config (readHeader bytes).serial
        (slice bytes packetHeaderLen (packetHeaderLen + len)) =
      bytes.take (packetHeaderLen + len) := by
  have hdata : UInt32.ofNat (slice bytes packetHeaderLen (packetHeaderLen + len)).length =
      (readHeader bytes).length := by
    rw [length_slice hle, Nat.add_sub_cancel_left, hlen, UInt32.ofNat_toNat]
  rw [packetBytes, hdata, ← hcrc, headerBytes_readHeader (by omega)]
  exact slice_append_slice (Nat.zero_le _) (Nat.le_add_right _ _) hle

theorem length_slice_lt {A : Arch} {bytes : List UInt8} (hA : bytes.length < A.sizeBound)
    (off len : ℕ) : (slice bytes off (off + len)).length < A.sizeBound := by
  refine lt_of_le_of_lt ?_ hA
  simp only [slice, List.length_drop, List.length_take]
  omega

def decodedData {A : Arch} (bytes : List UInt8) (hA : bytes.length < A.sizeBound) (off len : ℕ) :
    Span A :=
  .block (slice bytes off (off + len)) (length_slice_lt hA off len)

def decodedSerial {A : Arch} (header : PacketHeader) (h : header.serial.length = packetSerialLen) :
    Span A :=
  .block header.serial (by
    have hbound := A.two_pow_32_le_sizeBound
    rw [h, packetSerialLen]
    omega)

theorem length_readHeader_serial {bytes : List UInt8} (h : packetHeaderLen ≤ bytes.length) :
    (readHeader bytes).serial.length = packetSerialLen := by
  unfold packetHeaderLen at h
  simp only [readHeader, packetSerialLen, List.length_take, List.length_drop]
  omega

/-- Packets survive the wire in both directions, on every target. -/
theorem packet_codec_round_trip (A : Arch) :
    -- encoding: when it succeeds, what it writes, and that this decodes
    (∀ (start command device config : UInt8) (serial data out : Span A) (outWritten : Option ℕ),
      let r := packetEncode start command device config serial data out outWritten
      (r.status = .ok ↔
        (serial.bytes ≠ none ∧ (data.bytes = none → data.len = 0) ∧ out.bytes ≠ none ∧
            outWritten ≠ none) ∧
          serial.len = 14 ∧ data.len ≤ 2 ^ 32 - 1 ∧ 26 + data.len ≤ A.sizeBound - 1 ∧
          26 + data.len ≤ out.len) ∧
      (r.status = .ok → ∃ written : List UInt8, written.length = 26 + data.len ∧
        r.out = some (written ++ out.content.drop (26 + data.len)) ∧
        r.outWritten = some (26 + data.len) ∧
        ∀ t : List UInt8, (written ++ t).length < A.sizeBound →
          packetDecode A (written ++ t) =
            .ok (⟨start, command, device, config, UInt32.ofNat data.len, serial.content,
              crc32 data.content⟩, 26, data.len) ∧
          (UInt32.ofNat data.len).toNat = data.len ∧
          slice (written ++ t) 26 (26 + data.len) = data.content) ∧
      (r.status ≠ .ok → r.out = out.bytes ∧ r.outWritten = outWritten)) ∧
    -- decoding: when it succeeds, and that the fields encode to the same bytes
    (∀ (bytes : List UInt8) (hA : bytes.length < A.sizeBound),
      ((∃ r, packetDecode A bytes = .ok r) ↔
        26 + (readHeader bytes).length.toNat ≤ bytes.length) ∧
      ∀ (header : PacketHeader) (off len : ℕ), packetDecode A bytes = .ok (header, off, len) →
        len = header.length.toNat ∧
        (header.crc32 = crc32 (slice bytes off (off + len)) →
          ∃ hserial : header.serial.length = packetSerialLen,
            ∀ (out : Span A) (outWritten : Option ℕ), out.bytes ≠ none → outWritten ≠ none →
              26 + len ≤ out.len →
              packetEncode header.start header.command header.device header.config
                  (decodedSerial header hserial) (decodedData bytes hA off len) out outWritten =
                ⟨.ok, some (bytes.take (26 + len) ++ out.content.drop (26 + len)),
                  some (26 + len)⟩)) := by
  refine ⟨fun start command device config serial data out outWritten => ?_, fun bytes hA => ?_⟩
  · obtain ⟨hiff, hok, hfail⟩ :=
      packetEncode_spec start command device config serial data out outWritten
    refine ⟨hiff, fun h => ?_, hfail⟩
    obtain ⟨⟨hserialPtr, hdataPtr, -, -⟩, hserialLen, hdataLen, -, -⟩ := hiff.mp h
    have hserial : serial.content.length = packetSerialLen := by
      rw [Span.length_content fun hnone => absurd hnone hserialPtr]
      exact hserialLen
    have hdata : data.content.length = data.len := Span.length_content hdataPtr
    refine ⟨packetBytes start command device config serial.content data.content, ?_, ?_, ?_,
      fun t ht => ?_⟩
    · rw [length_packetBytes hserial, hdata]
      rfl
    · rw [hok h]
      rfl
    · rw [hok h]
      rfl
    · obtain ⟨hdec, hbody⟩ := packetDecode_packetBytes hserial (hdata.trans_le hdataLen) ht
      rw [hdata] at hdec hbody
      refine ⟨hdec, ?_, hbody⟩
      rw [UInt32.toNat_ofNat']
      exact Nat.mod_eq_of_lt (by omega)
  · refine ⟨packetDecode_isOk_iff hA, fun header off len hdec => ?_⟩
    obtain ⟨rfl, rfl, rfl, hle⟩ := packetDecode_eq_ok hA hdec
    refine ⟨rfl, fun hcrc => ?_⟩
    have hserial := length_readHeader_serial (le_trans (Nat.le_add_right _ _) hle)
    refine ⟨hserial, fun out outWritten hout hwritten hroom => ?_⟩
    have hdataLen : (slice bytes packetHeaderLen
        (packetHeaderLen + (readHeader bytes).length.toNat)).length =
          (readHeader bytes).length.toNat := by
      rw [length_slice hle]
      omega
    obtain ⟨hiff, hok, -⟩ := packetEncode_spec (readHeader bytes).start (readHeader bytes).command
      (readHeader bytes).device (readHeader bytes).config (decodedSerial (readHeader bytes) hserial)
      (decodedData bytes hA packetHeaderLen (readHeader bytes).length.toNat) out outWritten
    have hlenSpan : (decodedData bytes hA packetHeaderLen
        (readHeader bytes).length.toNat).len = (readHeader bytes).length.toNat := hdataLen
    have hstatus := hiff.mpr (by
      rw [hlenSpan]
      have hlt := (readHeader bytes).length.toNat_lt
      refine ⟨⟨nofun, nofun, hout, hwritten⟩, hserial, by omega, by omega, hroom⟩)
    rw [hok hstatus, hlenSpan]
    change EncodeResult.mk _ (some (packetBytes _ _ _ _ (readHeader bytes).serial
      (slice bytes packetHeaderLen (packetHeaderLen + (readHeader bytes).length.toNat)) ++ _)) _ = _
    rw [packetBytes_readHeader rfl hle hcrc]
    rfl

def block64 (bs : List UInt8) (h : bs.length < 2 ^ 64) : Span .lp64 := .block bs h

/-- A three-byte packet with one byte behind it, there and back. -/
theorem packet_codec_round_trip_three :
    (packetEncode 83 73 0 0 (block64 (List.replicate 14 49) (by decide))
        (block64 [1, 2, 3] (by decide)) (block64 (List.replicate 40 0) (by decide)) (some 0)).status
        = .ok ∧
      ∃ written : List UInt8, written.length = 29 ∧
        packetDecode .lp64 (written ++ [7]) =
          .ok (⟨83, 73, 0, 0, 3, List.replicate 14 49, crc32 [1, 2, 3]⟩, 26, 3) ∧
        ∃ hserial : (List.replicate 14 (49 : UInt8)).length = packetSerialLen,
        ∃ hA : (written ++ [7]).length < Arch.lp64.sizeBound,
          (packetEncode 83 73 0 0
              (decodedSerial ⟨83, 73, 0, 0, 3, List.replicate 14 49, crc32 [1, 2, 3]⟩ hserial)
              (decodedData (written ++ [7]) hA 26 3)
              (block64 (List.replicate 29 0) (by decide)) (some 0)).out =
            some ((written ++ [7]).take 29) := by
  obtain ⟨hencode, hdecode⟩ := packet_codec_round_trip .lp64
  obtain ⟨-, hok, -⟩ := hencode 83 73 0 0 (block64 (List.replicate 14 49) (by decide))
    (block64 [1, 2, 3] (by decide)) (block64 (List.replicate 40 0) (by decide)) (some 0)
  have hstatus : (packetEncode 83 73 0 0 (block64 (List.replicate 14 49) (by decide))
      (block64 [1, 2, 3] (by decide)) (block64 (List.replicate 40 0) (by decide)) (some 0)).status
      = .ok := by
    decide +kernel
  obtain ⟨written, hlen, -, -, hback⟩ := hok hstatus
  have hA : (written ++ [7]).length < Arch.lp64.sizeBound := by
    rw [List.length_append, hlen]
    decide
  obtain ⟨hdec, -, hbody⟩ := hback [7] hA
  obtain ⟨-, hagain⟩ := (hdecode (written ++ [7]) hA).2 _ _ _ hdec
  obtain ⟨hserial, hencodeAgain⟩ := hagain (by rw [hbody])
  refine ⟨hstatus, written, hlen, hdec, hserial, hA, ?_⟩
  have hout := hencodeAgain (block64 (List.replicate 29 0) (by decide)) (some 0) nofun nofun
    (by decide)
  refine (congrArg EncodeResult.out hout).trans (congrArg some ?_)
  exact List.append_nil _

end Savvy
