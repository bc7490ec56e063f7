import Savvy.Core.Status
import Savvy.Core.SizeT
import Savvy.Kit.Buffer
import Savvy.Kit.Words

/-!
The packet codec (`src/protocol/packet/packet_codec.c`): a fixed 26-byte
header followed by `Length` data bytes, with the CRC-32 of the data in the
header.
-/

namespace Savvy

def packetHeaderLen : ℕ := 26

def packetSerialLen : ℕ := 14

structure PacketHeader where
  start : UInt8
  command : UInt8
  device : UInt8
  config : UInt8
  length : UInt32
  serial : List UInt8
  crc32 : UInt32
  deriving DecidableEq, Repr

/-! ### The checksum -/

/-- The inner loop of `crc32_build_table`, run `k` more times. -/
def crc32TableLoop : ℕ → UInt32 → UInt32
  | 0, c => c
  | k + 1, c =>
      crc32TableLoop k (if c &&& 1 ≠ 0 then (0xEDB88320 : UInt32) ^^^ (c >>> 1) else c >>> 1)

/-- `g_crc32_table` as `crc32_build_table` leaves it. -/
def crc32Table (i : UInt32) : UInt32 := crc32TableLoop 8 i

/-- One turn of the loop of `savvy_crc32`. -/
def crc32Update (crc : UInt32) (b : UInt8) : UInt32 :=
  crc32Table ((crc ^^^ b.toUInt32) &&& 0xFF) ^^^ (crc >>> 8)

def crc32 (data : List UInt8) : UInt32 := data.foldl crc32Update 0xFFFFFFFF ^^^ 0xFFFFFFFF

/-! ### Encoding and decoding -/

/-- Four bytes, most significant first, as one 32-bit value. -/
def readBE32 (b0 b1 b2 b3 : UInt8) : UInt32 := Kit.join32 b0 b1 b2 b3

/-- The four bytes of a 32-bit value as `savvy_packet_encode` writes them. -/
def writeBE32 (v : UInt32) : List UInt8 :=
  [Kit.octet v 24, Kit.octet v 16, Kit.octet v 8, Kit.octet v 0]

/-- What a call of `savvy_packet_encode` leaves: its status, the memory behind
`out`, and `*out_written`. -/
structure EncodeResult where
  status : Status
  out : Option (List UInt8)
  outWritten : Option ℕ
  deriving DecidableEq, Repr

/-- The stores of `savvy_packet_encode`, in order, into the block `buf`. -/
def packetStores (start command device config : UInt8) (serial data buf : List UInt8) :
    List UInt8 :=
  let buf := Kit.write buf 0 [start, command, device, config]
  let buf := Kit.write buf 4 (writeBE32 (UInt32.ofNat data.length))
  let buf := Kit.write buf 8 (serial.take packetSerialLen)
  let buf := Kit.write buf 22 (writeBE32 (crc32 data))
  if data.length > 0 then Kit.write buf packetHeaderLen data else buf

def packetEncode {A : Arch} (start command device config : UInt8) (serial data out : Span A)
    (outWritten : Option ℕ) : EncodeResult :=
  if serial.bytes = none ∨ serial.len ≠ packetSerialLen then
    ⟨.invalidArgument, out.bytes, outWritten⟩
  else if data.bytes = none ∧ data.len ≠ 0 then ⟨.invalidArgument, out.bytes, outWritten⟩
  else if out.bytes = none ∨ outWritten = none then ⟨.invalidArgument, out.bytes, outWritten⟩
  -- the wire field has 32 bits
  else if data.len > 2 ^ 32 - 1 then ⟨.overflow, out.bytes, outWritten⟩
  else if data.len > A.sub (A.sizeBound - 1) packetHeaderLen then
    ⟨.overflow, out.bytes, outWritten⟩
  else if out.len < A.add packetHeaderLen data.len then ⟨.overflow, out.bytes, outWritten⟩
  else
    ⟨.ok, out.bytes.map (packetStores start command device config serial.content data.content),
      some (A.add packetHeaderLen data.len)⟩

/-- The byte at offset `i` of a block of memory. Every use below is guarded by
a length check of the code, so the default is never read. -/
def byteAt (bytes : List UInt8) (i : ℕ) : UInt8 := bytes.getD i 0

def fieldBE32 (bytes : List UInt8) (i : ℕ) : UInt32 :=
  readBE32 (byteAt bytes i) (byteAt bytes (i + 1)) (byteAt bytes (i + 2)) (byteAt bytes (i + 3))

def readHeader (bytes : List UInt8) : PacketHeader where
  start := byteAt bytes 0
  command := byteAt bytes 1
  device := byteAt bytes 2
  config := byteAt bytes 3
  length := fieldBE32 bytes 4
  serial := (bytes.drop 8).take packetSerialLen
  crc32 := fieldBE32 bytes 22

/-- `savvy_packet_decode` on the block `bytes`: the header, and the offset and
the length of the data inside the block. -/
def packetDecode (A : Arch) (bytes : List UInt8) : Except Status (PacketHeader × ℕ × ℕ) :=
  if bytes.length < packetHeaderLen then .error .protocol
  else
    let header := readHeader bytes
    if header.length.toNat > A.sub bytes.length packetHeaderLen then .error .protocol
    else .ok (header, packetHeaderLen, header.length.toNat)

/-- One packet as it travels: its header and its data. -/
structure Packet where
  header : PacketHeader
  data : List UInt8
  deriving DecidableEq, Repr

/-- A byte string long enough for its own header decodes. -/
theorem packetDecode_of_le {A : Arch} {bytes : List UInt8} (hA : bytes.length < A.sizeBound)
    (h : packetHeaderLen + (readHeader bytes).length.toNat ≤ bytes.length) :
    packetDecode A bytes =
      .ok (readHeader bytes, packetHeaderLen, (readHeader bytes).length.toNat) := by
  have hlen : ¬ bytes.length < packetHeaderLen := by omega
  have hsub : A.sub bytes.length packetHeaderLen = bytes.length - packetHeaderLen :=
    A.sub_of_le (by omega) hA
  simp only [packetDecode, if_neg hlen, hsub]
  rw [if_neg (by omega)]

theorem packetDecode_of_lt {A : Arch} {bytes : List UInt8}
    (h : bytes.length < packetHeaderLen) : packetDecode A bytes = .error .protocol := by
  simp [packetDecode, h]

/-! ### The header depends on its own bytes only -/

theorem byteAt_append {bytes more : List UInt8} {i : ℕ} (h : i < bytes.length) :
    byteAt (bytes ++ more) i = byteAt bytes i := by
  simp [byteAt, List.getD_eq_getElem?_getD, List.getElem?_append_left h]

theorem readHeader_append {bytes more : List UInt8} (h : packetHeaderLen ≤ bytes.length) :
    readHeader (bytes ++ more) = readHeader bytes := by
  have hb : ∀ i, i < 26 → byteAt (bytes ++ more) i = byteAt bytes i :=
    fun i hi => byteAt_append (lt_of_lt_of_le hi h)
  have hserial : ((bytes ++ more).drop 8).take packetSerialLen =
      (bytes.drop 8).take packetSerialLen := by
    have hle : (8 : ℕ) ≤ bytes.length := le_trans (by decide) h
    have hlen : packetSerialLen ≤ (bytes.drop 8).length := by
      simp only [List.length_drop]
      unfold packetHeaderLen at h
      unfold packetSerialLen
      omega
    rw [List.drop_append_of_le_length hle, List.take_append_of_le_length hlen]
  simp only [readHeader, fieldBE32, hserial, PacketHeader.mk.injEq]
  simp [hb]

theorem readHeader_take {bytes : List UInt8} {n : ℕ} (hn : packetHeaderLen ≤ n)
    (h : n ≤ bytes.length) : readHeader (bytes.take n) = readHeader bytes := by
  conv_rhs => rw [← List.take_append_drop n bytes]
  exact (readHeader_append (by simpa [Nat.min_eq_left h] using hn)).symm

end Savvy
