import Savvy.Json.Parse
import Savvy.Protocol.PacketCodec

/-!
The WAV header of a Voice payload (`src/features/wav/wav_encoder.c`): 44 bytes
with little-endian sizes in front of the samples.
-/

namespace Savvy.Stream

open Kit CJson

def wavHeaderLen : ℕ := 44

def putU16LE (v : UInt16) : List UInt8 := [(v &&& 0xFF).toUInt8, ((v >>> 8) &&& 0xFF).toUInt8]

def putU32LE (v : UInt32) : List UInt8 := [octet v 0, octet v 8, octet v 16, octet v 24]

/-- The stores of `sensor_wav_wrap` in front of the samples; each comes right
behind the one before it. -/
def wavHeader (pcmLen : UInt32) : List UInt8 :=
  ascii "RIFF" ++ putU32LE (36 + pcmLen) ++ ascii "WAVE" ++ ascii "fmt " ++ putU32LE 16 ++
    putU16LE 1 ++ putU16LE 1 ++ putU32LE 8000 ++ putU32LE 16000 ++ putU16LE 2 ++ putU16LE 16 ++
    ascii "data" ++ putU32LE pcmLen

/-- `sensor_wav_wrap`, where `malloc` says whether there is memory for the
block. -/
def wavWrap {A : Arch} (pcm : Span A) (malloc : Bool) : Except Status (List UInt8) :=
  if pcm.bytes = none ∧ pcm.len > 0 then .error .invalidArgument
  else if pcm.len > 2 ^ 32 - 1 then .error .overflow
  else if pcm.len > 2 ^ 32 - 1 - 36 then .error .overflow
  else if pcm.len > A.sub (A.sizeBound - 1) wavHeaderLen then .error .overflow
  else if !malloc then .error .outOfMemory
  else .ok (wavHeader (UInt32.ofNat pcm.len) ++ pcm.content)

@[simp] theorem length_wavHeader (pcmLen : UInt32) : (wavHeader pcmLen).length = wavHeaderLen := by
  have hriff : (ascii "RIFF").length = 4 := by decide
  have hwave : (ascii "WAVE").length = 4 := by decide
  have hfmt : (ascii "fmt ").length = 4 := by decide
  have hdata : (ascii "data").length = 4 := by decide
  simp only [wavHeader, putU32LE, putU16LE, List.length_append, hriff, hwave, hfmt, hdata,
    List.length_cons, List.length_nil, wavHeaderLen]

def fieldLE32 (bytes : List UInt8) (i : ℕ) : UInt32 :=
  join32 (byteAt bytes (i + 3)) (byteAt bytes (i + 2)) (byteAt bytes (i + 1)) (byteAt bytes i)

theorem fieldLE32_putU32LE {before after : List UInt8} {i : ℕ} (v : UInt32)
    (hi : before.length = i) : fieldLE32 (before ++ putU32LE v ++ after) i = v := by
  subst hi
  have hbyte (k : ℕ) (hk : k < 4) :
      byteAt (before ++ putU32LE v ++ after) (before.length + k) = byteAt (putU32LE v) k := by
    have hlt : before.length + k < (before ++ putU32LE v).length := by
      simp [putU32LE]
      omega
    rw [byteAt_append hlt]
    simp [byteAt, List.getD_eq_getElem?_getD, List.getElem?_append_right]
  have h0 := hbyte 0 (by decide)
  rw [Nat.add_zero] at h0
  rw [fieldLE32, hbyte 3 (by decide), hbyte 2 (by decide), hbyte 1 (by decide), h0]
  exact join32_octet v

/-- A wrapped payload: its header, its sizes and its samples. -/
theorem wavWrap_ok {A : Arch} {pcm : Span A} {malloc : Bool} {wav : List UInt8}
    (h : wavWrap pcm malloc = .ok wav) :
    wav = wavHeader (UInt32.ofNat pcm.len) ++ pcm.content ∧ pcm.content.length = pcm.len ∧
      pcm.len ≤ 2 ^ 32 - 1 - 36 ∧ pcm.len + wavHeaderLen < A.sizeBound := by
  have hbound := A.two_pow_32_le_sizeBound
  have hsub : A.sub (A.sizeBound - 1) wavHeaderLen = A.sizeBound - 1 - wavHeaderLen :=
    A.sub_max (by decide)
  unfold wavWrap at h
  split at h
  · exact absurd h (by simp)
  next hnull =>
    split at h
    · exact absurd h (by simp)
    split at h
    · exact absurd h (by simp)
    next hlen =>
      split at h
      · exact absurd h (by simp)
      next hsize =>
        split at h
        · exact absurd h (by simp)
        · cases h
          rw [hsub] at hsize
          refine ⟨rfl, Span.length_content fun hnone => ?_, Nat.not_lt.mp hlen, ?_⟩
          · by_contra hne
            exact hnull ⟨hnone, Nat.pos_of_ne_zero hne⟩
          · unfold wavHeaderLen at *
            omega

/-- The only failures of a payload that fits are those of its caller. -/
theorem wavWrap_not_overflow {A : Arch} {pcm : Span A} (malloc : Bool)
    (hlen : pcm.len + wavHeaderLen ≤ 2 ^ 32 - 1) : wavWrap pcm malloc ≠ .error .overflow := by
  have hbound := A.two_pow_32_le_sizeBound
  have hsub : A.sub (A.sizeBound - 1) wavHeaderLen = A.sizeBound - 1 - wavHeaderLen :=
    A.sub_max (by decide)
  unfold wavHeaderLen at hlen
  rw [wavWrap, hsub, if_neg (show ¬ pcm.len > 2 ^ 32 - 1 by omega),
    if_neg (show ¬ pcm.len > 2 ^ 32 - 1 - 36 by omega),
    if_neg (show ¬ pcm.len > A.sizeBound - 1 - wavHeaderLen by unfold wavHeaderLen; omega)]
  split
  · simp
  · split <;> simp

theorem wavHeader_sizes (pcmLen : UInt32) (samples : List UInt8) :
    fieldLE32 (wavHeader pcmLen ++ samples) 4 = 36 + pcmLen ∧
      fieldLE32 (wavHeader pcmLen ++ samples) 40 = pcmLen := by
  have hriff : (ascii "RIFF").length = 4 := by decide
  constructor
  · have := @fieldLE32_putU32LE (ascii "RIFF") (ascii "WAVE" ++ ascii "fmt " ++ putU32LE 16 ++
      putU16LE 1 ++ putU16LE 1 ++ putU32LE 8000 ++ putU32LE 16000 ++ putU16LE 2 ++ putU16LE 16 ++
      ascii "data" ++ putU32LE pcmLen ++ samples) 4 (36 + pcmLen) hriff
    simpa [wavHeader, List.append_assoc] using this
  · have hlen := length_wavHeader pcmLen
    rw [wavHeader, List.length_append] at hlen
    rw [wavHeader]
    apply fieldLE32_putU32LE
    simp only [putU32LE, List.length_cons, List.length_nil, wavHeaderLen] at hlen ⊢
    omega

end Savvy.Stream
