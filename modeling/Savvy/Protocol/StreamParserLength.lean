import Savvy.Protocol.StreamParserQueue

/-!
The `Length` field of a packet against the arithmetic of the parser. On a 32-bit
target `26 + Length` can wrap to a value that passes both size tests of
`savvy_stream_parser_try_extract`; what is left of it is less than a header, and
`savvy_packet_decode` refuses it. The verdict is that of unbounded numbers on
every target.
-/

namespace Savvy

namespace StreamParser

variable {A : Arch}

def nextLength (p : StreamParser) : ℕ := (fieldBE32 p.unread 4).toNat

/-- What an extraction is for, without a bound on numbers. -/
def specExtract (p : StreamParser) : StreamResult × StreamParser :=
  if p.unread.length < packetHeaderLen then (.needMoreData, p)
  else if packetHeaderLen + p.nextLength > p.bufCap then (.error, p)
  else if p.unread.length < packetHeaderLen + p.nextLength then (.needMoreData, p)
  else
    (.packetReady (readHeader p.unread) (p.head + packetHeaderLen) p.nextLength,
      { p with head := p.head + (packetHeaderLen + p.nextLength) })

/-- The code gives the result of the specification, whatever the width. -/
theorem WF.tryExtract_eq {p : StreamParser} (h : p.WF A) : p.tryExtract A = p.specExtract := by
  have hspec := h.tryExtract_spec
  have hsize : packetHeaderLen + p.nextLength = packetSize p.unread := rfl
  have hheader := packetHeaderLen_le_packetSize p.unread
  generalize p.tryExtract A = r at hspec
  rw [specExtract, hsize]
  cases hspec with
  | more hscan =>
      unfold packetScan at hscan
      split_ifs at hscan with hshort hbig hpart
      · rw [if_pos hshort]
      · rw [if_neg hshort, if_neg hbig, if_pos hpart]
  | bad hscan =>
      obtain ⟨hlen, hbig⟩ := packetScan_eq_bad.mp hscan
      rw [if_neg (by omega), if_pos hbig]
  | ready hscan _ =>
      obtain ⟨hcap, hlen, -, -⟩ := packetScan_eq_frame.mp hscan
      rw [if_neg (by omega), if_neg (by omega), if_neg (by omega)]
      rfl

theorem WF.call_bufCap {p : StreamParser} (h : p.WF A) (c : Call) :
    (p.call A c).bufCap = p.bufCap := by
  cases c with
  | push arg =>
      cases arg with
      | null len =>
          rw [StreamParser.call, push]
          split <;> rfl
      | bytes bs => exact (h.push_spec bs).bufCap
  | tryExtract => exact congrArg List.length (tryExtract_buf p)

theorem WF.calls_bufCap {p : StreamParser} (h : p.WF A) (cs : List Call) :
    (p.calls A cs).bufCap = p.bufCap := by
  induction cs generalizing p with
  | nil => rfl
  | cons c cs ih => exact (ih (h.call c)).trans (h.call_bufCap c)

/-- The verdicts on a header whose `Length` field is `length`, with `cap` bytes
of storage. -/
structure Verdict (A : Arch) (cap length : ℕ) (p : StreamParser) : Prop where
  error_iff : (p.tryExtract A).1 = .error ↔ packetHeaderLen + length > cap
  more_iff : (p.tryExtract A).1 = .needMoreData ↔
    packetHeaderLen + length ≤ cap ∧ p.tail - p.head < packetHeaderLen + length
  ready_iff : (∃ header data dataLen, (p.tryExtract A).1 = .packetReady header data dataLen) ↔
    packetHeaderLen + length ≤ cap ∧ packetHeaderLen + length ≤ p.tail - p.head
  inside {header : PacketHeader} {data dataLen : ℕ}
    (h : (p.tryExtract A).1 = .packetReady header data dataLen) :
    dataLen = length ∧ p.head ≤ data ∧ data + dataLen ≤ p.tail
  unchanged (h : (p.tryExtract A).1 = .error) : (p.tryExtract A).2 = p

theorem WF.verdict {p : StreamParser} (h : p.WF A) (hheader : packetHeaderLen ≤ p.tail - p.head) :
    Verdict A p.bufCap p.nextLength p := by
  have hhead := h.head_le
  have hlen := h.length_unread
  have heq := h.tryExtract_eq
  rw [specExtract, if_neg (by omega), hlen] at heq
  by_cases hbig : packetHeaderLen + p.nextLength > p.bufCap
  · rw [if_pos hbig] at heq
    exact
      { error_iff := by rw [heq]; exact iff_of_true rfl hbig
        more_iff := by rw [heq]; exact iff_of_false (by simp) (by omega)
        ready_iff := by rw [heq]; exact iff_of_false (by simp) (by omega)
        inside := by rw [heq]; simp
        unchanged := by rw [heq]; simp }
  rw [if_neg hbig] at heq
  by_cases hpart : p.tail - p.head < packetHeaderLen + p.nextLength
  · rw [if_pos hpart] at heq
    exact
      { error_iff := by rw [heq]; exact iff_of_false (by simp) hbig
        more_iff := by rw [heq]; exact iff_of_true rfl ⟨by omega, hpart⟩
        ready_iff := by rw [heq]; exact iff_of_false (by simp) (by omega)
        inside := by rw [heq]; simp
        unchanged := by rw [heq]; simp }
  · rw [if_neg hpart] at heq
    refine
      { error_iff := by rw [heq]; exact iff_of_false (by simp) hbig
        more_iff := by rw [heq]; exact iff_of_false (by simp) (by omega)
        ready_iff := by rw [heq]; exact iff_of_true ⟨_, _, _, rfl⟩ ⟨by omega, by omega⟩
        inside := ?_
        unchanged := by rw [heq]; simp }
    intro header data dataLen hready
    rw [heq] at hready
    obtain ⟨rfl, rfl, rfl⟩ := StreamResult.packetReady.inj hready
    exact ⟨rfl, by omega, by omega⟩

end StreamParser

/-- After any calls, on every target, the parser judges the next header as
unbounded numbers would. -/
theorem length_field_judged (A : Arch) (buf : Storage A) (cs : List StreamParser.Call) :
    ((StreamParser.init buf.bytes).calls A cs).tryExtract A =
        ((StreamParser.init buf.bytes).calls A cs).specExtract ∧
      ∀ length : UInt32,
        packetHeaderLen ≤ ((StreamParser.init buf.bytes).calls A cs).tail -
          ((StreamParser.init buf.bytes).calls A cs).head →
        fieldBE32 ((StreamParser.init buf.bytes).calls A cs).unread 4 = length →
        StreamParser.Verdict A buf.bytes.length length.toNat
          ((StreamParser.init buf.bytes).calls A cs) := by
  have hinit : (StreamParser.init buf.bytes).WF A := .init buf.fits
  have hwf := hinit.calls cs
  have hbufCap : ((StreamParser.init buf.bytes).calls A cs).bufCap = buf.bytes.length :=
    hinit.calls_bufCap cs
  refine ⟨hwf.tryExtract_eq, ?_⟩
  rintro length hheader rfl
  rw [← hbufCap]
  exact hwf.verdict hheader

def Arch.ilp32 : Arch := ⟨32, Nat.le_refl 32⟩

/-- A header whose `Length` is the first one that wraps, `2 ^ 32 - 26`. -/
def wrappingHeader : List UInt8 :=
  [83, 82, 0, 0, 0xFF, 0xFF, 0xFF, 0xE6] ++ List.replicate 18 0

/-- On a 32-bit target the sum is zero, and the parser still refuses. -/
theorem length_field_judged_wrapping :
    Arch.ilp32.add packetHeaderLen (fieldBE32 wrappingHeader 4).toNat = 0 ∧
      (((StreamParser.init (List.replicate 30 0)).calls .ilp32
        [.push (.bytes wrappingHeader)]).tryExtract .ilp32).1 = .error := by
  have hheader : packetHeaderLen ≤ ((StreamParser.init (List.replicate 30 0)).calls .ilp32
      [.push (.bytes wrappingHeader)]).tail - ((StreamParser.init (List.replicate 30 0)).calls .ilp32
      [.push (.bytes wrappingHeader)]).head := by
    decide +kernel
  have hlength : fieldBE32 ((StreamParser.init (List.replicate 30 0)).calls .ilp32
      [.push (.bytes wrappingHeader)]).unread 4 = 0xFFFFFFE6 := by
    decide +kernel
  have hjudged := (length_field_judged .ilp32 ⟨List.replicate 30 0, by decide⟩
    [.push (.bytes wrappingHeader)]).2 _ hheader hlength
  exact ⟨by decide, hjudged.error_iff.mpr (by decide)⟩

end Savvy
