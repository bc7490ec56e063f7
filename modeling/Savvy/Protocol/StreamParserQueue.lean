import Savvy.Protocol.PacketRoundTrip
import Savvy.Protocol.StreamParser

/-!
The stream parser refines a bounded byte queue. The abstraction of a parser is
its unread bytes; under the invariant `StreamParser.WF` a push appends to the
queue or reports that it is full, and an extraction does what `packetFraming`
says about the queue. From the two specifications follows that the packets of
a stream do not depend on how it was cut into pushes.
-/

namespace Savvy

open Kit

namespace StreamParser

variable {A : Arch}

/-- The unread bytes: the abstraction of a parser as a queue. -/
def unread (p : StreamParser) : List UInt8 := slice p.buf p.head p.tail

variable (A) in
/-- The invariant of a parser: `head ≤ tail ≤ buf_cap`, and `buf_cap` is a
`size_t`. -/
structure WF (p : StreamParser) : Prop where
  head_le : p.head ≤ p.tail
  tail_le : p.tail ≤ p.bufCap
  fits : p.bufCap < A.sizeBound

theorem WF.init {buf : List UInt8} (h : buf.length < A.sizeBound) : (init buf).WF A :=
  ⟨le_rfl, Nat.zero_le _, h⟩

@[simp] theorem unread_init (buf : List UInt8) : (init buf).unread = [] := slice_self _ _

theorem WF.length_unread {p : StreamParser} (h : p.WF A) :
    p.unread.length = p.tail - p.head :=
  length_slice h.tail_le

theorem WF.used {p : StreamParser} (h : p.WF A) : A.sub p.tail p.head = p.tail - p.head :=
  A.sub_of_le h.head_le (h.tail_le.trans_lt h.fits)

theorem WF.freeAtTail {p : StreamParser} (h : p.WF A) :
    p.freeAtTail A = p.bufCap - p.tail :=
  A.sub_of_le h.tail_le h.fits

/-! ### Compaction and append -/

section Compact

variable {p : StreamParser} (h : p.WF A)
include h

theorem WF.moved : slice p.buf p.head (p.head + A.sub p.tail p.head) = p.unread := by
  have hle := h.head_le
  rw [h.used, unread]
  congr 1
  omega

theorem WF.compact_bufCap : (p.compact A).bufCap = p.bufCap := by
  have htail := h.tail_le
  have hlen := h.length_unread
  rw [bufCap, compact, h.moved, length_write]
  · rfl
  · unfold bufCap at htail
    omega

theorem WF.compact_tail : (p.compact A).tail = p.tail - p.head := h.used

theorem WF.compact_unread : (p.compact A).unread = p.unread := by
  have hself : slice (write p.buf 0 p.unread) 0 (0 + p.unread.length) = p.unread :=
    slice_write_self (Nat.zero_le _)
  rw [h.length_unread, Nat.zero_add] at hself
  rw [unread, h.compact_tail, compact, h.moved]
  exact hself

theorem WF.compact : (p.compact A).WF A := by
  have htail := h.tail_le
  refine ⟨Nat.zero_le _, ?_, ?_⟩
  · rw [h.compact_tail, h.compact_bufCap]
    omega
  · rw [h.compact_bufCap]
    exact h.fits

variable {bs : List UInt8} (hroom : p.tail + bs.length ≤ p.bufCap)
include hroom

theorem WF.append_tail : (p.append A bs).tail = p.tail + bs.length :=
  A.add_of_lt (hroom.trans_lt h.fits)

omit h in
theorem append_bufCap : (p.append A bs).bufCap = p.bufCap := length_write hroom

theorem WF.append : (p.append A bs).WF A := by
  have hhead := h.head_le
  refine ⟨?_, ?_, ?_⟩
  · rw [h.append_tail hroom]
    exact hhead.trans (Nat.le_add_right _ _)
  · rw [h.append_tail hroom, append_bufCap hroom]
    exact hroom
  · rw [append_bufCap hroom]
    exact h.fits

/-- The appended bytes come after everything that was unread. -/
theorem WF.append_unread : (p.append A bs).unread = p.unread ++ bs := by
  have hlen : p.tail ≤ p.buf.length := h.tail_le
  have hbound : p.tail + bs.length ≤ (write p.buf p.tail bs).length := by
    rw [length_write hroom]
    exact hroom
  have hsplit := slice_append_slice h.head_le (Nat.le_add_right p.tail bs.length) hbound
  rw [slice_write_of_le le_rfl hlen, slice_write_self hlen] at hsplit
  rw [unread, h.append_tail hroom]
  exact hsplit.symm

end Compact

/-! ### Push -/

structure PushSpec (A : Arch) (p : StreamParser) (bs : List UInt8)
    (r : Status × StreamParser) : Prop where
  wf : r.2.WF A
  bufCap : r.2.bufCap = p.bufCap
  ok : p.unread.length + bs.length ≤ p.bufCap → r.1 = .ok ∧ r.2.unread = p.unread ++ bs
  overflow : p.bufCap < p.unread.length + bs.length → r.1 = .overflow ∧ r.2.unread = p.unread

theorem WF.push_spec {p : StreamParser} (h : p.WF A) (bs : List UInt8) :
    PushSpec A p bs (p.push A (.bytes bs)) := by
  have hlen := h.length_unread
  have hhead := h.head_le
  have htail := h.tail_le
  by_cases hnil : bs.length = 0
  · have hbs : bs = [] := List.length_eq_zero_iff.mp hnil
    have hpush : p.push A (.bytes bs) = (.ok, p) := by simp [push, ByteArg.len, hnil]
    rw [hpush]
    refine ⟨h, rfl, fun _ => ⟨rfl, by simp [hbs]⟩, fun hlt => ?_⟩
    omega
  · have hpush : p.push A (.bytes bs) =
        if p.bufCap - p.tail < bs.length then
          let q := if p.head > 0 then p.compact A else p
          if q.freeAtTail A < bs.length then (.overflow, q) else (.ok, q.append A bs)
        else (.ok, p.append A bs) := by
      simp [push, ByteArg.len, hnil, h.freeAtTail]
    rw [hpush]
    split
    · -- Not enough room behind `tail`: the unread bytes are at the front after this.
      obtain ⟨q, hq, hqwf, hqcap, hqunread, hqtail⟩ : ∃ q,
          (if p.head > 0 then p.compact A else p) = q ∧ q.WF A ∧ q.bufCap = p.bufCap ∧
            q.unread = p.unread ∧ q.tail = p.tail - p.head := by
        split
        · exact ⟨_, rfl, h.compact, h.compact_bufCap, h.compact_unread, h.compact_tail⟩
        · exact ⟨_, rfl, h, rfl, rfl, by omega⟩
      simp only [hq, hqwf.freeAtTail, hqcap]
      split
      · exact ⟨hqwf, hqcap, fun hle => by omega, fun _ => ⟨rfl, hqunread⟩⟩
      · have hroom : q.tail + bs.length ≤ q.bufCap := by omega
        refine ⟨hqwf.append hroom, (append_bufCap hroom).trans hqcap, fun _ => ⟨rfl, ?_⟩,
          fun hlt => by omega⟩
        rw [hqwf.append_unread hroom, hqunread]
    · have hroom : p.tail + bs.length ≤ p.bufCap := by omega
      exact ⟨h.append hroom, append_bufCap hroom, fun _ => ⟨rfl, h.append_unread hroom⟩,
        fun hlt => by omega⟩

theorem WF.push_status {p : StreamParser} (h : p.WF A) (bs : List UInt8) :
    ((p.push A (.bytes bs)).1 = .ok ↔ p.unread.length + bs.length ≤ p.bufCap) ∧
      ((p.push A (.bytes bs)).1 = .overflow ↔ p.bufCap < p.unread.length + bs.length) := by
  have hspec := h.push_spec bs
  rcases le_or_gt (p.unread.length + bs.length) p.bufCap with hle | hlt
  · simp [(hspec.ok hle).1, hle]
  · simp [(hspec.overflow hlt).1, hlt]

/-! ### Extraction -/

/-- Everything an extraction does, by what the queue starts with. -/
inductive ExtractSpec (p : StreamParser) : StreamResult × StreamParser → Prop
  | more (h : packetScan p.bufCap p.unread = .more) : ExtractSpec p (.needMoreData, p)
  | bad (h : packetScan p.bufCap p.unread = .bad) : ExtractSpec p (.error, p)
  | ready (h : packetScan p.bufCap p.unread = .frame (frontPacket p.unread) (packetSize p.unread))
      (hdata : slice p.buf (p.head + packetHeaderLen) (p.head + packetSize p.unread) =
        (frontPacket p.unread).data) :
      ExtractSpec p (.packetReady (readHeader p.unread) (p.head + packetHeaderLen)
          (readHeader p.unread).length.toNat,
        { p with head := p.head + packetSize p.unread })

theorem WF.drop_head {p : StreamParser} (h : p.WF A) :
    p.buf.drop p.head = p.unread ++ p.buf.drop p.tail := by
  have hlen : p.head ≤ (p.buf.take p.tail).length := by
    have hhead := h.head_le
    have htail := h.tail_le
    unfold StreamParser.bufCap at htail
    simp only [List.length_take]
    omega
  rw [unread, slice, ← List.drop_append_of_le_length hlen, List.take_append_drop]

/-- A complete packet at the front is decoded, and its data is in the buffer
right behind the header. -/
theorem WF.takePacket_spec {p : StreamParser} (h : p.WF A)
    (hcap : packetSize p.unread ≤ p.bufCap) (hsize : packetSize p.unread ≤ p.unread.length) :
    ExtractSpec p (p.takePacket A (packetSize p.unread)) := by
  have hhead := h.head_le
  have htail := h.tail_le
  have hfits := h.fits
  have hlen := h.length_unread
  have htake : (p.buf.drop p.head).take (packetSize p.unread) =
      p.unread.take (packetSize p.unread) := by
    rw [h.drop_head, List.take_append_of_le_length hsize]
  have hrd : readHeader (p.unread.take (packetSize p.unread)) = readHeader p.unread :=
    readHeader_take (packetHeaderLen_le_packetSize _) hsize
  have hlenTake : (p.unread.take (packetSize p.unread)).length = packetSize p.unread := by
    rw [List.length_take, Nat.min_eq_left hsize]
  have hbound : (p.unread.take (packetSize p.unread)).length < A.sizeBound := by omega
  have hdec := packetDecode_of_le hbound (by rw [hrd, hlenTake]; exact le_rfl)
  have hadv : A.add p.head (packetSize p.unread) = p.head + packetSize p.unread :=
    A.add_of_lt (by omega)
  have hdata : slice p.buf (p.head + packetHeaderLen) (p.head + packetSize p.unread) =
      (frontPacket p.unread).data := by
    have hfront : p.unread.take (packetSize p.unread) =
        slice p.buf p.head (p.head + packetSize p.unread) := take_slice (by omega)
    change _ = (p.unread.take (packetSize p.unread)).drop packetHeaderLen
    rw [hfront, drop_slice]
  rw [takePacket, htake, hdec, hrd]
  simp only [hadv]
  exact .ready (packetScan_eq_frame.mpr ⟨hcap, hsize, rfl, rfl⟩) hdata

theorem WF.tryExtract_spec {p : StreamParser} (h : p.WF A) :
    ExtractSpec p (p.tryExtract A) := by
  have hlen := h.length_unread
  by_cases hshort : p.unread.length < packetHeaderLen
  · have hext : p.tryExtract A = (.needMoreData, p) := by
      simp only [tryExtract, h.used, ← hlen, hshort, if_true]
    rw [hext]
    exact .more (by simp [packetScan, hshort])
  have hfield : fieldBE32 (p.buf.drop p.head) 4 = (readHeader p.unread).length := by
    have hbase : readHeader (p.buf.drop p.head) = readHeader p.unread := by
      rw [h.drop_head, readHeader_append (by omega)]
    exact congrArg PacketHeader.length hbase
  have hcap : p.unread.length ≤ p.bufCap := by
    have htail := h.tail_le
    omega
  have hfits := h.fits
  simp only [tryExtract, h.used, ← hlen, if_neg hshort, hfield]
  by_cases hwrap : packetSize p.unread < A.sizeBound
  · have htotal : A.add packetHeaderLen (readHeader p.unread).length.toNat =
        packetSize p.unread := A.add_of_lt hwrap
    rw [htotal]
    split
    · exact .bad (packetScan_eq_bad.mpr ⟨by omega, by omega⟩)
    split
    · refine .more ?_
      rw [packetScan, if_neg hshort, if_neg (by omega), if_pos (by omega)]
    · exact h.takePacket_spec (by omega) (by omega)
  · -- `26 + Length` wraps: what is left of it is less than a header, and the decoder refuses.
    have hbound : (readHeader p.unread).length.toNat < 2 ^ 32 := UInt32.toNat_lt _
    have hA := A.two_pow_32_le_sizeBound
    have htotal : A.add packetHeaderLen (readHeader p.unread).length.toNat < packetHeaderLen := by
      have hsize : packetSize p.unread = packetHeaderLen + (readHeader p.unread).length.toNat := rfl
      have hmod : A.add packetHeaderLen (readHeader p.unread).length.toNat =
          packetSize p.unread - A.sizeBound := by
        rw [Arch.add, ← hsize, Nat.mod_eq_sub_mod (by omega), Nat.mod_eq_of_lt]
        unfold packetHeaderLen at hsize
        omega
      omega
    rw [if_neg (by omega), if_neg (by omega), takePacket, packetDecode_of_lt]
    · exact .bad (packetScan_eq_bad.mpr ⟨by omega, by omega⟩)
    · rw [List.length_take]
      omega

/-- An extraction never writes to the buffer: pointers into it stay valid. -/
theorem tryExtract_buf (p : StreamParser) : (p.tryExtract A).2.buf = p.buf := by
  unfold tryExtract takePacket
  dsimp only
  repeat' split
  all_goals rfl

theorem WF.tryExtract {p : StreamParser} (h : p.WF A) : (p.tryExtract A).2.WF A := by
  have hlen := h.length_unread
  have hhead := h.head_le
  have hext := h.tryExtract_spec
  cases hr : p.tryExtract A with
  | mk res q =>
      rw [hr] at hext
      cases hext with
      | more _ => exact h
      | bad _ => exact h
      | ready hscan _ =>
          obtain ⟨-, hsize, -, -⟩ := packetScan_eq_frame.mp hscan
          refine ⟨?_, h.tail_le, h.fits⟩
          change p.head + packetSize p.unread ≤ p.tail
          omega

/-- Extracting a packet removes exactly its bytes from the queue. -/
theorem unread_advance (p : StreamParser) (n : ℕ) :
    ({ p with head := p.head + n } : StreamParser).unread = p.unread.drop n := by
  rw [unread, unread, drop_slice]

/-! ### Draining and feeding -/

/-- What a caller collects between two pushes. -/
structure Drained where
  packets : List Packet
  error : Bool
  parser : StreamParser

variable (A) in
/-- The caller's loop of the header comment: extract until no packet is ready,
at most `fuel` times. -/
def drainLoop : ℕ → StreamParser → Drained
  | 0, p => ⟨[], false, p⟩
  | fuel + 1, p =>
      match p.tryExtract A with
      | (.needMoreData, q) => ⟨[], false, q⟩
      | (.error, q) => ⟨[], true, q⟩
      | (.packetReady header data dataLen, q) =>
          let d := drainLoop fuel q
          ⟨⟨header, slice q.buf data (data + dataLen)⟩ :: d.packets, d.error, d.parser⟩

variable (A) in
/-- The caller's loop. Every packet takes at least a header out of the unread
bytes, so it ends before the fuel does. -/
def drain (p : StreamParser) : Drained := drainLoop A (p.tail - p.head + 1) p

theorem WF.drainLoop_spec {fuel : ℕ} {p : StreamParser} (h : p.WF A)
    (hfuel : p.unread.length < fuel) :
    let d := drainLoop A fuel p
    d.parser.WF A ∧ d.parser.bufCap = p.bufCap ∧
      (packetFraming p.bufCap).parse p.unread = ⟨d.packets, d.error, d.parser.unread⟩ := by
  induction fuel generalizing p with
  | zero => omega
  | succ fuel ih =>
      have hext := h.tryExtract_spec
      have hq := h.tryExtract
      cases hr : p.tryExtract A with
      | mk res q =>
          rw [hr] at hext hq
          simp only [drainLoop, hr]
          cases hext with
          | more hscan => exact ⟨h, rfl, Framing.parse_of_more hscan⟩
          | bad hscan => exact ⟨h, rfl, Framing.parse_of_bad hscan⟩
          | ready hscan hdata =>
              obtain ⟨-, hsize, -, -⟩ := packetScan_eq_frame.mp hscan
              have hpos : 0 < packetSize p.unread :=
                lt_of_lt_of_le (by decide) (packetHeaderLen_le_packetSize _)
              obtain ⟨hwf, hcap, hparse⟩ := ih hq (by
                rw [unread_advance, List.length_drop]
                omega)
              refine ⟨hwf, hcap, ?_⟩
              rw [unread_advance] at hparse
              have hoff : p.head + packetHeaderLen + (readHeader p.unread).length.toNat =
                  p.head + packetSize p.unread := Nat.add_assoc _ _ _
              rw [Framing.parse_of_frame hscan]
              simp only [hoff, hdata]
              change _ = Framing.Result.mk (frontPacket p.unread :: _) _ _
              simp only [bufCap] at hparse
              simp only [bufCap, hparse]

theorem WF.drain_spec {p : StreamParser} (h : p.WF A) :
    (p.drain A).parser.WF A ∧ (p.drain A).parser.bufCap = p.bufCap ∧
      (packetFraming p.bufCap).parse p.unread =
        ⟨(p.drain A).packets, (p.drain A).error, (p.drain A).parser.unread⟩ :=
  h.drainLoop_spec (by rw [h.length_unread]; exact Nat.lt_succ_self _)

variable (A) in
/-- Push the chunks one after the other and drain after each push. `none` if a
push fails. -/
def feed : StreamParser → List (List UInt8) → Option Drained
  | p, [] => some ⟨[], false, p⟩
  | p, c :: cs =>
      match p.push A (.bytes c) with
      | (.ok, q) =>
          (feed (q.drain A).parser cs).map fun d =>
            ⟨(q.drain A).packets ++ d.packets, (q.drain A).error || d.error, d.parser⟩
      | (_, _) => none

/-- Feeding a drained parser reads the packets of everything fed to it. -/
theorem WF.feed_spec {p : StreamParser} (h : p.WF A) {cs : List (List UInt8)} {d : Drained}
    {bad : Bool} (hp : (packetFraming p.bufCap).parse p.unread = ⟨[], bad, p.unread⟩)
    (hfeed : p.feed A cs = some d) :
    (packetFraming p.bufCap).parse (p.unread ++ cs.flatten) =
      ⟨d.packets, bad || d.error, d.parser.unread⟩ := by
  induction cs generalizing p d bad with
  | nil =>
      simp only [feed, Option.some.injEq] at hfeed
      subst hfeed
      simpa using hp
  | cons c cs ih =>
      have hspec := h.push_spec c
      cases hr : p.push A (.bytes c) with
      | mk st q =>
          rw [hr] at hspec
          cases st with
          | ok =>
              simp only [feed, hr, Option.map_eq_some_iff] at hfeed
              obtain ⟨d', hd', rfl⟩ := hfeed
              have hle : p.unread.length + c.length ≤ p.bufCap := by
                by_contra hlt
                exact absurd (hspec.overflow (by omega)).1 (by simp)
              have hq := (hspec.ok hle).2
              obtain ⟨hwf, hcap, hparse⟩ := hspec.wf.drain_spec
              rw [hspec.bufCap, hq] at hparse
              rw [hspec.bufCap] at hcap
              have hrest := Framing.parse_rest (F := packetFraming p.bufCap) (p.unread ++ c)
              rw [hparse] at hrest
              have hih := ih hwf (by rw [hcap]; exact hrest) hd'
              rw [hcap] at hih
              have hbad : bad = true → (q.drain A).error = true := fun hb => by
                have hstuck : ((packetFraming p.bufCap).parse p.unread).bad = true := by
                  rw [hp]
                  exact hb
                have := Framing.bad_parse_append hstuck c
                rwa [hparse] at this
              rw [List.flatten_cons, ← List.append_assoc, Framing.parse_append, hparse, hih]
              cases bad with
              | false => simp
              | true => simp [hbad rfl]
          | _ => simp [feed, hr] at hfeed

/-! ### Any sequence of calls -/

inductive Call
  | push (arg : ByteArg)
  | tryExtract

variable (A) in
def call (p : StreamParser) : Call → StreamParser
  | .push arg => (p.push A arg).2
  | .tryExtract => (p.tryExtract A).2

variable (A) in
def calls (p : StreamParser) (cs : List Call) : StreamParser := cs.foldl (call A) p

theorem WF.call {p : StreamParser} (h : p.WF A) (c : Call) : (p.call A c).WF A := by
  cases c with
  | push arg =>
      cases arg with
      | null len =>
          have hnull : (p.push A (.null len)).2 = p := by
            unfold push
            split <;> rfl
          exact (congrArg (WF A) hnull).mpr h
      | bytes bs => exact (h.push_spec bs).wf
  | tryExtract => exact h.tryExtract

theorem WF.calls {p : StreamParser} (h : p.WF A) (cs : List Call) : (p.calls A cs).WF A := by
  induction cs generalizing p with
  | nil => exact h
  | cons c cs ih => exact ih (h.call c)

/-- A parser behaves as a byte queue of capacity `buf_cap`: its offsets are in
range, a push appends or overflows, and an extraction takes a packet off the
front, with the fields of its header, exactly when a complete one is there. -/
structure ByteQueue (A : Arch) (p : StreamParser) : Prop where
  head_le_tail : p.head ≤ p.tail
  tail_le_bufCap : p.tail ≤ p.bufCap
  push_appends (bs : List UInt8) :
    (p.push A (.bytes bs)).1 = .ok ∧ (p.push A (.bytes bs)).2.unread = p.unread ++ bs ∨
      (p.push A (.bytes bs)).1 = .overflow ∧ (p.push A (.bytes bs)).2.unread = p.unread
  push_overflow_iff (bs : List UInt8) :
    (p.push A (.bytes bs)).1 = .overflow ↔ p.unread.length + bs.length > p.bufCap
  ready_iff :
    (∃ header data dataLen, (p.tryExtract A).1 = .packetReady header data dataLen) ↔
      packetHeaderLen ≤ p.unread.length ∧
        packetHeaderLen + (readHeader p.unread).length.toNat ≤ p.unread.length ∧
        packetHeaderLen + (readHeader p.unread).length.toNat ≤ p.bufCap
  ready {header : PacketHeader} {data dataLen : ℕ}
    (h : (p.tryExtract A).1 = .packetReady header data dataLen) :
    header = readHeader p.unread ∧ dataLen = header.length.toNat ∧
      slice p.buf data (data + dataLen) =
        slice p.unread packetHeaderLen (packetHeaderLen + dataLen) ∧
      (p.tryExtract A).2.unread = p.unread.drop (packetHeaderLen + dataLen)
  header_fields {header : PacketHeader} {data dataLen : ℕ}
    (h : (p.tryExtract A).1 = .packetReady header data dataLen) :
    header.serial.length = packetSerialLen ∧
      [header.start, header.command, header.device, header.config] ++ writeBE32 header.length ++
        header.serial ++ writeBE32 header.crc32 = p.unread.take packetHeaderLen
  data_stays {header : PacketHeader} {data dataLen : ℕ}
    (h : (p.tryExtract A).1 = .packetReady header data dataLen) (k : ℕ) :
    slice ((p.tryExtract A).2.calls A (List.replicate k .tryExtract)).buf data (data + dataLen) =
      slice p.buf data (data + dataLen)
  not_ready (h : ∀ header data dataLen, (p.tryExtract A).1 ≠ .packetReady header data dataLen) :
    (p.tryExtract A).2.unread = p.unread

theorem calls_tryExtract_buf (p : StreamParser) (k : ℕ) :
    (p.calls A (List.replicate k .tryExtract)).buf = p.buf := by
  induction k generalizing p with
  | zero => rfl
  | succ k ih => exact (ih _).trans (tryExtract_buf p)

theorem WF.byteQueue {p : StreamParser} (h : p.WF A) : p.ByteQueue A where
  head_le_tail := h.head_le
  tail_le_bufCap := h.tail_le
  push_appends bs := by
    rcases le_or_gt (p.unread.length + bs.length) p.bufCap with hle | hlt
    · exact .inl ((h.push_spec bs).ok hle)
    · exact .inr ((h.push_spec bs).overflow hlt)
  push_overflow_iff bs := (h.push_status bs).2
  ready_iff := by
    have hle := packetHeaderLen_le_packetSize p.unread
    have hext := h.tryExtract_spec
    generalize p.tryExtract A = r at hext
    change _ ↔ _ ∧ packetSize p.unread ≤ _ ∧ packetSize p.unread ≤ _
    cases hext with
    | more hscan =>
        have hnot : ¬ (packetSize p.unread ≤ p.bufCap ∧ packetSize p.unread ≤ p.unread.length) :=
          fun hc => by
            rw [packetScan_eq_frame.mpr ⟨hc.1, hc.2, rfl, rfl⟩] at hscan
            cases hscan
        simp only [reduceCtorEq, exists_false, false_iff]
        tauto
    | bad hscan =>
        have hbad := packetScan_eq_bad.mp hscan
        simp only [reduceCtorEq, exists_false, false_iff]
        omega
    | ready hscan _ =>
        obtain ⟨hcap, hsize, -, -⟩ := packetScan_eq_frame.mp hscan
        exact iff_of_true ⟨_, _, _, rfl⟩ ⟨by omega, hsize, hcap⟩
  ready {header data dataLen} heq := by
    have hext := h.tryExtract_spec
    generalize p.tryExtract A = r at hext heq
    cases hext with
    | more _ => cases heq
    | bad _ => cases heq
    | ready _ hdata =>
        obtain ⟨rfl, rfl, rfl⟩ := StreamResult.packetReady.inj heq
        refine ⟨rfl, rfl, ?_, unread_advance p _⟩
        rw [Nat.add_assoc]
        exact hdata
  header_fields {header data dataLen} heq := by
    have hext := h.tryExtract_spec
    generalize p.tryExtract A = r at hext heq
    cases hext with
    | more _ => cases heq
    | bad _ => cases heq
    | ready hscan _ =>
        obtain ⟨rfl, -, -⟩ := StreamResult.packetReady.inj heq
        have hle := (packetHeaderLen_le_packetSize p.unread).trans (packetScan_eq_frame.mp hscan).2.1
        exact ⟨length_readHeader_serial hle, headerBytes_readHeader hle⟩
  data_stays {header data dataLen} _ k := by
    rw [calls_tryExtract_buf, tryExtract_buf]
  not_ready hne := by
    have hext := h.tryExtract_spec
    generalize p.tryExtract A = r at hext hne
    cases hext with
    | more _ => rfl
    | bad _ => rfl
    | ready _ _ => exact absurd rfl (hne _ _ _)

end StreamParser

/-- Storage for a parser: a block whose size is a `size_t`. -/
structure Storage (A : Arch) where
  bytes : List UInt8
  fits : bytes.length < A.sizeBound

/-- After any calls from `init` the parser is a byte queue, and the packets of
a stream do not depend on its chunking: with every push succeeding and the
parser drained after each, they are those of the whole stream, the final error
and the unread rest included. -/
theorem streamParser_refines_byteQueue (A : Arch) (buf : Storage A) :
    (∀ cs : List StreamParser.Call, ((StreamParser.init buf.bytes).calls A cs).ByteQueue A) ∧
      ∀ (chunks chunks' : List (List UInt8)) (d d' : StreamParser.Drained),
        chunks.flatten = chunks'.flatten →
        (StreamParser.init buf.bytes).feed A chunks = some d →
        (StreamParser.init buf.bytes).feed A chunks' = some d' →
          d.packets = d'.packets ∧ d.error = d'.error ∧
            (packetFraming buf.bytes.length).parse chunks.flatten =
              ⟨d.packets, d.error, d.parser.unread⟩ := by
  have hinit : (StreamParser.init buf.bytes).WF A := .init buf.fits
  have hempty : (packetFraming (StreamParser.init buf.bytes).bufCap).parse
      (StreamParser.init buf.bytes).unread =
        ⟨[], false, (StreamParser.init buf.bytes).unread⟩ :=
    Framing.parse_of_more rfl
  refine ⟨fun cs => (hinit.calls cs).byteQueue, fun chunks chunks' d d' hflat hd hd' => ?_⟩
  have h := hinit.feed_spec hempty hd
  have h' := hinit.feed_spec hempty hd'
  rw [StreamParser.unread_init, List.nil_append, Bool.false_or] at h h'
  rw [← hflat, h] at h'
  obtain ⟨hp, he, -⟩ := Framing.Result.mk.inj h'
  exact ⟨hp, he, h⟩

/-- The same 26 bytes in one piece and cut inside the header: one packet. -/
theorem streamParser_refines_byteQueue_split :
    ∃ d d', (StreamParser.init (List.replicate 30 0)).feed .lp64
        [List.replicate 10 0, List.replicate 16 0] = some d ∧
      (StreamParser.init (List.replicate 30 0)).feed .lp64 [List.replicate 26 0] = some d' ∧
      d.packets.length = 1 ∧ d.packets = d'.packets := by
  have hbuf : (List.replicate 30 (0 : UInt8)).length < Arch.lp64.sizeBound := by decide
  have hcut : ((StreamParser.init (List.replicate 30 0)).feed .lp64
      [List.replicate 10 0, List.replicate 16 0]).map (·.packets.length) = some 1 := by
    decide +kernel
  have hwhole : ((StreamParser.init (List.replicate 30 0)).feed .lp64
      [List.replicate 26 0]).map (·.packets.length) = some 1 := by
    decide +kernel
  obtain ⟨d, hd, hlen⟩ := Option.map_eq_some_iff.mp hcut
  obtain ⟨d', hd', -⟩ := Option.map_eq_some_iff.mp hwhole
  have h := (streamParser_refines_byteQueue .lp64 ⟨_, hbuf⟩).2 _ _ d d' (by decide) hd hd'
  exact ⟨d, d', hd, hd', hlen, h.1⟩

end Savvy
