import Mathlib.Data.Nat.Find
import Savvy.Stream.Bzip

/-!
The streaming contract of libbz2, and what the loops of the codec make of it.
`Streaming` says of the library what the loops rely on: a call returns only when
its input is used up, its space is full or the stream ends, and what has come out
so far depends only on what has gone in. A loop then ends after a few turns,
since a turn that fills its space either fills the buffer, which doubles, or puts
out `UINT_MAX` bytes.
-/

namespace Savvy.Stream

/-! ### The contract -/

/-- The streaming contract, for inputs of at most `UINT_MAX` bytes. `encode x` is
the stream of `x`, and `decoded p` is what the bytes `p` of a stream determine of
its content. `Encoding .run x z` holds of a compressor that has taken `x` and put
out `z`, `Encoding .finish x z` of one that was also told that `x` is all, and
`Decoding p o` of a decompressor that has taken `p` and put out `o`. -/
structure Bz2.Streaming (B : Bz2) where
  encode : List UInt8 → List UInt8
  decoded : List UInt8 → List UInt8
  Encoding : BzAction → List UInt8 → List UInt8 → B.Compressor → Prop
  Decoding : List UInt8 → List UInt8 → B.Decompressor → Prop
  compressor : Encoding .run [] [] B.compressor
  decompressor : Decoding [] [] B.decompressor
  /-- A call stays within the input and the space that it is given. -/
  compress_within : ∀ c action input n,
    (B.compress c action input n).consumed ≤ input.length ∧
      (B.compress c action input n).produced.length ≤ n
  decompress_within : ∀ d input n,
    (B.decompress d input n).consumed ≤ input.length ∧
      (B.decompress d input n).produced.length ≤ n
  /-- `BZ_RUN` goes on until the input is used up or the space is full. -/
  run_step : ∀ x z c input n, Encoding .run x z c → (x ++ input).length ≤ uintMax →
    input ≠ [] → 0 < n →
      let r := B.compress c .run input n
      r.rc = .runOk ∧ Encoding .run (x ++ input.take r.consumed) (z ++ r.produced) r.stream ∧
        (r.consumed = input.length ∨ r.produced.length = n)
  /-- `BZ_FINISH` goes on until the stream ends or the space is full. -/
  finish_step : ∀ action x z c n, Encoding action x z c → x.length ≤ uintMax → 0 < n →
    let r := B.compress c .finish [] n
    (r.rc = .streamEnd ∧ z ++ r.produced = encode x) ∨
      (r.rc = .finishOk ∧ r.produced.length = n ∧ Encoding .finish x (z ++ r.produced) r.stream)
  /-- What has come out of a compressor is a front of the stream of whatever the
  whole input turns out to be, and the stream is not over. -/
  run_front : ∀ x y z c, Encoding .run x z c → (x ++ y).length ≤ uintMax →
    z <+: encode (x ++ y) ∧ z ≠ encode (x ++ y)
  finish_front : ∀ x z c, Encoding .finish x z c → x.length ≤ uintMax →
    z <+: encode x ∧ z ≠ encode x
  /-- The bound that `bzlib.h` documents. -/
  length_le : ∀ x, x.length ≤ uintMax → (encode x).length ≤ x.length + x.length / 100 + 600
  /-- Decoding inverts encoding, and what comes out of a decompressor is a front of
  what its input determines. -/
  decoded_encode : ∀ x, x.length ≤ uintMax → decoded (encode x) = x
  decoded_front : ∀ x p, x.length ≤ uintMax → p <+: encode x → decoded p <+: x
  decoding_front : ∀ p o d, Decoding p o d → o <+: decoded p
  /-- On the front of a stream, a decompressor ends exactly with the stream; before
  that it goes on until the space is full, or until the input is used up and all
  that it determines has come out. -/
  decompress_step : ∀ x p o d input n, x.length ≤ uintMax → Decoding p o d →
    p ++ input <+: encode x → 0 < n →
      let r := B.decompress d input n
      (r.rc = .streamEnd ∧ p ++ input.take r.consumed = encode x ∧
        o ++ r.produced = decoded (encode x)) ∨
      (r.rc = .ok ∧ Decoding (p ++ input.take r.consumed) (o ++ r.produced) r.stream ∧
        (r.produced.length = n ∨ (r.consumed = input.length ∧
          o ++ r.produced = decoded (p ++ input) ∧ p ++ input ≠ encode x)))

/-! ### Room -/

/-- The capacity in a turn that starts with `written` bytes in a block of `cap`. -/
def openCap (cap written : ℕ) : ℕ :=
  if written = cap then if cap = 0 then 4096 else cap * 2 else cap

/-- Doubling takes a capacity to `len`, and every doubling on the way starts within
`SIZE_MAX / 2`. -/
def GrowsTo (A : Arch) (cap len doublings : ℕ) : Prop :=
  len ≤ cap * 2 ^ doublings ∧ ∀ k < doublings, cap * 2 ^ k ≤ (A.sizeBound - 1) / 2

/-- A block that `len` bytes fit into after some doublings, and a number of chunks
of `UINT_MAX` bytes that are enough for what is still to come. -/
structure HasRoom (A : Arch) (len cap written doublings chunks : ℕ) : Prop where
  written_le : written ≤ cap
  written_lt : written < len
  half : written = cap → cap ≤ (A.sizeBound - 1) / 2
  grows : GrowsTo A (openCap cap written) len doublings
  left_le : len - written ≤ chunks * uintMax

section Room

variable {A : Arch} {len cap written doublings chunks : ℕ}

theorem written_lt_openCap (h : written ≤ cap) : written < openCap cap written := by
  unfold openCap
  split
  · split <;> omega
  · omega

theorem openCap_full_mul (hfull : written = cap) (hpos : 0 < cap) (k : ℕ) :
    openCap cap written * 2 ^ k = cap * 2 ^ (k + 1) := by
  rw [openCap, if_pos hfull, if_neg (Nat.ne_of_gt hpos), Nat.mul_assoc, ← Nat.pow_succ']

theorem space_pos (h : written ≤ cap) : 0 < min (openCap cap written - written) uintMax := by
  have := written_lt_openCap h
  unfold uintMax
  omega

/-- What `sensor_bzip_ensure_capacity` does at the start of a turn. -/
theorem bzipEnsureCapacity_open (hhalf : written = cap → cap ≤ (A.sizeBound - 1) / 2) :
    (if written = cap then bzipEnsureCapacity A cap (A.add written 1) true else some cap) =
      some (openCap cap written) := by
  unfold openCap
  split
  · next hfull =>
      subst hfull
      have hhalf := hhalf rfl
      split
      · next hzero =>
          subst hzero
          have hbound := A.two_pow_32_le_sizeBound
          rw [A.add_of_lt (by omega)]
          rfl
      · next hpos => exact bzipEnsureCapacity_full (Nat.pos_of_ne_zero hpos) hhalf
  · rfl

/-- A turn uses up at most one doubling or one chunk, and one that fills its space
does use one up. -/
theorem HasRoom.put (h : HasRoom A len cap written doublings chunks) {p : ℕ}
    (hp : p ≤ min (openCap cap written - written) uintMax) (hlt : written + p < len) :
    ∃ doublings' chunks', HasRoom A len (openCap cap written) (written + p) doublings' chunks' ∧
      doublings' + chunks' ≤ doublings + chunks ∧
      (p = min (openCap cap written - written) uintMax →
        doublings' + chunks' < doublings + chunks) := by
  have hopen := written_lt_openCap h.written_le
  obtain ⟨hlen, hdoubles⟩ := h.grows
  have hleft := h.left_le
  by_cases hfull : written + p = openCap cap written
  · -- the block is full, and the next turn doubles it
    obtain ⟨k, rfl⟩ : ∃ k, doublings = k + 1 := by
      rcases Nat.eq_zero_or_pos doublings with rfl | hpos
      · rw [Nat.pow_zero, Nat.mul_one] at hlen
        omega
      · exact ⟨doublings - 1, by omega⟩
    have hhalf := hdoubles 0 (Nat.succ_pos k)
    rw [Nat.pow_zero, Nat.mul_one] at hhalf
    have hpow := openCap_full_mul hfull (by omega)
    refine ⟨k, chunks, ⟨by omega, hlt, fun _ => hhalf, ⟨?_, ?_⟩, by omega⟩, by omega, by omega⟩
    · rw [hpow]
      exact hlen
    · intro j hj
      rw [hpow]
      exact hdoubles (j + 1) (by omega)
  · have hnext : openCap (openCap cap written) (written + p) = openCap cap written := by
      rw [openCap, if_neg hfull]
    have hroom : ∀ chunks', len - (written + p) ≤ chunks' * uintMax →
        HasRoom A len (openCap cap written) (written + p) doublings chunks' := by
      intro chunks' hchunks
      refine ⟨by omega, hlt, fun heq => absurd heq hfull, ?_, hchunks⟩
      rw [hnext]
      exact ⟨hlen, hdoubles⟩
    by_cases hspace : p = min (openCap cap written - written) uintMax
    · -- a whole chunk has come out
      have hp : p = uintMax := by omega
      obtain ⟨k, rfl⟩ : ∃ k, chunks = k + 1 := by
        rcases Nat.eq_zero_or_pos chunks with rfl | hpos
        · omega
        · exact ⟨chunks - 1, by omega⟩
      rw [Nat.add_mul, Nat.one_mul] at hleft
      exact ⟨doublings, k, hroom k (by omega), by omega, by omega⟩
    · exact ⟨doublings, chunks, hroom chunks (by omega), Nat.le_refl _, fun h => absurd h hspace⟩

theorem GrowsTo.few {k : ℕ} (h : GrowsTo A cap len doublings) (hcap : 0 < cap)
    (hlen : len ≤ 2 ^ k) : ∃ doublings' ≤ k, GrowsTo A cap len doublings' := by
  by_cases hk : doublings ≤ k
  · exact ⟨doublings, hk, h⟩
  · refine ⟨k, Nat.le_refl k, ?_, fun j hj => h.2 j (by omega)⟩
    exact Nat.le_trans hlen (Nat.le_mul_of_pos_left _ hcap)

/-- Up to half of the address space doubling always gets there. -/
theorem growsTo_of_le_half (hcap : 0 < cap) (hlen : len ≤ (A.sizeBound - 1) / 2 + 1) :
    ∃ doublings, GrowsTo A cap len doublings := by
  have hex : ∃ k, len ≤ cap * 2 ^ k :=
    ⟨len, Nat.le_trans (Nat.le_of_lt Nat.lt_two_pow_self) (Nat.le_mul_of_pos_left _ hcap)⟩
  refine ⟨Nat.find hex, Nat.find_spec hex, ?_⟩
  intro k hk
  have := Nat.find_min hex hk
  omega

end Room

/-! ### Compressing -/

theorem length_lt_of_front {z e : List UInt8} (h : z <+: e ∧ z ≠ e) : z.length < e.length :=
  Nat.lt_of_le_of_ne h.1.length_le fun heq => h.2 (h.1.eq_of_length heq)

section Compress

variable {A : Arch} {B : Bz2} (H : B.Streaming)

/-- The rest of the loop puts out the rest of the stream. -/
theorem bzipCompressLoop_streaming {x : List UInt8} (hx : x.length ≤ uintMax) {turns : ℕ}
    {action : BzAction} {taken z : List UInt8} {strm : B.Compressor}
    (hstrm : H.Encoding action taken z strm) {input : List UInt8} (hwhole : taken ++ input = x)
    (haction : action = .finish → input = []) {cap doublings chunks : ℕ}
    (hroom : HasRoom A (H.encode x).length cap z.length doublings chunks)
    (hturns : doublings + chunks + (if input = [] then 0 else 1) < turns) :
    bzipCompressLoop A B .enough turns strm input cap z = .ok (H.encode x) := by
  induction turns generalizing action taken z strm input cap doublings chunks with
  | zero => omega
  | succ turns ih =>
      have hensure : (if z.length = cap then
          bzipEnsureCapacity A cap (A.add z.length 1) (BzMemory.enough.realloc turns)
          else some cap) = some (openCap cap z.length) := bzipEnsureCapacity_open hroom.half
      have hspace := space_pos hroom.written_le
      simp only [bzipCompressLoop, hensure]
      by_cases hinput : input = []
      · subst hinput
        simp only [ne_eq, not_true, if_false]
        rw [List.append_nil] at hwhole
        subst hwhole
        rcases H.finish_step action taken z strm _ hstrm hx hspace with
          ⟨hend, hall⟩ | ⟨hok, hfull, hnext⟩
        · simp only [hend, hall]
        · have hlt := length_lt_of_front (H.finish_front _ _ _ hnext hx)
          rw [List.length_append] at hlt
          obtain ⟨doublings', chunks', hroom', -, hless⟩ := hroom.put (Nat.le_of_eq hfull) hlt
          rw [← List.length_append] at hroom'
          have hless := hless hfull
          simp only [hok, List.drop_nil]
          exact ih hnext (List.append_nil taken) (fun _ => rfl) hroom' (by simp at hturns ⊢; omega)
      · have hrun : action = .run := by
          cases action with
          | run => rfl
          | finish => exact absurd (haction rfl) hinput
        subst hrun
        rw [if_pos hinput]
        have hlen : (taken ++ input).length ≤ uintMax := hwhole ▸ hx
        obtain ⟨hok, hnext, hdone⟩ := H.run_step taken z strm input _ hstrm hlen hinput hspace
        have hwithin := (H.compress_within strm .run input
          (min (openCap cap z.length - z.length) uintMax)).2
        generalize B.compress strm .run input (min (openCap cap z.length - z.length) uintMax) = r
          at hok hnext hdone hwithin ⊢
        have hwhole' : taken ++ input.take r.consumed ++ input.drop r.consumed = x := by
          rw [List.append_assoc, List.take_append_drop, hwhole]
        have hlt := length_lt_of_front (H.run_front _ _ _ _ hnext (hwhole' ▸ hx))
        rw [hwhole', List.length_append] at hlt
        obtain ⟨doublings', chunks', hroom', hle, hless⟩ := hroom.put hwithin hlt
        rw [← List.length_append] at hroom'
        simp only [hok]
        refine ih hnext hwhole' (by simp) hroom' ?_
        rw [if_neg hinput] at hturns
        rcases hdone with hall | hfull
        · rw [hall, List.drop_length, if_pos rfl]
          omega
        · have hless := hless hfull
          split <;> omega

end Compress

/-! ### Decompressing -/

section Decompress

variable {A : Arch} {B : Bz2} (H : B.Streaming) {x : List UInt8} (hx : x.length ≤ uintMax)

include hx

/-- What comes out of a front of a stream is a front of its content. -/
theorem length_decoding_lt {p o : List UInt8} {strm : B.Decompressor}
    (hstrm : H.Decoding p o strm) (hfront : p <+: H.encode x) : o.length < x.length + 1 :=
  Nat.lt_succ_of_le ((H.decoding_front p o strm hstrm).trans (H.decoded_front x p hx hfront)).length_le

/-- A decompressor without input, from which all has come out that can: the turn
makes no progress. -/
theorem bzipDecompressLoop_stalled {turns : ℕ} {p : List UInt8} {strm : B.Decompressor}
    (hstrm : H.Decoding p (H.decoded p) strm) (hfront : p <+: H.encode x) (hcut : p ≠ H.encode x)
    {cap doublings chunks : ℕ}
    (hroom : HasRoom A (x.length + 1) cap (H.decoded p).length doublings chunks) :
    bzipDecompressLoop A B .enough (turns + 1) strm [] cap (H.decoded p) = .error .protocol := by
  have hensure : (if (H.decoded p).length = cap then
      bzipEnsureCapacity A cap (A.add (H.decoded p).length 1) (BzMemory.enough.realloc turns)
      else some cap) = some (openCap cap (H.decoded p).length) := bzipEnsureCapacity_open hroom.half
  have hspace := space_pos hroom.written_le
  simp only [bzipDecompressLoop, hensure]
  have hstep := H.decompress_step x p _ strm [] _ hx hstrm (by rwa [List.append_nil]) hspace
  have hwithin := (H.decompress_within strm [] (min (openCap cap (H.decoded p).length -
    (H.decoded p).length) uintMax)).1
  generalize B.decompress strm [] (min (openCap cap (H.decoded p).length -
    (H.decoded p).length) uintMax) = r at hstep hwithin ⊢
  simp only [List.take_nil, List.append_nil, List.length_nil] at hstep hwithin
  rcases hstep with ⟨-, hall, -⟩ | ⟨hok, hnext, -⟩
  · exact absurd hall hcut
  · have hnone : r.produced.length = 0 := by
      have := (H.decoding_front _ _ _ hnext).length_le
      rw [List.length_append] at this
      omega
    simp only [hok, hnone, Nat.le_zero.mp hwithin, and_self, if_true]

/-- The rest of the loop on the front of a stream: the content, or the verdict that
the data is cut off. -/
theorem bzipDecompressLoop_streaming {turns : ℕ} {p o : List UInt8} {strm : B.Decompressor}
    (hstrm : H.Decoding p o strm) {input : List UInt8} (hfront : p ++ input <+: H.encode x)
    {cap doublings chunks : ℕ} (hroom : HasRoom A (x.length + 1) cap o.length doublings chunks)
    (hturns : doublings + chunks + 1 < turns) :
    bzipDecompressLoop A B .enough turns strm input cap o =
      if p ++ input = H.encode x then .ok x else .error .protocol := by
  induction turns generalizing p o strm input cap doublings chunks with
  | zero => omega
  | succ turns ih =>
      have hensure : (if o.length = cap then
          bzipEnsureCapacity A cap (A.add o.length 1) (BzMemory.enough.realloc turns)
          else some cap) = some (openCap cap o.length) := bzipEnsureCapacity_open hroom.half
      have hspace := space_pos hroom.written_le
      simp only [bzipDecompressLoop, hensure]
      have hstep := H.decompress_step x p o strm input _ hx hstrm hfront hspace
      have hwithin := (H.decompress_within strm input
        (min (openCap cap o.length - o.length) uintMax)).2
      generalize B.decompress strm input (min (openCap cap o.length - o.length) uintMax) = r
        at hstep hwithin ⊢
      have hsplit : p ++ input.take r.consumed ++ input.drop r.consumed = p ++ input := by
        rw [List.append_assoc, List.take_append_drop]
      have hpart : p ++ input.take r.consumed <+: p ++ input := ⟨_, hsplit⟩
      rcases hstep with ⟨hend, hall, hout⟩ | ⟨hok, hnext, hdone⟩
      · -- the stream ends only behind its last byte
        have hwhole : p ++ input = H.encode x :=
          hfront.eq_of_length_le (by rw [← hall]; exact hpart.length_le)
        simp only [hend, hout, H.decoded_encode x hx, if_pos hwhole]
      · have hlt := length_decoding_lt H hx hnext (hpart.trans hfront)
        rw [List.length_append] at hlt
        obtain ⟨doublings', chunks', hroom', hle, hless⟩ := hroom.put hwithin hlt
        rw [← List.length_append] at hroom'
        simp only [hok]
        rcases hdone with hfull | ⟨hused, hout, hcut⟩
        · have hless := hless hfull
          rw [if_neg (by omega), ih hnext (by rwa [hsplit]) hroom' (by omega), hsplit]
        · rw [if_neg hcut]
          split
          · rfl
          · obtain ⟨turns, rfl⟩ : ∃ t, turns = t + 1 := ⟨turns - 1, by omega⟩
            rw [hused, List.take_length] at hnext
            rw [hout] at hnext hroom' ⊢
            rw [hused, List.drop_length]
            exact bzipDecompressLoop_stalled H hx hnext hfront hcut hroom'

end Decompress

/-! ### The first capacities -/

/-- The guess of `sensor_bzip_compress`, which may wrap. -/
def compressCap (A : Arch) (len : ℕ) : ℕ := A.add (A.add len (len / 100)) 600

/-- The guess of `sensor_bzip_decompress`. -/
def decompressCap (A : Arch) (len : ℕ) : ℕ :=
  let cap := if len > (A.sizeBound - 1) / 4 then A.sizeBound - 1 else len * 4
  if cap < 4096 then 4096 else cap

section FirstCap

variable {A : Arch}

theorem openCap_pos (cap : ℕ) : 0 < openCap cap 0 :=
  written_lt_openCap (Nat.zero_le cap)

theorem two_pow_33_le_sizeBound (h : A.width ≠ 32) : 2 ^ 33 ≤ A.sizeBound :=
  Nat.pow_le_pow_right (by decide) (by have := A.width_ge; omega)

/-- Everything that comes out is below two chunks, and doubling takes at most 34
turns. -/
theorem hasRoom_first {len cap : ℕ} (hpos : 0 < len) (hlen : len ≤ 2 ^ 33 - 2)
    (h : ∃ doublings, GrowsTo A (openCap cap 0) len doublings) :
    ∃ doublings ≤ 33, HasRoom A len cap 0 doublings 2 := by
  obtain ⟨doublings, hgrows⟩ := h
  obtain ⟨few, hfew, hgrows⟩ := hgrows.few (k := 33) (openCap_pos cap) (by omega)
  exact ⟨few, hfew, Nat.zero_le _, hpos, by omega, hgrows, by unfold uintMax; omega⟩

/-- With more than 32 bits the guess for compressing is the documented bound. -/
theorem growsTo_compressCap {len n : ℕ} (hwidth : A.width ≠ 32) (hn : n ≤ uintMax)
    (hlen : len ≤ n + n / 100 + 600) :
    ∃ doublings, GrowsTo A (openCap (compressCap A n) 0) len doublings := by
  have hbound := two_pow_33_le_sizeBound hwidth
  have hcap : compressCap A n = n + n / 100 + 600 := by
    unfold uintMax at hn
    have hsum : A.add n (n / 100) = n + n / 100 := A.add_of_lt (by omega)
    rw [compressCap, hsum, A.add_of_lt (by omega)]
  refine ⟨0, ?_, by simp⟩
  rw [hcap, openCap, if_neg (by omega), Nat.pow_zero, Nat.mul_one]
  exact hlen

/-- With more than 32 bits half of the address space is more than any content. -/
theorem growsTo_decompressCap {len n : ℕ} (hwidth : A.width ≠ 32) (hlen : len ≤ uintMax) :
    ∃ doublings, GrowsTo A (openCap (decompressCap A n) 0) (len + 1) doublings := by
  have hbound := two_pow_33_le_sizeBound hwidth
  unfold uintMax at hlen
  exact growsTo_of_le_half (openCap_pos _) (by omega)

end FirstCap

/-! ### The two functions -/

section Functions

variable {A : Arch} {B : Bz2} (H : B.Streaming) {input : Span A}

theorem not_null_nonempty (hnull : input.bytes = none → input.len = 0) :
    ¬ (input.bytes = none ∧ input.len > 0) := by
  rintro ⟨hnone, hpos⟩
  have := hnull hnone
  omega

theorem encode_ne_nil {x : List UInt8} (hx : x.length ≤ uintMax) : H.encode x ≠ [] :=
  fun h => (H.run_front [] x [] _ H.compressor hx).2 h.symm

/-- How many turns are enough: the doublings and chunks, one turn that uses up the
input, and one to end with. -/
def enoughTurns : ℕ := 37

/-- The loop of `sensor_bzip_compress` puts out the stream; with a 32-bit `size_t` as
long as doubling takes the guess to its length. -/
theorem bzipCompressLoop_first {x : List UInt8} (hx : x.length ≤ uintMax)
    (hgrows : A.width = 32 → ∃ doublings, GrowsTo A (openCap (compressCap A x.length) 0)
      (H.encode x).length doublings) {turns : ℕ} (hturns : enoughTurns ≤ turns) :
    bzipCompressLoop A B .enough turns B.compressor x (compressCap A x.length) [] =
      .ok (H.encode x) := by
  have hpos : 0 < (H.encode x).length := List.length_pos_iff.mpr (encode_ne_nil H hx)
  have hbound := H.length_le x hx
  have hgrows : ∃ doublings, GrowsTo A (openCap (compressCap A x.length) 0)
      (H.encode x).length doublings := by
    by_cases hwidth : A.width = 32
    · exact hgrows hwidth
    · exact growsTo_compressCap hwidth hx hbound
  obtain ⟨doublings, hfew, hroom⟩ := hasRoom_first hpos
    (by unfold uintMax at hx; omega) hgrows
  have hflag : (if x = [] then 0 else 1) ≤ 1 := by
    split <;> decide
  exact bzipCompressLoop_streaming H hx H.compressor (List.nil_append _) (by simp) hroom
    (by unfold enoughTurns at hturns; omega)

theorem bzipCompress_streaming (hnull : input.bytes = none → input.len = 0)
    (hlen : input.len ≤ uintMax)
    (hgrows : A.width = 32 → ∃ doublings, GrowsTo A (openCap (compressCap A input.len) 0)
      (H.encode input.content).length doublings) :
    bzipCompress B .enough input = .ok (H.encode input.content) := by
  have hcontent := Span.length_content hnull
  rw [bzipCompress, if_neg (not_null_nonempty hnull), if_neg (Nat.not_lt.mpr hlen)]
  simp only [BzMemory.enough, ne_eq, not_true, if_false, Bool.not_true, Bool.false_eq_true]
  rw [← hcontent] at hlen hgrows ⊢
  exact bzipCompressLoop_first H hlen hgrows (by decide)

/-- The loop of `sensor_bzip_decompress` on the front of a stream. -/
theorem bzipDecompressLoop_first {x data : List UInt8} (hx : x.length ≤ uintMax)
    (hfront : data <+: H.encode x)
    (hgrows : A.width = 32 → ∃ doublings, GrowsTo A (openCap (decompressCap A data.length) 0)
      (x.length + 1) doublings) {turns : ℕ} (hturns : enoughTurns ≤ turns) :
    bzipDecompressLoop A B .enough turns B.decompressor data (decompressCap A data.length) [] =
      if data = H.encode x then .ok x else .error .protocol := by
  have hgrows : ∃ doublings, GrowsTo A (openCap (decompressCap A data.length) 0)
      (x.length + 1) doublings := by
    by_cases hwidth : A.width = 32
    · exact hgrows hwidth
    · exact growsTo_decompressCap hwidth hx
  obtain ⟨doublings, hfew, hroom⟩ := hasRoom_first (Nat.succ_pos _)
    (by unfold uintMax at hx; omega) hgrows
  exact bzipDecompressLoop_streaming H hx H.decompressor hfront hroom
    (by unfold enoughTurns at hturns; omega)

/-- Decompressing a front of a stream: only the whole of it is accepted. -/
theorem bzipDecompress_streaming {x : List UInt8} (hx : x.length ≤ uintMax)
    (hfront : input.content <+: H.encode x) (hnull : input.bytes = none → input.len = 0)
    (hlen : input.len ≤ uintMax)
    (hgrows : A.width = 32 → ∃ doublings, GrowsTo A (openCap (decompressCap A input.len) 0)
      (x.length + 1) doublings) :
    bzipDecompress B .enough input =
      if input.content = H.encode x then .ok x else .error .protocol := by
  have hcontent := Span.length_content hnull
  rw [bzipDecompress, if_neg (not_null_nonempty hnull), if_neg (Nat.not_lt.mpr hlen)]
  split
  · next hzero =>
      -- no stream is empty
      rw [hzero, List.length_eq_zero_iff] at hcontent
      rw [if_neg (by rw [hcontent]; exact (encode_ne_nil H hx).symm)]
  · simp only [BzMemory.enough, ne_eq, not_true, if_false, Bool.not_true, Bool.false_eq_true]
    rw [← hcontent] at hgrows ⊢
    exact bzipDecompressLoop_first H hx hfront hgrows (by decide)

end Functions

end Savvy.Stream
