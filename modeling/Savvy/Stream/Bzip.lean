import Mathlib.Data.List.Induction
import Savvy.Core.SizeT
import Savvy.Core.Status

/-!
The bzip2 codec (`src/features/compression/bzip_codec.c`). libbz2 is not part of
the repository: a compressor and a decompressor are given by what their calls
return, and `Documented` says of them what the manual says. The loops of the two
functions hand the library output space as they go; the limit on their turns is
the number the recursion is on.
-/

namespace Savvy.Stream

/-! ### The library -/

/-- The return codes that the code tells apart. -/
inductive BzRc
  | ok
  | runOk
  | finishOk
  | streamEnd
  | memError
  | other
  deriving DecidableEq, Repr

inductive BzAction
  | run
  | finish
  deriving DecidableEq, Repr

/-- What a call returns: its code, how much of the input it took, the bytes it
put out, and the stream behind it. -/
structure BzStep (σ : Type) where
  rc : BzRc
  consumed : ℕ
  produced : List UInt8
  stream : σ

/-- libbz2: the streams behind a successful init, and `BZ2_bzCompress` and
`BZ2_bzDecompress` on the input that is left and a number of free bytes. -/
structure Bz2 where
  Compressor : Type
  Decompressor : Type
  compressor : Compressor
  decompressor : Decompressor
  compress : Compressor → BzAction → List UInt8 → ℕ → BzStep Compressor
  decompress : Decompressor → List UInt8 → ℕ → BzStep Decompressor

/-- What the manual says. `Stream x z` is that `z` is a compressed form of `x`;
`Encoding x z` holds of a compressor that has taken `x` and put out `z`, and
`Decoding x rest k` of a decompressor of a form of `x` that still has `rest` to
take and has put out the first `k` bytes. -/
structure Bz2.Documented (B : Bz2) (Stream : List UInt8 → List UInt8 → Prop) where
  Encoding : List UInt8 → List UInt8 → B.Compressor → Prop
  Decoding : List UInt8 → List UInt8 → ℕ → B.Decompressor → Prop
  /-- A new compressor has taken and put out nothing. -/
  compressor : Encoding [] [] B.compressor
  /-- `BZ_RUN` does not end the stream, `BZ_FINISH` without input does. -/
  run_ne_end : ∀ c input n, (B.compress c .run input n).rc ≠ .streamEnd
  compress_step : ∀ x z c action input n, Encoding x z c →
    (B.compress c action input n).rc = .runOk ∨ (B.compress c action input n).rc = .finishOk →
    Encoding (x ++ input.take (B.compress c action input n).consumed)
      (z ++ (B.compress c action input n).produced) (B.compress c action input n).stream
  compress_end : ∀ x z c n, Encoding x z c → (B.compress c .finish [] n).rc = .streamEnd →
    Stream x (z ++ (B.compress c .finish [] n).produced)
  /-- A stream is not empty, and is at most a hundredth and 600 bytes longer than
  what it stands for. -/
  ne_nil : ∀ x z, Stream x z → z ≠ []
  length_le : ∀ x z, Stream x z → z.length ≤ x.length + x.length / 100 + 600
  /-- A new decompressor has the whole stream before it. -/
  decompressor : ∀ x z, Stream x z → Decoding x z 0 B.decompressor
  /-- A call goes on until the output is full or the stream ends. -/
  decompress_step : ∀ x rest k d n, Decoding x rest k d → 0 < n →
    ((B.decompress d rest n).rc = .streamEnd ∧ (B.decompress d rest n).produced = x.drop k) ∨
      ((B.decompress d rest n).rc = .ok ∧
        (B.decompress d rest n).produced = (x.drop k).take n ∧
        (B.decompress d rest n).produced.length = n ∧
        Decoding x (rest.drop (B.decompress d rest n).consumed) (k + n)
          (B.decompress d rest n).stream)

/-! ### The code -/

/-- `SENSOR_BZIP_MAX_INPUT`, `UINT_MAX`. -/
def uintMax : ℕ := 2 ^ 32 - 1

def bzipMaxLoopIterations : ℕ := 10000000

/-- The loop of `sensor_bzip_ensure_capacity`; every turn doubles a capacity that
is not zero. -/
def growLoop (A : Arch) (needed : ℕ) : ℕ → ℕ → ℕ
  | 0, newCap => newCap
  | turns + 1, newCap =>
      if newCap < needed then
        if newCap > (A.sizeBound - 1) / 2 then needed else growLoop A needed turns (newCap * 2)
      else newCap

/-- `sensor_bzip_ensure_capacity`: the new capacity, if `realloc` succeeds. -/
def bzipEnsureCapacity (A : Arch) (cap needed : ℕ) (realloc : Bool) : Option ℕ :=
  if needed ≤ cap then some cap
  else if realloc then some (growLoop A needed needed (if cap = 0 then 4096 else cap))
  else none

/-- The memory of a call: what the library's init returns, and whether the first
allocation and the one in each turn succeed. -/
structure BzMemory where
  init : BzRc
  malloc : Bool
  realloc : ℕ → Bool

def BzMemory.enough : BzMemory := ⟨.ok, true, fun _ => true⟩

def bzipCompressLoop (A : Arch) (B : Bz2) (m : BzMemory) :
    ℕ → B.Compressor → List UInt8 → ℕ → List UInt8 → Except Status (List UInt8)
  | 0, _, _, _, _ => .error .unknown
  | turns + 1, strm, input, cap, out =>
      match if out.length = cap then
          bzipEnsureCapacity A cap (A.add out.length 1) (m.realloc turns)
        else some cap with
      | none => .error .outOfMemory
      | some cap =>
          let r := B.compress strm (if input ≠ [] then .run else .finish) input
            (min (cap - out.length) uintMax)
          let out := out ++ r.produced
          match r.rc with
          | .streamEnd => .ok out
          | .runOk | .finishOk =>
              bzipCompressLoop A B m turns r.stream (input.drop r.consumed) cap out
          | _ => .error .unknown

/-- What a failed init comes to. -/
def initError (rc : BzRc) : Status := if rc = .memError then .outOfMemory else .unknown

def bzipCompress {A : Arch} (B : Bz2) (m : BzMemory) (input : Span A) :
    Except Status (List UInt8) :=
  if input.bytes = none ∧ input.len > 0 then .error .invalidArgument
  else if input.len > uintMax then .error .overflow
  else if m.init ≠ .ok then .error (initError m.init)
  else if !m.malloc then .error .outOfMemory
  else
    bzipCompressLoop A B m bzipMaxLoopIterations B.compressor input.content
      (A.add (A.add input.len (input.len / 100)) 600) []

def bzipDecompressLoop (A : Arch) (B : Bz2) (m : BzMemory) :
    ℕ → B.Decompressor → List UInt8 → ℕ → List UInt8 → Except Status (List UInt8)
  | 0, _, _, _, _ => .error .unknown
  | turns + 1, strm, input, cap, out =>
      match if out.length = cap then
          bzipEnsureCapacity A cap (A.add out.length 1) (m.realloc turns)
        else some cap with
      | none => .error .outOfMemory
      | some cap =>
          let r := B.decompress strm input (min (cap - out.length) uintMax)
          let out := out ++ r.produced
          match r.rc with
          | .streamEnd => .ok out
          | .ok =>
              -- the data ends before the stream does
              if r.produced.length = 0 ∧ r.consumed = 0 then .error .protocol
              else bzipDecompressLoop A B m turns r.stream (input.drop r.consumed) cap out
          | .memError => .error .outOfMemory
          | _ => .error .protocol

def bzipDecompress {A : Arch} (B : Bz2) (m : BzMemory) (input : Span A) :
    Except Status (List UInt8) :=
  if input.bytes = none ∧ input.len > 0 then .error .invalidArgument
  else if input.len > uintMax then .error .overflow
  else if input.len = 0 then .error .protocol
  else if m.init ≠ .ok then .error (initError m.init)
  else if !m.malloc then .error .outOfMemory
  else
    let cap := if input.len > (A.sizeBound - 1) / 4 then A.sizeBound - 1 else input.len * 4
    bzipDecompressLoop A B m bzipMaxLoopIterations B.decompressor input.content
      (if cap < 4096 then 4096 else cap) []

/-! ### Compressing -/

section Compress

variable {A : Arch} {B : Bz2} {Stream : List UInt8 → List UInt8 → Prop}

/-- What comes out of the loop is a compressed form of what went in. -/
theorem bzipCompressLoop_ok (hB : B.Documented Stream) {m : BzMemory} {turns : ℕ} {x z : List UInt8}
    {strm : B.Compressor} (hstrm : hB.Encoding x z strm) {input : List UInt8} {cap : ℕ}
    {out : List UInt8} (h : bzipCompressLoop A B m turns strm input cap z = .ok out) :
    Stream (x ++ input) out := by
  induction turns generalizing x z strm input cap with
  | zero => simp [bzipCompressLoop] at h
  | succ turns ih =>
      simp only [bzipCompressLoop] at h
      split at h
      · exact absurd h (by simp)
      · next cap' _ =>
          have hstep := hB.compress_step x z strm (if input ≠ [] then .run else .finish) input
            (min (cap' - z.length) uintMax) hstrm
          split at h
          · next hend =>
              -- the stream ends only behind the whole input
              by_cases hinput : input = []
              · subst hinput
                simp only [ne_eq, not_true, if_false] at hend h
                cases h
                simpa using hB.compress_end x z strm _ hstrm hend
              · rw [if_pos hinput] at hend
                exact absurd hend (hB.run_ne_end _ _ _)
          · next hrun =>
              have := ih (hstep (.inl hrun)) h
              rwa [List.append_assoc, List.take_append_drop] at this
          · next hfinish =>
              have := ih (hstep (.inr hfinish)) h
              rwa [List.append_assoc, List.take_append_drop] at this
          · exact absurd h (by simp)

theorem bzipCompressLoop_not_overflow {m : BzMemory} (turns : ℕ) (strm : B.Compressor)
    (input : List UInt8) (cap : ℕ) (z : List UInt8) :
    bzipCompressLoop A B m turns strm input cap z ≠ .error .overflow := by
  induction turns generalizing strm input cap z with
  | zero => simp [bzipCompressLoop]
  | succ turns ih =>
      simp only [bzipCompressLoop]
      split
      · simp
      · split
        · simp
        · exact ih _ _ _ _
        · exact ih _ _ _ _
        · simp

theorem bzipCompress_ok (hB : B.Documented Stream) {m : BzMemory} {input : Span A}
    {out : List UInt8} (h : bzipCompress B m input = .ok out) :
    Stream input.content out ∧ input.content.length = input.len ∧ input.len ≤ uintMax := by
  unfold bzipCompress at h
  split at h
  · exact absurd h (by simp)
  next hnull =>
    split at h
    · exact absurd h (by simp)
    next hlen =>
      split at h
      · exact absurd h (by simp)
      split at h
      · exact absurd h (by simp)
      · refine ⟨?_, Span.length_content fun hnone => ?_, Nat.not_lt.mp hlen⟩
        · simpa using bzipCompressLoop_ok hB hB.compressor h
        · by_contra hne
          exact hnull ⟨hnone, Nat.pos_of_ne_zero hne⟩

theorem initError_ne_overflow (rc : BzRc) : initError rc ≠ .overflow := by
  unfold initError
  split <;> simp

theorem bzipCompress_not_overflow {m : BzMemory} {input : Span A} (hlen : input.len ≤ uintMax) :
    bzipCompress B m input ≠ .error .overflow := by
  rw [bzipCompress, if_neg (Nat.not_lt.mpr hlen)]
  split
  · simp
  · split
    · simpa using initError_ne_overflow m.init
    · split
      · simp
      · exact bzipCompressLoop_not_overflow _ _ _ _ _

end Compress

/-! ### Decompressing -/

section Decompress

variable {A : Arch} {B : Bz2} {Stream : List UInt8 → List UInt8 → Prop}

theorem bzipEnsureCapacity_full {cap : ℕ} (hpos : 0 < cap) (hhalf : cap ≤ (A.sizeBound - 1) / 2) :
    bzipEnsureCapacity A cap (A.add cap 1) true = some (cap * 2) := by
  have hbound := A.two_pow_32_le_sizeBound
  rw [A.add_of_lt (by omega)]
  have hcap : cap ≠ 0 := Nat.ne_of_gt hpos
  have hnot : ¬ cap + 1 ≤ cap := by omega
  have hlt : cap < cap + 1 := by omega
  have hgrow : ¬ cap > (A.sizeBound - 1) / 2 := Nat.not_lt.mpr hhalf
  have hdone : ¬ cap * 2 < cap + 1 := by omega
  simp only [bzipEnsureCapacity, if_neg hnot, if_true, if_neg hcap, growLoop, if_pos hlt,
    if_neg hgrow]
  cases cap with
  | zero => exact absurd rfl hcap
  | succ n => rw [growLoop, if_neg hdone]

/-- The capacity in a turn that starts with `k` bytes written. -/
def turnCap (cap k : ℕ) : ℕ := if k = cap then cap * 2 else cap

/-- One turn of the loop: it ends with everything, or it has filled the space
that it had. -/
theorem bzipDecompressLoop_turn (hB : B.Documented Stream) {x : List UInt8}
    (hhalf : x.length ≤ (A.sizeBound - 1) / 2) {strm : B.Decompressor} {rest : List UInt8} {k cap : ℕ}
    (hstrm : hB.Decoding x rest k strm) (hk : k ≤ x.length) (hcap : k ≤ cap) (hpos : 0 < cap)
    (turns : ℕ) :
    bzipDecompressLoop A B .enough (turns + 1) strm rest cap (x.take k) = .ok x ∨
      ∃ strm' rest', hB.Decoding x rest' (k + min (turnCap cap k - k) uintMax) strm' ∧
        k + min (turnCap cap k - k) uintMax ≤ x.length ∧
        bzipDecompressLoop A B .enough (turns + 1) strm rest cap (x.take k) =
          bzipDecompressLoop A B .enough turns strm' rest' (turnCap cap k)
            (x.take (k + min (turnCap cap k - k) uintMax)) := by
  have hlen : (x.take k).length = k := by simp [hk]
  have hensure : (if k = cap then
      bzipEnsureCapacity A cap (A.add k 1) (BzMemory.enough.realloc turns)
      else some cap) = some (turnCap cap k) := by
    rw [turnCap]
    by_cases hfull : k = cap
    · rw [if_pos hfull, if_pos hfull, hfull]
      exact bzipEnsureCapacity_full hpos (by omega)
    · rw [if_neg hfull, if_neg hfull]
  have hspace : 0 < min (turnCap cap k - k) uintMax := by
    unfold turnCap uintMax
    split <;> omega
  generalize hn : min (turnCap cap k - k) uintMax = n at hspace ⊢
  rcases hB.decompress_step x rest k strm n hstrm hspace with
    ⟨hend, hproduced⟩ | ⟨hok, hproduced, hfull, hnext⟩
  · left
    simp only [bzipDecompressLoop, hlen, hensure, hn, hend, hproduced, List.take_append_drop]
  · right
    have hroom : k + n ≤ x.length := by
      rw [hproduced, List.length_take, List.length_drop] at hfull
      omega
    have hsome : ¬ ((B.decompress strm rest n).produced.length = 0 ∧
        (B.decompress strm rest n).consumed = 0) := by
      rintro ⟨hzero, -⟩
      omega
    refine ⟨_, _, hnext, hroom, ?_⟩
    simp only [bzipDecompressLoop, hlen, hensure, hn, hok, if_neg hsome]
    rw [hproduced, ← List.take_add]

/-- With everything written the next turn is the last one. -/
theorem bzipDecompressLoop_last (hB : B.Documented Stream) {x : List UInt8}
    (hhalf : x.length ≤ (A.sizeBound - 1) / 2) {strm : B.Decompressor} {rest : List UInt8} {cap : ℕ}
    (hstrm : hB.Decoding x rest x.length strm) (hcap : x.length ≤ cap) (hpos : 0 < cap)
    (turns : ℕ) :
    bzipDecompressLoop A B .enough (turns + 1) strm rest cap (x.take x.length) = .ok x := by
  rcases bzipDecompressLoop_turn hB hhalf hstrm (Nat.le_refl _) hcap hpos turns with
    hdone | ⟨_, _, -, hroom, -⟩
  · exact hdone
  · unfold turnCap uintMax at hroom
    split at hroom <;> omega

/-- The space doubles from turn to turn, so a few turns are enough. -/
theorem bzipDecompressLoop_ok (hB : B.Documented Stream) {x : List UInt8}
    (hlen : x.length ≤ uintMax) (hhalf : x.length ≤ (A.sizeBound - 1) / 2) (doublings : ℕ)
    {turns : ℕ} {strm : B.Decompressor} {rest : List UInt8} {k cap : ℕ}
    (hstrm : hB.Decoding x rest k strm) (hk : k ≤ x.length) (hcap : k ≤ cap) (hpos : 0 < cap)
    (hspace : x.length ≤ turnCap cap k * 2 ^ doublings) (hturns : doublings + 2 ≤ turns) :
    bzipDecompressLoop A B .enough turns strm rest cap (x.take k) = .ok x := by
  induction doublings generalizing turns strm rest k cap with
  | zero =>
      obtain ⟨turns, rfl⟩ : ∃ t, turns = t + 2 := ⟨turns - 2, by omega⟩
      rcases bzipDecompressLoop_turn hB hhalf hstrm hk hcap hpos (turns + 1) with
        hdone | ⟨strm', rest', hstrm', hroom, hnext⟩
      · exact hdone
      · have hall : k + min (turnCap cap k - k) uintMax = x.length := by
          rw [Nat.pow_zero, Nat.mul_one] at hspace
          omega
        rw [hnext, hall]
        rw [hall] at hstrm'
        apply bzipDecompressLoop_last hB hhalf hstrm'
        · omega
        · unfold turnCap
          split <;> omega
  | succ doublings ih =>
      obtain ⟨turns, rfl⟩ : ∃ t, turns = t + 2 := ⟨turns - 2, by omega⟩
      rcases bzipDecompressLoop_turn hB hhalf hstrm hk hcap hpos (turns + 1) with
        hdone | ⟨strm', rest', hstrm', hroom, hnext⟩
      · exact hdone
      have hgrown : 0 < turnCap cap k := by
        unfold turnCap
        split <;> omega
      have hroomCap : k + min (turnCap cap k - k) uintMax ≤ turnCap cap k := by
        have : k ≤ turnCap cap k := by
          unfold turnCap
          split <;> omega
        omega
      rw [hnext]
      by_cases hall : k + min (turnCap cap k - k) uintMax = x.length
      · rw [hall] at hstrm' hroomCap ⊢
        exact bzipDecompressLoop_last hB hhalf hstrm' hroomCap hgrown turns
      · -- the block is full, and the next turn doubles it
        have hfull : k + min (turnCap cap k - k) uintMax = turnCap cap k := by omega
        apply ih hstrm' hroom hroomCap hgrown
        · rw [turnCap, if_pos hfull, Nat.mul_assoc, ← Nat.pow_succ']
          exact hspace
        · omega

theorem bzipDecompress_ok (hB : B.Documented Stream) {x : List UInt8} {input : Span A}
    (hstream : Stream x input.content) (hnull : input.bytes ≠ none) (hinput : input.len ≤ uintMax)
    (hlen : x.length ≤ uintMax) (hhalf : x.length ≤ (A.sizeBound - 1) / 2) :
    bzipDecompress B .enough input = .ok x := by
  have hcontent : input.content.length = input.len :=
    Span.length_content fun h => absurd h hnull
  have hne : input.len ≠ 0 := by
    intro hzero
    rw [hzero, List.length_eq_zero_iff] at hcontent
    exact hB.ne_nil _ _ hstream hcontent
  have hbytes : ¬ (input.bytes = none ∧ input.len > 0) := fun h => hnull h.1
  rw [bzipDecompress, if_neg hbytes, if_neg (Nat.not_lt.mpr hinput), if_neg hne]
  simp only [BzMemory.enough, ne_eq, not_true, if_false, Bool.not_true, Bool.false_eq_true]
  generalize hcap : (if input.len > (A.sizeBound - 1) / 4 then A.sizeBound - 1
    else input.len * 4) = cap
  have hmin : 4096 ≤ if cap < 4096 then 4096 else cap := by
    split <;> omega
  apply bzipDecompressLoop_ok hB hlen hhalf 20 (hB.decompressor x _ hstream) (Nat.zero_le _)
    (Nat.zero_le _) (by omega)
  · rw [turnCap, if_neg (by omega)]
    unfold uintMax at hlen
    omega
  · decide

end Decompress

/-! ### A library over a codec -/

/-- A way to compress whole strings and to get them back. -/
structure BzCodec where
  encode : List UInt8 → List UInt8
  decode : List UInt8 → Option (List UInt8)
  decode_encode : ∀ x, decode (encode x) = some x
  encode_ne_nil : ∀ x, encode x ≠ []
  length_encode_le : ∀ x, (encode x).length ≤ x.length + x.length / 100 + 600

/-- The library that takes its input as a whole and gives out what the codec
makes of it piece by piece. Input behind the first output is a sequence error. -/
def BzCodec.library (C : BzCodec) : Bz2 where
  Compressor := List UInt8 × List UInt8
  Decompressor := List UInt8 × ℕ
  compressor := ([], [])
  decompressor := ([], 0)
  compress strm action input n :=
    match action with
    | .run =>
        if strm.2 = [] then ⟨.runOk, input.length, [], (strm.1 ++ input, [])⟩
        else ⟨.other, 0, [], strm⟩
    | .finish =>
        if input = [] then
          let rest := (C.encode strm.1).drop strm.2.length
          if rest.length ≤ n then ⟨.streamEnd, 0, rest, (strm.1, strm.2 ++ rest)⟩
          else ⟨.finishOk, 0, rest.take n, (strm.1, strm.2 ++ rest.take n)⟩
        else ⟨.other, 0, [], strm⟩
  decompress strm input n :=
    match C.decode (strm.1 ++ input) with
    | none => ⟨.other, 0, [], strm⟩
    | some x =>
        let rest := x.drop strm.2
        if rest.length ≤ n then ⟨.streamEnd, input.length, rest, (strm.1 ++ input, x.length)⟩
        else ⟨.ok, input.length, rest.take n, (strm.1 ++ input, strm.2 + n)⟩

namespace BzCodec

variable (C : BzCodec)

theorem library_run_ne_end (strm : C.library.Compressor) (input : List UInt8) (n : ℕ) :
    (C.library.compress strm .run input n).rc ≠ .streamEnd := by
  simp only [library]
  split <;> simp

/-- A compressor knows what it has taken, and has put out a piece of its form. -/
theorem library_compress_step (x z : List UInt8) (action : BzAction) (input : List UInt8) (n : ℕ)
    (hfront : z <+: C.encode x)
    (hrc : (C.library.compress (x, z) action input n).rc = .runOk ∨
      (C.library.compress (x, z) action input n).rc = .finishOk) :
    let r := C.library.compress (x, z) action input n
    r.stream = (x ++ input.take r.consumed, z ++ r.produced) ∧
      z ++ r.produced <+: C.encode (x ++ input.take r.consumed) := by
  cases action with
  | run =>
      simp only [library] at hrc ⊢
      by_cases hz : z = []
      · subst hz
        simp
      · simp [if_neg hz] at hrc
  | finish =>
      simp only [library] at hrc ⊢
      by_cases hinput : input = []
      · simp only [if_pos hinput] at hrc ⊢
        split at hrc
        · simp at hrc
        next hmore =>
          simp only [if_neg hmore]
          obtain ⟨rest, hrest⟩ := hfront
          rw [← hrest, List.drop_left, List.take_zero, List.append_nil, ← hrest]
          refine ⟨rfl, ?_⟩
          apply (List.prefix_append_right_inj z).mpr
          exact List.take_prefix n rest
      · simp [if_neg hinput] at hrc

theorem library_compress_end (x z : List UInt8) (n : ℕ) (hfront : z <+: C.encode x)
    (hrc : (C.library.compress (x, z) .finish [] n).rc = .streamEnd) :
    z ++ (C.library.compress (x, z) .finish [] n).produced = C.encode x := by
  obtain ⟨rest, hrest⟩ := hfront
  simp only [library, if_true] at hrc ⊢
  split at hrc
  · next hall =>
      rw [if_pos hall, ← hrest, List.drop_left]
  · simp at hrc

def library_documented : C.library.Documented fun x z => z = C.encode x where
  Encoding x z strm := strm = (x, z) ∧ z <+: C.encode x
  Decoding x rest k strm := strm.2 = k ∧ C.decode (strm.1 ++ rest) = some x
  compressor := ⟨rfl, List.nil_prefix⟩
  run_ne_end := C.library_run_ne_end
  compress_step := by
    rintro x z strm action input n ⟨rfl, hfront⟩ hrc
    exact C.library_compress_step x z action input n hfront hrc
  compress_end := by
    rintro x z strm n ⟨rfl, hfront⟩ hrc
    exact C.library_compress_end x z n hfront hrc
  ne_nil := by
    rintro x z rfl
    exact C.encode_ne_nil x
  length_le := by
    rintro x z rfl
    exact C.length_encode_le x
  decompressor := by
    rintro x z rfl
    exact ⟨rfl, C.decode_encode x⟩
  decompress_step := by
    rintro x rest k strm n ⟨rfl, hdecode⟩ -
    simp only [library, hdecode]
    by_cases hall : (x.drop strm.2).length ≤ n
    · left
      simp only [if_pos hall, and_self]
    · right
      have hfull : ((x.drop strm.2).take n).length = n := by
        rw [List.length_take]
        omega
      simp only [if_neg hall, hfull, List.drop_length, List.append_nil, hdecode, and_self]

end BzCodec

def bzipOfNil : List UInt8 := [66, 90, 104, 57, 23, 114, 69, 56, 80, 144, 0, 0, 0, 0]

def bzipOfThree : List UInt8 :=
  [66, 90, 104, 57, 49, 65, 89, 38, 83, 89, 228, 242, 150, 174, 0, 0, 0, 64, 0, 56, 0, 32, 0, 33,
    152, 25, 132, 97, 119, 36, 83, 133, 9, 14, 79, 41, 106, 224]

/-- A codec that agrees with bzip2 on these two inputs; it stores other inputs
behind an empty stream. -/
def storingCodec : BzCodec where
  encode x := if x = [1, 2, 3] then bzipOfThree else bzipOfNil ++ x
  decode z := if z = bzipOfThree then some [1, 2, 3] else some (z.drop bzipOfNil.length)
  decode_encode x := by
    by_cases hx : x = [1, 2, 3]
    · simp [hx]
    · have hne : bzipOfNil ++ x ≠ bzipOfThree := by
        simp [bzipOfNil, bzipOfThree]
      rw [if_neg hx, if_neg hne, List.drop_left]
  encode_ne_nil x := by
    split <;> simp [bzipOfNil, bzipOfThree]
  length_encode_le x := by
    split
    · simp [bzipOfThree]
    · simp [bzipOfNil]
      omega

end Savvy.Stream
