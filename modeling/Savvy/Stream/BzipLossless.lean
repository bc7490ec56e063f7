import Mathlib.Data.Set.Finite.List
import Savvy.Stream.BzipBuffer

/-!
The bzip2 codec is lossless and all or nothing, within its limits. The
decompressor takes at most `UINT_MAX` bytes, and no code without loss keeps all
streams of inputs of that size below it. A 32-bit buffer doubles only up to half
of the address space; behind that it grows by single bytes, and the cap on
iterations ends the loop.
-/

namespace Savvy.Stream

/-! ### The round trip -/

/-- For every input of at most `UINT_MAX` bytes, with enough memory: compressing
delivers the stream of the input; decompressing a front of that stream, of at most
`UINT_MAX` bytes itself, delivers the input if the front is all of it, and
otherwise `SAVVY_ERR_PROTOCOL` with the arguments untouched; both loops take a few
turns. With a 32-bit `size_t` that is for outputs that doubling reaches. Whatever
the memory and the data are, every write is inside of the buffer. -/
theorem bzip_lossless {A : Arch} {B : Bz2} (H : B.Streaming) (heap : BzHeap)
    (hheap : heap.toBzMemory = .enough) (input : Span A)
    (hnull : input.bytes = none → input.len = 0) (hlen : input.len ≤ uintMax) :
    ((A.width = 32 → ∃ doublings, GrowsTo A (openCap (compressCap A input.len) 0)
        (H.encode input.content).length doublings) →
      ∀ out, ∃ ret, bzipCompressAt B heap input (some out) = some ret ∧
        ret.Delivers out (.ok (H.encode input.content)) ∧ ret.turns.length ≤ enoughTurns) ∧
    (∀ data : Span A, (data.bytes = none → data.len = 0) → data.len ≤ uintMax →
      data.content <+: H.encode input.content →
      (A.width = 32 → ∃ doublings, GrowsTo A (openCap (decompressCap A data.len) 0)
        (input.len + 1) doublings) →
      ∀ out, ∃ ret, bzipDecompressAt B heap data (some out) = some ret ∧
        ret.Delivers out (if data.content = H.encode input.content then .ok input.content
          else .error .protocol) ∧ ret.turns.length ≤ enoughTurns) ∧
    ∀ (heap' : BzHeap) (data : Span A) (out : Option OutArgs),
      (∃ ret, bzipCompressAt B heap' data out = some ret ∧ ret.Contained A) ∧
      ∃ ret, bzipDecompressAt B heap' data out = some ret ∧ ret.Contained A := by
  have hx : input.content.length ≤ uintMax := by
    rw [Span.length_content hnull]
    exact hlen
  have hcompress : ∀ c action bytes n, (B.compress c action bytes n).produced.length ≤ n :=
    fun c action bytes n => (H.compress_within c action bytes n).2
  have hdecompress : ∀ d bytes n, (B.decompress d bytes n).produced.length ≤ n :=
    fun d bytes n => (H.decompress_within d bytes n).2
  refine ⟨?_, ?_, ?_⟩
  · intro hgrows out
    obtain ⟨ret, hret, hdelivers, -, hfew⟩ := bzipCompressAt_refines hcompress heap input out
    rw [hheap, bzipCompress_streaming H hnull hlen hgrows] at hdelivers
    refine ⟨ret, hret, hdelivers, hfew hheap enoughTurns ?_⟩
    rw [← Span.length_content hnull] at hgrows ⊢
    rw [bzipCompressLoop_first H hx hgrows (Nat.le_refl _)]
    simp
  · intro data hdata hdlen hfront hgrows out
    rw [← Span.length_content hnull] at hgrows
    obtain ⟨ret, hret, hdelivers, -, hfew⟩ := bzipDecompressAt_refines hdecompress heap data out
    rw [hheap, bzipDecompress_streaming H hx hfront hdata hdlen hgrows] at hdelivers
    refine ⟨ret, hret, hdelivers, hfew hheap enoughTurns ?_⟩
    rw [← Span.length_content hdata] at hgrows ⊢
    rw [bzipDecompressLoop_first H hx hfront hgrows (Nat.le_refl _)]
    split <;> simp
  · intro heap' data out
    cases out with
    | none => exact ⟨⟨_, rfl, contained_nil _ _⟩, _, rfl, contained_nil _ _⟩
    | some out =>
        obtain ⟨ret, hret, -, hcontained, -⟩ := bzipCompressAt_refines hcompress heap' data out
        obtain ⟨ret', hret', -, hcontained', -⟩ :=
          bzipDecompressAt_refines hdecompress heap' data out
        exact ⟨⟨ret, hret, hcontained⟩, ret', hret', hcontained'⟩

/-! ### Streams that are too long -/

/-- Not all inputs of at most `UINT_MAX` bytes have a stream of at most `UINT_MAX`
bytes: the streams are different from each other and none is empty. -/
theorem exists_overlong_stream {B : Bz2} (H : B.Streaming) :
    ∃ x : List UInt8, x.length ≤ uintMax ∧ uintMax < (H.encode x).length := by
  by_contra hnone
  have hfinite : Finite UInt8 := Finite.of_injective UInt8.toFin fun _ _ h => UInt8.toFin_inj.mp h
  have hmaps : Set.MapsTo H.encode {x | x.length ≤ uintMax} {x | x.length ≤ uintMax} := by
    intro x hx
    by_contra hlong
    exact hnone ⟨x, hx, Nat.not_le.mp hlong⟩
  have hinj : Set.InjOn H.encode {x | x.length ≤ uintMax} := by
    intro x hx y hy hxy
    rw [← H.decoded_encode x hx, hxy, H.decoded_encode y hy]
  -- an injective map of a finite set into itself misses nothing, the empty string included
  have hbij := ((List.finite_length_le UInt8 uintMax).injOn_iff_bijOn_of_mapsTo hmaps).mp hinj
  obtain ⟨x, hx, hnil⟩ := hbij.surjOn (show [] ∈ {x | x.length ≤ uintMax} from Nat.zero_le _)
  exact encode_ne_nil H hx hnil

/-- On a 64-bit target an input with such a stream compresses, and the decompressor
refuses the stream. -/
theorem bzip_overlong_refused {B : Bz2} (H : B.Streaming) (heap : BzHeap)
    (hheap : heap.toBzMemory = .enough) (out : OutArgs) {x : List UInt8}
    (hlen : x.length ≤ uintMax) (hlong : uintMax < (H.encode x).length) :
    ∃ (hx : x.length < Arch.lp64.sizeBound) (hz : (H.encode x).length < Arch.lp64.sizeBound)
      (ret : BzReturn), bzipCompressAt B heap (.block x hx) (some out) = some ret ∧
      ret.Delivers out (.ok (H.encode x)) ∧
      bzipDecompressAt B heap (.block (H.encode x) hz) (some out) =
        some ⟨.overflow, some out, []⟩ := by
  have hbound : Arch.lp64.sizeBound = 2 ^ 64 := rfl
  have hle := H.length_le x hlen
  have huint : uintMax = 2 ^ 32 - 1 := rfl
  have hx : x.length < Arch.lp64.sizeBound := by omega
  have hz : (H.encode x).length < Arch.lp64.sizeBound := by omega
  have hok : bzipCompress B .enough (.block x hx) = .ok (H.encode x) :=
    bzipCompress_streaming H (by simp) hlen (by simp [Arch.lp64])
  obtain ⟨ret, hret, hdelivers, -, -⟩ := bzipCompressAt_refines
    (fun c action bytes n => (H.compress_within c action bytes n).2) heap (.block x hx) out
  rw [hheap, hok] at hdelivers
  refine ⟨hx, hz, ret, hret, hdelivers, ?_⟩
  rw [bzipDecompressAt, if_neg (by simp), if_pos (by simpa using hlong)]

/-! ### Buffers that are too long -/

theorem bzipEnsureCapacity_byte {A : Arch} {cap : ℕ} (hhalf : (A.sizeBound - 1) / 2 < cap)
    (hcap : cap + 1 < A.sizeBound) :
    bzipEnsureCapacity A cap (A.add cap 1) true = some (cap + 1) := by
  rw [A.add_of_lt hcap, bzipEnsureCapacity, if_neg (by omega), if_pos rfl, if_neg (by omega),
    growLoop, if_pos (by omega), if_pos hhalf]

section GivesUp

variable {A : Arch} {B : Bz2} (H : B.Streaming) {x : List UInt8} (hx : x.length ≤ uintMax)

include hx

/-- On a whole stream a call fills its space as long as more is to come. -/
theorem decompress_fills {p o : List UInt8} {strm : B.Decompressor} (hstrm : H.Decoding p o strm)
    {input : List UInt8} (hwhole : p ++ input = H.encode x) {n : ℕ} (hn : 0 < n)
    (hmore : o.length + n < x.length) :
    (B.decompress strm input n).rc = .ok ∧ (B.decompress strm input n).produced.length = n ∧
      H.Decoding (p ++ input.take (B.decompress strm input n).consumed)
        (o ++ (B.decompress strm input n).produced) (B.decompress strm input n).stream := by
  have hwithin := (H.decompress_within strm input n).2
  rcases H.decompress_step x p o strm input n hx hstrm (hwhole ▸ List.prefix_rfl) hn with
    ⟨-, -, hout⟩ | ⟨hok, hnext, hfull | ⟨-, -, hcut⟩⟩
  · have hlen := congrArg List.length hout
    rw [List.length_append, H.decoded_encode x hx] at hlen
    omega
  · exact ⟨hok, hfull, hnext⟩
  · exact absurd hwhole hcut

/-- One turn of the loop that fills the space it has. -/
theorem bzipDecompressLoop_fills (turns : ℕ) {p o : List UInt8} {strm : B.Decompressor}
    (hstrm : H.Decoding p o strm) {input : List UInt8} (hwhole : p ++ input = H.encode x)
    {cap cap' : ℕ} (hcap : o.length < cap') (hmore : cap' < x.length)
    (hensure : (if o.length = cap then bzipEnsureCapacity A cap (A.add o.length 1) true
      else some cap) = some cap') :
    ∃ strm' p' o' input', H.Decoding p' o' strm' ∧ p' ++ input' = H.encode x ∧ o'.length = cap' ∧
      bzipDecompressLoop A B .enough (turns + 1) strm input cap o =
        bzipDecompressLoop A B .enough turns strm' input' cap' o' := by
  have hspace : min (cap' - o.length) uintMax = cap' - o.length := by omega
  obtain ⟨hok, hfull, hnext⟩ :=
    decompress_fills H hx hstrm hwhole (show 0 < cap' - o.length by omega) (by omega)
  have hprogress : ¬ ((B.decompress strm input (cap' - o.length)).produced.length = 0 ∧
      (B.decompress strm input (cap' - o.length)).consumed = 0) := by
    rintro ⟨hzero, -⟩
    omega
  refine ⟨_, _, _, input.drop (B.decompress strm input (cap' - o.length)).consumed, hnext,
    ?_, ?_, ?_⟩
  · rw [List.append_assoc, List.take_append_drop, hwhole]
  · rw [List.length_append, hfull]
    omega
  · have hensure' : (if o.length = cap then
        bzipEnsureCapacity A cap (A.add o.length 1) (BzMemory.enough.realloc turns)
        else some cap) = some cap' := hensure
    simp only [bzipDecompressLoop, hensure', hspace, hok, if_neg hprogress]

/-- Behind half of the address space each turn puts out one byte, and the turns run out. -/
theorem bzipDecompressLoop_bytewise {turns : ℕ} {p o : List UInt8} {strm : B.Decompressor}
    (hstrm : H.Decoding p o strm) {input : List UInt8} (hwhole : p ++ input = H.encode x)
    (hhalf : (A.sizeBound - 1) / 2 < o.length) (hmore : o.length + turns < x.length)
    (hsize : x.length < A.sizeBound) :
    bzipDecompressLoop A B .enough turns strm input o.length o = .error .unknown := by
  induction turns generalizing p o strm input with
  | zero => rfl
  | succ turns ih =>
      have hensure : (if o.length = o.length then
          bzipEnsureCapacity A o.length (A.add o.length 1) true else some o.length) =
          some (o.length + 1) := by
        rw [if_pos rfl, bzipEnsureCapacity_byte hhalf (by omega)]
      obtain ⟨strm', p', o', input', hstrm', hwhole', hlen, hturn⟩ :=
        bzipDecompressLoop_fills H hx turns hstrm hwhole (Nat.lt_succ_self _) (by omega) hensure
      rw [hturn, ← hlen]
      exact ih hstrm' hwhole' (by omega) (by omega)

/-- The buffer doubles until it is past half of the address space, and is still too
small. -/
theorem bzipDecompressLoop_gives_up (doublings : ℕ) {turns : ℕ} {p o : List UInt8}
    {strm : B.Decompressor} (hstrm : H.Decoding p o strm) {input : List UInt8}
    (hwhole : p ++ input = H.encode x) {cap : ℕ} (hle : o.length ≤ cap)
    (hfull : o.length = cap → cap ≤ (A.sizeBound - 1) / 2)
    (hdoubles : ∀ k < doublings, openCap cap o.length * 2 ^ k ≤ (A.sizeBound - 1) / 2)
    (hhalf : (A.sizeBound - 1) / 2 < openCap cap o.length * 2 ^ doublings)
    (hmore : openCap cap o.length * 2 ^ doublings + turns < x.length)
    (hsize : x.length < A.sizeBound) :
    bzipDecompressLoop A B .enough turns strm input cap o = .error .unknown := by
  induction turns generalizing doublings p o strm input cap with
  | zero => rfl
  | succ turns ih =>
      have hlt := written_lt_openCap hle
      have hgrown : openCap cap o.length ≤ openCap cap o.length * 2 ^ doublings :=
        Nat.le_mul_of_pos_right _ (Nat.two_pow_pos _)
      obtain ⟨strm', p', o', input', hstrm', hwhole', hlen, hturn⟩ :=
        bzipDecompressLoop_fills H hx turns hstrm hwhole hlt (by omega)
          (bzipEnsureCapacity_open hfull)
      rw [hturn]
      cases doublings with
      | zero =>
          rw [Nat.pow_zero, Nat.mul_one] at hhalf hmore
          rw [← hlen]
          exact bzipDecompressLoop_bytewise H hx hstrm' hwhole' (by omega) (by omega) hsize
      | succ doublings =>
          have hfull' := hdoubles 0 (Nat.succ_pos doublings)
          rw [Nat.pow_zero, Nat.mul_one] at hfull'
          have hpow := openCap_full_mul hlen (by omega)
          apply ih doublings hstrm' hwhole' (Nat.le_of_eq hlen) (fun _ => hfull')
          · intro k hk
            rw [hpow]
            exact hdoubles (k + 1) (by omega)
          · rw [hpow]
            exact hhalf
          · rw [hpow]
            omega

/-- Where doubling does not reach the content, not even with one byte more for each
turn, decompressing the stream fails. That takes a `size_t` of 32 bits. -/
theorem bzipDecompress_gives_up {data : Span A} (hdata : data.content = H.encode x)
    (hnull : data.bytes = none → data.len = 0) (hlen : data.len ≤ uintMax) (doublings : ℕ)
    (hdoubles : ∀ k < doublings,
      openCap (decompressCap A data.len) 0 * 2 ^ k ≤ (A.sizeBound - 1) / 2)
    (hhalf : (A.sizeBound - 1) / 2 < openCap (decompressCap A data.len) 0 * 2 ^ doublings)
    (hmore : openCap (decompressCap A data.len) 0 * 2 ^ doublings + bzipMaxLoopIterations <
      x.length)
    (hsize : x.length < A.sizeBound) :
    bzipDecompress B .enough data = .error .unknown := by
  have hcontent := Span.length_content hnull
  have hpos : data.len ≠ 0 := by
    intro hzero
    rw [hzero, List.length_eq_zero_iff, hdata] at hcontent
    exact encode_ne_nil H hx hcontent
  rw [bzipDecompress, if_neg (not_null_nonempty hnull), if_neg (Nat.not_lt.mpr hlen),
    if_neg hpos]
  simp only [BzMemory.enough, ne_eq, not_true, if_false, Bool.not_true, Bool.false_eq_true]
  exact bzipDecompressLoop_gives_up H hx doublings H.decompressor
    (by rw [List.nil_append, hdata]) (Nat.zero_le (decompressCap A data.len)) (by simp; omega)
    hdoubles hhalf hmore hsize

end GivesUp

/-! ### A library -/

namespace BzCodec

variable (C : BzCodec)

/-- The library over a codec whose decompressor waits for the rest of a stream that
is not complete. -/
def streamingLibrary : Bz2 where
  Compressor := C.library.Compressor
  Decompressor := List UInt8 × List UInt8
  compressor := C.library.compressor
  decompressor := ([], [])
  compress := C.library.compress
  decompress strm input n :=
    match C.decode (strm.1 ++ input) with
    | none => ⟨.ok, input.length, [], (strm.1 ++ input, strm.2)⟩
    | some x =>
        let rest := x.drop strm.2.length
        if rest.length ≤ n then
          ⟨.streamEnd, input.length, rest, (strm.1 ++ input, strm.2 ++ rest)⟩
        else ⟨.ok, input.length, rest.take n, (strm.1 ++ input, strm.2 ++ rest.take n)⟩

def PrefixFree : Prop :=
  ∀ x p, x.length ≤ uintMax → p <+: C.encode x → p ≠ C.encode x → C.decode p = none

/-- What the bytes so far determine. -/
def decoded (p : List UInt8) : List UInt8 := (C.decode p).getD []

theorem decoded_encode (x : List UInt8) : C.decoded (C.encode x) = x := by
  rw [decoded, C.decode_encode, Option.getD_some]

variable {C}

theorem PrefixFree.decoded_front (hC : C.PrefixFree) {x p : List UInt8} (hx : x.length ≤ uintMax)
    (hp : p <+: C.encode x) : C.decoded p <+: x := by
  by_cases heq : p = C.encode x
  · rw [heq, decoded_encode]
  · rw [decoded, hC x p hx hp heq]
    exact List.nil_prefix

/-- A compressor that has taken `x` and put out `z`: it puts out nothing before it
is told to finish. -/
def Encoding (C : BzCodec) (action : BzAction) (x z : List UInt8)
    (strm : C.streamingLibrary.Compressor) : Prop :=
  strm = (x, z) ∧ (action = .run → z = []) ∧ z <+: C.encode x ∧ z ≠ C.encode x

/-- A decompressor that has taken `p` and put out `o`. -/
def Decoding (C : BzCodec) (p o : List UInt8) (strm : C.streamingLibrary.Decompressor) : Prop :=
  strm = (p, o) ∧ o <+: C.decoded p

theorem compress_within (strm : C.streamingLibrary.Compressor) (action : BzAction)
    (input : List UInt8) (n : ℕ) :
    (C.streamingLibrary.compress strm action input n).consumed ≤ input.length ∧
      (C.streamingLibrary.compress strm action input n).produced.length ≤ n := by
  cases action with
  | run =>
      simp only [streamingLibrary, library]
      split
      · exact ⟨Nat.le_refl _, Nat.zero_le _⟩
      · exact ⟨Nat.zero_le _, Nat.zero_le _⟩
  | finish =>
      simp only [streamingLibrary, library]
      split
      · split
        · next hall => exact ⟨Nat.zero_le _, hall⟩
        · exact ⟨Nat.zero_le _, List.length_take_le _ _⟩
      · exact ⟨Nat.zero_le _, Nat.zero_le _⟩

theorem decompress_within (strm : C.streamingLibrary.Decompressor) (input : List UInt8) (n : ℕ) :
    (C.streamingLibrary.decompress strm input n).consumed ≤ input.length ∧
      (C.streamingLibrary.decompress strm input n).produced.length ≤ n := by
  simp only [streamingLibrary]
  split
  · exact ⟨Nat.le_refl _, Nat.zero_le _⟩
  · split
    · next hall => exact ⟨Nat.le_refl _, hall⟩
    · exact ⟨Nat.le_refl _, List.length_take_le _ _⟩

theorem run_front (x y z : List UInt8) (strm : C.streamingLibrary.Compressor)
    (h : C.Encoding .run x z strm) : z <+: C.encode (x ++ y) ∧ z ≠ C.encode (x ++ y) := by
  rw [h.2.1 rfl]
  exact ⟨List.nil_prefix, (C.encode_ne_nil _).symm⟩

theorem run_step (x z : List UInt8) (strm : C.streamingLibrary.Compressor) (input : List UInt8)
    (n : ℕ) (h : C.Encoding .run x z strm) :
    let r := C.streamingLibrary.compress strm .run input n
    r.rc = .runOk ∧ C.Encoding .run (x ++ input.take r.consumed) (z ++ r.produced) r.stream ∧
      (r.consumed = input.length ∨ r.produced.length = n) := by
  have hz := h.2.1 rfl
  have hstrm := h.1
  subst hz hstrm
  simp only [streamingLibrary, library, if_true, List.take_length, List.append_nil]
  exact ⟨trivial, ⟨rfl, fun _ => rfl, List.nil_prefix, (C.encode_ne_nil _).symm⟩, .inl trivial⟩

theorem finish_step (action : BzAction) (x z : List UInt8) (strm : C.streamingLibrary.Compressor)
    (n : ℕ) (h : C.Encoding action x z strm) :
    let r := C.streamingLibrary.compress strm .finish [] n
    (r.rc = .streamEnd ∧ z ++ r.produced = C.encode x) ∨
      (r.rc = .finishOk ∧ r.produced.length = n ∧
        C.Encoding .finish x (z ++ r.produced) r.stream) := by
  obtain ⟨hstrm, -, ⟨rest, hrest⟩, -⟩ := h
  subst hstrm
  simp only [streamingLibrary, library, if_true, ← hrest, List.drop_left]
  by_cases hall : rest.length ≤ n
  · left
    rw [if_pos hall]
    exact ⟨rfl, rfl⟩
  · right
    rw [if_neg hall]
    have hlen : (rest.take n).length = n := by
      rw [List.length_take]
      omega
    refine ⟨rfl, hlen, rfl, by simp, ?_, ?_⟩
    · rw [← hrest]
      exact (List.prefix_append_right_inj z).mpr (List.take_prefix n rest)
    · intro heq
      rw [← hrest, List.append_cancel_left_eq] at heq
      have hcut := congrArg List.length heq
      rw [hlen] at hcut
      omega

/-- A front of a stream that is not all of it determines nothing yet. -/
theorem PrefixFree.decode_front (hC : C.PrefixFree) {x p input : List UInt8}
    (hx : x.length ≤ uintMax) (hfront : p ++ input <+: C.encode x)
    (hcut : p ++ input ≠ C.encode x) : C.decode (p ++ input) = none ∧ C.decoded p = [] := by
  have hp : p <+: p ++ input := List.prefix_append p input
  have hpcut : p ≠ C.encode x := by
    intro heq
    apply hcut
    exact hfront.eq_of_length_le (by rw [← heq]; exact hp.length_le)
  refine ⟨hC x _ hx hfront hcut, ?_⟩
  rw [decoded, hC x p hx (hp.trans hfront) hpcut, Option.getD_none]

theorem PrefixFree.decompress_step (hC : C.PrefixFree) (x p o : List UInt8)
    (strm : C.streamingLibrary.Decompressor) (input : List UInt8) (n : ℕ)
    (hx : x.length ≤ uintMax) (h : C.Decoding p o strm) (hfront : p ++ input <+: C.encode x) :
    let r := C.streamingLibrary.decompress strm input n
    (r.rc = .streamEnd ∧ p ++ input.take r.consumed = C.encode x ∧
      o ++ r.produced = C.decoded (C.encode x)) ∨
    (r.rc = .ok ∧ C.Decoding (p ++ input.take r.consumed) (o ++ r.produced) r.stream ∧
      (r.produced.length = n ∨ (r.consumed = input.length ∧
        o ++ r.produced = C.decoded (p ++ input) ∧ p ++ input ≠ C.encode x))) := by
  obtain ⟨hstrm, ho⟩ := h
  subst hstrm
  simp only [streamingLibrary]
  by_cases hwhole : p ++ input = C.encode x
  · have hfronts : o <+: x :=
      ho.trans (hC.decoded_front hx (hwhole ▸ List.prefix_append p input))
    obtain ⟨rest, rfl⟩ := hfronts
    simp only [hwhole, C.decode_encode, List.drop_left]
    by_cases hall : rest.length ≤ n
    · left
      rw [if_pos hall]
      exact ⟨rfl, by simp only [List.take_length, hwhole], (C.decoded_encode _).symm⟩
    · right
      rw [if_neg hall]
      have hlen : (rest.take n).length = n := by
        rw [List.length_take]
        omega
      simp only [List.take_length, hwhole]
      refine ⟨trivial, ⟨rfl, ?_⟩, .inl hlen⟩
      rw [decoded_encode]
      exact (List.prefix_append_right_inj o).mpr (List.take_prefix n rest)
  · obtain ⟨hnone, hdecoded⟩ := hC.decode_front hx hfront hwhole
    rw [hdecoded, List.prefix_nil] at ho
    subst ho
    right
    simp only [hnone, List.take_length, List.append_nil]
    refine ⟨trivial, ⟨rfl, List.nil_prefix⟩, .inr ⟨trivial, ?_, hwhole⟩⟩
    rw [decoded, hnone, Option.getD_none]

def PrefixFree.streaming (hC : C.PrefixFree) : C.streamingLibrary.Streaming where
  encode := C.encode
  decoded := C.decoded
  Encoding := C.Encoding
  Decoding := C.Decoding
  compressor := ⟨rfl, fun _ => rfl, List.nil_prefix, (C.encode_ne_nil []).symm⟩
  decompressor := ⟨rfl, List.nil_prefix⟩
  compress_within := compress_within
  decompress_within := decompress_within
  run_step x z strm input n h _ _ _ := run_step x z strm input n h
  finish_step action x z strm n h _ _ := finish_step action x z strm n h
  run_front x y z strm h _ := run_front x y z strm h
  finish_front _ _ _ h _ := h.2.2
  length_le x _ := C.length_encode_le x
  decoded_encode x _ := C.decoded_encode x
  decoded_front _ _ hx hp := hC.decoded_front hx hp
  decoding_front _ _ _ h := h.2
  decompress_step x p o strm input n hx h hp _ := hC.decompress_step x p o strm input n hx h hp

end BzCodec

def lengthField (n : ℕ) : List UInt8 :=
  [UInt8.ofNat (n / 2 ^ 24), UInt8.ofNat (n / 2 ^ 16), UInt8.ofNat (n / 2 ^ 8), UInt8.ofNat n]

theorem lengthField_inj {n m : ℕ} (hn : n ≤ uintMax) (hm : m ≤ uintMax)
    (h : lengthField n = lengthField m) : n = m := by
  simp only [lengthField, List.cons.injEq, and_true, ← UInt8.toNat_inj, UInt8.toNat_ofNat'] at h
  unfold uintMax at hn hm
  omega

def delimited (x : List UInt8) : List UInt8 := 2 :: (lengthField x.length ++ x)

def undelimited : List UInt8 → Option (List UInt8)
  | 2 :: b0 :: b1 :: b2 :: b3 :: x =>
      if [b0, b1, b2, b3] = lengthField x.length then some x else none
  | _ => none

theorem undelimited_delimited (x : List UInt8) : undelimited (delimited x) = some x := by
  simp [undelimited, delimited, lengthField]

theorem eq_delimited {p x : List UInt8} (h : undelimited p = some x) : p = delimited x := by
  unfold undelimited at h
  split at h
  · split at h
    · next hfield =>
        obtain rfl := Option.some.inj h
        rw [delimited, ← hfield]
        rfl
    · simp at h
  · simp at h

/-- A string that is cut off has the wrong length in front of it. -/
theorem undelimited_cut {x p : List UInt8} (hx : x.length ≤ uintMax) (hp : p <+: delimited x)
    (hcut : p ≠ delimited x) : undelimited p = none := by
  cases hy : undelimited p with
  | none => rfl
  | some y =>
      obtain rfl := eq_delimited hy
      rw [delimited, delimited, List.cons_prefix_cons] at hp
      obtain ⟨rest, hrest⟩ := hp.2
      rw [List.append_assoc] at hrest
      obtain ⟨hfield, rfl⟩ := List.append_inj hrest rfl
      rw [List.length_append] at hx
      have hlen := lengthField_inj (by omega) (by rw [List.length_append]; exact hx) hfield
      rw [List.length_append] at hlen
      have hnil : rest = [] := List.length_eq_zero_iff.mp (by omega)
      rw [hnil, List.append_nil] at hcut
      exact absurd rfl hcut

theorem delimited_ne_nil (x : List UInt8) : delimited x ≠ [] := by
  simp [delimited]

theorem length_delimited (x : List UInt8) : (delimited x).length = x.length + 5 := by
  simp [delimited, lengthField]

theorem delimited_front_ne {x p : List UInt8} (hp : p <+: delimited x) :
    p ≠ bzipOfNil ∧ p ≠ bzipOfThree := by
  refine ⟨?_, ?_⟩
  all_goals
    rintro rfl
    rw [delimited] at hp
    exact absurd (List.cons_prefix_cons.mp hp).1 (by decide)

/-- The stream of a string: bzip2's own for the empty string and for the bytes 1, 2,
3, and other strings behind their length. -/
def delimitingEncode (x : List UInt8) : List UInt8 :=
  if x = [] then bzipOfNil else if x = [1, 2, 3] then bzipOfThree else delimited x

def delimitingDecode (z : List UInt8) : Option (List UInt8) :=
  if z = bzipOfNil then some [] else if z = bzipOfThree then some [1, 2, 3] else undelimited z

theorem delimitingEncode_cases (x : List UInt8) :
    (x = [] ∧ delimitingEncode x = bzipOfNil) ∨
      (x = [1, 2, 3] ∧ delimitingEncode x = bzipOfThree) ∨ delimitingEncode x = delimited x := by
  unfold delimitingEncode
  split
  · next hnil => exact .inl ⟨hnil, rfl⟩
  split
  · next hthree => exact .inr (.inl ⟨hthree, rfl⟩)
  · exact .inr (.inr rfl)

theorem delimitingEncode_of_length {x : List UInt8} (h : 3 < x.length) :
    delimitingEncode x = delimited x := by
  rcases delimitingEncode_cases x with ⟨rfl, -⟩ | ⟨rfl, -⟩ | heq
  · exact absurd h (by decide)
  · exact absurd h (by decide)
  · exact heq

theorem delimitingDecode_encode (x : List UInt8) :
    delimitingDecode (delimitingEncode x) = some x := by
  rcases delimitingEncode_cases x with ⟨rfl, h⟩ | ⟨rfl, h⟩ | h
  · rw [h]
    rfl
  · rw [h]
    decide
  · obtain ⟨hnil, hthree⟩ := delimited_front_ne (List.prefix_refl (delimited x))
    rw [h, delimitingDecode, if_neg hnil, if_neg hthree, undelimited_delimited]

theorem delimitingEncode_ne_nil (x : List UInt8) : delimitingEncode x ≠ [] := by
  rcases delimitingEncode_cases x with ⟨rfl, h⟩ | ⟨rfl, h⟩ | h
  · rw [h]
    decide
  · rw [h]
    decide
  · rw [h]
    exact delimited_ne_nil x

theorem length_delimitingEncode_le (x : List UInt8) :
    (delimitingEncode x).length ≤ x.length + x.length / 100 + 600 := by
  rcases delimitingEncode_cases x with ⟨rfl, h⟩ | ⟨rfl, h⟩ | h
  · rw [h]
    decide
  · rw [h]
    decide
  · rw [h, length_delimited]
    omega

def delimitingCodec : BzCodec where
  encode := delimitingEncode
  decode := delimitingDecode
  decode_encode := delimitingDecode_encode
  encode_ne_nil := delimitingEncode_ne_nil
  length_encode_le := length_delimitingEncode_le

/-- Checking the fronts of a fixed stream. -/
theorem delimitingDecode_cut {z p : List UInt8}
    (hz : ∀ k < z.length, delimitingDecode (z.take k) = none) (hp : p <+: z) (hcut : p ≠ z) :
    delimitingDecode p = none := by
  rw [List.prefix_iff_eq_take.mp hp]
  exact hz _ (length_lt_of_front ⟨hp, hcut⟩)

theorem delimitingCodec_prefixFree : delimitingCodec.PrefixFree := by
  intro x p hx hp hcut
  change p <+: delimitingEncode x at hp
  change p ≠ delimitingEncode x at hcut
  change delimitingDecode p = none
  rcases delimitingEncode_cases x with ⟨rfl, h⟩ | ⟨rfl, h⟩ | h
  · rw [h] at hp hcut
    exact delimitingDecode_cut (by decide) hp hcut
  · rw [h] at hp hcut
    exact delimitingDecode_cut (by decide) hp hcut
  · rw [h] at hp hcut
    obtain ⟨hnil, hthree⟩ := delimited_front_ne hp
    rw [delimitingDecode, if_neg hnil, if_neg hthree, undelimited_cut hx hp hcut]

def zeroHeap : BzHeap where
  toBzMemory := .enough
  fresh _ n := List.replicate n 0
  length_fresh _ _ := List.length_replicate

/-- The bytes 1, 2, 3 on a 64-bit target: there, back, and cut off after ten bytes. -/
theorem bzip_lossless_three :
    ∃ packed plain cut : BzReturn,
      bzipCompressAt delimitingCodec.streamingLibrary zeroHeap
        (.block [1, 2, 3] (by decide) : Span .lp64) (some ⟨none, 0⟩) = some packed ∧
      packed.Delivers ⟨none, 0⟩ (.ok bzipOfThree) ∧
      bzipDecompressAt delimitingCodec.streamingLibrary zeroHeap
        (.block bzipOfThree (by decide) : Span .lp64) (some ⟨none, 0⟩) = some plain ∧
      plain.Delivers ⟨none, 0⟩ (.ok [1, 2, 3]) ∧
      bzipDecompressAt delimitingCodec.streamingLibrary zeroHeap
        (.block (bzipOfThree.take 10) (by decide) : Span .lp64) (some ⟨none, 0⟩) = some cut ∧
      cut.Delivers ⟨none, 0⟩ (.error .protocol) := by
  obtain ⟨hcompress, hdecompress, -⟩ := bzip_lossless delimitingCodec_prefixFree.streaming zeroHeap
    rfl (.block [1, 2, 3] (by decide) : Span .lp64) (by simp) (by decide)
  obtain ⟨packed, hpacked, hstored, -⟩ := hcompress (by simp [Arch.lp64]) ⟨none, 0⟩
  obtain ⟨plain, hplain, hback, -⟩ := hdecompress (.block bzipOfThree (by decide)) (by simp)
    (by decide) (by decide) (by simp [Arch.lp64]) ⟨none, 0⟩
  obtain ⟨cut, hcut, hrejected, -⟩ := hdecompress (.block (bzipOfThree.take 10) (by decide))
    (by simp) (by decide) (by decide) (by simp [Arch.lp64]) ⟨none, 0⟩
  exact ⟨packed, plain, cut, hpacked, hstored, hplain, hback, hcut, hrejected⟩

theorem BzReturn.Delivers.unique {ret : BzReturn} {out : OutArgs} {y z : List UInt8}
    (hy : ret.Delivers out (.ok y)) (hz : ret.Delivers out (.ok z)) : y = z := by
  obtain ⟨-, block, hblock, hfront⟩ := hy
  obtain ⟨-, block', hblock', hfront'⟩ := hz
  rw [hblock, Option.some.injEq, OutArgs.mk.injEq, Option.some.injEq] at hblock'
  obtain ⟨rfl, hlen⟩ := hblock'
  exact (List.prefix_of_prefix_length_le hfront hfront' (Nat.le_of_eq hlen)).eq_of_length hlen

/-- On a 64-bit target no library makes the round trip succeed for all inputs of at
most `UINT_MAX` bytes; with the library above it fails on `UINT_MAX` zeros. -/
theorem bzip_round_trip_fails :
    (¬ ∃ (B : Bz2) (_ : B.Streaming), ∀ (x : List UInt8) (hx : x.length < Arch.lp64.sizeBound),
      x.length ≤ uintMax → ∃ (z : List UInt8) (hz : z.length < Arch.lp64.sizeBound)
        (packed plain : BzReturn),
        bzipCompressAt B zeroHeap (.block x hx) (some ⟨none, 0⟩) = some packed ∧
        packed.Delivers ⟨none, 0⟩ (.ok z) ∧
        bzipDecompressAt B zeroHeap (.block z hz) (some ⟨none, 0⟩) = some plain ∧
        plain.Delivers ⟨none, 0⟩ (.ok x)) ∧
    ∃ (hx : (List.replicate uintMax 0).length < Arch.lp64.sizeBound)
      (hz : (delimited (List.replicate uintMax 0)).length < Arch.lp64.sizeBound)
      (packed : BzReturn),
      bzipCompressAt delimitingCodec.streamingLibrary zeroHeap (.block _ hx) (some ⟨none, 0⟩) =
        some packed ∧
      packed.Delivers ⟨none, 0⟩ (.ok (delimited (List.replicate uintMax 0))) ∧
      bzipDecompressAt delimitingCodec.streamingLibrary zeroHeap (.block _ hz) (some ⟨none, 0⟩) =
        some ⟨.overflow, some ⟨none, 0⟩, []⟩ := by
  refine ⟨?_, ?_⟩
  · rintro ⟨B, H, hall⟩
    obtain ⟨x, hlen, hlong⟩ := exists_overlong_stream H
    obtain ⟨hx, hz, packed, hpacked, hstream, hrefused⟩ :=
      bzip_overlong_refused H zeroHeap rfl ⟨none, 0⟩ hlen hlong
    obtain ⟨z, hz', packed', plain, hpacked', hstream', hplain, hcontent⟩ := hall x hx hlen
    rw [hpacked, Option.some.injEq] at hpacked'
    subst hpacked'
    obtain rfl := hstream.unique hstream'
    rw [hrefused, Option.some.injEq] at hplain
    subst hplain
    exact absurd hcontent.1 (by simp)
  · have hlen : (List.replicate uintMax (0 : UInt8)).length = uintMax := List.length_replicate
    have hencode := delimitingEncode_of_length (x := List.replicate uintMax 0)
      (by rw [hlen]; decide)
    obtain ⟨hx, hz, packed, hpacked, hstream, hrefused⟩ :=
      bzip_overlong_refused delimitingCodec_prefixFree.streaming zeroHeap rfl ⟨none, 0⟩
        (Nat.le_of_eq hlen) (by
          change uintMax < (delimitingEncode (List.replicate uintMax 0)).length
          rw [hencode, length_delimited, hlen]
          omega)
    change bzipDecompressAt _ _ (.block (delimitingEncode (List.replicate uintMax 0)) hz) _ = _
      at hrefused
    change packed.Delivers _ (.ok (delimitingEncode (List.replicate uintMax 0))) at hstream
    simp only [hencode] at hstream hrefused
    exact ⟨hx, by rw [← hencode]; exact hz, packed, hpacked, hstream, hrefused⟩

end Savvy.Stream
