import Savvy.Kit.Buffer
import Savvy.Stream.BzipStreaming

/-!
The bzip2 codec on its output buffer. The loops of `Savvy.Stream.Bzip` keep what
has been put out as a list; here it stands in a block of `out_cap` bytes that is
reallocated on the way, every offset is computed in `size_t`, and a byte written
outside of the block is a fault. The two loops differ in the call and in what
they make of its return code, so the loop is defined once over both. Every turn
is logged with its numbers.
-/

namespace Savvy.Stream

open Kit

/-! ### The buffer -/

/-- The memory of a call, with the bytes that new memory holds. -/
structure BzHeap extends BzMemory where
  fresh : ℕ → ℕ → List UInt8
  length_fresh : ∀ turn n, (fresh turn n).length = n

/-- `out_buf` with its `out_cap` bytes, and `out_written`. -/
structure OutBuffer where
  block : List UInt8
  written : ℕ

/-- The numbers of a turn: `out_cap` and `out_written` when the library is called,
`avail_out`, and how many bytes it puts out. -/
structure BzTurn where
  cap : ℕ
  written : ℕ
  avail : ℕ
  produced : ℕ
  deriving DecidableEq, Repr

namespace OutBuffer

variable (A : Arch) (buf : OutBuffer)

def content : List UInt8 := buf.block.take buf.written

/-- The start of a turn: `sensor_bzip_ensure_capacity` on a full buffer. -/
def makeRoom (heap : BzHeap) (turn : ℕ) : Option OutBuffer :=
  if buf.written = buf.block.length then
    (bzipEnsureCapacity A buf.block.length (A.add buf.written 1) (heap.realloc turn)).map
      fun cap => ⟨buf.block ++ heap.fresh turn (cap - buf.block.length), buf.written⟩
  else some buf

/-- `sensor_min_sz(out_cap - out_written, UINT_MAX)`. -/
def avail : ℕ := min (A.sub buf.block.length buf.written) uintMax

/-- The library writes to `out_buf + out_written`, and the code adds up. -/
def put (produced : List UInt8) : Option OutBuffer :=
  if buf.written + produced.length ≤ buf.block.length then
    some ⟨write buf.block buf.written produced, A.add buf.written produced.length⟩
  else none

end OutBuffer

/-! ### The loop -/

/-- One of the two loops: how it calls the library, and what it makes of a return,
where `none` is to go on. -/
structure BzLoop (σ : Type) where
  call : σ → List UInt8 → ℕ → BzStep σ
  judge : BzStep σ → Option (Except Status Unit)

def Bz2.compressLoop (B : Bz2) : BzLoop B.Compressor where
  call strm input n := B.compress strm (if input ≠ [] then .run else .finish) input n
  judge r :=
    match r.rc with
    | .streamEnd => some (.ok ())
    | .runOk | .finishOk => none
    | _ => some (.error .unknown)

def Bz2.decompressLoop (B : Bz2) : BzLoop B.Decompressor where
  call := B.decompress
  judge r :=
    match r.rc with
    | .streamEnd => some (.ok ())
    | .ok => if r.produced.length = 0 ∧ r.consumed = 0 then some (.error .protocol) else none
    | .memError => some (.error .outOfMemory)
    | _ => some (.error .protocol)

/-- The end of a turn, by what the loop makes of the return. -/
def conclude {α : Type} (judged : Option (Except Status Unit)) (done : α) (failed : Status → α)
    (next : α) : α :=
  match judged with
  | some (.ok _) => done
  | some (.error status) => failed status
  | none => next

namespace BzLoop

variable {σ : Type} (L : BzLoop σ) (A : Arch)

/-- The turns of the loop on the buffer. -/
def turnsAt (heap : BzHeap) : ℕ → σ → List UInt8 → OutBuffer → List BzTurn →
    Option (Except Status OutBuffer × List BzTurn)
  | 0, _, _, _, log => some (.error .unknown, log)
  | turns + 1, strm, input, buf, log =>
      match buf.makeRoom A heap turns with
      | none => some (.error .outOfMemory, log)
      | some buf =>
          let r := L.call strm input (buf.avail A)
          let log := log ++ [⟨buf.block.length, buf.written, buf.avail A, r.produced.length⟩]
          (buf.put A r.produced).bind fun buf =>
            conclude (L.judge r) (some (.ok buf, log)) (fun status => some (.error status, log))
              (turnsAt heap turns r.stream (input.drop r.consumed) buf log)

def turns (m : BzMemory) : ℕ → σ → List UInt8 → ℕ → List UInt8 → Except Status (List UInt8)
  | 0, _, _, _, _ => .error .unknown
  | k + 1, strm, input, cap, out =>
      match if out.length = cap then bzipEnsureCapacity A cap (A.add out.length 1) (m.realloc k)
        else some cap with
      | none => .error .outOfMemory
      | some cap =>
          let r := L.call strm input (min (cap - out.length) uintMax)
          conclude (L.judge r) (.ok (out ++ r.produced)) .error
            (turns m k r.stream (input.drop r.consumed) cap (out ++ r.produced))

end BzLoop

/-- The loops of the codec are loops of this form. -/
theorem bzipCompressLoop_eq (A : Arch) (B : Bz2) (m : BzMemory) (turns : ℕ) (strm : B.Compressor)
    (input : List UInt8) (cap : ℕ) (out : List UInt8) :
    bzipCompressLoop A B m turns strm input cap out =
      B.compressLoop.turns A m turns strm input cap out := by
  induction turns generalizing strm input cap out with
  | zero => rfl
  | succ turns ih =>
      rw [bzipCompressLoop, BzLoop.turns]
      generalize (if out.length = cap then bzipEnsureCapacity A cap (A.add out.length 1)
        (m.realloc turns) else some cap) = room
      cases room with
      | none => rfl
      | some cap =>
          simp only [Bz2.compressLoop]
          generalize B.compress strm _ input _ = r
          cases hrc : r.rc <;> simp only [conclude]
          · exact ih _ _ _ _
          · exact ih _ _ _ _

theorem bzipDecompressLoop_eq (A : Arch) (B : Bz2) (m : BzMemory) (turns : ℕ)
    (strm : B.Decompressor) (input : List UInt8) (cap : ℕ) (out : List UInt8) :
    bzipDecompressLoop A B m turns strm input cap out =
      B.decompressLoop.turns A m turns strm input cap out := by
  induction turns generalizing strm input cap out with
  | zero => rfl
  | succ turns ih =>
      rw [bzipDecompressLoop, BzLoop.turns]
      generalize (if out.length = cap then bzipEnsureCapacity A cap (A.add out.length 1)
        (m.realloc turns) else some cap) = room
      cases room with
      | none => rfl
      | some cap =>
          simp only [Bz2.decompressLoop]
          generalize B.decompress strm input _ = r
          cases hrc : r.rc <;> simp only [conclude]
          split
          · rfl
          · exact ih _ _ _ _

/-! ### Inside the buffer -/

/-- `out_written <= out_cap <= SIZE_MAX`. -/
structure OutBuffer.Fits (A : Arch) (buf : OutBuffer) : Prop where
  written_le : buf.written ≤ buf.block.length
  cap_lt : buf.block.length < A.sizeBound

/-- The library is given space inside of the buffer and stays in it. -/
structure BzTurn.Inside (A : Arch) (t : BzTurn) : Prop where
  written_le : t.written ≤ t.cap
  avail_le : t.written + t.avail ≤ t.cap
  avail_le_uintMax : t.avail ≤ uintMax
  produced_le : t.produced ≤ t.avail
  cap_lt : t.cap < A.sizeBound

section

variable {A : Arch} {buf : OutBuffer}

theorem add_lt_sizeBound (a b : ℕ) : A.add a b < A.sizeBound :=
  Nat.mod_lt _ (Nat.lt_of_lt_of_le (by decide) A.two_pow_32_le_sizeBound)

theorem growLoop_bounds {needed : ℕ} (hneeded : needed < A.sizeBound) (turns cap : ℕ)
    (hcap : cap < A.sizeBound) :
    cap ≤ growLoop A needed turns cap ∧ growLoop A needed turns cap < A.sizeBound := by
  induction turns generalizing cap with
  | zero => exact ⟨Nat.le_refl _, hcap⟩
  | succ turns ih =>
      rw [growLoop]
      split
      · split
        · exact ⟨by omega, hneeded⟩
        · obtain ⟨hle, hlt⟩ := ih (cap * 2) (by omega)
          exact ⟨by omega, hlt⟩
      · exact ⟨Nat.le_refl _, hcap⟩

theorem bzipEnsureCapacity_bounds {cap needed cap' : ℕ} {realloc : Bool}
    (h : bzipEnsureCapacity A cap needed realloc = some cap') (hneeded : needed < A.sizeBound)
    (hcap : cap < A.sizeBound) : cap ≤ cap' ∧ cap' < A.sizeBound := by
  unfold bzipEnsureCapacity at h
  split at h
  · obtain rfl := Option.some.inj h
    exact ⟨Nat.le_refl _, hcap⟩
  · split at h
    · obtain rfl := Option.some.inj h
      split
      · have hbound := A.two_pow_32_le_sizeBound
        obtain ⟨hle, hlt⟩ := growLoop_bounds hneeded needed 4096 (by omega)
        exact ⟨by omega, hlt⟩
      · exact growLoop_bounds hneeded needed cap hcap
    · simp at h

theorem OutBuffer.Fits.length_content (h : buf.Fits A) : buf.content.length = buf.written := by
  rw [OutBuffer.content, List.length_take, Nat.min_eq_left h.written_le]

theorem OutBuffer.Fits.avail_eq (h : buf.Fits A) :
    buf.avail A = min (buf.block.length - buf.written) uintMax := by
  rw [OutBuffer.avail, A.sub_of_le h.written_le h.cap_lt]

theorem OutBuffer.Fits.inside (h : buf.Fits A) {produced : ℕ} (hp : produced ≤ buf.avail A) :
    BzTurn.Inside A ⟨buf.block.length, buf.written, buf.avail A, produced⟩ := by
  have hle := h.written_le
  have havail := h.avail_eq
  exact ⟨hle, by simp only; omega, by simp only; omega, hp, h.cap_lt⟩

theorem OutBuffer.Fits.makeRoom (h : buf.Fits A) (heap : BzHeap) (turn : ℕ) {buf' : OutBuffer}
    (hroom : buf.makeRoom A heap turn = some buf') :
    buf'.Fits A ∧ buf'.content = buf.content := by
  unfold OutBuffer.makeRoom at hroom
  split at hroom
  · next hfull =>
      obtain ⟨cap, hcap, rfl⟩ := Option.map_eq_some_iff.mp hroom
      obtain ⟨hle, hlt⟩ := bzipEnsureCapacity_bounds hcap (add_lt_sizeBound _ _) h.cap_lt
      have hlength : (buf.block ++ heap.fresh turn (cap - buf.block.length)).length = cap := by
        rw [List.length_append, heap.length_fresh]
        omega
      refine ⟨⟨?_, ?_⟩, ?_⟩
      · simp only [hlength]
        omega
      · simp only [hlength]
        exact hlt
      · rw [OutBuffer.content, OutBuffer.content, List.take_append_of_le_length h.written_le]
  · obtain rfl := Option.some.inj hroom
    exact ⟨h, rfl⟩

/-- The capacity is the one the loop on lists computes. -/
theorem OutBuffer.Fits.makeRoom_cap (h : buf.Fits A) (heap : BzHeap) (turn : ℕ) :
    (if buf.content.length = buf.block.length then
        bzipEnsureCapacity A buf.block.length (A.add buf.content.length 1) (heap.realloc turn)
      else some buf.block.length) = (buf.makeRoom A heap turn).map fun b => b.block.length := by
  rw [h.length_content, OutBuffer.makeRoom]
  split
  · next hfull =>
      rw [Option.map_map]
      cases hcap : bzipEnsureCapacity A buf.block.length (A.add buf.written 1)
          (heap.realloc turn) with
      | none => rfl
      | some cap =>
          obtain ⟨hle, -⟩ := bzipEnsureCapacity_bounds hcap (add_lt_sizeBound _ _) h.cap_lt
          simp only [Option.map_some, Function.comp_apply, List.length_append, heap.length_fresh]
          congr 1
          omega
  · rfl

/-- What the library puts out within its space lands in the buffer behind what is
there. -/
theorem OutBuffer.Fits.put (h : buf.Fits A) {produced : List UInt8}
    (hp : produced.length ≤ buf.avail A) :
    ∃ buf', buf.put A produced = some buf' ∧ buf'.Fits A ∧
      buf'.content = buf.content ++ produced ∧ buf'.block.length = buf.block.length := by
  have hle := h.written_le
  have hcap := h.cap_lt
  rw [h.avail_eq] at hp
  have hfits : buf.written + produced.length ≤ buf.block.length := by omega
  have hlength := length_write hfits
  have hsum : A.add buf.written produced.length = buf.written + produced.length :=
    A.add_of_lt (by omega)
  refine ⟨_, if_pos hfits, ⟨?_, ?_⟩, ?_, hlength⟩
  · simp only [hsum, hlength]
    exact hfits
  · simp only [hlength]
    exact hcap
  · have htake : (buf.block.take buf.written ++ produced).length =
        buf.written + produced.length := by
      rw [List.length_append, List.length_take, Nat.min_eq_left hle]
    rw [OutBuffer.content, OutBuffer.content, hsum, write, ← htake, List.take_left]

end

namespace BzLoop

variable {σ : Type} {L : BzLoop σ} {A : Arch} {buf buf₁ : OutBuffer}

/-- A turn of the loop on lists, in terms of the buffer. -/
theorem turns_succ (hfits : buf.Fits A) {heap : BzHeap} {turn : ℕ}
    (hroom : buf.makeRoom A heap turn = some buf₁) {m : BzMemory} {k : ℕ}
    (hm : m.realloc k = heap.realloc turn) (strm : σ) (input : List UInt8) :
    L.turns A m (k + 1) strm input buf.block.length buf.content =
      conclude (L.judge (L.call strm input (buf₁.avail A)))
        (.ok (buf₁.content ++ (L.call strm input (buf₁.avail A)).produced)) .error
        (L.turns A m k (L.call strm input (buf₁.avail A)).stream
          (input.drop (L.call strm input (buf₁.avail A)).consumed) buf₁.block.length
          (buf₁.content ++ (L.call strm input (buf₁.avail A)).produced)) := by
  obtain ⟨hfits₁, hcontent₁⟩ := hfits.makeRoom heap turn hroom
  rw [turns, hm, hfits.makeRoom_cap heap turn, hroom]
  simp only [Option.map_some]
  rw [← hcontent₁, hfits₁.length_content, ← hfits₁.avail_eq]

/-- A turn of the loop on the buffer writes inside of it. -/
theorem turnsAt_succ (hcall : ∀ strm input n, (L.call strm input n).produced.length ≤ n)
    (hfits : buf.Fits A) {heap : BzHeap} {k : ℕ} (hroom : buf.makeRoom A heap k = some buf₁)
    (strm : σ) (input : List UInt8) {log : List BzTurn} (hlog : ∀ t ∈ log, t.Inside A) :
    ∃ buf₂ : OutBuffer, ∃ turn : BzTurn, buf₂.Fits A ∧ (∀ t ∈ log ++ [turn], t.Inside A) ∧
      buf₂.content = buf₁.content ++ (L.call strm input (buf₁.avail A)).produced ∧
      buf₂.block.length = buf₁.block.length ∧
      L.turnsAt A heap (k + 1) strm input buf log =
        conclude (L.judge (L.call strm input (buf₁.avail A))) (some (.ok buf₂, log ++ [turn]))
          (fun status => some (.error status, log ++ [turn]))
          (L.turnsAt A heap k (L.call strm input (buf₁.avail A)).stream
            (input.drop (L.call strm input (buf₁.avail A)).consumed) buf₂ (log ++ [turn])) := by
  obtain ⟨hfits₁, -⟩ := hfits.makeRoom heap k hroom
  have hp := hcall strm input (buf₁.avail A)
  obtain ⟨buf₂, hput, hfits₂, hcontent₂, hcap₂⟩ := hfits₁.put hp
  refine ⟨buf₂, ⟨buf₁.block.length, buf₁.written, buf₁.avail A,
    (L.call strm input (buf₁.avail A)).produced.length⟩, hfits₂, ?_, hcontent₂, hcap₂, ?_⟩
  · intro t ht
    rcases List.mem_append.mp ht with ht | ht
    · exact hlog t ht
    · rw [List.mem_singleton.mp ht]
      exact hfits₁.inside hp
  · simp only [turnsAt, hroom, hput, Option.bind_some]

/-- The loop on the buffer never writes outside of it, and does what the loop on
lists does. -/
theorem turnsAt_refines (hcall : ∀ strm input n, (L.call strm input n).produced.length ≤ n)
    (heap : BzHeap) (k : ℕ) (strm : σ) (input : List UInt8) (hfits : buf.Fits A)
    (log : List BzTurn) (hlog : ∀ t ∈ log, t.Inside A) :
    ∃ res log', L.turnsAt A heap k strm input buf log = some (res, log') ∧
      res.map OutBuffer.content =
        L.turns A heap.toBzMemory k strm input buf.block.length buf.content ∧
      (∀ buf', res = .ok buf' → buf'.Fits A) ∧
      (∀ t ∈ log', t.Inside A) ∧ log'.length ≤ log.length + k := by
  induction k generalizing strm input buf log with
  | zero => exact ⟨_, log, rfl, rfl, by simp, hlog, Nat.le_refl _⟩
  | succ k ih =>
      cases hroom : buf.makeRoom A heap k with
      | none =>
          rw [turnsAt, turns, hfits.makeRoom_cap heap k, hroom]
          exact ⟨_, log, rfl, rfl, by simp, hlog, Nat.le_add_right _ _⟩
      | some buf₁ =>
          obtain ⟨buf₂, turn, hfits₂, hlog₁, hcontent₂, hcap₂, hturn⟩ :=
            turnsAt_succ hcall hfits hroom strm input hlog
          rw [hturn, turns_succ hfits hroom rfl]
          generalize L.call strm input (buf₁.avail A) = r at hcontent₂ ⊢
          rw [← hcontent₂, ← hcap₂]
          rcases L.judge r with _ | (status | _)
          · obtain ⟨res, log', hrun, hres, hok, hlog', hlen⟩ :=
              ih r.stream (input.drop r.consumed) hfits₂ _ hlog₁
            simp only [List.length_append, List.length_singleton] at hlen
            exact ⟨res, log', hrun, hres, hok, hlog', by omega⟩
          · exact ⟨_, _, rfl, rfl, by simp, hlog₁, by simp⟩
          · refine ⟨_, _, rfl, rfl, ?_, hlog₁, by simp⟩
            intro buf' hbuf
            rw [← Except.ok.inj hbuf]
            exact hfits₂

/-- With enough memory the loop takes no more turns than it needs. -/
theorem length_turnsAt_le (hcall : ∀ strm input n, (L.call strm input n).produced.length ≤ n)
    {heap : BzHeap} (hheap : heap.toBzMemory = .enough) (k few : ℕ) (strm : σ)
    (input : List UInt8) (hfits : buf.Fits A) (log : List BzTurn) (hlog : ∀ t ∈ log, t.Inside A)
    (hfew : L.turns A .enough few strm input buf.block.length buf.content ≠ .error .unknown)
    {res : Except Status OutBuffer} {log' : List BzTurn}
    (h : L.turnsAt A heap k strm input buf log = some (res, log')) :
    log'.length ≤ log.length + few := by
  induction k generalizing few strm input buf log with
  | zero =>
      obtain rfl := (Prod.mk.inj (Option.some.inj h)).2
      exact Nat.le_add_right _ _
  | succ k ih =>
      cases few with
      | zero => exact absurd rfl hfew
      | succ few =>
          cases hroom : buf.makeRoom A heap k with
          | none =>
              rw [turnsAt, hroom] at h
              obtain rfl := (Prod.mk.inj (Option.some.inj h)).2
              exact Nat.le_add_right _ _
          | some buf₁ =>
              obtain ⟨buf₂, turn, hfits₂, hlog₁, hcontent₂, hcap₂, hturn⟩ :=
                turnsAt_succ hcall hfits hroom strm input hlog
              have hm : BzMemory.enough.realloc few = heap.realloc k := by rw [hheap]; rfl
              rw [hturn] at h
              rw [turns_succ hfits hroom hm] at hfew
              generalize L.call strm input (buf₁.avail A) = r at hcontent₂ hfew h
              rw [← hcontent₂, ← hcap₂] at hfew
              rcases hjudge : L.judge r with _ | (status | _)
              · rw [hjudge] at h hfew
                have hlen := ih few _ _ hfits₂ _ hlog₁ hfew h
                rw [List.length_append, List.length_singleton] at hlen
                omega
              · rw [hjudge] at h
                obtain rfl := (Prod.mk.inj (Option.some.inj h)).2
                simp
              · rw [hjudge] at h
                obtain rfl := (Prod.mk.inj (Option.some.inj h)).2
                simp

end BzLoop

/-! ### The two functions -/

/-- What `*out_data` and `*out_len` hold. -/
structure OutArgs where
  data : Option (List UInt8)
  len : ℕ

/-- What a call returns, what `*out_data` and `*out_len` hold then (if neither
pointer is `NULL`), and its turns. -/
structure BzReturn where
  status : Status
  out : Option OutArgs
  turns : List BzTurn

/-- The end of both functions, from what the loop comes to. -/
def settle (out : OutArgs) (run : Option (Except Status OutBuffer × List BzTurn)) :
    Option BzReturn :=
  run.map fun r =>
    match r.1 with
    | .ok buf => ⟨.ok, some ⟨some buf.block, buf.written⟩, r.2⟩
    | .error status => ⟨status, some out, r.2⟩

/-- `sensor_bzip_compress`. -/
def bzipCompressAt {A : Arch} (B : Bz2) (heap : BzHeap) (input : Span A) :
    Option OutArgs → Option BzReturn
  | none => some ⟨.invalidArgument, none, []⟩
  | some out =>
      if input.bytes = none ∧ input.len > 0 then some ⟨.invalidArgument, some out, []⟩
      else if input.len > uintMax then some ⟨.overflow, some out, []⟩
      else if heap.init ≠ .ok then some ⟨initError heap.init, some out, []⟩
      else if !heap.malloc then some ⟨.outOfMemory, some out, []⟩
      else
        settle out (B.compressLoop.turnsAt A heap bzipMaxLoopIterations B.compressor input.content
          ⟨heap.fresh bzipMaxLoopIterations (compressCap A input.len), 0⟩ [])

/-- `sensor_bzip_decompress`. -/
def bzipDecompressAt {A : Arch} (B : Bz2) (heap : BzHeap) (input : Span A) :
    Option OutArgs → Option BzReturn
  | none => some ⟨.invalidArgument, none, []⟩
  | some out =>
      if input.bytes = none ∧ input.len > 0 then some ⟨.invalidArgument, some out, []⟩
      else if input.len > uintMax then some ⟨.overflow, some out, []⟩
      else if input.len = 0 then some ⟨.protocol, some out, []⟩
      else if heap.init ≠ .ok then some ⟨initError heap.init, some out, []⟩
      else if !heap.malloc then some ⟨.outOfMemory, some out, []⟩
      else
        settle out (B.decompressLoop.turnsAt A heap bzipMaxLoopIterations B.decompressor
          input.content ⟨heap.fresh bzipMaxLoopIterations (decompressCap A input.len), 0⟩ [])

/-- All or nothing: the bytes in a new block with their number, or a status with the
arguments as they were. -/
def BzReturn.Delivers (ret : BzReturn) (out : OutArgs) : Except Status (List UInt8) → Prop
  | .ok z => ret.status = .ok ∧ ∃ block, ret.out = some ⟨some block, z.length⟩ ∧ z <+: block
  | .error status => ret.status = status ∧ ret.out = some out

/-- Every turn of the call stays inside of the buffer, and there are no more than
the cap on iterations allows. -/
def BzReturn.Contained (A : Arch) (ret : BzReturn) : Prop :=
  (∀ t ∈ ret.turns, t.Inside A) ∧ ret.turns.length ≤ bzipMaxLoopIterations

section

variable {A : Arch} {B : Bz2}

theorem contained_nil (status : Status) (out : Option OutArgs) :
    BzReturn.Contained A ⟨status, out, []⟩ :=
  ⟨by simp, Nat.zero_le _⟩

/-- A call that returns before its loop has no turns and leaves the arguments. -/
theorem returns_early (status : Status) (out : OutArgs) {P : Prop} {Q : ℕ → Prop} :
    ∃ ret : BzReturn, some ⟨status, some out, []⟩ = some ret ∧ ret.Delivers out (.error status) ∧
      ret.Contained A ∧ (P → ∀ few, Q few → ret.turns.length ≤ few) :=
  ⟨_, rfl, ⟨rfl, rfl⟩, contained_nil _ _, fun _ _ _ => Nat.zero_le _⟩

theorem settle_refines {σ : Type} {L : BzLoop σ}
    (hcall : ∀ strm input n, (L.call strm input n).produced.length ≤ n) (heap : BzHeap) (strm : σ)
    (input : List UInt8) {cap : ℕ} (hcap : cap < A.sizeBound) (out : OutArgs) :
    ∃ ret, settle out (L.turnsAt A heap bzipMaxLoopIterations strm input
        ⟨heap.fresh bzipMaxLoopIterations cap, 0⟩ []) = some ret ∧
      ret.Delivers out (L.turns A heap.toBzMemory bzipMaxLoopIterations strm input cap []) ∧
      ret.Contained A ∧
      (heap.toBzMemory = .enough → ∀ few, L.turns A .enough few strm input cap [] ≠
        .error .unknown → ret.turns.length ≤ few) := by
  have hlength := heap.length_fresh bzipMaxLoopIterations cap
  have hfits : OutBuffer.Fits A ⟨heap.fresh bzipMaxLoopIterations cap, 0⟩ :=
    ⟨Nat.zero_le _, by simp only [hlength]; exact hcap⟩
  obtain ⟨res, log, hrun, hres, hok, hlog, hlen⟩ := BzLoop.turnsAt_refines hcall heap
    bzipMaxLoopIterations strm input hfits [] (by simp)
  simp only [hlength, OutBuffer.content, List.take_zero] at hres
  have hfew : heap.toBzMemory = .enough → ∀ few, L.turns A .enough few strm input cap [] ≠
      .error .unknown → log.length ≤ few := by
    intro hheap few hne
    have hle := BzLoop.length_turnsAt_le hcall hheap _ few strm input hfits [] (by simp)
      (by simpa only [hlength, OutBuffer.content, List.take_zero] using hne) hrun
    simpa using hle
  have hcontained : ∀ status args, BzReturn.Contained A ⟨status, args, log⟩ := by
    intro status args
    exact ⟨hlog, by simpa using hlen⟩
  rw [hrun, ← hres]
  cases res with
  | error status => exact ⟨_, rfl, ⟨rfl, rfl⟩, hcontained _ _, hfew⟩
  | ok buf =>
      refine ⟨_, rfl, ⟨rfl, buf.block, ?_, List.take_prefix _ _⟩, hcontained _ _, hfew⟩
      simp only [(hok buf rfl).length_content]

/-- `sensor_bzip_compress` never writes outside of its buffer, delivers all or
nothing, and what it delivers is what the function on lists says. -/
theorem bzipCompressAt_refines
    (hcall : ∀ c action input n, (B.compress c action input n).produced.length ≤ n)
    (heap : BzHeap) (input : Span A) (out : OutArgs) :
    ∃ ret, bzipCompressAt B heap input (some out) = some ret ∧
      ret.Delivers out (bzipCompress B heap.toBzMemory input) ∧ ret.Contained A ∧
      (heap.toBzMemory = .enough → ∀ few, bzipCompressLoop A B .enough few B.compressor
        input.content (compressCap A input.len) [] ≠ .error .unknown →
        ret.turns.length ≤ few) := by
  rw [bzipCompressAt, bzipCompress]
  split
  · exact returns_early _ out
  split
  · exact returns_early _ out
  split
  · exact returns_early _ out
  split
  · exact returns_early _ out
  · simp only [bzipCompressLoop_eq]
    exact settle_refines (fun strm input n => hcall _ _ _ _) heap _ _ (add_lt_sizeBound _ _) out

theorem decompressCap_lt (len : ℕ) : decompressCap A len < A.sizeBound := by
  have hbound := A.two_pow_32_le_sizeBound
  unfold decompressCap
  simp only
  split <;> split <;> omega

theorem bzipDecompressAt_refines
    (hcall : ∀ d input n, (B.decompress d input n).produced.length ≤ n)
    (heap : BzHeap) (input : Span A) (out : OutArgs) :
    ∃ ret, bzipDecompressAt B heap input (some out) = some ret ∧
      ret.Delivers out (bzipDecompress B heap.toBzMemory input) ∧ ret.Contained A ∧
      (heap.toBzMemory = .enough → ∀ few, bzipDecompressLoop A B .enough few B.decompressor
        input.content (decompressCap A input.len) [] ≠ .error .unknown →
        ret.turns.length ≤ few) := by
  rw [bzipDecompressAt, bzipDecompress]
  split
  · exact returns_early _ out
  split
  · exact returns_early _ out
  split
  · exact returns_early _ out
  split
  · exact returns_early _ out
  split
  · exact returns_early _ out
  · simp only [bzipDecompressLoop_eq]
    exact settle_refines hcall heap _ _ (decompressCap_lt _) out

end

end Savvy.Stream
