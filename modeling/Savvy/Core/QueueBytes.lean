import Savvy.Core.Queue
import Savvy.Kit.Buffer

/-!
The queue with its storage as the bytes it is (`src/core/queue.c`): the slots lie
one behind the other in one block, and every copy computes its offset in `size_t`.
`ByteQueue.Stores` says that the block has its size and that its slots, as a ring,
hold a list of items.
-/

namespace Savvy

open Kit

/-- What `malloc(n)` returns if it is not `NULL`. No object is larger than
`PTRDIFF_MAX`, and the bytes are arbitrary. -/
structure Block (A : Arch) (n : ℕ) where
  bytes : List UInt8
  length_eq : bytes.length = n
  le_max : n ≤ A.ptrdiffMax

/-- `savvy_queue_t`, without the lock and the condition variables. The last field
says whether `item_destroy_fn` is set. -/
structure ByteQueue where
  storage : List UInt8
  itemSize : ℕ
  capacity : ℕ
  count : ℕ
  head : ℕ
  closed : Bool
  itemDestroy : Bool

namespace ByteQueue

/-- What a blocking push does: it waits, is refused, or has copied its item in. -/
inductive PushResult
  | wait
  | closed
  | pushed (q : ByteQueue)

/-- What a pop does: it waits, is refused, or has copied an item out. -/
inductive PopResult
  | wait
  | closed
  | item (bytes : List UInt8) (q : ByteQueue)

variable (A : Arch)

/-- `savvy_queue_init`, with what `malloc` and the three initialisations of
`pthread` return. -/
def init (capacity itemSize : ℕ) (itemDestroy : Bool)
    (malloc : Option (Block A (A.mul capacity itemSize))) (lock notEmpty notFull : Bool) :
    Except Status ByteQueue :=
  if capacity = 0 ∨ itemSize = 0 then .error .invalidArgument
  else if capacity > (A.sizeBound - 1) / itemSize then .error .invalidArgument
  else
    match malloc with
    | none => .error .outOfMemory
    | some block =>
        if lock = false then .error .unknown
        else if notEmpty = false then .error .unknown
        else if notFull = false then .error .unknown
        else .ok ⟨block.bytes, itemSize, capacity, 0, 0, false, itemDestroy⟩

/-- The index `i` places behind the head. -/
def index (q : ByteQueue) (i : ℕ) : ℕ := A.add q.head i % q.capacity

def offset (q : ByteQueue) (idx : ℕ) : ℕ := A.mul idx q.itemSize

def bytesAt (q : ByteQueue) (idx : ℕ) : List UInt8 :=
  slice q.storage (q.offset A idx) (q.offset A idx + q.itemSize)

def enqueue (q : ByteQueue) (item : List UInt8) : ByteQueue :=
  { q with
    storage := write q.storage (q.offset A (q.index A q.count)) item
    count := A.add q.count 1 }

def dequeue (q : ByteQueue) : ByteQueue :=
  { q with head := q.index A 1, count := A.sub q.count 1 }

/-- `savvy_queue_push`: the test of its loop, and what is behind it. -/
def push (q : ByteQueue) (item : List UInt8) : PushResult :=
  if q.count = q.capacity ∧ q.closed = false then .wait
  else if q.closed then .closed
  else .pushed (q.enqueue A item)

def tryPush (q : ByteQueue) (item : List UInt8) : Status × ByteQueue :=
  if q.closed then (.closed, q)
  else if q.count = q.capacity then (.overflow, q)
  else (.ok, q.enqueue A item)

/-- `savvy_queue_pop`: the test of its loop, and what is behind it. -/
def pop (q : ByteQueue) : PopResult :=
  if q.count = 0 ∧ q.closed = false then .wait
  else if q.count = 0 ∧ q.closed = true then .closed
  else .item (q.bytesAt A q.head) (q.dequeue A)

def close (q : ByteQueue) : ByteQueue := { q with closed := true }

/-- The loop over the slots in use that `savvy_queue_cancel` and
`savvy_queue_destroy` share: the items handed to `item_destroy_fn`, in order. -/
def handed (q : ByteQueue) : List (List UInt8) :=
  if q.itemDestroy then (List.range q.count).map fun i => q.bytesAt A (q.index A i) else []

def cancel (q : ByteQueue) : List (List UInt8) × ByteQueue :=
  (q.handed A, { q with closed := true, count := 0, head := 0 })

theorem tryPush_overflow_iff {q : ByteQueue} {item : List UInt8} :
    (q.tryPush A item).1 = .overflow ↔ q.count = q.capacity ∧ q.closed = false := by
  unfold tryPush
  cases hclosed : q.closed with
  | true => simp
  | false => by_cases hfull : q.count = q.capacity <;> simp [hfull]

theorem tryPush_unchanged {q : ByteQueue} {item : List UInt8}
    (h : (q.tryPush A item).1 ≠ .ok) : (q.tryPush A item).2 = q := by
  revert h
  unfold tryPush
  split
  · exact fun _ => rfl
  · split
    · exact fun _ => rfl
    · exact fun h => absurd rfl h

/-! ### The slots -/

/-- The block as a ring of slots. -/
def slots (q : ByteQueue) : Queue (List UInt8) where
  storage := (List.range q.capacity).map fun idx => some (q.bytesAt A idx)
  head := q.head
  count := q.count
  closed := q.closed

/-- The block has room for all slots, and the ring of its slots holds the
items. -/
structure Stores (q : ByteQueue) (xs : List (List UInt8)) : Prop where
  length_eq : q.storage.length = q.capacity * q.itemSize
  le_max : q.capacity * q.itemSize ≤ A.ptrdiffMax
  itemSize_pos : 0 < q.itemSize
  holds : Queue.Holds A (q.slots A) xs

variable {A} {q : ByteQueue} {xs : List (List UInt8)} {item : List UInt8}

@[simp] theorem slots_capacity : (q.slots A).capacity = q.capacity := by
  simp [slots, Queue.capacity]

theorem slots_read {idx : ℕ} (h : idx < q.capacity) :
    (q.slots A).read idx = some (q.bytesAt A idx) := by
  rw [Queue.read, slots, List.getElem?_map, List.getElem?_range h]
  rfl

theorem slots_slot (i : ℕ) : (q.slots A).slot A i = q.index A i := by
  rw [Queue.slot, slots_capacity]
  rfl

theorem slots_dequeue : (q.dequeue A).slots A = (q.slots A).dequeue A := by
  simp only [slots, Queue.dequeue, dequeue, Queue.mk.injEq, and_true]
  exact ⟨rfl, (slots_slot 1).symm⟩

/-- The slot of an index lies in the block, and its offset does not wrap. -/
theorem Stores.offset_eq (h : Stores A q xs) {idx : ℕ} (hidx : idx < q.capacity) :
    q.offset A idx = idx * q.itemSize ∧ idx * q.itemSize + q.itemSize ≤ q.storage.length := by
  have hend : idx * q.itemSize + q.itemSize ≤ q.capacity * q.itemSize := by
    rw [← Nat.succ_mul]
    exact Nat.mul_le_mul_right _ hidx
  have hbound := A.two_mul_ptrdiffMax_lt
  have hmax := h.le_max
  rw [h.length_eq]
  exact ⟨A.mul_of_lt (by omega), hend⟩

theorem Stores.capacity_pos (h : Stores A q xs) : 0 < q.capacity := by
  have hlt := h.holds.head_lt
  rw [slots_capacity] at hlt
  exact Nat.zero_lt_of_lt hlt

theorem Stores.index_lt (h : Stores A q xs) (i : ℕ) : q.index A i < q.capacity :=
  Nat.mod_lt _ h.capacity_pos

theorem Stores.count_eq (h : Stores A q xs) : q.count = xs.length := h.holds.count_eq

theorem Stores.count_le (h : Stores A q xs) : q.count ≤ q.capacity := by
  have hle := h.holds.length_le
  rw [slots_capacity] at hle
  exact h.count_eq.trans_le hle

theorem Stores.head_lt (h : Stores A q xs) : q.head < q.capacity := by
  have hlt := h.holds.head_lt
  rwa [slots_capacity] at hlt

theorem Stores.bytesAt_enqueue (h : Stores A q xs) (hitem : item.length = q.itemSize) {idx : ℕ}
    (hidx : idx < q.capacity) :
    (q.enqueue A item).bytesAt A idx =
      if q.index A q.count = idx then item else q.bytesAt A idx := by
  obtain ⟨hoff, hend⟩ := h.offset_eq hidx
  obtain ⟨htailOff, htailEnd⟩ := h.offset_eq (h.index_lt q.count)
  change slice (write q.storage (q.offset A (q.index A q.count)) item) (q.offset A idx)
    (q.offset A idx + q.itemSize) = _
  rw [bytesAt, hoff, htailOff]
  rcases Nat.lt_trichotomy (q.index A q.count) idx with hlt | heq | hgt
  · have hmul : (q.index A q.count + 1) * q.itemSize ≤ idx * q.itemSize :=
      Nat.mul_le_mul_right _ hlt
    rw [Nat.succ_mul] at hmul
    rw [if_neg hlt.ne, slice_write_of_ge (by omega) (by omega)]
  · have hself : slice (write q.storage (q.index A q.count * q.itemSize) item)
        (q.index A q.count * q.itemSize) (q.index A q.count * q.itemSize + item.length) = item :=
      slice_write_self (by omega)
    rw [hitem] at hself
    rw [if_pos heq, ← heq, hself]
  · have hmul : (idx + 1) * q.itemSize ≤ q.index A q.count * q.itemSize :=
      Nat.mul_le_mul_right _ hgt
    rw [Nat.succ_mul] at hmul
    rw [if_neg hgt.ne', slice_write_of_le hmul (by omega)]

theorem slots_getElem? (idx : ℕ) :
    (q.slots A).storage[idx]? =
      if idx < q.capacity then some (some (q.bytesAt A idx)) else none := by
  rw [slots, List.getElem?_map]
  split
  · next hidx =>
      rw [List.getElem?_range hidx]
      rfl
  · next hidx =>
      rw [List.getElem?_eq_none (by rwa [List.length_range, ← Nat.not_lt])]
      rfl

theorem Stores.slots_enqueue (h : Stores A q xs) (hitem : item.length = q.itemSize) :
    (q.enqueue A item).slots A = (q.slots A).enqueue A item := by
  have hlen : (q.slots A).storage.length = q.capacity := slots_capacity
  have hstorage : ((q.enqueue A item).slots A).storage = ((q.slots A).enqueue A item).storage := by
    refine List.ext_getElem? fun idx => ?_
    change _ = ((q.slots A).storage.set ((q.slots A).slot A q.count) (some item))[idx]?
    rw [List.getElem?_set, slots_slot, hlen, if_pos (h.index_lt _), slots_getElem?,
      slots_getElem?]
    change (if idx < q.capacity then _ else _) = _
    rcases Nat.lt_or_ge idx q.capacity with hidx | hidx
    · rw [if_pos hidx, if_pos hidx, h.bytesAt_enqueue hitem hidx]
      split <;> rfl
    · have hne : q.index A q.count ≠ idx := (lt_of_lt_of_le (h.index_lt _) hidx).ne
      rw [if_neg hidx.not_gt, if_neg hne, if_neg hidx.not_gt]
  exact congrArg (fun st => (⟨st, q.head, A.add q.count 1, q.closed⟩ : Queue (List UInt8))) hstorage

theorem Stores.enqueue (h : Stores A q xs) (hitem : item.length = q.itemSize)
    (hroom : q.count ≠ q.capacity) : Stores A (q.enqueue A item) (xs ++ [item]) := by
  have hle := h.count_le
  have hcount := h.count_eq
  obtain ⟨htailOff, htailEnd⟩ := h.offset_eq (h.index_lt q.count)
  refine ⟨?_, h.le_max, h.itemSize_pos, ?_⟩
  · change (write q.storage (q.offset A (q.index A q.count)) item).length = _
    rw [length_write (by rw [htailOff, hitem]; exact htailEnd)]
    exact h.length_eq
  · rw [h.slots_enqueue hitem]
    exact h.holds.enqueue item (by rw [slots_capacity]; omega)

theorem Stores.dequeue {x : List UInt8} (h : Stores A q (x :: xs)) :
    q.bytesAt A q.head = x ∧ Stores A (q.dequeue A) xs := by
  obtain ⟨hread, hrest⟩ := h.holds.dequeue
  refine ⟨?_, h.length_eq, h.le_max, h.itemSize_pos, ?_⟩
  · exact Option.some.inj ((slots_read h.head_lt).symm.trans hread)
  · rw [slots_dequeue]
    exact hrest

/-- What the loop of a cancel or a destroy hands over is what the queue holds. -/
theorem Stores.handed_eq (h : Stores A q xs) :
    q.handed A = if q.itemDestroy then xs else [] := by
  have hbuffered := h.holds.buffered_eq
  have hmap : (q.slots A).buffered A =
      ((List.range q.count).map fun i => q.bytesAt A (q.index A i)).map some := by
    rw [Queue.buffered, List.map_map]
    refine List.map_congr_left fun i _ => ?_
    rw [slots_slot, slots_read (h.index_lt i)]
    rfl
  have hitems : ((List.range q.count).map fun i => q.bytesAt A (q.index A i)) = xs :=
    List.map_injective_iff.mpr (Option.some_injective _) (hmap.symm.trans hbuffered)
  rw [handed, hitems]

/-- The ring holds each item in its place behind the head. -/
theorem Stores.bytesAt_index (h : Stores A q xs) {i : ℕ} {x : List UInt8}
    (hi : xs[i]? = some x) : q.bytesAt A (q.index A i) = x := by
  obtain ⟨hlt, -⟩ := List.getElem?_eq_some_iff.mp hi
  have hcount := h.count_eq
  have hle := h.count_le
  have hslot : q.index A i = (q.head + i) % q.capacity := by
    have hplace := h.holds.slot_eq (show i ≤ (q.slots A).capacity by rw [slots_capacity]; omega)
    rwa [slots_slot, slots_capacity] at hplace
  have hread := h.holds.stored i x hi
  rw [slots_capacity] at hread
  have hsame : (q.slots A).read (q.index A i) = some x := by
    rw [hslot]
    exact hread
  exact Option.some.inj ((slots_read (h.index_lt i)).symm.trans hsame)

theorem Stores.close (h : Stores A q xs) : Stores A q.close xs := by
  obtain ⟨hcount, hle, hhead, hstored, hfits⟩ := h.holds
  exact ⟨h.length_eq, h.le_max, h.itemSize_pos, hcount, hle, hhead, hstored, hfits⟩

theorem Stores.cancel (h : Stores A q xs) : Stores A (q.cancel A).2 [] :=
  ⟨h.length_eq, h.le_max, h.itemSize_pos, h.holds.cancel.2.1⟩

theorem init_ok {capacity itemSize : ℕ} {itemDestroy lock notEmpty notFull : Bool}
    {malloc : Option (Block A (A.mul capacity itemSize))}
    (h : init A capacity itemSize itemDestroy malloc lock notEmpty notFull = .ok q) :
    0 < capacity ∧ 0 < itemSize ∧ capacity * itemSize < A.sizeBound ∧
      ∃ block : Block A (A.mul capacity itemSize),
        q = ⟨block.bytes, itemSize, capacity, 0, 0, false, itemDestroy⟩ := by
  unfold init at h
  split at h
  case isTrue => cases h
  case isFalse hpos =>
    obtain ⟨hcapacity, hitemSize⟩ := not_or.mp hpos
    split at h
    case isTrue => cases h
    case isFalse hfits =>
      have hle := (Nat.le_div_iff_mul_le (Nat.pos_of_ne_zero hitemSize)).mp (Nat.le_of_not_lt hfits)
      have hbound := A.two_pow_32_le_sizeBound
      refine ⟨Nat.pos_of_ne_zero hcapacity, Nat.pos_of_ne_zero hitemSize, by omega, ?_⟩
      split at h
      · cases h
      · next block =>
          repeat' split at h
          all_goals cases h
          exact ⟨block, rfl⟩

theorem stores_init {capacity itemSize : ℕ} {itemDestroy lock notEmpty notFull : Bool}
    {malloc : Option (Block A (A.mul capacity itemSize))}
    (h : init A capacity itemSize itemDestroy malloc lock notEmpty notFull = .ok q) :
    Stores A q [] := by
  obtain ⟨hcapacity, hitemSize, hfits, block, rfl⟩ := init_ok h
  have hmul : A.mul capacity itemSize = capacity * itemSize := A.mul_of_lt hfits
  have hmax : capacity * itemSize ≤ A.ptrdiffMax := hmul ▸ block.le_max
  have hle : capacity ≤ capacity * itemSize := Nat.le_mul_of_pos_right _ hitemSize
  have hbound := A.two_mul_ptrdiffMax_lt
  refine ⟨block.length_eq.trans hmul, hmax, hitemSize, rfl, Nat.zero_le _, ?_, by simp, ?_⟩
  · rw [slots_capacity]
    exact hcapacity
  · rw [slots_capacity]
    change 2 * capacity ≤ _
    omega

end ByteQueue

end Savvy
