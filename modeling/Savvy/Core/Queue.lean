import Mathlib.Data.Int.ModEq
import Mathlib.Data.List.ReduceOption
import Savvy.Core.SizeT
import Savvy.Core.Status

/-!
The bounded queue (`src/core/queue.c`): a ring of `capacity` slots of which
`count` are in use, starting at `head`. Each function is what it does while it
holds the lock; a wait on a condition variable is a call that cannot proceed.
`Queue.Holds` relates the ring to the list of items it stands for.
-/

namespace Savvy

/-- `savvy_queue_t`. A slot that was never written is `none`. -/
structure Queue (α : Type*) where
  storage : List (Option α)
  head : ℕ
  count : ℕ
  closed : Bool

/-- What a pop does with the queue in a given state: it waits, returns
`SAVVY_ERR_CLOSED`, or copies a slot out. -/
inductive PopResult (α : Type*)
  | wait
  | closed
  | item (x : Option α) (q : Queue α)

namespace Queue

variable {α : Type*}

def capacity (q : Queue α) : ℕ := q.storage.length

/-- `savvy_queue_init`, once it has checked `capacity` and `item_size`. -/
def init (capacity : ℕ) : Queue α := ⟨List.replicate capacity none, 0, 0, false⟩

variable (A : Arch)

/-- The slot `i` places behind the head. -/
def slot (q : Queue α) (i : ℕ) : ℕ := A.add q.head i % q.capacity

def read (q : Queue α) (idx : ℕ) : Option α := (q.storage[idx]?).join

def enqueue (q : Queue α) (x : α) : Queue α where
  storage := q.storage.set (q.slot A q.count) (some x)
  head := q.head
  count := A.add q.count 1
  closed := q.closed

def dequeue (q : Queue α) : Queue α where
  storage := q.storage
  head := q.slot A 1
  count := A.sub q.count 1
  closed := q.closed

def tryPush (q : Queue α) (x : α) : Status × Queue α :=
  if q.closed then (.closed, q)
  else if q.count = q.capacity then (.overflow, q)
  else (.ok, q.enqueue A x)

/-- `savvy_queue_pop`. -/
def pop (q : Queue α) : PopResult α :=
  if q.count = 0 ∧ q.closed = false then .wait
  else if q.count = 0 then .closed
  else .item (q.read q.head) (q.dequeue A)

/-- The items that `savvy_queue_cancel` hands to `item_destroy_fn`, in order. -/
def buffered (q : Queue α) : List (Option α) :=
  (List.range q.count).map fun i => q.read (q.slot A i)

def cancel (q : Queue α) : List (Option α) × Queue α :=
  (q.buffered A, { q with closed := true, count := 0, head := 0 })

/-! ### The list a queue stands for -/

/-- The queue holds the items `xs`, the oldest first. The last field is what
`savvy_queue_init` ensures for items of two bytes or more. -/
structure Holds (q : Queue α) (xs : List α) : Prop where
  count_eq : q.count = xs.length
  length_le : xs.length ≤ q.capacity
  head_lt : q.head < q.capacity
  stored : ∀ i x, xs[i]? = some x → q.read ((q.head + i) % q.capacity) = some x
  fits : 2 * q.capacity ≤ A.sizeBound

variable {A} {q : Queue α} {xs : List α}

theorem Holds.init {capacity : ℕ} (hpos : 0 < capacity) (hfits : 2 * capacity ≤ A.sizeBound) :
    Holds A (init capacity : Queue α) [] := by
  refine ⟨rfl, Nat.zero_le _, ?_, by simp, ?_⟩
  · simpa [Queue.init, Queue.capacity] using hpos
  · simpa [Queue.init, Queue.capacity] using hfits

theorem Holds.slot_eq (h : Holds A q xs) {i : ℕ} (hi : i ≤ q.capacity) :
    q.slot A i = (q.head + i) % q.capacity := by
  have hhead := h.head_lt
  have hfits := h.fits
  rw [slot, A.add_of_lt (by omega)]

@[simp] theorem enqueue_capacity (x : α) : (q.enqueue A x).capacity = q.capacity :=
  List.length_set

@[simp] theorem dequeue_capacity : (q.dequeue A).capacity = q.capacity := rfl

theorem read_enqueue {idx : ℕ} (x : α) (hlt : q.slot A q.count < q.capacity) :
    (q.enqueue A x).read idx = if q.slot A q.count = idx then some x else q.read idx := by
  unfold capacity at hlt
  simp only [read, enqueue, List.getElem?_set, hlt, if_true]
  split <;> rfl

theorem place_ne {cap head i j : ℕ} (hij : i < j) (hj : j < cap) :
    (head + j) % cap ≠ (head + i) % cap := by
  intro heq
  have hmod : Nat.ModEq cap j i := Nat.ModEq.add_left_cancel' head heq
  have := Nat.ModEq.eq_of_lt_of_lt hmod hj (hij.trans hj)
  omega

theorem Holds.enqueue (h : Holds A q xs) (x : α) (hroom : xs.length < q.capacity) :
    Holds A (q.enqueue A x) (xs ++ [x]) := by
  have hcount := h.count_eq
  have hfits := h.fits
  have hpos : 0 < q.capacity := by omega
  have hslot : q.slot A q.count = (q.head + xs.length) % q.capacity := by
    rw [hcount]
    exact h.slot_eq hroom.le
  refine ⟨?_, ?_, ?_, fun i y hy => ?_, ?_⟩
  · rw [List.length_append, ← hcount]
    exact A.add_of_lt (by omega)
  · rw [enqueue_capacity, List.length_append]
    exact hroom
  · rw [enqueue_capacity]
    exact h.head_lt
  · rw [enqueue_capacity, read_enqueue x (by rw [hslot]; exact Nat.mod_lt _ hpos), hslot]
    change (if _ = (q.head + i) % q.capacity then _ else _) = _
    rcases Nat.lt_or_ge i xs.length with hlt | hge
    · rw [if_neg (place_ne hlt hroom)]
      exact h.stored i y (by rwa [List.getElem?_append_left hlt] at hy)
    · have hi : i = xs.length := by
        obtain ⟨hlt, -⟩ := List.getElem?_eq_some_iff.mp hy
        rw [List.length_append, List.length_singleton] at hlt
        omega
      subst hi
      rw [if_pos rfl]
      simpa using hy
  · rw [enqueue_capacity]
    exact hfits

theorem Holds.dequeue {x : α} (h : Holds A q (x :: xs)) :
    q.read q.head = some x ∧ Holds A (q.dequeue A) xs := by
  have hcount := h.count_eq
  have hle := h.length_le
  have hhead := h.head_lt
  have hfits := h.fits
  simp only [List.length_cons] at hcount hle
  have hslot : q.slot A 1 = (q.head + 1) % q.capacity := h.slot_eq (by omega)
  have hpos : 0 < q.capacity := by omega
  refine ⟨?_, ?_, ?_, ?_, fun i y hy => ?_, hfits⟩
  · simpa [Nat.mod_eq_of_lt hhead] using h.stored 0 x rfl
  · change A.sub q.count 1 = xs.length
    rw [A.sub_of_le (by omega) (by omega)]
    omega
  · rw [dequeue_capacity]
    omega
  · change q.slot A 1 < q.capacity
    rw [hslot]
    exact Nat.mod_lt _ hpos
  · have hstored := h.stored (i + 1) y hy
    change q.read ((q.slot A 1 + i) % q.capacity) = some y
    rw [hslot, Nat.mod_add_mod, Nat.add_assoc, Nat.add_comm 1 i]
    exact hstored

/-- A push is refused when the queue is closed, else when it is full. -/
theorem Holds.tryPush_spec (h : Holds A q xs) (x : α) :
    (q.closed = true ∧ q.tryPush A x = (.closed, q)) ∨
      (q.closed = false ∧ xs.length = q.capacity ∧ q.tryPush A x = (.overflow, q)) ∨
      (q.closed = false ∧ ∃ q', q.tryPush A x = (.ok, q') ∧ Holds A q' (xs ++ [x]) ∧
        q'.closed = false) := by
  have hcount := h.count_eq
  unfold tryPush
  cases hclosed : q.closed with
  | true => exact .inl ⟨rfl, if_pos rfl⟩
  | false =>
      rw [if_neg (by simp)]
      rcases Nat.lt_or_ge xs.length q.capacity with hlt | hge
      · rw [if_neg (by omega)]
        exact .inr (.inr ⟨rfl, _, rfl, h.enqueue x hlt, hclosed⟩)
      · have hfull : xs.length = q.capacity := le_antisymm h.length_le hge
        rw [if_pos (hcount.trans hfull)]
        exact .inr (.inl ⟨rfl, hfull, rfl⟩)

/-- A pop takes the oldest item; without one it waits, or reports that the
queue is closed. -/
theorem Holds.pop_spec (h : Holds A q xs) :
    (xs = [] ∧ q.closed = false ∧ q.pop A = .wait) ∨
      (xs = [] ∧ q.closed = true ∧ q.pop A = .closed) ∨
      (∃ x ys q', xs = x :: ys ∧ q.pop A = .item (some x) q' ∧ Holds A q' ys ∧
        q'.closed = q.closed) := by
  have hcount := h.count_eq
  unfold pop
  cases xs with
  | nil =>
      have hzero : q.count = 0 := hcount
      cases hclosed : q.closed with
      | false => exact .inl ⟨rfl, rfl, by simp [hzero]⟩
      | true => exact .inr (.inl ⟨rfl, rfl, by simp [hzero]⟩)
  | cons x ys =>
      have hne : ¬ q.count = 0 := by simp [hcount]
      obtain ⟨hread, hrest⟩ := h.dequeue
      refine .inr (.inr ⟨x, ys, q.dequeue A, rfl, ?_, hrest, rfl⟩)
      rw [if_neg (fun hc => hne hc.1), if_neg hne, hread]

theorem Holds.buffered_eq (h : Holds A q xs) : q.buffered A = xs.map some := by
  have hle := h.length_le
  refine List.ext_getElem? fun i => ?_
  rw [buffered, h.count_eq, List.getElem?_map, List.getElem?_map]
  rcases Nat.lt_or_ge i xs.length with hlt | hge
  · have hx := List.getElem?_eq_getElem hlt
    rw [List.getElem?_range hlt, hx, Option.map_some, Option.map_some, h.slot_eq (by omega),
      h.stored i _ hx]
  · rw [List.getElem?_eq_none (by simpa using hge), List.getElem?_eq_none hge]
    rfl

variable (A) in
def contents (q : Queue α) : List α := (q.buffered A).reduceOption

theorem Holds.contents_eq (h : Holds A q xs) : q.contents A = xs := by
  rw [contents, h.buffered_eq, List.reduceOption, List.filterMap_map]
  exact List.filterMap_some

theorem Holds.cancel (h : Holds A q xs) :
    (q.cancel A).1 = xs.map some ∧ Holds A (q.cancel A).2 [] ∧ (q.cancel A).2.closed = true := by
  refine ⟨h.buffered_eq, ⟨rfl, Nat.zero_le _, ?_, by simp, h.fits⟩, rfl⟩
  exact lt_of_le_of_lt (Nat.zero_le _) h.head_lt

end Queue

end Savvy
