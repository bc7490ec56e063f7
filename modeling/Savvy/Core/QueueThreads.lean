import Mathlib.Data.Fintype.Basic
import Savvy.Core.QueueBytes
import Savvy.Kit.Fifo
import Savvy.Kit.System

/-!
Any number of threads at one queue (`src/core/queue.c`). What a call does with the
lock held is one step. A call that has to wait gives the lock up and falls asleep
on a condition variable; once it is woken, by a signal, by a broadcast or for no
reason at all, it takes the lock again and tests its condition anew. Which thread a
signal wakes is up to the scheduler. The trace records the calls that return, and
it is a run of the bounded queue of `Kit.Fifo`.
-/

namespace Savvy

open Kit

inductive Cond
  | notEmpty
  | notFull
  deriving DecidableEq

inductive Blocked
  | push (item : List UInt8)
  | pop

def Blocked.cond : Blocked → Cond
  | .push _ => .notFull
  | .pop => .notEmpty

/-- The queue, the calls of the threads that have waited and not returned yet,
which of these threads are asleep, and the calls that returned. -/
structure QueueWorld (ι : Type*) where
  q : ByteQueue
  calls : ι → Option Blocked
  asleep : ι → Bool
  destroyed : Bool
  trace : List (Fifo.Event (List UInt8))

/-- The steps: a call that takes the lock, a woken call that takes it again, and a
wake-up without a signal. The last argument of a call is the thread that its signal
wakes, if it makes one and a thread is asleep. -/
inductive QueueAct (ι : Type*)
  | push (t : ι) (item : List UInt8) (woken : Option ι)
  | tryPush (t : ι) (item : List UInt8) (woken : Option ι)
  | pop (t : ι) (woken : Option ι)
  | resume (t : ι) (woken : Option ι)
  | wake (t : ι)
  | close (t : ι)
  | cancel (t : ι)
  | destroy

namespace QueueWorld

variable {ι : Type*}

def sleepsOn (w : QueueWorld ι) (c : Cond) (t : ι) : Bool :=
  w.asleep t && (w.calls t).any (·.cond == c)

def ready (w : QueueWorld ι) (t : ι) : Bool := !w.destroyed && (w.calls t).isNone

variable [DecidableEq ι]

def wait (w : QueueWorld ι) (t : ι) (call : Blocked) : QueueWorld ι :=
  { w with
    calls := Function.update w.calls t (some call)
    asleep := Function.update w.asleep t true }

def answer (w : QueueWorld ι) (t : ι) (q : ByteQueue) (e : Fifo.Event (List UInt8))
    (asleep : ι → Bool) : QueueWorld ι :=
  { w with
    q := q
    calls := Function.update w.calls t none
    asleep := asleep
    trace := w.trace ++ [e] }

variable [Fintype ι]

/-- `pthread_cond_signal`: who is asleep behind it. It wakes one of the threads
asleep on the condition variable, if there are any. -/
def signal (w : QueueWorld ι) (c : Cond) : Option ι → Option (ι → Bool)
  | some t => if w.sleepsOn c t then some (Function.update w.asleep t false) else none
  | none => if ∀ t, w.sleepsOn c t = false then some w.asleep else none

variable (A : Arch)

/-- `savvy_queue_push`, from taking the lock to giving it up. -/
def push (w : QueueWorld ι) (t : ι) (item : List UInt8) (woken : Option ι) :
    Option (QueueWorld ι) :=
  match w.q.push A item with
  | .wait => some (w.wait t (.push item))
  | .closed => some (w.answer t w.q (.push item true .closed) w.asleep)
  | .pushed q => (w.signal .notEmpty woken).map (w.answer t q (.push item true .accepted))

def tryPush (w : QueueWorld ι) (t : ι) (item : List UInt8) (woken : Option ι) :
    Option (QueueWorld ι) :=
  match w.q.tryPush A item with
  | (.ok, q) => (w.signal .notEmpty woken).map (w.answer t q (.push item false .accepted))
  | (.overflow, q) => some (w.answer t q (.push item false .full) w.asleep)
  | (_, q) => some (w.answer t q (.push item false .closed) w.asleep)

/-- `savvy_queue_pop`, from taking the lock to giving it up. -/
def pop (w : QueueWorld ι) (t : ι) (woken : Option ι) : Option (QueueWorld ι) :=
  match w.q.pop A with
  | .wait => some (w.wait t .pop)
  | .closed => some (w.answer t w.q (.pop none) w.asleep)
  | .item bytes q => (w.signal .notFull woken).map (w.answer t q (.pop (some bytes)))

/-- One step. A caller passes a block of `item_size` bytes, and the queue is
destroyed when no call is inside it. -/
def step (w : QueueWorld ι) : QueueAct ι → Option (QueueWorld ι)
  | .push t item woken =>
      if w.ready t = true ∧ item.length = w.q.itemSize then w.push A t item woken else none
  | .tryPush t item woken =>
      if w.ready t = true ∧ item.length = w.q.itemSize then w.tryPush A t item woken else none
  | .pop t woken => if w.ready t then w.pop A t woken else none
  | .resume t woken =>
      if w.asleep t = true ∨ w.destroyed = true then none
      else
        match w.calls t with
        | none => none
        | some (.push item) => w.push A t item woken
        | some .pop => w.pop A t woken
  | .wake t =>
      if w.asleep t then some { w with asleep := Function.update w.asleep t false } else none
  | .close t =>
      if w.ready t then some (w.answer t w.q.close .close fun _ => false) else none
  | .cancel t =>
      if w.ready t then
        some (w.answer t (w.q.cancel A).2 (.cancel (w.q.cancel A).1) fun _ => false)
      else none
  | .destroy =>
      if w.destroyed = false ∧ ∀ t, (w.calls t).isNone = true then
        some { w with destroyed := true, trace := w.trace ++ [.destroy (w.q.handed A)] }
      else none

end QueueWorld

def queueSystem (A : Arch) (ι : Type*) [DecidableEq ι] [Fintype ι] (q : ByteQueue) :
    System (QueueWorld ι) (QueueAct ι) :=
  ⟨⟨q, fun _ => none, fun _ => false, false, []⟩, QueueWorld.step A⟩

namespace QueueWorld

variable {ι : Type*} {A : Arch} {q₀ q : ByteQueue} {w w' : QueueWorld ι}
  {xs ys : List (List UInt8)}

/-- The bounded queue that the threads see. -/
def fifo (w : QueueWorld ι) (xs : List (List UInt8)) : Fifo (List UInt8) :=
  if w.destroyed then ⟨[], true⟩ else ⟨xs, w.q.closed⟩

/-- What holds at every step: the queue is the one that was initialised, it holds
the items of the bounded queue that answers as the trace says, a blocked push has
an item of the right size, and nobody sleeps at a closed queue. -/
structure Sound (A : Arch) (q₀ : ByteQueue) (w : QueueWorld ι) (xs : List (List UInt8)) :
    Prop where
  capacity_eq : w.q.capacity = q₀.capacity
  itemSize_eq : w.q.itemSize = q₀.itemSize
  itemDestroy_eq : w.q.itemDestroy = q₀.itemDestroy
  stores : ByteQueue.Stores A w.q xs
  run : Fifo.Run q₀.capacity q₀.itemDestroy Fifo.empty w.trace (w.fifo xs)
  items : ∀ t item, w.calls t = some (.push item) → item.length = w.q.itemSize
  awake : w.q.closed = true → ∀ t, w.asleep t = false

theorem Sound.fifo_eq (hlive : w.destroyed = false) : w.fifo xs = ⟨xs, w.q.closed⟩ :=
  if_neg (by rw [hlive]; exact Bool.false_ne_true)

theorem Sound.cancelled (h : Sound A q₀ w xs) :
    w.q.handed A = if q₀.itemDestroy then xs else [] := by
  rw [h.stores.handed_eq, h.itemDestroy_eq]

/-- The items of the bounded queue are those left by the trace. -/
theorem Sound.fifo_left (h : Sound A q₀ w xs) :
    w.fifo xs = ⟨Fifo.left w.trace, w.destroyed || w.q.closed⟩ := by
  have hitems := h.run.items_eq
  rw [← hitems, fifo]
  cases w.destroyed <;> rfl

theorem Sound.left_eq (h : Sound A q₀ w xs) (hlive : w.destroyed = false) :
    Fifo.left w.trace = xs := by
  rw [← h.run.items_eq, Sound.fifo_eq hlive]

theorem ready_live {t : ι} (h : w.ready t = true) : w.destroyed = false := by
  rw [ready, Bool.and_eq_true, Bool.not_eq_true'] at h
  exact h.1

variable [DecidableEq ι]

/-- A call that returns, where the bounded queue returns it too. -/
theorem Sound.answer {t : ι} {e : Fifo.Event (List UInt8)} {asleep : ι → Bool}
    (h : Sound A q₀ w xs) (hlive : w.destroyed = false) (hstores : ByteQueue.Stores A q ys)
    (hsame : q.capacity = w.q.capacity ∧ q.itemSize = w.q.itemSize ∧
      q.itemDestroy = w.q.itemDestroy)
    (hstep : Fifo.Step q₀.capacity q₀.itemDestroy ⟨xs, w.q.closed⟩ e ⟨ys, q.closed⟩)
    (hawake : q.closed = true → ∀ t, asleep t = false) :
    Sound A q₀ (w.answer t q e asleep) ys := by
  obtain ⟨hcapacity, hitemSize, hdestroy⟩ := hsame
  refine ⟨hcapacity.trans h.capacity_eq, hitemSize.trans h.itemSize_eq,
    hdestroy.trans h.itemDestroy_eq, hstores, ?_, fun u item hu => ?_, hawake⟩
  · have hrun := h.run
    rw [Sound.fifo_eq hlive] at hrun
    have hfifo : (w.answer t q e asleep).fifo ys = ⟨ys, q.closed⟩ := Sound.fifo_eq hlive
    rw [hfifo]
    exact hrun.concat hstep
  · change Function.update w.calls t none u = _ at hu
    change item.length = q.itemSize
    rw [hitemSize]
    rcases eq_or_ne u t with rfl | hne
    · rw [Function.update_self] at hu
      cases hu
    · rw [Function.update_of_ne hne] at hu
      exact h.items u item hu

theorem Sound.wait {t : ι} {call : Blocked} (h : Sound A q₀ w xs) (hopen : w.q.closed = false)
    (hitem : ∀ item, call = .push item → item.length = w.q.itemSize) :
    Sound A q₀ (w.wait t call) xs := by
  refine ⟨h.capacity_eq, h.itemSize_eq, h.itemDestroy_eq, h.stores, h.run, fun u item hu => ?_,
    fun hclosed => ?_⟩
  · change Function.update w.calls t (some call) u = _ at hu
    rcases eq_or_ne u t with rfl | hne
    · rw [Function.update_self] at hu
      exact hitem item (Option.some.inj hu)
    · rw [Function.update_of_ne hne] at hu
      exact h.items u item hu
  · exact absurd (hopen.symm.trans hclosed) Bool.false_ne_true

theorem Sound.refuse {t : ι} {item : List UInt8} (waits : Bool) (h : Sound A q₀ w xs)
    (hlive : w.destroyed = false) (hclosed : w.q.closed = true) :
    Sound A q₀ (w.answer t w.q (.push item waits .closed) w.asleep) xs := by
  refine h.answer hlive h.stores ⟨rfl, rfl, rfl⟩ ?_ h.awake
  rw [hclosed]
  exact .refused item waits

theorem update_asleep {asleep : ι → Bool} (t : ι) (h : ∀ u, asleep u = false) (u : ι) :
    Function.update asleep t false u = false := by
  rcases eq_or_ne u t with rfl | hne
  · exact Function.update_self ..
  · rw [Function.update_of_ne hne]
    exact h u

variable [Fintype ι]

theorem signal_awake {c : Cond} {woken : Option ι} {asleep : ι → Bool}
    (h : w.signal c woken = some asleep) (hawake : ∀ t, w.asleep t = false) :
    ∀ t, asleep t = false := by
  cases woken with
  | some u =>
      obtain ⟨-, hsome⟩ := Option.ite_none_right_eq_some.mp h
      obtain rfl := Option.some.inj hsome
      exact update_asleep u hawake
  | none =>
      obtain ⟨-, hsome⟩ := Option.ite_none_right_eq_some.mp h
      obtain rfl := Option.some.inj hsome
      exact hawake

theorem Sound.accept {t : ι} {item : List UInt8} {woken : Option ι} {asleep : ι → Bool}
    (waits : Bool) (h : Sound A q₀ w xs) (hlive : w.destroyed = false)
    (hitem : item.length = w.q.itemSize) (hopen : w.q.closed = false)
    (hroom : w.q.count ≠ w.q.capacity) (hsignal : w.signal .notEmpty woken = some asleep) :
    Sound A q₀ (w.answer t (w.q.enqueue A item) (.push item waits .accepted) asleep)
      (xs ++ [item]) := by
  refine h.answer hlive (h.stores.enqueue hitem hroom) ⟨rfl, rfl, rfl⟩ ?_
    fun hclosed => signal_awake hsignal (h.awake hclosed)
  have hcount := h.stores.count_eq
  have hle := h.stores.count_le
  change Fifo.Step _ _ ⟨xs, w.q.closed⟩ _ ⟨xs ++ [item], w.q.closed⟩
  rw [hopen]
  refine .accepted item waits ?_
  rw [← h.capacity_eq]
  omega

theorem Sound.push {t : ι} {item : List UInt8} {woken : Option ι} (h : Sound A q₀ w xs)
    (hlive : w.destroyed = false) (hitem : item.length = w.q.itemSize)
    (hs : w.push A t item woken = some w') : ∃ ys, Sound A q₀ w' ys := by
  unfold QueueWorld.push ByteQueue.push at hs
  by_cases hfull : w.q.count = w.q.capacity ∧ w.q.closed = false
  · rw [if_pos hfull] at hs
    obtain rfl := Option.some.inj hs
    refine ⟨xs, h.wait hfull.2 fun item' hpush => ?_⟩
    cases hpush
    exact hitem
  rw [if_neg hfull] at hs
  cases hclosed : w.q.closed with
  | true =>
      rw [hclosed, if_pos rfl] at hs
      obtain rfl := Option.some.inj hs
      exact ⟨xs, h.refuse true hlive hclosed⟩
  | false =>
      rw [hclosed, if_neg Bool.false_ne_true] at hs
      obtain ⟨asleep, hsignal, rfl⟩ := Option.map_eq_some_iff.mp hs
      exact ⟨_, h.accept true hlive hitem hclosed (fun heq => hfull ⟨heq, hclosed⟩) hsignal⟩

theorem Sound.tryPush {t : ι} {item : List UInt8} {woken : Option ι} (h : Sound A q₀ w xs)
    (hlive : w.destroyed = false) (hitem : item.length = w.q.itemSize)
    (hs : w.tryPush A t item woken = some w') : ∃ ys, Sound A q₀ w' ys := by
  unfold QueueWorld.tryPush ByteQueue.tryPush at hs
  cases hclosed : w.q.closed with
  | true =>
      rw [hclosed, if_pos rfl] at hs
      obtain rfl := Option.some.inj hs
      exact ⟨xs, h.refuse false hlive hclosed⟩
  | false =>
      rw [hclosed, if_neg Bool.false_ne_true] at hs
      by_cases hfull : w.q.count = w.q.capacity
      · rw [if_pos hfull] at hs
        obtain rfl := Option.some.inj hs
        refine ⟨xs, h.answer hlive h.stores ⟨rfl, rfl, rfl⟩ ?_ h.awake⟩
        have hcount := h.stores.count_eq
        have hcapacity := h.capacity_eq
        rw [hclosed]
        exact .full item (by omega)
      · rw [if_neg hfull] at hs
        obtain ⟨asleep, hsignal, rfl⟩ := Option.map_eq_some_iff.mp hs
        exact ⟨_, h.accept false hlive hitem hclosed hfull hsignal⟩

theorem Sound.pop {t : ι} {woken : Option ι} (h : Sound A q₀ w xs) (hlive : w.destroyed = false)
    (hs : w.pop A t woken = some w') : ∃ ys, Sound A q₀ w' ys := by
  have hcount := h.stores.count_eq
  unfold QueueWorld.pop ByteQueue.pop at hs
  cases xs with
  | nil =>
      have hzero : w.q.count = 0 := hcount
      cases hclosed : w.q.closed with
      | false =>
          rw [if_pos ⟨hzero, hclosed⟩] at hs
          obtain rfl := Option.some.inj hs
          refine ⟨[], h.wait hclosed fun item hpush => ?_⟩
          cases hpush
      | true =>
          rw [if_neg (by simp [hclosed]), if_pos ⟨hzero, hclosed⟩] at hs
          obtain rfl := Option.some.inj hs
          refine ⟨[], h.answer hlive h.stores ⟨rfl, rfl, rfl⟩ ?_ h.awake⟩
          rw [hclosed]
          exact .drained
  | cons x xs =>
      have hne : w.q.count ≠ 0 := by
        rw [hcount]
        exact Nat.succ_ne_zero _
      obtain ⟨hbytes, hrest⟩ := h.stores.dequeue
      rw [if_neg (fun hc => hne hc.1), if_neg (fun hc => hne hc.1), hbytes] at hs
      obtain ⟨asleep, hsignal, rfl⟩ := Option.map_eq_some_iff.mp hs
      refine ⟨xs, h.answer hlive hrest ⟨rfl, rfl, rfl⟩ .popped ?_⟩
      exact fun hc => signal_awake hsignal (h.awake hc)

theorem Sound.step {a : QueueAct ι} (h : Sound A q₀ w xs) (hs : w.step A a = some w') :
    ∃ ys, Sound A q₀ w' ys := by
  cases a with
  | push t item woken =>
      obtain ⟨⟨hready, hitem⟩, hsection⟩ := Option.ite_none_right_eq_some.mp hs
      exact h.push (ready_live hready) hitem hsection
  | tryPush t item woken =>
      obtain ⟨⟨hready, hitem⟩, hsection⟩ := Option.ite_none_right_eq_some.mp hs
      exact h.tryPush (ready_live hready) hitem hsection
  | pop t woken =>
      obtain ⟨hready, hsection⟩ := Option.ite_none_right_eq_some.mp hs
      exact h.pop (ready_live hready) hsection
  | resume t woken =>
      obtain ⟨hrunning, hsection⟩ := Option.ite_none_left_eq_some.mp hs
      have hlive : w.destroyed = false := Bool.not_eq_true _ ▸ fun hd => hrunning (.inr hd)
      split at hsection
      · cases hsection
      · next item hcall => exact h.push hlive (h.items t item hcall) hsection
      · exact h.pop hlive hsection
  | wake t =>
      obtain ⟨-, hsome⟩ := Option.ite_none_right_eq_some.mp hs
      obtain rfl := Option.some.inj hsome
      exact ⟨xs, h.capacity_eq, h.itemSize_eq, h.itemDestroy_eq, h.stores, h.run, h.items,
        fun hclosed => update_asleep t (h.awake hclosed)⟩
  | close t =>
      obtain ⟨hready, hsome⟩ := Option.ite_none_right_eq_some.mp hs
      obtain rfl := Option.some.inj hsome
      exact ⟨xs, h.answer (ready_live hready) h.stores.close ⟨rfl, rfl, rfl⟩ .close
        fun _ _ => rfl⟩
  | cancel t =>
      obtain ⟨hready, hsome⟩ := Option.ite_none_right_eq_some.mp hs
      obtain rfl := Option.some.inj hsome
      refine ⟨[], h.answer (ready_live hready) h.stores.cancel ⟨rfl, rfl, rfl⟩ ?_ fun _ _ => rfl⟩
      have hhanded : (w.q.cancel A).1 = if q₀.itemDestroy then xs else [] := h.cancelled
      rw [hhanded]
      exact .cancel
  | destroy =>
      obtain ⟨⟨hlive, -⟩, hsome⟩ := Option.ite_none_right_eq_some.mp hs
      obtain rfl := Option.some.inj hsome
      refine ⟨xs, h.capacity_eq, h.itemSize_eq, h.itemDestroy_eq, h.stores, ?_, h.items, h.awake⟩
      have hrun := h.run
      rw [Sound.fifo_eq hlive] at hrun
      refine hrun.concat ?_
      rw [h.cancelled]
      exact .destroy

theorem signal_none {c : Cond} (hawake : ∀ t, w.asleep t = false) :
    w.signal c none = some w.asleep := by
  refine if_pos fun t => ?_
  rw [sleepsOn, hawake t, Bool.false_and]

/-- At a closed queue a push that has the lock returns. -/
theorem push_returns (t : ι) (item : List UInt8) (hclosed : w.q.closed = true) :
    ∃ w', w.push A t item none = some w' ∧ w'.calls t = none := by
  have hpush : w.q.push A item = .closed := by
    rw [ByteQueue.push, if_neg (by simp [hclosed]), if_pos hclosed]
  refine ⟨w.answer t w.q (.push item true .closed) w.asleep, ?_, Function.update_self ..⟩
  rw [QueueWorld.push, hpush]

/-- At a closed queue a pop that has the lock returns. -/
theorem pop_returns (t : ι) (hclosed : w.q.closed = true) (hawake : ∀ t, w.asleep t = false) :
    ∃ w', w.pop A t none = some w' ∧ w'.calls t = none := by
  rw [QueueWorld.pop, ByteQueue.pop, if_neg (by simp [hclosed])]
  split
  · next hwait =>
      split at hwait <;> cases hwait
  · exact ⟨_, rfl, Function.update_self ..⟩
  · rw [signal_none hawake]
    exact ⟨_, rfl, Function.update_self ..⟩

/-- What a queue is for its callers. -/
structure Contract (A : Arch) (capacity itemSize : ℕ) (itemDestroy : Bool) (w : QueueWorld ι) :
    Prop where
  /-- The ring keeps its bounds. -/
  capacity_eq : w.q.capacity = capacity ∧ w.q.itemSize = itemSize
  head_lt : w.q.head < capacity
  count_le : w.q.count ≤ capacity
  /-- No sum and no offset wraps, and every slot lies in the block. -/
  sum_lt : w.q.head + w.q.count < A.sizeBound
  offset_lt : ∀ idx < capacity, w.q.offset A idx = idx * itemSize ∧
    idx * itemSize + itemSize ≤ w.q.storage.length ∧ w.q.storage.length < A.sizeBound
  /-- The calls that returned are a run of a bounded queue, and the ring holds what
  that queue does. -/
  refines : Fifo.Run capacity itemDestroy Fifo.empty w.trace
    ⟨Fifo.left w.trace, w.destroyed || w.q.closed⟩
  left_eq : w.destroyed = false → w.q.count = (Fifo.left w.trace).length ∧
    ∀ (i : ℕ) (x : List UInt8), (Fifo.left w.trace)[i]? = some x →
      w.q.bytesAt A (w.q.index A i) = x
  left_nil : w.destroyed = true → Fifo.left w.trace = []
  /-- The `i`-th item popped is the `i`-th one accepted. -/
  in_order : ∀ (i : ℕ) (x : List UInt8), (Fifo.popped w.trace)[i]? = some x →
    (Fifo.accepted w.trace)[i]? = some x
  /-- Every accepted item is popped once, discarded once, or left; and an item that
  is discarded is handed to `item_destroy_fn` if it is set. -/
  once : ∃ dropped, Fifo.accepted w.trace = Fifo.popped w.trace ++ dropped ++ Fifo.left w.trace ∧
    Fifo.handed w.trace = if itemDestroy then dropped else []
  /-- `savvy_queue_try_push` fails on a full queue, and a failure changes nothing. -/
  overflow_iff : ∀ item, (w.q.tryPush A item).1 = .overflow ↔
    w.q.count = capacity ∧ w.q.closed = false
  unchanged : ∀ item, (w.q.tryPush A item).1 ≠ .ok → (w.q.tryPush A item).2 = w.q
  /-- Behind a close the pops return what is left, in order, and then that the queue
  is closed. -/
  after_close : ∀ pre post, w.trace = pre ++ .close :: post →
    (∀ e ∈ post, e.discards = false) →
    (∀ (i : ℕ) (result : Option (List UInt8)), (Fifo.pops post)[i]? = some result →
      result = (Fifo.left pre)[i]?) ∧ Fifo.accepted post = []
  /-- Behind a cancel every push and every pop is refused. -/
  after_cancel : ∀ pre handed post, w.trace = pre ++ .cancel handed :: post →
    ∀ e ∈ post, e.Refused
  /-- Once the queue is closed no call is stuck: those that wait are awake and return
  when they take the lock, and new ones do not wait. -/
  returns : w.q.closed = true → w.destroyed = false → ∀ t : ι,
    (∀ call, w.calls t = some call →
      ∃ w', w.step A (.resume t none) = some w' ∧ w'.calls t = none) ∧
    (w.calls t = none →
      (∀ item : List UInt8, item.length = itemSize →
        ∃ w', w.step A (.push t item none) = some w' ∧ w'.calls t = none) ∧
      ∃ w', w.step A (.pop t none) = some w' ∧ w'.calls t = none)

theorem Sound.returns (h : Sound A q₀ w xs) (hclosed : w.q.closed = true)
    (hlive : w.destroyed = false) (t : ι) :
    (∀ call, w.calls t = some call →
      ∃ w', w.step A (.resume t none) = some w' ∧ w'.calls t = none) ∧
    (w.calls t = none →
      (∀ item : List UInt8, item.length = w.q.itemSize →
        ∃ w', w.step A (.push t item none) = some w' ∧ w'.calls t = none) ∧
      ∃ w', w.step A (.pop t none) = some w' ∧ w'.calls t = none) := by
  have hawake := h.awake hclosed
  refine ⟨fun call hcall => ?_, fun hcall => ?_⟩
  · rw [QueueWorld.step, if_neg (by simp [hawake, hlive]), hcall]
    cases call with
    | push item => exact push_returns t item hclosed
    | pop => exact pop_returns t hclosed hawake
  · have hready : w.ready t = true := by
      rw [ready, hlive, hcall]
      rfl
    refine ⟨fun item hitem => ?_, ?_⟩
    · rw [QueueWorld.step, if_pos ⟨hready, hitem⟩]
      exact push_returns t item hclosed
    · rw [QueueWorld.step, if_pos hready]
      exact pop_returns t hclosed hawake

theorem Sound.contract (h : Sound A q₀ w xs) :
    Contract A q₀.capacity q₀.itemSize q₀.itemDestroy w where
  capacity_eq := ⟨h.capacity_eq, h.itemSize_eq⟩
  head_lt := h.capacity_eq ▸ h.stores.head_lt
  count_le := h.capacity_eq ▸ h.stores.count_le
  sum_lt := by
    have hhead := h.stores.head_lt
    have hcount := h.stores.count_le
    have hmax := h.stores.le_max
    have hbound := A.two_mul_ptrdiffMax_lt
    have hle : w.q.capacity ≤ w.q.capacity * w.q.itemSize :=
      Nat.le_mul_of_pos_right _ h.stores.itemSize_pos
    omega
  offset_lt := by
    intro idx hidx
    obtain ⟨hoff, hend⟩ := h.stores.offset_eq (h.capacity_eq.symm ▸ hidx)
    have hlength := h.stores.length_eq
    have hmax := h.stores.le_max
    have hbound := A.two_mul_ptrdiffMax_lt
    rw [h.itemSize_eq] at hoff hend
    exact ⟨hoff, hend, by omega⟩
  refines := h.fifo_left ▸ h.run
  left_eq := by
    intro hlive
    rw [h.left_eq hlive]
    exact ⟨h.stores.count_eq, fun i x hi => h.stores.bytesAt_index hi⟩
  left_nil := by
    intro hdestroyed
    rw [← h.run.items_eq, fifo, hdestroyed]
    rfl
  in_order := fun _ _ hi => h.run.popped_getElem? hi
  once := h.run.accounts
  overflow_iff := fun _ => h.capacity_eq ▸ ByteQueue.tryPush_overflow_iff A
  unchanged := fun _ herror => ByteQueue.tryPush_unchanged A herror
  after_close := by
    intro pre post htrace hkeep
    have hrun := h.run
    rw [htrace] at hrun
    exact hrun.after_close hkeep
  after_cancel := by
    intro pre handed post htrace
    have hrun := h.run
    rw [htrace] at hrun
    exact hrun.after_cancel
  returns := fun hclosed hlive t => h.itemSize_eq ▸ h.returns hclosed hlive t

end QueueWorld

open QueueWorld

variable {ι : Type*} [DecidableEq ι] [Fintype ι] {A : Arch}

theorem sound_of_reach {q : ByteQueue} {w : QueueWorld ι} (hstores : ByteQueue.Stores A q [])
    (hopen : q.closed = false) (h : (queueSystem A ι q).Reach w) : ∃ xs, Sound A q w xs := by
  have hnew : Sound A q (queueSystem A ι q).init [] := by
    refine ⟨rfl, rfl, rfl, hstores, ?_, fun t item hcall => ?_, fun _ _ => rfl⟩
    · rw [Sound.fifo_eq rfl]
      change Fifo.Run _ _ _ [] ⟨[], q.closed⟩
      rw [hopen]
      exact .nil _
    · cases hcall
  exact System.Reach.invariant (I := fun w => ∃ xs, Sound A q w xs) ⟨[], hnew⟩
    (fun w a w' ⟨xs, hw⟩ hs => hw.step hs) h

/-- A queue that `savvy_queue_init` made keeps its contract whatever the threads
call and however they are scheduled. -/
theorem queue_contract {capacity itemSize : ℕ} {itemDestroy lock notEmpty notFull : Bool}
    {malloc : Option (Block A (A.mul capacity itemSize))} {q : ByteQueue}
    (hinit : ByteQueue.init A capacity itemSize itemDestroy malloc lock notEmpty notFull = .ok q)
    {w : QueueWorld ι} (h : (queueSystem A ι q).Reach w) :
    Contract A capacity itemSize itemDestroy w := by
  have hstores : ByteQueue.Stores A q [] := ByteQueue.stores_init hinit
  obtain ⟨-, -, -, block, rfl⟩ := ByteQueue.init_ok hinit
  obtain ⟨xs, hsound⟩ := sound_of_reach hstores rfl h
  exact hsound.contract

def oneByte : Block .lp64 (Arch.lp64.mul 1 1) := ⟨[0], by decide, by decide⟩

def tinyQueue (itemDestroy : Bool) : ByteQueue := ⟨[0], 1, 1, 0, 0, false, itemDestroy⟩

/-- The second thread waits for room and gets it, and the first one closes the queue,
which is then drained and destroyed. -/
def tinyActs : List (QueueAct Bool) :=
  [.tryPush false [1] none, .push true [2] none, .tryPush false [3] none,
    .pop false (some true), .resume true none, .close false, .push false [4] none,
    .pop true none, .pop false none, .destroy]

theorem queue_contract_tiny :
    ByteQueue.init .lp64 1 1 true (some oneByte) true true true = .ok (tinyQueue true) ∧
    ∃ w, (queueSystem .lp64 Bool (tinyQueue true)).run
        (queueSystem .lp64 Bool (tinyQueue true)).init tinyActs = some w ∧
      w.trace = [.push [1] false .accepted, .push [3] false .full, .pop (some [1]),
        .push [2] true .accepted, .close, .push [4] true .closed, .pop (some [2]), .pop none,
        .destroy []] ∧
      Contract .lp64 1 1 true w := by
  have hinit : ByteQueue.init .lp64 1 1 true (some oneByte) true true true =
    .ok (tinyQueue true) := rfl
  obtain ⟨w, hrun, htrace⟩ := Option.map_eq_some_iff.mp
    (show ((queueSystem .lp64 Bool (tinyQueue true)).run
        (queueSystem .lp64 Bool (tinyQueue true)).init tinyActs).map (·.trace) =
        some [.push [1] false .accepted, .push [3] false .full, .pop (some [1]),
          .push [2] true .accepted, .close, .push [4] true .closed, .pop (some [2]), .pop none,
          .destroy []] by
      decide +kernel)
  exact ⟨hinit, w, hrun, htrace, queue_contract hinit (System.reach_of_run .init hrun)⟩

/-- Without an `item_destroy_fn` an accepted item is discarded by a cancel and handed
to nobody. -/
theorem queue_discards_silently :
    ByteQueue.init .lp64 1 1 false (some oneByte) true true true = .ok (tinyQueue false) ∧
    ∃ w, (queueSystem .lp64 Bool (tinyQueue false)).Reach w ∧
      Fifo.accepted w.trace = [[7]] ∧ Fifo.popped w.trace = [] ∧ Fifo.handed w.trace = [] ∧
      Fifo.left w.trace = [] := by
  refine ⟨rfl, ?_⟩
  obtain ⟨w, hrun, htrace⟩ := Option.map_eq_some_iff.mp
    (show ((queueSystem .lp64 Bool (tinyQueue false)).run
        (queueSystem .lp64 Bool (tinyQueue false)).init
        [.tryPush false [7] none, .cancel false]).map (·.trace) =
        some [.push [7] false .accepted, .cancel []] by
      decide +kernel)
  refine ⟨w, System.reach_of_run .init hrun, ?_⟩
  rw [htrace]
  decide

end Savvy
