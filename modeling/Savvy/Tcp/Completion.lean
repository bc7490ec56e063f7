import Mathlib.Data.List.Nodup
import Savvy.Tcp.Requests

/-!
Every accepted request is completed exactly once, or was still queued when the
queue was cancelled; every packet copy is freed exactly once. `Moves` says once
what a step can do, and the two invariants are derived from it: `Flow` follows
the accepted requests through the queue and the worker, `Ledger` follows the
packet copies and their owners.
-/

namespace Savvy.Tcp

open Kit

variable {ι : Type*} [DecidableEq ι] {cfg : ChannelConfig}

/-! ### What a step can do -/

namespace SubmitPc

/-- The request of a call that has not made its copy yet. -/
def fresh : SubmitPc → Option ℕ
  | .entered r _ | .checking r _ | .copying r _ _ => some r
  | _ => none

/-- The request of a call that owns its copy. -/
def holding : SubmitPc → Option ℕ
  | .pushing item | .rejecting item _ => some item.request
  | _ => none

def answer : SubmitPc → Option (ℕ × Status)
  | .returning r status => some (r, status)
  | _ => none

def request (pc : SubmitPc) : Option ℕ :=
  pc.fresh.or (pc.holding.or (pc.answer.map (·.1)))

end SubmitPc

namespace WorkerPc

def current : WorkerPc → List ℕ
  | .processing item => [item.request]
  | _ => []

/-- The request whose copy is about to be freed. -/
def unfreed : WorkerPc → List ℕ
  | .freeing item => [item.request]
  | _ => []

def leaving : WorkerPc → Bool
  | .closing | .exited => true
  | _ => false

end WorkerPc

def Requests.queued (cfg : ChannelConfig) (s : Requests ι) : List ℕ :=
  (s.queue.contents cfg.arch).map (·.request)

inductive Moves (cfg : ChannelConfig) (s : Requests ι) : Requests ι → Prop
  | call {i : ι} {args : SubmitArgs} (h : s.submit i = .idle) (hstop : s.stop ≠ .destroyed) :
      Moves cfg s ({ s with nextRequest := s.nextRequest + 1 }.goto i
        (.entered s.nextRequest args))
  | advance {i : ι} {r : ℕ} {pc : SubmitPc} (h : (s.submit i).fresh = some r)
      (hpc : pc.fresh = some r) : Moves cfg s (s.goto i pc)
  | refuse {i : ι} {r : ℕ} {status : Status} (h : (s.submit i).fresh = some r)
      (hst : status ≠ .ok) : Moves cfg s (s.goto i (.returning r status))
  | copied {i : ι} {item : QueueItem} (h : (s.submit i).fresh = some item.request) :
      Moves cfg s ({ s with copies := s.copies ++ [item.request] }.goto i (.pushing item))
  | pushed {i : ι} {item : QueueItem} {q : Queue QueueItem} (h : s.submit i = .pushing item)
      (hopen : s.queue.closed = false) (hopen' : q.closed = false)
      (hq : q.Holds cfg.arch (s.queue.contents cfg.arch ++ [item])) :
      Moves cfg s ({ s with queue := q, accepted := s.accepted ++ [item.request] }.goto i
        (.returning item.request .ok))
  | turned {i : ι} {item : QueueItem} {status : Status} (h : s.submit i = .pushing item)
      (hst : status ≠ .ok) : Moves cfg s (s.goto i (.rejecting item status))
  | rejected {i : ι} {item : QueueItem} {status : Status}
      (h : s.submit i = .rejecting item status) :
      Moves cfg s ({ s with freed := s.freed ++ [item.request] }.goto i
        (.returning item.request status))
  | returned {i : ι} {r : ℕ} {status : Status} (h : s.submit i = .returning r status) :
      Moves cfg s ({ s with results := s.results ++ [(r, status)] }.goto i .idle)
  | popClosed (h : s.worker = .popping) (hclosed : s.queue.closed = true) :
      Moves cfg s { s with worker := .closing }
  | popped {item : QueueItem} {items : List QueueItem} {q : Queue QueueItem}
      (h : s.worker = .popping) (hitems : s.queue.contents cfg.arch = item :: items)
      (hq : q.Holds cfg.arch items) (hclosed : q.closed = s.queue.closed) :
      Moves cfg s { s with queue := q, worker := .processing item }
  | processed {item : QueueItem} {ch : Channel} (h : s.worker = .processing item) :
      Moves cfg s { s with
        channel := ch, worker := .freeing item, completed := s.completed ++ [item.request] }
  | freed {item : QueueItem} (h : s.worker = .freeing item) :
      Moves cfg s { s with worker := .popping, freed := s.freed ++ [item.request] }
  | exited {ch : Channel} (h : s.worker = .closing) :
      Moves cfg s { s with worker := .exited, channel := ch }
  | stopping {transitioned : Bool} (h : s.stop = .idle)
      (htrans : transitioned = (s.lifecycle == .running)) :
      Moves cfg s { s with
        lifecycle := .stopped, stop := if transitioned then .flag else .returned }
  | flagged (h : s.stop = .flag) : Moves cfg s { s with stopRequested := true, stop := .cancel }
  | cancelled {q : Queue QueueItem} (h : s.stop = .cancel) (hq : q.Holds cfg.arch [])
      (hclosed : q.closed = true) :
      Moves cfg s { s with
        queue := q, stop := .join, cancelled := s.cancelled ++ s.queued cfg
        freed := s.freed ++ s.queued cfg }
  | joined (h : s.stop = .join) (hexit : s.worker = .exited) :
      Moves cfg s { s with stop := .returned }
  | destroyed (h : s.stop = .returned) :
      Moves cfg s { s with
        stop := .destroyed, cancelled := s.cancelled ++ s.queued cfg
        freed := s.freed ++ s.queued cfg }

theorem destroyed_map_some (items : List QueueItem) :
    Requests.destroyed (items.map some) = items.map (·.request) := by
  rw [Requests.destroyed, List.filterMap_map]
  exact congrFun List.filterMap_eq_map items

theorem moves_of_submitStep {s s' : Requests ι} {a : Act ι} (hstop : s.stop ≠ .destroyed)
    (hq : s.queue.Holds cfg.arch (s.queue.contents cfg.arch))
    (h : s.submitStep cfg a = some s') : Moves cfg s s' := by
  cases a with
  | call i args =>
      simp only [Requests.submitStep] at h
      split at h
      · next hpc =>
          obtain rfl := Option.some.inj h
          exact .call hpc hstop
      · cases h
  | enter i seen =>
      simp only [Requests.submitStep] at h
      split at h
      · next r args hpc =>
          obtain rfl := Option.some.inj h
          have hfresh : (s.submit i).fresh = some r := by rw [hpc]; rfl
          unfold Requests.enterStep
          repeat' split
          all_goals first
            | exact .advance hfresh rfl
            | exact .refuse hfresh (by simp)
      · cases h
  | check i =>
      simp only [Requests.submitStep] at h
      split at h
      · next r args hpc =>
          obtain rfl := Option.some.inj h
          have hfresh : (s.submit i).fresh = some r := by rw [hpc]; rfl
          unfold Requests.checkStep
          repeat' split
          all_goals first
            | exact .advance hfresh rfl
            | exact .refuse hfresh (by simp)
      · cases h
  | copy i ok =>
      simp only [Requests.submitStep] at h
      split at h
      · next r args packet hpc =>
          have hfresh : (s.submit i).fresh = some r := by rw [hpc]; rfl
          split at h
          · obtain rfl := Option.some.inj h
            exact @Moves.copied _ _ cfg s i (Requests.makeItem r args packet) hfresh
          · obtain rfl := Option.some.inj h
            exact .refuse hfresh (by simp)
      · cases h
  | tryPush i =>
      simp only [Requests.submitStep] at h
      split at h
      · next item hpc =>
          obtain ⟨-, hpush⟩ | ⟨-, -, hpush⟩ | ⟨hopen, q, hpush, hq', hopen'⟩ := hq.tryPush_spec item
          · rw [hpush] at h
            obtain rfl := Option.some.inj h
            exact .turned hpc (by simp)
          · rw [hpush] at h
            obtain rfl := Option.some.inj h
            exact .turned hpc (by simp)
          · rw [hpush] at h
            obtain rfl := Option.some.inj h
            exact .pushed hpc hopen hopen' hq'
      · cases h
  | reject i =>
      simp only [Requests.submitStep] at h
      split at h
      · next item status hpc =>
          obtain rfl := Option.some.inj h
          exact .rejected hpc
      · cases h
  | ret i =>
      simp only [Requests.submitStep] at h
      split at h
      · next r status hpc =>
          obtain rfl := Option.some.inj h
          exact .returned hpc
      · cases h
  | _ => cases h

theorem moves_of_workerStep {s s' : Requests ι} {a : Act ι}
    (hq : s.queue.Holds cfg.arch (s.queue.contents cfg.arch))
    (h : s.workerStep cfg a = some s') : Moves cfg s s' := by
  cases a with
  | pop =>
      simp only [Requests.workerStep] at h
      split at h
      · next hpc =>
          obtain ⟨-, -, hpop⟩ | ⟨-, hclosed, hpop⟩ | ⟨item, items, q, hitems, hpop, hq', hclosed⟩ :=
            hq.pop_spec
          · rw [hpop] at h
            cases h
          · rw [hpop] at h
            obtain rfl := Option.some.inj h
            exact .popClosed hpc hclosed
          · rw [hpop] at h
            obtain rfl := Option.some.inj h
            exact .popped hpc hitems hq' hclosed
      · cases h
  | process env =>
      simp only [Requests.workerStep] at h
      split at h
      · next item hpc =>
          obtain ⟨p, -, rfl⟩ := Option.map_eq_some_iff.mp h
          exact .processed hpc
      · cases h
  | free =>
      simp only [Requests.workerStep] at h
      split at h
      · next item hpc =>
          obtain rfl := Option.some.inj h
          exact .freed hpc
      · cases h
  | exit =>
      simp only [Requests.workerStep] at h
      split at h
      · next hpc =>
          obtain rfl := Option.some.inj h
          exact .exited hpc
      · cases h
  | _ => cases h

theorem moves_of_stopStep {s s' : Requests ι} {a : Act ι}
    (hq : s.queue.Holds cfg.arch (s.queue.contents cfg.arch))
    (h : s.stopStep cfg a = some s') : Moves cfg s s' := by
  have hqueued : Requests.destroyed (s.queue.buffered cfg.arch) = s.queued cfg := by
    rw [hq.buffered_eq, destroyed_map_some]
    rfl
  cases a with
  | stopLifecycle =>
      simp only [Requests.stopStep] at h
      split at h
      · next hpc =>
          obtain rfl := Option.some.inj h
          exact .stopping hpc rfl
      · cases h
  | stopFlag =>
      simp only [Requests.stopStep] at h
      split at h
      · next hpc =>
          obtain rfl := Option.some.inj h
          exact .flagged hpc
      · cases h
  | stopCancel =>
      simp only [Requests.stopStep] at h
      split at h
      · next hpc =>
          obtain ⟨-, hq', hclosed⟩ := hq.cancel
          obtain rfl := Option.some.inj h
          have hfirst : Requests.destroyed (s.queue.cancel cfg.arch).1 = s.queued cfg := hqueued
          rw [hfirst]
          exact .cancelled hpc hq' hclosed
      · cases h
  | stopJoin =>
      simp only [Requests.stopStep] at h
      split at h
      · next hpc hexit =>
          obtain rfl := Option.some.inj h
          exact .joined hpc hexit
      · cases h
  | destroy =>
      simp only [Requests.stopStep] at h
      split at h
      · next hpc =>
          obtain rfl := Option.some.inj h
          rw [hqueued]
          exact .destroyed hpc
      · cases h
  | _ => cases h

theorem moves_of_step {s s' : Requests ι} {a : Act ι}
    (hq : s.queue.Holds cfg.arch (s.queue.contents cfg.arch))
    (h : s.step cfg a = some s') : Moves cfg s s' := by
  cases a with
  | pop | process | free | exit =>
      simp only [Requests.step] at h
      exact moves_of_workerStep hq h
  | stopLifecycle | stopFlag | stopCancel | stopJoin | destroy =>
      simp only [Requests.step] at h
      exact moves_of_stopStep hq h
  | _ =>
      simp only [Requests.step] at h
      split at h
      · cases h
      · next hstop => exact moves_of_submitStep hstop hq h

/-! ### The way of an accepted request -/

/-- The stopping thread is past the cancel. -/
def StopPc.past : StopPc → Bool
  | .join | .returned | .destroyed => true
  | _ => false

/-- The accepted requests are, in order, the completed ones, the one being
processed, those dropped by a cancel and those in the queue; and once the queue
is closed it stays empty. -/
structure Flow (cfg : ChannelConfig) (s : Requests ι) : Prop where
  holds : s.queue.Holds cfg.arch (s.queue.contents cfg.arch)
  order : s.accepted = s.completed ++ s.worker.current ++ s.cancelled ++ s.queued cfg
  closed_iff : s.queue.closed = s.stop.past
  drained : s.queue.closed = true → s.queued cfg = []
  kept : s.queue.closed = false → s.cancelled = []
  leaving : s.worker.leaving = true → s.queue.closed = true
  running : s.stop = .idle → s.lifecycle = .running
  exited : s.stop = .returned ∨ s.stop = .destroyed → s.worker = .exited
  no_fault : s.worker ≠ .fault

theorem ChannelConfig.fits (cfg : ChannelConfig) : 2 * cfg.queueCapacity ≤ cfg.arch.sizeBound := by
  have hle := (Nat.le_div_iff_mul_le (by have := cfg.itemSize_ge; omega)).mp cfg.no_overflow
  have hmul := Nat.mul_le_mul_left cfg.queueCapacity cfg.itemSize_ge
  omega

omit [DecidableEq ι] in
theorem Flow.started : Flow cfg (.started cfg : Requests ι) := by
  have hholds : Queue.Holds cfg.arch (.init cfg.queueCapacity : Queue QueueItem) [] :=
    .init cfg.capacity_pos cfg.fits
  have hempty : Queue.contents cfg.arch (.init cfg.queueCapacity : Queue QueueItem) = [] :=
    hholds.contents_eq
  refine ⟨?_, ?_, rfl, fun h => ?_, fun _ => rfl, fun h => ?_, fun _ => rfl, ?_, ?_⟩
  · simpa [Requests.started, hempty] using hholds
  · simp [Requests.started, Requests.queued, hempty, WorkerPc.current]
  · cases h
  · cases h
  · rintro (h | h) <;> cases h
  · simp [Requests.started]

omit [DecidableEq ι] in
/-- A step that leaves the queue, the worker and the stopping thread alone. -/
theorem Flow.frame {s s' : Requests ι} (h : Flow cfg s) (hqueue : s'.queue = s.queue)
    (hworker : s'.worker = s.worker) (hstop : s'.stop = s.stop)
    (hlc : s'.lifecycle = s.lifecycle) (hacc : s'.accepted = s.accepted)
    (hcomp : s'.completed = s.completed) (hcan : s'.cancelled = s.cancelled) : Flow cfg s' := by
  have hqueued : s'.queued cfg = s.queued cfg := by rw [Requests.queued, hqueue]; rfl
  refine ⟨?_, ?_, ?_, ?_, ?_, ?_, ?_, ?_, ?_⟩
  · rw [hqueue]
    exact h.holds
  · rw [hacc, hcomp, hcan, hworker, hqueued]
    exact h.order
  · rw [hqueue, hstop]
    exact h.closed_iff
  · rw [hqueue, hqueued]
    exact h.drained
  · rw [hqueue, hcan]
    exact h.kept
  · rw [hworker, hqueue]
    exact h.leaving
  · rw [hstop, hlc]
    exact h.running
  · rw [hstop, hworker]
    exact h.exited
  · rw [hworker]
    exact h.no_fault

theorem Flow.moves {s s' : Requests ι} (h : Flow cfg s) (hm : Moves cfg s s') : Flow cfg s' := by
  have horder := h.order
  cases hm with
  | call _ _ => exact h.frame rfl rfl rfl rfl rfl rfl rfl
  | advance _ _ => exact h.frame rfl rfl rfl rfl rfl rfl rfl
  | refuse _ _ => exact h.frame rfl rfl rfl rfl rfl rfl rfl
  | copied _ => exact h.frame rfl rfl rfl rfl rfl rfl rfl
  | turned _ _ => exact h.frame rfl rfl rfl rfl rfl rfl rfl
  | rejected _ => exact h.frame rfl rfl rfl rfl rfl rfl rfl
  | returned _ => exact h.frame rfl rfl rfl rfl rfl rfl rfl
  | @pushed i item q _ hopen hopen' hq =>
      have hcontents := hq.contents_eq
      refine ⟨?_, ?_, ?_, ?_, ?_, ?_, h.running, h.exited, h.no_fault⟩
      · simpa [Requests.goto, hcontents] using hq
      · simp [Requests.goto, Requests.queued, hcontents, horder]
      · simpa [Requests.goto, hopen'] using hopen.symm.trans h.closed_iff
      · simp [Requests.goto, hopen']
      · simpa [Requests.goto] using fun _ => h.kept hopen
      · exact fun hl => absurd (h.leaving hl) (by simp [hopen])
  | popClosed hw hclosed =>
      have hlive := h.exited
      refine ⟨h.holds, ?_, h.closed_iff, h.drained, h.kept, fun _ => hclosed, h.running,
        fun hs => absurd (hlive hs) (by simp [hw]), by simp⟩
      simpa [hw, WorkerPc.current, Requests.queued] using horder
  | @popped item items q hw hitems hq hclosed =>
      have hcontents := hq.contents_eq
      have hqueued : s.queued cfg = item.request :: items.map (·.request) := by
        rw [Requests.queued, hitems]
        rfl
      -- Something was in the queue, so it is open and nothing was dropped.
      have hopen : s.queue.closed = false := by
        cases hc : s.queue.closed with
        | false => rfl
        | true => exact absurd (h.drained hc) (by simp [hqueued])
      have hkept := h.kept hopen
      have hlive := h.exited
      refine ⟨by simpa [hcontents] using hq, ?_, hclosed.trans h.closed_iff, ?_, fun _ => hkept,
        by simp [WorkerPc.leaving], h.running, fun hs => absurd (hlive hs) (by simp [hw]), by simp⟩
      · simp [Requests.queued, hcontents, horder, hw, hkept, WorkerPc.current, hitems]
      · simp [hclosed, hopen]
  | processed hw =>
      have hlive := h.exited
      refine ⟨h.holds, ?_, h.closed_iff, h.drained, h.kept, by simp [WorkerPc.leaving], h.running,
        fun hs => absurd (hlive hs) (by simp [hw]), by simp⟩
      simpa [hw, WorkerPc.current, Requests.queued] using horder
  | freed hw =>
      have hlive := h.exited
      refine ⟨h.holds, ?_, h.closed_iff, h.drained, h.kept, by simp [WorkerPc.leaving], h.running,
        fun hs => absurd (hlive hs) (by simp [hw]), by simp⟩
      simpa [hw, WorkerPc.current, Requests.queued] using horder
  | exited hw =>
      refine ⟨h.holds, ?_, h.closed_iff, h.drained, h.kept,
        fun _ => h.leaving (by simp [hw, WorkerPc.leaving]), h.running, fun _ => rfl, by simp⟩
      simpa [hw, WorkerPc.current, Requests.queued] using horder
  | stopping hs htrans =>
      obtain rfl := htrans
      have hclosed : s.queue.closed = false := h.closed_iff.trans (by rw [hs]; rfl)
      refine ⟨h.holds, h.order, ?_, h.drained, h.kept, h.leaving, ?_, ?_, h.no_fault⟩
      · simp [h.running hs, StopPc.past, hclosed]
      · simp [h.running hs]
      · simp [h.running hs]
  | flagged hs =>
      have hclosed : s.queue.closed = false := h.closed_iff.trans (by rw [hs]; rfl)
      exact ⟨h.holds, h.order, hclosed, h.drained, h.kept, h.leaving, by simp, by simp, h.no_fault⟩
  | cancelled hs hq hclosed =>
      have hcontents := hq.contents_eq
      refine ⟨by simpa [hcontents] using hq, ?_, hclosed, ?_, ?_, fun _ => hclosed, by simp,
        by simp, h.no_fault⟩
      · simpa [Requests.queued, hcontents] using horder
      · simp [Requests.queued, hcontents]
      · simp [hclosed]
  | joined hs hexit =>
      have hclosed : s.queue.closed = true := h.closed_iff.trans (by rw [hs]; rfl)
      exact ⟨h.holds, h.order, hclosed, h.drained, h.kept, h.leaving, by simp, fun _ => hexit,
        h.no_fault⟩
  | destroyed hs =>
      have hclosed : s.queue.closed = true := h.closed_iff.trans (by rw [hs]; rfl)
      have hqueued := h.drained hclosed
      refine ⟨h.holds, ?_, hclosed, h.drained, ?_, h.leaving, by simp,
        fun _ => h.exited (.inl hs), h.no_fault⟩
      · rw [hqueued, List.append_nil]
        exact horder
      · simp [hclosed]

/-! ### The packet copies and their owners -/

/-- What a call in progress can rely on. -/
def SubmitPc.Ok (s : Requests ι) : SubmitPc → Prop
  | .idle => True
  | .entered r _ | .checking r _ | .copying r _ _ => r < s.nextRequest ∧ r ∉ s.copies
  | .pushing item =>
      item.request ∈ s.copies ∧ item.request ∉ s.accepted ∧ item.request ∉ s.freed
  | .rejecting item status =>
      (item.request ∈ s.copies ∧ item.request ∉ s.accepted ∧ item.request ∉ s.freed) ∧
        status ≠ .ok
  | .returning r status => r ∈ s.accepted ∧ status = .ok ∨ r ∉ s.accepted ∧ status ≠ .ok

structure Books (s : Requests ι) : Prop where
  copies_lt : ∀ r ∈ s.copies, r < s.nextRequest
  accepted_copied : ∀ r ∈ s.accepted, r ∈ s.copies
  freed_copied : ∀ r ∈ s.freed, r ∈ s.copies
  accepted_nodup : s.accepted.Nodup
  freed_nodup : s.freed.Nodup
  freed_iff : ∀ r ∈ s.accepted,
    (r ∈ s.freed ↔ r ∈ s.completed ∧ r ∉ s.worker.unfreed ∨ r ∈ s.cancelled)
  unfreed_completed : ∀ r ∈ s.worker.unfreed, r ∈ s.completed

/-- Who owns which request and which copy. A request has at most one caller;
a copy that was neither accepted nor freed is still its caller's. -/
structure Ledger (s : Requests ι) : Prop where
  books : Books s
  threads : ∀ i, (s.submit i).Ok s
  request_lt : ∀ i r, (s.submit i).request = some r → r < s.nextRequest
  owner_inj : ∀ i j r, (s.submit i).request = some r → (s.submit j).request = some r → i = j
  results : ∀ r st, (r, st) ∈ s.results → r < s.nextRequest ∧
    (∀ i, (s.submit i).request ≠ some r) ∧
      (r ∈ s.accepted ∧ st = .ok ∨ r ∉ s.accepted ∧ st ≠ .ok)
  accounted : ∀ r ∈ s.copies, r ∈ s.accepted ∨ r ∈ s.freed ∨ ∃ i, (s.submit i).holding = some r

omit [DecidableEq ι] in
theorem Ledger.started : Ledger (.started cfg : Requests ι) where
  books := ⟨by simp [Requests.started], by simp [Requests.started], by simp [Requests.started],
    .nil, .nil, by simp [Requests.started], by simp [Requests.started, WorkerPc.unfreed]⟩
  threads _ := trivial
  request_lt _ _ h := by cases h
  owner_inj _ _ _ h := by cases h
  results := by simp [Requests.started]
  accounted := by simp [Requests.started]

structure Untouched (s s' : Requests ι) (r : ℕ) : Prop where
  copies : r ∈ s'.copies ↔ r ∈ s.copies
  accepted : r ∈ s'.accepted ↔ r ∈ s.accepted
  freed : r ∈ s'.freed ↔ r ∈ s.freed

omit [DecidableEq ι] in
/-- A call keeps what it relies on when the record changes elsewhere. -/
theorem SubmitPc.Ok.frame {s s' : Requests ι} {pc : SubmitPc} (h : pc.Ok s)
    (hnext : s.nextRequest ≤ s'.nextRequest)
    (hsame : ∀ r, pc.request = some r → Untouched s s' r) : pc.Ok s' := by
  cases pc with
  | idle => trivial
  | entered r _ => exact ⟨h.1.trans_le hnext, fun hc => h.2 ((hsame r rfl).copies.mp hc)⟩
  | checking r _ => exact ⟨h.1.trans_le hnext, fun hc => h.2 ((hsame r rfl).copies.mp hc)⟩
  | copying r _ _ => exact ⟨h.1.trans_le hnext, fun hc => h.2 ((hsame r rfl).copies.mp hc)⟩
  | pushing item =>
      have hu := hsame item.request rfl
      simpa only [SubmitPc.Ok, hu.copies, hu.accepted, hu.freed] using h
  | rejecting item _ =>
      have hu := hsame item.request rfl
      simpa only [SubmitPc.Ok, hu.copies, hu.accepted, hu.freed] using h
  | returning r _ => simpa only [SubmitPc.Ok, (hsame r rfl).accepted] using h

/-- Thread `i`, whose request is `r`, takes a step to `pc` that changes the
record for no other request. -/
theorem Ledger.goto {s t : Requests ι} {i : ι} {r : ℕ} {pc : SubmitPc} (h : Ledger s)
    (hreq : (s.submit i).request = some r) (hsubmit : t.submit = s.submit)
    (hnext : t.nextRequest = s.nextRequest) (hresults : t.results = s.results)
    (hsame : ∀ r', r' ≠ r → Untouched s t r') (hpc : pc.request = some r) (hok : pc.Ok t)
    (hbooks : Books t)
    (hcopy : r ∈ t.copies → r ∈ t.accepted ∨ r ∈ t.freed ∨ pc.holding = some r) :
    Ledger (t.goto i pc) := by
  have hother {j : ι} (hj : j ≠ i) : (t.goto i pc).submit j = s.submit j := by
    rw [Requests.goto, ← hsubmit]
    exact Function.update_of_ne hj _ _
  have hself : (t.goto i pc).submit i = pc := Function.update_self _ _ _
  have hne {j : ι} (hj : j ≠ i) {r' : ℕ} (hr : (s.submit j).request = some r') : r' ≠ r := by
    rintro rfl
    exact hj (h.owner_inj j i r' hr hreq)
  have hrequest (j : ι) : ((t.goto i pc).submit j).request = (s.submit j).request := by
    by_cases hj : j = i
    · rw [hj, hself, hpc, hreq]
    · rw [hother hj]
  refine ⟨⟨hbooks.1, hbooks.2, hbooks.3, hbooks.4, hbooks.5, hbooks.6, hbooks.7⟩, fun j => ?_,
    fun j r' hr => ?_, fun j k r' hr hr' => ?_, fun r' st hmem => ?_, fun r' hmem => ?_⟩
  · by_cases hj : j = i
    · rw [hj, hself]
      exact hok.frame le_rfl fun _ _ => ⟨Iff.rfl, Iff.rfl, Iff.rfl⟩
    · rw [hother hj]
      refine (h.threads j).frame hnext.ge fun r' hr => ?_
      have hu := hsame r' (hne hj hr)
      exact ⟨hu.copies, hu.accepted, hu.freed⟩
  · rw [hrequest] at hr
    exact (h.request_lt j r' hr).trans_eq hnext.symm
  · rw [hrequest] at hr hr'
    exact h.owner_inj j k r' hr hr'
  · change (r', st) ∈ t.results at hmem
    rw [hresults] at hmem
    obtain ⟨hlt, hfree, hst⟩ := h.results r' st hmem
    have hne' : r' ≠ r := by
      rintro rfl
      exact hfree i hreq
    refine ⟨hlt.trans_eq hnext.symm, fun j => ?_, ?_⟩
    · rw [hrequest]
      exact hfree j
    · change r' ∈ t.accepted ∧ _ ∨ r' ∉ t.accepted ∧ _
      rwa [(hsame r' hne').accepted]
  · by_cases hr : r' = r
    · subst hr
      rcases hcopy hmem with hacc | hfr | hhold
      · exact .inl hacc
      · exact .inr (.inl hfr)
      · exact .inr (.inr ⟨i, by rw [hself]; exact hhold⟩)
    · have hu := hsame r' hr
      rcases h.accounted r' (hu.copies.mp hmem) with hacc | hfr | ⟨j, hj⟩
      · exact .inl (hu.accepted.mpr hacc)
      · exact .inr (.inl (hu.freed.mpr hfr))
      · refine .inr (.inr ⟨j, ?_⟩)
        have hji : j ≠ i := by
          rintro rfl
          have hreq' : (s.submit j).request = some r' := by
            cases hpc' : s.submit j <;> simp_all [SubmitPc.request, SubmitPc.holding,
              SubmitPc.fresh]
          exact hr (Option.some.inj (hreq'.symm.trans hreq))
        rw [hother hji]
        exact hj

omit [DecidableEq ι] in
/-- A step of the worker or of the stopping thread, which frees only copies of
accepted requests. -/
theorem Ledger.release {s s' : Requests ι} (h : Ledger s) (hsubmit : s'.submit = s.submit)
    (hnext : s'.nextRequest = s.nextRequest) (hresults : s'.results = s.results)
    (hcopies : s'.copies = s.copies) (haccepted : s'.accepted = s.accepted)
    (hkeep : ∀ r ∈ s.freed, r ∈ s'.freed)
    (hfreed : ∀ r ∈ s'.freed, r ∈ s.freed ∨ r ∈ s.accepted) (hbooks : Books s') : Ledger s' := by
  have hnot {r : ℕ} (hacc : r ∉ s.accepted) (hfr : r ∉ s.freed) : r ∉ s'.freed := fun hmem =>
    (hfreed r hmem).elim hfr hacc
  refine ⟨hbooks, fun i => ?_, ?_, ?_, ?_, ?_⟩
  · rw [hsubmit]
    have hok := h.threads i
    cases hpc : s.submit i with
    | idle => trivial
    | pushing item =>
        rw [hpc] at hok
        exact ⟨hcopies ▸ hok.1, haccepted ▸ hok.2.1, hnot hok.2.1 hok.2.2⟩
    | rejecting item status =>
        rw [hpc] at hok
        exact ⟨⟨hcopies ▸ hok.1.1, haccepted ▸ hok.1.2.1, hnot hok.1.2.1 hok.1.2.2⟩, hok.2⟩
    | _ =>
        rw [hpc] at hok
        simpa only [SubmitPc.Ok, hnext, hcopies, haccepted] using hok
  · rw [hsubmit, hnext]
    exact h.request_lt
  · rw [hsubmit]
    exact h.owner_inj
  · rw [hsubmit, hnext, hresults, haccepted]
    exact h.results
  · rw [hsubmit, hcopies, haccepted]
    intro r hmem
    rcases h.accounted r hmem with hacc | hfr | hhold
    · exact .inl hacc
    · exact .inr (.inl (hkeep r hfr))
    · exact .inr (.inr hhold)

omit [DecidableEq ι] in
/-- The copies of the accepted requests `rs` are freed, none of which was. -/
theorem Ledger.free {s s' : Requests ι} (h : Ledger s) (rs : List ℕ)
    (hsubmit : s'.submit = s.submit) (hnext : s'.nextRequest = s.nextRequest)
    (hresults : s'.results = s.results) (hcopies : s'.copies = s.copies)
    (haccepted : s'.accepted = s.accepted) (hfreed : s'.freed = s.freed ++ rs)
    (hcompleted : s'.completed = s.completed) (hacc : ∀ r ∈ rs, r ∈ s.accepted)
    (hnew : ∀ r ∈ rs, r ∉ s.freed) (hnodup : rs.Nodup)
    (hiff : ∀ r ∈ s.accepted, (r ∈ s.completed ∧ r ∉ s'.worker.unfreed ∨ r ∈ s'.cancelled) ↔
      (r ∈ s.completed ∧ r ∉ s.worker.unfreed ∨ r ∈ s.cancelled) ∨ r ∈ rs)
    (hunfreed : ∀ r ∈ s'.worker.unfreed, r ∈ s.completed) : Ledger s' := by
  have hb := h.books
  refine h.release hsubmit hnext hresults hcopies haccepted
    (fun r hr => hfreed ▸ List.mem_append_left _ hr) (fun r hr => ?_) ⟨?_, ?_, ?_, ?_, ?_, ?_, ?_⟩
  · rw [hfreed] at hr
    exact (List.mem_append.mp hr).imp_right (hacc r)
  · rw [hcopies, hnext]
    exact hb.copies_lt
  · rw [haccepted, hcopies]
    exact hb.accepted_copied
  · rw [hfreed, hcopies]
    intro r hr
    exact (List.mem_append.mp hr).elim (hb.freed_copied r)
      fun hr => hb.accepted_copied r (hacc r hr)
  · rw [haccepted]
    exact hb.accepted_nodup
  · rw [hfreed, List.nodup_append]
    refine ⟨hb.freed_nodup, hnodup, fun r hr r' hr' heq => ?_⟩
    exact hnew r' hr' (heq ▸ hr)
  · rw [haccepted, hfreed, hcompleted]
    intro r hr
    rw [List.mem_append, hb.freed_iff r hr, hiff r hr]
  · rw [hcompleted]
    exact hunfreed

omit [DecidableEq ι] in
theorem Ledger.idle {s s' : Requests ι} (h : Ledger s) (hsubmit : s'.submit = s.submit)
    (hnext : s'.nextRequest = s.nextRequest) (hresults : s'.results = s.results)
    (hcopies : s'.copies = s.copies) (haccepted : s'.accepted = s.accepted)
    (hfreed : s'.freed = s.freed) (hcompleted : s'.completed = s.completed)
    (hcancelled : s'.cancelled = s.cancelled) (hunfreed : s'.worker.unfreed = s.worker.unfreed) :
    Ledger s' := by
  have hb := h.books
  refine h.free [] hsubmit hnext hresults hcopies haccepted
    (hfreed.trans (List.append_nil _).symm) hcompleted (by simp) (by simp) .nil ?_ ?_
  · simp [hcancelled, hunfreed]
  · rw [hunfreed]
    exact hb.unfreed_completed

omit [DecidableEq ι] in
theorem Flow.disjoint {s : Requests ι} (hf : Flow cfg s) (hnodup : s.accepted.Nodup) :
    (∀ r ∈ s.worker.current, r ∉ s.completed ∧ r ∉ s.cancelled) ∧
      (∀ r ∈ s.completed, r ∉ s.cancelled) ∧
      (∀ r ∈ s.queued cfg, r ∉ s.completed ∧ r ∉ s.cancelled) ∧ (s.queued cfg).Nodup := by
  rw [hf.order] at hnodup
  simp only [List.nodup_append, List.mem_append] at hnodup
  obtain ⟨⟨⟨-, -, hcur⟩, -, hcan⟩, hqueued, hq⟩ := hnodup
  refine ⟨fun r hr => ⟨fun hc => hcur r hc r hr rfl, fun hc => hcan r (.inr hr) r hc rfl⟩,
    fun r hr hc => hcan r (.inl hr) r hc rfl,
    fun r hr => ⟨fun hc => hq r (.inl (.inl hc)) r hr rfl, fun hc => hq r (.inr hc) r hr rfl⟩,
    hqueued⟩

theorem SubmitPc.request_of_fresh {pc : SubmitPc} {r : ℕ} (h : pc.fresh = some r) :
    pc.request = some r := by
  rw [SubmitPc.request, h]
  rfl

omit [DecidableEq ι] in
theorem SubmitPc.Ok.of_fresh {s : Requests ι} {pc : SubmitPc} {r : ℕ} (h : pc.fresh = some r) :
    pc.Ok s ↔ r < s.nextRequest ∧ r ∉ s.copies := by
  cases pc with
  | entered r' _ =>
      obtain rfl := Option.some.inj h
      exact Iff.rfl
  | checking r' _ =>
      obtain rfl := Option.some.inj h
      exact Iff.rfl
  | copying r' _ _ =>
      obtain rfl := Option.some.inj h
      exact Iff.rfl
  | _ => cases h

theorem Ledger.call {s : Requests ι} {i : ι} {args : SubmitArgs} (h : Ledger s)
    (hi : s.submit i = .idle) :
    Ledger ({ s with nextRequest := s.nextRequest + 1 }.goto i
      (.entered s.nextRequest args)) := by
  have hb := h.books
  have hself : Function.update s.submit i (.entered s.nextRequest args) i =
      .entered s.nextRequest args := Function.update_self _ _ _
  have hother {j : ι} (hj : j ≠ i) :
      Function.update s.submit i (.entered s.nextRequest args) j = s.submit j :=
    Function.update_of_ne hj _ _
  have hnew {j : ι} (hj : j ≠ i) : (s.submit j).request ≠ some s.nextRequest := fun hr =>
    (h.request_lt j _ hr).false
  refine ⟨⟨fun r hr => (hb.copies_lt r hr).trans (Nat.lt_succ_self _), hb.2, hb.3, hb.4, hb.5,
    hb.6, hb.7⟩, fun j => ?_, fun j r hr => ?_, fun j k r hr hr' => ?_, fun r st hmem => ?_,
    fun r hmem => ?_⟩
  · by_cases hj : j = i
    · simp only [Requests.goto, hj, hself]
      exact ⟨Nat.lt_succ_self _, fun hc => (hb.copies_lt _ hc).false⟩
    · simp only [Requests.goto, hother hj]
      exact (h.threads j).frame (Nat.le_succ _) fun _ _ => ⟨Iff.rfl, Iff.rfl, Iff.rfl⟩
  · by_cases hj : j = i
    · simp only [Requests.goto, hj, hself] at hr
      exact (Option.some.inj hr) ▸ Nat.lt_succ_self _
    · simp only [Requests.goto, hother hj] at hr
      exact (h.request_lt j r hr).trans (Nat.lt_succ_self _)
  · by_cases hj : j = i <;> by_cases hk : k = i
    · rw [hj, hk]
    · simp only [Requests.goto, hj, hself, hother hk] at hr hr'
      exact absurd (hr'.trans hr.symm) (hnew hk)
    · simp only [Requests.goto, hk, hself, hother hj] at hr hr'
      exact absurd (hr.trans hr'.symm) (hnew hj)
    · simp only [Requests.goto, hother hj, hother hk] at hr hr'
      exact h.owner_inj j k r hr hr'
  · obtain ⟨hlt, hfree, hst⟩ := h.results r st hmem
    refine ⟨hlt.trans (Nat.lt_succ_self _), fun j hr => ?_, hst⟩
    by_cases hj : j = i
    · simp only [Requests.goto, hj, hself] at hr
      exact hlt.ne (Option.some.inj hr).symm
    · simp only [Requests.goto, hother hj] at hr
      exact hfree j hr
  · refine (h.accounted r hmem).imp_right (Or.imp_right ?_)
    rintro ⟨j, hj⟩
    have hji : j ≠ i := by
      rintro rfl
      rw [hi] at hj
      cases hj
    exact ⟨j, by simpa only [Requests.goto, hother hji] using hj⟩

theorem Ledger.ret {s : Requests ι} {i : ι} {r : ℕ} {status : Status} (h : Ledger s)
    (hi : s.submit i = .returning r status) :
    Ledger ({ s with results := s.results ++ [(r, status)] }.goto i .idle) := by
  have hb := h.books
  have hreq : (s.submit i).request = some r := by rw [hi]; rfl
  have hok := h.threads i
  rw [hi] at hok
  have hself : Function.update s.submit i .idle i = .idle := Function.update_self _ _ _
  have hother {j : ι} (hj : j ≠ i) : Function.update s.submit i .idle j = s.submit j :=
    Function.update_of_ne hj _ _
  have hidle {j : ι} {r' : ℕ} (hr : (Function.update s.submit i .idle j).request = some r') :
      j ≠ i ∧ (s.submit j).request = some r' := by
    by_cases hj : j = i
    · rw [hj, hself] at hr
      cases hr
    · rw [hother hj] at hr
      exact ⟨hj, hr⟩
  refine ⟨⟨hb.1, hb.2, hb.3, hb.4, hb.5, hb.6, hb.7⟩, fun j => ?_, fun j r' hr => ?_,
    fun j k r' hr hr' => ?_, fun r' st hmem => ?_, fun r' hmem => ?_⟩
  · by_cases hj : j = i
    · simp only [Requests.goto, hj, hself]
      trivial
    · simp only [Requests.goto, hother hj]
      exact (h.threads j).frame le_rfl fun _ _ => ⟨Iff.rfl, Iff.rfl, Iff.rfl⟩
  · exact h.request_lt j r' (hidle hr).2
  · exact h.owner_inj j k r' (hidle hr).2 (hidle hr').2
  · rcases List.mem_append.mp hmem with hmem | hmem
    · obtain ⟨hlt, hfree, hst⟩ := h.results r' st hmem
      exact ⟨hlt, fun j hr => hfree j (hidle hr).2, hst⟩
    · obtain ⟨rfl, rfl⟩ := Prod.mk.inj (List.mem_singleton.mp hmem)
      refine ⟨h.request_lt i r' hreq, fun j hr => ?_, hok⟩
      exact (hidle hr).1 (h.owner_inj j i r' (hidle hr).2 hreq)
  · refine (h.accounted r' hmem).imp_right (Or.imp_right ?_)
    rintro ⟨j, hj⟩
    have hji : j ≠ i := by
      rintro rfl
      rw [hi] at hj
      cases hj
    exact ⟨j, by simpa only [Requests.goto, hother hji] using hj⟩

theorem Ledger.moves {s s' : Requests ι} (hf : Flow cfg s) (h : Ledger s) (hm : Moves cfg s s') :
    Ledger s' := by
  have hb := h.books
  have same (r : ℕ) : Untouched s s r := ⟨Iff.rfl, Iff.rfl, Iff.rfl⟩
  cases hm with
  | call hi _ => exact h.call hi
  | @advance i r pc hi hpc =>
      have hok := (SubmitPc.Ok.of_fresh hi).mp (h.threads i)
      exact h.goto (SubmitPc.request_of_fresh hi) rfl rfl rfl (fun r' _ => same r')
        (SubmitPc.request_of_fresh hpc) ((SubmitPc.Ok.of_fresh hpc).mpr hok) hb
        fun hmem => absurd hmem hok.2
  | @refuse i r status hi hst =>
      have hok := (SubmitPc.Ok.of_fresh hi).mp (h.threads i)
      exact h.goto (SubmitPc.request_of_fresh hi) rfl rfl rfl (fun r' _ => same r') rfl
        (.inr ⟨fun hacc => hok.2 (hb.accepted_copied r hacc), hst⟩) hb
        fun hmem => absurd hmem hok.2
  | @copied i item hi =>
      have hok := (SubmitPc.Ok.of_fresh hi).mp (h.threads i)
      have hacc : item.request ∉ s.accepted := fun hc => hok.2 (hb.accepted_copied _ hc)
      have hfr : item.request ∉ s.freed := fun hc => hok.2 (hb.freed_copied _ hc)
      refine h.goto (SubmitPc.request_of_fresh hi) rfl rfl rfl (fun r' hr => ?_) rfl
        ⟨by simp, hacc, hfr⟩ ?_ fun _ => .inr (.inr rfl)
      · exact ⟨by simp [hr], Iff.rfl, Iff.rfl⟩
      · refine ⟨fun r hr => ?_, fun r hr => ?_, fun r hr => ?_, hb.accepted_nodup, hb.freed_nodup,
          hb.freed_iff, hb.unfreed_completed⟩
        · rcases List.mem_append.mp hr with hr | hr
          · exact hb.copies_lt r hr
          · exact List.mem_singleton.mp hr ▸ hok.1
        · exact List.mem_append_left _ (hb.accepted_copied r hr)
        · exact List.mem_append_left _ (hb.freed_copied r hr)
  | @turned i item status hi hst =>
      have hok := h.threads i
      rw [hi] at hok
      exact h.goto (by rw [hi]; rfl) rfl rfl rfl (fun r' _ => same r') rfl ⟨hok, hst⟩ hb
        fun _ => .inr (.inr rfl)
  | @rejected i item status hi =>
      have hok := h.threads i
      rw [hi] at hok
      obtain ⟨⟨hcopy, hacc, hfr⟩, hst⟩ := hok
      refine h.goto (by rw [hi]; rfl) rfl rfl rfl (fun r' hr => ?_) rfl (.inr ⟨hacc, hst⟩) ?_
        fun _ => .inr (.inl (by simp))
      · exact ⟨Iff.rfl, Iff.rfl, by simp [hr]⟩
      · refine ⟨hb.copies_lt, hb.accepted_copied, fun r hr => ?_, hb.accepted_nodup, ?_,
          fun r hr => ?_, hb.unfreed_completed⟩
        · rcases List.mem_append.mp hr with hr | hr
          · exact hb.freed_copied r hr
          · exact List.mem_singleton.mp hr ▸ hcopy
        · rw [← List.concat_eq_append]
          exact hb.freed_nodup.concat hfr
        · have hne : r ≠ item.request := by
            rintro rfl
            exact hacc hr
          simpa [hne] using hb.freed_iff r hr
  | returned hi => exact h.ret hi
  | @pushed i item q hi hopen hopen' hq =>
      have hok := h.threads i
      rw [hi] at hok
      obtain ⟨hcopy, hacc, hfr⟩ := hok
      have horder := hf.order
      refine h.goto (by rw [hi]; rfl) rfl rfl rfl (fun r' hr => ?_) rfl (.inl ⟨by simp, rfl⟩) ?_
        fun _ => .inl (by simp)
      · exact ⟨Iff.rfl, by simp [hr], Iff.rfl⟩
      · refine ⟨hb.copies_lt, fun r hr => ?_, hb.freed_copied, ?_, hb.freed_nodup, fun r hr => ?_,
          hb.unfreed_completed⟩
        · rcases List.mem_append.mp hr with hr | hr
          · exact hb.accepted_copied r hr
          · exact List.mem_singleton.mp hr ▸ hcopy
        · rw [← List.concat_eq_append]
          exact hb.accepted_nodup.concat hacc
        · rcases List.mem_append.mp hr with hr | hr
          · exact hb.freed_iff r hr
          · obtain rfl := List.mem_singleton.mp hr
            have hnot : item.request ∉ s.completed ∧ item.request ∉ s.cancelled := by
              rw [horder] at hacc
              simp only [List.mem_append, not_or] at hacc
              exact ⟨hacc.1.1.1, hacc.1.2⟩
            exact iff_of_false hfr (by simp [hnot])
  | popClosed hw _ => exact h.idle rfl rfl rfl rfl rfl rfl rfl rfl (by simp [hw, WorkerPc.unfreed])
  | popped hw _ _ _ =>
      exact h.idle rfl rfl rfl rfl rfl rfl rfl rfl (by simp [hw, WorkerPc.unfreed])
  | exited hw => exact h.idle rfl rfl rfl rfl rfl rfl rfl rfl (by simp [hw, WorkerPc.unfreed])
  | stopping _ _ => exact h.idle rfl rfl rfl rfl rfl rfl rfl rfl rfl
  | flagged _ => exact h.idle rfl rfl rfl rfl rfl rfl rfl rfl rfl
  | joined _ _ => exact h.idle rfl rfl rfl rfl rfl rfl rfl rfl rfl
  | @processed item ch hw =>
      refine h.release rfl rfl rfl rfl rfl (fun _ => id) (fun _ => .inl) ?_
      refine ⟨hb.copies_lt, hb.accepted_copied, hb.freed_copied, hb.accepted_nodup, hb.freed_nodup,
        fun r hr => ?_, by simp [WorkerPc.unfreed]⟩
      have hnot := ((hf.disjoint hb.accepted_nodup).1 item.request
        (by simp [hw, WorkerPc.current])).1
      have hiff := hb.freed_iff r hr
      simp only [hw, WorkerPc.unfreed, List.not_mem_nil, not_false_eq_true, and_true] at hiff
      simp only [hiff, WorkerPc.unfreed, List.mem_append, List.mem_singleton]
      refine or_congr_left ⟨fun hc => ⟨.inl hc, ?_⟩, fun hc => hc.1.resolve_right hc.2⟩
      rintro rfl
      exact hnot hc
  | @freed item hw =>
      have hdone := hb.unfreed_completed item.request (by simp [hw, WorkerPc.unfreed])
      have hacc : item.request ∈ s.accepted := by
        rw [hf.order]
        simp [hdone]
      have hdrop := (hf.disjoint hb.accepted_nodup).2.1 item.request hdone
      have hfr : item.request ∉ s.freed := by
        rw [hb.freed_iff _ hacc]
        simp [hw, WorkerPc.unfreed, hdrop]
      refine h.free [item.request] rfl rfl rfl rfl rfl rfl rfl (by simpa using hacc)
        (by simpa using hfr) (List.nodup_singleton _) (fun r _ => ?_) (by simp [WorkerPc.unfreed])
      simp only [hw, WorkerPc.unfreed, List.mem_singleton, List.not_mem_nil, not_false_eq_true,
        and_true]
      by_cases hr : r = item.request
      · simp [hr, hdone]
      · simp [hr]
  | cancelled hs _ hclosed =>
      obtain ⟨-, -, hout, hnodup⟩ := hf.disjoint hb.accepted_nodup
      have hacc : ∀ r ∈ s.queued cfg, r ∈ s.accepted := fun r hr => by
        rw [hf.order]
        exact List.mem_append_right _ hr
      refine h.free (s.queued cfg) rfl rfl rfl rfl rfl rfl rfl hacc (fun r hr => ?_) hnodup
        (fun r _ => ?_) hb.unfreed_completed
      · rw [hb.freed_iff r (hacc r hr)]
        simp [hout r hr]
      · rw [List.mem_append, or_assoc]
  | destroyed hs =>
      have hclosed : s.queue.closed = true := hf.closed_iff.trans (by rw [hs]; rfl)
      rw [hf.drained hclosed, List.append_nil, List.append_nil]
      exact h.idle rfl rfl rfl rfl rfl rfl rfl rfl rfl

theorem flow_and_ledger {s : Requests ι} (h : (requestSystem ι cfg).Reach s) :
    Flow cfg s ∧ Ledger s := by
  refine System.Reach.invariant (I := fun s => Flow cfg s ∧ Ledger s) ⟨.started, .started⟩ ?_ h
  intro s a s' ⟨hf, hl⟩ hs
  have hm := moves_of_step hf.holds hs
  exact ⟨hf.moves hm, hl.moves hf hm⟩

/-! ### Progress -/

def stoppingEnv : ItemEnv where
  addresses := none
  send := [⟨true, .timeout, .ok 0⟩]
  recv := [⟨true, 0, .timeout, .ok []⟩]
  closeSession := false

/-- No loop of `process_item` outlasts a stop. -/
theorem processItem_stops (A : Arch) (ch : Channel) (item : QueueItem) :
    ∃ p, processItem A ch item stoppingEnv = some p := by
  have hwait : ∃ r, waitForResponse A ch.parser stoppingEnv.recv = some r := by
    unfold waitForResponse
    split
    · exact ⟨_, rfl⟩
    · exact ⟨_, rfl⟩
  obtain ⟨r, hr⟩ := hwait
  have hexchange : ∃ p, exchange A ch item stoppingEnv false = some p := by
    unfold exchange
    have hsend : ∃ status, sendAll item.packet stoppingEnv.send = some status := by
      simp only [sendAll, stoppingEnv, sendLoop]
      split <;> exact ⟨_, rfl⟩
    obtain ⟨status, hstatus⟩ := hsend
    rw [hstatus, hr]
    repeat' split
    all_goals first
      | exact ⟨_, rfl⟩
      | simp_all
  unfold processItem
  split
  · exact ⟨_, rfl⟩
  · split
    · exact ⟨_, rfl⟩
    · exact hexchange

def Act.isWorker : Act ι → Bool
  | .pop | .process _ | .free | .exit => true
  | _ => false

def Act.isSubmit : Act ι → Bool
  | .call _ _ | .enter _ _ | .check _ | .copy _ _ | .tryPush _ | .reject _ | .ret _ => true
  | _ => false

/-- As long as an accepted request waits, the worker can go on. -/
theorem Flow.progress {s : Requests ι} (hf : Flow cfg s) {r : ℕ} (hacc : r ∈ s.accepted)
    (hcomp : r ∉ s.completed) (hcan : r ∉ s.cancelled) :
    ∃ a s', a.isWorker = true ∧ s.step cfg a = some s' := by
  rw [hf.order] at hacc
  simp only [List.mem_append, hcomp, hcan, false_or, or_false] at hacc
  cases hw : s.worker with
  | processing item =>
      obtain ⟨p, hp⟩ := processItem_stops cfg.arch s.channel item
      exact ⟨.process stoppingEnv, _, rfl, by simp [Requests.step, Requests.workerStep, hw, hp]; rfl⟩
  | freeing item => exact ⟨.free, _, rfl, by simp [Requests.step, Requests.workerStep, hw]; rfl⟩
  | popping =>
      rw [hw] at hacc
      have hq : r ∈ s.queued cfg := hacc.resolve_left (by simp [WorkerPc.current])
      obtain ⟨hnil, -, -⟩ | ⟨hnil, -, -⟩ | ⟨item, items, q, -, hpop, -, -⟩ := hf.holds.pop_spec
      · simp [Requests.queued, hnil] at hq
      · simp [Requests.queued, hnil] at hq
      · exact ⟨.pop, _, rfl, by simp [Requests.step, Requests.workerStep, hw, hpop]; rfl⟩
  | closing => exact ⟨.exit, _, rfl, by simp [Requests.step, Requests.workerStep, hw]; rfl⟩
  | exited =>
      rw [hw] at hacc
      have hq : r ∈ s.queued cfg := hacc.resolve_left (by simp [WorkerPc.current])
      have hclosed := hf.leaving (by simp [hw, WorkerPc.leaving])
      simp [hf.drained hclosed] at hq
  | fault => exact absurd hw hf.no_fault

/-! ### Exactly once -/

/-- A submitting thread changes the queue only by adding the request that it
gets accepted. -/
theorem queued_of_submit {s s' : Requests ι} {a : Act ι} (hf : Flow cfg s)
    (ha : a.isSubmit = true) (h : s.step cfg a = some s') :
    (s'.accepted = s.accepted ∧ s'.queued cfg = s.queued cfg) ∨
      ∃ r, s'.accepted = s.accepted ++ [r] ∧ s'.queued cfg = s.queued cfg ++ [r] := by
  have hsub : s.submitStep cfg a = some s' := by
    cases a <;> first
      | exact (Option.ite_none_left_eq_some.mp h).2
      | cases ha
  cases a with
  | tryPush i =>
      simp only [Requests.submitStep] at hsub
      split at hsub
      · next item hpc =>
          obtain ⟨-, hpush⟩ | ⟨-, -, hpush⟩ | ⟨-, q, hpush, hq', -⟩ := hf.holds.tryPush_spec item
          · rw [hpush] at hsub
            obtain rfl := Option.some.inj hsub
            exact .inl ⟨rfl, rfl⟩
          · rw [hpush] at hsub
            obtain rfl := Option.some.inj hsub
            exact .inl ⟨rfl, rfl⟩
          · rw [hpush] at hsub
            obtain rfl := Option.some.inj hsub
            refine .inr ⟨item.request, rfl, ?_⟩
            simp [Requests.queued, Requests.goto, hq'.contents_eq]
      · cases hsub
  | _ =>
      simp only [Requests.submitStep] at hsub
      repeat' split at hsub
      all_goals first
        | (obtain rfl := Option.some.inj hsub; exact .inl ⟨rfl, rfl⟩)
        | cases hsub

omit [DecidableEq ι] in
/-- A copy that is not freed yet has an owner, and a freed one has none. -/
theorem Ledger.not_freed_iff {s : Requests ι} (hf : Flow cfg s) (h : Ledger s) {r : ℕ}
    (hr : r ∈ s.copies) :
    r ∉ s.freed ↔ r ∈ s.worker.current ∨ r ∈ s.worker.unfreed ∨ r ∈ s.queued cfg ∨
      ∃ i, (s.submit i).holding = some r := by
  have hb := h.books
  obtain ⟨hcur, hcan, hout, -⟩ := hf.disjoint hb.accepted_nodup
  have hmem : r ∈ s.accepted ↔
      ((r ∈ s.completed ∨ r ∈ s.worker.current) ∨ r ∈ s.cancelled) ∨ r ∈ s.queued cfg := by
    rw [hf.order]
    simp only [List.mem_append]
  constructor
  · intro hfr
    rcases h.accounted r hr with hacc | hfr' | hhold
    · rw [hb.freed_iff r hacc] at hfr
      tauto
    · exact absurd hfr' hfr
    · exact .inr (.inr (.inr hhold))
  · rintro (hc | hc | hc | ⟨i, hi⟩)
    · rw [hb.freed_iff r (hmem.mpr (.inl (.inl (.inr hc))))]
      simp [hcur r hc]
    · have hdone := hb.unfreed_completed r hc
      rw [hb.freed_iff r (hmem.mpr (.inl (.inl (.inl hdone))))]
      simp [hc, hcan r hdone]
    · rw [hb.freed_iff r (hmem.mpr (.inr hc))]
      simp [hout r hc]
    · have hok := h.threads i
      cases hpc : s.submit i with
      | pushing item =>
          rw [hpc] at hi hok
          exact Option.some.inj hi ▸ hok.2.2
      | rejecting item status =>
          rw [hpc] at hi hok
          exact Option.some.inj hi ▸ hok.1.2.2
      | _ =>
          rw [hpc] at hi
          cases hi

/-- Exactly-once completion, for any threads submitting, one worker and one
stop or destroy. Completions come at most once and in the order of acceptance;
an accepted request is completed, in the worker's hands, queued, or was queued
when the queue was cancelled, and the last only after a cancel; once the stop
has returned only the first and the last remain; until then the worker can go
on. A call that returns an error had nothing accepted and left the queue alone.
A copy is freed at most once, and as long as it is not, it has an owner. -/
theorem requests_completed_exactly_once (ι : Type*) [DecidableEq ι] (cfg : ChannelConfig)
    {s : Requests ι} (h : (requestSystem ι cfg).Reach s) :
    (s.accepted.Nodup ∧ s.completed <+: s.accepted ∧
      s.accepted = s.completed ++ s.worker.current ++ s.cancelled ++ s.queued cfg ∧
      (s.stop.past = false → s.cancelled = []) ∧
      (s.stop = .returned ∨ s.stop = .destroyed → s.accepted = s.completed ++ s.cancelled) ∧
      ∀ r ∈ s.accepted, r ∉ s.completed → r ∉ s.cancelled →
        ∃ a s', a.isWorker = true ∧ s.step cfg a = some s') ∧
    ((∀ r st, (r, st) ∈ s.results → (st = .ok ↔ r ∈ s.accepted)) ∧
      ∀ a s', a.isSubmit = true → s.step cfg a = some s' →
        (s'.accepted = s.accepted ∧ s'.queued cfg = s.queued cfg) ∨
          ∃ r, s'.accepted = s.accepted ++ [r] ∧ s'.queued cfg = s.queued cfg ++ [r]) ∧
    (s.freed.Nodup ∧ (∀ r ∈ s.freed, r ∈ s.copies) ∧
      ∀ r ∈ s.copies, (r ∉ s.freed ↔ r ∈ s.worker.current ∨ r ∈ s.worker.unfreed ∨
        r ∈ s.queued cfg ∨ ∃ i, (s.submit i).holding = some r)) := by
  obtain ⟨hf, hl⟩ := flow_and_ledger h
  have hb := hl.books
  refine ⟨⟨hb.accepted_nodup, ?_, hf.order, fun hpast => ?_, fun hstop => ?_,
    fun r hacc hcomp hcan => hf.progress hacc hcomp hcan⟩, ⟨fun r st hmem => ?_,
    fun a s' ha hs => queued_of_submit hf ha hs⟩, hb.freed_nodup, hb.freed_copied,
    fun r hr => hl.not_freed_iff hf hr⟩
  · rw [hf.order, List.append_assoc, List.append_assoc]
    exact List.prefix_append _ _
  · exact hf.kept (hf.closed_iff.trans hpast)
  · have hexit := hf.exited hstop
    have hclosed := hf.leaving (by simp [hexit, WorkerPc.leaving])
    rw [hf.order, hexit, hf.drained hclosed]
    simp [WorkerPc.current]
  · obtain ⟨-, -, ⟨hacc, hst⟩ | ⟨hacc, hst⟩⟩ := hl.results r st hmem
    · exact iff_of_true hst hacc
    · exact iff_of_false hst hacc

def smallConfig : ChannelConfig where
  arch := .lp64
  parseBuf := List.replicate 26 0
  queueCapacity := 1
  itemSize := 40
  capacity_pos := by decide
  itemSize_ge := by decide
  no_overflow := by decide

def submitted (i : Bool) (kind : ItemKind) : List (Act Bool) :=
  [.call i ⟨kind, some [0], 1000, true⟩, .enter i true, .check i, .copy i true, .tryPush i]

/-- The connection comes up, the one byte is sent, and no response comes. -/
def unansweredEnv : ItemEnv where
  addresses := some [⟨true, none, [], false, false⟩]
  send := [⟨false, .ready false, .ok 1⟩]
  recv := [⟨false, 0, .timeout, .ok []⟩]
  closeSession := false

/-- The first request is waiting for its response when a relay, which finds the
connection up, is accepted and a third request does not fit; then the channel
is stopped. -/
def stoppedWhileBusy : List (Act Bool) :=
  submitted false .normal ++ [.ret false, .pop] ++ submitted true .relay ++ [.ret true] ++
    submitted false .final ++
    [.reject false, .ret false, .process unansweredEnv, .free, .stopLifecycle, .stopFlag,
      .stopCancel, .pop, .exit, .stopJoin]

/-- In that run one request is completed, one dropped and one refused. -/
theorem requests_completed_exactly_once_busy :
    ∃ s : Requests Bool, (requestSystem Bool smallConfig).Reach s ∧ s.stop = .returned ∧
      s.completed = [0] ∧ s.cancelled = [1] ∧ s.accepted = [0, 1] ∧
      s.freed = [2, 0, 1] ∧ s.freed.Nodup ∧ s.accepted = s.completed ++ s.cancelled := by
  have heval : ((requestSystem Bool smallConfig).run (.started smallConfig) stoppedWhileBusy).map
      (fun s => (s.stop, s.completed, s.cancelled, s.accepted, s.freed)) =
        some (.returned, [0], [1], [0, 1], [2, 0, 1]) := by
    decide +kernel
  obtain ⟨s, hrun, heq⟩ := Option.map_eq_some_iff.mp heval
  simp only [Prod.mk.injEq] at heq
  obtain ⟨hstop, hcomp, hcan, hacc, hfr⟩ := heq
  have hreach := System.reach_of_run .init hrun
  have hall := requests_completed_exactly_once Bool smallConfig hreach
  exact ⟨s, hreach, hstop, hcomp, hcan, hacc, hfr, hall.2.2.1, hall.1.2.2.2.2.1 (.inl hstop)⟩

end Savvy.Tcp
