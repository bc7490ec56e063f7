import Mathlib.Data.Int.Order.Basic
import Savvy.Core.Clock

/-!
Waiting for a descriptor (`savvy_ipc_poll_with_deadline_cancelable` of
`src/platform/linux/ipc/ipc_transport_common.c`).

The world around the call answers two questions, what the clock reads and what
`poll` returns, and it answers them in order: `World` holds the answers. A run
keeps what it asked and was told as a list of events, and the rules of the wait
are stated about that list. A signal can interrupt every `poll`, so the loop
takes fuel, one unit for each pass.
-/

namespace Savvy.Ipc

/-! ### The call -/

def pollIn : Int16 := 1

def eintr : Int32 := 4

structure PollFd where
  fd : Int32
  events : Int16
  deriving DecidableEq

/-- What one `poll` leaves behind: its value, `errno`, and the `revents` of the
first entry and of the second. -/
structure PollOutcome where
  ret : Int32
  errno : Int32
  revents : Int16
  cancelRevents : Int16
  deriving DecidableEq

structure PollCall where
  fds : List PollFd
  timeout : Int32
  outcome : PollOutcome
  deriving DecidableEq

/-- The deadline functions read the clock, and the loop polls. -/
inductive Event
  | now (reading : UInt64)
  | poll (call : PollCall)
  deriving DecidableEq

/-- What the clock reads the `n`-th time and what the `n`-th `poll` returns. -/
structure World where
  clock : ℕ → UInt64
  poll : ℕ → PollOutcome

def World.NonDecreasing (w : World) : Prop := ∀ i j, i ≤ j → w.clock i ≤ w.clock j

/-- The arguments. `cancel` is the `read_fd` of the cancel source, if there is
one, and `outRevents` is what `out_revents` points to. -/
structure PollArgs where
  fd : Int32
  events : Int16
  timeoutMs : UInt32
  outRevents : Option Int16
  cancel : Option Int32

/-- What the call returns, with what `out_revents` points to afterwards. -/
structure Verdict where
  ret : Int32
  outRevents : Option Int16
  deriving DecidableEq

/-! ### The loop -/

def PollArgs.pfds (a : PollArgs) : List PollFd :=
  match a.cancel with
  | some readFd =>
      if 0 ≤ readFd then [⟨a.fd, a.events⟩, ⟨readFd, pollIn⟩] else [⟨a.fd, a.events⟩]
  | none => [⟨a.fd, a.events⟩]

def clamped (remaining : UInt32) : Int32 :=
  if remaining > 2147483647 then 2147483647 else remaining.toInt32

/-- What the loop makes of a `poll`; without a verdict it goes round again. -/
def PollArgs.judge (a : PollArgs) (c : PollCall) : Option Verdict :=
  if c.outcome.ret < 0 then
    if c.outcome.errno = eintr then none else some ⟨-1, a.outRevents⟩
  else if c.outcome.ret = 0 then some ⟨0, a.outRevents⟩
  else if c.fds.length = 2 ∧ c.outcome.cancelRevents &&& pollIn ≠ 0 then some ⟨2, a.outRevents⟩
  else some ⟨1, a.outRevents.map fun _ => c.outcome.revents⟩

/-- The state of a run: `first_poll_done`, how often the clock was read and
`poll` called, and the events so far. -/
structure PollLoop where
  firstPollDone : Bool
  readings : ℕ
  polls : ℕ
  trace : List Event

/-- `savvy_clock_now`. -/
def PollLoop.read (s : PollLoop) (w : World) : PollLoop :=
  { s with readings := s.readings + 1, trace := s.trace ++ [.now (w.clock s.readings)] }

/-- The part of a pass from `savvy_deadline_remaining_ms` on. -/
def PollArgs.pollOnce (a : PollArgs) (w : World) (d : Deadline) (s : PollLoop) :
    PollLoop × Option Verdict :=
  let call : PollCall :=
    ⟨a.pfds, clamped (d.remainingMs (w.clock s.readings)), w.poll s.polls⟩
  (⟨true, s.readings + 1, s.polls + 1, (s.read w).trace ++ [.poll call]⟩, a.judge call)

def PollArgs.pass (a : PollArgs) (w : World) (d : Deadline) (s : PollLoop) :
    PollLoop × Option Verdict :=
  if s.firstPollDone then
    if d.expired (w.clock s.readings) then (s.read w, some ⟨0, a.outRevents⟩)
    else a.pollOnce w d (s.read w)
  else a.pollOnce w d s

def PollArgs.loop (a : PollArgs) (w : World) (d : Deadline) :
    ℕ → PollLoop → List Event × Option Verdict
  | 0, s => (s.trace, none)
  | fuel + 1, s =>
      match a.pass w d s with
      | (s', none) => a.loop w d fuel s'
      | (s', some v) => (s'.trace, some v)

/-- `savvy_ipc_poll_with_deadline_cancelable`, for `fuel` passes of its loop: the
events after the deadline is armed, and the verdict once there is one. -/
def pollWithDeadlineCancelable (a : PollArgs) (w : World) (fuel : ℕ) :
    List Event × Option Verdict :=
  a.loop w (.arm (w.clock 0) a.timeoutMs) fuel ⟨false, 1, 0, []⟩

/-! ### The rules of the wait -/

def readingsSince (tr : List Event) : List UInt64 :=
  tr.foldl (fun seen e => match e with | .now t => seen ++ [t] | .poll _ => []) []

def pollCount (tr : List Event) : ℕ :=
  tr.countP fun e => match e with | .now _ => false | .poll _ => true

/-- A `poll` that keeps the deadline, after the events `pre`. -/
structure KeepsDeadline (start : UInt64) (timeoutMs : UInt32) (pre : List Event) (c : PollCall) :
    Prop where
  timeout_nonneg : 0 ≤ c.timeout.toInt
  timeout_le_intMax : c.timeout.toInt ≤ 2147483647
  timeout_le_left : ∃ t ∈ readingsSince pre,
    c.timeout.toInt ≤ max 0 ((timeoutMs.toNat : ℤ) - (elapsedMs start t : ℤ))
  before_deadline : 0 < pollCount pre → ∃ t ∈ readingsSince pre,
    elapsedMs start t < timeoutMs.toNat

def PollCall.CancelReadable (c : PollCall) : Prop :=
  0 < c.outcome.ret ∧ c.fds.length = 2 ∧ c.outcome.cancelRevents &&& pollIn ≠ 0

def PollCall.Interrupted (c : PollCall) : Prop := c.outcome.ret < 0 ∧ c.outcome.errno = eintr

structure Justified (a : PollArgs) (start : UInt64) (last : Event) (v : Verdict) : Prop where
  timeout : v.ret = 0 → (∃ c, last = .poll c ∧ c.outcome.ret = 0) ∨
    ∃ t, last = .now t ∧ a.timeoutMs.toNat ≤ elapsedMs start t
  error : v.ret = -1 → ∃ c, last = .poll c ∧ c.outcome.ret < 0 ∧ c.outcome.errno ≠ eintr
  cancelled : v.ret = 2 ↔ ∃ c, last = .poll c ∧ c.CancelReadable
  ready : v.ret = 1 → ∃ c, last = .poll c ∧ 0 < c.outcome.ret ∧
    v.outRevents = a.outRevents.map fun _ => c.outcome.revents
  untouched : v.ret ≠ 1 → v.outRevents = a.outRevents
  ret_mem : v.ret ∈ [0, 1, 2, -1]

/-! ### Lists of events -/

@[simp] theorem readingsSince_now (tr : List Event) (t : UInt64) :
    readingsSince (tr ++ [.now t]) = readingsSince tr ++ [t] := by
  simp [readingsSince]

@[simp] theorem pollCount_now (tr : List Event) (t : UInt64) :
    pollCount (tr ++ [.now t]) = pollCount tr := by
  simp [pollCount]

@[simp] theorem pollCount_poll (tr : List Event) (c : PollCall) :
    pollCount (tr ++ [.poll c]) = pollCount tr + 1 := by
  simp [pollCount]

def Kept (start : UInt64) (timeoutMs : UInt32) (tr : List Event) : Prop :=
  ∀ pre c, pre ++ [.poll c] <+: tr → KeepsDeadline start timeoutMs pre c

/-- After a reading past the deadline there is at most one more `poll`. -/
def EndsInTime (start : UInt64) (timeoutMs : UInt32) (tr : List Event) : Prop :=
  ∀ pre t, pre ++ [.now t] <+: tr → timeoutMs.toNat ≤ elapsedMs start t →
    pollCount tr ≤ pollCount pre + 1

section

variable {start : UInt64} {timeoutMs : UInt32} {tr : List Event}

theorem Kept.now (h : Kept start timeoutMs tr) (t : UInt64) :
    Kept start timeoutMs (tr ++ [.now t]) := by
  intro pre c hpre
  rcases List.prefix_concat_iff.mp hpre with heq | hpre
  · simp at heq
  · exact h pre c hpre

theorem Kept.poll (h : Kept start timeoutMs tr) {c : PollCall}
    (hc : KeepsDeadline start timeoutMs tr c) : Kept start timeoutMs (tr ++ [.poll c]) := by
  intro pre c' hpre
  rcases List.prefix_concat_iff.mp hpre with heq | hpre
  · simp only [List.append_singleton_inj, Event.poll.injEq] at heq
    obtain ⟨rfl, rfl⟩ := heq
    exact hc
  · exact h pre c' hpre

theorem EndsInTime.now (h : EndsInTime start timeoutMs tr) (t : UInt64) :
    EndsInTime start timeoutMs (tr ++ [.now t]) := by
  intro pre t' hpre hlate
  rw [pollCount_now]
  rcases List.prefix_concat_iff.mp hpre with heq | hpre
  · rw [(List.append_singleton_inj.mp heq).1]
    exact Nat.le_succ _
  · exact h pre t' hpre hlate

/-- A `poll` after a last reading is allowed if no reading before that one is past
the deadline. -/
theorem endsInTime_now_poll
    (h : ∀ t, Event.now t ∈ tr → elapsedMs start t < timeoutMs.toNat) (t : UInt64)
    (c : PollCall) : EndsInTime start timeoutMs (tr ++ [.now t] ++ [.poll c]) := by
  intro pre t' hpre hlate
  rw [pollCount_poll, pollCount_now]
  rcases List.prefix_concat_iff.mp hpre with heq | hpre
  · simp only [List.append_singleton_inj, reduceCtorEq, and_false] at heq
  rcases List.prefix_concat_iff.mp hpre with heq | hpre
  · exact Nat.le_of_eq (by rw [(List.append_singleton_inj.mp heq).1])
  · have hmem : Event.now t' ∈ tr := hpre.subset (by simp)
    have := h t' hmem
    omega

end

/-! ### One pass -/

theorem clamped_toInt (remaining : UInt32) :
    0 ≤ (clamped remaining).toInt ∧ (clamped remaining).toInt ≤ (remaining.toNat : ℤ) := by
  unfold clamped
  split
  · next hbig =>
      rw [gt_iff_lt, UInt32.lt_iff_toNat_lt] at hbig
      exact ⟨by decide, Int.ofNat_le.mpr (Nat.le_of_lt hbig)⟩
  · next hsmall =>
      rw [gt_iff_lt, UInt32.lt_iff_toNat_lt, Nat.not_lt] at hsmall
      have hcast : remaining.toInt32.toInt = (remaining.toNat : ℤ) :=
        BitVec.toInt_eq_toNat_of_lt (Nat.lt_of_le_of_lt (Nat.mul_le_mul_left 2 hsmall) (by decide))
      omega

def PollLoop.FromClock (w : World) (s : PollLoop) : Prop :=
  ∀ t, Event.now t ∈ s.trace → ∃ k, k < s.readings ∧ t = w.clock k

structure PollLoop.Sound (w : World) (d : Deadline) (s : PollLoop) : Prop where
  kept : Kept d.startedAt d.timeoutMs s.trace
  endsInTime : EndsInTime d.startedAt d.timeoutMs s.trace
  first : s.firstPollDone = false → s.trace = []
  polled : s.firstPollDone = true → 0 < pollCount s.trace
  past : s.FromClock w

section

variable {a : PollArgs} {w : World} {d : Deadline} {s : PollLoop}

/-- Polling once more keeps the deadline if it is the first time, or if a reading
since the last `poll` was before the deadline. -/
theorem pollOnce_kept (hkept : Kept d.startedAt d.timeoutMs s.trace)
    (hpolled : 0 < pollCount s.trace → ∃ t ∈ readingsSince s.trace,
      elapsedMs d.startedAt t < d.timeoutMs.toNat) :
    Kept d.startedAt d.timeoutMs (a.pollOnce w d s).1.trace := by
  refine (hkept.now _).poll ⟨?_, ?_, ?_, ?_⟩
  · exact (clamped_toInt _).1
  · exact Int.le_of_lt_add_one (Int32.toInt_lt _)
  · refine ⟨w.clock s.readings, by simp, ?_⟩
    have hle := (clamped_toInt (d.remainingMs (w.clock s.readings))).2
    rw [Deadline.toNat_remainingMs] at hle
    refine Int.le_trans hle ?_
    omega
  · rw [pollCount_now, readingsSince_now]
    intro hpos
    obtain ⟨t, hmem, hlt⟩ := hpolled hpos
    exact ⟨t, List.mem_append_left _ hmem, hlt⟩

theorem PollLoop.FromClock.read (h : s.FromClock w) : (s.read w).FromClock w := by
  intro t hmem
  rcases List.mem_append.mp hmem with hmem | hmem
  · obtain ⟨k, hk, rfl⟩ := h t hmem
    exact ⟨k, Nat.lt_succ_of_lt hk, rfl⟩
  · simp only [List.mem_singleton, Event.now.injEq] at hmem
    exact ⟨s.readings, Nat.lt_succ_self _, hmem⟩

theorem pollOnce_sound (hkept : Kept d.startedAt d.timeoutMs s.trace) (hpast : s.FromClock w)
    (hearly : ∀ t, Event.now t ∈ s.trace → elapsedMs d.startedAt t < d.timeoutMs.toNat)
    (hpolled : 0 < pollCount s.trace → ∃ t ∈ readingsSince s.trace,
      elapsedMs d.startedAt t < d.timeoutMs.toNat) :
    (a.pollOnce w d s).1.Sound w d where
  kept := pollOnce_kept hkept hpolled
  endsInTime := endsInTime_now_poll hearly _ _
  first := by simp [PollArgs.pollOnce]
  polled := by simp [PollArgs.pollOnce]
  past := by
    intro t hmem
    rcases List.mem_append.mp hmem with hmem | hmem
    · exact hpast.read t hmem
    · simp at hmem

/-- A pass keeps the loop sound, whether the loop ends with it or not. -/
theorem PollLoop.Sound.pass (hclock : w.NonDecreasing) (hs : s.Sound w d) :
    (a.pass w d s).1.Sound w d := by
  unfold PollArgs.pass
  split
  · next hdone =>
      have hpast := hs.past.read
      split
      · exact ⟨hs.kept.now _, hs.endsInTime.now _, by simp [PollLoop.read, hdone],
          fun _ => by simpa [PollLoop.read] using hs.polled hdone, hpast⟩
      · next hearly =>
          rw [Deadline.expired_iff, Nat.not_le] at hearly
          refine pollOnce_sound (hs.kept.now _) hpast ?_ ?_
          · intro t hmem
            obtain ⟨k, hk, rfl⟩ := hpast t hmem
            exact Nat.lt_of_le_of_lt
              (elapsedMs_mono (hclock k s.readings (Nat.le_of_lt_succ hk)) _) hearly
          · exact fun _ => ⟨w.clock s.readings, by simp [PollLoop.read], hearly⟩
  · next hfirst =>
      have htrace := hs.first (by simpa using hfirst)
      refine pollOnce_sound hs.kept hs.past ?_ ?_
      · simp [htrace]
      · simp [htrace, pollCount]

theorem pass_firstPollDone : (a.pass w d s).1.firstPollDone = true := by
  unfold PollArgs.pass
  split
  · next hdone =>
      split
      · exact hdone
      · rfl
  · rfl

theorem readings_lt_pass : s.readings < (a.pass w d s).1.readings := by
  unfold PollArgs.pass
  split
  · split
    · exact Nat.lt_succ_self _
    · exact Nat.lt_add_of_pos_right (Nat.zero_lt_two)
  · exact Nat.lt_succ_self _

/-- The check at the top of a pass ends the loop once the clock is past the
deadline. -/
theorem pass_of_expired (hdone : s.firstPollDone = true)
    (hexp : d.expired (w.clock s.readings) = true) :
    (a.pass w d s).2 = some ⟨0, a.outRevents⟩ := by
  rw [PollArgs.pass, if_pos hdone, if_pos hexp]

/-! ### Verdicts -/

theorem judge_cases {c : PollCall} {v : Verdict} (h : a.judge c = some v) :
    (c.outcome.ret < 0 ∧ c.outcome.errno ≠ eintr ∧ v = ⟨-1, a.outRevents⟩) ∨
    (c.outcome.ret = 0 ∧ v = ⟨0, a.outRevents⟩) ∨
    (c.CancelReadable ∧ v = ⟨2, a.outRevents⟩) ∨
    (0 < c.outcome.ret ∧ ¬ c.CancelReadable ∧
      v = ⟨1, a.outRevents.map fun _ => c.outcome.revents⟩) := by
  unfold PollArgs.judge at h
  split at h
  · next hneg =>
      split at h
      · simp at h
      · next herr => exact .inl ⟨hneg, herr, (Option.some.inj h).symm⟩
  next hneg =>
  split at h
  · next hzero => exact .inr (.inl ⟨hzero, (Option.some.inj h).symm⟩)
  next hzero =>
  have hpos : 0 < c.outcome.ret := by
    rw [← Int32.toInt_inj] at hzero
    rw [Int32.lt_iff_toInt_lt] at hneg ⊢
    simp only [Int32.toInt_zero] at hneg hzero ⊢
    omega
  split at h
  · next hcancel => exact .inr (.inr (.inl ⟨⟨hpos, hcancel⟩, (Option.some.inj h).symm⟩))
  · next hcancel =>
      exact .inr (.inr (.inr ⟨hpos, fun hread => hcancel hread.2, (Option.some.inj h).symm⟩))

theorem judge_justified {c : PollCall} {v : Verdict} (h : a.judge c = some v) (start : UInt64) :
    Justified a start (.poll c) v := by
  have hasymm : ∀ x : Int32, x < 0 → ¬ 0 < x := by
    intro x
    rw [Int32.lt_iff_toInt_lt, Int32.lt_iff_toInt_lt, Int32.toInt_zero]
    omega
  rcases judge_cases h with ⟨hneg, herr, rfl⟩ | ⟨hzero, rfl⟩ | ⟨hread, rfl⟩ | ⟨hpos, hread, rfl⟩
  · have hread : ¬ c.CancelReadable := fun hread => hasymm _ hneg hread.1
    constructor <;> simp [hneg, herr, hread]
  · have hread : ¬ c.CancelReadable := by
      rintro ⟨hpos, -⟩
      rw [hzero] at hpos
      exact hasymm 0 hpos hpos
    constructor <;> simp [hzero, hread]
  · constructor <;> simp [hread]
  · constructor <;> simp [hread, hpos]

theorem interrupted_of_judge {c : PollCall} (h : a.judge c = none) : c.Interrupted := by
  unfold PollArgs.judge at h
  split at h
  · next hneg =>
      split at h
      · next hintr => exact ⟨hneg, hintr⟩
      · simp at h
  · repeat' split at h
    all_goals simp at h

/-- What one pass adds to the events: the reading of the check, if it ends the
loop, and otherwise one or two readings and a `poll`, which the loop then judges. -/
theorem pass_cases :
    (d.expired (w.clock s.readings) = true ∧
      (a.pass w d s).1.trace = s.trace ++ [.now (w.clock s.readings)] ∧
      (a.pass w d s).2 = some ⟨0, a.outRevents⟩) ∨
    ∃ readings call, (∀ c, Event.poll c ∉ readings) ∧
      (a.pass w d s).1.trace = s.trace ++ readings ++ [.poll call] ∧
      (a.pass w d s).2 = a.judge call := by
  unfold PollArgs.pass
  split
  · split
    · next hexp => exact .inl ⟨hexp, rfl, rfl⟩
    · refine .inr
        ⟨[.now (w.clock s.readings), .now (w.clock (s.readings + 1))], _, by simp, ?_, rfl⟩
      simp [PollArgs.pollOnce, PollLoop.read]
  · exact .inr ⟨[.now (w.clock s.readings)], _, by simp, rfl, rfl⟩

/-- The verdict of a pass speaks about the last event of the pass. -/
theorem pass_justified {v : Verdict} (hd : d.timeoutMs = a.timeoutMs)
    (h : (a.pass w d s).2 = some v) :
    ∃ last, (a.pass w d s).1.trace.getLast? = some last ∧ Justified a d.startedAt last v := by
  rcases pass_cases (a := a) (w := w) (d := d) (s := s) with
    ⟨hexp, htrace, hv⟩ | ⟨readings, call, -, htrace, hv⟩
  · rw [Deadline.expired_iff, hd] at hexp
    obtain rfl := Option.some.inj (hv.symm.trans h)
    refine ⟨.now (w.clock s.readings), by simp [htrace], ?_⟩
    constructor <;> simp [hexp]
  · exact ⟨.poll call, by simp [htrace], judge_justified (hv.symm.trans h) _⟩

/-- Only a `poll` that was interrupted has an event after it. -/
theorem pass_dropLast (hint : ∀ c, Event.poll c ∈ s.trace → c.Interrupted) :
    ∀ c, Event.poll c ∈ (a.pass w d s).1.trace.dropLast → c.Interrupted := by
  intro c hmem
  apply hint c
  rcases pass_cases (a := a) (w := w) (d := d) (s := s) with
    ⟨-, htrace, -⟩ | ⟨readings, call, hreadings, htrace, -⟩
  · rwa [htrace, List.dropLast_concat] at hmem
  · rw [htrace, List.dropLast_concat, List.mem_append] at hmem
    exact hmem.resolve_right (hreadings c)

/-- The loop goes round again only after an interrupted `poll`. -/
theorem pass_interrupted (h : (a.pass w d s).2 = none)
    (hint : ∀ c, Event.poll c ∈ s.trace → c.Interrupted) :
    ∀ c, Event.poll c ∈ (a.pass w d s).1.trace → c.Interrupted := by
  intro c hmem
  rcases pass_cases (a := a) (w := w) (d := d) (s := s) with
    ⟨-, -, hv⟩ | ⟨readings, call, hreadings, htrace, hv⟩
  · simp [h] at hv
  · simp only [htrace, List.mem_append, List.mem_singleton, Event.poll.injEq] at hmem
    rcases hmem with (hmem | hmem) | rfl
    · exact hint c hmem
    · exact absurd hmem (hreadings c)
    · exact interrupted_of_judge (hv.symm.trans h)

/-! ### The run -/

/-- A run is sound to its last event, only its last `poll` can have decided, and
its verdict is justified by its last event. -/
theorem loop_spec (hclock : w.NonDecreasing) (hd : d.timeoutMs = a.timeoutMs) (fuel : ℕ)
    (hs : s.Sound w d) (hint : ∀ c, Event.poll c ∈ s.trace → c.Interrupted)
    (hfuel : s.firstPollDone = true ∨ 0 < fuel) :
    ∃ s' : PollLoop, s'.Sound w d ∧ s'.firstPollDone = true ∧
      (∀ c, Event.poll c ∈ s'.trace.dropLast → c.Interrupted) ∧
      (a.loop w d fuel s).1 = s'.trace ∧
      ∀ v, (a.loop w d fuel s).2 = some v →
        ∃ last, s'.trace.getLast? = some last ∧ Justified a d.startedAt last v := by
  induction fuel generalizing s with
  | zero =>
      refine ⟨s, hs, by simpa using hfuel, ?_, rfl, by simp [PollArgs.loop]⟩
      exact fun c hmem => hint c ((List.dropLast_prefix _).subset hmem)
  | succ fuel ih =>
      have hpass : (a.pass w d s).1.Sound w d := hs.pass hclock
      have hdone : (a.pass w d s).1.firstPollDone = true := pass_firstPollDone
      rw [PollArgs.loop]
      rcases hres : a.pass w d s with ⟨s', _ | v⟩
      · have hint' := pass_interrupted (by rw [hres]) hint
        rw [hres] at hpass hdone hint'
        exact ih hpass hint' (.inl hdone)
      · have hint' := pass_dropLast (a := a) (w := w) (d := d) hint
        have hlast := pass_justified hd (by rw [hres])
        rw [hres] at hpass hdone hint' hlast
        refine ⟨s', hpass, hdone, hint', rfl, ?_⟩
        intro v' hv
        exact Option.some.inj hv ▸ hlast

/-- Every pass reads the clock, so with enough passes the check meets the reading
that is past the deadline. -/
theorem loop_returns (hclock : w.NonDecreasing) {n : ℕ} (hexp : d.expired (w.clock n) = true)
    (fuel : ℕ) (hdone : s.firstPollDone = true) (hn : n ≤ s.readings + fuel) :
    ∃ v, (a.loop w d (fuel + 1) s).2 = some v := by
  induction fuel generalizing s with
  | zero =>
      have hlate : d.expired (w.clock s.readings) = true := by
        rw [Deadline.expired_iff] at hexp ⊢
        exact Nat.le_trans hexp (elapsedMs_mono (hclock n s.readings hn) _)
      have hres : (a.pass w d s).2 = some ⟨0, a.outRevents⟩ := pass_of_expired hdone hlate
      rcases hpass : a.pass w d s with ⟨s', v⟩
      rw [hpass] at hres
      subst hres
      exact ⟨⟨0, a.outRevents⟩, by simp only [PollArgs.loop, hpass]⟩
  | succ fuel ih =>
      have hdone' : (a.pass w d s).1.firstPollDone = true := pass_firstPollDone
      have hread : s.readings < (a.pass w d s).1.readings := readings_lt_pass
      rw [PollArgs.loop]
      rcases hpass : a.pass w d s with ⟨s', _ | v⟩
      · rw [hpass] at hdone' hread
        exact ih hdone' (by simp only at hread; omega)
      · exact ⟨v, rfl⟩

/-- Fuel only cuts a run short: more of it changes nothing after the return. -/
theorem loop_add_of_returned {v : Verdict} (fuel more : ℕ)
    (h : (a.loop w d fuel s).2 = some v) :
    a.loop w d (fuel + more) s = a.loop w d fuel s := by
  induction fuel generalizing s with
  | zero => simp [PollArgs.loop] at h
  | succ fuel ih =>
      rw [Nat.add_right_comm]
      rw [PollArgs.loop] at h
      rw [PollArgs.loop, PollArgs.loop]
      rcases hpass : a.pass w d s with ⟨s', _ | v'⟩
      · rw [hpass] at h
        exact ih h
      · rfl

/-- The first pass has no check, and the second has. -/
theorem loop_returns_of_lt (hclock : w.NonDecreasing) {n : ℕ}
    (hexp : d.expired (w.clock n) = true) {fuel : ℕ} (hn : n + 2 ≤ fuel) :
    ∃ v, (a.loop w d fuel s).2 = some v := by
  obtain ⟨k, rfl⟩ : ∃ k, fuel = k + 1 + 1 := ⟨fuel - 2, by omega⟩
  have hdone : (a.pass w d s).1.firstPollDone = true := pass_firstPollDone
  rw [PollArgs.loop]
  rcases hpass : a.pass w d s with ⟨s', _ | v⟩
  · rw [hpass] at hdone
    exact loop_returns hclock hexp k hdone (by omega)
  · exact ⟨v, rfl⟩

end

/-- The wait keeps its deadline, however often signals interrupt it. A call that
has run for a pass has polled; each of its polls is within the time that was left
at a reading since the poll before, and each but the first needs such a reading
before the deadline; after a reading past the deadline there is at most one more
poll, and the call returns once the clock is past the deadline, with the same
events and verdict however much fuel is left. Every poll but the last event was
interrupted, and what the call returns is what its last event says. -/
theorem poll_keeps_deadline (a : PollArgs) (w : World) (hclock : w.NonDecreasing) (fuel : ℕ)
    (hfuel : 0 < fuel) (tr : List Event) (res : Option Verdict)
    (hrun : pollWithDeadlineCancelable a w fuel = (tr, res)) :
    0 < pollCount tr ∧
    (∀ pre c, pre ++ [.poll c] <+: tr → KeepsDeadline (w.clock 0) a.timeoutMs pre c) ∧
    (∀ pre t, pre ++ [.now t] <+: tr → a.timeoutMs.toNat ≤ elapsedMs (w.clock 0) t →
      pollCount tr ≤ pollCount pre + 1) ∧
    (∀ n, a.timeoutMs.toNat ≤ elapsedMs (w.clock 0) (w.clock n) → n + 2 ≤ fuel →
      ∃ v, res = some v) ∧
    (∀ v more, res = some v → pollWithDeadlineCancelable a w (fuel + more) = (tr, res)) ∧
    (∀ c, .poll c ∈ tr.dropLast → c.Interrupted) ∧
    ∀ v, res = some v → ∃ last, tr.getLast? = some last ∧ Justified a (w.clock 0) last v := by
  have hinit : PollLoop.Sound w (.arm (w.clock 0) a.timeoutMs) ⟨false, 1, 0, []⟩ := by
    constructor <;> simp [Kept, EndsInTime, PollLoop.FromClock]
  obtain ⟨s', hs, hdone, hint, htr, hres⟩ :=
    loop_spec (a := a) hclock rfl fuel hinit (by simp) (.inr hfuel)
  rw [pollWithDeadlineCancelable] at hrun
  rw [hrun] at htr hres
  simp only at htr hres
  subst htr
  refine ⟨hs.polled hdone, hs.kept, hs.endsInTime, ?_, ?_, hint, hres⟩
  · intro n hlate hn
    obtain ⟨v, hv⟩ := loop_returns_of_lt (a := a) (s := ⟨false, 1, 0, []⟩) hclock
      ((Deadline.expired_iff (.arm (w.clock 0) a.timeoutMs) (w.clock n)).mpr hlate) hn
    rw [hrun] at hv
    exact ⟨v, hv⟩
  · intro v more hv
    rw [pollWithDeadlineCancelable, loop_add_of_returned fuel more (v := v) (by rw [hrun, hv]),
      hrun]

/-- Signals interrupt every `poll`, and the clock is at 3 ms for the second pass
and at 7 ms for the third. -/
def signalStorm : World where
  clock n := if n < 2 then 0 else if n < 4 then 3000000 else 7000000
  poll _ := ⟨-1, eintr, 0, 0⟩

theorem signalStorm_nonDecreasing : signalStorm.NonDecreasing := by
  intro i j hij
  simp only [signalStorm]
  repeat' split
  all_goals first | decide | omega

/-- A wait of 5 ms in the storm polls for 5 ms, polls for the 2 ms that are left
and then returns. -/
theorem poll_keeps_deadline_storm :
    ∃ c c' : PollCall, pollWithDeadlineCancelable ⟨3, pollIn, 5, some 0, some 4⟩ signalStorm 6 =
        ([.now 0, .poll c, .now 3000000, .now 3000000, .poll c', .now 7000000],
          some ⟨0, some 0⟩) ∧
      c.timeout = 5 ∧ c'.timeout = 2 ∧
      KeepsDeadline 0 5 [.now 0, .poll c, .now 3000000, .now 3000000] c' ∧
      Justified ⟨3, pollIn, 5, some 0, some 4⟩ 0 (.now 7000000) ⟨0, some 0⟩ := by
  have hrun : pollWithDeadlineCancelable ⟨3, pollIn, 5, some 0, some 4⟩ signalStorm 6 =
      ([.now 0, .poll ⟨[⟨3, pollIn⟩, ⟨4, pollIn⟩], 5, ⟨-1, eintr, 0, 0⟩⟩, .now 3000000,
        .now 3000000, .poll ⟨[⟨3, pollIn⟩, ⟨4, pollIn⟩], 2, ⟨-1, eintr, 0, 0⟩⟩, .now 7000000],
        some ⟨0, some 0⟩) := by decide +kernel
  obtain ⟨-, hkept, -, -, -, -, hverdict⟩ := poll_keeps_deadline ⟨3, pollIn, 5, some 0, some 4⟩
    signalStorm signalStorm_nonDecreasing 6 (by decide) _ _ hrun
  obtain ⟨last, hlast, hjust⟩ := hverdict _ rfl
  obtain rfl := Option.some.inj hlast
  exact ⟨_, _, hrun, rfl, rfl, hkept _ _ ⟨[.now 7000000], rfl⟩, hjust⟩

end Savvy.Ipc
