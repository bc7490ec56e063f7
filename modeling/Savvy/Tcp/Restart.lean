import Savvy.Tcp.Completion

/-!
Starting and stopping one channel again and again. One thread calls
`sensor_tcp_channel_start` and `sensor_tcp_channel_stop`, one call after the
other, while any number of threads submit requests and the worker, when there
is one, serves them. The submitting threads and the worker take the steps of
`Requests`; a worker that was never created, or was joined, is `exited`.

A start has to undo what the last stop did in three places, and the queue is
not among them: a queue that was closed once stays closed.
-/

namespace Savvy.Tcp

open Kit

inductive ControlPc
  | idle
  | startFlag
  | startCreate
  | startUndo
  | stopFlag
  | stopCancel
  | stopJoin
  deriving DecidableEq

inductive ControlCall
  | start (status : Status)
  | stop
  deriving DecidableEq

/-- The channel with its controlling thread and the calls that thread made. -/
structure Restarts (ι : Type*) where
  base : Requests ι
  control : ControlPc
  calls : List ControlCall

/-- The steps: those of the other threads, and those of the controlling one. -/
inductive RestartAct (ι : Type*)
  | submit (a : Act ι)
  | worker (a : Act ι)
  | start
  | startFlag
  | startCreate (ok : Bool)
  | startUndo
  | stop
  | stopFlag
  | stopCancel
  | stopJoin

namespace Restarts

variable {ι : Type*} [DecidableEq ι] (cfg : ChannelConfig)

def created : Restarts ι where
  base := { Requests.started cfg with lifecycle := .stopped, worker := .exited }
  control := .idle
  calls := []

def returns (s : Restarts ι) (call : ControlCall) : Restarts ι :=
  { s with control := .idle, calls := s.calls ++ [call] }

def goto (s : Restarts ι) (base : Requests ι) (pc : ControlPc) : Restarts ι :=
  { s with base := base, control := pc }

/-- `sensor_tcp_channel_start`. -/
def startStep (s : Restarts ι) : RestartAct ι → Option (Restarts ι)
  | .start =>
      match s.control with
      | .idle =>
          let (transitioned, lc) := s.base.lifecycle.start
          let base := { s.base with lifecycle := lc }
          if transitioned then some (s.goto base .startFlag)
          else some ((s.goto base .idle).returns (.start .ok))
      | _ => none
  | .startFlag =>
      match s.control with
      | .startFlag => some (s.goto { s.base with stopRequested := false } .startCreate)
      | _ => none
  | .startCreate ok =>
      match s.control with
      | .startCreate =>
          if ok then some ((s.goto { s.base with worker := .popping } .idle).returns (.start .ok))
          else some (s.goto s.base .startUndo)
      | _ => none
  | .startUndo =>
      match s.control with
      | .startUndo =>
          some ((s.goto { s.base with lifecycle := s.base.lifecycle.stop.2 } .idle).returns
            (.start .unknown))
      | _ => none
  | _ => none

/-- `sensor_tcp_channel_stop`. -/
def stopStep (s : Restarts ι) : RestartAct ι → Option (Restarts ι)
  | .stop =>
      match s.control with
      | .idle =>
          let (transitioned, lc) := s.base.lifecycle.stop
          let base := { s.base with lifecycle := lc }
          if transitioned then some (s.goto base .stopFlag)
          else some ((s.goto base .idle).returns .stop)
      | _ => none
  | .stopFlag =>
      match s.control with
      | .stopFlag => some (s.goto { s.base with stopRequested := true } .stopCancel)
      | _ => none
  | .stopCancel =>
      match s.control with
      | .stopCancel =>
          let (items, q) := s.base.queue.cancel cfg.arch
          some (s.goto { s.base with
            queue := q
            cancelled := s.base.cancelled ++ Requests.destroyed items
            freed := s.base.freed ++ Requests.destroyed items } .stopJoin)
      | _ => none
  | .stopJoin =>
      match s.control, s.base.worker with
      | .stopJoin, .exited => some (s.returns .stop)
      | _, _ => none
  | _ => none

def step (s : Restarts ι) (a : RestartAct ι) : Option (Restarts ι) :=
  match a with
  | .submit a => (s.base.submitStep cfg a).map fun base => { s with base := base }
  | .worker a => (s.base.workerStep cfg a).map fun base => { s with base := base }
  | .start | .startFlag | .startCreate _ | .startUndo => s.startStep a
  | .stop | .stopFlag | .stopCancel | .stopJoin => s.stopStep cfg a

end Restarts

def restartSystem (ι : Type*) [DecidableEq ι] (cfg : ChannelConfig) :
    System (Restarts ι) (RestartAct ι) where
  init := .created cfg
  step := Restarts.step cfg

/-! ### The calls alone -/

/-- What a sequence of calls says about the channel: whether it is running, and
whether a call of stop has ever found it running. -/
structure Replay where
  running : Bool
  stopped : Bool
  deriving DecidableEq

def Replay.call (p : Replay) : ControlCall → Replay
  | .start .ok => ⟨true, p.stopped⟩
  | .start _ => p
  | .stop => ⟨false, p.stopped || p.running⟩

def replay (calls : List ControlCall) : Replay := calls.foldl Replay.call ⟨false, false⟩

@[simp] theorem replay_append (calls : List ControlCall) (call : ControlCall) :
    replay (calls ++ [call]) = (replay calls).call call := by
  simp [replay]

/-! ### What a restarted channel is good for -/

/-- Arguments that `sensor_tcp_channel_submit` or `_submit_final` accepts. -/
def ValidSubmit (cfg : ChannelConfig) (args : SubmitArgs) : Prop :=
  (args.kind = .normal ∧ args.responseTimeoutMs ≠ 0 ∨ args.kind = .final) ∧
    args.onComplete = true ∧
    ∃ packet, args.packet = some packet ∧ 0 < packet.length ∧
      packet.length ≤ cfg.parseBuf.length

/-- One whole submitting call of thread `i` whose `malloc` succeeds. -/
def submitCall {ι : Type*} (i : ι) (args : SubmitArgs) : List (RestartAct ι) :=
  [.submit (.call i args), .submit (.enter i false), .submit (.check i), .submit (.copy i true),
    .submit (.tryPush i), .submit (.ret i)]

/-- A worker is in its loop and will not leave it at its next pop, and a valid
submit is accepted while there is room. -/
structure Works {ι : Type*} [DecidableEq ι] (cfg : ChannelConfig) (s : Restarts ι) : Prop where
  alive : s.base.worker.leaving = false ∧ s.base.worker ≠ .fault
  consumes : s.base.queue.pop cfg.arch ≠ .closed
  accepts : ∀ i args, s.base.submit i = .idle → ValidSubmit cfg args →
    (s.base.queue.contents cfg.arch).length < cfg.queueCapacity →
    ∃ s', (restartSystem ι cfg).run s (submitCall i args) = some s' ∧
      s'.base.results = s.base.results ++ [(s.base.nextRequest, .ok)]

/-! ### What the other threads leave alone -/

variable {ι : Type*} [DecidableEq ι] {cfg : ChannelConfig}

/-- A queue that holds what it should, for as many items as the channel was
created with. -/
structure SoundQueue (cfg : ChannelConfig) (q : Queue QueueItem) : Prop where
  holds : q.Holds cfg.arch (q.contents cfg.arch)
  capacity : q.capacity = cfg.queueCapacity
  drained : q.closed = true → q.contents cfg.arch = []

theorem SoundQueue.init : SoundQueue cfg (.init cfg.queueCapacity) := by
  have hholds : Queue.Holds cfg.arch (.init cfg.queueCapacity : Queue QueueItem) [] :=
    .init cfg.capacity_pos cfg.fits
  refine ⟨by rw [hholds.contents_eq]; exact hholds, ?_, fun h => ?_⟩
  · simp [Queue.init, Queue.capacity]
  · cases h

theorem SoundQueue.tryPush {q : Queue QueueItem} (hq : SoundQueue cfg q) (item : QueueItem) :
    SoundQueue cfg (q.tryPush cfg.arch item).2 ∧ (q.tryPush cfg.arch item).2.closed = q.closed := by
  obtain ⟨-, hpush⟩ | ⟨-, -, hpush⟩ | ⟨hopen, q', hpush, hq', hopen'⟩ := hq.holds.tryPush_spec item
  · rw [hpush]
    exact ⟨hq, rfl⟩
  · rw [hpush]
    exact ⟨hq, rfl⟩
  · have hcap : (q.tryPush cfg.arch item).2.capacity = q.capacity := by
      unfold Queue.tryPush
      repeat' split
      · rfl
      · rfl
      · exact Queue.enqueue_capacity item
    rw [hpush] at hcap ⊢
    refine ⟨⟨?_, hcap.trans hq.capacity, fun h => ?_⟩, hopen'.trans hopen.symm⟩
    · rw [hq'.contents_eq]
      exact hq'
    · simp [hopen'] at h

theorem SoundQueue.pop {q q' : Queue QueueItem} {x : Option QueueItem} (hq : SoundQueue cfg q)
    (hpop : q.pop cfg.arch = .item x q') :
    SoundQueue cfg q' ∧ q'.closed = q.closed ∧ x ≠ none := by
  have hcap : q'.capacity = q.capacity := by
    unfold Queue.pop at hpop
    repeat' split at hpop
    · cases hpop
    · cases hpop
    · cases hpop
      rfl
  obtain ⟨-, -, h⟩ | ⟨-, -, h⟩ | ⟨item, items, q'', hitems, h, hq'', hclosed⟩ := hq.holds.pop_spec
  · rw [hpop] at h
    cases h
  · rw [hpop] at h
    cases h
  · rw [hpop] at h
    cases h
    refine ⟨⟨by rw [hq''.contents_eq]; exact hq'', hcap.trans hq.capacity, fun hc => ?_⟩, hclosed,
      by simp⟩
    -- an item came out, so the queue was not drained
    have := hq.drained (hclosed.symm.trans hc)
    simp [hitems] at this

theorem SoundQueue.cancel {q : Queue QueueItem} (hq : SoundQueue cfg q) :
    SoundQueue cfg (q.cancel cfg.arch).2 ∧ (q.cancel cfg.arch).2.closed = true := by
  obtain ⟨-, hempty, hclosed⟩ := hq.holds.cancel
  refine ⟨⟨by rw [hempty.contents_eq]; exact hempty, hq.capacity, fun _ => ?_⟩, hclosed⟩
  exact hempty.contents_eq

theorem submitStep_frame {s s' : Requests ι} {a : Act ι} (hq : SoundQueue cfg s.queue)
    (h : s.submitStep cfg a = some s') :
    SoundQueue cfg s'.queue ∧ s'.queue.closed = s.queue.closed ∧ s'.lifecycle = s.lifecycle ∧
      s'.worker = s.worker := by
  cases a with
  | tryPush i =>
      simp only [Requests.submitStep] at h
      split at h
      · next item hpc =>
          obtain ⟨hq', hclosed⟩ := hq.tryPush item
          split at h
          · next q hpush =>
              obtain rfl := Option.some.inj h
              rw [hpush] at hq' hclosed
              exact ⟨hq', hclosed, rfl, rfl⟩
          · next status q _ hpush =>
              obtain rfl := Option.some.inj h
              rw [hpush] at hq' hclosed
              exact ⟨hq', hclosed, rfl, rfl⟩
      · cases h
  | _ =>
      simp only [Requests.submitStep] at h
      repeat' split at h
      all_goals first
        | (obtain rfl := Option.some.inj h; exact ⟨hq, rfl, rfl, rfl⟩)
        | cases h

omit [DecidableEq ι] in
theorem workerStep_frame {s s' : Requests ι} {a : Act ι} (hq : SoundQueue cfg s.queue)
    (h : s.workerStep cfg a = some s') :
    SoundQueue cfg s'.queue ∧ s'.queue.closed = s.queue.closed ∧ s'.lifecycle = s.lifecycle ∧
      s'.worker ≠ .fault ∧ s.worker ≠ .exited ∧
      (s'.worker.leaving = true → s.worker.leaving = true ∨ s.queue.closed = true) := by
  cases a with
  | pop =>
      simp only [Requests.workerStep] at h
      split at h
      · next hpc =>
          split at h
          · cases h
          · next hpop =>
              obtain rfl := Option.some.inj h
              have hclosed : s.queue.closed = true := by
                obtain ⟨-, -, hp⟩ | ⟨-, hclosed, -⟩ | ⟨_, _, _, -, hp, -, -⟩ := hq.holds.pop_spec
                · rw [hpop] at hp
                  cases hp
                · exact hclosed
                · rw [hpop] at hp
                  cases hp
              exact ⟨hq, rfl, rfl, by simp, by simp [hpc], fun _ => .inr hclosed⟩
          · next item q hpop =>
              obtain rfl := Option.some.inj h
              obtain ⟨hq', hclosed, -⟩ := hq.pop hpop
              exact ⟨hq', hclosed, rfl, by simp, by simp [hpc], by simp [WorkerPc.leaving]⟩
          · next q hpop => exact absurd rfl (hq.pop hpop).2.2
      · cases h
  | process env =>
      simp only [Requests.workerStep] at h
      split at h
      · next item hpc =>
          obtain ⟨p, -, rfl⟩ := Option.map_eq_some_iff.mp h
          exact ⟨hq, rfl, rfl, by simp, by simp [hpc], by simp [WorkerPc.leaving]⟩
      · cases h
  | free =>
      simp only [Requests.workerStep] at h
      split at h
      · next item hpc =>
          obtain rfl := Option.some.inj h
          exact ⟨hq, rfl, rfl, by simp, by simp [hpc], by simp [WorkerPc.leaving]⟩
      · cases h
  | exit =>
      simp only [Requests.workerStep] at h
      split at h
      · next hpc =>
          obtain rfl := Option.some.inj h
          exact ⟨hq, rfl, rfl, by simp, by simp [hpc], fun _ => .inl (by simp [hpc, WorkerPc.leaving])⟩
      · cases h
  | _ => cases h

/-! ### The state between the calls -/

/-- What the calls made so far say about the channel, at each place of the
controlling thread. -/
def Phase (p : Replay) (b : Requests ι) : ControlPc → Prop
  | .idle =>
      b.lifecycle = (if p.running then .running else .stopped) ∧ b.queue.closed = p.stopped ∧
        if p.running then b.queue.closed = false → b.worker.leaving = false
        else b.worker = .exited
  | .startFlag | .startCreate | .startUndo =>
      p.running = false ∧ b.lifecycle = .running ∧ b.queue.closed = p.stopped ∧
        b.worker = .exited
  | .stopFlag | .stopCancel =>
      p.running = true ∧ b.lifecycle = .stopped ∧ b.queue.closed = p.stopped
  | .stopJoin => p.running = true ∧ b.lifecycle = .stopped ∧ b.queue.closed = true

/-- The channel is what the calls say. -/
structure Tracked (cfg : ChannelConfig) (s : Restarts ι) : Prop where
  queue : SoundQueue cfg s.base.queue
  no_fault : s.base.worker ≠ .fault
  phase : Phase (replay s.calls) s.base s.control

omit [DecidableEq ι] in
theorem Tracked.created : Tracked cfg (.created cfg : Restarts ι) :=
  ⟨SoundQueue.init, by simp [Restarts.created], by simp [Restarts.created, Phase, replay,
    Requests.started, Queue.init]⟩

omit [DecidableEq ι] in
theorem Phase.frame {p : Replay} {b b' : Requests ι} {pc : ControlPc} (h : Phase p b pc)
    (hclosed : b'.queue.closed = b.queue.closed) (hlc : b'.lifecycle = b.lifecycle)
    (hexited : b.worker = .exited → b'.worker = .exited)
    (hleaving : b'.worker.leaving = true → b.worker.leaving = true ∨ b.queue.closed = true) :
    Phase p b' pc := by
  cases pc with
  | idle =>
      obtain ⟨h1, h2, h3⟩ := h
      refine ⟨hlc.trans h1, hclosed.trans h2, ?_⟩
      cases hrun : p.running with
      | false =>
          rw [hrun] at h3
          exact hexited h3
      | true =>
          rw [hrun] at h3
          intro hopen
          rw [hclosed] at hopen
          have hstay := h3 hopen
          by_contra hleave
          rcases hleaving (by simpa using hleave) with hl | hc
          · simp [hstay] at hl
          · simp [hopen] at hc
  | startFlag | startCreate | startUndo =>
      obtain ⟨h1, h2, h3, h4⟩ := h
      exact ⟨h1, hlc.trans h2, hclosed.trans h3, hexited h4⟩
  | stopFlag | stopCancel | stopJoin =>
      obtain ⟨h1, h2, h3⟩ := h
      exact ⟨h1, hlc.trans h2, hclosed.trans h3⟩

omit [DecidableEq ι] in
theorem Tracked.startStep {s s' : Restarts ι} {a : RestartAct ι} (h : Tracked cfg s)
    (hs : s.startStep a = some s') : Tracked cfg s' := by
  obtain ⟨hq, hf, hp⟩ := h
  cases a with
  | start =>
      simp only [Restarts.startStep] at hs
      split at hs
      · next hpc =>
          rw [hpc] at hp
          obtain ⟨hlc, hclosed, hworker⟩ := hp
          cases hrun : (replay s.calls).running with
          | false =>
              simp only [hrun, Bool.false_eq_true, if_false] at hlc hworker
              simp only [hlc, Lifecycle.start] at hs
              obtain rfl := Option.some.inj hs
              exact ⟨hq, hf, hrun, rfl, hclosed, hworker⟩
          | true =>
              simp only [hrun, if_true] at hlc hworker
              simp only [hlc, Lifecycle.start] at hs
              obtain rfl := Option.some.inj hs
              refine ⟨hq, hf, ?_⟩
              simp only [Restarts.returns, Restarts.goto, replay_append, Phase, Replay.call, if_true]
              exact ⟨trivial, hclosed, hworker⟩
      · cases hs
  | startFlag =>
      simp only [Restarts.startStep] at hs
      split at hs
      · next hpc =>
          rw [hpc] at hp
          obtain rfl := Option.some.inj hs
          exact ⟨hq, hf, hp⟩
      · cases hs
  | startCreate ok =>
      simp only [Restarts.startStep] at hs
      split at hs
      · next hpc =>
          rw [hpc] at hp
          obtain ⟨hrun, hlc, hclosed, hworker⟩ := hp
          cases ok with
          | true =>
              obtain rfl := Option.some.inj hs
              refine ⟨hq, by simp [Restarts.returns, Restarts.goto], ?_⟩
              simp only [Restarts.returns, Restarts.goto, replay_append, Phase, Replay.call, if_true]
              exact ⟨hlc, hclosed, fun _ => rfl⟩
          | false =>
              obtain rfl := Option.some.inj hs
              exact ⟨hq, hf, hrun, hlc, hclosed, hworker⟩
      · cases hs
  | startUndo =>
      simp only [Restarts.startStep] at hs
      split at hs
      · next hpc =>
          rw [hpc] at hp
          obtain ⟨hrun, hlc, hclosed, hworker⟩ := hp
          obtain rfl := Option.some.inj hs
          refine ⟨hq, hf, ?_⟩
          simp only [Restarts.returns, Restarts.goto, replay_append, Phase, Replay.call, hrun,
            Bool.false_eq_true, if_false]
          exact ⟨rfl, hclosed, hworker⟩
      · cases hs
  | _ => cases hs

omit [DecidableEq ι] in
theorem Tracked.stopStep {s s' : Restarts ι} {a : RestartAct ι} (h : Tracked cfg s)
    (hs : s.stopStep cfg a = some s') : Tracked cfg s' := by
  obtain ⟨hq, hf, hp⟩ := h
  cases a with
  | stop =>
      simp only [Restarts.stopStep] at hs
      split at hs
      · next hpc =>
          rw [hpc] at hp
          obtain ⟨hlc, hclosed, hworker⟩ := hp
          cases hrun : (replay s.calls).running with
          | true =>
              simp only [hrun, if_true] at hlc hworker
              simp only [hlc, Lifecycle.stop] at hs
              obtain rfl := Option.some.inj hs
              exact ⟨hq, hf, hrun, rfl, hclosed⟩
          | false =>
              simp only [hrun, Bool.false_eq_true, if_false] at hlc hworker
              simp only [hlc, Lifecycle.stop] at hs
              obtain rfl := Option.some.inj hs
              refine ⟨hq, hf, ?_⟩
              simp only [Restarts.returns, Restarts.goto, replay_append, Phase, Replay.call, hrun,
                Bool.or_false, Bool.false_eq_true, if_false]
              exact ⟨trivial, hclosed, hworker⟩
      · cases hs
  | stopFlag =>
      simp only [Restarts.stopStep] at hs
      split at hs
      · next hpc =>
          rw [hpc] at hp
          obtain rfl := Option.some.inj hs
          exact ⟨hq, hf, hp⟩
      · cases hs
  | stopCancel =>
      simp only [Restarts.stopStep] at hs
      split at hs
      · next hpc =>
          rw [hpc] at hp
          obtain ⟨hrun, hlc, -⟩ := hp
          obtain rfl := Option.some.inj hs
          exact ⟨hq.cancel.1, hf, hrun, hlc, hq.cancel.2⟩
      · cases hs
  | stopJoin =>
      simp only [Restarts.stopStep] at hs
      split at hs
      · next hpc hexit =>
          rw [hpc] at hp
          obtain ⟨hrun, hlc, hclosed⟩ := hp
          obtain rfl := Option.some.inj hs
          refine ⟨hq, hf, ?_⟩
          simp only [Restarts.returns, replay_append, Phase, Replay.call, hrun, Bool.or_true,
            Bool.false_eq_true, if_false]
          exact ⟨hlc, hclosed, hexit⟩
      · cases hs
  | _ => cases hs

theorem Tracked.step {s s' : Restarts ι} {a : RestartAct ι} (h : Tracked cfg s)
    (hs : s.step cfg a = some s') : Tracked cfg s' := by
  unfold Restarts.step at hs
  split at hs
  · obtain ⟨b, hb, rfl⟩ := Option.map_eq_some_iff.mp hs
    obtain ⟨hq, hclosed, hlc, hworker⟩ := submitStep_frame h.queue hb
    refine ⟨hq, by rw [hworker]; exact h.no_fault, h.phase.frame hclosed hlc ?_ ?_⟩
    · exact fun he => hworker.trans he
    · exact fun hl => .inl (by rwa [hworker] at hl)
  · obtain ⟨b, hb, rfl⟩ := Option.map_eq_some_iff.mp hs
    obtain ⟨hq, hclosed, hlc, hfault, hexited, hleaving⟩ := workerStep_frame h.queue hb
    refine ⟨hq, hfault, h.phase.frame hclosed hlc ?_ hleaving⟩
    exact fun he => absurd he hexited
  all_goals first
    | exact h.startStep hs
    | exact h.stopStep hs

theorem tracked {s : Restarts ι} (h : (restartSystem ι cfg).Reach s) : Tracked cfg s :=
  h.invariant Tracked.created fun _ _ _ hT hs => hT.step hs

/-! ### A channel that was never stopped works, a restarted one does not -/

/-- A valid submit goes through while the channel is running, its queue is open
and there is room. -/
theorem submitCall_ok {s : Restarts ι} {i : ι} {args : SubmitArgs}
    (hq : SoundQueue cfg s.base.queue) (hlc : s.base.lifecycle = .running)
    (hopen : s.base.queue.closed = false) (hpc : s.base.submit i = .idle)
    (hvalid : ValidSubmit cfg args)
    (hroom : (s.base.queue.contents cfg.arch).length < cfg.queueCapacity) :
    ∃ s', (restartSystem ι cfg).run s (submitCall i args) = some s' ∧
      s'.base.results = s.base.results ++ [(s.base.nextRequest, .ok)] := by
  obtain ⟨hkind, hcomplete, packet, hpacket, hpos, hle⟩ := hvalid
  -- the entry and the checks pass
  have henter : ∀ (connected : Bool) (r : ℕ),
      Requests.enterStep connected r args = .checking r args := by
    intro connected r
    unfold Requests.enterStep
    rcases hkind with ⟨hk, htime⟩ | hk
    · simp [hk, htime]
    · simp [hk]
  have hcheck : ∀ (t : Requests ι) (r : ℕ), t.lifecycle = .running →
      t.checkStep cfg r args = .copying r args packet := by
    intro t r ht
    simp [Requests.checkStep, hpacket, hcomplete, ht, Nat.ne_of_gt hpos, Nat.not_lt.mpr hle]
  -- the push finds room
  obtain ⟨q, hpush⟩ : ∃ q, s.base.queue.tryPush cfg.arch
      (Requests.makeItem s.base.nextRequest args packet) = (.ok, q) := by
    obtain ⟨hc, -⟩ | ⟨-, hfull, -⟩ | ⟨-, q, hpush, -⟩ := hq.holds.tryPush_spec
      (Requests.makeItem s.base.nextRequest args packet)
    · simp [hopen] at hc
    · rw [hq.capacity] at hfull
      omega
    · exact ⟨q, hpush⟩
  have hrun : ((restartSystem ι cfg).run s (submitCall i args)).map (·.base.results) =
      some (s.base.results ++ [(s.base.nextRequest, .ok)]) := by
    have hitem : (Requests.makeItem s.base.nextRequest args packet).request =
        s.base.nextRequest := rfl
    simp [submitCall, System.run, restartSystem, Restarts.step, Requests.submitStep, hpc,
      Requests.goto, henter, hcheck, hlc, hpush, hitem]
  obtain ⟨s', hs', hres⟩ := Option.map_eq_some_iff.mp hrun
  exact ⟨s', hs', hres⟩

/-- Between two calls, after a start that succeeded, the channel works exactly
if no call of stop has ever found it running. -/
theorem restart_works_iff (ι : Type*) [DecidableEq ι] (cfg : ChannelConfig) {s : Restarts ι}
    (h : (restartSystem ι cfg).Reach s) (hidle : s.control = .idle)
    (hlast : s.calls.getLast? = some (.start .ok)) :
    Works cfg s ↔ (replay s.calls).stopped = false := by
  obtain ⟨hq, hfault, hphase⟩ := tracked h
  have hrun : (replay s.calls).running = true := by
    obtain ⟨calls, hcalls⟩ := List.getLast?_eq_some_iff.mp hlast
    rw [hcalls, replay_append]
    rfl
  rw [hidle] at hphase
  obtain ⟨hlc, hclosed, hworker⟩ := hphase
  rw [hrun] at hlc hworker
  constructor
  · intro hworks
    by_contra hstopped
    -- the queue is closed and empty, so the worker leaves at its next pop
    have hc : s.base.queue.closed = true := hclosed.trans (by simpa using hstopped)
    apply hworks.consumes
    obtain ⟨-, hopen, -⟩ | ⟨-, -, hpop⟩ | ⟨item, items, -, hitems, -⟩ := hq.holds.pop_spec
    · simp [hc] at hopen
    · exact hpop
    · simp [hq.drained hc] at hitems
  · intro hstopped
    have hopen : s.base.queue.closed = false := hclosed.trans hstopped
    refine ⟨⟨hworker hopen, hfault⟩, fun hpop => ?_, fun i args hpc hvalid hroom => ?_⟩
    · obtain ⟨-, -, hp⟩ | ⟨-, hc, -⟩ | ⟨item, items, q, -, hp, -⟩ := hq.holds.pop_spec
      · rw [hpop] at hp
        cases hp
      · simp [hopen] at hc
      · rw [hpop] at hp
        cases hp
    · exact submitCall_ok hq hlc hopen hpc hvalid hroom

def startStopStart : List (RestartAct Bool) :=
  [.start, .startFlag, .startCreate true, .stop, .stopFlag, .stopCancel, .worker .pop,
    .worker .exit, .stopJoin, .start, .startFlag, .startCreate true]

def oneByte : SubmitArgs := ⟨.normal, some [0], 1, true⟩

/-- The call that submits it when the push is refused. -/
def refusedCall : List (RestartAct Bool) :=
  [.submit (.call true oneByte), .submit (.enter true false), .submit (.check true),
    .submit (.copy true true), .submit (.tryPush true), .submit (.reject true),
    .submit (.ret true)]

def SubmitPc.isIdle : SubmitPc → Bool
  | .idle => true
  | _ => false

/-- The second start succeeds, but then a valid submit is refused with
`SAVVY_ERR_CLOSED` although nothing is pending. -/
theorem restart_works_fails :
    ∃ s, (restartSystem Bool smallConfig).Reach s ∧ s.control = .idle ∧
      s.calls = [.start .ok, .stop, .start .ok] ∧
      s.base.queue.contents smallConfig.arch = [] ∧
      ((restartSystem Bool smallConfig).run s refusedCall).map (·.base.results) =
        some [(0, .closed)] ∧
      ¬ Works smallConfig s := by
  have heval : ((restartSystem Bool smallConfig).run (.created smallConfig) startStopStart).map
      (fun s => (s.control, s.calls, (s.base.submit true).isIdle)) =
      some (.idle, [.start .ok, .stop, .start .ok], true) := by
    decide +kernel
  have hcall : ((restartSystem Bool smallConfig).run (.created smallConfig) startStopStart).map
      (fun s => ((s.base.queue.contents smallConfig.arch).isEmpty,
        ((restartSystem Bool smallConfig).run s refusedCall).map (·.base.results),
        ((restartSystem Bool smallConfig).run s (submitCall true oneByte)).isSome)) =
      some (true, some [(0, .closed)], false) := by
    decide +kernel
  obtain ⟨s, hrun, heq⟩ := Option.map_eq_some_iff.mp heval
  rw [hrun, Option.map_some, Option.some.injEq] at hcall
  simp only [Prod.mk.injEq] at heq hcall
  obtain ⟨hcontrol, hcalls, hpc⟩ := heq
  obtain ⟨hcontents, hrefused, hnone⟩ := hcall
  rw [List.isEmpty_iff] at hcontents
  refine ⟨s, System.reach_of_run .init hrun, hcontrol, hcalls, hcontents, hrefused, fun hw => ?_⟩
  have hidle : s.base.submit true = .idle := by
    cases hc : s.base.submit true with
    | idle => rfl
    | _ =>
        rw [hc] at hpc
        cases hpc
  have hvalid : ValidSubmit smallConfig oneByte :=
    ⟨.inl ⟨rfl, by decide⟩, rfl, [0], rfl, by decide, by decide⟩
  obtain ⟨s', hs', -⟩ := hw.accepts true oneByte hidle hvalid (by rw [hcontents]; decide)
  simp [hs'] at hnone

/-- A channel started once, in which a failed start came first, works. -/
theorem restart_works_iff_first :
    ∃ s, (restartSystem Bool smallConfig).Reach s ∧
      s.calls = [.start .unknown, .stop, .start .ok] ∧ Works smallConfig s := by
  have heval : ((restartSystem Bool smallConfig).run (.created smallConfig)
      [.start, .startFlag, .startCreate false, .startUndo, .stop, .start, .startFlag,
        .startCreate true]).map (fun s => (s.control, s.calls)) =
      some (.idle, [.start .unknown, .stop, .start .ok]) := by
    decide +kernel
  obtain ⟨s, hrun, heq⟩ := Option.map_eq_some_iff.mp heval
  simp only [Prod.mk.injEq] at heq
  obtain ⟨hcontrol, hcalls⟩ := heq
  have hreach : (restartSystem Bool smallConfig).Reach s := System.reach_of_run .init hrun
  refine ⟨s, hreach, hcalls, (restart_works_iff Bool smallConfig hreach hcontrol ?_).mpr ?_⟩
  · rw [hcalls]
    rfl
  · rw [hcalls]
    rfl

end Savvy.Tcp
