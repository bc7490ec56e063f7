import Savvy.Stream.Records

/-!
Who releases the records of a session's sends. A record goes with its request,
so what `Tcp.Completion` says about the requests decides what becomes of the
records: a rejected send frees its own, a completed request's callback frees the
request's, and a request that the cancel of a stop drops takes its record with it.
-/

namespace Savvy.Stream

open Kit Tcp

variable {ι : Type*} [DecidableEq ι] {cfg : ChannelConfig}

/-! ### Whole runs -/

structure SendsInv (s : Sends cfg ι) : Prop where
  flow : Flow cfg s.requests
  ledger : Ledger s.requests
  records : Records s
  unstarted : s.phase ≠ .started → s.requests = .started cfg

omit [DecidableEq ι] in
theorem SendsInv.created (session : Session cfg.arch) :
    SendsInv (.created session : Sends cfg ι) :=
  ⟨.started, .started, .created session, fun _ => rfl⟩

/-- A step is one of the channel, or leaves the channel alone. -/
theorem requests_of_moves {s s' : Sends cfg ι} {a : SendAct cfg.arch ι} (h : SendsInv s)
    (hm : SendMoves s a s') :
    s'.requests = s.requests ∧ (s.phase = .started → s'.phase = .started) ∨
      s.phase = .started ∧ s'.phase = .started ∧
        ∃ a', s.requests.step cfg a' = some s'.requests ∧
          (a' = .stopCancel → a = .channel .stopCancel) := by
  cases hm with
  | advance _ _ => exact .inl ⟨rfl, id⟩
  | allocate _ => exact .inl ⟨rfl, id⟩
  | refused _ _ => exact .inl ⟨rfl, id⟩
  | free _ => exact .inl ⟨rfl, id⟩
  | phase hphase =>
      exact .inl ⟨rfl, fun hstarted => absurd (hphase.symm.trans hstarted) (by simp)⟩
  | submit _ hphase hstep => exact .inr ⟨hphase, hphase, _, hstep, by simp⟩
  | ret _ hsub hstep =>
      -- nobody is inside a channel that is not started
      have hphase : s.phase = .started := by
        by_contra hphase
        rw [h.unstarted hphase] at hsub
        cases hsub
      exact .inr ⟨hphase, hphase, _, hstep, by simp⟩
  | quiet hphase _ hstep => exact .inr ⟨hphase, hphase, _, hstep, fun heq => by rw [heq]⟩
  | @process env item requests hphase _ hstep =>
      obtain ⟨hreq, -, -, -, hphase'⟩ := onComplete_frame { s with requests } item.request
      refine .inr ⟨hphase, hphase'.trans hphase, .process env, ?_, by simp⟩
      rw [hreq]
      exact hstep

theorem SendsInv.moves {s s' : Sends cfg ι} {a : SendAct cfg.arch ι} (h : SendsInv s)
    (hm : SendMoves s a s') : SendsInv s' := by
  have hrecords := h.records.moves h.flow h.ledger hm
  rcases requests_of_moves h hm with ⟨hsame, hphase⟩ | ⟨-, hphase, a', hstep, -⟩
  · refine ⟨hsame ▸ h.flow, hsame ▸ h.ledger, hrecords, fun hne => ?_⟩
    rw [hsame]
    exact h.unstarted fun hstarted => hne (hphase hstarted)
  · have hchannel := moves_of_step h.flow.holds hstep
    exact ⟨h.flow.moves hchannel, h.ledger.moves h.flow hchannel, hrecords,
      fun hne => absurd hphase hne⟩

theorem sendsInv {B : Bz2} {session : Session cfg.arch} {s : Sends cfg ι}
    (h : (sendSystem ι B session).Reach s) : SendsInv s :=
  System.Reach.invariant (.created session) (fun _ _ _ hinv hs => hinv.moves (sendMoves_of_step hs)) h

theorem ctx_of_moves {s s' : Sends cfg ι} {a : SendAct cfg.arch ι} (hm : SendMoves s a s') {r : ℕ}
    (hr : r < s.requests.nextRequest) : s'.ctx r = s.ctx r := by
  cases hm with
  | submit _ _ _ => exact Function.update_of_ne (Nat.ne_of_lt hr) _ _
  | @process _ item requests _ _ _ =>
      rw [(onComplete_frame { s with requests } item.request).2.2.2.1]
  | _ => rfl

/-- A request is dropped only by the cancel of a stop, if it is queued then. -/
theorem cancelled_of_step {q q' : Requests ι} {a : Act ι} (hf : Flow cfg q)
    (h : q.step cfg a = some q') :
    q'.cancelled = q.cancelled ∨ a = .stopCancel ∧ q'.cancelled = q.cancelled ++ q.queued cfg := by
  have hdropped : Requests.destroyed (q.queue.buffered cfg.arch) = q.queued cfg := by
    rw [hf.holds.buffered_eq, destroyed_map_some]
    rfl
  cases a with
  | stopCancel =>
      simp only [Requests.step, Requests.stopStep] at h
      split at h
      · obtain rfl := Option.some.inj h
        refine .inr ⟨rfl, ?_⟩
        rw [← hdropped]
        rfl
      · cases h
  | destroy =>
      simp only [Requests.step, Requests.stopStep] at h
      split at h
      · next hstop =>
          obtain rfl := Option.some.inj h
          have hclosed : q.queue.closed = true := hf.closed_iff.trans (by rw [hstop]; rfl)
          left
          rw [hdropped, hf.drained hclosed, List.append_nil]
      · cases h
  | process env =>
      simp only [Requests.step, Requests.workerStep] at h
      split at h
      · obtain ⟨p, -, rfl⟩ := Option.map_eq_some_iff.mp h
        exact .inl rfl
      · cases h
  | _ =>
      simp only [Requests.step, Requests.submitStep, Requests.workerStep, Requests.stopStep] at h
      repeat' split at h
      all_goals first
        | (obtain rfl := Option.some.inj h; exact .inl rfl)
        | cases h

def SendAct.isCancel {A : Arch} : SendAct A ι → Bool
  | .channel .stopCancel => true
  | _ => false

def NothingDropped (s : Sends cfg ι) (a : SendAct cfg.arch ι) : Prop :=
  a.isCancel = true → ∀ r ∈ s.requests.queued cfg, s.ctx r = none

instance (s : Sends cfg ι) (a : SendAct cfg.arch ι) : Decidable (NothingDropped s a) :=
  inferInstanceAs (Decidable (a.isCancel = true → ∀ r ∈ s.requests.queued cfg, s.ctx r = none))

theorem nothingDropped_cancelled {B : Bz2} {session : Session cfg.arch} {s : Sends cfg ι}
    (h : (sendSystem ι B session).ReachBy NothingDropped s) :
    ∀ r ∈ s.requests.cancelled, s.ctx r = none := by
  have hboth : SendsInv s ∧ ∀ r ∈ s.requests.cancelled, s.ctx r = none := by
    refine System.ReachBy.invariant
      (I := fun s => SendsInv s ∧ ∀ r ∈ s.requests.cancelled, s.ctx r = none)
      ⟨.created session, by simp [sendSystem, Sends.created, Requests.started]⟩ ?_ h
    rintro s a s' ⟨hinv, hnone⟩ hok hs
    have hm := sendMoves_of_step hs
    refine ⟨hinv.moves hm, fun r hr => ?_⟩
    have haccepted (hmem : r ∈ s.requests.accepted) : s'.ctx r = s.ctx r :=
      ctx_of_moves hm (hinv.ledger.books.copies_lt r
        (hinv.ledger.books.accepted_copied r hmem))
    have hold (hmem : r ∈ s.requests.cancelled) : s'.ctx r = none := by
      rw [haccepted, hnone r hmem]
      rw [hinv.flow.order]
      simp [hmem]
    rcases requests_of_moves hinv hm with ⟨hsame, -⟩ | ⟨-, -, a', hstep, ha'⟩
    · exact hold (hsame ▸ hr)
    · rcases cancelled_of_step hinv.flow hstep with hsame | ⟨hcancel, hgrown⟩
      · exact hold (hsame ▸ hr)
      · obtain rfl := ha' hcancel
        rw [hgrown] at hr
        rcases List.mem_append.mp hr with hr | hr
        · exact hold hr
        · rw [haccepted, hok rfl r hr]
          rw [hinv.flow.order]
          simp [hr]
  exact hboth.2

/-! ### Releasing -/

/-- Every record is released, once the session is destroyed and no send is left in
the middle. -/
def AllReleased (s : Sends cfg ι) : Prop :=
  s.gone = true → (∀ i, (s.send i).record = none) → ∀ p < s.records.length, p ∈ s.released

/-- The rest of what a session promises about its records and its `on_sent`. -/
structure SendsKept (B : Bz2) (s : Sends cfg ι) : Prop where
  /-- A record is released at most once. -/
  released_once : s.released.Nodup ∧ ∀ p ∈ s.released, p < s.records.length
  /-- A completion callback runs on a record that is not released. -/
  callback_live : ∀ item p, s.requests.worker = .processing item → s.ctx item.request = some p →
    p < s.records.length ∧ p ∉ s.released
  /-- `on_sent` is invoked at most once, and only for a request that was accepted
  and not dropped. -/
  sent_once : s.sent.Nodup
  sent_accepted : ∀ p ∈ s.sent, s.records[p]? = some true ∧
    ∃ r ∈ s.requests.accepted, r ∉ s.requests.cancelled ∧ s.ctx r = some p
  /-- Behind a stop it has been invoked for all of these; until then the worker can
  go on. -/
  sent_all : s.requests.stop = .returned ∨ s.requests.stop = .destroyed →
    ∀ r ∈ s.requests.accepted, r ∉ s.requests.cancelled → ∀ p, s.ctx r = some p →
      s.records[p]? = some true → p ∈ s.sent
  progress : ∀ r ∈ s.requests.accepted, r ∉ s.requests.completed → r ∉ s.requests.cancelled →
    ∃ a s', a.isWorker = true ∧ s.step B (.channel a) = some s'

theorem channelStep_of_worker {s : Sends cfg ι} {a : Act ι} {requests : Requests ι}
    (ha : a.isWorker = true) (h : s.requests.step cfg a = some requests) :
    ∃ s', s.channelStep a = some s' := by
  cases a with
  | process env =>
      have hworker : ∃ item, s.requests.worker = .processing item := by
        simp only [Requests.step, Requests.workerStep] at h
        split at h
        · next item hw => exact ⟨item, hw⟩
        · cases h
      obtain ⟨item, hw⟩ := hworker
      exact ⟨_, by simp only [Sends.channelStep, hw, h, Option.map_some]; rfl⟩
  | pop | free | exit => exact ⟨_, by simp only [Sends.channelStep, h, Option.map_some]; rfl⟩
  | _ => cases ha

theorem SendsInv.kept {B : Bz2} {s : Sends cfg ι} (h : SendsInv s) : SendsKept B s := by
  obtain ⟨hf, hl, hrec, hunstarted⟩ := h
  have hb := hrec.books
  obtain ⟨hcur, hdone, -⟩ := hf.disjoint hl.books.accepted_nodup
  refine ⟨⟨hb.released_nodup, hb.released_lt⟩, fun item p hw hp => ?_, hb.sent_nodup,
    fun p hp => ?_, fun hstop r hr hkept p hp hsent => ?_, fun r hr hopen hkept => ?_⟩
  · have hmem : item.request ∈ s.requests.worker.current := by simp [hw, WorkerPc.current]
    have hacc : item.request ∈ s.requests.accepted := by
      rw [hf.order]
      simp [hmem]
    refine ⟨(hb.ctx_lt _ p hp).2, ?_⟩
    rw [hb.released_iff _ hacc p hp]
    exact (hcur _ hmem).1
  · obtain ⟨hsent, r, hr, hctx⟩ := (hb.sent_iff p).mp hp
    refine ⟨hsent, r, ?_, hdone r hr, hctx⟩
    rw [hf.order]
    simp [hr]
  · -- behind a stop a request is completed or dropped
    have hexit := hf.exited hstop
    have hclosed := hf.leaving (by simp [hexit, WorkerPc.leaving])
    rw [hf.order, hexit, hf.drained hclosed] at hr
    simp only [WorkerPc.current, List.append_nil, List.mem_append, hkept, or_false] at hr
    exact (hb.sent_iff p).mpr ⟨hsent, r, hr, hp⟩
  · obtain ⟨a, requests, ha, hstep⟩ := hf.progress hr hopen hkept
    obtain ⟨s', hs'⟩ := channelStep_of_worker ha hstep
    have hphase : s.phase = .started := by
      by_contra hphase
      rw [hunstarted hphase] at hr
      cases hr
    exact ⟨a, s', ha, by simp only [Sends.step, if_pos hphase, hs']⟩

omit [DecidableEq ι] in
theorem SendsInv.allReleased {s : Sends cfg ι} (h : SendsInv s)
    (hnone : ∀ r ∈ s.requests.cancelled, s.ctx r = none) : AllReleased s := by
  obtain ⟨hf, hl, hrec, hunstarted⟩ := h
  intro hgone hidle p hp
  rcases hrec.accounted p hp with hrel | ⟨i, hi⟩ | ⟨r, hr, hctx⟩
  · exact hrel
  · rw [hidle i] at hi
    cases hi
  · by_cases hphase : s.phase = .started
    · have hstop : s.requests.stop = .destroyed := by
        simpa [Sends.gone, hphase] using hgone
      have hexit := hf.exited (.inr hstop)
      have hclosed := hf.leaving (by simp [hexit, WorkerPc.leaving])
      rw [hrec.books.released_iff r hr p hctx]
      rw [hf.order, hexit, hf.drained hclosed] at hr
      simp only [WorkerPc.current, List.append_nil, List.mem_append] at hr
      rcases hr with hdone | hdropped
      · exact hdone
      · rw [hnone r hdropped] at hctx
        cases hctx
    · rw [hunstarted hphase] at hr
      cases hr

theorem length_plainSerial : (List.replicate 14 (65 : UInt8)).length = 14 := rfl

/-- A Stream session without payload, and its channel. -/
def pirinConfig : ChannelConfig where
  arch := .lp64
  parseBuf := List.replicate 26 0
  queueCapacity := 4
  itemSize := 40
  capacity_pos := by decide
  itemSize_ge := smallConfig.itemSize_ge
  no_overflow := by decide

def pirinSession : Session pirinConfig.arch where
  role := .stream
  compress := 0
  maxPayloadSize := 0
  deviceSerial := List.replicate 14 65
  encodeBuf := List.replicate 26 0
  maxPacketSize := 26
  serial_length := length_plainSerial
  encodeBuf_lt := by decide

def pirinAccepted : List (SendAct .lp64 Unit) :=
  [.start, .send () .pirin true, .encode (), .malloc () true, .submit (), .channel (.enter () false),
    .channel (.check ()), .channel (.copy () true), .channel (.tryPush ()), .ret (), .done ()]

def pirinDestroyed : List (SendAct .lp64 Unit) :=
  [.channel .stopLifecycle, .channel .stopFlag, .channel .stopCancel, .channel .pop,
    .channel .exit, .channel .stopJoin, .channel .destroy]

/-- The worker gets to it first. -/
def pirinServed : List (SendAct .lp64 Unit) :=
  pirinAccepted ++ [.channel .pop, .channel (.process stoppingEnv), .channel .free] ++
    pirinDestroyed

/-- The session is destroyed at once. -/
def pirinDropped : List (SendAct .lp64 Unit) := pirinAccepted ++ pirinDestroyed

end Savvy.Stream
