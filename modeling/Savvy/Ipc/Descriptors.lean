import Mathlib.Data.Fintype.Basic
import Savvy.Core.Descriptor
import Savvy.Ipc.Transport
import Savvy.Kit.Handles

/-!
Descriptors. A connect, a transport and a cancel source each hold descriptors of
the process, and the kernel hands a number out again as soon as it is closed. The
functions of the transport run here in any number of threads, call by call, and
the kernel answers as it likes. The threads keep to the rules of
`savvy/platform/ipc_cancel.h` and of the transport: a transport is connected, a
source initialised, and either of them given up only while nobody else uses it.
-/

namespace Savvy.Ipc

open Kit Kit.Prog

def descriptors : Handling Call Answer Int32 where
  names
    | .poll fds _ => fds.map (·.fd)
    | .getFlags fd | .setFlags fd _ | .setCloexec fd | .connect fd _ | .getSoError fd
    | .send fd _ | .recvmsg fd _ | .write fd | .shutdown fd | .close fd => [fd]
    | .now | .pipe | .socket => []
  closes
    | .close fd => [fd]
    | _ => []
  opens
    | .pipe, some (readFd, writeFd) => [readFd.val, writeFd.val]
    | .socket, fd => if 0 ≤ fd then [fd] else []
    | _, _ => []

def CancelSource.held (cs : CancelSource) : Set Int32 := Savvy.held cs.readFd ∪ Savvy.held cs.writeFd

/-- The two ends of a source differ, unless they are gone. -/
def CancelSource.Distinct (cs : CancelSource) : Prop := cs.readFd = cs.writeFd → cs.readFd < 0

/-! ### Operations -/

/-- The calls of the interface, on transports `ι` and cancel sources `κ`. -/
inductive Op (ι κ : Type)
  | connect (i : ι) (cancel : Option κ) (socketPath : Option (List UInt8)) (timeoutMs : UInt32)
  | send (i : ι) (bytes : List UInt8) (timeoutMs : UInt32)
  | recv (i : ι) (cap : ℕ) (timeoutMs : UInt32)
  | close (i : ι)
  | init (k : κ)
  | cancel (k : κ)
  | isCancelled (k : κ)
  | destroy (k : κ)
  deriving DecidableEq

inductive Report
  | status (st : Status)
  | record (r : Record)
  | flag (b : Bool)
  | nothing
  deriving DecidableEq

variable {ι κ : Type}

/-- A transport is known by its `impl`. -/
abbrev Held : ι ⊕ κ → Type
  | .inl _ => Int32
  | .inr _ => CancelSource

def Op.subject : Op ι κ → ι ⊕ κ
  | .connect i _ _ _ | .send i _ _ | .recv i _ _ | .close i => .inl i
  | .init k | .cancel k | .isCancelled k | .destroy k => .inr k

/-- The calls that change what they are made on. -/
def Op.exclusive : Op ι κ → Bool
  | .connect .. | .close _ | .init _ | .destroy _ => true
  | .send .. | .recv .. | .cancel _ | .isCancelled _ => false

def Op.borrows : Op ι κ → List (ι ⊕ κ)
  | .connect _ (some k) _ _ => [.inr k]
  | _ => []

/-- A transport that is open is not connected again, and a source that is there is
not initialised again. -/
def Op.Ready : Op ι κ → ((o : ι ⊕ κ) → Held o) → Prop
  | .connect i _ _ _, objects => objects (.inl i) < 0
  | .init k, objects => (objects (.inr k)).readFd < 0 ∧ (objects (.inr k)).writeFd < 0
  | _, _ => True

/-- The calls as programs, each with what it leaves of its subject. -/
def Op.prog (passes : ℕ) :
    (op : Op ι κ) → ((o : ι ⊕ κ) → Held o) → Sys (Held op.subject × Report)
  | .connect i source socketPath timeoutMs, objects => do
      let c ← clientConnectCancelable socketPath timeoutMs
        (source.map fun k => objects (.inr k)) passes
      pure (c.impl.getD (objects (.inl i)), .status c.status)
  | .send i bytes timeoutMs, objects => do
      let st ← fdTransportSend (objects (.inl i)) bytes timeoutMs passes
      pure (objects (.inl i), .status st)
  | .recv i cap timeoutMs, objects => do
      let r ← fdTransportRecv (objects (.inl i)) cap timeoutMs passes
      pure (objects (.inl i), .record r)
  | .close i, objects => do
      let impl ← fdTransportClose (objects (.inl i))
      pure (impl, .nothing)
  | .init _, _ => do
      let c ← cancelSourceInit
      pure (c.1, .status c.2)
  | .cancel k, objects => do
      let st ← cancelSourceCancel (some (objects (.inr k)))
      pure (objects (.inr k), .status st)
  | .isCancelled k, objects => do
      let b ← cancelSourceIsCancelled (some (objects (.inr k)))
      pure (objects (.inr k), .flag b)
  | .destroy k, objects => do
      let cs ← cancelSourceDestroy (objects (.inr k))
      pure (cs, .nothing)

/-- The interface of the transport, with so many passes for each wait. -/
def transportService (ι κ : Type) (passes : ℕ) :
    Service Call Answer Int32 (ι ⊕ κ) Held (Op ι κ) Report where
  handling := descriptors
  handles {o} st :=
    match o, st with
    | .inl _, impl => held impl
    | .inr _, cs => cs.held
  valid {o} st :=
    match o, st with
    | .inl _, _ => True
    | .inr _, cs => cs.Distinct
  subject := Op.subject
  exclusive := Op.exclusive
  borrows := Op.borrows
  ready := Op.Ready
  prog := Op.prog passes

/-! ### The wait names what it polls and nothing else -/

section

variable {σ : Type} {W : Contract Call Answer σ} {s : σ}

theorem check_steady (d : Deadline) (firstPollDone : Bool) (hnow : W.Steady s .now) :
    (Deadline.check d firstPollDone).Meets W s fun _ s' => s' = s := by
  unfold Deadline.check
  split
  · exact .steady hnow fun now => rfl
  · rfl

theorem polling_steady (a : PollArgs) (d : Deadline) (hnow : W.Steady s .now)
    (hpoll : ∀ timeout, W.Steady s (.poll a.pfds timeout)) (passes : ℕ) (firstPollDone : Bool) :
    (a.polling d passes firstPollDone).Meets W s fun _ s' => s' = s := by
  induction passes generalizing firstPollDone with
  | zero => trivial
  | succ passes ih =>
      refine (check_steady d firstPollDone hnow).bind ?_
      rintro expired s' rfl
      split
      · rfl
      · have hpolled : (a.polled d).Meets W s' fun _ s'' => s'' = s' :=
          .steady hnow fun now => .steady (hpoll _) fun outcome => rfl
        refine hpolled.bind ?_
        rintro verdict s'' rfl
        cases verdict with
        | some v => rfl
        | none => exact ih true

theorem pollCancelable_steady (a : PollArgs) (hnow : W.Steady s .now)
    (hpoll : ∀ timeout, W.Steady s (.poll a.pfds timeout)) (passes : ℕ) :
    (a.pollCancelable passes).Meets W s fun _ s' => s' = s :=
  .steady hnow fun _ => polling_steady a _ hnow hpoll passes false

theorem setUpEnd_steady (fd : Int32) (hget : W.Steady s (.getFlags fd))
    (hset : ∀ flags, W.Steady s (.setFlags fd flags)) (hcloexec : W.Steady s (.setCloexec fd)) :
    (setUpEnd fd).Meets W s fun _ s' => s' = s := by
  refine .steady hget fun flags => ?_
  split
  · rfl
  refine .steady (hset _) fun set => ?_
  split
  · rfl
  exact .steady hcloexec fun cloexec => rfl

end

/-! ### Each function alone -/

section

variable {fd : Int32} {lent own : Set Int32}

theorem polls_names (a : PollArgs) (timeout : Int32) :
    ∀ h ∈ descriptors.names (.poll a.pfds timeout),
      h = a.fd ∨ ∃ readFd, a.cancel = some readFd ∧ h ∈ held readFd := by
  intro h hname
  simp only [descriptors, PollArgs.pfds, List.mem_map] at hname
  cases hcancel : a.cancel with
  | none =>
      rw [hcancel] at hname
      simp only [List.mem_singleton, exists_eq_left] at hname
      exact .inl hname.symm
  | some readFd =>
      rw [hcancel] at hname
      dsimp only at hname
      split at hname
      · next hnonneg =>
          simp only [List.mem_cons, List.not_mem_nil, or_false, exists_eq_or_imp,
            exists_eq_left] at hname
          rcases hname with hname | hname
          · exact .inl hname.symm
          · exact .inr ⟨readFd, rfl, hname ▸ hnonneg, hname.symm⟩
      · simp only [List.mem_singleton, exists_eq_left] at hname
        exact .inl hname.symm

/-- A wait on a descriptor that is owned, with one that is lent. -/
theorem pollCancelable_owned (a : PollArgs) (hfd : a.fd ∈ own)
    (hcancel : ∀ readFd, a.cancel = some readFd → held readFd ⊆ lent) (passes : ℕ) :
    (a.pollCancelable passes).Meets (descriptors.owning lent) own fun _ own' => own' = own := by
  refine pollCancelable_steady a ?_ ?_ passes
  · exact Handling.steady_owning (by simp [descriptors]) rfl fun _ => rfl
  · intro timeout
    refine Handling.steady_owning ?_ rfl fun _ => rfl
    intro h hname
    rcases polls_names a timeout h hname with rfl | ⟨readFd, hsome, hheld⟩
    · exact .inl hfd
    · exact .inr (hcancel readFd hsome hheld)

/-- A wait on a descriptor that is lent. -/
theorem pollWithDeadline_lent (hfd : fd ∈ lent) (events : Int16) (timeoutMs : UInt32)
    (passes : ℕ) : (pollWithDeadline fd events timeoutMs passes).Meets
      (descriptors.borrowing lent) () fun _ _ => True := by
  refine (pollCancelable_steady _ ?_ ?_ passes).mono fun _ _ _ => trivial
  · exact Handling.steady_borrowing (by simp [descriptors]) rfl fun _ => rfl
  · intro timeout
    refine Handling.steady_borrowing ?_ rfl fun _ => rfl
    intro h hname
    rcases polls_names _ timeout h hname with rfl | ⟨readFd, hsome, -⟩
    · exact hfd
    · cases hsome

theorem meets_close {α : Type} {k : Unit → Sys α} {Q : α → Set Int32 → Prop} (hfd : fd ∈ own)
    (hk : (k ()).Meets (descriptors.owning lent) (own \ {fd}) Q) :
    (sys (.close fd) >>= k).Meets (descriptors.owning lent) own Q :=
  Handling.meets_closing rfl rfl (fun _ => rfl) hfd fun _ => hk

def Connected.held (c : Connected) : Set Int32 := c.impl.elim ∅ Savvy.held

theorem giveUp_owned (hfd : 0 ≤ fd) (status : Status) :
    (giveUp fd status).Meets (descriptors.owning lent) (held fd) fun c own => own = c.held := by
  refine meets_close (mem_held hfd) ?_
  exact held_diff fd

theorem handOver_owned (hfd : 0 ≤ fd) (flags : Int32) :
    (handOver fd flags).Meets (descriptors.owning lent) (held fd) fun c own => own = c.held := by
  refine .steady (Handling.steady_own rfl (mem_held hfd) rfl fun _ => rfl) fun restored => ?_
  split
  · exact giveUp_owned hfd .io
  · rfl

theorem awaitConnect_owned (hfd : 0 ≤ fd) (flags : Int32) (timeoutMs : UInt32)
    (cancel : Option CancelSource) (hcancel : ∀ cs, cancel = some cs → held cs.readFd ⊆ lent)
    (passes : ℕ) : (awaitConnect fd flags timeoutMs cancel passes).Meets
      (descriptors.owning lent) (held fd) fun c own => own = c.held := by
  refine (pollCancelable_owned _ (mem_held hfd) ?_ passes).bind ?_
  · intro readFd hread
    obtain ⟨cs, hcs, rfl⟩ := Option.map_eq_some_iff.mp hread
    exact hcancel cs hcs
  rintro v own rfl
  split
  · exact giveUp_owned hfd .timeout
  split
  · exact giveUp_owned hfd .cancelled
  split
  · exact giveUp_owned hfd .io
  refine .steady (Handling.steady_own rfl (mem_held hfd) rfl fun _ => rfl) fun e => ?_
  split
  · exact giveUp_owned hfd .notConnected
  · exact handOver_owned hfd flags

theorem meets_socket {α : Type} {k : Int32 → Sys α} {Q : α → Set Int32 → Prop}
    (hk : ∀ fd, (k fd).Meets (descriptors.owning lent) (held fd) Q) :
    (sys .socket >>= k).Meets (descriptors.owning lent) ∅ Q := by
  refine Handling.meets_opening rfl rfl fun fd _ => ?_
  rw [show {h | h ∈ descriptors.opens .socket fd} = held fd from held_eq_opened fd]
  exact hk fd

theorem connectSocket_owned (path : List UInt8) (timeoutMs : UInt32)
    (cancel : Option CancelSource) (hcancel : ∀ cs, cancel = some cs → held cs.readFd ⊆ lent)
    (passes : ℕ) : (connectSocket path timeoutMs cancel passes).Meets
      (descriptors.owning lent) ∅ fun c own => own = c.held := by
  refine meets_socket fun fd => ?_
  split
  · next hneg => exact held_of_neg hneg
  next hneg =>
  have hfd : 0 ≤ fd := Int32.not_lt.mp hneg
  refine .steady (Handling.steady_own rfl (mem_held hfd) rfl fun _ => rfl) fun flags => ?_
  split
  · exact giveUp_owned hfd .io
  refine .steady (Handling.steady_own rfl (mem_held hfd) rfl fun _ => rfl) fun set => ?_
  split
  · exact giveUp_owned hfd .io
  refine .steady (Handling.steady_own rfl (mem_held hfd) rfl fun _ => rfl) fun c => ?_
  split
  · exact handOver_owned hfd flags
  split
  · exact giveUp_owned hfd .notConnected
  · exact awaitConnect_owned hfd flags timeoutMs cancel hcancel passes

theorem isCancelled_owned (cancel : Option CancelSource)
    (hcancel : ∀ cs, cancel = some cs → held cs.readFd ⊆ lent) :
    (cancelSourceIsCancelled cancel).Meets (descriptors.owning lent) own
      fun _ own' => own' = own := by
  cases cancel with
  | none => rfl
  | some cs =>
      rw [cancelSourceIsCancelled]
      split
      · rfl
      · next hneg =>
          have hpoll : (descriptors.owning lent).Steady own (.poll [⟨cs.readFd, pollIn⟩] 0) := by
            refine Handling.steady_owning ?_ rfl fun _ => rfl
            intro h hname
            simp only [descriptors, List.map_cons, List.map_nil, List.mem_singleton] at hname
            rw [hname]
            exact .inr (hcancel cs rfl (mem_held (Int32.not_lt.mp hneg)))
          exact .steady hpoll fun outcome => rfl

theorem clientConnectCancelable_owned (socketPath : Option (List UInt8)) (timeoutMs : UInt32)
    (cancel : Option CancelSource) (hcancel : ∀ cs, cancel = some cs → held cs.readFd ⊆ lent)
    (passes : ℕ) : (clientConnectCancelable socketPath timeoutMs cancel passes).Meets
      (descriptors.owning lent) ∅ fun c own => own = c.held := by
  cases socketPath with
  | none => rfl
  | some path =>
      refine (isCancelled_owned cancel hcancel).bind ?_
      rintro cancelled own rfl
      split
      · rfl
      split
      · rfl
      · exact connectSocket_owned path timeoutMs cancel hcancel passes

theorem fdTransportClose_owned (impl : Int32) :
    (fdTransportClose impl).Meets (descriptors.owning lent) (held impl)
      fun impl' own => own = held impl' := by
  unfold fdTransportClose
  split
  · next hnonneg =>
      refine .steady (Handling.steady_own rfl (mem_held hnonneg) rfl fun _ => rfl) fun _ => ?_
      refine meets_close (mem_held hnonneg) ?_
      rw [pure_eq, meets_ret, held_of_neg (by decide : (-1 : Int32) < 0), held_diff]
  · next hneg =>
      rw [pure_eq, meets_ret, held_of_neg (Int32.not_le.mp hneg), held_of_neg (by decide)]

theorem held_gone : CancelSource.gone.held = ∅ := by
  rw [CancelSource.held, CancelSource.gone, held_of_neg (by decide), Set.union_self]

theorem distinct_gone : CancelSource.gone.Distinct := fun _ => by decide

theorem cancelSourceInit_owned : cancelSourceInit.Meets (descriptors.owning lent) ∅
    fun c own => own = c.1.held ∧ c.1.Distinct := by
  refine Handling.meets_opening rfl rfl ?_
  rintro (_ | ⟨⟨readFd, hread⟩, writeFd, hwrite⟩) hnodup
  · exact ⟨by simp [descriptors, held_gone], distinct_gone⟩
  have hown : {h | h ∈ descriptors.opens .pipe (some (⟨readFd, hread⟩, ⟨writeFd, hwrite⟩))} =
      {readFd, writeFd} := by
    ext h
    simp [descriptors]
  have hne : readFd ≠ writeFd := by simpa [descriptors] using hnodup
  rw [hown]
  have hsetUp (fd : Int32) (hfd : fd ∈ ({readFd, writeFd} : Set Int32)) :
      (setUpEnd fd).Meets (descriptors.owning lent) {readFd, writeFd}
        fun _ own => own = {readFd, writeFd} :=
    setUpEnd_steady fd (Handling.steady_own rfl hfd rfl fun _ => rfl)
      (fun _ => Handling.steady_own rfl hfd rfl fun _ => rfl) (Handling.steady_own rfl hfd rfl fun _ => rfl)
  have hboth : (setUpEnds readFd writeFd).Meets (descriptors.owning lent) {readFd, writeFd}
      fun _ own => own = {readFd, writeFd} := by
    refine (hsetUp readFd (by simp)).bind ?_
    rintro ok own rfl
    split
    · exact hsetUp writeFd (by simp)
    · rfl
  refine hboth.bind ?_
  rintro ok own rfl
  split
  · refine ⟨?_, fun heq => absurd heq hne⟩
    rw [CancelSource.held]
    ext h
    simp only [held, Set.mem_insert_iff, Set.mem_singleton_iff, Set.mem_union, Set.mem_ofPred_eq]
    constructor
    · rintro (rfl | rfl)
      · exact .inl ⟨hread, rfl⟩
      · exact .inr ⟨hwrite, rfl⟩
    · rintro (⟨-, rfl⟩ | ⟨-, rfl⟩)
      · exact .inl rfl
      · exact .inr rfl
  · refine meets_close (by simp) (meets_close (by simp [hne.symm]) ?_)
    refine ⟨?_, distinct_gone⟩
    rw [held_gone]
    ext h
    simp only [Set.mem_sdiff, Set.mem_insert_iff, Set.mem_singleton_iff, Set.mem_empty_iff_false]
    tauto

theorem closeEnd_owned {rest : Set Int32} (hrest : fd ∉ rest) :
    (closeEnd fd).Meets (descriptors.owning lent) (held fd ∪ rest)
      fun fd' own => own = rest ∧ fd' < 0 := by
  unfold closeEnd
  split
  · next hnonneg =>
      refine meets_close (.inl (mem_held hnonneg)) ⟨?_, by decide⟩
      ext h
      simp only [held, Set.mem_sdiff, Set.mem_union, Set.mem_ofPred_eq, Set.mem_singleton_iff]
      constructor
      · rintro ⟨⟨-, rfl⟩ | hmem, hne⟩
        · exact absurd rfl hne
        · exact hmem
      · exact fun hmem => ⟨.inr hmem, fun heq => hrest (heq ▸ hmem)⟩
  · next hneg =>
      rw [Int32.not_le] at hneg
      rw [held_of_neg hneg, Set.empty_union]
      exact ⟨rfl, hneg⟩

theorem cancelSourceDestroy_owned (cs : CancelSource) (hcs : cs.Distinct) :
    (cancelSourceDestroy cs).Meets (descriptors.owning lent) cs.held
      fun cs' own => own = cs'.held ∧ cs'.Distinct := by
  have hread : cs.readFd ∉ held cs.writeFd := by
    rintro ⟨hnonneg, heq⟩
    exact Int32.not_lt.mpr hnonneg (hcs heq)
  refine (closeEnd_owned hread).bind ?_
  rintro readFd own ⟨rfl, hreadFd⟩
  have hwrite : (closeEnd cs.writeFd).Meets (descriptors.owning lent) (held cs.writeFd)
      fun fd' own => own = ∅ ∧ fd' < 0 := by
    have h : (closeEnd cs.writeFd).Meets (descriptors.owning lent) (held cs.writeFd ∪ ∅)
        fun fd' own => own = ∅ ∧ fd' < 0 := closeEnd_owned (Set.notMem_empty cs.writeFd)
    rwa [Set.union_empty] at h
  refine hwrite.bind ?_
  rintro writeFd own ⟨rfl, hwriteFd⟩
  refine ⟨?_, fun _ => hreadFd⟩
  rw [CancelSource.held, held_of_neg hreadFd, held_of_neg hwriteFd, Set.union_self]

theorem fdTransportSend_lent {impl : Int32} (himpl : held impl ⊆ lent) (bytes : List UInt8)
    (timeoutMs : UInt32) (passes : ℕ) : (fdTransportSend impl bytes timeoutMs passes).Meets
      (descriptors.borrowing lent) () fun _ _ => True := by
  unfold fdTransportSend
  split
  · trivial
  next hneg =>
  have hfd : impl ∈ lent := himpl (mem_held (Int32.not_lt.mp hneg))
  unfold sendCapped
  split
  · trivial
  refine (pollWithDeadline_lent hfd pollOut timeoutMs passes).bind fun v _ _ => ?_
  split
  · trivial
  split
  · trivial
  split
  · trivial
  refine .steady (Handling.steady_lent rfl hfd rfl fun _ => rfl) fun n => ?_
  repeat' split
  all_goals trivial

theorem fdTransportRecv_lent {impl : Int32} (himpl : held impl ⊆ lent) (cap : ℕ)
    (timeoutMs : UInt32) (passes : ℕ) : (fdTransportRecv impl cap timeoutMs passes).Meets
      (descriptors.borrowing lent) () fun _ _ => True := by
  unfold fdTransportRecv
  split
  · trivial
  next hneg =>
  have hfd : impl ∈ lent := himpl (mem_held (Int32.not_lt.mp hneg))
  refine (pollWithDeadline_lent hfd pollIn timeoutMs passes).bind fun v _ _ => ?_
  split
  · trivial
  split
  · trivial
  split
  · trivial
  refine .steady (Handling.steady_lent rfl hfd rfl fun _ => rfl) fun msg => ?_
  repeat' split
  all_goals trivial

theorem cancelAttempts_lent (hfd : fd ∈ lent) (attempts : ℕ) :
    (cancelAttempts fd attempts).Meets (descriptors.borrowing lent) () fun _ _ => True := by
  induction attempts with
  | zero => trivial
  | succ attempts ih =>
      refine .steady (Handling.steady_lent rfl hfd rfl fun _ => rfl) fun n => ?_
      split
      · trivial
      split
      · exact ih
      split
      all_goals trivial

theorem cancelSourceCancel_lent {cs : CancelSource} (hcs : cs.held ⊆ lent) :
    (cancelSourceCancel (some cs)).Meets (descriptors.borrowing lent) () fun _ _ => True := by
  rw [cancelSourceCancel]
  split
  · trivial
  · next hneg =>
      exact cancelAttempts_lent (hcs (.inr (mem_held (Int32.not_lt.mp hneg)))) _

theorem cancelSourceIsCancelled_lent {cs : CancelSource} (hcs : cs.held ⊆ lent) :
    (cancelSourceIsCancelled (some cs)).Meets (descriptors.borrowing lent) ()
      fun _ _ => True := by
  rw [cancelSourceIsCancelled]
  split
  · trivial
  · next hneg =>
      have hfd : cs.readFd ∈ lent := hcs (.inl (mem_held (Int32.not_lt.mp hneg)))
      exact .steady (Handling.steady_lent rfl hfd rfl fun _ => rfl) fun outcome => trivial

end

/-! ### All of them together -/

/-- Each function keeps to the descriptors of what it is called on. -/
theorem transportService_tidy (passes : ℕ) : (transportService ι κ passes).Tidy where
  exclusive op objects hexcl hvalid hready hapart := by
    cases op with
    | connect i source socketPath timeoutMs =>
        have himpl : objects (.inl i) < 0 := hready
        have hnone : held (objects (.inl i)) = ∅ := held_of_neg himpl
        have hcancel (cs : CancelSource) (hcs : source.map (fun k => objects (.inr k)) = some cs) :
            held cs.readFd ⊆ (transportService ι κ passes).lent
              (.connect i source socketPath timeoutMs) objects := by
          obtain ⟨k, rfl, rfl⟩ := Option.map_eq_some_iff.mp hcs
          intro h hheld
          exact ⟨.inr k, List.mem_singleton.mpr rfl, .inl hheld⟩
        have hconnect := clientConnectCancelable_owned socketPath timeoutMs _ hcancel passes
        rw [← hnone] at hconnect
        refine hconnect.bind ?_
        rintro ⟨status, impl⟩ own rfl
        cases impl with
        | none => exact ⟨hnone.symm, trivial⟩
        | some fd => exact ⟨rfl, trivial⟩
    | close i =>
        refine (fdTransportClose_owned (objects (.inl i))).bind ?_
        rintro impl own rfl
        exact ⟨rfl, trivial⟩
    | init k =>
        have hnone : (objects (.inr k)).held = ∅ := by
          rw [CancelSource.held, held_of_neg hready.1, held_of_neg hready.2, Set.union_self]
        have hinit : cancelSourceInit.Meets
            (descriptors.owning ((transportService ι κ passes).lent (.init k) objects))
            (objects (.inr k)).held fun c own => own = c.1.held ∧ c.1.Distinct :=
          hnone ▸ cancelSourceInit_owned
        exact hinit.bind fun c own hown => hown
    | destroy k =>
        exact (cancelSourceDestroy_owned (objects (.inr k)) (hvalid (.inr k))).bind
          fun cs own hown => hown
    | send i bytes timeoutMs => cases hexcl
    | recv i cap timeoutMs => cases hexcl
    | cancel k => cases hexcl
    | isCancelled k => cases hexcl
  shared op objects hshared := by
    cases op with
    | send i bytes timeoutMs =>
        exact (fdTransportSend_lent Set.subset_union_left bytes timeoutMs passes).bind
          fun _ _ _ => trivial
    | recv i cap timeoutMs =>
        exact (fdTransportRecv_lent Set.subset_union_left cap timeoutMs passes).bind
          fun _ _ _ => trivial
    | cancel k =>
        exact (cancelSourceCancel_lent Set.subset_union_left).bind fun _ _ _ => trivial
    | isCancelled k =>
        exact (cancelSourceIsCancelled_lent Set.subset_union_left).bind fun _ _ _ => trivial
    | connect i source socketPath timeoutMs => cases hshared
    | close i => cases hshared
    | init k => cases hshared
    | destroy k => cases hshared

def unconnected : (o : ι ⊕ κ) → Held o
  | .inl _ => -1
  | .inr _ => .gone

variable [DecidableEq ι] [DecidableEq κ] {τ : Type} [DecidableEq τ] {μ : Type}

/-- Threads `τ` that call the interface, and a kernel in the state `kernel`. -/
def transportSystem (ι κ τ : Type) [DecidableEq ι] [DecidableEq κ] [DecidableEq τ] (passes : ℕ)
    (kernel : μ) (respond : μ → (c : Call) → Answer c → Option μ) :
    System (Pool (transportService ι κ passes) τ μ) (PoolAct Call Answer (Op ι κ) τ) :=
  (transportService ι κ passes).pool unconnected kernel respond

/-- No call of the transport goes astray, in any interleaving and for any answers
of the kernel, as long as the callers keep what they promise: a connect, a close, an
init and a destroy have their object for themselves, a connect is made with a
transport that is not open, and an init with a source that is not in use. Each
system call names descriptors that are open and belong to what
the function is called on, and a descriptor is closed only by a function that gives
its own up. What is open for a transport or a source that nobody is changing is
what its fields say, so when all of them are given up nothing is left open. -/
theorem descriptors_safe (passes : ℕ) (kernel : μ)
    (respond : μ → (c : Call) → Answer c → Option μ) (s : Pool (transportService ι κ passes) τ μ)
    (h : (transportSystem ι κ τ passes kernel respond).ReachBy
      (transportService ι κ passes).Promised s) :
    (∀ t op c, s.calling t = some (op, c) →
      (∀ fd ∈ descriptors.names c,
        ∃ o, (o = op.subject ∨ o ∈ op.borrows) ∧ s.table fd = some o) ∧
      ∀ fd ∈ descriptors.closes c, s.table fd = some op.subject ∧ op.exclusive = true) ∧
    (∀ i, (transportService ι κ passes).Idle s (.inl i) →
      ∀ fd, s.table fd = some (.inl i) ↔ 0 ≤ fd ∧ fd = s.objects (.inl i)) ∧
    (∀ k, (transportService ι κ passes).Idle s (.inr k) →
      ∀ fd, s.table fd = some (.inr k) ↔
        0 ≤ fd ∧ (fd = (s.objects (.inr k)).readFd ∨ fd = (s.objects (.inr k)).writeFd)) ∧
    ((∀ t, s.tasks t = none) → (∀ i, s.objects (.inl i) < 0) →
      (∀ k, (s.objects (.inr k)).readFd < 0 ∧ (s.objects (.inr k)).writeFd < 0) →
      ∀ fd, s.table fd = none) := by
  have hnone (o : ι ⊕ κ) : (transportService ι κ passes).handles (unconnected o) = ∅ := by
    cases o with
    | inl i => exact held_of_neg (show (-1 : Int32) < 0 by decide)
    | inr k => exact held_gone
  have hvalid (o : ι ⊕ κ) : (transportService ι κ passes).valid (unconnected o) := by
    cases o with
    | inl i => trivial
    | inr k => exact distinct_gone
  have hi := Service.poolInv_of_reach (transportService_tidy passes) hnone hvalid h
  have htransport (i : ι) (hidle : (transportService ι κ passes).Idle s (.inl i)) (fd : Int32) :
      s.table fd = some (.inl i) ↔ 0 ≤ fd ∧ fd = s.objects (.inl i) := hi.idle _ hidle fd
  have hsource (k : κ) (hidle : (transportService ι κ passes).Idle s (.inr k)) (fd : Int32) :
      s.table fd = some (.inr k) ↔
        0 ≤ fd ∧ (fd = (s.objects (.inr k)).readFd ∨ fd = (s.objects (.inr k)).writeFd) := by
    rw [and_or_left]
    exact hi.idle _ hidle fd
  refine ⟨fun t op c ht => hi.call_owned ht, htransport, hsource, ?_⟩
  intro hquiet hclosed hgone fd
  have hidle (o : ι ⊕ κ) : (transportService ι κ passes).Idle s o := by
    intro t op p ht
    rw [hquiet t] at ht
    cases ht
  cases hopen : s.table fd with
  | none => rfl
  | some o =>
      cases o with
      | inl i =>
          obtain ⟨hnonneg, rfl⟩ := (htransport i (hidle _) fd).mp hopen
          exact absurd (hclosed i) (Int32.not_lt.mpr hnonneg)
      | inr k =>
          obtain ⟨hnonneg, rfl | rfl⟩ := (hsource k (hidle _) fd).mp hopen
          · exact absurd (hgone k).1 (Int32.not_lt.mpr hnonneg)
          · exact absurd (hgone k).2 (Int32.not_lt.mpr hnonneg)

instance (op : Op ι κ) (objects : (o : ι ⊕ κ) → Held o) : Decidable (op.Ready objects) :=
  match op with
  | .connect i _ _ _ => inferInstanceAs (Decidable (objects (.inl i) < 0))
  | .init k => inferInstanceAs (Decidable ((objects (.inr k)).readFd < 0 ∧ _ < 0))
  | .send .. | .recv .. | .close _ | .cancel _ | .isCancelled _ | .destroy _ => .isTrue trivial

instance (passes : ℕ) (op : Op ι κ) (objects : (o : ι ⊕ κ) → Held o) :
    Decidable ((transportService ι κ passes).ready op objects) :=
  inferInstanceAs (Decidable (op.Ready objects))

/-- A kernel where everything succeeds, and which opens descriptor 3. -/
def kernelOfThree : (c : Call) → Answer c
  | .now => 0
  | .poll _ _ => ⟨1, 0, 0, 0⟩
  | .pipe => none
  | .socket => 3
  | .getFlags _ => 2
  | .setFlags _ _ | .setCloexec _ => 0
  | .connect _ _ | .send _ _ | .write _ => ⟨0, 0⟩
  | .getSoError _ => ⟨0, 0⟩
  | .recvmsg _ _ => ⟨0, false, []⟩
  | .shutdown _ | .close _ => ()

/-- One transport is connected and closed, and then another is connected. -/
def reconnecting : List (PoolAct Call Answer (Op Bool Unit) Unit) :=
  .start () (.connect true none (some [47]) 100) ::
    List.replicate 5 (.answer () kernelOfThree) ++
    [.finish (), .start () (.close true), .answer () kernelOfThree, .answer () kernelOfThree,
      .finish (), .start () (.connect false none (some [47]) 100), .answer () kernelOfThree]

/-- The second transport works on the descriptor that the first one has given up. -/
theorem descriptors_safe_reused :
    ∃ s : Pool (transportService Bool Unit 4) Unit Unit,
      s.calling () = some (.connect false none (some [47]) 100, .getFlags 3) ∧
      s.objects (.inl true) = -1 ∧ s.table 3 = some (.inl false) := by
  obtain ⟨s, hrun, hs⟩ := Option.map_eq_some_iff.mp
    (show ((transportSystem Bool Unit Unit 4 () fun _ _ _ => some ()).runBy
        (transportService Bool Unit 4).Promised
        (transportSystem Bool Unit Unit 4 () fun _ _ _ => some ()).init reconnecting).map
          (fun s => (s.calling (), s.objects (.inl true))) =
        some (some (.connect false none (some [47]) 100, .getFlags 3), -1) by
      decide +kernel)
  simp only [Prod.mk.injEq] at hs
  obtain ⟨hcall, hclosed⟩ := hs
  obtain ⟨howned, -⟩ := descriptors_safe 4 () _ s (System.reachBy_of_runBy .init hrun)
  obtain ⟨o, ho, htable⟩ := (howned () _ _ hcall).1 3 (by decide)
  refine ⟨s, hcall, hclosed, ?_⟩
  simp only [Op.subject, Op.borrows, List.not_mem_nil, or_false] at ho
  rw [htable, ho]

end Savvy.Ipc
