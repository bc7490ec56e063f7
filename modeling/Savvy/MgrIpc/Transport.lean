import Savvy.MgrIpc.Link
import Savvy.MgrIpc.Safety

/-!
The steps of the client on its transports. The worker is the only thread that
opens and closes them, and what it knows of the connection state and of the
transport is fixed by where it stands; the senders only come in between while
the client is connected. Hence every transport goes through its protocol.
-/

namespace Savvy.MgrIpc

open Kit

def Wrk.stand : Wrk → Stand
  | .setTransport n => .given n
  | .recheck | .hsBuild | .hsState | .closeState .shutdown | .closeLock .shutdown => .fresh
  | .hsSend => .greet
  | .hsCall => .greeting
  | .hsDone ok => .greeted ok
  | .callback .connected | .callback .envelope | .recvTop | .recvState => .session
  | .recvLock => .polling
  | .recvCall => .receiving
  | .closeState .handshake | .closeLock .handshake => .failing
  | .closeState .session | .closeLock .session => .leaving
  | .closeCall _ => .closing
  | _ => .away

def Api.sender : Api → Sender
  | .sendLock => .locked
  | .sendCall => .sending
  | _ => .none

def Client.toLink {ι : Type*} (s : Client ι) : Link ι where
  vars := s.link
  worker := s.life.workerThread
  stand := (s.wrk s.life.workerThread).stand
  sender t := (s.api t).sender

theorem Wrk.Woken.stand {pc pc' : Wrk} (h : pc.Woken pc') : pc'.stand = pc.stand := by
  rcases h with rfl | rfl | rfl
  · rfl
  · cases pc <;> rfl
  · cases pc <;> rfl

theorem Api.Woken.sender {pc pc' : Api} (h : pc.Woken pc') : pc'.sender = pc.sender := by
  rcases h with rfl | rfl | rfl
  · rfl
  · cases pc <;> rfl
  · cases pc <;> rfl

theorem Wrk.holds_of_stand (pc : Wrk) :
    (pc.stand = .polling ∨ pc.stand = .closing → .state ∈ pc.holds) ∧
      (pc.stand = .receiving ∨ pc.stand = .closing → .io ∈ pc.holds) := by
  cases pc with
  | closeState k => cases k <;> simp [Wrk.stand]
  | closeLock k => cases k <;> simp [Wrk.stand]
  | callback k => cases k <;> simp [Wrk.stand]
  | _ => simp [Wrk.stand, Wrk.holds]

theorem Wrk.stand_of_ended {pc : Wrk} (h : pc.stage.live = false) : pc.stand = .away := by
  cases pc <;> first | rfl | cases h

@[simp] theorem Api.sender_first (op : Op) : (Api.first op).sender = .none := by
  cases op <;> rfl

@[simp] theorem Api.sender_stopped (k : StopFor) : (Api.stopped k).sender = .none := by
  cases k <;> rfl

@[simp] theorem Api.sender_stopFailed (k : StopFor) : (Api.stopFailed k).sender = .none := by
  cases k <;> rfl

namespace Client

variable {ι : Type*} [DecidableEq ι] {s s' : Client ι} {t : Tid ι} {c : Choice}

/-- The places from which a call touches the transports. -/
def touches : Api → Bool
  | .startCreate | .stopMarkSelf _ | .stopMark _ _ | .sendState | .sendLock | .sendCall => true
  | _ => false

/-- Elsewhere a call neither touches a transport nor begins to send. -/
theorem apiStep_link (hq : touches (s.api t) = false) (h : s.apiStep t c = some s') :
    s'.link = s.link ∧ (s'.api t).sender = .none := by
  cases moves_of_apiStep h
  all_goals
    rename_i hpc
    try (rw [hpc] at hq; cases hq)
  all_goals try simp only [enter, unpin, returned, noteDestroy, startTop, startCheck, startRelock,
    requestShutdown, stopEntry, stopWoken, stopFinish, claimRegistry, selfCheck, unclaimRegistry,
    drainTest, unregister, note]
  all_goals repeat' split
  all_goals refine ⟨rfl, ?_⟩
  all_goals rw [goto_api]
  all_goals first | rfl | simp only [Api.sender_first, Api.sender_stopped, Api.sender_stopFailed]

theorem toLink_apiStep (hq : touches (s.api t) = false) (h : s.apiStep t c = some s') :
    s'.toLink = s.toLink := by
  obtain ⟨hlink, hsender⟩ := apiStep_link hq h
  rcases apiStep_wrk h with ⟨hw, hwake⟩ | ⟨hpc, -⟩
  · ext1
    · exact hlink
    · exact hw
    · show (s'.wrk s'.life.workerThread).stand = _
      rw [hw]
      exact (hwake _).stand
    · funext u
      by_cases hu : u = t
      · subst hu
        refine hsender.trans ?_
        show _ = (s.api u).sender
        cases hpc : s.api u <;> first | rfl | (rw [hpc] at hq; cases hq)
      · exact (apiStep_api h hu).sender
  · rw [hpc] at hq
    cases hq

/-! ### What the locks tell -/

variable {cfg : Config}

theorem not_locked (halone : (client ι cfg).Alone s t)
    (hl : .state ∈ s.holds t ∨ s.needs t = some .state) {u : Tid ι} (hu : u ≠ t) :
    s.toLink.sender u ≠ .locked := by
  intro hs
  have hpc : s.api u = .sendLock := by
    change (s.api u).sender = .locked at hs
    cases hpc : s.api u <;> first | rfl | (rw [hpc] at hs; cases hs)
  refine halone .state hl u hu ?_
  show Lock.state ∈ s.holds u
  cases u <;> simp [holds, hpc, Api.holds]

theorem not_sending (halone : (client ι cfg).Alone s t)
    (hl : .io ∈ s.holds t ∨ s.needs t = some .io) {u : Tid ι} (hu : u ≠ t) :
    s.toLink.sender u ≠ .sending := by
  intro hs
  have hpc : s.api u = .sendCall := by
    change (s.api u).sender = .sending at hs
    cases hpc : s.api u <;> first | rfl | (rw [hpc] at hs; cases hs)
  refine halone .io hl u hu ?_
  show Lock.io ∈ s.holds u
  cases u <;> simp [holds, hpc, Api.holds]

theorem worker_not_holding (halone : (client ι cfg).Alone s t)
    (hcall : ∀ g, t = .wrk g → ∃ k, s.wrk g = .callback k) {l : Lock}
    (hl : l ∈ s.holds t ∨ s.needs t = some l) (g : ℕ) : l ∉ (s.wrk g).holds := by
  by_cases ht : t = .wrk g
  · obtain ⟨k, hk⟩ := hcall g ht
    rw [hk]
    exact List.not_mem_nil
  · intro hheld
    exact halone l hl (.wrk g) (Ne.symm ht) (List.mem_append_right _ hheld)

omit [DecidableEq ι] in
theorem holds_of_api {l : Lock} (h : l ∈ (s.api t).holds) : l ∈ s.holds t := by
  cases t with
  | ext i => exact h
  | wrk g => exact List.mem_append_left _ h

omit [DecidableEq ι] in
theorem needs_of_api {l : Lock} (h : (s.api t).needs = some l) : s.needs t = some l := by
  cases t with
  | ext i => exact h
  | wrk g => simp [needs, h]

/-! ### The steps of a call -/

theorem toLink_goto (s : Client ι) (t : Tid ι) (pc : Api) : (s.goto t pc).toLink =
    { s.toLink with sender := Function.update s.toLink.sender t pc.sender } := by
  ext1
  · rfl
  · rfl
  · rfl
  · funext u
    by_cases hu : u = t
    · subst hu
      simp [toLink, goto]
    · simp [toLink, goto, hu]

theorem toLink_goto_none {pc : Api} (h : (s.api t).sender = .none) (hpc : pc.sender = .none) :
    (s.goto t pc).toLink = s.toLink := by
  have hnone : s.toLink.sender t = .none := h
  rw [toLink_goto, hpc, ← hnone, Function.update_eq_self]

omit [DecidableEq ι] in
theorem markTransportStopping_api (s : Client ι) : s.markTransportStopping.api = s.api := by
  unfold markTransportStopping
  split
  · rfl
  · rfl

theorem link_markTransportStopping (hl : s.toLink.Inv) (halone : (client ι cfg).Alone s t)
    (hcall : ∀ g, t = .wrk g → ∃ k, s.wrk g = .callback k)
    (hneed : (s.api t).needs = some .state) (hnone : (s.api t).sender = .none) :
    s.markTransportStopping.toLink.Inv := by
  unfold markTransportStopping
  split
  · next hne =>
      have huse : Lock.state ∈ s.holds t ∨ s.needs t = some .state := .inr (needs_of_api hneed)
      have hstop : .stopping ∈ s.toLink.stand.states := by
        refine Stand.stopping_mem hl.state hne ?_
        intro hpoll
        exact worker_not_holding halone hcall huse s.life.workerThread
          ((Wrk.holds_of_stand _).1 (.inl hpoll))
      refine hl.turn .stopping s.link.hasConnectedBefore rfl rfl (List.Subset.refl _) hstop ?_
      intro u hu
      exfalso
      by_cases hut : u = t
      · rw [hut] at hu
        exact absurd (hnone.symm.trans hu) nofun
      · exact not_locked halone huse hut hu
  · exact hl

theorem link_sendState (hl : s.toLink.Inv) (hpc : s.api t = .sendState) :
    (s.sendState t).toLink.Inv := by
  have hnone : (s.api t).sender = .none := by rw [hpc]; rfl
  unfold sendState
  split
  · rw [toLink_goto_none hnone rfl]
    exact hl
  · next hstate =>
      rw [toLink_goto]
      refine hl.lock ?_ (not_not.mp hstate)
      rw [show s.toLink.sender t = .none from hnone]
      nofun

/-- A sender that has the locks finds the transport ready. -/
theorem link_sendLock (hl : s.toLink.Inv) (halone : (client ι cfg).Alone s t)
    (hcall : ∀ g, t = .wrk g → ∃ k, s.wrk g = .callback k) (hpc : s.api t = .sendLock) :
    ((s.noteIo (.sendBegin s.link.transport .report)).goto t .sendCall).toLink.Inv := by
  have hstate : Lock.state ∈ s.holds t ∨ s.needs t = some .state :=
    .inl (holds_of_api (by rw [hpc]; exact List.mem_singleton_self _))
  have hio : Lock.io ∈ s.holds t ∨ s.needs t = some .io :=
    .inr (needs_of_api (by rw [hpc]; rfl))
  have hlocked : s.toLink.sender t = .locked := by
    show (s.api t).sender = .locked
    rw [hpc]
    rfl
  have hst := Wrk.holds_of_stand (s.wrk s.life.workerThread)
  have hnostate := worker_not_holding halone hcall hstate s.life.workerThread
  have hnoio := worker_not_holding halone hcall hio s.life.workerThread
  have hmem : .connected ∈ s.toLink.stand.states := hl.locked hlocked ▸ hl.state
  obtain ⟨hcar, hphases⟩ := Stand.of_connected hmem (fun h => hnostate (hst.1 (.inl h)))
    (fun h => hnoio (hst.2 (.inl h))) (fun h => hnostate (hst.1 (.inr h)))
  obtain ⟨n, hn, -, -, p, hp, hphase⟩ := hl.transport hcar
  have hready : p = .ready := by
    rw [hphases] at hp
    refine (List.mem_pair.mp hp).resolve_right ?_
    rintro rfl
    obtain ⟨u, hu⟩ := hl.sender hphase
    have hut : u ≠ t := by
      rintro rfl
      rw [hlocked] at hu
      cases hu
    exact not_sending halone hio hut hu
  subst hready
  have hevent : (s.toLink.event (.sendBegin s.link.transport .report) s.toLink.stand
      (Function.update s.toLink.sender t .sending)).Inv := by
    refine hl.event hn hn nofun hphase rfl hcar hcar ?_ hl.state ?_ (fun _ _ => rfl)
      (fun _ => ⟨t, Function.update_self ..⟩)
    · rw [hphases]
      simp
    · intro u hu
      by_cases hut : u = t
      · rw [hut]
        exact hlocked
      · simpa [hut] using hu
  rw [toLink_goto]
  exact hevent

theorem link_sendCall (hl : s.toLink.Inv) (halone : (client ι cfg).Alone s t)
    (hpc : s.api t = .sendCall) (ok : Bool) :
    ((s.noteIo (.sendEnd s.link.transport ok)).goto t (.leave .send)).toLink.Inv := by
  have hio : Lock.io ∈ s.holds t ∨ s.needs t = some .io :=
    .inl (holds_of_api (by rw [hpc]; exact List.mem_singleton_self _))
  have hsending : s.toLink.sender t = .sending := by
    show (s.api t).sender = .sending
    rw [hpc]
    rfl
  obtain ⟨n, hn, hphase⟩ := hl.sending hsending
  obtain ⟨-, p, hp, hphase'⟩ := hl.current (hl.current_of_sending hphase)
  obtain rfl : p = .sending := by
    rw [hphase] at hphase'
    exact (Option.some.inj hphase').symm
  obtain ⟨hcar, hphases⟩ := Stand.of_sending hp
  have hevent : (s.toLink.event (.sendEnd s.link.transport ok) s.toLink.stand
      (Function.update s.toLink.sender t .none)).Inv := by
    refine hl.event hn hn nofun hphase rfl hcar hcar ?_ hl.state ?_ ?_ nofun
    · rw [hphases]
      simp
    · intro u hu
      by_cases hut : u = t
      · simp [hut] at hu
      · simpa [hut] using hu
    · intro u hu
      by_cases hut : u = t
      · simp [hut] at hu
      · exact absurd (by simpa [hut] using hu) (not_sending halone hio hut)
  rw [toLink_goto]
  exact hevent

theorem link_startCreate (hl : s.toLink.Inv) (hpc : s.api t = .startCreate)
    (haway : s.toLink.stand = .away) (o : StartOutcome) : (s.startCreate t o).toLink.Inv := by
  have hnone : (s.api t).sender = .none := by rw [hpc]; rfl
  have hprep : (s.toLink.turn s.link.connectionState false s.toLink.stand).Inv :=
    hl.turn _ _ rfl rfl (List.Subset.refl _) hl.state fun u hu => hl.locked hu
  cases o with
  | initFailed =>
      rw [startCreate, toLink_goto_none hnone rfl]
      exact hl
  | createFailed =>
      rw [startCreate, toLink_goto_none (by exact hnone) rfl]
      exact hprep
  | created =>
      rw [startCreate, toLink_goto_none (by exact hnone) rfl]
      have hnew := hprep.renewed haway (s.life.workerThread + 1)
      rw [haway] at hnew
      show Link.Inv ⟨_, _, (Function.update s.wrk (s.life.workerThread + 1) Wrk.top
        (s.life.workerThread + 1)).stand, _⟩
      rw [Function.update_self]
      exact hnew

theorem link_apiStep (hl : s.toLink.Inv) (halone : (client ι cfg).Alone s t)
    (hcall : ∀ g, t = .wrk g → ∃ k, s.wrk g = .callback k)
    (haway : s.api t = .startCreate → s.toLink.stand = .away) (h : s.apiStep t c = some s') :
    s'.toLink.Inv := by
  by_cases hq : touches (s.api t) = false
  · rw [toLink_apiStep hq h]
    exact hl
  · cases moves_of_apiStep h with
    | startCreate hpc => exact link_startCreate hl hpc (haway hpc) _
    | stopMarkSelf hpc =>
        rw [toLink_goto_none (by rw [markTransportStopping_api, hpc]; rfl) (Api.sender_stopped _)]
        exact link_markTransportStopping hl halone hcall (by rw [hpc]; rfl) (by rw [hpc]; rfl)
    | stopMark hpc =>
        rw [toLink_goto_none (by rw [markTransportStopping_api, hpc]; rfl) rfl]
        exact link_markTransportStopping hl halone hcall (by rw [hpc]; rfl) (by rw [hpc]; rfl)
    | sendState hpc => exact link_sendState hl hpc
    | sendLock hpc => exact link_sendLock hl halone hcall hpc
    | sendCall hpc => exact link_sendCall hl halone hpc _
    | _ =>
        rename_i hpc
        exact absurd (by rw [hpc]; rfl) hq

/-! ### The steps of the worker -/

variable {g : ℕ}

omit [DecidableEq ι] in
theorem toLink_run (hg : g = s.life.workerThread) (pc : Wrk) :
    (s.run g pc).toLink = { s.toLink with stand := pc.stand } := by
  subst hg
  ext1
  · rfl
  · rfl
  · show (Function.update s.wrk s.life.workerThread pc s.life.workerThread).stand = pc.stand
    rw [Function.update_self]
  · rfl

omit [DecidableEq ι] in
theorem stand_toLink (hg : g = s.life.workerThread) {pc : Wrk} (hpc : s.wrk g = pc) :
    s.toLink.stand = pc.stand := by
  rw [← hpc, hg]
  rfl

omit [DecidableEq ι] in
theorem link_stay (hl : s.toLink.Inv) (hg : g = s.life.workerThread) {pc pc' : Wrk}
    (hpc : s.wrk g = pc) (hst : pc'.stand = pc.stand) : (s.run g pc').toLink.Inv := by
  rw [toLink_run hg, hst, ← stand_toLink hg hpc]
  exact hl

omit [DecidableEq ι] in
theorem link_away (hl : s.toLink.Inv) (hg : g = s.life.workerThread) {pc : Wrk}
    (haway : s.toLink.stand = .away) (hst : pc.stand = .away) : (s.run g pc).toLink.Inv := by
  rw [toLink_run hg, hst, ← haway]
  exact hl

omit [DecidableEq ι] in
/-- The worker goes on, and may set the connection state. -/
theorem link_turn (hl : s.toLink.Inv) (hg : g = s.life.workerThread) {pc pc' : Wrk}
    (hpc : s.wrk g = pc) (cs : ConnectionState) (b : Bool) (hcar : pc.stand.carries = true)
    (hcar' : pc'.stand.carries = true) (hphase : pc.stand.phases ⊆ pc'.stand.phases)
    (hstate : cs ∈ pc'.stand.states) (hlocked : ∀ t, s.toLink.sender t = .locked → cs = .connected) :
    ({ s with link := { s.link with connectionState := cs, hasConnectedBefore := b } }.run
      g pc').toLink.Inv := by
  have hst := stand_toLink hg hpc
  rw [toLink_run (by exact hg)]
  refine hl.turn cs b ?_ ?_ ?_ hstate hlocked
  · rw [Stand.current_eq hcar', Link.current, hst, Stand.current_eq hcar]
  · rw [hst, hcar, hcar']
  · rw [hst]
    exact hphase

omit [DecidableEq ι] in
/-- The worker goes on with what it knows of the connection state. -/
theorem link_know (hl : s.toLink.Inv) (hg : g = s.life.workerThread) {pc pc' : Wrk}
    (hpc : s.wrk g = pc) (hcar : pc.stand.carries = true) (hcar' : pc'.stand.carries = true)
    (hphase : pc.stand.phases ⊆ pc'.stand.phases)
    (hstate : s.link.connectionState ∈ pc'.stand.states) : (s.run g pc').toLink.Inv :=
  link_turn hl hg hpc _ _ hcar hcar' hphase hstate fun _ ht => hl.locked ht

omit [DecidableEq ι] in
theorem state_mem (hl : s.toLink.Inv) (hg : g = s.life.workerThread) {pc : Wrk}
    (hpc : s.wrk g = pc) : s.link.connectionState ∈ pc.stand.states := by
  rw [← stand_toLink hg hpc]
  exact hl.state

omit [DecidableEq ι] in
theorem no_locked (hl : s.toLink.Inv) (hne : s.link.connectionState ≠ .connected) (t : Tid ι) :
    s.toLink.sender t ≠ .locked :=
  fun ht => hne (hl.locked ht)

omit [DecidableEq ι] in
theorem link_hsState (hl : s.toLink.Inv) (hg : g = s.life.workerThread)
    (hpc : s.wrk g = .hsState) : (s.hsState g).toLink.Inv := by
  have hmem := state_mem hl hg hpc
  unfold hsState
  split
  · refine link_know hl hg hpc rfl rfl (by simp [Wrk.stand, Stand.phases]) ?_
    simp only [Wrk.stand, Stand.states, List.mem_cons, List.not_mem_nil] at hmem ⊢
    tauto
  · next hstate =>
      refine link_turn hl hg hpc .handshaking _ rfl rfl (List.Subset.refl _) List.mem_cons_self ?_
      intro u hu
      exact absurd hu (no_locked hl (by rw [not_not.mp hstate]; simp) u)

omit [DecidableEq ι] in
theorem link_notify (hg : g = s.life.workerThread) {k : Callback} {b : Bool}
    (hl : Link.Inv { s.toLink with stand := (Wrk.callback k).stand }) :
    (notify cfg s g k b).toLink.Inv := by
  unfold notify
  split
  · rw [toLink_run (s := s.noteIo _) hg]
    exact hl.callback k b
  · rw [toLink_run hg]
    cases k <;> exact hl

omit [DecidableEq ι] in
theorem link_hsDone (hl : s.toLink.Inv) (hg : g = s.life.workerThread) {ok : Bool}
    (hpc : s.wrk g = .hsDone ok) : (hsDone cfg s g ok).toLink.Inv := by
  have hmem := state_mem hl hg hpc
  unfold hsDone
  split
  · next hok =>
      obtain ⟨rfl, hstate⟩ := hok
      apply link_notify (by exact hg)
      rw [← toLink_run (by exact hg)]
      exact link_turn hl hg hpc .connected true rfl rfl (by simp [Wrk.stand, Stand.phases])
        List.mem_cons_self fun _ _ => rfl
  · refine link_know hl hg hpc rfl rfl ?_ ?_
    · cases ok <;> simp [Wrk.stand, Stand.phases]
    · simp only [Wrk.stand, Stand.states, List.mem_cons, List.not_mem_nil] at hmem ⊢
      tauto

omit [DecidableEq ι] in
theorem link_recvTop (hl : s.toLink.Inv) (hg : g = s.life.workerThread)
    (hpc : s.wrk g = .recvTop) :
    (s.shutdownBranch g (.closeState .session) .recvState).toLink.Inv := by
  have hmem := state_mem hl hg hpc
  unfold shutdownBranch
  split
  · exact link_know hl hg hpc rfl rfl (List.Subset.refl _) hmem
  · exact link_stay hl hg hpc rfl

omit [DecidableEq ι] in
theorem link_recvState (hl : s.toLink.Inv) (hg : g = s.life.workerThread)
    (hpc : s.wrk g = .recvState) : (s.recvState g).toLink.Inv := by
  have hmem := state_mem hl hg hpc
  unfold recvState
  split
  · exact link_know hl hg hpc rfl rfl (List.Subset.refl _) hmem
  · next hstate =>
      refine link_know hl hg hpc rfl rfl (List.Subset.refl _) ?_
      rw [not_not.mp hstate]
      exact List.mem_cons_self

omit [DecidableEq ι] in
theorem link_event (hl : s.toLink.Inv) (hg : g = s.life.workerThread) {pc pc' : Wrk}
    (hpc : s.wrk g = pc) {e : IoEvent} (p' : Phase) (he : e.transport = s.link.transport)
    (hopen : ∀ g n, e ≠ .opened g n) (hcar : pc.stand.carries = true)
    (hcar' : pc'.stand.carries = true) (hidle' : p' ≠ .sending) (hp' : p' ∈ pc'.stand.phases)
    (hadv : ∀ n p, p ∈ pc.stand.phases → s.toLink.phase n = some p →
      p ≠ .sending ∧ Phase.advance e p = some p')
    (hstate : s.link.connectionState ∈ pc'.stand.states) :
    ((s.noteIo e).run g pc').toLink.Inv := by
  have hst := stand_toLink hg hpc
  have hcar'' : s.toLink.stand.carries = true := by rw [hst, hcar]
  obtain ⟨n, hn, -, -, p, hp, hphase⟩ := hl.transport hcar''
  obtain ⟨hidle, hadv'⟩ := hadv n p (hst ▸ hp) hphase
  rw [toLink_run (by exact hg)]
  exact hl.worker_event hn (he.trans hn) hopen hphase hidle hadv' hidle' hcar'' hcar' hp' hstate

theorem no_sending (hl : s.toLink.Inv) (halone : (client ι cfg).Alone s (.wrk g))
    (hidle : s.api (.wrk g) = .idle) (hio : .io ∈ (s.wrk g).holds ∨ (s.wrk g).needs = some .io)
    (n : ℕ) : s.toLink.phase n ≠ some .sending := by
  intro hphase
  obtain ⟨u, hu⟩ := hl.sender hphase
  by_cases hself : u = .wrk g
  · have : (s.api u).sender = .sending := hu
    rw [hself, hidle] at this
    cases this
  · refine not_sending halone ?_ hself hu
    rcases hio with hio | hio
    · exact .inl (List.mem_append_right _ hio)
    · right
      simp [needs, hidle, Api.needs, hio]

theorem link_recvLock (hl : s.toLink.Inv) (hg : g = s.life.workerThread)
    (halone : (client ι cfg).Alone s (.wrk g)) (hidle : s.api (.wrk g) = .idle)
    (hpc : s.wrk g = .recvLock) :
    ((s.noteIo (.recvBegin s.link.transport)).run g .recvCall).toLink.Inv := by
  have hmem : s.link.connectionState = .connected :=
    List.mem_singleton.mp (state_mem hl hg hpc)
  refine link_event hl hg hpc .receiving rfl nofun rfl rfl nofun
    (List.mem_singleton_self _) ?_ (by rw [hmem]; exact List.mem_cons_self)
  intro n p hp hphase
  have hne := no_sending hl halone hidle (.inr (by rw [hpc]; rfl)) n
  rcases List.mem_pair.mp hp with rfl | rfl
  · exact ⟨nofun, rfl⟩
  · exact absurd hphase hne

omit [DecidableEq ι] in
theorem link_recvCall (hl : s.toLink.Inv) (hg : g = s.life.workerThread)
    (hpc : s.wrk g = .recvCall) (o : RecvOutcome) : (recvCall cfg s g o).toLink.Inv := by
  have hmem := state_mem hl hg hpc
  -- Whatever follows, the transport is ready again.
  have hend : ∀ pc' : Wrk, pc'.stand = .session ∨ pc'.stand = .leaving →
      ((s.noteIo (.recvEnd s.link.transport o)).run g pc').toLink.Inv := by
    intro pc' hst
    refine link_event hl hg hpc .ready rfl nofun rfl ?_ nofun ?_ ?_ ?_
    · rcases hst with hst | hst <;> (rw [hst]; rfl)
    · rcases hst with hst | hst <;> (rw [hst]; exact List.mem_cons_self)
    · intro n p hp _
      rw [List.mem_singleton.mp hp]
      exact ⟨nofun, rfl⟩
    · rcases hst with hst | hst <;> (rw [hst]; exact hmem)
  cases o with
  | again => exact hend .recvTop (.inl rfl)
  | broken => exact hend (.closeState .session) (.inr rfl)
  | record accepted =>
      cases accepted with
      | false => exact hend .recvTop (.inl rfl)
      | true =>
          apply link_notify (by exact hg)
          rw [← toLink_run (by exact hg)]
          exact hend (.callback .envelope) (.inl rfl)

omit [DecidableEq ι] in
theorem link_afterClose (hg : g = s.life.workerThread)
    (hl : Link.Inv { s.toLink with stand := .away }) (k : CloseFor) :
    (afterClose cfg s g k).toLink.Inv := by
  cases k with
  | shutdown =>
      rw [afterClose, toLink_run hg]
      exact hl
  | handshake => exact link_notify hg hl
  | session => exact link_notify hg hl
  | final =>
      rw [afterClose, toLink_run hg]
      exact hl

theorem link_closeLock (hl : s.toLink.Inv) (hg : g = s.life.workerThread)
    (halone : (client ι cfg).Alone s (.wrk g)) (hidle : s.api (.wrk g) = .idle) {k : CloseFor}
    (hpc : s.wrk g = .closeLock k) : (closeLock cfg s g k).toLink.Inv := by
  have hmem := state_mem hl hg hpc
  have hne := no_sending hl halone hidle (.inr (by rw [hpc]; rfl))
  unfold closeLock
  split
  · next hstate =>
      refine link_event hl hg hpc .closing rfl nofun ?_ rfl nofun
        (List.mem_singleton_self _) ?_ ?_
      · cases k with
        | final => exact absurd (List.mem_singleton.mp hmem) hstate
        | _ => rfl
      · intro n p hp hphase
        have hidle : p ≠ .sending := by
          rintro rfl
          exact hne n hphase
        refine ⟨hidle, ?_⟩
        cases k <;> simp only [Wrk.stand, Stand.phases, List.mem_cons, List.not_mem_nil,
          or_false] at hp
        · rw [hp]
          rfl
        · rcases hp with rfl | rfl | rfl <;> rfl
        · rcases hp with rfl | rfl
          · rfl
          · exact absurd rfl hidle
      · cases hcs : s.link.connectionState with
        | disconnected => exact absurd hcs hstate
        | _ => simp [Wrk.stand, Stand.states]
  · next hstate =>
      -- Only the last close finds the client disconnected.
      rw [not_not.mp hstate] at hmem
      have haway : s.toLink.stand = .away := by
        rw [stand_toLink hg hpc]
        cases k with
        | final => rfl
        | _ => simp [Wrk.stand, Stand.states] at hmem
      apply link_afterClose hg
      rw [← haway]
      exact hl

theorem link_closeCall (hl : s.toLink.Inv) (hg : g = s.life.workerThread)
    (halone : (client ι cfg).Alone s (.wrk g)) (hidle : s.api (.wrk g) = .idle) {k : CloseFor}
    (hpc : s.wrk g = .closeCall k) : (closeCall cfg s g k).toLink.Inv := by
  unfold closeCall
  apply link_afterClose (by exact hg)
  refine hl.closed (stand_toLink hg hpc) ?_
  intro u hu
  by_cases hself : u = .wrk g
  · have : (s.api u).sender = .locked := hu
    rw [hself, hidle] at this
    cases this
  · refine not_locked halone (.inl (List.mem_append_right _ ?_)) hself hu
    rw [hpc]
    exact List.mem_cons_self

omit [DecidableEq ι] in
theorem link_connected (hl : s.toLink.Inv) (hg : g = s.life.workerThread)
    (hpc : s.wrk g = .connecting) :
    ({ s with link := { s.link with
        transports := s.link.transports + 1
        trace := .opened g s.link.transports :: s.link.trace } }.run g
      (.setTransport s.link.transports)).toLink.Inv := by
  have hopened := hl.opened (stand_toLink hg hpc)
  rw [toLink_run (by exact hg), hg]
  exact hopened

omit [DecidableEq ι] in
theorem link_setTransport (hl : s.toLink.Inv) (hg : g = s.life.workerThread) {n : ℕ}
    (hpc : s.wrk g = .setTransport n) : ((s.setTransport n).run g .recheck).toLink.Inv := by
  have hhanded := hl.handed (stand_toLink hg hpc)
  rw [toLink_run (by exact hg)]
  exact hhanded

omit [DecidableEq ι] in
theorem link_hsSend (hl : s.toLink.Inv) (hg : g = s.life.workerThread)
    (hpc : s.wrk g = .hsSend) :
    ((s.noteIo (.sendBegin s.link.transport .connect)).run g .hsCall).toLink.Inv := by
  have hmem := state_mem hl hg hpc
  refine link_event hl hg hpc .greeting rfl nofun rfl rfl nofun (List.mem_singleton_self _) ?_ hmem
  intro n p hp _
  rw [List.mem_singleton.mp hp]
  exact ⟨nofun, rfl⟩

omit [DecidableEq ι] in
theorem link_hsCall (hl : s.toLink.Inv) (hg : g = s.life.workerThread)
    (hpc : s.wrk g = .hsCall) (ok : Bool) :
    ((s.noteIo (.sendEnd s.link.transport ok)).run g (.hsDone ok)).toLink.Inv := by
  have hmem := state_mem hl hg hpc
  refine link_event hl hg hpc (if ok then .ready else .refused) rfl nofun rfl rfl ?_
    (List.mem_singleton_self _) ?_ hmem
  · cases ok <;> nofun
  · intro n p hp _
    rw [List.mem_singleton.mp hp]
    exact ⟨nofun, rfl⟩

omit [DecidableEq ι] in
theorem link_hsBuild (hl : s.toLink.Inv) (hg : g = s.life.workerThread)
    (hpc : s.wrk g = .hsBuild) (ok : Bool) :
    (s.run g (if ok then .hsState else .closeState .handshake)).toLink.Inv := by
  have hmem := state_mem hl hg hpc
  cases ok with
  | true => exact link_stay hl hg hpc rfl
  | false =>
      show (s.run g (.closeState .handshake)).toLink.Inv
      refine link_know hl hg hpc rfl rfl (by simp [Wrk.stand, Stand.phases]) ?_
      simp only [Wrk.stand, Stand.states, List.mem_cons, List.not_mem_nil] at hmem ⊢
      tauto

omit [DecidableEq ι] in
/-- A branch on the shutdown where the worker stays where it stands. -/
theorem link_shutdownBranch (hl : s.toLink.Inv) (hg : g = s.life.workerThread) {pc yes no : Wrk}
    (hpc : s.wrk g = pc) (hyes : yes.stand = pc.stand) (hno : no.stand = pc.stand) :
    (s.shutdownBranch g yes no).toLink.Inv := by
  unfold shutdownBranch
  split
  · exact link_stay hl hg hpc hyes
  · exact link_stay hl hg hpc hno

omit [DecidableEq ι] in
theorem toLink_broadcastShutdown (s : Client ι) : s.broadcastShutdown.toLink = s.toLink := by
  ext1
  · rfl
  · rfl
  · exact Wrk.Woken.stand (.inr (.inl rfl))
  · funext t
    exact Api.Woken.sender (.inr (.inl rfl))

omit [DecidableEq ι] in
theorem link_fin3 (hl : s.toLink.Inv) (hg : g = s.life.workerThread) (hpc : s.wrk g = .fin3) :
    (s.fin3 g).toLink.Inv := by
  have haway : s.toLink.stand = .away := stand_toLink hg hpc
  unfold fin3
  split
  · apply link_away (by rw [toLink_broadcastShutdown]; exact hl) (by exact hg)
      (by rw [toLink_broadcastShutdown]; exact haway)
    split <;> rfl
  · apply link_away (by rw [toLink_broadcastShutdown]; exact hl) (by exact hg)
      (by rw [toLink_broadcastShutdown]; exact haway)
    split <;> rfl

theorem link_workerStep (hl : s.toLink.Inv) (hg : g = s.life.workerThread)
    (halone : (client ι cfg).Alone s (.wrk g)) (hidle : s.api (.wrk g) = .idle)
    (h : workerStep cfg s g c = some s') : s'.toLink.Inv := by
  cases moves_of_workerStep h with
  | top hpc | recheck hpc | backoffTest hpc => exact link_shutdownBranch hl hg hpc rfl rfl
  | connected hpc => exact link_connected hl hg hpc
  | setTransport hpc => exact link_setTransport hl hg hpc
  | hsBuild hpc => exact link_hsBuild hl hg hpc _
  | hsState hpc => exact link_hsState hl hg hpc
  | hsSend hpc => exact link_hsSend hl hg hpc
  | hsCall hpc => exact link_hsCall hl hg hpc _
  | hsDone hpc => exact link_hsDone hl hg hpc
  | recvTop hpc => exact link_recvTop hl hg hpc
  | recvState hpc => exact link_recvState hl hg hpc
  | recvLock hpc => exact link_recvLock hl hg halone hidle hpc
  | recvCall hpc => exact link_recvCall hl hg hpc _
  | @closeState k hpc => exact link_stay hl hg hpc (by cases k <;> rfl)
  | closeLock hpc => exact link_closeLock hl hg halone hidle hpc
  | closeCall hpc => exact link_closeCall hl hg halone hidle hpc
  | fin1 hpc =>
      unfold fin1
      split
      · exact link_away (by exact hl) (by exact hg) (stand_toLink hg hpc) rfl
      · exact link_stay hl hg hpc rfl
  | fin3 hpc => exact link_fin3 hl hg hpc
  | removeTest hpc =>
      split
      · exact link_stay hl hg hpc rfl
      · exact link_away (by exact hl) (by exact hg) (stand_toLink hg hpc) rfl
  -- What is left happens without a transport.
  | _ =>
      rename_i hpc
      exact link_away (by exact hl) (by exact hg) (stand_toLink hg hpc) rfl

omit [DecidableEq ι] in
theorem worker_of_workerStep (hinv : s.toLife.Inv) (h : workerStep cfg s g c = some s') :
    g = s.life.workerThread := by
  have hpresent := (workerStep_workerThread h).2
  have hexit : s.wrk g ≠ .exited := by
    intro hpc
    simp [workerStep, hpc] at h
  exact hinv.alive (mt Wrk.stage_absent.mp hpresent) (mt Wrk.stage_exited.mp hexit)

theorem link_body (htidy : s.Tidy) (hinv : s.toLife.Inv) (hl : s.toLink.Inv)
    (halone : (client ι cfg).Alone s t) (h : s.body cfg t c = some s') : s'.toLink.Inv := by
  rcases body_cases h with ⟨g, k, rfl, hpc, -, rfl⟩ | ⟨hcall, hstep⟩ | ⟨g, rfl, hnot, hstep⟩
  · have hg : g = s.life.workerThread :=
      (hinv.live_worker (g := g) (by rw [stage_toLife hpc]; rfl)).1
    exact link_stay hl hg hpc (by cases k <;> rfl)
  · refine link_apiStep hl halone hcall ?_ hstep
    intro hpc
    -- Before a worker is created, the one before it is gone.
    apply Wrk.stand_of_ended
    by_contra hlive
    have hstart := (hinv.live_worker (Bool.not_eq_false _ ▸ hlive)).2
    rw [(hinv.role (role_toLife hpc)).1] at hstart
    cases hstart
  · have hg := worker_of_workerStep hinv hstep
    exact link_workerStep hl hg halone (htidy.calls hnot) hstep

end Client

open Client

variable {ι : Type*} [DecidableEq ι] {cfg : Config}

structure TransportsSafe (s : Client ι) : Prop where
  /-- Every transport goes through its protocol. -/
  used (n : ℕ) : usage n s.link.trace ≠ none
  /-- A worker that has terminated has closed the transports it was given. -/
  closed {g n : ℕ} (h : .opened g n ∈ s.link.trace) (hexit : s.wrk g = .exited) :
    usage n s.link.trace = some .closed
  /-- The zeroed transport struct is never closed. -/
  zeroed : .closeBegin none ∉ s.link.trace
  /-- Nothing is sent or received through it. -/
  unsent (r : Record) : .sendBegin none r ∉ s.link.trace
  unread : .recvBegin none ∉ s.link.trace

omit [DecidableEq ι] in
theorem link_created : (created : Client ι).toLink.Inv := by
  constructor
  all_goals simp [toLink, created, Link.phase, usage, Wrk.stand, Api.sender, Stand.current,
    Stand.carries, Stand.states]

/-- The transports of a client are used as they should be, in every state that
can be reached. -/
theorem transports_safe {s : Locked (Client ι) (Tid ι) Lock}
    (h : (client ι cfg).system.Reach s) : TransportsSafe s.core := by
  obtain ⟨⟨-, -, hl⟩, -⟩ :=
    Threads.invariant (I := fun s => s.toLife.Inv ∧ s.Tidy ∧ s.toLink.Inv)
      (client_lawful.mono fun _ hs => hs.2.1) ⟨inv_created, Tidy.created, link_created⟩ (by
        rintro s t c s' ⟨hinv, htidy, hl⟩ halone - hbody
        exact ⟨(path_body htidy hinv halone hbody).inv hinv, htidy.body hbody,
          link_body htidy hinv hl halone hbody⟩) h
  constructor
  · exact hl.used
  · intro g n hin hexit
    obtain ⟨hlt, howner⟩ := hl.opener hin
    refine hl.old hlt ?_
    intro hcur
    -- The current transport belongs to the last worker, which would be away.
    have hst : s.core.toLink.stand = .away := stand_toLink (howner hcur) hexit
    rw [hl.current_away hst] at hcur
    cases hcur
  · intro hin
    obtain ⟨k, b, heq⟩ := hl.zeroed hin rfl
    cases heq
  · intro r hin
    obtain ⟨k, b, heq⟩ := hl.zeroed hin rfl
    cases heq
  · intro hin
    obtain ⟨k, b, heq⟩ := hl.zeroed hin rfl
    cases heq

def sendTurns : List (Tid Unit × Choice) :=
  [(.ext (), .call .send), (.ext (), .go), (.ext (), .result true), (.ext (), .go), (.ext (), .go),
    (.ext (), .result true), (.ext (), .go)]

/-- The first worker polls its transport once. -/
def pollTurns : List (Tid Unit × Choice) :=
  [(.wrk 1, .go), (.wrk 1, .go), (.wrk 1, .go), (.wrk 1, .recv .again)]

/-- A client is started, sends and receives, and is stopped. -/
def sessionTurns : List (Tid Unit × Choice) :=
  startTurns (.ext ()) ++ connectTurns 1 ++ [(.wrk 1, .go)] ++ sendTurns ++ pollTurns ++
    (.ext (), .call .stop) :: List.replicate 3 (.ext (), .go) ++
    List.replicate 11 (.wrk 1, .go) ++ List.replicate 3 (.ext (), .go)

theorem transports_safe_session : ∃ s, (client Unit allCallbacks).turns
      (client Unit allCallbacks).system.init sessionTurns = some s ∧
    s.core.wrk 1 = .exited ∧
    s.core.link.trace = [.callback .disconnected false, .closeEnd (some 0), .closeBegin (some 0),
      .recvEnd (some 0) .again, .recvBegin (some 0), .sendEnd (some 0) true,
      .sendBegin (some 0) .report, .callback .connected false, .sendEnd (some 0) true,
      .sendBegin (some 0) .connect, .opened 1 0] ∧ TransportsSafe s.core := by
  obtain ⟨s, hs, hend⟩ := Option.map_eq_some_iff.mp
    (show ((client Unit allCallbacks).turns (client Unit allCallbacks).system.init
        sessionTurns).map (fun s => (s.core.wrk 1, s.core.link.trace)) =
      some (.exited, [.callback .disconnected false, .closeEnd (some 0), .closeBegin (some 0),
        .recvEnd (some 0) .again, .recvBegin (some 0), .sendEnd (some 0) true,
        .sendBegin (some 0) .report, .callback .connected false, .sendEnd (some 0) true,
        .sendBegin (some 0) .connect, .opened 1 0]) by decide +kernel)
  simp only [Prod.mk.injEq] at hend
  exact ⟨s, hs, hend.1, hend.2, transports_safe (Threads.reach_turns .init hs)⟩

end Savvy.MgrIpc
