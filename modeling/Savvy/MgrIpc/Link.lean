import Savvy.MgrIpc.Client

/-!
The transports of a client. Each transport goes through a protocol of its own:
it is opened, greeted with a CONNECT, used if that was sent, and closed. What
the worker and the senders may do with the transport they share depends on the
connection state and on where the worker stands. This module has the protocol,
the invariant that ties it to the two, and the moves that keep the invariant;
which step of the client is which move is the subject of the next one.
-/

namespace Savvy.MgrIpc

/-! ### The protocol of a transport -/

inductive Phase
  | unopened
  | opened
  | greeting
  | refused
  | ready
  | sending
  | receiving
  | closing
  | closed
  deriving DecidableEq, Repr

def IoEvent.transport : IoEvent → Option ℕ
  | .opened _ n => some n
  | .sendBegin n _ | .sendEnd n _ | .recvBegin n | .recvEnd n _ | .closeBegin n | .closeEnd n => n
  | .callback _ _ => none

namespace Phase

/-- The events that a transport allows. The first send is that of a CONNECT;
until it has returned successfully nothing else is sent and nothing received,
and a transport is closed once, while it is not in use. -/
def advance : IoEvent → Phase → Option Phase
  | .opened _ _, .unopened => some .opened
  | .sendBegin _ .connect, .opened => some .greeting
  | .sendBegin _ _, .ready => some .sending
  | .sendEnd _ ok, .greeting => some (if ok then .ready else .refused)
  | .sendEnd _ _, .sending => some .ready
  | .recvBegin _, .ready => some .receiving
  | .recvEnd _ _, .receiving => some .ready
  | .closeBegin _, .opened | .closeBegin _, .refused | .closeBegin _, .ready => some .closing
  | .closeEnd _, .closing => some .closed
  | _, _ => none

end Phase

/-- What has become of transport `n` after the events of a trace, the newest
first; `none` if one of them was out of place. -/
def usage (n : ℕ) : List IoEvent → Option Phase
  | [] => some .unopened
  | e :: es => if e.transport = some n then (usage n es).bind (Phase.advance e) else usage n es

theorem usage_other {n : ℕ} {e : IoEvent} {es : List IoEvent} (h : e.transport ≠ some n) :
    usage n (e :: es) = usage n es := by
  rw [usage, if_neg h]

theorem usage_own {n : ℕ} {e : IoEvent} {es : List IoEvent} {p : Phase}
    (h : e.transport = some n) (hp : usage n es = some p) :
    usage n (e :: es) = Phase.advance e p := by
  rw [usage, if_pos h, hp]
  rfl

/-! ### The worker and the senders -/

inductive Stand
  | away
  | given (n : ℕ)
  | fresh
  | greet
  | greeting
  | greeted (ok : Bool)
  | session
  | polling
  | receiving
  | failing
  | leaving
  | closing
  deriving DecidableEq, Repr

namespace Stand

def states : Stand → List ConnectionState
  | .away | .given _ => [.disconnected]
  | .fresh => [.transportConnected, .stopping]
  | .greet | .greeting | .greeted _ => [.handshaking, .stopping]
  | .session | .receiving | .leaving => [.connected, .stopping]
  | .polling => [.connected]
  | .failing => [.transportConnected, .handshaking, .stopping]
  | .closing => [.transportConnected, .handshaking, .connected, .stopping]

def phases : Stand → List Phase
  | .away => []
  | .given _ | .fresh | .greet => [.opened]
  | .greeting => [.greeting]
  | .greeted ok => [if ok then .ready else .refused]
  | .session | .polling | .leaving => [.ready, .sending]
  | .receiving => [.receiving]
  | .failing => [.opened, .ready, .refused]
  | .closing => [.closing]

/-- The worker has handed its transport to the client. -/
def carries : Stand → Bool
  | .away | .given _ => false
  | _ => true

/-- The transport that is not closed yet. -/
def current (l : LinkVars) : Stand → Option ℕ
  | .given n => some n
  | _ => l.transport

theorem current_eq {st : Stand} {l : LinkVars} (h : st.carries = true) :
    st.current l = l.transport := by
  cases st with
  | given n => cases h
  | _ => rfl

theorem stopping_mem {st : Stand} {cs : ConnectionState} (h : cs ∈ st.states)
    (hne : cs ≠ .disconnected) (hpoll : st ≠ .polling) : .stopping ∈ st.states := by
  cases st <;> simp_all [states]

theorem of_connected {st : Stand} (h : .connected ∈ st.states) (hpoll : st ≠ .polling)
    (hrecv : st ≠ .receiving) (hclose : st ≠ .closing) :
    st.carries = true ∧ st.phases = [.ready, .sending] := by
  cases st <;> simp_all [states, phases, carries]

theorem of_sending {st : Stand} (h : .sending ∈ st.phases) :
    st.carries = true ∧ st.phases = [.ready, .sending] := by
  cases st with
  | greeted ok => cases ok <;> simp [phases] at h
  | _ => simp_all [phases, carries]

end Stand

/-- Where a sender stands: it holds `state_lock` and has seen that the client is
connected, or it is sending. -/
inductive Sender
  | none
  | locked
  | sending
  deriving DecidableEq, Repr

@[ext]
structure Link (ι : Type*) where
  vars : LinkVars
  worker : ℕ
  stand : Stand
  sender : Tid ι → Sender

namespace Link

variable {ι : Type*}

abbrev phase (m : Link ι) (n : ℕ) : Option Phase := usage n m.vars.trace

/-- The transport that is not closed yet. -/
abbrev current (m : Link ι) : Option ℕ := m.stand.current m.vars

structure Inv (m : Link ι) : Prop where
  unopened {n : ℕ} (h : m.vars.transports ≤ n) : m.phase n = some .unopened
  old {n : ℕ} (hlt : n < m.vars.transports) (hcur : m.current ≠ some n) :
    m.phase n = some .closed
  current {n : ℕ} (h : m.current = some n) :
    n < m.vars.transports ∧ ∃ p ∈ m.stand.phases, m.phase n = some p
  carried : m.vars.transport.isSome = m.stand.carries
  state : m.vars.connectionState ∈ m.stand.states
  locked {t : Tid ι} (h : m.sender t = .locked) : m.vars.connectionState = .connected
  sending {t : Tid ι} (h : m.sender t = .sending) :
    ∃ n, m.vars.transport = some n ∧ m.phase n = some .sending
  sender {n : ℕ} (h : m.phase n = some .sending) : ∃ t, m.sender t = .sending
  opener {g n : ℕ} (h : .opened g n ∈ m.vars.trace) :
    n < m.vars.transports ∧ (m.current = some n → g = m.worker)
  zeroed {e : IoEvent} (h : e ∈ m.vars.trace) (hn : e.transport = none) : ∃ k b, e = .callback k b

variable {m : Link ι}

theorem Inv.transport (h : m.Inv) (hc : m.stand.carries = true) :
    ∃ n, m.vars.transport = some n ∧ m.current = some n ∧ n < m.vars.transports ∧
      ∃ p ∈ m.stand.phases, m.phase n = some p := by
  have hsome := h.carried
  rw [hc] at hsome
  obtain ⟨n, hn⟩ := Option.isSome_iff_exists.mp hsome
  have hcur : m.current = some n := (Stand.current_eq hc).trans hn
  exact ⟨n, hn, hcur, h.current hcur⟩

/-- No transport is ever used out of turn. -/
theorem Inv.used (h : m.Inv) (n : ℕ) : m.phase n ≠ none := by
  rcases Nat.lt_or_ge n m.vars.transports with hlt | hge
  · by_cases hcur : m.current = some n
    · obtain ⟨-, p, -, hp⟩ := h.current hcur
      rw [hp]
      nofun
    · rw [h.old hlt hcur]
      nofun
  · rw [h.unopened hge]
    nofun

theorem Inv.current_of_sending (h : m.Inv) {n : ℕ} (hs : m.phase n = some .sending) :
    m.current = some n := by
  by_contra hcur
  rcases Nat.lt_or_ge n m.vars.transports with hlt | hge
  · rw [h.old hlt hcur] at hs
    cases hs
  · rw [h.unopened hge] at hs
    cases hs

/-! ### The moves -/

/-- The worker goes on, or the connection state or the reconnect tracker
changes. -/
def turn (m : Link ι) (cs : ConnectionState) (b : Bool) (st : Stand) : Link ι :=
  { m with vars := { m.vars with connectionState := cs, hasConnectedBefore := b }, stand := st }

theorem Inv.turn (h : m.Inv) (cs : ConnectionState) (b : Bool) {st : Stand}
    (hcur : st.current m.vars = m.current) (hcar : st.carries = m.stand.carries)
    (hphase : m.stand.phases ⊆ st.phases) (hstate : cs ∈ st.states)
    (hlocked : ∀ t, m.sender t = .locked → cs = .connected) : (m.turn cs b st).Inv := by
  have hcur' : (m.turn cs b st).current = m.current := by
    rw [← hcur]
    cases st <;> rfl
  constructor
  · exact h.unopened
  · intro n hlt hne
    exact h.old hlt (hcur' ▸ hne)
  · intro n hn
    obtain ⟨hlt, p, hp, hphase'⟩ := h.current (hcur' ▸ hn)
    exact ⟨hlt, p, hphase hp, hphase'⟩
  · exact h.carried.trans hcar.symm
  · exact hstate
  · exact hlocked _
  · exact h.sending
  · exact h.sender
  · intro g n hin
    exact ⟨(h.opener hin).1, fun hn => (h.opener hin).2 (hcur' ▸ hn)⟩
  · exact h.zeroed

def note (m : Link ι) (e : IoEvent) : Link ι :=
  { m with vars := { m.vars with trace := e :: m.vars.trace } }

theorem Inv.callback (h : m.Inv) (k : Callback) (b : Bool) : (m.note (.callback k b)).Inv := by
  have hphase : ∀ n, (m.note (.callback k b)).phase n = m.phase n := fun n => usage_other nofun
  constructor
  · intro n hn
    rw [hphase]
    exact h.unopened hn
  · intro n hlt hne
    rw [hphase]
    exact h.old hlt hne
  · intro n hn
    rw [hphase]
    exact h.current hn
  · exact h.carried
  · exact h.state
  · exact h.locked
  · intro t ht
    obtain ⟨n, hn, hs⟩ := h.sending ht
    exact ⟨n, hn, (hphase n).trans hs⟩
  · intro n hn
    rw [hphase] at hn
    exact h.sender hn
  · intro g n hin
    exact h.opener (by simpa [note] using hin)
  · intro e hin hnone
    rcases List.mem_cons.mp hin with rfl | hin
    · exact ⟨k, b, rfl⟩
    · exact h.zeroed hin hnone

/-- An event on the current transport, after which the worker and the senders
stand at `st` and `f`. -/
def event (m : Link ι) (e : IoEvent) (st : Stand) (f : Tid ι → Sender) : Link ι :=
  { m with vars := { m.vars with trace := e :: m.vars.trace }, stand := st, sender := f }

theorem Inv.event (h : m.Inv) {e : IoEvent} {n : ℕ} {p p' : Phase} {st : Stand}
    {f : Tid ι → Sender} (hn : m.vars.transport = some n) (he : e.transport = some n)
    (hopen : ∀ g n, e ≠ .opened g n) (hp : m.phase n = some p)
    (hadv : Phase.advance e p = some p') (hcar : m.stand.carries = true)
    (hcar' : st.carries = true) (hp' : p' ∈ st.phases) (hstate : m.vars.connectionState ∈ st.states)
    (hlocked : ∀ t, f t = .locked → m.sender t = .locked)
    (hsending : ∀ t, f t = .sending → p' = .sending)
    (hsender : p' = .sending → ∃ t, f t = .sending) : (m.event e st f).Inv := by
  have hcur : ∀ n', (m.event e st f).current = some n' ↔ n' = n := by
    intro n'
    have heq : (m.event e st f).current = m.vars.transport :=
      Stand.current_eq (l := (m.event e st f).vars) hcar'
    rw [heq, hn, Option.some.injEq, eq_comm]
  have hcur' : m.current = some n := (Stand.current_eq hcar).trans hn
  have hown : (m.event e st f).phase n = some p' := (usage_own he hp).trans hadv
  have hother : ∀ n', n' ≠ n → (m.event e st f).phase n' = m.phase n' := by
    intro n' hne
    apply usage_other
    rw [he]
    exact fun heq => hne (Option.some.inj heq).symm
  have hlt := (h.current hcur').1
  constructor
  · intro n' hn'
    rw [hother n' (by rintro rfl; exact absurd hlt (Nat.not_lt.mpr hn'))]
    exact h.unopened hn'
  · intro n' hlt' hne
    rw [ne_eq, hcur] at hne
    rw [hother n' hne]
    refine h.old hlt' ?_
    rw [hcur']
    exact fun heq => hne (Option.some.inj heq).symm
  · intro n' hn'
    obtain rfl := (hcur n').mp hn'
    exact ⟨hlt, p', hp', hown⟩
  · show m.vars.transport.isSome = st.carries
    rw [hn, hcar']
    rfl
  · exact hstate
  · intro t ht
    exact h.locked (hlocked t ht)
  · intro t ht
    exact ⟨n, hn, by rw [hown, hsending t ht]⟩
  · intro n' hn'
    by_cases hne : n' = n
    · rw [hne, hown] at hn'
      exact hsender (Option.some.inj hn')
    · rw [hother n' hne] at hn'
      have := h.current_of_sending hn'
      rw [hcur'] at this
      exact absurd (Option.some.inj this).symm hne
  · intro g n' hin
    have hin' : .opened g n' ∈ m.vars.trace :=
      (List.mem_cons.mp hin).resolve_left fun heq => hopen g n' heq.symm
    refine ⟨(h.opener hin').1, ?_⟩
    intro hn'
    obtain rfl := (hcur n').mp hn'
    exact (h.opener hin').2 hcur'
  · intro e' hin hnone
    rcases List.mem_cons.mp hin with rfl | hin
    · rw [he] at hnone
      cases hnone
    · exact h.zeroed hin hnone

theorem Inv.worker_event (h : m.Inv) {e : IoEvent} {n : ℕ} {p p' : Phase} {st : Stand}
    (hn : m.vars.transport = some n) (he : e.transport = some n)
    (hopen : ∀ g n, e ≠ .opened g n) (hp : m.phase n = some p) (hidle : p ≠ .sending)
    (hadv : Phase.advance e p = some p') (hidle' : p' ≠ .sending)
    (hcar : m.stand.carries = true) (hcar' : st.carries = true) (hp' : p' ∈ st.phases)
    (hstate : m.vars.connectionState ∈ st.states) : (m.event e st m.sender).Inv := by
  refine h.event hn he hopen hp hadv hcar hcar' hp' hstate (fun _ => id) ?_
    (fun heq => absurd heq hidle')
  intro t ht
  obtain ⟨n', hn', hs⟩ := h.sending ht
  rw [hn] at hn'
  cases hn'
  rw [hp] at hs
  exact absurd (Option.some.inj hs) hidle

def opened (m : Link ι) (g : ℕ) : Link ι :=
  { m with
    vars := { m.vars with
      transports := m.vars.transports + 1
      trace := .opened g m.vars.transports :: m.vars.trace }
    stand := .given m.vars.transports }

/-- The worker hands its transport to the client. -/
def handed (m : Link ι) (n : ℕ) : Link ι :=
  { m with
    vars := { m.vars with transport := some n, connectionState := .transportConnected }
    stand := .fresh }

def closed (m : Link ι) : Link ι :=
  { m with
    vars := { m.vars with
      transport := none
      connectionState := .disconnected
      trace := .closeEnd m.vars.transport :: m.vars.trace }
    stand := .away }

theorem Inv.no_sender (h : m.Inv) (hc : m.stand.carries = false) (t : Tid ι) :
    m.sender t = .none := by
  cases ht : m.sender t with
  | none => rfl
  | locked =>
      have hstate := h.state
      rw [h.locked ht] at hstate
      cases hst : m.stand <;> simp_all [Stand.carries, Stand.states]
  | sending =>
      obtain ⟨n, hn, -⟩ := h.sending ht
      have := h.carried
      rw [hn, hc] at this
      cases this

theorem Inv.current_away (h : m.Inv) (hst : m.stand = .away) : m.current = none := by
  have hnone := h.carried
  rw [hst] at hnone
  rw [Link.current, hst]
  exact Option.isSome_eq_false_iff.mp hnone |> Option.isNone_iff_eq_none.mp

theorem Inv.opened (h : m.Inv) (hst : m.stand = .away) : (m.opened m.worker).Inv := by
  have hcur := h.current_away hst
  have hnone := h.no_sender (by rw [hst]; rfl)
  have hother : ∀ n, n ≠ m.vars.transports → (m.opened m.worker).phase n = m.phase n := by
    intro n hne
    apply usage_other
    exact fun heq => hne (Option.some.inj heq).symm
  have hown : (m.opened m.worker).phase m.vars.transports = some .opened :=
    usage_own rfl (h.unopened (Nat.le_refl _))
  constructor
  · intro n hn
    have hn' : m.vars.transports + 1 ≤ n := hn
    rw [hother n (by omega)]
    exact h.unopened (by omega)
  · intro n hlt hne
    have hlt' : n < m.vars.transports + 1 := hlt
    have hne' : n ≠ m.vars.transports := by
      rintro rfl
      exact hne rfl
    rw [hother n hne']
    refine h.old (by omega) ?_
    rw [hcur]
    nofun
  · intro n hn
    cases hn
    exact ⟨Nat.lt_succ_self _, .opened, List.mem_singleton_self _, hown⟩
  · have hcar := h.carried
    rw [hst] at hcar
    exact hcar
  · have hstate := h.state
    rw [hst] at hstate
    exact hstate
  · intro t ht
    exact absurd ((hnone t).symm.trans ht) nofun
  · intro t ht
    exact absurd ((hnone t).symm.trans ht) nofun
  · intro n hn
    by_cases hne : n = m.vars.transports
    · rw [hne, hown] at hn
      cases hn
    · rw [hother n hne] at hn
      exact h.sender hn
  · intro g n hin
    rcases List.mem_cons.mp hin with heq | hin
    · cases heq
      exact ⟨Nat.lt_succ_self _, fun _ => rfl⟩
    · have hlt := (h.opener hin).1
      refine ⟨Nat.lt_succ_of_lt hlt, ?_⟩
      intro hn
      cases hn
      omega
  · intro e hin hzero
    rcases List.mem_cons.mp hin with rfl | hin
    · cases hzero
    · exact h.zeroed hin hzero

theorem Inv.handed (h : m.Inv) {n : ℕ} (hst : m.stand = .given n) : (m.handed n).Inv := by
  have hcur : m.current = some n := by rw [Link.current, hst]; rfl
  have hnone := h.no_sender (by rw [hst]; rfl)
  constructor
  · exact h.unopened
  · intro n' hlt hne
    exact h.old hlt (hcur ▸ hne)
  · intro n' hn'
    cases hn'
    obtain ⟨hlt, p, hp, hphase⟩ := h.current hcur
    rw [hst] at hp
    exact ⟨hlt, p, hp, hphase⟩
  · rfl
  · exact List.mem_cons_self
  · intro t ht
    exact absurd ((hnone t).symm.trans ht) nofun
  · intro t ht
    exact absurd ((hnone t).symm.trans ht) nofun
  · exact h.sender
  · intro g n' hin
    exact ⟨(h.opener hin).1, fun hn => (h.opener hin).2 (hcur.trans hn)⟩
  · exact h.zeroed

theorem Inv.closed (h : m.Inv) (hst : m.stand = .closing) (hlocked : ∀ t, m.sender t ≠ .locked) :
    m.closed.Inv := by
  obtain ⟨n, hn, hcur, hlt, p, hp, hphase⟩ := h.transport (by rw [hst]; rfl)
  obtain rfl : p = .closing := by
    rw [hst] at hp
    exact List.mem_singleton.mp hp
  have hown : m.closed.phase n = some .closed :=
    usage_own (e := .closeEnd m.vars.transport) hn hphase
  have hother : ∀ n', n' ≠ n → m.closed.phase n' = m.phase n' := by
    intro n' hne
    apply usage_other
    show m.vars.transport ≠ some n'
    rw [hn]
    exact fun heq => hne (Option.some.inj heq).symm
  have hsending : ∀ t, m.sender t ≠ .sending := by
    intro t ht
    obtain ⟨n', hn', hs⟩ := h.sending ht
    rw [hn] at hn'
    cases hn'
    rw [hphase] at hs
    cases hs
  constructor
  · intro n' hn'
    rw [hother n' (by rintro rfl; exact absurd hlt (Nat.not_lt.mpr hn'))]
    exact h.unopened hn'
  · intro n' hlt' _
    by_cases hne : n' = n
    · rw [hne]
      exact hown
    · rw [hother n' hne]
      refine h.old hlt' ?_
      rw [hcur]
      exact fun heq => hne (Option.some.inj heq).symm
  · intro n' hn'
    cases hn'
  · rfl
  · exact List.mem_singleton_self _
  · intro t ht
    exact absurd ht (hlocked t)
  · intro t ht
    exact absurd ht (hsending t)
  · intro n' hn'
    by_cases hne : n' = n
    · rw [hne, hown] at hn'
      cases hn'
    · rw [hother n' hne] at hn'
      exact h.sender hn'
  · intro g n' hin
    refine ⟨(h.opener (by simpa [Link.closed] using hin)).1, ?_⟩
    intro hn'
    cases hn'
  · intro e hin hzero
    rcases List.mem_cons.mp hin with rfl | hin
    · rw [IoEvent.transport, hn] at hzero
      cases hzero
    · exact h.zeroed hin hzero

/-- A new worker finds no transport. -/
theorem Inv.renewed (h : m.Inv) (hst : m.stand = .away) (g : ℕ) :
    Inv { m with worker := g } where
  unopened := h.unopened
  old := h.old
  current := h.current
  carried := h.carried
  state := h.state
  locked := h.locked
  sending := h.sending
  sender := h.sender
  opener hin := by
    refine ⟨(h.opener hin).1, fun hn => ?_⟩
    have hcur : m.current = some _ := hn
    rw [h.current_away hst] at hcur
    cases hcur
  zeroed := h.zeroed

variable [DecidableEq ι]

/-- A sender has seen that the client is connected. -/
theorem Inv.lock (h : m.Inv) {t : Tid ι} (ht : m.sender t ≠ .sending)
    (hstate : m.vars.connectionState = .connected) :
    Inv { m with sender := Function.update m.sender t .locked } where
  unopened := h.unopened
  old := h.old
  current := h.current
  carried := h.carried
  state := h.state
  locked _ := hstate
  sending {u} hu := by
    refine h.sending (t := u) ?_
    by_cases heq : u = t
    · simp [heq] at hu
    · simpa [heq] using hu
  sender hn := by
    obtain ⟨u, hu⟩ := h.sender hn
    refine ⟨u, ?_⟩
    have hne : u ≠ t := by
      rintro rfl
      exact ht hu
    simpa [hne] using hu
  opener := h.opener
  zeroed := h.zeroed

end Link

end Savvy.MgrIpc
