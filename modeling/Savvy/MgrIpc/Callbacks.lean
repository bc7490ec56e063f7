import Mathlib.Computability.Language
import Mathlib.Data.List.Chain
import Savvy.MgrIpc.Transport

/-!
The callbacks of a client over its lifetime. They come in sessions: a
connection that could not be greeted ends in one `on_disconnected`, and one that
was greeted is announced, delivers its envelopes and ends in one
`on_disconnected`. Each session belongs to a transport of its own and to the
worker that was given it. A callback that is not set is skipped.
-/

namespace Savvy.MgrIpc

open Kit
open scoped Computability

/-! ### Sessions -/

inductive Letter
  | c
  | e
  | d
  deriving DecidableEq, Repr

def Callback.letter : Callback → Letter
  | .connected => .c
  | .envelope => .e
  | .lost | .disconnected => .d

def callbackWords : Language Letter :=
  (({[.d]} : Language Letter) + {[.c]} * ({[.e]} : Language Letter)∗ * {[.d]})∗

/-- A callback with the worker that invokes it and the transport it is about. -/
structure Call where
  kind : Callback
  worker : ℕ
  transport : ℕ
  deriving DecidableEq, Repr

/-- How a callback may follow another one: it goes on with the session of the same
worker and transport, or starts a session on a later transport. -/
def Call.Follows (a b : Call) : Prop :=
  match b.kind with
  | .envelope | .disconnected =>
      (a.kind = .connected ∨ a.kind = .envelope) ∧ a.worker = b.worker ∧ a.transport = b.transport
  | .connected | .lost =>
      (a.kind = .lost ∨ a.kind = .disconnected) ∧ a.worker ≤ b.worker ∧ a.transport < b.transport

/-- Callbacks that come in sessions, with the worker and the transport of a session
that has not ended. -/
inductive Sessions : List Call → Option (ℕ × ℕ) → Prop
  | nil : Sessions [] none
  | lost {w : List Call} {g n : ℕ} (h : Sessions w none)
      (hnew : ∀ c ∈ w, c.worker ≤ g ∧ c.transport < n) : Sessions (w ++ [⟨.lost, g, n⟩]) none
  | connected {w : List Call} {g n : ℕ} (h : Sessions w none)
      (hnew : ∀ c ∈ w, c.worker ≤ g ∧ c.transport < n) :
      Sessions (w ++ [⟨.connected, g, n⟩]) (some (g, n))
  | envelope {w : List Call} {g n : ℕ} (h : Sessions w (some (g, n))) :
      Sessions (w ++ [⟨.envelope, g, n⟩]) (some (g, n))
  | disconnected {w : List Call} {g n : ℕ} (h : Sessions w (some (g, n))) :
      Sessions (w ++ [⟨.disconnected, g, n⟩]) none

theorem append_mem_callbackWords {u v : List Letter} (hu : u ∈ callbackWords)
    (hv : v ∈ ({[.d]} : Language Letter) + {[.c]} * ({[.e]} : Language Letter)∗ * {[.d]}) :
    u ++ v ∈ callbackWords := by
  obtain ⟨parts, rfl, hparts⟩ := Language.mem_kstar.mp hu
  refine Language.mem_kstar.mpr ⟨parts ++ [v], by simp, ?_⟩
  intro x hx
  rcases List.mem_append.mp hx with hx | hx
  · exact hparts x hx
  · obtain rfl := List.mem_singleton.mp hx
    exact hv

/-- A session with `k` envelopes is one of the alternatives. -/
theorem session_mem (k : ℕ) : .c :: List.replicate k .e ++ [.d] ∈
    ({[.d]} : Language Letter) + {[.c]} * ({[.e]} : Language Letter)∗ * {[.d]} := by
  have henvelopes : List.replicate k Letter.e ∈ ({[.e]} : Language Letter)∗ := by
    refine Language.mem_kstar.mpr ⟨List.replicate k [.e], ?_, ?_⟩
    · induction k with
      | zero => rfl
      | succ k ih => rw [List.replicate_succ, List.replicate_succ, List.flatten_cons, ← ih]; rfl
    · intro x hx
      exact (List.mem_replicate.mp hx).2
  refine (Language.mem_add _ _ _).mpr (.inr ?_)
  exact Language.append_mem_mul (Language.append_mem_mul (Set.mem_singleton _) henvelopes)
    (Set.mem_singleton _)

/-- The letters of sessions: whole words, and those of the session that has not
ended. -/
theorem Sessions.letters {w : List Call} {st : Option (ℕ × ℕ)} (h : Sessions w st) :
    match st with
    | none => w.map (·.kind.letter) ∈ callbackWords
    | some _ => ∃ u k, u ∈ callbackWords ∧
        w.map (·.kind.letter) = u ++ .c :: List.replicate k .e := by
  induction h with
  | nil => exact Language.nil_mem_kstar _
  | lost _ _ ih =>
      rw [List.map_append]
      exact append_mem_callbackWords ih ((Language.mem_add _ _ _).mpr (.inl (Set.mem_singleton _)))
  | @connected w _ _ _ _ ih =>
      refine ⟨w.map (·.kind.letter), 0, ih, ?_⟩
      rw [List.map_append]
      rfl
  | envelope _ ih =>
      obtain ⟨u, k, hu, hw⟩ := ih
      refine ⟨u, k + 1, hu, ?_⟩
      rw [List.map_append, hw, List.replicate_succ', List.append_assoc]
      rfl
  | disconnected _ ih =>
      obtain ⟨u, k, hu, hw⟩ := ih
      rw [List.map_append, hw, List.append_assoc]
      exact append_mem_callbackWords hu (session_mem k)

theorem Sessions.is_word_begin {w : List Call} {st : Option (ℕ × ℕ)} (h : Sessions w st) :
    ∃ rest, w.map (·.kind.letter) ++ rest ∈ callbackWords := by
  have hletters := h.letters
  cases st with
  | none => exact ⟨[], by rw [List.append_nil]; exact hletters⟩
  | some _ =>
      obtain ⟨u, k, hu, hw⟩ := hletters
      refine ⟨[.d], ?_⟩
      rw [hw, List.append_assoc]
      exact append_mem_callbackWords hu (session_mem k)

theorem Sessions.last {w : List Call} {st : Option (ℕ × ℕ)} (h : Sessions w st) :
    match st with
    | none => ∀ c ∈ w.getLast?, c.kind = .lost ∨ c.kind = .disconnected
    | some (g, n) => ∃ k, w.getLast? = some ⟨k, g, n⟩ ∧ (k = .connected ∨ k = .envelope) := by
  cases h with
  | nil => simp
  | lost _ _ => simp
  | connected _ _ => simp
  | envelope _ => simp
  | disconnected _ => simp

/-- One more callback behind those of its own and of earlier workers. -/
theorem ordered_concat {w : List Call} {c : Call} (hchain : w.IsChain Call.Follows)
    (hpair : w.Pairwise fun a b => a.worker ≤ b.worker) (hlast : ∀ x ∈ w.getLast?, x.Follows c)
    (hle : ∀ x ∈ w, x.worker ≤ c.worker) :
    (w ++ [c]).IsChain Call.Follows ∧ ((w ++ [c]).Pairwise fun a b => a.worker ≤ b.worker) ∧
      ∀ x ∈ w ++ [c], x.worker ≤ c.worker := by
  refine ⟨?_, ?_, ?_⟩
  · refine List.isChain_append.mpr ⟨hchain, .singleton c, fun x hx y hy => ?_⟩
    obtain rfl := Option.some.inj hy
    exact hlast x hx
  · refine List.pairwise_append.mpr ⟨hpair, List.pairwise_singleton _ _, fun x hx y hy => ?_⟩
    obtain rfl := List.mem_singleton.mp hy
    exact hle x hx
  · intro x hx
    rcases List.mem_append.mp hx with hx | hx
    · exact hle x hx
    · obtain rfl := List.mem_singleton.mp hx
      exact Nat.le_refl _

/-- Every callback follows the one before it, and no callback of a later worker
comes before one of an earlier one. -/
theorem Sessions.ordered {w : List Call} {st : Option (ℕ × ℕ)} (h : Sessions w st) :
    w.IsChain Call.Follows ∧ (w.Pairwise fun a b => a.worker ≤ b.worker) ∧
      ∀ g n, st = some (g, n) → ∀ c ∈ w, c.worker ≤ g := by
  induction h with
  | nil => exact ⟨.nil, .nil, by simp⟩
  | lost h hnew ih =>
      have hmore := ordered_concat (c := ⟨.lost, _, _⟩) ih.1 ih.2.1 (fun x hx =>
        ⟨h.last x hx, hnew x (List.mem_of_mem_getLast? hx)⟩) fun x hx => (hnew x hx).1
      exact ⟨hmore.1, hmore.2.1, by simp⟩
  | connected h hnew ih =>
      have hmore := ordered_concat (c := ⟨.connected, _, _⟩) ih.1 ih.2.1 (fun x hx =>
        ⟨h.last x hx, hnew x (List.mem_of_mem_getLast? hx)⟩) fun x hx => (hnew x hx).1
      refine ⟨hmore.1, hmore.2.1, fun g n hst => ?_⟩
      obtain ⟨rfl, rfl⟩ := Prod.mk.inj (Option.some.inj hst)
      exact hmore.2.2
  | envelope h ih =>
      obtain ⟨k, hk, hkind⟩ := h.last
      have hmore := ordered_concat (c := ⟨.envelope, _, _⟩) ih.1 ih.2.1 (fun x hx => by
        obtain rfl := Option.some.inj (hk.symm.trans hx)
        exact ⟨hkind, rfl, rfl⟩) (ih.2.2 _ _ rfl)
      refine ⟨hmore.1, hmore.2.1, fun g n hst => ?_⟩
      obtain ⟨rfl, rfl⟩ := Prod.mk.inj (Option.some.inj hst)
      exact hmore.2.2
  | disconnected h ih =>
      obtain ⟨k, hk, hkind⟩ := h.last
      have hmore := ordered_concat (c := ⟨.disconnected, _, _⟩) ih.1 ih.2.1 (fun x hx => by
        obtain rfl := Option.some.inj (hk.symm.trans hx)
        exact ⟨hkind, rfl, rfl⟩) (ih.2.2 _ _ rfl)
      exact ⟨hmore.1, hmore.2.1, by simp⟩

/-! ### The trace -/

def lastOpened : List IoEvent → Option (ℕ × ℕ)
  | [] => none
  | .opened g n :: _ => some (g, n)
  | _ :: es => lastOpened es

/-- The callbacks of a trace, the oldest first, each with the last connection before
it. -/
def calls : List IoEvent → List (Callback × Option (ℕ × ℕ))
  | [] => []
  | .callback k _ :: es => calls es ++ [(k, lastOpened es)]
  | _ :: es => calls es

/-- What a callback of a kind about transport `n` comes right behind: a CONNECT that
was sent, a `recv` of a record that was accepted, or a `close` of that transport. -/
def Behind (n : ℕ) (k : Callback) (es : List IoEvent) : Prop :=
  match k with
  | .connected => ∃ rest, es = .sendEnd (some n) true :: .sendBegin (some n) .connect :: rest
  | .envelope => ∃ rest, es = .recvEnd (some n) (.record true) :: rest
  | .lost | .disconnected => ∃ rest, es = .closeEnd (some n) :: rest

/-- Every callback in a trace comes behind the event on the last transport that
gives rise to it. -/
def Grounded : List IoEvent → Prop
  | [] => True
  | .callback k _ :: es => (∃ g n, lastOpened es = some (g, n) ∧ Behind n k es) ∧ Grounded es
  | _ :: es => Grounded es

def IoEvent.plain : IoEvent → Bool
  | .opened _ _ | .callback _ _ => false
  | _ => true

theorem lastOpened_plain {e : IoEvent} (he : e.plain = true) (es : List IoEvent) :
    lastOpened (e :: es) = lastOpened es := by
  cases e <;> first | rfl | cases he

theorem calls_plain {e : IoEvent} (he : e.plain = true) (es : List IoEvent) :
    calls (e :: es) = calls es := by
  cases e <;> first | rfl | cases he

theorem grounded_plain {e : IoEvent} (he : e.plain = true) (es : List IoEvent) :
    Grounded (e :: es) = Grounded es := by
  cases e <;> first | rfl | cases he

/-! ### The worker -/

inductive Talk
  | away
  | given (n : ℕ)
  | before
  | asking
  | asked (ok : Bool)
  | inside
  deriving DecidableEq, Repr

def Wrk.talk : Wrk → Talk
  | .setTransport n => .given n
  | .recheck | .hsBuild | .hsState | .hsSend => .before
  | .hsCall => .asking
  | .hsDone ok => .asked ok
  | .callback .connected | .callback .envelope | .recvTop | .recvState | .recvLock | .recvCall =>
      .inside
  | .closeState .session | .closeLock .session | .closeCall .session => .inside
  | .closeState .shutdown | .closeLock .shutdown | .closeCall .shutdown => .before
  | .closeState .handshake | .closeLock .handshake | .closeCall .handshake => .before
  | _ => .away

/-- A session that may begin: all others are over, and are about earlier
transports than the last one. -/
structure Pending (es : List IoEvent) (w : List Call) (g n : ℕ) : Prop where
  past : Sessions w none
  opened : lastOpened es = some (g, n)
  fresh : ∀ c ∈ w, c.transport < n

/-- What is known where a worker stands, the client's transport being `t`. -/
def Talk.Knows (es : List IoEvent) (w : List Call) (g : ℕ) (t : Option ℕ) : Talk → Prop
  | .away => Sessions w none
  | .given n => Pending es w g n
  | .before => ∃ n, t = some n ∧ Pending es w g n
  | .asking => ∃ n, t = some n ∧ Pending es w g n ∧ ∃ rest, es = .sendBegin (some n) .connect :: rest
  | .asked ok => ∃ n, t = some n ∧ Pending es w g n ∧
      ∃ rest, es = .sendEnd (some n) ok :: .sendBegin (some n) .connect :: rest
  | .inside => ∃ n, t = some n ∧ lastOpened es = some (g, n) ∧ Sessions w (some (g, n))

/-- The callbacks `w` are what a client has gone through, those that are not set
included. -/
structure Told {ι : Type*} (cfg : Config) (s : Client ι) (w : List Call) : Prop where
  noted : calls s.link.trace =
    (w.filter fun c => cfg.has c.kind).map fun c => (c.kind, some (c.worker, c.transport))
  grounded : Grounded s.link.trace
  bounds : ∀ c ∈ w, c.worker ≤ s.life.workerThread ∧ c.transport < s.link.transports

/-- They are those of sessions, as far as the last worker has come. -/
structure Telling {ι : Type*} (cfg : Config) (s : Client ι) (w : List Call) : Prop extends
    Told cfg s w where
  knows : (s.wrk s.life.workerThread).talk.Knows s.link.trace w s.life.workerThread
    s.link.transport

theorem Talk.Knows.sessions {es : List IoEvent} {w : List Call} {g : ℕ} {t : Option ℕ} {k : Talk}
    (h : k.Knows es w g t) : ∃ st, Sessions w st := by
  cases k with
  | away => exact ⟨_, h⟩
  | given n => exact ⟨_, h.past⟩
  | before =>
      obtain ⟨n, -, hp⟩ := h
      exact ⟨_, hp.past⟩
  | asking =>
      obtain ⟨n, -, hp, -⟩ := h
      exact ⟨_, hp.past⟩
  | asked ok =>
      obtain ⟨n, -, hp, -⟩ := h
      exact ⟨_, hp.past⟩
  | inside =>
      obtain ⟨n, -, -, hw⟩ := h
      exact ⟨_, hw⟩

theorem Talk.Knows.later {es : List IoEvent} {w : List Call} {g : ℕ} {t : Option ℕ} {k : Talk}
    {e : IoEvent} (h : k.Knows es w g t) (he : lastOpened (e :: es) = lastOpened es)
    (hasking : k ≠ .asking) (hasked : ∀ ok, k ≠ .asked ok) : k.Knows (e :: es) w g t := by
  have hpending {n : ℕ} (hp : Pending es w g n) : Pending (e :: es) w g n :=
    ⟨hp.past, he.trans hp.opened, hp.fresh⟩
  cases k with
  | away => exact h
  | given n => exact hpending h
  | before =>
      obtain ⟨n, ht, hp⟩ := h
      exact ⟨n, ht, hpending hp⟩
  | asking => exact absurd rfl hasking
  | asked ok => exact absurd rfl (hasked ok)
  | inside =>
      obtain ⟨n, ht, hopened, hw⟩ := h
      exact ⟨n, ht, he.trans hopened, hw⟩

theorem Wrk.Woken.talk {pc pc' : Wrk} (h : pc.Woken pc') : pc'.talk = pc.talk := by
  rcases h with rfl | rfl | rfl
  · rfl
  · cases pc <;> rfl
  · cases pc <;> rfl

theorem Wrk.talk_of_ended {pc : Wrk} (h : pc.stage.live = false) : pc.talk = .away := by
  cases pc <;> first | rfl | cases h

/-- A worker that waits for the CONNECT to be sent has the transport for itself. -/
theorem Wrk.stand_of_talk {pc : Wrk} (h : pc.talk = .asking ∨ ∃ ok, pc.talk = .asked ok) :
    .connected ∉ pc.stand.states ∧ .sending ∉ pc.stand.phases := by
  cases pc with
  | hsCall => simp [Wrk.stand, Stand.states, Stand.phases]
  | hsDone ok => cases ok <;> simp [Wrk.stand, Stand.states, Stand.phases]
  | closeState k => cases k <;> simp [Wrk.talk] at h
  | closeLock k => cases k <;> simp [Wrk.talk] at h
  | closeCall k => cases k <;> simp [Wrk.talk] at h
  | callback k => cases k <;> simp [Wrk.talk] at h
  | _ => simp [Wrk.talk] at h

section Told

variable {ι : Type*} {cfg : Config} {s s' : Client ι} {w : List Call} {g : ℕ}

theorem Told.same (h : Told cfg s w) (htrace : s'.link.trace = s.link.trace)
    (hcount : s'.link.transports = s.link.transports)
    (hworker : s.life.workerThread ≤ s'.life.workerThread) : Told cfg s' w := by
  refine ⟨?_, ?_, ?_⟩
  · rw [htrace]
    exact h.noted
  · rw [htrace]
    exact h.grounded
  · intro c hc
    obtain ⟨hle, hlt⟩ := h.bounds c hc
    exact ⟨hle.trans hworker, hcount ▸ hlt⟩

theorem Told.event (h : Told cfg s w) {e : IoEvent} (he : e.plain = true)
    (htrace : s'.link.trace = e :: s.link.trace) (hcount : s'.link.transports = s.link.transports)
    (hworker : s'.life.workerThread = s.life.workerThread) : Told cfg s' w := by
  refine ⟨?_, ?_, ?_⟩
  · rw [htrace, calls_plain he]
    exact h.noted
  · rw [htrace, grounded_plain he]
    exact h.grounded
  · rw [hworker, hcount]
    exact h.bounds

theorem Told.run (h : Told cfg s w) (hg : g = s.life.workerThread) {pc : Wrk}
    (hknows : pc.talk.Knows s.link.trace w g s.link.transport) : Telling cfg (s.run g pc) w := by
  subst hg
  refine ⟨⟨h.noted, h.grounded, h.bounds⟩, ?_⟩
  show ((Function.update s.wrk s.life.workerThread pc) s.life.workerThread).talk.Knows _ _ _ _
  rw [Function.update_self]
  exact hknows

/-- The last worker invokes a callback about the last transport, or would if it
were set. -/
theorem Told.notify (h : Told cfg s w) (hg : g = s.life.workerThread) {k : Callback} {n : ℕ}
    (b : Bool) (hopened : lastOpened s.link.trace = some (g, n)) (hbehind : Behind n k s.link.trace)
    (hlt : n < s.link.transports)
    (hknows : (Wrk.callback k).talk.Knows s.link.trace (w ++ [⟨k, g, n⟩]) g s.link.transport) :
    Telling cfg (Client.notify cfg s g k b) (w ++ [⟨k, g, n⟩]) := by
  have hbounds : ∀ c ∈ w ++ [⟨k, g, n⟩],
      c.worker ≤ s.life.workerThread ∧ c.transport < s.link.transports := by
    intro c hc
    rcases List.mem_append.mp hc with hc | hc
    · exact h.bounds c hc
    · obtain rfl := List.mem_singleton.mp hc
      exact ⟨hg.le, hlt⟩
  unfold Client.notify
  split
  · next hset =>
      have htold : Told cfg (s.noteIo (.callback k b)) (w ++ [⟨k, g, n⟩]) := by
        refine ⟨?_, ⟨⟨g, n, hopened, hbehind⟩, h.grounded⟩, hbounds⟩
        show calls s.link.trace ++ [(k, lastOpened s.link.trace)] = _
        rw [List.filter_append, List.map_append, h.noted, hopened]
        simp [hset]
      refine htold.run hg (hknows.later rfl ?_ ?_)
      · cases k <;> nofun
      · cases k <;> nofun
  · next hunset =>
      refine Told.run ⟨?_, h.grounded, hbounds⟩ hg ?_
      · rw [List.filter_append, List.map_append, h.noted]
        simp [hunset]
      · cases k <;> exact hknows

end Told

namespace Client

variable {ι : Type*} {cfg : Config} {s s' : Client ι} {w : List Call} {g : ℕ}

/-! ### The steps of a call -/

section Calls

variable [DecidableEq ι] {t : Tid ι} {c : Choice}

/-- A call neither opens nor closes a transport, and the only events it adds are
those of a send. -/
theorem apiStep_trace (h : s.apiStep t c = some s') :
    s'.link.transport = s.link.transport ∧ s'.link.transports = s.link.transports ∧
      (s'.link.trace = s.link.trace ∨
        (s.api t = .sendLock ∨ s.api t = .sendCall) ∧
          ∃ e, e.plain = true ∧ s'.link.trace = e :: s.link.trace) := by
  by_cases hq : touches (s.api t) = false
  · rw [(apiStep_link hq h).1]
    exact ⟨rfl, rfl, .inl rfl⟩
  · cases moves_of_apiStep h with
    | @startCreate o => cases o <;> exact ⟨rfl, rfl, .inl rfl⟩
    | stopMarkSelf | stopMark =>
        unfold markTransportStopping
        split <;> exact ⟨rfl, rfl, .inl rfl⟩
    | sendState =>
        unfold sendState
        split <;> exact ⟨rfl, rfl, .inl rfl⟩
    | sendLock hpc => exact ⟨rfl, rfl, .inr ⟨.inl hpc, _, rfl, rfl⟩⟩
    | sendCall hpc => exact ⟨rfl, rfl, .inr ⟨.inr hpc, _, rfl, rfl⟩⟩
    | _ =>
        rename_i hpc
        exact absurd (by rw [hpc]; rfl) hq

omit [DecidableEq ι] in
/-- Nobody sends while a CONNECT is under way. -/
theorem not_asking (hl : s.toLink.Inv) (hpc : s.api t = .sendLock ∨ s.api t = .sendCall) :
    (s.wrk s.life.workerThread).talk ≠ .asking ∧
      ∀ ok, (s.wrk s.life.workerThread).talk ≠ .asked ok := by
  have hnot : ¬ ((s.wrk s.life.workerThread).talk = .asking ∨
      ∃ ok, (s.wrk s.life.workerThread).talk = .asked ok) := by
    intro htalk
    obtain ⟨hstate, hphase⟩ := Wrk.stand_of_talk htalk
    rcases hpc with hpc | hpc
    · have hconnected := hl.locked (t := t) (show (s.api t).sender = .locked by rw [hpc]; rfl)
      have hmem := hl.state
      rw [hconnected] at hmem
      exact hstate hmem
    · obtain ⟨n, hn, hsending⟩ :=
        hl.sending (t := t) (show (s.api t).sender = .sending by rw [hpc]; rfl)
      obtain ⟨-, p, hp, hphase'⟩ := hl.current (hl.current_of_sending hsending)
      rw [hsending] at hphase'
      obtain rfl := Option.some.inj hphase'
      exact hphase hp
  exact ⟨fun h => hnot (.inl h), fun ok h => hnot (.inr ⟨ok, h⟩)⟩

theorem telling_apiStep (h : Telling cfg s w) (hl : s.toLink.Inv)
    (haway : s.api t = .startCreate → (s.wrk s.life.workerThread).talk = .away)
    (hstep : s.apiStep t c = some s') : Telling cfg s' w := by
  obtain ⟨htransport, hcount, htrace⟩ := apiStep_trace hstep
  rcases apiStep_wrk hstep with ⟨hworker, hwake⟩ | ⟨hpc, hworker, hwrk⟩
  · have htalk := (hwake s.life.workerThread).talk
    rcases htrace with htrace | ⟨hpc, e, he, htrace⟩
    · refine ⟨h.toTold.same htrace hcount hworker.ge, ?_⟩
      rw [htrace, htransport, hworker, htalk]
      exact h.knows
    · obtain ⟨hasking, hasked⟩ := not_asking hl hpc
      refine ⟨h.toTold.event he htrace hcount hworker, ?_⟩
      rw [htrace, htransport, hworker, htalk]
      exact h.knows.later (lastOpened_plain he _) hasking hasked
  · -- A worker is created: the one before it has ended.
    have hover : Sessions w none := by
      have hknows := h.knows
      rw [haway hpc] at hknows
      exact hknows
    have hsame : s'.link.trace = s.link.trace := by
      rcases htrace with htrace | ⟨hpc', -⟩
      · exact htrace
      · rw [hpc] at hpc'
        rcases hpc' with hpc' | hpc' <;> cases hpc'
    refine ⟨h.toTold.same hsame hcount (by omega), ?_⟩
    rw [hworker, hwrk, Function.update_self]
    exact hover

end Calls

/-! ### The steps of the worker -/

theorem telling_stay (h : Telling cfg s w) (hg : g = s.life.workerThread) {pc pc' : Wrk}
    (hpc : s.wrk g = pc) (htalk : pc'.talk = pc.talk) : Telling cfg (s.run g pc') w := by
  refine h.toTold.run hg ?_
  have hknows := h.knows
  rw [← hg, hpc] at hknows
  rw [htalk]
  exact hknows

theorem knows_at (h : Telling cfg s w) (hg : g = s.life.workerThread) {pc : Wrk}
    (hpc : s.wrk g = pc) : pc.talk.Knows s.link.trace w g s.link.transport := by
  have hknows := h.knows
  rwa [← hg, hpc] at hknows

/-- An event of the worker, after which it stands as before. -/
theorem telling_event (h : Telling cfg s w) (hg : g = s.life.workerThread) {pc pc' : Wrk}
    (hpc : s.wrk g = pc) {e : IoEvent} (he : e.plain = true) (htalk : pc'.talk = pc.talk)
    (hasking : pc.talk ≠ .asking) (hasked : ∀ ok, pc.talk ≠ .asked ok) :
    Telling cfg ((s.noteIo e).run g pc') w := by
  have htold : Told cfg (s.noteIo e) w := h.toTold.event he rfl rfl rfl
  refine htold.run hg ?_
  rw [htalk]
  exact (knows_at h hg hpc).later (lastOpened_plain he _) hasking hasked

theorem telling_connected (h : Telling cfg s w) (hg : g = s.life.workerThread)
    (hpc : s.wrk g = .connecting) :
    Telling cfg ({ s with link := { s.link with
        transports := s.link.transports + 1
        trace := .opened g s.link.transports :: s.link.trace } }.run g
      (.setTransport s.link.transports)) w := by
  have hover : Sessions w none := knows_at h hg hpc
  have htold : Told cfg { s with link := { s.link with
      transports := s.link.transports + 1
      trace := .opened g s.link.transports :: s.link.trace } } w := by
    refine ⟨h.noted, h.grounded, fun c hc => ?_⟩
    obtain ⟨hle, hlt⟩ := h.bounds c hc
    exact ⟨hle, Nat.lt_succ_of_lt hlt⟩
  exact htold.run hg ⟨hover, rfl, fun c hc => (h.bounds c hc).2⟩

theorem telling_setTransport (h : Telling cfg s w) (hg : g = s.life.workerThread) {n : ℕ}
    (hpc : s.wrk g = .setTransport n) : Telling cfg ((s.setTransport n).run g .recheck) w := by
  have htold : Told cfg (s.setTransport n) w := h.toTold.same rfl rfl (Nat.le_refl _)
  exact htold.run hg ⟨n, rfl, knows_at h hg hpc⟩

theorem telling_hsState (h : Telling cfg s w) (hg : g = s.life.workerThread)
    (hpc : s.wrk g = .hsState) : Telling cfg (s.hsState g) w := by
  unfold hsState
  split
  · exact telling_stay h hg hpc rfl
  · have htold : Told cfg { s with link := { s.link with connectionState := .handshaking } } w :=
      h.toTold.same rfl rfl (Nat.le_refl _)
    obtain ⟨n, hn, hpending⟩ := knows_at h hg hpc
    exact htold.run hg ⟨n, hn, hpending⟩

theorem telling_hsSend (h : Telling cfg s w) (hg : g = s.life.workerThread)
    (hpc : s.wrk g = .hsSend) :
    Telling cfg ((s.noteIo (.sendBegin s.link.transport .connect)).run g .hsCall) w := by
  have htold : Told cfg (s.noteIo (.sendBegin s.link.transport .connect)) w :=
    h.toTold.event rfl rfl rfl rfl
  obtain ⟨n, hn, hpending⟩ := knows_at h hg hpc
  refine htold.run hg ⟨n, hn, ⟨hpending.past, hpending.opened, hpending.fresh⟩, s.link.trace, ?_⟩
  rw [← hn]
  rfl

theorem telling_hsCall (h : Telling cfg s w) (hg : g = s.life.workerThread)
    (hpc : s.wrk g = .hsCall) (ok : Bool) :
    Telling cfg ((s.noteIo (.sendEnd s.link.transport ok)).run g (.hsDone ok)) w := by
  have htold : Told cfg (s.noteIo (.sendEnd s.link.transport ok)) w :=
    h.toTold.event rfl rfl rfl rfl
  obtain ⟨n, hn, hpending, rest, hrest⟩ := knows_at h hg hpc
  refine htold.run hg ⟨n, hn, ⟨hpending.past, hpending.opened, hpending.fresh⟩, rest, ?_⟩
  rw [← hrest, ← hn]
  rfl

/-- A step of worker `g` makes `w` to `w'`. -/
def Adds (g : ℕ) (w w' : List Call) : Prop := w' = w ∨ ∃ k n, w' = w ++ [⟨k, g, n⟩]

/-- The connection is announced behind the CONNECT, or closed. -/
theorem telling_hsDone (h : Telling cfg s w) (hg : g = s.life.workerThread) {ok : Bool}
    (hpc : s.wrk g = .hsDone ok) (hlt : ∀ n, s.link.transport = some n → n < s.link.transports) :
    ∃ w', Telling cfg (hsDone cfg s g ok) w' ∧ Adds g w w' := by
  obtain ⟨n, hn, hpending, rest, hrest⟩ := knows_at h hg hpc
  unfold hsDone
  split
  · next hok =>
      obtain ⟨rfl, -⟩ := hok
      have hnew : ∀ c ∈ w, c.worker ≤ g ∧ c.transport < n := fun c hc =>
        ⟨hg ▸ (h.bounds c hc).1, hpending.fresh c hc⟩
      have htold : Told cfg { s with link := { s.link with
          connectionState := .connected
          hasConnectedBefore := true } } w := h.toTold.same rfl rfl (Nat.le_refl _)
      exact ⟨_, htold.notify hg _ hpending.opened ⟨rest, hrest⟩ (hlt n hn)
        ⟨n, hn, hpending.opened, .connected hpending.past hnew⟩, .inr ⟨_, _, rfl⟩⟩
  · exact ⟨w, h.toTold.run hg ⟨n, hn, hpending⟩, .inl rfl⟩

theorem telling_recvCall (h : Telling cfg s w) (hg : g = s.life.workerThread)
    (hpc : s.wrk g = .recvCall) (hlt : ∀ n, s.link.transport = some n → n < s.link.transports)
    (o : RecvOutcome) : ∃ w', Telling cfg (recvCall cfg s g o) w' ∧ Adds g w w' := by
  have htold : Told cfg (s.noteIo (.recvEnd s.link.transport o)) w := h.toTold.event rfl rfl rfl rfl
  obtain ⟨n, hn, hopened, hw⟩ := knows_at h hg hpc
  have hstay {pc : Wrk} (hpc' : pc.talk = .inside) :
      Telling cfg ((s.noteIo (.recvEnd s.link.transport o)).run g pc) w :=
    telling_event h hg hpc rfl hpc' nofun nofun
  cases o with
  | again => exact ⟨w, hstay rfl, .inl rfl⟩
  | broken => exact ⟨w, hstay rfl, .inl rfl⟩
  | record accepted =>
      cases accepted with
      | false => exact ⟨w, hstay rfl, .inl rfl⟩
      | true =>
          refine ⟨_, htold.notify hg false (n := n) hopened ⟨s.link.trace, ?_⟩ (hlt n hn)
            ⟨n, hn, hopened, .envelope hw⟩, .inr ⟨_, _, rfl⟩⟩
          rw [← hn]
          rfl

/-- A transport that was closed is over, and so is its session. -/
theorem telling_closeCall (h : Telling cfg s w) (hg : g = s.life.workerThread) {k : CloseFor}
    (hpc : s.wrk g = .closeCall k) (hlt : ∀ n, s.link.transport = some n → n < s.link.transports) :
    ∃ w', Telling cfg (closeCall cfg s g k) w' ∧ Adds g w w' := by
  have htold : Told cfg { s with link := { s.link with
      transport := none
      connectionState := .disconnected
      trace := .closeEnd s.link.transport :: s.link.trace } } w := h.toTold.event rfl rfl rfl rfl
  have hknows := knows_at h hg hpc
  unfold closeCall
  cases k with
  | shutdown =>
      obtain ⟨n, -, hpending⟩ := hknows
      exact ⟨w, htold.run hg hpending.past, .inl rfl⟩
  | final => exact ⟨w, htold.run hg hknows, .inl rfl⟩
  | handshake =>
      obtain ⟨n, hn, hpending⟩ := hknows
      have hnew : ∀ c ∈ w, c.worker ≤ g ∧ c.transport < n := fun c hc =>
        ⟨hg ▸ (h.bounds c hc).1, hpending.fresh c hc⟩
      refine ⟨_, htold.notify hg false (n := n) hpending.opened ⟨s.link.trace, ?_⟩ (hlt n hn)
        (.lost hpending.past hnew), .inr ⟨_, _, rfl⟩⟩
      rw [← hn]
  | session =>
      obtain ⟨n, hn, hopened, hw⟩ := hknows
      refine ⟨_, htold.notify hg false (n := n) hopened ⟨s.link.trace, ?_⟩ (hlt n hn)
        (.disconnected hw), .inr ⟨_, _, rfl⟩⟩
      rw [← hn]

theorem telling_closeLock (h : Telling cfg s w) (hl : s.toLink.Inv)
    (hg : g = s.life.workerThread) {k : CloseFor} (hpc : s.wrk g = .closeLock k) :
    Telling cfg (closeLock cfg s g k) w := by
  unfold closeLock
  split
  · cases k with
    | _ => exact telling_event h hg hpc rfl rfl nofun nofun
  · next hstate =>
      -- Only the last close finds the client disconnected.
      have hmem := state_mem hl hg hpc
      rw [not_not.mp hstate] at hmem
      cases k with
      | final => exact telling_stay h hg hpc rfl
      | _ => simp [Wrk.stand, Stand.states] at hmem

theorem telling_branch (h : Telling cfg s w) (hg : g = s.life.workerThread) {pc yes no : Wrk}
    (hpc : s.wrk g = pc) (hyes : yes.talk = pc.talk) (hno : no.talk = pc.talk) :
    Telling cfg (s.shutdownBranch g yes no) w := by
  unfold shutdownBranch
  split
  · exact telling_stay h hg hpc hyes
  · exact telling_stay h hg hpc hno

/-- A worker without a session goes on, whatever it does to the life of the
client. -/
theorem telling_away (h : Telling cfg s w) (hg : g = s.life.workerThread)
    (haway : (s.wrk g).talk = .away) (hlink : s'.link = s.link)
    (hworker : s'.life.workerThread = s.life.workerThread) {pc : Wrk} (hpc : pc.talk = .away) :
    Telling cfg (s'.run g pc) w := by
  have htold : Told cfg s' w := h.toTold.same (by rw [hlink]) (by rw [hlink]) hworker.ge
  have hknows := knows_at h hg rfl
  rw [haway] at hknows
  refine htold.run (hg.trans hworker.symm) ?_
  rw [hpc]
  exact hknows

theorem telling_workerStep {c : Choice} (h : Telling cfg s w) (hl : s.toLink.Inv)
    (hg : g = s.life.workerThread) (hstep : workerStep cfg s g c = some s') :
    ∃ w', Telling cfg s' w' ∧ Adds g w w' := by
  have hlt (hcar : (s.wrk g).stand.carries = true) :
      ∀ n, s.link.transport = some n → n < s.link.transports := by
    intro n hn
    have hcur : s.toLink.current = some n := by
      rw [← hn]
      exact Stand.current_eq (by rw [stand_toLink hg rfl]; exact hcar)
    exact (hl.current hcur).1
  cases moves_of_workerStep hstep with
  | top hpc | recheck hpc | recvTop hpc | backoffTest hpc =>
      exact ⟨w, telling_branch h hg hpc rfl rfl, .inl rfl⟩
  | connected hpc => exact ⟨w, telling_connected h hg hpc, .inl rfl⟩
  | setTransport hpc => exact ⟨w, telling_setTransport h hg hpc, .inl rfl⟩
  | @hsBuild ok hpc => exact ⟨w, telling_stay h hg hpc (by cases ok <;> rfl), .inl rfl⟩
  | hsState hpc => exact ⟨w, telling_hsState h hg hpc, .inl rfl⟩
  | hsSend hpc => exact ⟨w, telling_hsSend h hg hpc, .inl rfl⟩
  | hsCall hpc => exact ⟨w, telling_hsCall h hg hpc _, .inl rfl⟩
  | hsDone hpc => exact telling_hsDone h hg hpc (hlt (by rw [hpc]; rfl))
  | recvState hpc =>
      unfold recvState
      split
      · exact ⟨w, telling_stay h hg hpc rfl, .inl rfl⟩
      · exact ⟨w, telling_stay h hg hpc rfl, .inl rfl⟩
  | recvLock hpc => exact ⟨w, telling_event h hg hpc rfl rfl nofun nofun, .inl rfl⟩
  | recvCall hpc => exact telling_recvCall h hg hpc (hlt (by rw [hpc]; rfl)) _
  | @closeState k hpc => exact ⟨w, telling_stay h hg hpc (by cases k <;> rfl), .inl rfl⟩
  | closeLock hpc => exact ⟨w, telling_closeLock h hl hg hpc, .inl rfl⟩
  | closeCall hpc => exact telling_closeCall h hg hpc (hlt (by rw [hpc]; rfl))
  | fin1 hpc =>
      unfold fin1
      split
      · exact ⟨w, telling_away h hg (by rw [hpc]; rfl) (by rfl) (by rfl) (by rfl), .inl rfl⟩
      · exact ⟨w, telling_stay h hg hpc rfl, .inl rfl⟩
  | fin3 hpc =>
      have haway : (s.wrk g).talk = .away := by rw [hpc]; rfl
      unfold fin3
      split
      · exact ⟨w, telling_away h hg haway (by rfl) (by rfl) (by split <;> rfl), .inl rfl⟩
      · exact ⟨w, telling_away h hg haway (by rfl) (by rfl) (by split <;> rfl), .inl rfl⟩
  | removeTest hpc =>
      split
      · exact ⟨w, telling_stay h hg hpc rfl, .inl rfl⟩
      · exact ⟨w, telling_away h hg (by rw [hpc]; rfl) (by rfl) (by rfl) (by rfl), .inl rfl⟩
  -- What is left happens without a session.
  | _ =>
      rename_i hpc
      exact ⟨w, telling_away h hg (by rw [hpc]; rfl) (by rfl) (by rfl) (by rfl), .inl rfl⟩

theorem telling_body [DecidableEq ι] {t : Tid ι} {c : Choice} (h : Telling cfg s w)
    (hinv : s.toLife.Inv) (hl : s.toLink.Inv) (hbody : s.body cfg t c = some s') :
    ∃ w', Telling cfg s' w' ∧ (w' = w ∨ ∃ g k n, t = .wrk g ∧ w' = w ++ [⟨k, g, n⟩]) := by
  rcases body_cases hbody with ⟨g, k, rfl, hpc, -, rfl⟩ | ⟨-, hstep⟩ | ⟨g, rfl, -, hstep⟩
  · have hg : g = s.life.workerThread :=
      (hinv.live_worker (g := g) (by rw [stage_toLife hpc]; rfl)).1
    exact ⟨w, telling_stay h hg hpc (by cases k <;> rfl), .inl rfl⟩
  · refine ⟨w, telling_apiStep h hl (fun hpc => Wrk.talk_of_ended ?_) hstep, .inl rfl⟩
    -- Before a worker is created, the one before it is gone.
    by_contra hlive
    have hstart := (hinv.live_worker (Bool.not_eq_false _ ▸ hlive)).2
    rw [(hinv.role (role_toLife hpc)).1] at hstart
    cases hstart
  · obtain ⟨w', hw', hadds⟩ := telling_workerStep h hl (worker_of_workerStep hinv hstep) hstep
    refine ⟨w', hw', hadds.imp_right ?_⟩
    rintro ⟨k, n, heq⟩
    exact ⟨g, k, n, rfl, heq⟩


end Client

/-! ### Whole runs -/

section Runs

open Client

variable {ι : Type*} [DecidableEq ι] {cfg : Config}

structure CallbacksOk (cfg : Config) (es : List IoEvent) : Prop where
  /-- They are the ones that are set among callbacks that begin a word of
  `(D | C E* D)*`, one session after the other, and worker after worker. -/
  sessions : ∃ w : List Call,
    calls es =
        (w.filter fun c => cfg.has c.kind).map (fun c => (c.kind, some (c.worker, c.transport))) ∧
      (∃ rest, w.map (·.kind.letter) ++ rest ∈ callbackWords) ∧
      w.IsChain Call.Follows ∧ w.Pairwise fun a b => a.worker ≤ b.worker
  /-- Each comes right behind what it reports on the last transport. -/
  grounded : Grounded es

omit [DecidableEq ι] in
theorem telling_created : Telling cfg (created : Client ι) [] :=
  ⟨⟨rfl, trivial, by simp⟩, .nil⟩

theorem telling_reach {s : Locked (Client ι) (Tid ι) Lock} (h : (client ι cfg).system.Reach s) :
    (∃ w, Telling cfg s.core w) ∧ s.core.toLife.Inv ∧ s.core.toLink.Inv := by
  obtain ⟨⟨hinv, -, hl, hw⟩, -⟩ :=
    Threads.invariant
      (I := fun s => s.toLife.Inv ∧ s.Tidy ∧ s.toLink.Inv ∧ ∃ w, Telling cfg s w)
      (client_lawful.mono fun _ hs => hs.2.1)
      ⟨inv_created, Tidy.created, link_created, [], telling_created⟩ (by
        rintro s t c s' ⟨hinv, htidy, hl, w, hw⟩ halone - hbody
        obtain ⟨w', hw', -⟩ := telling_body hw hinv hl hbody
        exact ⟨(path_body htidy hinv halone hbody).inv hinv, htidy.body hbody,
          link_body htidy hinv hl halone hbody, w', hw'⟩) h
  exact ⟨hw, hinv, hl⟩

/-- A client is started, receives a record that is accepted, and is stopped. -/
def envelopeTurns : List (Tid Unit × Choice) :=
  startTurns (.ext ()) ++ connectTurns 1 ++ List.replicate 4 (.wrk 1, .go) ++
    (.wrk 1, .recv (.record true)) :: (.ext (), .call .stop) :: List.replicate 3 (.ext (), .go) ++
    List.replicate 12 (.wrk 1, .go) ++ List.replicate 3 (.ext (), .go)

end Runs

end Savvy.MgrIpc
