import Savvy.Stream.Sends

/-!
Where the records of a session's sends are: with the send that allocated a
record, with the request that was accepted with it, or released. Every step of a
send or of the channel keeps `Records`, which says so.
-/

namespace Savvy.Stream

open Kit Tcp

variable {ι : Type*} [DecidableEq ι] {cfg : ChannelConfig}

/-! ### What the channel does meanwhile -/

/-- A step of the channel that starts no call, ends none and completes nothing. -/
structure Quiet (q q' : Requests ι) : Prop where
  nextRequest : q'.nextRequest = q.nextRequest
  completed : q'.completed = q.completed
  request : ∀ i, (q'.submit i).request = (q.submit i).request
  accepted : q'.accepted = q.accepted ∨
    ∃ i item, q.submit i = .pushing item ∧ q'.accepted = q.accepted ++ [item.request]

/-- The steps of `Sends.channelStep` that have no case of their own. -/
def IsQuiet : Act ι → Bool
  | .call _ _ | .ret _ | .process _ => false
  | _ => true

theorem Quiet.goto {q : Requests ι} {i : ι} {pc : SubmitPc}
    (h : pc.request = (q.submit i).request) : Quiet q (q.goto i pc) where
  nextRequest := rfl
  completed := rfl
  request j := by
    change (Function.update q.submit i pc j).request = _
    by_cases hj : j = i
    · subst hj
      rw [Function.update_self, h]
    · rw [Function.update_of_ne hj]
  accepted := .inl rfl

theorem quiet_of_submitStep {q q' : Requests ι} {a : Act ι} (ha : IsQuiet a = true)
    (h : q.submitStep cfg a = some q') : Quiet q q' := by
  cases a with
  | enter i seen =>
      simp only [Requests.submitStep] at h
      split at h
      · next r args hpc =>
          obtain rfl := Option.some.inj h
          apply Quiet.goto
          rw [hpc]
          unfold Requests.enterStep
          repeat' split
          all_goals rfl
      · cases h
  | check i =>
      simp only [Requests.submitStep] at h
      split at h
      · next r args hpc =>
          obtain rfl := Option.some.inj h
          apply Quiet.goto
          rw [hpc]
          unfold Requests.checkStep
          repeat' split
          all_goals rfl
      · cases h
  | copy i ok =>
      simp only [Requests.submitStep] at h
      split at h
      · next r args packet hpc =>
          split at h
          · obtain rfl := Option.some.inj h
            have := @Quiet.goto _ _ q i (.pushing (Requests.makeItem r args packet)) (by rw [hpc]; rfl)
            exact ⟨this.nextRequest, this.completed, this.request, .inl rfl⟩
          · obtain rfl := Option.some.inj h
            exact Quiet.goto (by rw [hpc]; rfl)
      · cases h
  | tryPush i =>
      simp only [Requests.submitStep] at h
      split at h
      · next item hpc =>
          split at h
          · obtain rfl := Option.some.inj h
            have := @Quiet.goto _ _ q i (.returning item.request .ok) (by rw [hpc]; rfl)
            exact ⟨this.nextRequest, this.completed, this.request, .inr ⟨i, item, hpc, rfl⟩⟩
          · next status _ _ _ =>
              obtain rfl := Option.some.inj h
              have := @Quiet.goto _ _ q i (.rejecting item status) (by rw [hpc]; rfl)
              exact ⟨this.nextRequest, this.completed, this.request, .inl rfl⟩
      · cases h
  | reject i =>
      simp only [Requests.submitStep] at h
      split at h
      · next item status hpc =>
          obtain rfl := Option.some.inj h
          have := @Quiet.goto _ _ q i (.returning item.request status) (by rw [hpc]; rfl)
          exact ⟨this.nextRequest, this.completed, this.request, .inl rfl⟩
      · cases h
  | call _ _ | ret _ | process _ => cases ha
  | _ => cases h

theorem quiet_of_step {q q' : Requests ι} {a : Act ι} (ha : IsQuiet a = true)
    (h : q.step cfg a = some q') : Quiet q q' := by
  cases a with
  | call _ _ | ret _ | process _ => cases ha
  | enter _ _ | check _ | copy _ _ | tryPush _ | reject _ =>
      simp only [Requests.step] at h
      split at h
      · cases h
      · exact quiet_of_submitStep rfl h
  | pop =>
      simp only [Requests.step, Requests.workerStep] at h
      repeat' split at h
      all_goals first
        | (obtain rfl := Option.some.inj h; exact ⟨rfl, rfl, fun _ => rfl, .inl rfl⟩)
        | cases h
  | free | exit =>
      simp only [Requests.step, Requests.workerStep] at h
      split at h
      · obtain rfl := Option.some.inj h
        exact ⟨rfl, rfl, fun _ => rfl, .inl rfl⟩
      · cases h
  | stopLifecycle | stopFlag | stopCancel | stopJoin | destroy =>
      simp only [Requests.step, Requests.stopStep] at h
      split at h
      · obtain rfl := Option.some.inj h
        exact ⟨rfl, rfl, fun _ => rfl, .inl rfl⟩
      · cases h

/-! ### What a step can do -/

/-- The places of a send without a record, outside the channel. -/
inductive SendPc.Light {A : Arch} : SendPc A → Prop
  | idle : Light .idle
  | entered (call : SendCall A) (onSent : Bool) : Light (.entered call onSent)
  | allocating (args : SubmitArgs) (onSent : Bool) : Light (.allocating args onSent)
  | submitting (args : SubmitArgs) : Light (.submitting args none)
  | returning (status : Status) : Light (.returning status)

inductive SendMoves (s : Sends cfg ι) : SendAct cfg.arch ι → Sends cfg ι → Prop
  | advance {a : SendAct cfg.arch ι} {i : ι} {session : Session cfg.arch} {pc : SendPc cfg.arch}
      (hold : (s.send i).Light) (hnew : pc.Light) : SendMoves s a ({ s with session }.goto i pc)
  | allocate {a : SendAct cfg.arch ι} {i : ι} {args : SubmitArgs} {onSent : Bool}
      (h : s.send i = .allocating args onSent) :
      SendMoves s a ({ s with records := s.records ++ [onSent] }.goto i
        (.submitting args (some s.records.length)))
  | refused {a : SendAct cfg.arch ι} {i : ι} {args : SubmitArgs} {record : Option ℕ}
      {status : Status} (h : s.send i = .submitting args record) (hst : status ≠ .ok) :
      SendMoves s a (s.goto i (.behind record status))
  | submit {a : SendAct cfg.arch ι} {i : ι} {args : SubmitArgs} {record : Option ℕ}
      {requests : Requests ι} (h : s.send i = .submitting args record)
      (hphase : s.phase = .started) (hstep : s.requests.step cfg (.call i args) = some requests) :
      SendMoves s a ({ s with
        requests
        ctx := Function.update s.ctx s.requests.nextRequest record }.goto i (.submitted record))
  | ret {a : SendAct cfg.arch ι} {i : ι} {record : Option ℕ} {r : ℕ} {status : Status}
      {requests : Requests ι} (h : s.send i = .submitted record)
      (hsub : s.requests.submit i = .returning r status)
      (hstep : s.requests.step cfg (.ret i) = some requests) :
      SendMoves s a ({ s with requests }.goto i (.behind record status))
  | free {a : SendAct cfg.arch ι} {i : ι} {p : ℕ} {status : Status}
      (h : s.send i = .failing p status) :
      SendMoves s a ({ s with released := s.released ++ [p] }.goto i (.returning status))
  | phase {a : SendAct cfg.arch ι} {phase : Phase} (h : s.phase = .created) :
      SendMoves s a { s with phase }
  | quiet {a : Act ι} {requests : Requests ι} (hphase : s.phase = .started) (ha : IsQuiet a = true)
      (hstep : s.requests.step cfg a = some requests) :
      SendMoves s (.channel a) { s with requests }
  | process {env : ItemEnv} {item : QueueItem} {requests : Requests ι}
      (hphase : s.phase = .started) (hw : s.requests.worker = .processing item)
      (hstep : s.requests.step cfg (.process env) = some requests) :
      SendMoves s (.channel (.process env)) ({ s with requests }.onComplete item.request)

omit [DecidableEq ι] in
/-- A channel that is not started refuses. -/
theorem unstarted_ne_ok (s : Sends cfg ι) (args : SubmitArgs) : s.unstarted args ≠ .ok := by
  unfold Sends.unstarted
  dsimp only
  split
  · next hpc =>
      unfold Requests.enterStep at hpc
      repeat' split at hpc
      all_goals cases hpc
      all_goals simp
  · split
    · next hpc =>
        unfold Requests.checkStep at hpc
        repeat' split at hpc
        all_goals cases hpc
        all_goals simp
    · simp

theorem moves_of_sendStep {B : Bz2} {s s' : Sends cfg ι} {a : SendAct cfg.arch ι}
    (hs : s.sendStep B a = some s') : SendMoves s a s' := by
  cases a with
  | send i call onSent =>
      simp only [Sends.sendStep] at hs
      split at hs
      · next hi =>
          obtain rfl := Option.some.inj hs
          exact .advance (hi ▸ .idle) (.entered call onSent)
      · cases hs
  | encode i =>
      simp only [Sends.sendStep] at hs
      split at hs
      · next call onSent hi =>
          have hlight : (s.send i).Light := hi ▸ .entered call onSent
          split at hs
          · obtain rfl := Option.some.inj hs
            exact .advance hlight (.returning _)
          · obtain rfl := Option.some.inj hs
            split
            · exact .advance hlight (.allocating _ _)
            · exact .advance hlight (.submitting _)
      · cases hs
  | malloc i ok =>
      simp only [Sends.sendStep] at hs
      split at hs
      · next args onSent hi =>
          split at hs
          · obtain rfl := Option.some.inj hs
            exact .allocate hi
          · obtain rfl := Option.some.inj hs
            exact .advance (hi ▸ .allocating args onSent) (.returning _)
      · cases hs
  | submit i =>
      simp only [Sends.sendStep] at hs
      split at hs
      · next args record hi =>
          split at hs
          · obtain rfl := Option.some.inj hs
            exact .refused hi (unstarted_ne_ok s args)
          · next hphase =>
              obtain ⟨requests, hstep, rfl⟩ := Option.map_eq_some_iff.mp hs
              exact .submit hi hphase hstep
          · cases hs
      · cases hs
  | ret i =>
      simp only [Sends.sendStep] at hs
      split at hs
      · next record r status hi hsub =>
          obtain ⟨requests, hstep, rfl⟩ := Option.map_eq_some_iff.mp hs
          exact .ret hi hsub hstep
      · cases hs
  | release i =>
      simp only [Sends.sendStep] at hs
      split at hs
      · next p status hi =>
          obtain rfl := Option.some.inj hs
          exact .free hi
      · cases hs
  | done i =>
      simp only [Sends.sendStep] at hs
      split at hs
      · next status hi =>
          obtain rfl := Option.some.inj hs
          exact .advance (hi ▸ .returning status) .idle
      · cases hs
  | _ => cases hs

theorem moves_of_channelStep {s s' : Sends cfg ι} {a : Act ι} (hphase : s.phase = .started)
    (hs : s.channelStep a = some s') : SendMoves s (.channel a) s' := by
  cases a with
  | call _ _ | ret _ => cases hs
  | process env =>
      simp only [Sends.channelStep] at hs
      split at hs
      · next item hw =>
          obtain ⟨requests, hstep, rfl⟩ := Option.map_eq_some_iff.mp hs
          exact .process hphase hw hstep
      · cases hs
  | _ =>
      simp only [Sends.channelStep] at hs
      obtain ⟨requests, hstep, rfl⟩ := Option.map_eq_some_iff.mp hs
      exact .quiet hphase rfl hstep

theorem sendMoves_of_step {B : Bz2} {s s' : Sends cfg ι} {a : SendAct cfg.arch ι}
    (hs : s.step B a = some s') : SendMoves s a s' := by
  unfold Sends.step at hs
  split at hs
  · split at hs
    · next hphase =>
        obtain rfl := Option.some.inj hs
        exact .phase hphase
    · cases hs
  · split at hs
    · next hphase =>
        obtain rfl := Option.some.inj hs
        exact .phase hphase
    · cases hs
  · split at hs
    · next hphase => exact moves_of_channelStep hphase hs
    · cases hs
  · split at hs
    · cases hs
    · exact moves_of_sendStep hs

/-! ### Where the records are -/

namespace SendPc

def record {A : Arch} : SendPc A → Option ℕ
  | .submitting _ record | .submitted record => record
  | .failing p _ => some p
  | _ => none

/-- What a send in progress can rely on, with its call of the channel at `sub`. -/
def Ok (s : Sends cfg ι) (sub : SubmitPc) : SendPc cfg.arch → Prop
  | .submitting _ record =>
      sub = .idle ∧
        ∀ p, record = some p → p < s.records.length ∧ p ∉ s.released ∧ ∀ r, s.ctx r ≠ some p
  | .submitted record =>
      ∃ r, sub.request = some r ∧ s.ctx r = record ∧
        ∀ p, record = some p → p ∈ s.released → r ∈ s.requests.accepted
  | .failing p _ =>
      sub = .idle ∧ p < s.records.length ∧ p ∉ s.released ∧
        ∀ r ∈ s.requests.accepted, s.ctx r ≠ some p
  | _ => sub = .idle

end SendPc

omit [DecidableEq ι] in
theorem SendPc.Light.sub_eq_idle {s : Sends cfg ι} {sub : SubmitPc} {pc : SendPc cfg.arch}
    (hlight : pc.Light) (h : pc.Ok s sub) : sub = .idle := by
  cases hlight with
  | submitting args => exact h.1
  | _ => exact h

omit [DecidableEq ι] in
theorem SendPc.Light.ok {s : Sends cfg ι} {pc : SendPc cfg.arch} (hlight : pc.Light) :
    pc.Ok s .idle := by
  cases hlight with
  | submitting args => exact ⟨rfl, by simp⟩
  | _ => rfl

theorem SendPc.Light.record_eq_none {A : Arch} {pc : SendPc A} (hlight : pc.Light) :
    pc.record = none := by
  cases hlight <;> rfl

structure RecordBooks (s : Sends cfg ι) : Prop where
  ctx_lt : ∀ r p, s.ctx r = some p → r < s.requests.nextRequest ∧ p < s.records.length
  ctx_inj : ∀ r r' p, s.ctx r = some p → s.ctx r' = some p → r = r'
  released_lt : ∀ p ∈ s.released, p < s.records.length
  released_nodup : s.released.Nodup
  /-- The record of an accepted request is released with the request's completion. -/
  released_iff : ∀ r ∈ s.requests.accepted, ∀ p, s.ctx r = some p →
    (p ∈ s.released ↔ r ∈ s.requests.completed)
  sent_nodup : s.sent.Nodup
  sent_iff : ∀ p, p ∈ s.sent ↔
    s.records[p]? = some true ∧ ∃ r ∈ s.requests.completed, s.ctx r = some p

structure Records (s : Sends cfg ι) : Prop where
  books : RecordBooks s
  threads : ∀ i, (s.send i).Ok s (s.requests.submit i)
  owner_inj : ∀ i j p, (s.send i).record = some p → (s.send j).record = some p → i = j
  accounted : ∀ p < s.records.length,
    p ∈ s.released ∨ (∃ i, (s.send i).record = some p) ∨ ∃ r ∈ s.requests.accepted, s.ctx r = some p

omit [DecidableEq ι] in
theorem Records.created (session : Session cfg.arch) :
    Records (.created session : Sends cfg ι) where
  books := ⟨by simp [Sends.created], by simp [Sends.created], by simp [Sends.created], .nil,
    by simp [Sends.created], .nil, by simp [Sends.created]⟩
  threads _ := rfl
  owner_inj _ _ _ h := by cases h
  accounted := by simp [Sends.created]

omit [DecidableEq ι] in
theorem Records.record_lt {s : Sends cfg ι} (h : Records s) {i : ι} {p : ℕ}
    (hp : (s.send i).record = some p) : p < s.records.length := by
  have hok := h.threads i
  cases hpc : s.send i with
  | submitting args record =>
      rw [hpc] at hp hok
      exact (hok.2 p hp).1
  | submitted record =>
      rw [hpc] at hp hok
      obtain ⟨r, -, hctx, -⟩ := hok
      exact (h.books.ctx_lt r p (hctx.trans hp)).2
  | failing q status =>
      rw [hpc] at hp hok
      exact Option.some.inj hp ▸ hok.2.1
  | _ =>
      rw [hpc] at hp
      cases hp

theorem request_eq_none_iff {pc : SubmitPc} : pc.request = none ↔ pc = .idle := by
  cases pc <;> simp [SubmitPc.request, SubmitPc.fresh, SubmitPc.holding, SubmitPc.answer]

omit [DecidableEq ι] in
/-- A send keeps what it relies on when no other send's request gets its record,
and no other request of it is accepted. -/
theorem SendPc.Ok.frame {s t : Sends cfg ι} {sub sub' : SubmitPc} {pc : SendPc cfg.arch}
    (h : pc.Ok s sub) (hreq : sub'.request = sub.request)
    (hlen : s.records.length ≤ t.records.length)
    (hinj : ∀ r r' p, s.ctx r = some p → s.ctx r' = some p → r = r')
    (hctx : ∀ p, pc.record = some p → ∀ r, t.ctx r = some p → s.ctx r = some p)
    (hctx' : ∀ r, sub.request = some r → t.ctx r = s.ctx r)
    (haccepted : ∀ r ∈ s.requests.accepted, r ∈ t.requests.accepted)
    (hnew : ∀ p, pc.record = some p → ∀ r ∈ t.requests.accepted, s.ctx r = some p →
      r ∈ s.requests.accepted ∨ sub.request = some r)
    (hrel : ∀ p, pc.record = some p → p ∈ t.released →
      p ∈ s.released ∨ ∃ r ∈ t.requests.accepted, s.ctx r = some p) : pc.Ok t sub' := by
  have hidle (hsub : sub = .idle) : sub' = .idle := by
    rw [← request_eq_none_iff] at hsub ⊢
    rw [hreq, hsub]
  cases pc with
  | submitting args record =>
      refine ⟨hidle h.1, fun p hp => ?_⟩
      obtain ⟨hlt, hfree, hnone⟩ := h.2 p hp
      refine ⟨hlt.trans_le hlen, fun hmem => ?_, fun r hr => hnone r (hctx p hp r hr)⟩
      rcases hrel p hp hmem with hold | ⟨r, -, hr⟩
      · exact hfree hold
      · exact hnone r hr
  | submitted record =>
      obtain ⟨r, hr, hrecord, hlive⟩ := h
      refine ⟨r, hreq.trans hr, (hctx' r hr).trans hrecord, fun p hp hmem => ?_⟩
      rcases hrel p hp hmem with hold | ⟨r', hr', hctxr⟩
      · exact haccepted r (hlive p hp hold)
      · exact hinj r' r p hctxr (hrecord.trans hp) ▸ hr'
  | failing p status =>
      obtain ⟨hsub, hlt, hfree, hnone⟩ := h
      have hcontra {r : ℕ} (hr : r ∈ t.requests.accepted) (hctxr : s.ctx r = some p) : False := by
        rcases hnew p rfl r hr hctxr with hold | hown
        · exact hnone r hold hctxr
        · rw [hsub] at hown
          cases hown
      refine ⟨hidle hsub, hlt.trans_le hlen, fun hmem => ?_, fun r hr hctxr => ?_⟩
      · rcases hrel p rfl hmem with hold | ⟨r, hr, hctxr⟩
        · exact hfree hold
        · exact hcontra hr hctxr
      · exact hcontra hr (hctx p rfl r hctxr)
  | idle | entered _ _ | allocating _ _ | returning _ => exact hidle h

omit [DecidableEq ι] in
/-- What a send relies on, when nothing happens to the requests. -/
theorem SendPc.Ok.frame_records {s t : Sends cfg ι} {sub : SubmitPc} {pc : SendPc cfg.arch}
    (h : pc.Ok s sub) (hbooks : RecordBooks s) (hrequests : t.requests = s.requests)
    (hctx : t.ctx = s.ctx) (hlen : s.records.length ≤ t.records.length)
    (hrel : ∀ p, pc.record = some p → p ∈ t.released → p ∈ s.released) : pc.Ok t sub := by
  apply h.frame rfl hlen hbooks.ctx_inj
  · exact fun p _ r hr => hctx ▸ hr
  · exact fun r _ => by rw [hctx]
  · exact fun r hr => hrequests ▸ hr
  · exact fun p _ r hr _ => .inl (hrequests ▸ hr)
  · exact fun p hp hmem => .inl (hrel p hp hmem)

/-- Thread `i` goes to `pc`, in a state `t` that differs from `s` as far as the
hypotheses say: the other sends do not notice, and the record of the send stays
with it or goes where it is accounted for. -/
theorem Records.goto {s t : Sends cfg ι} {i : ι} {pc : SendPc cfg.arch} (h : Records s)
    (hsend : t.send = s.send) (hbooks : RecordBooks t)
    (hother : ∀ j, j ≠ i → (s.send j).Ok t (t.requests.submit j))
    (hpc : pc.Ok t (t.requests.submit i))
    (hnew : ∀ p, pc.record = some p → (s.send i).record = some p ∨ s.records.length ≤ p)
    (hcount : ∀ p < t.records.length, p < s.records.length ∨ pc.record = some p)
    (hkept : ∀ p ∈ s.released, p ∈ t.released)
    (haccepted : ∀ r ∈ s.requests.accepted, ∀ p, s.ctx r = some p →
      r ∈ t.requests.accepted ∧ t.ctx r = some p)
    (hown : ∀ p, (s.send i).record = some p → p ∈ t.released ∨ pc.record = some p ∨
      ∃ r ∈ t.requests.accepted, t.ctx r = some p) : Records (t.goto i pc) := by
  have hself : (t.goto i pc).send i = pc := Function.update_self _ _ _
  have hothers {j : ι} (hj : j ≠ i) : (t.goto i pc).send j = s.send j := by
    rw [← hsend]
    exact Function.update_of_ne hj _ _
  refine ⟨⟨hbooks.1, hbooks.2, hbooks.3, hbooks.4, hbooks.5, hbooks.6, hbooks.7⟩, fun j => ?_,
    fun j k p hj hk => ?_, fun p hp => ?_⟩
  · by_cases hj : j = i
    · subst hj
      rw [hself]
      exact hpc
    · rw [hothers hj]
      exact hother j hj
  · -- a record of the thread that moved is its old one or a new one
    have hclash {j : ι} (hj : j ≠ i) (hpj : (s.send j).record = some p)
        (hpi : pc.record = some p) : False := by
      rcases hnew p hpi with hold | hlen
      · exact hj (h.owner_inj j i p hpj hold)
      · exact absurd (h.record_lt hpj) (Nat.not_lt.mpr hlen)
    by_cases hji : j = i
    · by_cases hki : k = i
      · rw [hji, hki]
      · rw [hji, hself] at hj
        rw [hothers hki] at hk
        exact (hclash hki hk hj).elim
    · rw [hothers hji] at hj
      by_cases hki : k = i
      · rw [hki, hself] at hk
        exact (hclash hji hj hk).elim
      · rw [hothers hki] at hk
        exact h.owner_inj j k p hj hk
  · rcases hcount p hp with hlt | hpi
    · rcases h.accounted p hlt with hrel | ⟨j, hj⟩ | ⟨r, hr, hctx⟩
      · exact .inl (hkept p hrel)
      · by_cases hji : j = i
        · subst hji
          rcases hown p hj with hrel | hpi | hacc
          · exact .inl hrel
          · exact .inr (.inl ⟨j, by rw [hself]; exact hpi⟩)
          · exact .inr (.inr hacc)
        · exact .inr (.inl ⟨j, by rw [hothers hji]; exact hj⟩)
      · obtain ⟨hr', hctx'⟩ := haccepted r hr p hctx
        exact .inr (.inr ⟨r, hr', hctx'⟩)
    · exact .inr (.inl ⟨i, by rw [hself]; exact hpi⟩)

/-! ### The steps of a send -/

section Steps

variable {s : Sends cfg ι} {i : ι}

/-- A step of a send that keeps its record, and touches nothing but the session. -/
theorem Records.advance (h : Records s) (session : Session cfg.arch) {pc : SendPc cfg.arch}
    (hrecord : pc.record = (s.send i).record) (hpc : pc.Ok s (s.requests.submit i)) :
    Records ({ s with session }.goto i pc) := by
  have hb := h.books
  have hsame {pc : SendPc cfg.arch} {sub : SubmitPc} (hok : pc.Ok s sub) :
      pc.Ok { s with session } sub :=
    hok.frame_records hb rfl rfl (Nat.le_refl _) fun _ _ => id
  apply h.goto
  · rfl
  · exact ⟨hb.1, hb.2, hb.3, hb.4, hb.5, hb.6, hb.7⟩
  · exact fun j _ => hsame (h.threads j)
  · exact hsame hpc
  · exact fun p hp => .inl (hrecord ▸ hp)
  · exact fun p hp => .inl hp
  · exact fun _ => id
  · exact fun r hr p hp => ⟨hr, hp⟩
  · exact fun p hp => .inr (.inl (hrecord.trans hp))

theorem Records.allocate (h : Records s) {args : SubmitArgs} {onSent : Bool}
    (hi : s.send i = .allocating args onSent) :
    Records ({ s with records := s.records ++ [onSent] }.goto i
      (.submitting args (some s.records.length))) := by
  have hb := h.books
  have hok := h.threads i
  rw [hi] at hok
  have hfresh (r : ℕ) : s.ctx r ≠ some s.records.length := fun hr =>
    Nat.lt_irrefl _ (hb.ctx_lt r _ hr).2
  have hlen : (s.records ++ [onSent]).length = s.records.length + 1 := by simp
  apply h.goto
  · rfl
  · refine ⟨fun r p hr => ?_, hb.ctx_inj, fun p hp => ?_, hb.released_nodup, hb.released_iff,
      hb.sent_nodup, fun p => ?_⟩
    · obtain ⟨hlt, hlt'⟩ := hb.ctx_lt r p hr
      exact ⟨hlt, hlen ▸ Nat.lt_succ_of_lt hlt'⟩
    · exact hlen ▸ Nat.lt_succ_of_lt (hb.released_lt p hp)
    · -- the new record belongs to no request
      rw [hb.sent_iff p]
      apply and_congr_left
      rintro ⟨r, -, hr⟩
      rw [List.getElem?_append_left (hb.ctx_lt r p hr).2]
  · exact fun j _ => (h.threads j).frame_records hb rfl rfl (hlen ▸ Nat.le_succ _) fun _ _ => id
  · refine ⟨hok, fun p hp => ?_⟩
    obtain rfl := Option.some.inj hp
    refine ⟨hlen ▸ Nat.lt_succ_self _, fun hmem => ?_, hfresh⟩
    exact Nat.lt_irrefl _ (hb.released_lt _ hmem)
  · intro p hp
    obtain rfl := Option.some.inj hp
    exact .inr (Nat.le_refl _)
  · intro p hp
    rw [hlen] at hp
    rcases Nat.lt_succ_iff_lt_or_eq.mp hp with hlt | rfl
    · exact .inl hlt
    · exact .inr rfl
  · exact fun _ => id
  · exact fun r hr p hp => ⟨hr, hp⟩
  · intro p hp
    rw [hi] at hp
    cases hp

theorem Records.free (h : Records s) {p : ℕ} {status : Status} (hi : s.send i = .failing p status) :
    Records ({ s with released := s.released ++ [p] }.goto i (.returning status)) := by
  have hb := h.books
  have hok := h.threads i
  rw [hi] at hok
  obtain ⟨hsub, hlt, hfree, hnone⟩ := hok
  have hrecord : (s.send i).record = some p := by rw [hi]; rfl
  apply h.goto
  · rfl
  · refine ⟨hb.ctx_lt, hb.ctx_inj, fun q hq => ?_, ?_, fun r hr q hctx => ?_, hb.sent_nodup,
      hb.sent_iff⟩
    · rcases List.mem_append.mp hq with hq | hq
      · exact hb.released_lt q hq
      · exact List.mem_singleton.mp hq ▸ hlt
    · rw [← List.concat_eq_append]
      exact hb.released_nodup.concat hfree
    · have hne : q ≠ p := by
        rintro rfl
        exact hnone r hr hctx
      rw [← hb.released_iff r hr q hctx]
      simp [hne]
  · intro j hj
    have hne {q : ℕ} (hq : (s.send j).record = some q) : q ≠ p := by
      rintro rfl
      exact hj (h.owner_inj j i q hq hrecord)
    refine (h.threads j).frame_records hb rfl rfl (Nat.le_refl _) fun q hq hmem => ?_
    rcases List.mem_append.mp hmem with hold | hmem
    · exact hold
    · exact absurd (List.mem_singleton.mp hmem) (hne hq)
  · exact hsub
  · intro q hq
    cases hq
  · exact fun q hq => .inl hq
  · exact fun q hq => List.mem_append_left _ hq
  · exact fun r hr q hq => ⟨hr, hq⟩
  · intro q hq
    rw [hrecord] at hq
    obtain rfl := Option.some.inj hq
    exact .inl (by simp)

omit [DecidableEq ι] in
/-- A send behind its call of the channel: a refused record is to be freed. -/
theorem ok_behind {t : Sends cfg ι} {record : Option ℕ} {status : Status}
    (hok : ∀ p, record = some p → status ≠ .ok → p < t.records.length ∧ p ∉ t.released ∧
      ∀ r ∈ t.requests.accepted, t.ctx r ≠ some p) :
    (SendPc.behind record status : SendPc cfg.arch).Ok t .idle := by
  cases record with
  | none => rfl
  | some p =>
      by_cases hst : status = .ok
      · simp only [SendPc.behind, if_pos hst]
        rfl
      · simp only [SendPc.behind, if_neg hst]
        exact ⟨rfl, hok p rfl hst⟩

theorem record_behind {A : Arch} {record : Option ℕ} {status : Status} (hst : status ≠ .ok) :
    (SendPc.behind record status : SendPc A).record = record := by
  cases record with
  | none => rfl
  | some p => simp only [SendPc.behind, if_neg hst, SendPc.record]

theorem record_behind_ok {A : Arch} (record : Option ℕ) :
    (SendPc.behind record .ok : SendPc A).record = none := by
  cases record with
  | none => rfl
  | some p => rfl

theorem Records.refused (h : Records s) {args : SubmitArgs} {record : Option ℕ} {status : Status}
    (hi : s.send i = .submitting args record) (hst : status ≠ .ok) :
    Records (s.goto i (.behind record status)) := by
  have hok := h.threads i
  rw [hi] at hok
  obtain ⟨hsub, hfree⟩ := hok
  apply @Records.advance _ _ _ s i h s.session (.behind record status)
  · rw [hi, record_behind hst]
    rfl
  · rw [hsub]
    refine ok_behind fun p hp _ => ?_
    obtain ⟨hlt, hnot, hnone⟩ := hfree p hp
    exact ⟨hlt, hnot, fun r _ => hnone r⟩

/-- The call of the channel: the new request gets the record of the send. -/
theorem Records.submit (h : Records s) (hf : Flow cfg s.requests) (hl : Ledger s.requests)
    {args : SubmitArgs} {record : Option ℕ} (hi : s.send i = .submitting args record) {requests : Requests ι}
    (hstep : s.requests.step cfg (.call i args) = some requests) :
    Records ({ s with
      requests
      ctx := Function.update s.ctx s.requests.nextRequest record }.goto i (.submitted record)) := by
  have hb := h.books
  have hok := h.threads i
  rw [hi] at hok
  obtain ⟨hsub, hfree⟩ := hok
  have hrecord : (s.send i).record = record := by rw [hi]; rfl
  simp only [Requests.step, Requests.submitStep, hsub] at hstep
  split at hstep
  · cases hstep
  obtain rfl := Option.some.inj hstep
  -- the number of the request is new, and its record is nobody else's
  have hold {r : ℕ} (hr : r < s.requests.nextRequest) :
      Function.update s.ctx s.requests.nextRequest record r = s.ctx r :=
    Function.update_of_ne (Nat.ne_of_lt hr) _ _
  have hself : Function.update s.ctx s.requests.nextRequest record s.requests.nextRequest =
      record := Function.update_self _ _ _
  have hcases {r p : ℕ} (hp : Function.update s.ctx s.requests.nextRequest record r = some p) :
      r = s.requests.nextRequest ∧ record = some p ∨ s.ctx r = some p := by
    by_cases hr : r = s.requests.nextRequest
    · subst hr
      exact .inl ⟨rfl, hself ▸ hp⟩
    · rw [Function.update_of_ne hr] at hp
      exact .inr hp
  have hacc {r : ℕ} (hr : r ∈ s.requests.accepted) : r < s.requests.nextRequest :=
    hl.books.copies_lt r (hl.books.accepted_copied r hr)
  have hdone {r : ℕ} (hr : r ∈ s.requests.completed) : r < s.requests.nextRequest := by
    apply hacc
    rw [hf.order]
    simp [hr]
  apply h.goto
  · rfl
  · refine ⟨fun r p hp => ?_, fun r r' p hp hp' => ?_, hb.released_lt, hb.released_nodup,
      fun r hr p hp => ?_, hb.sent_nodup, fun p => ?_⟩
    · rcases hcases hp with ⟨rfl, hrec⟩ | hp
      · exact ⟨Nat.lt_succ_self _, (hfree p hrec).1⟩
      · obtain ⟨hlt, hlt'⟩ := hb.ctx_lt r p hp
        exact ⟨Nat.lt_succ_of_lt hlt, hlt'⟩
    · rcases hcases hp with ⟨rfl, hrec⟩ | hp
      · rcases hcases hp' with ⟨rfl, -⟩ | hp'
        · rfl
        · exact absurd hp' ((hfree p hrec).2.2 r')
      · rcases hcases hp' with ⟨rfl, hrec⟩ | hp'
        · exact absurd hp ((hfree p hrec).2.2 r)
        · exact hb.ctx_inj r r' p hp hp'
    · exact hb.released_iff r hr p ((hold (hacc hr)).symm.trans hp)
    · rw [hb.sent_iff p]
      apply and_congr_right fun _ => exists_congr fun r => and_congr_right fun hr => ?_
      rw [← hold (hdone hr)]
  · intro j hj
    have hsubmit : (Function.update s.requests.submit i
        (.entered s.requests.nextRequest args) j).request = (s.requests.submit j).request := by
      rw [Function.update_of_ne hj]
    apply (h.threads j).frame hsubmit
    · exact Nat.le_refl _
    · exact hb.ctx_inj
    · intro p hp r hr
      rcases hcases hr with ⟨-, hrec⟩ | hr
      · exact absurd (h.owner_inj j i p hp (hrecord.trans hrec)) hj
      · exact hr
    · exact fun r hr => hold (hl.request_lt j r hr)
    · exact fun _ => id
    · exact fun _ _ _ hr _ => .inl hr
    · exact fun _ _ => .inl
  · refine ⟨s.requests.nextRequest, ?_, hself, fun p hp hmem => ?_⟩
    · change (Function.update s.requests.submit i _ i).request = _
      rw [Function.update_self]
      rfl
    · exact absurd hmem (hfree p hp).2.1
  · exact fun p hp => .inl (hrecord.trans hp)
  · exact fun p hp => .inl hp
  · exact fun _ => id
  · exact fun r hr p hp => ⟨hr, (hold (hacc hr)).trans hp⟩
  · exact fun p hp => .inr (.inl (hrecord.symm.trans hp))

theorem Records.ret (h : Records s) (hl : Ledger s.requests) {record : Option ℕ} {r : ℕ}
    {status : Status} (hi : s.send i = .submitted record)
    (hsub : s.requests.submit i = .returning r status) {requests : Requests ι}
    (hstep : s.requests.step cfg (.ret i) = some requests) :
    Records ({ s with requests }.goto i (.behind record status)) := by
  have hb := h.books
  have hok := h.threads i
  rw [hi, hsub] at hok
  obtain ⟨r', hr', hctx, hlive⟩ := hok
  obtain rfl : r = r' := Option.some.inj hr'
  have hanswer := hl.threads i
  rw [hsub] at hanswer
  have hrecord : (s.send i).record = record := by rw [hi]; rfl
  simp only [Requests.step, Requests.submitStep, hsub] at hstep
  split at hstep
  · cases hstep
  obtain rfl := Option.some.inj hstep
  apply h.goto
  · rfl
  · exact ⟨hb.1, hb.2, hb.3, hb.4, hb.5, hb.6, hb.7⟩
  · intro j hj
    have hsubmit : (Function.update s.requests.submit i .idle j).request =
        (s.requests.submit j).request := by
      rw [Function.update_of_ne hj]
    apply (h.threads j).frame hsubmit
    · exact Nat.le_refl _
    · exact hb.ctx_inj
    · exact fun _ _ _ => id
    · exact fun _ _ => rfl
    · exact fun _ => id
    · exact fun _ _ _ hr _ => .inl hr
    · exact fun _ _ => .inl
  · change SendPc.Ok _ (Function.update s.requests.submit i .idle i) _
    rw [Function.update_self]
    refine ok_behind fun p hp hst => ?_
    -- the request was refused, so nobody else knows the record
    have hnot : r ∉ s.requests.accepted := by
      rcases hanswer with ⟨-, hok⟩ | ⟨hnot, -⟩
      · exact absurd hok hst
      · exact hnot
    refine ⟨(hb.ctx_lt r p (hctx.trans hp)).2, fun hmem => hnot (hlive p hp hmem), ?_⟩
    intro r' hr' hctx'
    exact hnot (hb.ctx_inj r' r p hctx' (hctx.trans hp) ▸ hr')
  · intro p hp
    by_cases hst : status = .ok
    · rw [hst, record_behind_ok] at hp
      cases hp
    · rw [record_behind hst] at hp
      exact .inl (hrecord.trans hp)
  · exact fun p hp => .inl hp
  · exact fun _ => id
  · exact fun r hr p hp => ⟨hr, hp⟩
  · intro p hp
    rcases hanswer with ⟨hacc, -⟩ | ⟨-, hst⟩
    · exact .inr (.inr ⟨r, hacc, hctx.trans (hrecord.symm.trans hp)⟩)
    · rw [record_behind hst]
      exact .inr (.inl (hrecord.symm.trans hp))

omit [DecidableEq ι] in
/-- A call inside the channel is made by a send, with the record of the send. -/
theorem Records.submitted (h : Records s) {j : ι} {r : ℕ}
    (hr : (s.requests.submit j).request = some r) :
    (s.send j).record = s.ctx r ∧
      ∀ p, s.ctx r = some p → p ∈ s.released → r ∈ s.requests.accepted := by
  have hok := h.threads j
  have hbusy : s.requests.submit j ≠ .idle := by
    intro hidle
    rw [hidle] at hr
    cases hr
  cases hpc : s.send j with
  | submitted record =>
      rw [hpc] at hok
      obtain ⟨r', hr', hctx, hlive⟩ := hok
      obtain rfl := Option.some.inj (hr.symm.trans hr')
      refine ⟨hctx.symm, fun p hp => hlive p (hctx.symm.trans hp)⟩
  | submitting _ _ | failing _ _ =>
      rw [hpc] at hok
      exact absurd hok.1 hbusy
  | idle | entered _ _ | allocating _ _ | returning _ =>
      rw [hpc] at hok
      exact absurd hok hbusy

omit [DecidableEq ι] in
/-- The steps inside the channel that complete nothing. -/
theorem Records.quiet (h : Records s) (hf : Flow cfg s.requests) (hl : Ledger s.requests)
    {requests : Requests ι} (hq : Quiet s.requests requests) : Records { s with requests } := by
  have hb := h.books
  have hgrow {r : ℕ} (hr : r ∈ s.requests.accepted) : r ∈ requests.accepted := by
    rcases hq.accepted with heq | ⟨i, item, -, heq⟩
    · exact heq ▸ hr
    · rw [heq]
      exact List.mem_append_left _ hr
  -- a request that is accepted now was its caller's, record and all
  have hnew {r : ℕ} (hr : r ∈ requests.accepted) :
      r ∈ s.requests.accepted ∨
        r ∉ s.requests.accepted ∧ ∃ i, (s.requests.submit i).request = some r := by
    rcases hq.accepted with heq | ⟨i, item, hi, heq⟩
    · exact .inl (heq ▸ hr)
    · rw [heq] at hr
      rcases List.mem_append.mp hr with hr | hr
      · exact .inl hr
      · obtain rfl := List.mem_singleton.mp hr
        have hpush := hl.threads i
        rw [hi] at hpush
        exact .inr ⟨hpush.2.1, i, by rw [hi]; rfl⟩
  refine ⟨⟨fun r p hp => ?_, hb.ctx_inj, hb.released_lt, hb.released_nodup, fun r hr p hp => ?_,
    hb.sent_nodup, ?_⟩, fun j => ?_, h.owner_inj, fun p hp => ?_⟩
  · exact hq.nextRequest ▸ hb.ctx_lt r p hp
  · change p ∈ s.released ↔ r ∈ requests.completed
    rw [hq.completed]
    rcases hnew hr with hold | ⟨hnot, i, hi⟩
    · exact hb.released_iff r hold p hp
    · apply iff_of_false
      · exact fun hmem => hnot ((h.submitted hi).2 p hp hmem)
      · intro hdone
        apply hnot
        rw [hf.order]
        simp [hdone]
  · change ∀ p, p ∈ s.sent ↔ _ ∧ ∃ r ∈ requests.completed, _
    rw [hq.completed]
    exact hb.sent_iff
  · apply (h.threads j).frame (hq.request j)
    · exact Nat.le_refl _
    · exact hb.ctx_inj
    · exact fun _ _ _ => id
    · exact fun _ _ => rfl
    · exact fun _ => hgrow
    · intro p hp r hr hctx
      rcases hnew hr with hold | ⟨-, i, hi⟩
      · exact .inl hold
      · have hij := h.owner_inj i j p ((h.submitted hi).1.trans hctx) hp
        exact .inr (hij ▸ hi)
    · exact fun _ _ => .inl
  · rcases h.accounted p hp with hrel | hheld | ⟨r, hr, hctx⟩
    · exact .inl hrel
    · exact .inr (.inl hheld)
    · exact .inr (.inr ⟨r, hgrow hr, hctx⟩)

omit [DecidableEq ι] in
theorem onComplete_frame (s : Sends cfg ι) (r : ℕ) :
    (s.onComplete r).requests = s.requests ∧ (s.onComplete r).send = s.send ∧
      (s.onComplete r).records = s.records ∧ (s.onComplete r).ctx = s.ctx ∧
      (s.onComplete r).phase = s.phase := by
  unfold Sends.onComplete
  split
  · exact ⟨rfl, rfl, rfl, rfl, rfl⟩
  · exact ⟨rfl, rfl, rfl, rfl, rfl⟩

omit [DecidableEq ι] in
theorem mem_released_onComplete (s : Sends cfg ι) (r p : ℕ) :
    p ∈ (s.onComplete r).released ↔ p ∈ s.released ∨ s.ctx r = some p := by
  unfold Sends.onComplete
  split
  · next hctx => simp [hctx]
  · next q hctx => simp [hctx, eq_comm]

omit [DecidableEq ι] in
theorem mem_sent_onComplete (s : Sends cfg ι) (r p : ℕ) :
    p ∈ (s.onComplete r).sent ↔ p ∈ s.sent ∨ s.ctx r = some p ∧ s.records[p]? = some true := by
  unfold Sends.onComplete
  split
  · next hctx => simp [hctx]
  · next q hctx =>
      by_cases hsent : s.records[q]? = some true
      · simp only [if_pos hsent, List.mem_append, List.mem_singleton, hctx, Option.some.injEq]
        apply or_congr_right
        constructor
        · rintro rfl
          exact ⟨rfl, hsent⟩
        · exact fun h => h.1.symm
      · simp only [if_neg hsent, hctx, Option.some.injEq]
        constructor
        · exact .inl
        · rintro (h | ⟨rfl, h⟩)
          · exact h
          · exact absurd h hsent

omit [DecidableEq ι] in
theorem nodup_onComplete {s : Sends cfg ι} {r : ℕ} (hreleased : s.released.Nodup)
    (hsent : s.sent.Nodup) (hnot : ∀ p, s.ctx r = some p → p ∉ s.released ∧ p ∉ s.sent) :
    (s.onComplete r).released.Nodup ∧ (s.onComplete r).sent.Nodup := by
  have hsnoc {l : List ℕ} {p : ℕ} (hl : l.Nodup) (hp : p ∉ l) : (l ++ [p]).Nodup :=
    List.concat_eq_append ▸ hl.concat hp
  unfold Sends.onComplete
  split
  · exact ⟨hreleased, hsent⟩
  · next p hctx =>
      obtain ⟨hr, hs⟩ := hnot p hctx
      refine ⟨hsnoc hreleased hr, ?_⟩
      dsimp only
      split
      · exact hsnoc hsent hs
      · exact hsent

omit [DecidableEq ι] in
/-- A completed request hands its record, which is live, to the callback. -/
theorem Records.complete (h : Records s) (hf : Flow cfg s.requests) (hl : Ledger s.requests)
    {item : QueueItem} (hw : s.requests.worker = .processing item) {requests : Requests ι}
    (hsubmit : requests.submit = s.requests.submit)
    (hnext : requests.nextRequest = s.requests.nextRequest)
    (haccepted : requests.accepted = s.requests.accepted)
    (hcompleted : requests.completed = s.requests.completed ++ [item.request]) :
    Records ({ s with requests }.onComplete item.request) := by
  have hb := h.books
  have hcur : item.request ∈ s.requests.worker.current := by simp [hw, WorkerPc.current]
  have hacc : item.request ∈ s.requests.accepted := by
    rw [hf.order]
    simp [hcur]
  have hopen := ((hf.disjoint hl.books.accepted_nodup).1 _ hcur).1
  have hdone (r : ℕ) : r ∈ requests.completed ↔ r ∈ s.requests.completed ∨ r = item.request := by
    rw [hcompleted]
    simp
  have hnot (p : ℕ) (hp : s.ctx item.request = some p) : p ∉ s.released ∧ p ∉ s.sent := by
    constructor
    · rw [hb.released_iff _ hacc p hp]
      exact hopen
    · rw [hb.sent_iff p]
      rintro ⟨-, r, hr, hctx⟩
      exact hopen (hb.ctx_inj r _ p hctx hp ▸ hr)
  obtain ⟨hrequests, hsend, hrecords, hctx, -⟩ := onComplete_frame { s with requests } item.request
  have hmem := mem_released_onComplete { s with requests } item.request
  have hmem' := mem_sent_onComplete { s with requests } item.request
  obtain ⟨hnodup, hnodup'⟩ :=
    @nodup_onComplete _ _ { s with requests } item.request hb.released_nodup hb.sent_nodup hnot
  generalize { s with requests }.onComplete item.request = t at *
  refine ⟨⟨?_, ?_, fun p hp => ?_, hnodup, fun r hr p hp => ?_, hnodup', fun p => ?_⟩, fun j => ?_, ?_,
    fun p hp => ?_⟩
  · rw [hctx, hrequests, hrecords, hnext]
    exact hb.ctx_lt
  · rw [hctx]
    exact hb.ctx_inj
  · rw [hrecords]
    rcases (hmem p).mp hp with hold | hnew
    · exact hb.released_lt p hold
    · exact (hb.ctx_lt _ p hnew).2
  · rw [hrequests, haccepted] at hr
    rw [hctx] at hp
    rw [hmem p, hrequests, hdone r]
    apply or_congr (hb.released_iff r hr p hp)
    constructor
    · exact fun hnew => hb.ctx_inj r _ p hp hnew
    · rintro rfl
      exact hp
  · rw [hmem' p, hrequests, hrecords, hctx]
    change (p ∈ s.sent ∨ s.ctx item.request = some p ∧ s.records[p]? = some true) ↔
      s.records[p]? = some true ∧ ∃ r ∈ requests.completed, s.ctx r = some p
    rw [hb.sent_iff p]
    simp only [hdone]
    constructor
    · rintro (⟨hsent, r, hr, hp⟩ | ⟨hp, hsent⟩)
      · exact ⟨hsent, r, .inl hr, hp⟩
      · exact ⟨hsent, _, .inr rfl, hp⟩
    · rintro ⟨hsent, r, hr | rfl, hp⟩
      · exact .inl ⟨hsent, r, hr, hp⟩
      · exact .inr ⟨hp, hsent⟩
  · rw [hsend, hrequests, hsubmit]
    apply (h.threads j).frame rfl
    · rw [hrecords]
    · exact hb.ctx_inj
    · intro p _ r hr
      rwa [hctx] at hr
    · exact fun r _ => by rw [hctx]
    · intro r hr
      rwa [hrequests, haccepted]
    · intro p _ r hr _
      rw [hrequests, haccepted] at hr
      exact .inl hr
    · intro p _ hp
      rw [hrequests, haccepted]
      rcases (hmem p).mp hp with hold | hnew
      · exact .inl hold
      · exact .inr ⟨_, hacc, hnew⟩
  · rw [hsend]
    exact h.owner_inj
  · rw [hrecords] at hp
    rw [hmem p, hsend, hrequests, haccepted, hctx]
    rcases h.accounted p hp with hrel | hrest
    · exact .inl (.inl hrel)
    · exact .inr hrest

theorem Records.moves {s' : Sends cfg ι} {a : SendAct cfg.arch ι} (h : Records s)
    (hf : Flow cfg s.requests) (hl : Ledger s.requests) (hm : SendMoves s a s') : Records s' := by
  cases hm with
  | @advance _ i session pc hold hnew =>
      have hidle := hold.sub_eq_idle (h.threads i)
      exact h.advance session (hnew.record_eq_none.trans hold.record_eq_none.symm)
        (hidle ▸ hnew.ok)
  | allocate hi => exact h.allocate hi
  | refused hi hst => exact h.refused hi hst
  | submit hi _ hstep => exact h.submit hf hl hi hstep
  | ret hi hsub hstep => exact h.ret hl hi hsub hstep
  | free hi => exact h.free hi
  | phase _ =>
      obtain ⟨hb, hthreads, hinj, hacc⟩ := h
      refine ⟨⟨hb.1, hb.2, hb.3, hb.4, hb.5, hb.6, hb.7⟩, fun i => ?_, hinj, hacc⟩
      exact (hthreads i).frame_records hb rfl rfl (Nat.le_refl _) fun _ _ => id
  | quiet _ ha hstep => exact h.quiet hf hl (quiet_of_step ha hstep)
  | process _ hw hstep =>
      simp only [Requests.step, Requests.workerStep, hw] at hstep
      obtain ⟨p, -, rfl⟩ := Option.map_eq_some_iff.mp hstep
      exact h.complete hf hl hw rfl rfl rfl rfl

end Steps

end Savvy.Stream
