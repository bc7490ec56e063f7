import Savvy.Protocol.StreamParserQueue
import Savvy.Tcp.Channel

/-!
What one item does on the TCP 8141 channel. `waitForResponse_spec` says which
packet a request is answered with, and `processItem_outcome` lists the exits
of `process_item`; everything about runs of the worker is derived from the two.
-/

namespace Savvy.Tcp

open Kit

variable {A : Arch}

/-! ### Reading a packet -/

/-- What reading a packet from a parser that holds `xs` comes to. -/
inductive ReadSpec (A : Arch) (cap : ℕ) (xs : List UInt8) :
    Option (TcpStatus × Option Packet) × StreamParser → Prop
  | more {q : StreamParser} (hwf : q.WF A) (hcap : q.bufCap = cap)
      (hscan : packetScan cap xs = .more) (hunread : q.unread = xs) : ReadSpec A cap xs (none, q)
  | bad {q : StreamParser} (hwf : q.WF A) (hcap : q.bufCap = cap)
      (hscan : packetScan cap xs = .bad) : ReadSpec A cap xs (some (.protocol, none), q)
  | packet {q : StreamParser} {pk : Packet} {n : ℕ} (hwf : q.WF A) (hcap : q.bufCap = cap)
      (hscan : packetScan cap xs = .frame pk n) (hunread : q.unread = xs.drop n) :
      ReadSpec A cap xs (some (.ok, some pk), q)

theorem extractResponse_spec {p : StreamParser} (h : p.WF A) :
    ReadSpec A p.bufCap p.unread (extractResponse A p) := by
  have hq := h.tryExtract
  have hspec := h.tryExtract_spec
  unfold extractResponse
  generalize p.tryExtract A = r at hq hspec
  cases hspec with
  | more hscan => exact .more h rfl hscan rfl
  | bad hscan => exact .bad h rfl hscan
  | ready hscan hdata =>
      refine .packet hq rfl ?_ (StreamParser.unread_advance p _)
      rw [hscan, Nat.add_assoc, ← packetSize, hdata]
      rfl

/-- A chunk that fits is read together with what was there; one that does not
fit is a protocol error. -/
theorem pushAndExtract_spec {p : StreamParser} (h : p.WF A) (bytes : List UInt8) :
    (p.unread.length + bytes.length ≤ p.bufCap ∧
        ReadSpec A p.bufCap (p.unread ++ bytes) (pushAndExtract A p bytes)) ∨
      (p.bufCap < p.unread.length + bytes.length ∧
        ∃ q, pushAndExtract A p bytes = (some (.protocol, none), q) ∧ q.WF A ∧
          q.bufCap = p.bufCap) := by
  have hpush := h.push_spec bytes
  unfold pushAndExtract
  generalize p.push A (.bytes bytes) = r at hpush
  obtain ⟨st, q⟩ := r
  rcases le_or_gt (p.unread.length + bytes.length) p.bufCap with hle | hlt
  · obtain ⟨rfl, hunread⟩ := hpush.ok hle
    have hread := extractResponse_spec hpush.wf
    rw [hpush.bufCap, hunread] at hread
    exact .inl ⟨hle, hread⟩
  · obtain ⟨rfl, -⟩ := hpush.overflow hlt
    exact .inr ⟨hlt, q, rfl, hpush.wf, hpush.bufCap⟩

/-! ### Waiting for a response -/

/-- A return of `wait_for_response` from a parser that held `unread`: the
first packet of these bytes and of those read from the socket, or a failure. -/
structure ResponseSpec (A : Arch) (cap : ℕ) (unread : List UInt8) (r : Response) : Prop where
  wf : r.parser.WF A
  bufCap : r.parser.bufCap = cap
  answer : (∃ pk, r.status = .ok ∧ r.packet = some pk ∧
      ∀ ys, ((packetFraming cap).parse (unread ++ r.received ++ ys)).frames =
        pk :: ((packetFraming cap).parse (r.parser.unread ++ ys)).frames) ∨
    (r.status ≠ .ok ∧ r.status ≠ .sentNoWait)

theorem ResponseSpec.failed {cap : ℕ} {unread received : List UInt8} {p : StreamParser}
    {status : TcpStatus} {rest : List RecvTurn} (h : p.WF A) (hcap : p.bufCap = cap)
    (hok : status ≠ .ok) (hsent : status ≠ .sentNoWait) :
    ResponseSpec A cap unread ⟨status, none, p, received, rest⟩ :=
  ⟨h, hcap, .inr ⟨hok, hsent⟩⟩

theorem ResponseSpec.packet {cap n : ℕ} {unread received : List UInt8} {q : StreamParser}
    {pk : Packet} {rest : List RecvTurn} (h : q.WF A) (hcap : q.bufCap = cap)
    (hscan : packetScan cap (unread ++ received) = .frame pk n)
    (hunread : q.unread = (unread ++ received).drop n) :
    ResponseSpec A cap unread ⟨.ok, some pk, q, received, rest⟩ := by
  refine ⟨h, hcap, .inl ⟨pk, rfl, rfl, fun ys => ?_⟩⟩
  rw [hunread]
  exact (packetFraming cap).parse_append_of_frame hscan ys

theorem waitLoop_spec {cap : ℕ} {unread : List UInt8} {p : StreamParser}
    {received : List UInt8} {ts : List RecvTurn} {r : Response} (h : p.WF A)
    (hcap : p.bufCap = cap) (hunread : p.unread = unread ++ received)
    (hr : waitLoop A p received ts = some r) : ResponseSpec A cap unread r := by
  induction ts generalizing p received with
  | nil => simp [waitLoop] at hr
  | cons t ts ih =>
      have hfail {status : TcpStatus} (hok : status ≠ .ok) (hsent : status ≠ .sentNoWait)
          (heq : (⟨status, none, p, received, ts⟩ : Response) = r) :
          ResponseSpec A cap unread r := heq ▸ .failed h hcap hok hsent
      simp only [waitLoop] at hr
      split at hr
      · exact hfail (by simp) (by simp) (Option.some.inj hr)
      split at hr
      · exact hfail (by simp) (by simp) (Option.some.inj hr)
      split at hr
      · split at hr
        · exact ih h hcap hunread hr
        · exact hfail (by simp) (by simp) (Option.some.inj hr)
      · exact ih h hcap hunread hr
      split at hr
      · split at hr
        · exact ih h hcap hunread hr
        · exact hfail (by simp) (by simp) (Option.some.inj hr)
      next bytes _ =>
        split at hr
        · exact hfail (by simp) (by simp) (Option.some.inj hr)
        obtain ⟨-, hread⟩ | ⟨-, q, hover, hwf, hqcap⟩ := pushAndExtract_spec h bytes
        · rw [hcap, hunread, List.append_assoc] at hread
          generalize pushAndExtract A p bytes = res at hread hr
          cases hread with
          | more hwf hqcap _ hq => exact ih hwf hqcap hq hr
          | bad hwf hqcap _ =>
              obtain rfl := Option.some.inj hr
              exact .failed hwf hqcap (by simp) (by simp)
          | packet hwf hqcap hscan hq =>
              obtain rfl := Option.some.inj hr
              exact .packet hwf hqcap hscan hq
        · rw [hover] at hr
          obtain rfl := Option.some.inj hr
          exact .failed hwf (hqcap.trans hcap) (by simp) (by simp)

/-- A request is answered with the first packet of the bytes left over in the
parser and of those read while waiting. -/
theorem waitForResponse_spec {p : StreamParser} {ts : List RecvTurn} {r : Response}
    (h : p.WF A) (hr : waitForResponse A p ts = some r) :
    ResponseSpec A p.bufCap p.unread r := by
  have hnil : p.unread ++ [] = p.unread := List.append_nil _
  have hread := extractResponse_spec h
  unfold waitForResponse at hr
  generalize extractResponse A p = res at hread hr
  cases hread with
  | more hwf hcap _ hq => exact waitLoop_spec hwf hcap (hq.trans hnil.symm) hr
  | bad hwf hcap _ =>
      obtain rfl := Option.some.inj hr
      exact .failed hwf hcap (by simp) (by simp)
  | packet hwf hcap hscan hq =>
      obtain rfl := Option.some.inj hr
      exact .packet hwf hcap (by rwa [hnil]) (by rwa [hnil])

/-! ### The exits of an item -/

/-- The channel an item is sent on: the one that is open, or a new one. -/
inductive SentOn (ch : Channel) (item : QueueItem) : Channel → Bool → Prop
  | same (h : ch.sockfd ≠ none) : SentOn ch item ch false
  | fresh (h : ch.sockfd = none) (hkind : item.kind ≠ .relay) : SentOn ch item ch.opened true

/-- The exits of `process_item`. -/
inductive ItemOutcome (A : Arch) (ch : Channel) (item : QueueItem) : Processed → Prop
  | refused {rest : List RecvTurn} (hkind : item.kind = .relay) (h : ch.sockfd = none) :
      ItemOutcome A ch item ⟨ch, .failed .notConnected, none, false, [], rest⟩
  | notConnected {status : TcpStatus} {rest : List RecvTurn} (hkind : item.kind ≠ .relay)
      (h : ch.sockfd = none) (hok : status ≠ .ok) (hsent : status ≠ .sentNoWait) :
      ItemOutcome A ch item ⟨ch, .failed status, none, true, [], rest⟩
  | notSent {base : Channel} {tried : Bool} {status : TcpStatus} {rest : List RecvTurn}
      (hbase : SentOn ch item base tried) (hok : status ≠ .ok) (hsent : status ≠ .sentNoWait) :
      ItemOutcome A ch item
        ⟨base.closeSessionInternal, .failed status, base, tried, [], rest⟩
  | finalSent {base : Channel} {tried : Bool} {rest : List RecvTurn}
      (hbase : SentOn ch item base tried) (hkind : item.kind = .final) :
      ItemOutcome A ch item
        ⟨base.closeSessionInternal, .failed .sentNoWait, base, tried, [], rest⟩
  | relaySent {base : Channel} {tried : Bool} {rest : List RecvTurn}
      (hbase : SentOn ch item base tried) (hkind : item.kind = .relay) :
      ItemOutcome A ch item ⟨base, .failed .sentNoWait, base, tried, [], rest⟩
  | answered {base : Channel} {tried : Bool} {r : Response} {pk : Packet}
      (hbase : SentOn ch item base tried) (hkind : item.kind = .normal)
      (hr : ResponseSpec A base.parser.bufCap base.parser.unread r) (hok : r.status = .ok)
      (hpk : r.packet = some pk) :
      ItemOutcome A ch item
        ⟨{ base with parser := r.parser }, .ofPacket pk, base, tried, r.received, r.rest⟩
  | unanswered {base : Channel} {tried : Bool} {r : Response}
      (hbase : SentOn ch item base tried) (hkind : item.kind = .normal)
      (hr : ResponseSpec A base.parser.bufCap base.parser.unread r) (hok : r.status ≠ .ok)
      (hsent : r.status ≠ .sentNoWait) :
      ItemOutcome A ch item
        ⟨({ base with parser := r.parser } : Channel).closeSessionInternal, .failed r.status,
          base, tried, r.received, r.rest⟩

theorem addressLoop_status {outcome status : TcpStatus} {as : List Address}
    (h : addressLoop outcome as = some status) (hsent : outcome ≠ .sentNoWait) :
    status ≠ .sentNoWait := by
  induction as generalizing outcome with
  | nil =>
      obtain rfl := Option.some.inj h
      exact hsent
  | cons a as ih =>
      simp only [addressLoop] at h
      split at h
      · exact ih h hsent
      split at h
      · obtain rfl := Option.some.inj h
        simp
      split at h
      · exact ih h hsent
      split at h
      · cases h
      · obtain rfl := Option.some.inj h
        simp
      · obtain rfl := Option.some.inj h
        simp
      · have hnext : (if a.expired then TcpStatus.connectTimeout else .io) ≠ .sentNoWait := by
          split <;> simp
        split at h
        · obtain rfl := Option.some.inj h
          exact hnext
        · exact ih h hnext

theorem tryConnect_cases {ch ch' : Channel} {addresses : Option (List Address)}
    {status : TcpStatus} (h : tryConnect ch addresses = some (status, ch')) :
    (status = .ok ∧ ch' = ch.opened) ∨
      (status ≠ .ok ∧ status ≠ .sentNoWait ∧ ch' = ch) := by
  unfold tryConnect at h
  split at h
  · obtain ⟨rfl, rfl⟩ := Prod.mk.inj (Option.some.inj h)
    exact .inr ⟨by simp, by simp, rfl⟩
  · obtain ⟨rfl, rfl⟩ := Prod.mk.inj (Option.some.inj h)
    exact .inr ⟨by simp, by simp, rfl⟩
  · obtain ⟨outcome, hloop, heq⟩ := Option.map_eq_some_iff.mp h
    obtain ⟨rfl, rfl⟩ := Prod.mk.inj heq
    by_cases hok : outcome = .ok
    · exact .inl ⟨hok, if_pos hok⟩
    · exact .inr ⟨hok, addressLoop_status hloop (by simp), if_neg hok⟩

theorem sendLoop_status {len sent : ℕ} {ts : List SendTurn} {status : TcpStatus}
    (h : sendLoop len sent ts = some status) : status ≠ .sentNoWait := by
  induction ts generalizing sent with
  | nil =>
      simp only [sendLoop, Option.ite_none_right_eq_some, Option.some.injEq] at h
      rw [← h.2]
      simp
  | cons t ts ih =>
      simp only [sendLoop] at h
      repeat' split at h
      all_goals first
        | exact ih h
        | (obtain rfl := Option.some.inj h; simp)

theorem exchange_outcome {ch base : Channel} {item : QueueItem} {env : ItemEnv} {tried : Bool}
    {p : Processed} (hwf : base.parser.WF A) (hbase : SentOn ch item base tried)
    (h : exchange A base item env tried = some p) : ItemOutcome A ch item p := by
  unfold exchange at h
  split at h
  · cases h
  · split at h
    · next hkind =>
        obtain rfl := Option.some.inj h
        exact .finalSent hbase hkind
    · next hkind =>
        obtain rfl := Option.some.inj h
        exact .relaySent hbase hkind
    · next hkind =>
        cases hr : waitForResponse A base.parser env.recv with
        | none => simp [hr] at h
        | some r =>
            have hspec := waitForResponse_spec hwf hr
            simp only [hr] at h
            obtain ⟨pk, hok, hpk, -⟩ | ⟨hok, hsent⟩ := hspec.answer
            · simp only [hok, hpk] at h
              obtain rfl := Option.some.inj h
              exact .answered hbase hkind hspec hok hpk
            · split at h
              · next hst _ => exact absurd hst hok
              · obtain rfl := Option.some.inj h
                exact .unanswered hbase hkind hspec hok hsent
  · next status hne hsend =>
      obtain rfl := Option.some.inj h
      exact .notSent hbase hne (sendLoop_status hsend)

theorem processItem_outcome {ch : Channel} {item : QueueItem} {env : ItemEnv} {p : Processed}
    (hwf : ch.parser.WF A) (h : processItem A ch item env = some p) :
    ItemOutcome A ch item p := by
  unfold processItem at h
  split at h
  · next hcond =>
      obtain rfl := Option.some.inj h
      exact .refused hcond.1 hcond.2
  · next hcond =>
      split at h
      · next hnone =>
          have hkind : item.kind ≠ .relay := fun hk => hcond ⟨hk, hnone⟩
          split at h
          · cases h
          · next ch' hconn =>
              obtain ⟨-, rfl⟩ | ⟨hok, -⟩ := tryConnect_cases hconn
              · exact exchange_outcome (.init hwf.fits) (.fresh hnone hkind) h
              · exact absurd rfl hok
          · next status ch' hne hconn =>
              obtain ⟨rfl, rfl⟩ | ⟨hok, hsent, rfl⟩ := tryConnect_cases hconn
              · exact absurd rfl hne
              · obtain rfl := Option.some.inj h
                exact .notConnected hkind hnone hok hsent
      · next hsome => exact exchange_outcome hwf (.same hsome) h

end Savvy.Tcp
