import Savvy.Tcp.Response

/-!
Runs of the channel's worker: the items it takes from the queue, one after the
other. Responses are matched to requests per connection. A connection is live
while it is the open one or has not been made yet; once closed it never comes
back, so the bytes left over in the parser can only belong to the connection
they were read from.
-/

namespace Savvy.Tcp

open Kit

variable {A : Arch}

/-- One item and the world around it while it is processed. -/
structure Job where
  item : QueueItem
  env : ItemEnv

structure Done where
  item : QueueItem
  before : Channel
  processed : Processed

namespace Done

/-- The channel after the completion callback. -/
def after (d : Done) : Channel := d.processed.channel

def conn (d : Done) : Option ℕ := d.processed.conn

def status (d : Done) : TcpStatus := d.processed.result.status

def okResult (c : ℕ) (d : Done) : Option TcpResult :=
  if d.item.kind = .normal ∧ d.status = .ok ∧ d.conn = some c then some d.processed.result
  else none

def bytesOn (c : ℕ) (d : Done) : List UInt8 := if d.conn = some c then d.processed.received else []

end Done

def okResults (c : ℕ) (ds : List Done) : List TcpResult := ds.filterMap (Done.okResult c)

/-- The inbound bytes of connection `c` as far as they were read. -/
def inbound (c : ℕ) (ds : List Done) : List UInt8 := ds.flatMap (Done.bytesOn c)

variable (A) in
def workerStep (ch : Channel) (j : Job) : Option Done :=
  (processItem A ch j.item j.env).map fun p => ⟨j.item, ch, onComplete p j.env⟩

variable (A) in
/-- The loop of `worker_main` over the items it pops. `none` if one of them
never completes. -/
def runWorker : Channel → List Job → Option (Channel × List Done)
  | ch, [] => some (ch, [])
  | ch, j :: js =>
      (workerStep A ch j).bind fun d =>
        (runWorker d.after js).map fun r => (r.1, d :: r.2)

/-! ### One item -/

/-- The invariant of the worker's fields between two items. -/
structure Channel.Good (A : Arch) (cap : ℕ) (ch : Channel) : Prop where
  wf : ch.parser.WF A
  bufCap : ch.parser.bufCap = cap
  connected : ch.connected = ch.sockfd.isSome
  known : ∀ c, ch.sockfd = some c → c < ch.conns

def Channel.Live (ch : Channel) (c : ℕ) : Prop := ch.sockfd = some c ∨ ch.conns ≤ c

def Channel.pending (ch : Channel) (c : ℕ) : List UInt8 :=
  if ch.sockfd = some c then ch.parser.unread else []

namespace Channel

variable {cap : ℕ} {ch : Channel}

theorem Good.create (buf : Storage A) : (create buf.bytes).Good A buf.bytes.length :=
  ⟨.init buf.fits, rfl, rfl, by simp [Channel.create]⟩

theorem Good.close (h : ch.Good A cap) : ch.closeSessionInternal.Good A cap :=
  ⟨h.wf, h.bufCap, rfl, by simp [closeSessionInternal]⟩

theorem Good.opened (h : ch.Good A cap) : ch.opened.Good A cap :=
  ⟨.init h.wf.fits, h.bufCap, rfl, by simp [Channel.opened]⟩

theorem Good.withParser (h : ch.Good A cap) {p : StreamParser} (hwf : p.WF A)
    (hcap : p.bufCap = cap) : ({ ch with parser := p } : Channel).Good A cap :=
  ⟨hwf, hcap, h.connected, h.known⟩

end Channel

theorem SentOn.good {cap : ℕ} {ch base : Channel} {item : QueueItem} {tried : Bool}
    (h : ch.Good A cap) (hbase : SentOn ch item base tried) : base.Good A cap := by
  cases hbase with
  | same _ => exact h
  | fresh _ _ => exact h.opened

theorem ItemOutcome.good {cap : ℕ} {ch : Channel} {item : QueueItem} {p : Processed}
    (h : ch.Good A cap) (ho : ItemOutcome A ch item p) : p.channel.Good A cap := by
  cases ho with
  | refused _ _ => exact h
  | notConnected _ _ _ _ => exact h
  | notSent hbase _ _ => exact (hbase.good h).close
  | finalSent hbase _ => exact (hbase.good h).close
  | relaySent hbase _ => exact hbase.good h
  | answered hbase _ hr _ _ =>
      exact (hbase.good h).withParser hr.wf (hr.bufCap.trans (hbase.good h).bufCap)
  | unanswered hbase _ hr _ _ =>
      exact ((hbase.good h).withParser hr.wf (hr.bufCap.trans (hbase.good h).bufCap)).close

theorem SentOn.live {ch base : Channel} {item : QueueItem} {tried : Bool} {c : ℕ}
    (hbase : SentOn ch item base tried) (h : base.Live c) : ch.Live c := by
  cases hbase with
  | same _ => exact h
  | fresh _ _ =>
      rcases h with hs | hle
      · exact .inr (Option.some.inj hs).le
      · exact .inr ((Nat.le_succ _).trans hle)

/-- Getting a connection loses no bytes of a live one and adds none. -/
theorem SentOn.pending {ch base : Channel} {item : QueueItem} {tried : Bool}
    (hbase : SentOn ch item base tried) (c : ℕ) : base.pending c = ch.pending c := by
  cases hbase with
  | same _ => rfl
  | fresh h _ => simp [Channel.pending, Channel.opened, h]

/-- What an item does to connection `c`: the answers it gives are the next
packets of the connection, and if the connection stays live then the parser
holds what comes after them. -/
structure Done.Matches (cap : ℕ) (c : ℕ) (d : Done) (pks : List Packet) : Prop where
  results : (d.okResult c).toList = pks.map .ofPacket
  isPrefix (ys : List UInt8) : pks <+:
    ((packetFraming cap).parse (d.before.pending c ++ d.bytesOn c ++ ys)).frames
  rest (h : d.after.Live c) (ys : List UInt8) :
    ((packetFraming cap).parse (d.before.pending c ++ d.bytesOn c ++ ys)).frames =
      pks ++ ((packetFraming cap).parse (d.after.pending c ++ ys)).frames

theorem Done.okResult_of_status {d : Done} {c : ℕ} (h : d.status ≠ .ok) : d.okResult c = none :=
  if_neg fun hc => h hc.2.1

theorem Done.okResult_of_conn {d : Done} {c : ℕ} (h : d.conn ≠ some c) : d.okResult c = none :=
  if_neg fun hc => h hc.2.2

theorem Done.bytesOn_of_conn {d : Done} {c : ℕ} (h : d.conn ≠ some c) : d.bytesOn c = [] :=
  if_neg h

/-- An item that gives no answer on `c`, reads nothing from it and leaves the
bytes held for it alone. -/
theorem Done.Matches.idle {cap c : ℕ} {d : Done} (hres : d.okResult c = none)
    (hbytes : d.bytesOn c = []) (hpend : d.after.pending c = d.before.pending c) :
    d.Matches cap c [] where
  results := by simp [hres]
  isPrefix _ := List.nil_prefix
  rest _ ys := by simp [hbytes, hpend]

theorem Done.Matches.answer {cap c : ℕ} {d : Done} {pk : Packet}
    (hres : d.okResult c = some (.ofPacket pk))
    (hans : ∀ ys, ((packetFraming cap).parse (d.before.pending c ++ d.bytesOn c ++ ys)).frames =
      pk :: ((packetFraming cap).parse (d.after.pending c ++ ys)).frames) :
    d.Matches cap c [pk] where
  results := by simp [hres]
  isPrefix ys := by
    rw [hans]
    exact ⟨_, rfl⟩
  rest _ ys := hans ys

theorem Channel.Good.live_close {cap c : ℕ} {ch : Channel} (h : ch.Good A cap)
    (hlive : ch.closeSessionInternal.Live c) : ch.conns ≤ c ∧ ch.pending c = [] := by
  have hle : ch.conns ≤ c := hlive.resolve_left (by simp [Channel.closeSessionInternal])
  exact ⟨hle, if_neg fun hs => absurd (h.known c hs) (by omega)⟩

/-- Closing the session afterwards changes nothing but that the connection is
gone. -/
theorem Done.Matches.closeSession {cap c : ℕ} {item : QueueItem} {ch : Channel} {p : Processed}
    {pks : List Packet} (hgood : p.channel.Good A cap) (h : Matches cap c ⟨item, ch, p⟩ pks) :
    Matches cap c ⟨item, ch, p.closeSession⟩ pks where
  results := h.results
  isPrefix := h.isPrefix
  rest hlive ys := by
    obtain ⟨hle, hpend⟩ := hgood.live_close hlive
    have hrest := h.rest (.inr hle) ys
    have hclosed : (after ⟨item, ch, p.closeSession⟩).pending c = [] :=
      if_neg (by simp [after, Processed.closeSession, Channel.closeSessionInternal])
    rw [show (after ⟨item, ch, p⟩).pending c = [] from hpend] at hrest
    rw [hclosed]
    exact hrest

theorem SentOn.idle {cap c : ℕ} {ch base : Channel} {item : QueueItem} {tried : Bool}
    {status : TcpStatus} {rest : List RecvTurn} (hbase : SentOn ch item base tried)
    (hok : status ≠ .ok) :
    Done.Matches cap c ⟨item, ch, ⟨base, .failed status, base, tried, [], rest⟩⟩ [] :=
  .idle (Done.okResult_of_status hok) (ite_self _) (hbase.pending c)

theorem ItemOutcome.matches {cap c : ℕ} {ch : Channel} {item : QueueItem} {p : Processed}
    (h : ch.Good A cap) (ho : ItemOutcome A ch item p) :
    ∃ pks, Done.Matches cap c ⟨item, ch, p⟩ pks := by
  cases ho with
  | refused _ _ => exact ⟨[], .idle (Done.okResult_of_conn (by rintro ⟨⟩)) rfl rfl⟩
  | notConnected _ _ _ _ => exact ⟨[], .idle (Done.okResult_of_conn (by rintro ⟨⟩)) rfl rfl⟩
  | notSent hbase hok _ => exact ⟨[], (hbase.idle hok).closeSession (hbase.good h)⟩
  | finalSent hbase _ => exact ⟨[], (hbase.idle (by simp)).closeSession (hbase.good h)⟩
  | relaySent hbase _ => exact ⟨[], hbase.idle (by simp)⟩
  | @answered base tried r pk hbase hkind hr hok hpk =>
      have hcap := (hbase.good h).bufCap
      by_cases hc : base.sockfd = some c
      · refine ⟨[pk], .answer (if_pos ⟨hkind, rfl, hc⟩) fun ys => ?_⟩
        obtain ⟨pk', -, hpk', hans⟩ | ⟨hne, -⟩ := hr.answer
        · obtain rfl := Option.some.inj (hpk.symm.trans hpk')
          rw [hcap] at hans
          have hafter : Channel.pending { base with parser := r.parser } c = r.parser.unread :=
            if_pos hc
          have hbytes : Done.bytesOn c ⟨item, ch, ⟨{ base with parser := r.parser },
              .ofPacket pk, base, tried, r.received, r.rest⟩⟩ = r.received := if_pos hc
          rw [hbytes, ← hbase.pending c, Channel.pending, if_pos hc, hans ys, ← hafter]
          rfl
        · exact absurd hok hne
      · refine ⟨[], .idle (Done.okResult_of_conn hc) (Done.bytesOn_of_conn hc) ?_⟩
        rw [← hbase.pending c]
        simp [Channel.pending, Done.after, hc]
  | @unanswered base tried r hbase _ hr hok _ =>
      have hres : Done.okResult c ⟨item, ch, ⟨({ base with parser := r.parser } :
          Channel).closeSessionInternal, .failed r.status, base, tried, r.received, r.rest⟩⟩ =
            none := Done.okResult_of_status hok
      have hgood := (hbase.good h).withParser hr.wf (hr.bufCap.trans (hbase.good h).bufCap)
      by_cases hc : base.sockfd = some c
      · -- The bytes read are lost, but then so is the connection.
        refine ⟨[], by simp [hres], fun _ => List.nil_prefix, fun hlive => ?_⟩
        exact absurd (hgood.live_close hlive).1 (Nat.not_le.mpr ((hbase.good h).known c hc))
      · refine ⟨[], .idle hres (Done.bytesOn_of_conn hc) ?_⟩
        rw [← hbase.pending c]
        simp [Channel.pending, Done.after, hc, Channel.closeSessionInternal]

/-- What every completed item satisfies. -/
structure Done.Sound (d : Done) : Prop where
  before_connected : d.before.connected = d.before.sockfd.isSome
  after_connected : d.after.connected = d.after.sockfd.isSome
  failure_closes (hok : d.status ≠ .ok) (hsent : d.status ≠ .sentNoWait) : d.after.sockfd = none
  final_closes (h : d.item.kind = .final) : d.after.sockfd = none
  reconnects (h : d.before.sockfd = none) (hkind : d.item.kind ≠ .relay) :
    d.processed.tried = true ∧ ∀ base, d.processed.sentOn = some base →
      base.sockfd = some d.before.conns ∧ base.parser.unread = []
  relay_keeps (h : d.item.kind = .relay) :
    d.processed.tried = false ∧ d.after.conns = d.before.conns

/-- How an item uses connection numbers: it runs on the open one or on the
next new one, and no closed one is opened again. -/
structure Done.Fresh (d : Done) : Prop where
  conns_le : d.before.conns ≤ d.after.conns
  conn_live {c : ℕ} (h : d.conn = some c) : d.before.Live c ∧ c < d.after.conns
  live {c : ℕ} (h : d.after.Live c) : d.before.Live c

theorem SentOn.reconnects {ch base : Channel} {item : QueueItem} {tried : Bool}
    (hbase : SentOn ch item base tried) (h : ch.sockfd = none) :
    tried = true ∧ ∀ base', some base = some base' →
      base'.sockfd = some ch.conns ∧ base'.parser.unread = [] := by
  cases hbase with
  | same hne => exact absurd h hne
  | fresh _ _ =>
      refine ⟨rfl, ?_⟩
      rintro base' ⟨rfl⟩
      exact ⟨rfl, StreamParser.unread_init _⟩

theorem SentOn.relay {ch base : Channel} {item : QueueItem} {tried : Bool}
    (hbase : SentOn ch item base tried) (h : item.kind = .relay) :
    tried = false ∧ base.conns = ch.conns := by
  cases hbase with
  | same _ => exact ⟨rfl, rfl⟩
  | fresh _ hne => exact absurd h hne

theorem ItemOutcome.sound {cap : ℕ} {ch : Channel} {item : QueueItem} {p : Processed}
    (h : ch.Good A cap) (ho : ItemOutcome A ch item p) : Done.Sound ⟨item, ch, p⟩ where
  before_connected := h.connected
  after_connected := (ho.good h).connected
  failure_closes hok hsent := by
    cases ho with
    | refused _ hnone => exact hnone
    | notConnected _ hnone _ _ => exact hnone
    | relaySent _ _ => exact absurd rfl hsent
    | answered _ _ _ _ _ => exact absurd rfl hok
    | _ => rfl
  final_closes hfinal := by
    cases ho with
    | refused _ hnone => exact hnone
    | notConnected _ hnone _ _ => exact hnone
    | relaySent _ hkind => exact absurd (hkind.symm.trans hfinal) (by simp)
    | answered _ hkind _ _ _ => exact absurd (hkind.symm.trans hfinal) (by simp)
    | _ => rfl
  reconnects hnone hkind := by
    cases ho with
    | refused hrelay _ => exact absurd hrelay hkind
    | notConnected _ _ _ _ => exact ⟨rfl, by rintro _ ⟨⟩⟩
    | notSent hbase _ _ => exact hbase.reconnects hnone
    | finalSent hbase _ => exact hbase.reconnects hnone
    | relaySent hbase _ => exact hbase.reconnects hnone
    | answered hbase _ _ _ _ => exact hbase.reconnects hnone
    | unanswered hbase _ _ _ _ => exact hbase.reconnects hnone
  relay_keeps hrelay := by
    cases ho with
    | refused _ _ => exact ⟨rfl, rfl⟩
    | notConnected hkind _ _ _ => exact absurd hrelay hkind
    | notSent hbase _ _ => exact hbase.relay hrelay
    | finalSent hbase _ => exact hbase.relay hrelay
    | relaySent hbase _ => exact hbase.relay hrelay
    | answered hbase _ _ _ _ => exact hbase.relay hrelay
    | unanswered hbase _ _ _ _ => exact hbase.relay hrelay

theorem Channel.Live.of_close {ch : Channel} {c : ℕ} (h : ch.closeSessionInternal.Live c) :
    ch.Live c :=
  .inr (h.resolve_left (by simp [Channel.closeSessionInternal]))

/-- A channel that only differs from the one an item was sent on by being
closed or by its parser. -/
theorem SentOn.isFresh {cap : ℕ} {ch base : Channel} {item : QueueItem} {tried : Bool}
    {p : Processed} (h : ch.Good A cap) (hbase : SentOn ch item base tried)
    (hsent : p.sentOn = some base) (hconns : p.channel.conns = base.conns)
    (hsock : p.channel.sockfd = base.sockfd ∨ p.channel.sockfd = none) :
    Done.Fresh ⟨item, ch, p⟩ where
  conns_le := by
    change ch.conns ≤ p.channel.conns
    rw [hconns]
    cases hbase with
    | same _ => exact le_rfl
    | fresh _ _ => exact Nat.le_succ _
  conn_live {c} hc := by
    have hc' : base.sockfd = some c := by simpa [Done.conn, Processed.conn, hsent] using hc
    refine ⟨hbase.live (.inl hc'), ?_⟩
    change c < p.channel.conns
    rw [hconns]
    exact (hbase.good h).known c hc'
  live {c} hlive := by
    refine hbase.live ?_
    rcases hlive with hs | hle
    · rcases hsock with hsame | hnone
      · exact .inl (hsame.symm.trans hs)
      · exact absurd (hnone.symm.trans hs) (by simp)
    · exact .inr (hconns ▸ hle)

theorem ItemOutcome.isFresh {cap : ℕ} {ch : Channel} {item : QueueItem} {p : Processed}
    (h : ch.Good A cap) (ho : ItemOutcome A ch item p) : Done.Fresh ⟨item, ch, p⟩ := by
  cases ho with
  | refused _ _ => exact ⟨le_rfl, by rintro c ⟨⟩, id⟩
  | notConnected _ _ _ _ => exact ⟨le_rfl, by rintro c ⟨⟩, id⟩
  | notSent hbase _ _ => exact hbase.isFresh h rfl rfl (.inr rfl)
  | finalSent hbase _ => exact hbase.isFresh h rfl rfl (.inr rfl)
  | relaySent hbase _ => exact hbase.isFresh h rfl rfl (.inl rfl)
  | answered hbase _ _ _ _ => exact hbase.isFresh h rfl rfl (.inl rfl)
  | unanswered hbase _ _ _ _ => exact hbase.isFresh h rfl rfl (.inr rfl)

/-- What the worker's iteration keeps, the completion callback included. -/
theorem workerStep_spec {cap : ℕ} {ch : Channel} {j : Job} {d : Done} (h : ch.Good A cap)
    (hd : workerStep A ch j = some d) :
    d.before = ch ∧ d.after.Good A cap ∧ d.Sound ∧ d.Fresh ∧ ∀ c, ∃ pks, d.Matches cap c pks := by
  obtain ⟨p, hp, rfl⟩ := Option.map_eq_some_iff.mp hd
  have ho := processItem_outcome h.wf hp
  have hgood := ho.good h
  have hsound := ho.sound h
  have hfresh := ho.isFresh h
  unfold onComplete
  split
  · refine ⟨rfl, hgood.close, ?_, ?_, fun c => ?_⟩
    · exact ⟨h.connected, rfl, fun _ _ => rfl, fun _ => rfl, hsound.reconnects, hsound.relay_keeps⟩
    · exact ⟨hfresh.conns_le, hfresh.conn_live, fun hlive => hfresh.live hlive.of_close⟩
    · obtain ⟨pks, hpks⟩ := ho.matches (c := c) h
      exact ⟨pks, hpks.closeSession hgood⟩
  · exact ⟨rfl, hgood, hsound, hfresh, fun c => ho.matches h⟩

/-! ### Whole runs -/

section Run

variable {cap : ℕ} {ch ch' : Channel} {jobs : List Job} {ds : List Done}

theorem runWorker_cons {j : Job} (hrun : runWorker A ch (j :: jobs) = some (ch', ds)) :
    ∃ d ds', workerStep A ch j = some d ∧ runWorker A d.after jobs = some (ch', ds') ∧
      ds = d :: ds' := by
  obtain ⟨d, hd, hmap⟩ := Option.bind_eq_some_iff.mp hrun
  obtain ⟨⟨ch₁, ds'⟩, hrest, heq⟩ := Option.map_eq_some_iff.mp hmap
  obtain ⟨rfl, rfl⟩ := Prod.mk.inj heq
  exact ⟨d, ds', hd, hrest, rfl⟩

theorem runWorker_good (h : ch.Good A cap) (hrun : runWorker A ch jobs = some (ch', ds)) :
    ch'.Good A cap := by
  induction jobs generalizing ch ds with
  | nil =>
      obtain ⟨rfl, rfl⟩ := Prod.mk.inj (Option.some.inj hrun)
      exact h
  | cons j jobs ih =>
      obtain ⟨d, ds', hd, hrest, rfl⟩ := runWorker_cons hrun
      exact ih (workerStep_spec h hd).2.1 hrest

theorem runWorker_sound (h : ch.Good A cap) (hrun : runWorker A ch jobs = some (ch', ds)) :
    ∀ d ∈ ds, d.Sound ∧ d.Fresh := by
  induction jobs generalizing ch ds with
  | nil =>
      obtain ⟨rfl, rfl⟩ := Prod.mk.inj (Option.some.inj hrun)
      simp
  | cons j jobs ih =>
      obtain ⟨d, ds', hd, hrest, rfl⟩ := runWorker_cons hrun
      obtain ⟨-, hgood, hsound, hfresh, -⟩ := workerStep_spec h hd
      exact List.forall_mem_cons.mpr ⟨⟨hsound, hfresh⟩, ih hgood hrest⟩

theorem runWorker_head (h : ch.Good A cap) (hrun : runWorker A ch jobs = some (ch', ds)) :
    ∀ d ∈ ds.head?, d.before = ch := by
  cases jobs with
  | nil =>
      obtain ⟨rfl, rfl⟩ := Prod.mk.inj (Option.some.inj hrun)
      simp
  | cons j jobs =>
      obtain ⟨d, ds', hd, -, rfl⟩ := runWorker_cons hrun
      simpa using (workerStep_spec h hd).1

theorem runWorker_chain (h : ch.Good A cap) (hrun : runWorker A ch jobs = some (ch', ds)) :
    ds.IsChain fun d e => e.before = d.after := by
  induction jobs generalizing ch ds with
  | nil =>
      obtain ⟨rfl, rfl⟩ := Prod.mk.inj (Option.some.inj hrun)
      exact .nil
  | cons j jobs ih =>
      obtain ⟨d, ds', hd, hrest, rfl⟩ := runWorker_cons hrun
      obtain ⟨-, hgood, -, -, -⟩ := workerStep_spec h hd
      have hhead := runWorker_head hgood hrest
      have hchain := ih hgood hrest
      cases ds' with
      | nil => exact .singleton d
      | cons e es => exact .cons_cons (hhead e rfl) hchain

/-- Connections are numbered upwards, and only live ones are used. -/
theorem runWorker_conns (h : ch.Good A cap) (hrun : runWorker A ch jobs = some (ch', ds)) :
    ∀ d ∈ ds, ch.conns ≤ d.before.conns ∧ ∀ c, d.conn = some c → ch.Live c := by
  induction jobs generalizing ch ds with
  | nil =>
      obtain ⟨rfl, rfl⟩ := Prod.mk.inj (Option.some.inj hrun)
      simp
  | cons j jobs ih =>
      obtain ⟨d, ds', hd, hrest, rfl⟩ := runWorker_cons hrun
      obtain ⟨rfl, hgood, -, hfresh, -⟩ := workerStep_spec h hd
      refine List.forall_mem_cons.mpr ⟨⟨le_rfl, fun c hc => (hfresh.conn_live hc).1⟩, ?_⟩
      intro e he
      obtain ⟨hle, hlive⟩ := ih hgood hrest e he
      exact ⟨hfresh.conns_le.trans hle, fun c hc => hfresh.live (hlive c hc)⟩

/-- A connection made by an item is not that of any earlier item. -/
theorem runWorker_new (h : ch.Good A cap) (hrun : runWorker A ch jobs = some (ch', ds)) :
    ds.Pairwise fun e d => d.before.sockfd = none → ∀ c, d.conn = some c → e.conn ≠ some c := by
  induction jobs generalizing ch ds with
  | nil =>
      obtain ⟨rfl, rfl⟩ := Prod.mk.inj (Option.some.inj hrun)
      exact .nil
  | cons j jobs ih =>
      obtain ⟨d, ds', hd, hrest, rfl⟩ := runWorker_cons hrun
      obtain ⟨-, hgood, -, hfresh, -⟩ := workerStep_spec h hd
      refine .cons (fun e he hnone c hc hdc => ?_) (ih hgood hrest)
      have hlt := (hfresh.conn_live hdc).2
      have hle := (runWorker_conns hgood hrest e he).1
      have hlive := ((runWorker_sound hgood hrest e he).2.conn_live hc).1
      have hge := hlive.resolve_left (by simp [hnone])
      omega

theorem runWorker_dead (h : ch.Good A cap) (hrun : runWorker A ch jobs = some (ch', ds)) {c : ℕ}
    (hdead : ¬ ch.Live c) : okResults c ds = [] := by
  rw [okResults, List.filterMap_eq_nil_iff]
  intro d hd
  exact Done.okResult_of_conn fun hc => hdead ((runWorker_conns h hrun d hd).2 c hc)

/-- The answers on a connection are packets of its inbound stream, in order
and from the first one on. -/
theorem runWorker_matches (h : ch.Good A cap) (hrun : runWorker A ch jobs = some (ch', ds))
    (c : ℕ) :
    ∃ pks : List Packet, okResults c ds = pks.map .ofPacket ∧ ∀ ys,
      pks <+: ((packetFraming cap).parse (ch.pending c ++ inbound c ds ++ ys)).frames := by
  induction jobs generalizing ch ds with
  | nil =>
      obtain ⟨rfl, rfl⟩ := Prod.mk.inj (Option.some.inj hrun)
      exact ⟨[], rfl, fun _ => List.nil_prefix⟩
  | cons j jobs ih =>
      obtain ⟨d, ds', hd, hrest, rfl⟩ := runWorker_cons hrun
      obtain ⟨rfl, hgood, -, -, hmatch⟩ := workerStep_spec h hd
      obtain ⟨pks, hpks⟩ := hmatch c
      obtain ⟨pks', hres, hpre⟩ := ih hgood hrest
      have hsplit : okResults c (d :: ds') = (pks ++ pks').map .ofPacket := by
        rw [List.map_append, ← hres, ← hpks.results, okResults, okResults, List.filterMap_cons]
        cases d.okResult c <;> rfl
      refine ⟨pks ++ pks', hsplit, fun ys => ?_⟩
      rw [inbound, List.flatMap_cons, ← List.append_assoc, List.append_assoc _ _ ys]
      by_cases hlive : d.after.Live c
      · rw [hpks.rest hlive, ← List.append_assoc]
        exact (List.prefix_append_right_inj pks).mpr (hpre ys)
      · have hnil : pks' = [] := by
          simpa [hres] using runWorker_dead hgood hrest hlive
        rw [hnil, List.append_nil]
        exact hpks.isPrefix _

end Run

/-- The result says what the packet says. -/
structure TcpResult.Reports (r : TcpResult) (pk : Packet) : Prop where
  status : r.status = .ok
  start : r.start = pk.header.start
  command : r.command = pk.header.command
  data : r.data = pk.data
  crcValid : r.crcValid = true ↔ pk.data = [] ∨ pk.header.crc32 = crc32 pk.data

theorem TcpResult.reports_ofPacket (pk : Packet) : (TcpResult.ofPacket pk).Reports pk where
  status := rfl
  start := rfl
  command := rfl
  data := rfl
  crcValid := by simp [TcpResult.ofPacket]

/-- Response matching and freshness. On every connection the answers given
are the first packets of its inbound stream, one for one and whatever arrives
later, with the fields of these packets; every completed item keeps the rules of
`Done.Sound`; and a connection made after a close is used by no earlier item. -/
theorem worker_matches_responses (A : Arch) (buf : Storage A) {jobs : List Job} {ch : Channel}
    {ds : List Done} (hrun : runWorker A (.create buf.bytes) jobs = some (ch, ds)) :
    (∀ c ys, okResults c ds <+: (((packetFraming buf.bytes.length).parse
        (inbound c ds ++ ys)).frames.map .ofPacket)) ∧
      (∀ c ys (i : ℕ) (r : TcpResult), (okResults c ds)[i]? = some r → ∃ pk,
        ((packetFraming buf.bytes.length).parse (inbound c ds ++ ys)).frames[i]? = some pk ∧
          r.Reports pk) ∧
      (∀ d ∈ ds, d.Sound) ∧ (ds.IsChain fun d e => e.before = d.after) ∧
      ds.Pairwise fun e d => d.before.sockfd = none → ∀ c, d.conn = some c → e.conn ≠ some c := by
  have hgood := Channel.Good.create buf
  refine ⟨fun c ys => ?_, fun c ys i r hr => ?_, fun d hd => (runWorker_sound hgood hrun d hd).1,
    runWorker_chain hgood hrun, runWorker_new hgood hrun⟩
  · obtain ⟨pks, hres, hpre⟩ := runWorker_matches hgood hrun c
    rw [hres]
    exact (hpre ys).map _
  · obtain ⟨pks, hres, hpre⟩ := runWorker_matches hgood hrun c
    rw [hres, List.getElem?_map, Option.map_eq_some_iff] at hr
    obtain ⟨pk, hpk, rfl⟩ := hr
    have hi : i < pks.length := (List.getElem?_eq_some_iff.mp hpk).1
    have heq : ((packetFraming buf.bytes.length).parse (inbound c ds ++ ys)).frames[i]? =
        some pks[i] := List.prefix_iff_getElem?.mp (hpre ys) i hi
    rw [List.getElem?_eq_getElem hi, Option.some.injEq] at hpk
    exact ⟨pk, hpk ▸ heq, TcpResult.reports_ofPacket pk⟩

/-- A connect that succeeds at once, a whole packet sent and `bytes` read. -/
def promptEnv (bytes : List UInt8) : ItemEnv where
  addresses := some [⟨true, none, [], false, false⟩]
  send := [⟨false, .ready false, .ok 26⟩]
  recv := [⟨false, 1000, .ready false, .ok bytes⟩]
  closeSession := false

/-- Two coalesced packets answer the first two requests; after a final item
the next request is answered from a new connection. -/
theorem worker_matches_responses_coalesced :
    ∃ ch ds, runWorker .lp64 (.create (List.replicate 60 0))
        [⟨⟨List.replicate 26 0, 1000, .normal, 0⟩, promptEnv (List.replicate 52 0)⟩,
          ⟨⟨List.replicate 26 0, 1000, .normal, 1⟩, promptEnv []⟩,
          ⟨⟨List.replicate 26 0, 0, .final, 2⟩, promptEnv []⟩,
          ⟨⟨List.replicate 26 0, 1000, .normal, 3⟩, promptEnv (List.replicate 26 0)⟩] =
          some (ch, ds) ∧
      (okResults 0 ds).length = 2 ∧ (okResults 1 ds).length = 1 ∧
      okResults 0 ds <+: (((packetFraming 60).parse (inbound 0 ds)).frames.map .ofPacket) := by
  have hbuf : (List.replicate 60 (0 : UInt8)).length < Arch.lp64.sizeBound := by decide
  have heval : (runWorker .lp64 (.create (List.replicate 60 0))
      [⟨⟨List.replicate 26 0, 1000, .normal, 0⟩, promptEnv (List.replicate 52 0)⟩,
        ⟨⟨List.replicate 26 0, 1000, .normal, 1⟩, promptEnv []⟩,
        ⟨⟨List.replicate 26 0, 0, .final, 2⟩, promptEnv []⟩,
        ⟨⟨List.replicate 26 0, 1000, .normal, 3⟩, promptEnv (List.replicate 26 0)⟩]).map
          (fun r => ((okResults 0 r.2).length, (okResults 1 r.2).length)) = some (2, 1) := by
    decide +kernel
  obtain ⟨⟨ch, ds⟩, hrun, hlen⟩ := Option.map_eq_some_iff.mp heval
  obtain ⟨hzero, hone⟩ := Prod.mk.inj hlen
  have h := (worker_matches_responses .lp64 ⟨_, hbuf⟩ hrun).1 0 []
  rw [List.append_nil, List.length_replicate] at h
  exact ⟨ch, ds, hrun, hzero, hone, h⟩

end Savvy.Tcp
