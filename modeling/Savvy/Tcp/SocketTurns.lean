import Savvy.Tcp.Requests
import Savvy.Tcp.Sockets
import Savvy.Tcp.Worker

/-!
The calls of the worker and its turns. Whatever the calls of
`Savvy.Tcp.Sockets` are answered, there are turns for which the loops of
`Savvy.Tcp.Channel` come to the same end, so what is proved of the worker for all
turns holds of the program for all answers. A loop of the program takes a turn
for each pass, and its induction puts the turn in front of those of the rest.
-/

namespace Savvy.Tcp

open Kit Kit.Prog

/-- What the worker has done: the items it has popped, and the request and the
result of each completion callback. -/
structure Diary where
  popped : List QueueItem
  done : List (ℕ × TcpResult)

namespace Diary

def complete (log : Diary) (request : ℕ) (result : TcpResult) : Diary :=
  { log with done := log.done ++ [(request, result)] }

def pop (log : Diary) : Option QueueItem → Diary
  | some item => { log with popped := log.popped ++ [item] }
  | none => log

def next (log : Diary) : (c : SockCall) → SockAnswer c → Diary
  | .complete request result, _ => log.complete request result
  | .pop, item => log.pop item
  | _, _ => log

end Diary

/-- The diary is kept, and it has to be `good` after each callback and before
another item is popped. -/
def logging (good : Diary → Prop) : Contract SockCall SockAnswer Diary where
  permits log
    | .complete request result => good (log.complete request result)
    | .pop => good log
    | _ => True
  answers log c r log' := log' = log.next c r

section

variable {good : Diary → Prop} {log : Diary}

theorem awaitConnect_turns (fd : Int32) (dl : Deadline) (passes : ℕ) :
    (awaitConnect fd dl passes).Meets (logging good) log
      fun w log' => log' = log ∧ ∃ turns, connectLoop turns = some w := by
  induction passes with
  | zero => trivial
  | succ passes ih =>
      -- A pass that goes on is a turn in front of the others.
      have hagain (poll : Poll) (hpoll : ∀ ts, connectLoop (⟨false, 1, poll, false⟩ :: ts) =
          connectLoop ts) : (awaitConnect fd dl passes).Meets (logging good) log
            fun w log' => log' = log ∧ ∃ turns, connectLoop turns = some w := by
        refine ih.mono ?_
        rintro w log' ⟨hlog, ts, hts⟩
        exact ⟨hlog, ⟨false, 1, poll, false⟩ :: ts, by rw [hpoll, hts]⟩
      refine .steady ⟨trivial, fun _ _ h => h⟩ fun stop => ?_
      cases stop with
      | true => exact ⟨rfl, [⟨true, 0, .timeout, false⟩], rfl⟩
      | false =>
          refine .steady ⟨trivial, fun _ _ h => h⟩ fun now => ?_
          split
          · exact ⟨rfl, [⟨false, 0, .timeout, false⟩], rfl⟩
          refine .steady ⟨trivial, fun _ _ h => h⟩ fun poll => ?_
          cases poll with
          | error e =>
              dsimp only
              split
              · next hintr => exact hagain (.error e) fun ts => by simp [connectLoop, hintr]
              · next hintr =>
                  exact ⟨rfl, [⟨false, 1, .error e, false⟩], by simp [connectLoop, hintr]⟩
          | timeout => exact hagain .timeout fun ts => by simp [connectLoop]
          | ready errHup =>
              refine .steady ⟨trivial, fun _ _ h => h⟩ fun soError => ⟨rfl, ?_⟩
              exact ⟨[⟨false, 1, .ready errHup, soError⟩], by cases soError <;> simp [connectLoop]⟩

theorem makeNonblocking_turns (fd : Int32) :
    (makeNonblocking fd).Meets (logging good) log fun _ log' => log' = log := by
  refine .steady ⟨trivial, fun _ _ h => h⟩ fun flags => ?_
  split
  · exact ⟨trivial, fun _ _ h => h⟩
  · rfl

/-- What the addresses come to: a socket if and only if the outcome is good, and
turns of the same outcome, of which there are some if there are addresses. -/
structure Found (outcome : TcpStatus) (as : List ℕ) (found : TcpStatus × Option Int32) : Prop where
  ok_iff : found.1 = .ok ↔ found.2.isSome
  nonneg : ∀ fd, found.2 = some fd → 0 ≤ fd
  turns : ∃ turns, (turns = [] → as = []) ∧ addressLoop outcome turns = some found.1

theorem Found.cons {outcome outcome' : TcpStatus} {a : ℕ} {as : List ℕ}
    {found : TcpStatus × Option Int32} (h : Found outcome' as found) (turn : Address)
    (hturn : ∀ ts, addressLoop outcome (turn :: ts) = addressLoop outcome' ts) :
    Found outcome (a :: as) found := by
  obtain ⟨hok, hnonneg, ts, -, hts⟩ := h
  exact ⟨hok, hnonneg, turn :: ts, by simp, by rw [hturn, hts]⟩

theorem Found.last {outcome status : TcpStatus} {a : ℕ} {as : List ℕ} {sock : Option Int32}
    (turn : Address) (hok : status = .ok ↔ sock.isSome) (hnonneg : ∀ fd, sock = some fd → 0 ≤ fd)
    (hturn : addressLoop outcome [turn] = some status) : Found outcome (a :: as) (status, sock) :=
  ⟨hok, hnonneg, [turn], by simp, hturn⟩

theorem tryAddresses_turns (dl : Deadline) (passes : ℕ) (as : List ℕ) (outcome : TcpStatus)
    (hne : outcome ≠ .ok) :
    (tryAddresses dl passes outcome as).Meets (logging good) log
      fun found log' => log' = log ∧ Found outcome as found := by
  induction as generalizing outcome with
  | nil => exact ⟨rfl, by simp [hne], by simp, [], by simp, rfl⟩
  | cons a as ih =>
      refine .steady ⟨trivial, fun _ _ h => h⟩ fun fd => ?_
      split
      · refine (ih outcome hne).mono ?_
        rintro found log' ⟨rfl, hfound⟩
        exact ⟨rfl, hfound.cons ⟨false, none, [], false, false⟩ fun ts => by simp [addressLoop]⟩
      next hneg =>
      have hfd : 0 ≤ fd := Int32.not_lt.mp hneg
      refine (makeNonblocking_turns fd).bind ?_
      rintro _ log' rfl
      refine .steady ⟨trivial, fun _ _ h => h⟩ fun rc => ?_
      cases rc with
      | none =>
          exact ⟨rfl, .last ⟨true, none, [], false, false⟩ (by simp) (by simp [hfd])
            (by simp [addressLoop])⟩
      | some e =>
          dsimp only
          split
          · next he =>
              refine .steady ⟨trivial, fun _ _ h => h⟩ fun _ => (ih outcome hne).mono ?_
              rintro found log' ⟨rfl, hfound⟩
              exact ⟨rfl, hfound.cons ⟨true, some e, [], false, false⟩
                fun ts => by simp [addressLoop, he]⟩
          next he =>
          rw [ne_eq, Decidable.not_not] at he
          subst he
          refine (awaitConnect_turns fd dl passes).bind ?_
          rintro wait log' ⟨rfl, ts, hts⟩
          cases wait with
          | connected =>
              exact ⟨rfl, .last ⟨true, some .einprogress, ts, false, false⟩ (by simp)
                (by simp [hfd]) (by simp [addressLoop, hts])⟩
          | aborted =>
              refine .steady ⟨trivial, fun _ _ h => h⟩ fun _ => ?_
              exact ⟨rfl, .last ⟨true, some .einprogress, ts, false, false⟩ (by simp) (by simp)
                (by simp [addressLoop, hts])⟩
          | failed =>
              refine .steady ⟨trivial, fun _ _ h => h⟩ fun _ => ?_
              refine .steady ⟨trivial, fun _ _ h => h⟩ fun now => ?_
              refine .steady ⟨trivial, fun _ _ h => h⟩ fun again => ?_
              have hio : (if dl.expired now then TcpStatus.connectTimeout else .io) ≠ .ok := by
                split <;> simp
              split
              · next hexp =>
                  exact ⟨rfl, .last ⟨true, some .einprogress, ts, dl.expired now, true⟩
                    (by simp [hio]) (by simp) (by simp [addressLoop, hts])⟩
              · next hexp =>
                  refine (ih _ hio).mono ?_
                  rintro found log' ⟨rfl, hfound⟩
                  exact ⟨rfl, hfound.cons ⟨true, some .einprogress, ts, dl.expired now, false⟩
                    fun ts' => by simp [addressLoop, hts]⟩

/-- The fields of the worker as the turns see them. -/
structure Mirrors (ch : Channel) (c : Socketed) : Prop where
  sockfd : ch.sockfd = none ↔ c.sockfd < 0
  connected : ch.connected = c.connected
  parser : ch.parser = c.parser

theorem tryConnectSocket_turns {ch : Channel} {c : Socketed} (hc : Mirrors ch c) (passes : ℕ) :
    (tryConnectSocket c passes).Meets (logging good) log fun out log' => log' = log ∧
      ∃ addresses ch', tryConnect ch addresses = some (out.1, ch') ∧ Mirrors ch' out.2 := by
  refine .steady ⟨trivial, fun _ _ h => h⟩ fun res => ?_
  rcases res with _ | ⟨_ | ⟨a, as⟩⟩
  · exact ⟨rfl, none, ch, rfl, hc⟩
  · exact ⟨rfl, some [], ch, rfl, hc⟩
  refine .steady ⟨trivial, fun _ _ h => h⟩ fun now => ?_
  refine (tryAddresses_turns _ passes (a :: as) .io (by simp)).bind ?_
  rintro ⟨status, sock⟩ log' ⟨rfl, hok, hnonneg, ts, hts, hloop⟩
  cases ts with
  | nil => cases hts rfl
  | cons t ts =>
      cases sock with
      | none =>
          have hne : status ≠ .ok := by simpa using hok
          exact ⟨rfl, some (t :: ts), ch, by simp [tryConnect, hloop, hne], hc⟩
      | some fd =>
          obtain rfl : status = .ok := by simpa using hok
          refine ⟨rfl, some (t :: ts), ch.opened, by simp [tryConnect, hloop], ?_⟩
          refine ⟨?_, rfl, by simp [Channel.opened, hc.parser]⟩
          simp [Channel.opened, hnonneg fd rfl]

theorem sendAllFrom_turns (fd : Int32) (buf : List UInt8) (passes sent : ℕ) :
    (sendAllFrom fd buf passes sent).Meets (logging good) log
      fun st log' => log' = log ∧ ∃ ts, sendLoop buf.length sent ts = some st := by
  induction passes generalizing sent with
  | zero =>
      unfold sendAllFrom
      split
      · next hle => exact ⟨rfl, [], by simp [sendLoop, hle]⟩
      · trivial
  | succ passes ih =>
      unfold sendAllFrom
      split
      · next hle => exact ⟨rfl, [], by simp [sendLoop, hle]⟩
      next hle =>
      have hagain {sent' : ℕ} (turn : SendTurn) (hturn : ∀ ts, sendLoop buf.length sent
          (turn :: ts) = sendLoop buf.length sent' ts) :
          (sendAllFrom fd buf passes sent').Meets (logging good) log
            fun st log' => log' = log ∧ ∃ ts, sendLoop buf.length sent ts = some st := by
        refine (ih sent').mono ?_
        rintro st log' ⟨rfl, ts, hts⟩
        exact ⟨rfl, turn :: ts, by rw [hturn, hts]⟩
      refine .steady ⟨trivial, fun _ _ h => h⟩ fun stop => ?_
      cases stop with
      | true => exact ⟨rfl, [⟨true, .timeout, .ok 0⟩], by simp [sendLoop, hle]⟩
      | false =>
          refine .steady ⟨trivial, fun _ _ h => h⟩ fun poll => ?_
          cases poll with
          | error e =>
              dsimp only
              split
              · next hintr =>
                  exact hagain ⟨false, .error e, .ok 0⟩ fun ts => by simp [sendLoop, hle, hintr]
              · next hintr =>
                  exact ⟨rfl, [⟨false, .error e, .ok 0⟩], by simp [sendLoop, hle, hintr]⟩
          | timeout => exact hagain ⟨false, .timeout, .ok 0⟩ fun ts => by simp [sendLoop, hle]
          | ready errHup =>
              cases errHup with
              | true => exact ⟨rfl, [⟨false, .ready true, .ok 0⟩], by simp [sendLoop, hle]⟩
              | false =>
                  refine .steady ⟨trivial, fun _ _ h => h⟩ fun n => ?_
                  cases n with
                  | error e =>
                      dsimp only
                      split
                      · next hintr =>
                          exact hagain ⟨false, .ready false, .error e⟩
                            fun ts => by simp [sendLoop, hle, hintr]
                      next hintr =>
                      split
                      · next hpipe =>
                          exact ⟨rfl, [⟨false, .ready false, .error e⟩],
                            by simp [sendLoop, hle, hintr, hpipe]⟩
                      · next hpipe =>
                          exact ⟨rfl, [⟨false, .ready false, .error e⟩],
                            by simp [sendLoop, hle, hintr, hpipe]⟩
                  | ok n =>
                      exact hagain ⟨false, .ready false, .ok n⟩ fun ts => by simp [sendLoop, hle]

variable {A : Arch}

/-- A return of the program and one of the turns. -/
def Response.Same (r : Response) (w : Waited) : Prop :=
  r.status = w.status ∧ r.packet = w.packet ∧ r.parser = w.parser

theorem awaitResponse_turns (fd : Int32) (dl : Deadline) (passes : ℕ) (p : StreamParser)
    (received : List UInt8) :
    (awaitResponse A fd dl passes p).Meets (logging good) log fun w log' => log' = log ∧
      ∃ ts r, waitLoop A p received ts = some r ∧ r.Same w := by
  induction passes generalizing p received with
  | zero => trivial
  | succ passes ih =>
      have hagain {q : StreamParser} (received' : List UInt8) (turn : RecvTurn)
          (hturn : ∀ ts, waitLoop A p received (turn :: ts) = waitLoop A q received' ts) :
          (awaitResponse A fd dl passes q).Meets (logging good) log fun w log' => log' = log ∧
            ∃ ts r, waitLoop A p received ts = some r ∧ r.Same w := by
        refine (ih q received').mono ?_
        rintro w log' ⟨rfl, ts, r, hts, hsame⟩
        exact ⟨rfl, turn :: ts, r, by rw [hturn, hts], hsame⟩
      refine .steady ⟨trivial, fun _ _ h => h⟩ fun stop => ?_
      cases stop with
      | true => exact ⟨rfl, [⟨true, 0, .timeout, .ok []⟩], _, rfl, rfl, rfl, rfl⟩
      | false =>
          refine .steady ⟨trivial, fun _ _ h => h⟩ fun now => ?_
          split
          · exact ⟨rfl, [⟨false, 0, .timeout, .ok []⟩], _, rfl, rfl, rfl, rfl⟩
          refine .steady ⟨trivial, fun _ _ h => h⟩ fun poll => ?_
          cases poll with
          | error e =>
              dsimp only
              split
              · next hintr =>
                  exact hagain received ⟨false, 1, .error e, .ok []⟩
                    fun ts => by simp [waitLoop, hintr]
              · next hintr =>
                  refine ⟨rfl, [⟨false, 1, .error e, .ok []⟩], ⟨.io, none, p, received, []⟩, ?_,
                    rfl, rfl, rfl⟩
                  simp [waitLoop, hintr]
          | timeout =>
              exact hagain received ⟨false, 1, .timeout, .ok []⟩ fun ts => by simp [waitLoop]
          | ready errHup =>
              refine .steady ⟨trivial, fun _ _ h => h⟩ fun n => ?_
              cases n with
              | error e =>
                  dsimp only
                  split
                  · next hintr =>
                      exact hagain received ⟨false, 1, .ready errHup, .error e⟩
                        fun ts => by simp [waitLoop, hintr]
                  · next hintr =>
                      refine ⟨rfl, [⟨false, 1, .ready errHup, .error e⟩],
                        ⟨.io, none, p, received, []⟩, ?_, rfl, rfl, rfl⟩
                      simp [waitLoop, hintr]
              | ok bytes =>
                  dsimp only
                  split
                  · next hnil =>
                      refine ⟨rfl, [⟨false, 1, .ready errHup, .ok bytes⟩],
                        ⟨.disconnected, none, p, received, []⟩, ?_, rfl, rfl, rfl⟩
                      simp [waitLoop, hnil]
                  next hnil =>
                  rcases hpush : pushAndExtract A p bytes with ⟨_ | ⟨status, packet⟩, q⟩
                  · exact hagain (received ++ bytes) ⟨false, 1, .ready errHup, .ok bytes⟩
                      fun ts => by simp [waitLoop, hnil, hpush]
                  · refine ⟨rfl, [⟨false, 1, .ready errHup, .ok bytes⟩],
                      ⟨status, packet, q, received ++ bytes, []⟩, ?_, rfl, rfl, rfl⟩
                    simp [waitLoop, hnil, hpush]

theorem waitForResponseOn_turns (fd : Int32) (timeoutMs : UInt32) (passes : ℕ)
    (p : StreamParser) :
    (waitForResponseOn A fd timeoutMs passes p).Meets (logging good) log fun w log' =>
      log' = log ∧ ∃ ts r, waitForResponse A p ts = some r ∧ r.Same w := by
  unfold waitForResponseOn
  rcases hextract : extractResponse A p with ⟨_ | ⟨status, packet⟩, q⟩
  · refine .steady ⟨trivial, fun _ _ h => h⟩ fun now => (awaitResponse_turns fd _ passes q []).mono ?_
    rintro w log' ⟨rfl, ts, r, hts, hsame⟩
    exact ⟨rfl, ts, r, by simp [waitForResponse, hextract, hts], hsame⟩
  · exact ⟨rfl, [], ⟨status, packet, q, [], []⟩, by simp [waitForResponse, hextract], rfl, rfl, rfl⟩

/-! ### Items -/

theorem closeSession_turns {ch : Channel} {c : Socketed} (hc : Mirrors ch c) :
    (closeSession c).Meets (logging good) log
      fun c' log' => log' = log ∧ Mirrors ch.closeSessionInternal c' := by
  unfold closeSession
  split
  · refine .steady ⟨trivial, fun _ _ h => h⟩ fun _ => ⟨rfl, ?_⟩
    exact ⟨by simp [Channel.closeSessionInternal], rfl, hc.parser⟩
  · next hneg =>
      refine ⟨rfl, ?_, rfl, hc.parser⟩
      simpa [Channel.closeSessionInternal] using Int32.not_le.mp hneg

/-- What the turns say about an item whose callback does or does not close the
session. -/
def Mirrored (A : Arch) (ch : Channel) (item : QueueItem) (log log' : Diary) (c : Socketed) : Prop :=
  ∃ env p, processItem A ch item env = some p ∧ log' = log.complete item.request p.result ∧
    Mirrors (onComplete p env).channel c

theorem completed_turns {ch : Channel} {c : Socketed} {item : QueueItem} (env : ItemEnv)
    (p : Processed) (hc : Mirrors p.channel c)
    (hp : ∀ close, processItem A ch item { env with closeSession := close } = some p)
    (hgood : ∀ env p, processItem A ch item env = some p →
      good (log.complete item.request p.result)) :
    (completed c item p.result).Meets (logging good) log
      fun c' log' => Mirrored A ch item log log' c' := by
  refine .ask (hgood _ _ (hp true)) ?_
  rintro close log' rfl
  cases close with
  | true =>
      refine (closeSession_turns hc).mono ?_
      rintro c' log' ⟨rfl, hc'⟩
      exact ⟨_, p, hp true, rfl, hc'⟩
  | false => exact ⟨_, p, hp false, rfl, hc⟩

/-- The turns after a connect, if there was one. -/
structure Reaches (A : Arch) (ch : Channel) (item : QueueItem) (base : Channel)
    (addresses : Option (List Address)) (tried : Bool) : Prop where
  exchange : ∀ env, env.addresses = addresses →
    processItem A ch item env = exchange A base item env tried

theorem exchangeOn_turns {ch base : Channel} {c : Socketed} {item : QueueItem}
    (addresses : Option (List Address)) (tried : Bool) (hc : Mirrors base c)
    (hreach : Reaches A ch item base addresses tried)
    (hgood : ∀ env p, processItem A ch item env = some p →
      good (log.complete item.request p.result)) (passes : ℕ) :
    (exchangeOn A c item passes).Meets (logging good) log
      fun c' log' => Mirrored A ch item log log' c' := by
  refine (sendAllFrom_turns c.sockfd item.packet passes 0).bind ?_
  rintro ss log' ⟨rfl, ts, hts⟩
  split
  · next hne =>
      refine (closeSession_turns hc).bind ?_
      rintro c' log' ⟨rfl, hc'⟩
      refine completed_turns ⟨addresses, ts, [], false⟩
        ⟨base.closeSessionInternal, .failed ss, base, tried, [], []⟩ hc' ?_ hgood
      intro close
      rw [hreach.exchange _ rfl]
      simp only [exchange, sendAll, hts]
  next hok =>
  rw [ne_eq, Decidable.not_not] at hok
  subst hok
  cases hkind : item.kind with
  | final =>
      refine (closeSession_turns hc).bind ?_
      rintro c' log' ⟨rfl, hc'⟩
      refine completed_turns ⟨addresses, ts, [], false⟩
        ⟨base.closeSessionInternal, .failed .sentNoWait, base, tried, [], []⟩ hc' ?_ hgood
      intro close
      rw [hreach.exchange _ rfl]
      simp only [exchange, sendAll, hts, hkind]
  | relay =>
      refine completed_turns ⟨addresses, ts, [], false⟩
        ⟨base, .failed .sentNoWait, base, tried, [], []⟩ hc ?_ hgood
      intro close
      rw [hreach.exchange _ rfl]
      simp only [exchange, sendAll, hts, hkind]
  | normal =>
      dsimp only
      refine (waitForResponseOn_turns c.sockfd _ passes c.parser).bind ?_
      rintro ⟨status, packet, parser⟩ log' ⟨rfl, rs, r, hr, hstatus, hpacket, hparser⟩
      rw [← hc.parser] at hr
      simp only at hstatus hpacket hparser
      have hc' : Mirrors { base with parser := r.parser } { c with parser := parser } :=
        ⟨hc.sockfd, hc.connected, hparser⟩
      dsimp only
      split
      · next pk =>
          refine completed_turns ⟨addresses, ts, rs, false⟩
            ⟨_, .ofPacket pk, base, tried, r.received, r.rest⟩ hc' ?_ hgood
          intro close
          rw [hreach.exchange _ rfl]
          simp only [exchange, sendAll, hts, hkind, hr, hstatus, hpacket]
      · next hnot =>
          refine (closeSession_turns hc').bind ?_
          rintro c' log' ⟨rfl, hclosed⟩
          refine completed_turns ⟨addresses, ts, rs, false⟩
            ⟨_, .failed status, base, tried, r.received, r.rest⟩ hclosed ?_ hgood
          intro close
          rw [hreach.exchange _ rfl]
          simp only [exchange, sendAll, hts, hkind, hr, hstatus, hpacket]
          rfl

theorem processItemOn_turns {ch : Channel} {c : Socketed} {item : QueueItem} (hc : Mirrors ch c)
    (hgood : ∀ env p, processItem A ch item env = some p →
      good (log.complete item.request p.result)) (passes : ℕ) :
    (processItemOn A c item passes).Meets (logging good) log
      fun c' log' => Mirrored A ch item log log' c' := by
  unfold processItemOn
  split
  · next hrelay =>
      refine completed_turns ⟨none, [], [], false⟩
        ⟨ch, .failed .notConnected, none, false, [], []⟩ hc ?_ hgood
      intro close
      rw [← hc.sockfd] at hrelay
      simp only [processItem, if_pos hrelay]
  next hrelay =>
  rw [← hc.sockfd] at hrelay
  split
  · next hneg =>
      rw [← hc.sockfd] at hneg
      refine (tryConnectSocket_turns hc passes).bind ?_
      rintro ⟨status, c'⟩ log' ⟨rfl, addresses, ch', htry, hc'⟩
      split
      · next hne =>
          refine completed_turns ⟨addresses, [], [], false⟩
            ⟨ch', .failed status, none, true, [], []⟩ hc' ?_ hgood
          intro close
          simp only [processItem, if_neg hrelay, if_pos hneg, htry]
      · next hok =>
          rw [ne_eq, Decidable.not_not] at hok
          subst hok
          refine exchangeOn_turns addresses true hc' ⟨?_⟩ hgood passes
          rintro env rfl
          simp only [processItem, if_neg hrelay, if_pos hneg, htry]
  · next hneg =>
      rw [← hc.sockfd] at hneg
      refine exchangeOn_turns none false hc ⟨?_⟩ hgood passes
      intro env _
      simp only [processItem, if_neg hrelay, if_neg hneg]

/-! ### The worker -/

theorem runWorker_concat {ch ch' : Channel} {jobs : List Job} {ds : List Done} {j : Job} {d : Done}
    (h : runWorker A ch jobs = some (ch', ds)) (hd : workerStep A ch' j = some d) :
    runWorker A ch (jobs ++ [j]) = some (d.after, ds ++ [d]) := by
  induction jobs generalizing ch ds with
  | nil =>
      cases h
      simp [runWorker, hd]
  | cons j' jobs ih =>
      obtain ⟨d', hd', hrest⟩ := Option.bind_eq_some_iff.mp h
      obtain ⟨⟨ch'', ds'⟩, hrun, heq⟩ := Option.map_eq_some_iff.mp hrest
      cases heq
      simp [runWorker, hd', ih hrun]

def Done.entry (d : Done) : ℕ × TcpResult := (d.item.request, d.processed.result)

/-- The callbacks are those of a run of the turns over the items popped, of which
the last ones, `rest`, have had none. -/
def TurnsOf (A : Arch) (ch : Channel) (rest : List QueueItem) (log : Diary) : Prop :=
  ∃ jobs ch' ds, runWorker A ch jobs = some (ch', ds) ∧ log.done = ds.map Done.entry ∧
    log.popped = jobs.map Job.item ++ rest

theorem TurnsOf.item {ch ch' : Channel} {jobs : List Job} {ds : List Done} {item : QueueItem}
    {env : ItemEnv} {p : Processed} (hrun : runWorker A ch jobs = some (ch', ds))
    (hdone : log.done = ds.map Done.entry) (hpopped : log.popped = jobs.map Job.item)
    (hp : processItem A ch' item env = some p) :
    ∃ jobs' ds', runWorker A ch jobs' = some ((onComplete p env).channel, ds') ∧
      ((log.pop (some item)).complete item.request p.result).done = ds'.map Done.entry ∧
      ((log.pop (some item)).complete item.request p.result).popped = jobs'.map Job.item := by
  have hres : (onComplete p env).result = p.result := by
    unfold onComplete
    split <;> rfl
  have hstep : workerStep A ch' ⟨item, env⟩ = some ⟨item, ch', onComplete p env⟩ := by
    simp [workerStep, hp]
  refine ⟨jobs ++ [⟨item, env⟩], ds ++ [⟨item, ch', onComplete p env⟩],
    runWorker_concat hrun hstep, ?_, ?_⟩
  · simp [Diary.complete, Diary.pop, hdone, Done.entry, hres]
  · simp [Diary.complete, Diary.pop, hpopped]

/-- All items popped but at most the last have their callback. -/
def Current (A : Arch) (ch : Channel) (log : Diary) : Prop :=
  ∃ rest, rest.length ≤ 1 ∧ TurnsOf A ch rest log

/-- Behind the callback of the last item one more may be popped. -/
theorem TurnsOf.pop {ch : Channel} (h : TurnsOf A ch [] log) (item : Option QueueItem) :
    Current A ch (log.pop item) := by
  obtain ⟨jobs, ch', ds, hrun, hdone, hpopped⟩ := h
  cases item with
  | none => exact ⟨[], Nat.zero_le 1, jobs, ch', ds, hrun, hdone, hpopped⟩
  | some item =>
      refine ⟨[item], le_rfl, jobs, ch', ds, hrun, hdone, ?_⟩
      simp [Diary.pop, hpopped]

theorem Current.next {ch : Channel} (h : Current A ch log) (c : SockCall) (r : SockAnswer c)
    (hc : (logging (TurnsOf A ch [])).permits log c) : Current A ch (log.next c r) := by
  cases c with
  | complete request result => exact ⟨[], Nat.zero_le 1, hc⟩
  | pop => exact TurnsOf.pop hc r
  | loadStop => exact h
  | now => exact h
  | getaddrinfo => exact h
  | socket address => exact h
  | getFlags fd => exact h
  | setFlags fd => exact h
  | connect fd => exact h
  | poll fd timeout => exact h
  | soError fd => exact h
  | send fd bytes => exact h
  | recv fd => exact h
  | close fd => exact h

theorem workerMain_turns {ch ch' : Channel} {c : Socketed} {jobs : List Job} {ds : List Done}
    (hc : Mirrors ch' c) (hrun : runWorker A ch jobs = some (ch', ds))
    (hdone : log.done = ds.map Done.entry) (hpopped : log.popped = jobs.map Job.item)
    (passes items : ℕ) :
    (workerMain A passes items c).Meets (logging (TurnsOf A ch [])) log
      fun c' log' => c'.sockfd < 0 ∧ TurnsOf A ch [] log' := by
  induction items generalizing c ch' jobs ds log with
  | zero => trivial
  | succ items ih =>
      have hsettled : TurnsOf A ch [] log := ⟨jobs, ch', ds, hrun, hdone, by simp [hpopped]⟩
      refine .ask hsettled ?_
      rintro (_ | item) log' rfl
      · dsimp only
        split
        · refine .steady ⟨trivial, fun _ _ h => h⟩ fun _ => ?_
          exact ⟨by simp, hsettled⟩
        · next hneg => exact ⟨Int32.not_le.mp hneg, hsettled⟩
      · refine (processItemOn_turns hc ?_ passes).bind ?_
        · intro env p hp
          obtain ⟨jobs', ds', hrun', hdone', hpopped'⟩ := TurnsOf.item hrun hdone hpopped hp
          exact ⟨jobs', _, ds', hrun', hdone', hpopped'.trans (List.append_nil _).symm⟩
        · rintro c' log' ⟨env, p, hp, rfl, hc'⟩
          obtain ⟨jobs', ds', hrun', hdone', hpopped'⟩ := TurnsOf.item hrun hdone hpopped hp
          exact ih hc' hrun' hdone' hpopped'

end

def diary (tr : List (Σ c, SockAnswer c)) : Diary := stateAfter Diary.next ⟨[], []⟩ tr

/-- Whatever the calls of `process_item` are answered, the channel with its other
threads has a step `process` that does the same: it completes the request that
the callback was made for, and leaves the worker's fields as the calls left them. -/
theorem process_of_calls {ι : Type*} [DecidableEq ι] {cfg : ChannelConfig} {s : Requests ι}
    {item : QueueItem} {c c' : Socketed} (hw : s.worker = .processing item)
    (hc : Mirrors s.channel c) {passes : ℕ} {tr : List (Σ c, SockAnswer c)}
    (h : Steps (processItemOn cfg.arch c item passes) tr (.ret c')) :
    ∃ env s', s.step cfg (.process env) = some s' ∧ Mirrors s'.channel c' ∧
      s'.completed = s.completed ++ (diary tr).done.map Prod.fst := by
  have hmeets : (processItemOn cfg.arch c item passes).Meets (logging fun _ => True) ⟨[], []⟩
      fun c' log' => Mirrored cfg.arch s.channel item ⟨[], []⟩ log' c' :=
    processItemOn_turns hc (fun _ _ _ => trivial) passes
  obtain ⟨⟨env, p, hp, hlog, hc'⟩, -⟩ := hmeets.steps (I := fun _ => True) h (fun _ _ _ => rfl)
    (fun _ _ _ _ _ => trivial) trivial
  have hlog' : diary tr = ⟨[], [(item.request, p.result)]⟩ := hlog
  have hstep : ∃ s', s.step cfg (.process env) = some s' ∧
      s'.channel = (onComplete p env).channel ∧ s'.completed = s.completed ++ [item.request] := by
    simp [Requests.step, Requests.workerStep, hw, hp]
  obtain ⟨s', hs', hchannel, hcompleted⟩ := hstep
  exact ⟨env, s', hs', hchannel ▸ hc', by rw [hcompleted, hlog']; rfl⟩

/-- The program of the worker refines its turns. Whatever the kernel, the clock and
the callbacks answer and however far the program has come, the callbacks it has
made, with their results, are those of a run of the turns over the items it has
popped, in the order it popped them, and only the last of these may still be
without its callback. When the program returns, each item popped has had its
callback and the socket is closed. -/
theorem workerMain_refines (A : Arch) (buf : List UInt8) (passes items : ℕ)
    (tr : List (Σ c, SockAnswer c)) (q : Worker Socketed)
    (h : Steps (workerMain A passes items ⟨-1, false, .init buf⟩) tr q) :
    ∃ jobs ch ds rest, runWorker A (Channel.create buf) jobs = some (ch, ds) ∧
      (diary tr).done = ds.map (fun d => (d.item.request, d.processed.result)) ∧
      (diary tr).popped = jobs.map Job.item ++ rest ∧ rest.length ≤ 1 ∧
      ∀ c, q = .ret c → rest = [] ∧ c.sockfd < 0 := by
  have hmirror : Mirrors (Channel.create buf) ⟨-1, false, .init buf⟩ :=
    ⟨by simp [Channel.create], rfl, rfl⟩
  have hrun : runWorker A (Channel.create buf) [] = some (Channel.create buf, []) := rfl
  have hmeets : (workerMain A passes items ⟨-1, false, .init buf⟩).Meets
      (logging (TurnsOf A (Channel.create buf) [])) ⟨[], []⟩
      fun c log => c.sockfd < 0 ∧ TurnsOf A (Channel.create buf) [] log :=
    workerMain_turns hmirror hrun rfl rfl passes items
  obtain ⟨hq, hcurrent⟩ := hmeets.steps (I := Current A (Channel.create buf)) h
    (fun _ _ _ => rfl) (fun _ c r hI hc => Current.next hI c r hc)
    ⟨[], Nat.zero_le 1, [], _, [], hrun, rfl, rfl⟩
  cases q with
  | ret c =>
      obtain ⟨hclosed, jobs, ch, ds, hjobs, hdone, hpopped⟩ := hq
      refine ⟨jobs, ch, ds, [], hjobs, hdone, hpopped, Nat.zero_le 1, ?_⟩
      rintro c' hc'
      cases hc'
      exact ⟨rfl, hclosed⟩
  | call c k =>
      obtain ⟨rest, hrest, jobs, ch, ds, hjobs, hdone, hpopped⟩ := hcurrent
      exact ⟨jobs, ch, ds, rest, hjobs, hdone, hpopped, hrest, by simp⟩
  | unfinished =>
      obtain ⟨rest, hrest, jobs, ch, ds, hjobs, hdone, hpopped⟩ := hcurrent
      exact ⟨jobs, ch, ds, rest, hjobs, hdone, hpopped, hrest, by simp⟩

/-- A request for which the worker connects, sends its byte and reads a packet
without a body; then the queue is closed. -/
def answered : List (Σ c, SockAnswer c) :=
  [⟨.pop, some ⟨[1], 1000, .normal, 7⟩⟩, ⟨.getaddrinfo, some [0]⟩, ⟨.now, 0⟩, ⟨.socket 0, 3⟩,
    ⟨.getFlags 3, 0⟩, ⟨.setFlags 3, ()⟩, ⟨.connect 3, none⟩, ⟨.loadStop, false⟩,
    ⟨.poll 3 100, .ready false⟩, ⟨.send 3 [1], .ok 1⟩, ⟨.now, 0⟩, ⟨.loadStop, false⟩, ⟨.now, 0⟩,
    ⟨.poll 3 100, .ready false⟩, ⟨.recv 3, .ok (List.replicate 26 0)⟩,
    ⟨.complete 7 ⟨.ok, 0, 0, true, []⟩, false⟩, ⟨.pop, none⟩, ⟨.close 3, ()⟩]

theorem workerMain_refines_answered :
    (diary answered).popped = [⟨[1], 1000, .normal, 7⟩] ∧
      (diary answered).done = [(7, ⟨.ok, 0, 0, true, []⟩)] ∧
      ∃ jobs ch ds, runWorker Arch.lp64 (Channel.create (List.replicate 26 0)) jobs =
          some (ch, ds) ∧
        (diary answered).done = ds.map (fun d => (d.item.request, d.processed.result)) ∧
        (diary answered).popped = jobs.map Job.item := by
  obtain ⟨c, hsteps⟩ : ∃ c, Steps (workerMain Arch.lp64 2 2 ⟨-1, false, .init (List.replicate 26 0)⟩)
      answered (.ret c) :=
    ⟨_, .call (.call (.call (.call (.call (.call (.call (.call (.call (.call (.call (.call (.call
      (.call (.call (.call (.call (.call (.nil _))))))))))))))))))⟩
  obtain ⟨jobs, ch, ds, rest, hrun, hdone, hpopped, -, hret⟩ :=
    workerMain_refines Arch.lp64 (List.replicate 26 0) 2 2 _ _ hsteps
  obtain ⟨rfl, -⟩ := hret c rfl
  exact ⟨rfl, rfl, jobs, ch, ds, hrun, hdone, by rw [hpopped, List.append_nil]⟩

end Savvy.Tcp
