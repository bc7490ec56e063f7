import Savvy.Stream.Session
import Savvy.Tcp.Completion

/-!
The sends of a stream session together with its channel
(`src/features/stream/session.c` on `src/platform/linux/tcp_8141/tcp_channel.c`).
A send allocates a `pending_send_t` and passes it to the channel as the context
of the completion callback. The records are numbered in the order of their
allocations; `ctx` is the record that a request was submitted with.

The channel runs as in `Tcp.Requests`, between and inside the calls of the
session. What the callbacks tell `on_sent` and the result policy is the subject
of `Stream.Completions`; here only the record counts.
-/

namespace Savvy.Stream

open Kit Tcp

inductive SendCall (A : Arch)
  | pirin
  | data (payload : Span A) (mic : Int16) (m : SendMemory)
  | pirout
  | relay (payload : Span A)

def responseTimeoutMs : ℕ := 3000

/-- How the packet of a call is submitted: `sensor_tcp_channel_submit`,
`sensor_tcp_channel_submit_final` or `sensor_tcp_channel_try_relay`. -/
def SendCall.args {A : Arch} (call : SendCall A) (packet : List UInt8) : SubmitArgs :=
  match call with
  | .pirin | .data _ _ _ => ⟨.normal, some packet, responseTimeoutMs, true⟩
  | .pirout => ⟨.final, some packet, 0, true⟩
  | .relay _ => ⟨.relay, some packet, 0, true⟩

/-- A relay has no record: its callback does nothing. -/
def SendCall.allocates {A : Arch} : SendCall A → Bool
  | .relay _ => false
  | _ => true

/-- A call up to the allocation of its record. -/
def Session.encodeCall {A : Arch} (B : Bz2) (s : Session A) :
    SendCall A → Session A × Except Status (List UInt8)
  | .pirin => s.sendPirin true
  | .data payload mic m => s.sendData B payload mic { m with pending := true }
  | .pirout => s.sendPirout true
  | .relay payload => s.relayRknnResult payload

inductive SendPc (A : Arch)
  | idle
  | entered (call : SendCall A) (onSent : Bool)
  | allocating (args : SubmitArgs) (onSent : Bool)
  | submitting (args : SubmitArgs) (record : Option ℕ)
  | submitted (record : Option ℕ)
  | failing (record : ℕ) (status : Status)
  | returning (status : Status)

/-- The end of a send: a record that was not accepted is freed. -/
def SendPc.behind {A : Arch} (record : Option ℕ) (status : Status) : SendPc A :=
  match record with
  | none => .returning status
  | some p => if status = .ok then .returning status else .failing p status

/-- The life of a session: its channel is started once, and a session that was
never started may be destroyed as it is. -/
inductive Phase
  | created
  | started
  | gone
  deriving DecidableEq

/-- A session, its channel and its threads, with the records so far (whether each
has an `on_sent`), those released, and those whose `on_sent` was invoked, in this
order each. -/
structure Sends (cfg : ChannelConfig) (ι : Type*) where
  phase : Phase
  session : Session cfg.arch
  requests : Requests ι
  send : ι → SendPc cfg.arch
  records : List Bool
  ctx : ℕ → Option ℕ
  released : List ℕ
  sent : List ℕ

/-- The steps: those of the sending thread `i`, those of the owner of the session,
and those inside the channel. -/
inductive SendAct (A : Arch) (ι : Type*)
  | send (i : ι) (call : SendCall A) (onSent : Bool)
  | encode (i : ι)
  | malloc (i : ι) (ok : Bool)
  | submit (i : ι)
  | ret (i : ι)
  | release (i : ι)
  | done (i : ι)
  | start
  | destroyUnstarted
  | channel (a : Act ι)

namespace Sends

variable {cfg : ChannelConfig} {ι : Type*}

def created (session : Session cfg.arch) : Sends cfg ι where
  phase := .created
  session := session
  requests := .started cfg
  send _ := .idle
  records := []
  ctx _ := none
  released := []
  sent := []

def gone (s : Sends cfg ι) : Bool := s.phase == .gone || s.requests.stop == .destroyed

/-- What the channel answers before it is started: its own checks, with a
lifecycle that is not running. -/
def unstarted (s : Sends cfg ι) (args : SubmitArgs) : Status :=
  let idle := { s.requests with lifecycle := .stopped }
  match Requests.enterStep s.requests.channel.connected 0 args with
  | .returning _ status => status
  | _ =>
      match idle.checkStep cfg 0 args with
      | .returning _ status => status
      | _ => .notStarted

variable [DecidableEq ι]

def goto (s : Sends cfg ι) (i : ι) (pc : SendPc cfg.arch) : Sends cfg ι :=
  { s with send := Function.update s.send i pc }

/-- The completion callbacks, on the context of request `r`. -/
def onComplete (s : Sends cfg ι) (r : ℕ) : Sends cfg ι :=
  match s.ctx r with
  | none => s
  | some p =>
      { s with
        sent := if s.records[p]? = some true then s.sent ++ [p] else s.sent
        released := s.released ++ [p] }

def sendStep (B : Bz2) (s : Sends cfg ι) : SendAct cfg.arch ι → Option (Sends cfg ι)
  | .send i call onSent =>
      match s.send i with
      | .idle => some (s.goto i (.entered call onSent))
      | _ => none
  | .encode i =>
      match s.send i with
      | .entered call onSent =>
          match s.session.encodeCall B call with
          | (session, .error status) => some ({ s with session }.goto i (.returning status))
          | (session, .ok packet) =>
              some ({ s with session }.goto i
                (if call.allocates then .allocating (call.args packet) onSent
                else .submitting (call.args packet) none))
      | _ => none
  | .malloc i ok =>
      match s.send i with
      | .allocating args onSent =>
          if ok then
            some ({ s with records := s.records ++ [onSent] }.goto i
              (.submitting args (some s.records.length)))
          else some (s.goto i (.returning .outOfMemory))
      | _ => none
  | .submit i =>
      match s.send i with
      | .submitting args record =>
          match s.phase with
          | .created => some (s.goto i (.behind record (s.unstarted args)))
          | .started =>
              (s.requests.step cfg (.call i args)).map fun requests =>
                { s with
                  requests
                  ctx := Function.update s.ctx s.requests.nextRequest record }.goto i
                  (.submitted record)
          | .gone => none
      | _ => none
  | .ret i =>
      match s.send i, s.requests.submit i with
      | .submitted record, .returning _ status =>
          (s.requests.step cfg (.ret i)).map fun requests =>
            { s with requests }.goto i (.behind record status)
      | _, _ => none
  | .release i =>
      match s.send i with
      | .failing p status =>
          some ({ s with released := s.released ++ [p] }.goto i (.returning status))
      | _ => none
  | .done i =>
      match s.send i with
      | .returning _ => some (s.goto i .idle)
      | _ => none
  | _ => none

/-- A step inside the channel. The worker calls back as the last thing that it
does with a request. -/
def channelStep (s : Sends cfg ι) (a : Act ι) : Option (Sends cfg ι) :=
  match a with
  | .call _ _ | .ret _ => none
  | .process _ =>
      match s.requests.worker with
      | .processing item =>
          (s.requests.step cfg a).map fun requests =>
            { s with requests }.onComplete item.request
      | _ => none
  | _ => (s.requests.step cfg a).map fun requests => { s with requests }

/-- All together. A session must not be used once it is destroyed. -/
def step (B : Bz2) (s : Sends cfg ι) (a : SendAct cfg.arch ι) : Option (Sends cfg ι) :=
  match a with
  | .start => if s.phase = .created then some { s with phase := .started } else none
  | .destroyUnstarted => if s.phase = .created then some { s with phase := .gone } else none
  | .channel a => if s.phase = .started then s.channelStep a else none
  | a => if s.gone then none else s.sendStep B a

end Sends

def sendSystem (ι : Type*) [DecidableEq ι] (B : Bz2) {cfg : ChannelConfig}
    (session : Session cfg.arch) : System (Sends cfg ι) (SendAct cfg.arch ι) where
  init := .created session
  step := Sends.step B

end Savvy.Stream
