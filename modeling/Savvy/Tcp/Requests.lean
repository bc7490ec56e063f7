import Mathlib.Logic.Function.Basic
import Savvy.Core.Lifecycle
import Savvy.Core.Queue
import Savvy.Kit.System
import Savvy.Tcp.Channel

/-!
The TCP 8141 channel with everything that runs at the same time: any number of
threads that submit requests, the one worker, and one thread that stops (and
possibly destroys) the channel. A step is one section of a lock or one access
to shared data. The requests are numbered in the order of their calls; the
packet copy that `enqueue_common` makes for a request has its number.

The steps of the worker inside `process_item` are taken as one, that of
`processItem`. Until then the item is being processed, and the worker and the
other threads reach each other through two flags. The worker loads
`stop_requested`: the environment may show it any readings. It stores to
`connected` as soon as the connection is up and again when it closes it, and
`sensor_tcp_channel_try_relay` loads that flag: it may see either value.
-/

namespace Savvy.Tcp

open Kit

/-- The arguments of a submitting call. A missing packet is a null pointer. -/
structure SubmitArgs where
  kind : ItemKind
  packet : Option (List UInt8)
  responseTimeoutMs : ℕ
  onComplete : Bool
  deriving DecidableEq, Repr

inductive SubmitPc
  | idle
  | entered (r : ℕ) (args : SubmitArgs)
  | checking (r : ℕ) (args : SubmitArgs)
  | copying (r : ℕ) (args : SubmitArgs) (packet : List UInt8)
  | pushing (item : QueueItem)
  | rejecting (item : QueueItem) (status : Status)
  | returning (r : ℕ) (status : Status)

/-- Where the worker stands in `worker_main`. A slot that was never written
would be the end of it. -/
inductive WorkerPc
  | popping
  | processing (item : QueueItem)
  | freeing (item : QueueItem)
  | closing
  | exited
  | fault

/-- Where the stopping thread stands in `sensor_tcp_channel_stop` and, after
that, in `sensor_tcp_channel_destroy`. -/
inductive StopPc
  | idle
  | flag
  | cancel
  | join
  | returned
  | destroyed
  deriving DecidableEq

/-- The channel, its threads, and a record of what happened so far: the
requests accepted, completed, and dropped by a cancel, in this order each, the
copies made and freed, and what the calls returned. -/
structure Requests (ι : Type*) where
  lifecycle : Lifecycle
  stopRequested : Bool
  queue : Queue QueueItem
  channel : Channel
  submit : ι → SubmitPc
  worker : WorkerPc
  stop : StopPc
  nextRequest : ℕ
  accepted : List ℕ
  completed : List ℕ
  cancelled : List ℕ
  copies : List ℕ
  freed : List ℕ
  results : List (ℕ × Status)

/-- The steps. A thread is named by `i`; `seen` is what it finds in `connected`
if the worker may be storing to it. -/
inductive Act (ι : Type*)
  | call (i : ι) (args : SubmitArgs)
  | enter (i : ι) (seen : Bool)
  | check (i : ι)
  | copy (i : ι) (ok : Bool)
  | tryPush (i : ι)
  | reject (i : ι)
  | ret (i : ι)
  | pop
  | process (env : ItemEnv)
  | free
  | exit
  | stopLifecycle
  | stopFlag
  | stopCancel
  | stopJoin
  | destroy

/-- What `sensor_tcp_channel_create` was given: the buffer for
`max_packet_size` bytes and the queue's capacity, with what
`savvy_queue_init` requires of it for items of `itemSize` bytes. -/
structure ChannelConfig where
  arch : Arch
  parseBuf : List UInt8
  queueCapacity : ℕ
  itemSize : ℕ
  capacity_pos : 0 < queueCapacity
  itemSize_ge : 2 ≤ itemSize
  no_overflow : queueCapacity ≤ (arch.sizeBound - 1) / itemSize

namespace Requests

variable {ι : Type*} [DecidableEq ι] (cfg : ChannelConfig)

def started : Requests ι where
  lifecycle := .running
  stopRequested := false
  queue := .init cfg.queueCapacity
  channel := .create cfg.parseBuf
  submit _ := .idle
  worker := .popping
  stop := .idle
  nextRequest := 0
  accepted := []
  completed := []
  cancelled := []
  copies := []
  freed := []
  results := []

def goto (s : Requests ι) (i : ι) (pc : SubmitPc) : Requests ι :=
  { s with submit := Function.update s.submit i pc }

/-- An atomic load of `connected`, which `process_item` stores to while it runs. -/
def loadConnected (s : Requests ι) (seen : Bool) : Bool :=
  match s.worker with
  | .processing _ => seen
  | _ => s.channel.connected

/-- The entry of `sensor_tcp_channel_submit`, `_submit_final` and
`_try_relay`, which loads `connected`. -/
def enterStep (connected : Bool) (r : ℕ) (args : SubmitArgs) : SubmitPc :=
  match args.kind with
  | .normal => if args.responseTimeoutMs = 0 then .returning r .invalidArgument else .checking r args
  | .final => .checking r args
  | .relay => if connected then .checking r args else .returning r .notConnected

def checkStep (s : Requests ι) (r : ℕ) (args : SubmitArgs) : SubmitPc :=
  match args.packet with
  | none => .returning r .invalidArgument
  | some packet =>
      if !args.onComplete then .returning r .invalidArgument
      else if packet.length = 0 ∨ packet.length > cfg.parseBuf.length then
        .returning r .invalidArgument
      else if s.lifecycle ≠ .running then .returning r .notStarted
      else .copying r args packet

def makeItem (r : ℕ) (args : SubmitArgs) (packet : List UInt8) : QueueItem where
  packet := packet
  responseTimeoutMs := if args.kind = .normal then args.responseTimeoutMs else 0
  kind := args.kind
  request := r

def submitStep (s : Requests ι) : Act ι → Option (Requests ι)
  | .call i args =>
      match s.submit i with
      | .idle => some ({ s with nextRequest := s.nextRequest + 1 }.goto i
          (.entered s.nextRequest args))
      | _ => none
  | .enter i seen =>
      match s.submit i with
      | .entered r args => some (s.goto i (enterStep (s.loadConnected seen) r args))
      | _ => none
  | .check i =>
      match s.submit i with
      | .checking r args => some (s.goto i (s.checkStep cfg r args))
      | _ => none
  | .copy i ok =>
      match s.submit i with
      | .copying r args packet =>
          if ok then
            some ({ s with copies := s.copies ++ [r] }.goto i (.pushing (makeItem r args packet)))
          else some (s.goto i (.returning r .outOfMemory))
      | _ => none
  | .tryPush i =>
      match s.submit i with
      | .pushing item =>
          match s.queue.tryPush cfg.arch item with
          | (.ok, q) =>
              some ({ s with queue := q, accepted := s.accepted ++ [item.request] }.goto i
                (.returning item.request .ok))
          | (status, q) => some ({ s with queue := q }.goto i (.rejecting item status))
      | _ => none
  | .reject i =>
      match s.submit i with
      | .rejecting item status =>
          some ({ s with freed := s.freed ++ [item.request] }.goto i
            (.returning item.request status))
      | _ => none
  | .ret i =>
      match s.submit i with
      | .returning r status =>
          some ({ s with results := s.results ++ [(r, status)] }.goto i .idle)
      | _ => none
  | _ => none

def workerStep (s : Requests ι) : Act ι → Option (Requests ι)
  | .pop =>
      match s.worker with
      | .popping =>
          match s.queue.pop cfg.arch with
          | .wait => none
          | .closed => some { s with worker := .closing }
          | .item (some item) q => some { s with queue := q, worker := .processing item }
          | .item none q => some { s with queue := q, worker := .fault }
      | _ => none
  | .process env =>
      match s.worker with
      | .processing item =>
          (processItem cfg.arch s.channel item env).map fun p =>
            { s with
              channel := (Tcp.onComplete p env).channel
              worker := .freeing item
              completed := s.completed ++ [item.request] }
      | _ => none
  | .free =>
      match s.worker with
      | .freeing item =>
          some { s with worker := .popping, freed := s.freed ++ [item.request] }
      | _ => none
  | .exit =>
      match s.worker with
      | .closing =>
          some { s with
            worker := .exited
            channel := if s.channel.sockfd = none then s.channel
              else s.channel.closeSessionInternal }
      | _ => none
  | _ => none

/-- The numbers of the items a queue function hands to `queue_item_destroy`. -/
def destroyed (items : List (Option QueueItem)) : List ℕ :=
  items.filterMap fun item => item.map (·.request)

def stopStep (s : Requests ι) : Act ι → Option (Requests ι)
  | .stopLifecycle =>
      match s.stop with
      | .idle =>
          let (transitioned, lc) := s.lifecycle.stop
          some { s with lifecycle := lc, stop := if transitioned then .flag else .returned }
      | _ => none
  | .stopFlag =>
      match s.stop with
      | .flag => some { s with stopRequested := true, stop := .cancel }
      | _ => none
  | .stopCancel =>
      match s.stop with
      | .cancel =>
          let (items, q) := s.queue.cancel cfg.arch
          some { s with
            queue := q
            stop := .join
            cancelled := s.cancelled ++ destroyed items
            freed := s.freed ++ destroyed items }
      | _ => none
  | .stopJoin =>
      match s.stop, s.worker with
      | .join, .exited => some { s with stop := .returned }
      | _, _ => none
  | .destroy =>
      match s.stop with
      | .returned =>
          some { s with
            stop := .destroyed
            cancelled := s.cancelled ++ destroyed (s.queue.buffered cfg.arch)
            freed := s.freed ++ destroyed (s.queue.buffered cfg.arch) }
      | _ => none
  | _ => none

/-- All threads together. A channel must not be used once it is destroyed, so
the submitting threads take no step after that. -/
def step (s : Requests ι) (a : Act ι) : Option (Requests ι) :=
  match a with
  | .pop | .process _ | .free | .exit => s.workerStep cfg a
  | .stopLifecycle | .stopFlag | .stopCancel | .stopJoin | .destroy => s.stopStep cfg a
  | _ => if s.stop = .destroyed then none else s.submitStep cfg a

end Requests

def requestSystem (ι : Type*) [DecidableEq ι] (cfg : ChannelConfig) :
    System (Requests ι) (Act ι) where
  init := .started cfg
  step := Requests.step cfg

end Savvy.Tcp
