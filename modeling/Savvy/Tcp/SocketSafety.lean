import Mathlib.Data.Fintype.Basic
import Savvy.Core.Descriptor
import Savvy.Kit.Handles
import Savvy.Tcp.Sockets

/-!
The sockets of the channels. A process has one channel for each role, each with a
worker of its own, and the workers run at the same time. A worker that kept a
socket after closing it could read the answers of the other channel, since the
kernel gives the number of a closed descriptor to the next socket that is opened.
-/

namespace Savvy.Tcp

open Kit Kit.Prog

def sockets : Handling SockCall SockAnswer Int32 where
  names
    | .getFlags fd | .setFlags fd | .connect fd | .poll fd _ | .soError fd | .send fd _
    | .recv fd | .close fd => [fd]
    | .loadStop | .now | .getaddrinfo | .socket _ | .complete _ _ | .pop => []
  closes
    | .close fd => [fd]
    | _ => []
  opens
    | .socket _, fd => if 0 ≤ fd then [fd] else []
    | _, _ => []

/-! ### Loops that only use a socket -/

section

variable {σ : Type} {W : Contract SockCall SockAnswer σ} {s : σ} {fd : Int32}

theorem awaitConnect_steady (dl : Deadline) (hstop : W.Steady s .loadStop)
    (hnow : W.Steady s .now) (hpoll : ∀ timeout, W.Steady s (.poll fd timeout))
    (hso : W.Steady s (.soError fd)) (passes : ℕ) :
    (awaitConnect fd dl passes).Meets W s fun _ s' => s' = s := by
  induction passes with
  | zero => trivial
  | succ passes ih =>
      refine .steady hstop fun stop => ?_
      split
      · rfl
      refine .steady hnow fun now => ?_
      split
      · rfl
      refine .steady (hpoll _) fun poll => ?_
      cases poll with
      | error e =>
          dsimp only
          split
          · exact ih
          · rfl
      | timeout => exact ih
      | ready errHup => exact .steady hso fun soError => rfl

theorem sendAllFrom_steady (buf : List UInt8) (hstop : W.Steady s .loadStop)
    (hpoll : ∀ timeout, W.Steady s (.poll fd timeout))
    (hsend : ∀ bytes, W.Steady s (.send fd bytes)) (passes sent : ℕ) :
    (sendAllFrom fd buf passes sent).Meets W s fun _ s' => s' = s := by
  induction passes generalizing sent with
  | zero =>
      unfold sendAllFrom
      split
      · rfl
      · trivial
  | succ passes ih =>
      unfold sendAllFrom
      split
      · rfl
      refine .steady hstop fun stop => ?_
      split
      · rfl
      refine .steady (hpoll _) fun poll => ?_
      cases poll with
      | error e =>
          dsimp only
          split
          · exact ih sent
          · rfl
      | timeout => exact ih sent
      | ready errHup =>
          cases errHup with
          | true => rfl
          | false =>
              refine .steady (hsend _) fun n => ?_
              cases n with
              | error e =>
                  dsimp only
                  split
                  · exact ih sent
                  split
                  all_goals rfl
              | ok n => exact ih (sent + n)

variable {A : Arch}

theorem awaitResponse_steady (dl : Deadline) (hstop : W.Steady s .loadStop)
    (hnow : W.Steady s .now) (hpoll : ∀ timeout, W.Steady s (.poll fd timeout))
    (hrecv : W.Steady s (.recv fd)) (passes : ℕ) (p : StreamParser) :
    (awaitResponse A fd dl passes p).Meets W s fun _ s' => s' = s := by
  induction passes generalizing p with
  | zero => trivial
  | succ passes ih =>
      refine .steady hstop fun stop => ?_
      split
      · rfl
      refine .steady hnow fun now => ?_
      split
      · rfl
      refine .steady (hpoll _) fun poll => ?_
      cases poll with
      | error e =>
          dsimp only
          split
          · exact ih p
          · rfl
      | timeout => exact ih p
      | ready errHup =>
          refine .steady hrecv fun n => ?_
          cases n with
          | error e =>
              dsimp only
              split
              · exact ih p
              · rfl
          | ok bytes =>
              dsimp only
              split
              · rfl
              rcases pushAndExtract A p bytes with ⟨_ | ⟨status, packet⟩, q⟩
              · exact ih q
              · rfl

theorem waitForResponseOn_steady (timeoutMs : UInt32) (hstop : W.Steady s .loadStop)
    (hnow : W.Steady s .now) (hpoll : ∀ timeout, W.Steady s (.poll fd timeout))
    (hrecv : W.Steady s (.recv fd)) (passes : ℕ) (p : StreamParser) :
    (waitForResponseOn A fd timeoutMs passes p).Meets W s fun _ s' => s' = s := by
  unfold waitForResponseOn
  rcases extractResponse A p with ⟨_ | ⟨status, packet⟩, q⟩
  · exact .steady hnow fun now => awaitResponse_steady _ hstop hnow hpoll hrecv passes q
  · rfl

end

/-! ### The socket of a worker -/

section

variable {lent own : Set Int32} {fd : Int32}

theorem steady_plain {c : SockCall} (hnames : sockets.names c = [])
    (hcloses : sockets.closes c = []) (hopens : ∀ r, sockets.opens c r = []) :
    (sockets.owning lent).Steady own c :=
  Handling.steady_owning (by simp [hnames]) hcloses hopens

theorem steady_sock {c : SockCall} (hnames : sockets.names c = [fd]) (hfd : 0 ≤ fd)
    (hcloses : sockets.closes c = []) (hopens : ∀ r, sockets.opens c r = []) :
    (sockets.owning lent).Steady (held fd) c :=
  Handling.steady_own hnames (mem_held hfd) hcloses hopens

theorem meets_closeSock {α : Type} {k : Unit → Worker α} {Q : α → Set Int32 → Prop} (hfd : 0 ≤ fd)
    (hk : (k ()).Meets (sockets.owning lent) ∅ Q) :
    (ask (.close fd) >>= k).Meets (sockets.owning lent) (held fd) Q := by
  refine Handling.meets_closing rfl rfl (fun _ => rfl) (mem_held hfd) fun _ => ?_
  rw [held_diff]
  exact hk

theorem meets_openSock {α : Type} {k : Int32 → Worker α} {Q : α → Set Int32 → Prop} (a : ℕ)
    (hk : ∀ fd, (k fd).Meets (sockets.owning lent) (held fd) Q) :
    (ask (.socket a) >>= k).Meets (sockets.owning lent) ∅ Q := by
  refine Handling.meets_opening rfl rfl fun fd _ => ?_
  rw [show {h | h ∈ sockets.opens (.socket a) fd} = held fd from held_eq_opened fd]
  exact hk fd

theorem makeNonblocking_owned (hfd : 0 ≤ fd) :
    (makeNonblocking fd).Meets (sockets.owning lent) (held fd) fun _ own => own = held fd := by
  refine .steady (steady_sock rfl hfd rfl fun _ => rfl) fun flags => ?_
  split
  · have hset : (sockets.owning lent).Steady (held fd) (.setFlags fd) :=
      steady_sock rfl hfd rfl fun _ => rfl
    exact ⟨hset.1, fun r s' hr => hset.2 r s' hr⟩
  · rfl

/-- The loop over the addresses ends with the socket it returns, and it has one if
it says so. -/
theorem tryAddresses_owned (dl : Deadline) (passes : ℕ) {outcome : TcpStatus}
    (houtcome : outcome ≠ .ok) (as : List ℕ) :
    (tryAddresses dl passes outcome as).Meets (sockets.owning lent) ∅ fun found own =>
      own = found.2.elim ∅ held ∧ (found.1 = .ok → ∃ fd, found.2 = some fd ∧ 0 ≤ fd) := by
  induction as generalizing outcome with
  | nil => exact ⟨rfl, fun hok => absurd hok houtcome⟩
  | cons a as ih =>
      refine meets_openSock a fun fd => ?_
      split
      · next hneg =>
          rw [held_of_neg hneg]
          exact ih houtcome
      next hneg =>
      have hfd : 0 ≤ fd := Int32.not_lt.mp hneg
      refine (makeNonblocking_owned hfd).bind ?_
      rintro _ own rfl
      refine .steady (steady_sock rfl hfd rfl fun _ => rfl) fun rc => ?_
      cases rc with
      | none => exact ⟨rfl, fun _ => ⟨fd, rfl, hfd⟩⟩
      | some e =>
          dsimp only
          split
          · exact meets_closeSock hfd (ih houtcome)
          refine (awaitConnect_steady dl (steady_plain rfl rfl fun _ => rfl)
            (steady_plain rfl rfl fun _ => rfl) (fun _ => steady_sock rfl hfd rfl fun _ => rfl)
            (steady_sock rfl hfd rfl fun _ => rfl) passes).bind ?_
          rintro wait own rfl
          cases wait with
          | connected => exact ⟨rfl, fun _ => ⟨fd, rfl, hfd⟩⟩
          | aborted =>
              refine meets_closeSock hfd ⟨rfl, ?_⟩
              rintro ⟨⟩
          | failed =>
              refine meets_closeSock hfd ?_
              refine .steady (steady_plain rfl rfl fun _ => rfl) fun now => ?_
              refine .steady (steady_plain rfl rfl fun _ => rfl) fun again => ?_
              have hnot : (if dl.expired now then TcpStatus.connectTimeout else .io) ≠ .ok := by
                split <;> rintro ⟨⟩
              split
              · exact ⟨rfl, fun hok => absurd hok hnot⟩
              · exact ih hnot

def Socketed.held (c : Socketed) : Set Int32 := Savvy.held c.sockfd

theorem tryConnectSocket_owned {c : Socketed} (hc : c.sockfd < 0) (passes : ℕ) :
    (tryConnectSocket c passes).Meets (sockets.owning lent) ∅ fun out own =>
      own = out.2.held ∧ (out.1 = .ok → 0 ≤ out.2.sockfd) := by
  have hnone : c.held = ∅ := held_of_neg hc
  refine .steady (steady_plain rfl rfl fun _ => rfl) fun res => ?_
  rcases res with _ | ⟨_ | ⟨a, as⟩⟩
  · exact ⟨hnone.symm, by rintro ⟨⟩⟩
  · exact ⟨hnone.symm, by rintro ⟨⟩⟩
  refine .steady (steady_plain rfl rfl fun _ => rfl) fun now => ?_
  refine (tryAddresses_owned _ passes (by rintro ⟨⟩) _).bind ?_
  rintro ⟨status, sock⟩ own ⟨rfl, hok⟩
  cases sock with
  | none =>
      refine ⟨hnone.symm, fun hstatus => ?_⟩
      obtain ⟨fd, ⟨⟩, -⟩ := hok hstatus
  | some fd =>
      refine ⟨rfl, fun hstatus => ?_⟩
      obtain ⟨fd, ⟨⟩, hfd⟩ := hok hstatus
      exact hfd

theorem closeSession_owned (c : Socketed) :
    (closeSession c).Meets (sockets.owning lent) c.held fun c' own => own = c'.held := by
  unfold closeSession
  split
  · next hfd => exact meets_closeSock hfd (held_of_neg (by decide : (-1 : Int32) < 0)).symm
  · rfl

theorem completed_owned (c : Socketed) (item : QueueItem) (result : TcpResult) :
    (completed c item result).Meets (sockets.owning lent) c.held fun c' own => own = c'.held := by
  refine .steady (steady_plain rfl rfl fun _ => rfl) fun close => ?_
  split
  · exact closeSession_owned c
  · rfl

variable {A : Arch}

theorem exchangeOn_owned {c : Socketed} (hc : 0 ≤ c.sockfd) (item : QueueItem) (passes : ℕ) :
    (exchangeOn A c item passes).Meets (sockets.owning lent) c.held
      fun c' own => own = c'.held := by
  refine (sendAllFrom_steady item.packet (steady_plain rfl rfl fun _ => rfl)
    (fun _ => steady_sock rfl hc rfl fun _ => rfl)
    (fun _ => steady_sock rfl hc rfl fun _ => rfl) passes 0).bind ?_
  rintro ss own rfl
  have hclosing (c' : Socketed) (hc' : c'.held = c.held) (result : TcpResult) :
      (closeSession c' >>= fun ch => completed ch item result).Meets (sockets.owning lent) c.held
        fun c' own => own = c'.held := by
    rw [← hc']
    refine (closeSession_owned c').bind ?_
    rintro c'' own rfl
    exact completed_owned c'' item result
  split
  · exact hclosing c rfl _
  cases item.kind with
  | final => exact hclosing c rfl _
  | relay => exact completed_owned c item _
  | normal =>
      refine (waitForResponseOn_steady _ (steady_plain rfl rfl fun _ => rfl)
        (steady_plain rfl rfl fun _ => rfl) (fun _ => steady_sock rfl hc rfl fun _ => rfl)
        (steady_sock rfl hc rfl fun _ => rfl) passes c.parser).bind ?_
      rintro r own rfl
      split
      · exact completed_owned { c with parser := r.parser } item _
      · exact hclosing { c with parser := r.parser } rfl _

theorem processItemOn_owned (c : Socketed) (item : QueueItem) (passes : ℕ) :
    (processItemOn A c item passes).Meets (sockets.owning lent) c.held
      fun c' own => own = c'.held := by
  unfold processItemOn
  split
  · exact completed_owned c item _
  split
  · next hneg =>
      rw [show c.held = ∅ from held_of_neg hneg]
      refine (tryConnectSocket_owned hneg passes).bind ?_
      rintro ⟨status, c'⟩ own ⟨rfl, hok⟩
      split
      · exact completed_owned c' item _
      · next hstatus => exact exchangeOn_owned (hok (not_not.mp hstatus)) item passes
  · next hneg => exact exchangeOn_owned (Int32.not_lt.mp hneg) item passes

/-- A worker that returns has no socket left. -/
theorem workerMain_owned (passes items : ℕ) (c : Socketed) :
    (workerMain A passes items c).Meets (sockets.owning lent) c.held
      fun c' own => own = c'.held ∧ c'.sockfd < 0 := by
  induction items generalizing c with
  | zero => trivial
  | succ items ih =>
      refine .steady (steady_plain rfl rfl fun _ => rfl) fun popped => ?_
      cases popped with
      | some item =>
          refine (processItemOn_owned c item passes).bind ?_
          rintro c' own rfl
          exact ih c'
      | none =>
          dsimp only
          split
          · next hfd =>
              exact meets_closeSock hfd
                ⟨(held_of_neg (by decide : (-1 : Int32) < 0)).symm, (by decide : (-1 : Int32) < 0)⟩
          · next hneg => exact ⟨rfl, Int32.not_le.mp hneg⟩

end

/-! ### Several channels -/

variable {ω : Type}

structure Running (ω : Type) where
  channel : ω
  items : ℕ
  deriving DecidableEq

/-- The channels with their workers. A worker has a channel for itself, and there is
no socket while no worker runs. -/
def channelService (ω : Type) (A : Arch) (passes : ℕ) :
    Service SockCall SockAnswer Int32 ω (fun _ => Socketed) (Running ω) Unit where
  handling := sockets
  handles c := c.held
  valid c := c.sockfd < 0
  subject := Running.channel
  exclusive _ := true
  borrows _ := []
  ready _ _ := True
  prog op objects := do
    let c ← workerMain A passes op.items (objects op.channel)
    pure (c, ())

theorem channelService_tidy (A : Arch) (passes : ℕ) : (channelService ω A passes).Tidy where
  exclusive op objects _ _ _ _ :=
    (workerMain_owned passes op.items (objects op.channel)).bind fun _ _ h => h
  shared op objects hshared := by cases hshared

def created (buf : List UInt8) : Socketed := ⟨-1, false, .init buf⟩

variable [DecidableEq ω] {τ : Type} [DecidableEq τ] {μ : Type}

/-- Workers `τ` of the channels `ω` and whatever answers their calls. -/
def channelSystem (ω τ : Type) [DecidableEq ω] [DecidableEq τ] (A : Arch) (passes : ℕ)
    (parseBuf : ω → List UInt8) (world : μ)
    (respond : μ → (c : SockCall) → SockAnswer c → Option μ) :
    System (Pool (channelService ω A passes) τ μ) (PoolAct SockCall SockAnswer (Running ω) τ) :=
  (channelService ω A passes).pool (fun i => created (parseBuf i)) world respond

/-- No worker touches the socket of another channel, in any interleaving of the
workers and for any answers, even though a number that one channel has closed may
be the next socket of another. The callers promise that a channel has one worker at
a time, as its lifecycle sees to it. A channel whose worker is not running has no socket,
so none is left behind. -/
theorem sockets_safe (A : Arch) (passes : ℕ) (parseBuf : ω → List UInt8) (world : μ)
    (respond : μ → (c : SockCall) → SockAnswer c → Option μ)
    (s : Pool (channelService ω A passes) τ μ)
    (h : (channelSystem ω τ A passes parseBuf world respond).ReachBy
      (channelService ω A passes).Promised s) :
    (∀ t w c, s.calling t = some (w, c) → ∀ fd ∈ sockets.names c, s.table fd = some w.channel) ∧
    ∀ i, (∀ t w p, s.tasks t = some ⟨w, p⟩ → w.channel ≠ i) →
      (s.objects i).sockfd < 0 ∧ ∀ fd, s.table fd ≠ some i := by
  have hneg (i : ω) : (created (parseBuf i)).sockfd < 0 := (by decide : (-1 : Int32) < 0)
  have hi := Service.poolInv_of_reach (channelService_tidy A passes)
    (fun i => held_of_neg (hneg i)) hneg h
  refine ⟨fun t w c ht fd hfd => ?_, fun i hrest => ?_⟩
  · obtain ⟨o, ho, htable⟩ := (hi.call_owned ht).1 fd hfd
    rcases ho with rfl | ho
    · exact htable
    · cases ho
  · have hclosed : (s.objects i).sockfd < 0 := hi.valid i
    refine ⟨hclosed, fun fd hopen => ?_⟩
    have hmem : fd ∈ (s.objects i).held :=
      (hi.idle i (fun t w p ht _ heq => hrest t w p ht heq) fd).mp hopen
    rw [show (s.objects i).held = ∅ from held_of_neg hclosed] at hmem
    exact hmem

instance (A : Arch) (passes : ℕ) (w : Running ω) (objects : ω → Socketed) :
    Decidable ((channelService ω A passes).ready w objects) := .isTrue trivial

/-- A server that takes everything, where every socket is number 3. -/
def serverOnThree : (c : SockCall) → SockAnswer c
  | .loadStop | .soError _ | .complete _ _ => false
  | .now => 0
  | .getaddrinfo => some [0]
  | .socket _ => 3
  | .getFlags _ => 2
  | .connect _ => none
  | .poll _ _ => .ready false
  | .send _ bytes => .ok bytes.length
  | .recv _ => .ok []
  | .setFlags _ | .close _ => ()
  | .pop => some ⟨[1], 0, .final, 7⟩

/-- One worker sends a final packet and closes, while the other waits for its socket. -/
def handover : List (PoolAct SockCall SockAnswer (Running Bool) Bool) :=
  [.start false ⟨false, 2⟩, .start true ⟨true, 2⟩] ++
    List.replicate 3 (.answer true serverOnThree) ++
    List.replicate 11 (.answer false serverOnThree) ++
    List.replicate 1 (.answer true serverOnThree)

/-- The second worker works on the number that the first one has closed. -/
theorem sockets_safe_reused :
    ∃ s : Pool (channelService Bool Arch.lp64 4) Bool Unit,
      s.calling true = some (⟨true, 2⟩, .getFlags 3) ∧ (s.calling false).isSome ∧
      s.table 3 = some true := by
  obtain ⟨s, hrun, hs⟩ := Option.map_eq_some_iff.mp
    (show ((channelSystem Bool Bool Arch.lp64 4 (fun _ => []) () fun _ _ _ => some ()).runBy
        (channelService Bool Arch.lp64 4).Promised
        (channelSystem Bool Bool Arch.lp64 4 (fun _ => []) () fun _ _ _ => some ()).init
        handover).map (fun s => (s.calling true, (s.calling false).isSome)) =
        some (some (⟨true, 2⟩, .getFlags 3), true) by
      decide +kernel)
  simp only [Prod.mk.injEq] at hs
  obtain ⟨hcall, hother⟩ := hs
  obtain ⟨howned, -⟩ := sockets_safe Arch.lp64 4 _ () _ s (System.reachBy_of_runBy .init hrun)
  exact ⟨s, hcall, hother, howned true _ _ hcall 3 (by decide)⟩

end Savvy.Tcp
