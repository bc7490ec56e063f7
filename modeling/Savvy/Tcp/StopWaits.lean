import Savvy.Tcp.Sockets

/-!
Stopping a worker that waits. `sensor_tcp_channel_stop` sets `stop_requested` and
joins the worker, so the caller of stop waits as long as the worker does. The
worker looks at the flag before each wait and waits for one slice at most, which
leaves it one slice once the flag is set, however many addresses, bytes and items
it still has before it. What it was doing then is reported as shut down.
-/

namespace Savvy.Tcp

open Kit Kit.Prog

/-- What the worker knows of `stop_requested`: that it was not set and no wait has
been made since, and that it was set and the item is not reported yet. -/
structure Watch where
  fresh : Bool
  aborting : Bool

def Watch.next (s : Watch) : (c : SockCall) → SockAnswer c → Watch
  | .loadStop, stop => ⟨!stop, s.aborting || stop⟩
  | .poll _ _, _ => { s with fresh := false }
  | .complete _ _, _ => { s with aborting := false }
  | _, _ => s

/-- A wait takes one slice at most and comes after a look at the flag, and an item
that was given up for it is reported as shut down. -/
def watching : Contract SockCall SockAnswer Watch where
  permits s
    | .poll _ timeout => s.fresh = true ∧ timeout ≤ stopCheckSliceMs
    | .complete _ result => s.aborting = true → result.status = .shuttingDown
    | _ => True
  answers s c r s' := s' = s.next c r

theorem waitSlice_le (remaining : UInt32) : waitSlice remaining ≤ stopCheckSliceMs := by
  unfold waitSlice
  split
  · next h => exact UInt32.le_of_lt h
  · exact UInt32.le_refl _

/-! ### Each function -/

section

variable {s : Watch}

theorem meets_loadStop {α : Type} {k : Bool → Worker α} {Q : α → Watch → Prop}
    (hs : s.aborting = false) (hset : (k true).Meets watching ⟨false, true⟩ Q)
    (hclear : (k false).Meets watching ⟨true, false⟩ Q) :
    (ask .loadStop >>= k).Meets watching s Q := by
  refine .ask trivial ?_
  rintro stop s' rfl
  cases stop with
  | true => simpa [Watch.next, hs] using hset
  | false => simpa [Watch.next, hs] using hclear

theorem meets_poll {α : Type} {k : Poll → Worker α} {Q : α → Watch → Prop} {fd : Int32}
    {timeout : UInt32} (ht : timeout ≤ stopCheckSliceMs)
    (hk : ∀ poll, (k poll).Meets watching ⟨false, false⟩ Q) :
    (ask (.poll fd timeout) >>= k).Meets watching ⟨true, false⟩ Q := by
  refine .ask ⟨rfl, ht⟩ ?_
  rintro poll s' rfl
  exact hk poll

theorem awaitConnect_watched (fd : Int32) (dl : Deadline) (passes : ℕ) (hs : s.aborting = false) :
    (awaitConnect fd dl passes).Meets watching s
      fun wait s' => s'.aborting = true → wait = .aborted := by
  induction passes generalizing s with
  | zero => trivial
  | succ passes ih =>
      refine meets_loadStop hs (fun _ => rfl) ?_
      refine .steady ⟨trivial, fun _ _ h => h⟩ fun now => ?_
      split
      · rintro ⟨⟩
      refine meets_poll (waitSlice_le _) fun poll => ?_
      cases poll with
      | error e =>
          dsimp only
          split
          · exact ih rfl
          · rintro ⟨⟩
      | timeout => exact ih rfl
      | ready errHup =>
          refine .steady ⟨trivial, fun _ _ h => h⟩ fun soError => ?_
          rintro ⟨⟩

theorem tryAddresses_watched (dl : Deadline) (passes : ℕ) (outcome : TcpStatus) (as : List ℕ)
    (hs : s.aborting = false) : (tryAddresses dl passes outcome as).Meets watching s
      fun found s' => s'.aborting = true → found = (.shuttingDown, none) := by
  induction as generalizing outcome s with
  | nil => exact fun h => absurd h (by simp [hs])
  | cons a as ih =>
      refine .steady ⟨trivial, fun _ _ h => h⟩ fun fd => ?_
      split
      · exact ih outcome hs
      have hflags : (makeNonblocking fd).Meets watching s fun _ s' => s' = s := by
        refine .steady ⟨trivial, fun _ _ h => h⟩ fun flags => ?_
        split
        · exact ⟨trivial, fun _ _ h => h⟩
        · rfl
      refine hflags.bind ?_
      rintro _ s' rfl
      refine .steady ⟨trivial, fun _ _ h => h⟩ fun rc => ?_
      cases rc with
      | none => exact fun h => absurd h (by simp [hs])
      | some e =>
          dsimp only
          split
          · exact .steady ⟨trivial, fun _ _ h => h⟩ fun _ => ih outcome hs
          refine (awaitConnect_watched fd dl passes hs).bind fun wait s' hwait => ?_
          -- Only a wait that was aborted leaves the flag seen as set.
          have hclear (hne : wait ≠ .aborted) : s'.aborting = false := by
            cases hab : s'.aborting with
            | true => exact absurd (hwait hab) hne
            | false => rfl
          cases wait with
          | connected => exact fun h => absurd (hwait h) (by decide)
          | aborted =>
              refine .steady ⟨trivial, fun _ _ h => h⟩ fun _ => ?_
              exact fun _ => rfl
          | failed =>
              refine .steady ⟨trivial, fun _ _ h => h⟩ fun _ => ?_
              refine .steady ⟨trivial, fun _ _ h => h⟩ fun now => ?_
              refine .steady ⟨trivial, fun _ _ h => h⟩ fun again => ?_
              split
              · exact fun h => absurd (hwait h) (by decide)
              · exact ih _ (hclear (by decide))

theorem tryConnectSocket_watched (c : Socketed) (passes : ℕ) (hs : s.aborting = false) :
    (tryConnectSocket c passes).Meets watching s
      fun out s' => s'.aborting = true → out.1 = .shuttingDown := by
  refine .steady ⟨trivial, fun _ _ h => h⟩ fun res => ?_
  rcases res with _ | ⟨_ | ⟨a, as⟩⟩
  · exact fun h => absurd h (by simp [hs])
  · exact fun h => absurd h (by simp [hs])
  refine .steady ⟨trivial, fun _ _ h => h⟩ fun now => ?_
  refine (tryAddresses_watched _ passes _ _ hs).bind fun found s' hfound => ?_
  split
  · next fd hfd =>
      intro hab
      rw [hfound hab] at hfd
      cases hfd
  · intro hab
    simp [hfound hab]

theorem sendAllFrom_watched (fd : Int32) (buf : List UInt8) (passes sent : ℕ)
    (hs : s.aborting = false) : (sendAllFrom fd buf passes sent).Meets watching s
      fun st s' => s'.aborting = true → st = .shuttingDown := by
  induction passes generalizing sent s with
  | zero =>
      unfold sendAllFrom
      split
      · exact fun h => absurd h (by simp [hs])
      · trivial
  | succ passes ih =>
      unfold sendAllFrom
      split
      · exact fun h => absurd h (by simp [hs])
      refine meets_loadStop hs (fun _ => rfl) ?_
      refine meets_poll (UInt32.le_refl _) fun poll => ?_
      cases poll with
      | error e =>
          dsimp only
          split
          · exact ih sent rfl
          · rintro ⟨⟩
      | timeout => exact ih sent rfl
      | ready errHup =>
          cases errHup with
          | true => rintro ⟨⟩
          | false =>
              refine .steady ⟨trivial, fun _ _ h => h⟩ fun n => ?_
              cases n with
              | error e =>
                  dsimp only
                  split
                  · exact ih sent rfl
                  split
                  all_goals rintro ⟨⟩
              | ok n => exact ih (sent + n) rfl

variable {A : Arch}

theorem awaitResponse_watched (fd : Int32) (dl : Deadline) (passes : ℕ) (p : StreamParser)
    (hs : s.aborting = false) : (awaitResponse A fd dl passes p).Meets watching s
      fun r s' => s'.aborting = true → r.status = .shuttingDown := by
  induction passes generalizing p s with
  | zero => trivial
  | succ passes ih =>
      refine meets_loadStop hs (fun _ => rfl) ?_
      refine .steady ⟨trivial, fun _ _ h => h⟩ fun now => ?_
      split
      · rintro ⟨⟩
      refine meets_poll (waitSlice_le _) fun poll => ?_
      cases poll with
      | error e =>
          dsimp only
          split
          · exact ih p rfl
          · rintro ⟨⟩
      | timeout => exact ih p rfl
      | ready errHup =>
          refine .steady ⟨trivial, fun _ _ h => h⟩ fun n => ?_
          cases n with
          | error e =>
              dsimp only
              split
              · exact ih p rfl
              · rintro ⟨⟩
          | ok bytes =>
              dsimp only
              split
              · rintro ⟨⟩
              rcases pushAndExtract A p bytes with ⟨_ | ⟨status, packet⟩, q⟩
              · exact ih q rfl
              · rintro ⟨⟩

theorem waitForResponseOn_watched (fd : Int32) (timeoutMs : UInt32) (passes : ℕ)
    (p : StreamParser) (hs : s.aborting = false) :
    (waitForResponseOn A fd timeoutMs passes p).Meets watching s
      fun r s' => s'.aborting = true → r.status = .shuttingDown := by
  unfold waitForResponseOn
  rcases extractResponse A p with ⟨_ | ⟨status, packet⟩, q⟩
  · exact .steady ⟨trivial, fun _ _ h => h⟩ fun now => awaitResponse_watched fd _ passes q hs
  · exact fun h => absurd h (by simp [hs])

theorem closeSession_watched (c : Socketed) :
    (closeSession c).Meets watching s fun _ s' => s' = s := by
  unfold closeSession
  split
  · exact .steady ⟨trivial, fun _ _ h => h⟩ fun _ => rfl
  · rfl

/-- A callback that reports the right status. -/
theorem completed_watched (c : Socketed) (item : QueueItem) {result : TcpResult}
    (hresult : s.aborting = true → result.status = .shuttingDown) :
    (completed c item result).Meets watching s fun _ s' => s'.aborting = false := by
  refine .ask hresult ?_
  rintro close s' rfl
  split
  · refine (closeSession_watched c).mono ?_
    rintro _ s' rfl
    rfl
  · rfl

theorem closeSession_completed_watched (c : Socketed) (item : QueueItem) {result : TcpResult}
    (hresult : s.aborting = true → result.status = .shuttingDown) :
    (closeSession c >>= fun c => completed c item result).Meets watching s
      fun _ s' => s'.aborting = false := by
  refine (closeSession_watched c).bind ?_
  rintro c s' rfl
  exact completed_watched c item hresult

theorem exchangeOn_watched (c : Socketed) (item : QueueItem) (passes : ℕ)
    (hs : s.aborting = false) :
    (exchangeOn A c item passes).Meets watching s fun _ s' => s'.aborting = false := by
  refine (sendAllFrom_watched c.sockfd item.packet passes 0 hs).bind fun ss s' hss => ?_
  split
  · exact closeSession_completed_watched c item hss
  next hok =>
  -- The packet was sent, so the flag was not seen as set.
  have hclear : s'.aborting = false := by
    cases hab : s'.aborting with
    | true =>
        rw [hss hab] at hok
        exact absurd (by decide) hok
    | false => rfl
  cases item.kind with
  | final => exact closeSession_completed_watched c item fun h => absurd h (by simp [hclear])
  | relay => exact completed_watched c item fun h => absurd h (by simp [hclear])
  | normal =>
      refine (waitForResponseOn_watched c.sockfd _ passes c.parser hclear).bind fun r s'' hr => ?_
      split
      · next hstatus hpacket =>
          refine completed_watched _ item fun hab => ?_
          rw [hr hab] at hstatus
          cases hstatus
      · exact closeSession_completed_watched _ item hr

theorem processItemOn_watched (c : Socketed) (item : QueueItem) (passes : ℕ)
    (hs : s.aborting = false) :
    (processItemOn A c item passes).Meets watching s fun _ s' => s'.aborting = false := by
  unfold processItemOn
  split
  · exact completed_watched c item fun h => absurd h (by simp [hs])
  split
  · refine (tryConnectSocket_watched c passes hs).bind fun out s' hout => ?_
    split
    · exact completed_watched out.2 item hout
    next hok =>
    refine exchangeOn_watched out.2 item passes ?_
    cases hab : s'.aborting with
    | true =>
        rw [hout hab] at hok
        exact absurd (by decide) hok
    | false => rfl
  · exact exchangeOn_watched c item passes hs

theorem workerMain_watched (passes items : ℕ) (c : Socketed) (hs : s.aborting = false) :
    (workerMain A passes items c).Meets watching s fun _ s' => s'.aborting = false := by
  induction items generalizing c s with
  | zero => trivial
  | succ items ih =>
      refine .steady ⟨trivial, fun _ _ h => h⟩ fun popped => ?_
      cases popped with
      | some item =>
          exact (processItemOn_watched c item passes hs).bind fun c' s' hs' => ih c' hs'
      | none =>
          dsimp only
          split
          · exact .steady ⟨trivial, fun _ _ h => h⟩ fun _ => hs
          · exact hs

end

/-! ### Runs -/

def waitMs : (Σ c, SockAnswer c) → ℕ
  | ⟨.poll _ timeout, _⟩ => timeout.toNat
  | _ => 0

/-- While the flag is set there is one wait more at most. -/
theorem waits_le_of_permitted {s : Watch} {tr : List (Σ c, SockAnswer c)}
    (h : Permitted watching Watch.next s tr) (hstop : ⟨.loadStop, false⟩ ∉ tr) :
    (tr.map waitMs).sum ≤ if s.fresh then 100 else 0 := by
  induction tr generalizing s with
  | nil => simp
  | cons e tr ih =>
      obtain ⟨c, r⟩ := e
      obtain ⟨hpermits, hrest⟩ := h
      have hrest := ih hrest fun hmem => hstop (List.mem_cons_of_mem _ hmem)
      rw [List.map_cons, List.sum_cons]
      have hquiet (hfresh : (s.next c r).fresh = s.fresh) (hms : waitMs ⟨c, r⟩ = 0) :
          waitMs ⟨c, r⟩ + (tr.map waitMs).sum ≤ if s.fresh then 100 else 0 := by
        rw [hms, Nat.zero_add]
        rwa [hfresh] at hrest
      cases c with
      | loadStop =>
          cases r with
          | true => exact le_trans (by simpa [Watch.next, waitMs] using hrest) (Nat.zero_le _)
          | false => exact absurd List.mem_cons_self hstop
      | poll fd timeout =>
          obtain ⟨hfresh, ht⟩ := hpermits
          have hzero : (tr.map waitMs).sum = 0 := by simpa [Watch.next] using hrest
          have hle : timeout.toNat ≤ 100 := UInt32.le_iff_toNat_le.mp ht
          rw [hfresh, if_pos rfl, hzero]
          exact hle
      | _ => exact hquiet rfl rfl

/-- The flag stays seen as set until the item is reported. -/
theorem aborting_stateAfter {s : Watch} {tr : List (Σ c, SockAnswer c)} (hs : s.aborting = true)
    (htr : ∀ request result close, ⟨.complete request result, close⟩ ∉ tr) :
    (stateAfter Watch.next s tr).aborting = true := by
  induction tr generalizing s with
  | nil => exact hs
  | cons e tr ih =>
      obtain ⟨c, r⟩ := e
      refine ih ?_ fun request result close hmem =>
        htr request result close (List.mem_cons_of_mem _ hmem)
      cases c with
      | complete request result => exact absurd List.mem_cons_self (htr request result r)
      | loadStop => simp [Watch.next, hs]
      | _ => exact hs

/-- Once `stop_requested` reads as set for the rest of a run, the worker waits for
its socket for 100 ms at most in all of it, whatever it has before it; and an item
during which the flag was read as set is reported as shut down. -/
theorem stop_bounds_waits (A : Arch) (buf : List UInt8) (passes items : ℕ)
    (tr : List (Σ c, SockAnswer c)) (q : Worker Socketed)
    (h : Steps (workerMain A passes items ⟨-1, false, .init buf⟩) tr q) :
    (∀ tr₁ tr₂, tr = tr₁ ++ tr₂ → ⟨.loadStop, false⟩ ∉ tr₂ → (tr₂.map waitMs).sum ≤ 100) ∧
    ∀ tr₁ tr₂ tr₃ request result close,
      tr = tr₁ ++ ⟨.loadStop, true⟩ :: (tr₂ ++ ⟨.complete request result, close⟩ :: tr₃) →
      (∀ request result close, ⟨.complete request result, close⟩ ∉ tr₂) →
      result.status = .shuttingDown := by
  have hmeets := workerMain_watched (A := A) (s := ⟨false, false⟩) passes items
    ⟨-1, false, .init buf⟩ rfl
  have hpermitted : Permitted watching Watch.next ⟨false, false⟩ tr :=
    hmeets.permitted h fun _ _ _ => rfl
  constructor
  · rintro tr₁ tr₂ rfl hstop
    have hsum := waits_le_of_permitted (permitted_append.mp hpermitted).2 hstop
    split at hsum
    all_goals omega
  · rintro tr₁ tr₂ tr₃ request result close rfl hnone
    obtain ⟨-, -, hrest⟩ := permitted_append.mp hpermitted
    obtain ⟨-, hreport, -⟩ := permitted_append.mp hrest
    exact hreport (aborting_stateAfter (by simp [Watch.next]) hnone)

/-- A worker that connects and looks at the flag a last time before it is set. -/
def beforeStop : List (Σ c, SockAnswer c) :=
  [⟨.pop, some ⟨[1], 0, .final, 7⟩⟩, ⟨.getaddrinfo, some [0]⟩, ⟨.now, (0 : UInt64)⟩,
    ⟨.socket 0, (3 : Int32)⟩, ⟨.getFlags 3, (-1 : Int32)⟩, ⟨.connect 3, none⟩, ⟨.loadStop, false⟩]

/-- The wait it has begun, and what it does then. -/
def afterStop : List (Σ c, SockAnswer c) :=
  [⟨.poll 3 100, .timeout⟩, ⟨.loadStop, true⟩, ⟨.close 3, ()⟩,
    ⟨.complete 7 (.failed .shuttingDown), false⟩, ⟨.pop, none⟩]

/-- The bound is reached. -/
theorem stop_bounds_waits_reached :
    (afterStop.map waitMs).sum = 100 ∧ (afterStop.map waitMs).sum ≤ 100 ∧
      (TcpResult.failed .shuttingDown).status = .shuttingDown := by
  have hsteps : Steps (workerMain Arch.lp64 4 2 ⟨-1, false, .init []⟩) (beforeStop ++ afterStop)
      (.ret ⟨-1, false, .init []⟩) :=
    .call (.call (.call (.call (.call (.call (.call (.call (.call (.call (.call (.call
      (.nil _))))))))))))
  obtain ⟨hwaits, hreport⟩ := stop_bounds_waits Arch.lp64 [] 4 2 _ _ hsteps
  refine ⟨rfl, hwaits beforeStop afterStop rfl ?_, ?_⟩
  · simp [afterStop]
  · refine hreport (beforeStop ++ [⟨.poll 3 100, .timeout⟩]) [⟨.close 3, ()⟩] [⟨.pop, none⟩] 7
      (.failed .shuttingDown) false rfl ?_
    simp

end Savvy.Tcp
