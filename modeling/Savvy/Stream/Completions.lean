import Mathlib.Data.List.Induction
import Savvy.Kit.Streak
import Savvy.Stream.ResultPolicy
import Savvy.Tcp.Channel

/-!
The completion callbacks of a session that reach the result policy
(`on_pirin_complete` and `on_data_complete` in `src/features/stream/session.c`),
and what a sequence of completions does to the policy: the danger counter holds
the number of dangers since the last normal result or the last echo of a PIRIN.
-/

namespace Savvy.Stream

open Kit Tcp

/-- `WIRE_CMD_PIRIN` and `WIRE_CMD_RESPONSE`. -/
def wireCmdPirin : UInt8 := 73

def wireCmdResponse : UInt8 := 82

/-- What a completion does: the policy behind it, the alerts, the arguments of
`on_sent`, and the policy that `on_sent` finds when it is called with them. -/
structure CompletionEffect where
  policy : ResultPolicy
  alerts : List UInt8
  ok : Bool
  command : UInt8
  found : ResultPolicy

def reportedCommand (r : TcpResult) : UInt8 := if r.status = .ok then r.command else 0

def onPirinComplete (p : ResultPolicy) (r : TcpResult) : CompletionEffect :=
  let ok := r.status = .ok && r.command = wireCmdPirin
  let policy := if ok then p.reset else p
  ⟨policy, [], ok, reportedCommand r, policy⟩

def onDataComplete (A : Arch) (p : ResultPolicy) (r : TcpResult) : CompletionEffect :=
  let ok := r.status = .ok && r.command = wireCmdResponse && r.crcValid
  let (policy, alerts) :=
    if r.status = .ok ∧ r.command = wireCmdResponse then
      p.onResponse A (if r.crcValid then some r.data else none)
    else (p, [])
  ⟨policy, alerts, ok, reportedCommand r, policy⟩

inductive CompletionKind
  | pirin
  | data
  deriving DecidableEq, Repr

structure Completion where
  kind : CompletionKind
  result : TcpResult

def complete (A : Arch) (p : ResultPolicy) (c : Completion) : CompletionEffect :=
  match c.kind with
  | .pirin => onPirinComplete p c.result
  | .data => onDataComplete A p c.result

def completeAll (A : Arch) (p : ResultPolicy) (h : List Completion) : ResultPolicy :=
  h.foldl (fun p c => (complete A p c).policy) p

def alertsOf (A : Arch) (p : ResultPolicy) (before : List Completion) (c : Completion) :
    List UInt8 :=
  (complete A (completeAll A p before) c).alerts

/-! ### What a completion says -/

def responseValue (A : Arch) (r : TcpResult) : Option ℤ :=
  if r.status = .ok ∧ r.command = wireCmdResponse ∧ r.crcValid = true then responseResult A r.data
  else none

namespace Completion

variable (A : Arch)

def value (c : Completion) : Option ℤ :=
  if c.kind = .data then responseValue A c.result else none

def pirinOk (c : Completion) : Bool :=
  c.kind = .pirin && c.result.status = .ok && c.result.command = wireCmdPirin

def danger (c : Completion) : Bool := (c.value A).any (· ≠ 4)

/-- The completion brings a normal result, or is an accepted PIRIN. -/
def clears (c : Completion) : Bool := c.value A = some 4 || c.pirinOk

end Completion

def dangersSince (A : Arch) (h : List Completion) : ℕ :=
  streak (Completion.danger A) (Completion.clears A) h

def FewDangers (A : Arch) (h : List Completion) : Prop :=
  ∀ before after, h = before ++ after → dangersSince A before < 2 ^ 32

/-! ### One completion -/

section Step

variable {A : Arch} {p : ResultPolicy} {c : Completion}

theorem complete_of_value {v : ℤ} (hv : c.value A = some v) :
    (complete A p c).policy = (p.onResult v).1 ∧ (complete A p c).alerts = (p.onResult v).2 := by
  unfold Completion.value at hv
  split at hv
  · next hkind =>
      unfold responseValue at hv
      split at hv
      · next hok =>
          obtain ⟨hstatus, hcommand, hcrc⟩ := hok
          simp [complete, hkind, onDataComplete, hstatus, hcommand, hcrc, ResultPolicy.onResponse,
            hv]
      · exact absurd hv (by simp)
  · exact absurd hv (by simp)

theorem complete_of_pirinOk (hc : c.pirinOk = true) :
    (complete A p c).policy = p.reset ∧ (complete A p c).alerts = [] := by
  simp only [Completion.pirinOk, Bool.and_eq_true, decide_eq_true_eq] at hc
  obtain ⟨⟨hkind, hstatus⟩, hcommand⟩ := hc
  simp [complete, hkind, onPirinComplete, hstatus, hcommand]

theorem complete_of_none (hv : c.value A = none) (hc : c.pirinOk = false) :
    (complete A p c).policy = p ∧ (complete A p c).alerts = [] := by
  obtain ⟨kind, r⟩ := c
  cases kind with
  | pirin =>
      have hok : (decide (r.status = .ok) && decide (r.command = wireCmdPirin)) = false := by
        simpa [Completion.pirinOk] using hc
      simp [complete, onPirinComplete, hok]
  | data =>
      simp only [Completion.value, if_true, responseValue] at hv
      simp only [complete, onDataComplete]
      by_cases hresponse : r.status = .ok ∧ r.command = wireCmdResponse
      · rw [if_pos hresponse]
        cases hcrc : r.crcValid with
        | false => simp [ResultPolicy.onResponse]
        | true =>
            rw [if_pos ⟨hresponse.1, hresponse.2, hcrc⟩] at hv
            simp [ResultPolicy.onResponse, hv]
      · rw [if_neg hresponse]
        exact ⟨rfl, rfl⟩

theorem value_of_danger (hc : c.danger A = true) : ∃ v, c.value A = some v ∧ v ≠ 4 := by
  simpa [Completion.danger, Option.any_eq_true] using hc

theorem pirinOk_of_value {v : ℤ} (hv : c.value A = some v) : c.pirinOk = false := by
  unfold Completion.value at hv
  split at hv
  · next hkind => simp [Completion.pirinOk, hkind]
  · exact absurd hv (by simp)

theorem not_clears_of_danger (hc : c.danger A = true) : c.clears A = false := by
  obtain ⟨v, hv, hne⟩ := value_of_danger hc
  simp [Completion.clears, hv, hne, pirinOk_of_value hv]

/-- A completion that is neither a danger nor clears the count. -/
theorem value_of_other (hclears : c.clears A = false) (hdanger : c.danger A = false) :
    c.value A = none ∧ c.pirinOk = false := by
  simp only [Completion.clears, Bool.or_eq_false_iff, decide_eq_false_iff_not] at hclears
  refine ⟨?_, hclears.2⟩
  cases hv : c.value A with
  | none => rfl
  | some v =>
      have hne : v ≠ 4 := fun h => hclears.1 (by rw [hv, h])
      simp [Completion.danger, hv, hne] at hdanger

end Step

/-! ### Sequences of completions -/

section Sequences

variable {A : Arch} {p : ResultPolicy}

theorem completeAll_concat (h : List Completion) (c : Completion) :
    completeAll A p (h ++ [c]) = (complete A (completeAll A p h) c).policy := by
  simp [completeAll]

theorem complete_frame (p : ResultPolicy) (c : Completion) :
    (complete A p c).policy.role = p.role ∧ (complete A p c).policy.onAlert = p.onAlert ∧
      (complete A p c).policy.dangerCountThreshold = p.dangerCountThreshold := by
  cases hv : c.value A with
  | some v =>
      rw [(complete_of_value hv).1]
      simp only [ResultPolicy.onResult]
      split
      · split <;> exact ⟨rfl, rfl, rfl⟩
      · exact ⟨rfl, rfl, rfl⟩
  | none =>
      cases hc : c.pirinOk with
      | true =>
          rw [(complete_of_pirinOk hc).1]
          exact ⟨rfl, rfl, rfl⟩
      | false =>
          rw [(complete_of_none hv hc).1]
          exact ⟨rfl, rfl, rfl⟩

theorem completeAll_frame (p : ResultPolicy) (h : List Completion) :
    (completeAll A p h).role = p.role ∧ (completeAll A p h).onAlert = p.onAlert ∧
      (completeAll A p h).dangerCountThreshold = p.dangerCountThreshold := by
  induction h using List.reverseRecOn with
  | nil => exact ⟨rfl, rfl, rfl⟩
  | append_singleton h c ih =>
      obtain ⟨hrole, halert, hthreshold⟩ := @complete_frame A (completeAll A p h) c
      rw [completeAll_concat]
      exact ⟨hrole.trans ih.1, halert.trans ih.2.1, hthreshold.trans ih.2.2⟩

theorem complete_of_clears {c : Completion} (hrole : p.role = .stream) (hc : c.clears A = true) :
    (complete A p c).policy.dangerCount = 0 ∧ (complete A p c).alerts = [] := by
  simp only [Completion.clears, Bool.or_eq_true, decide_eq_true_eq] at hc
  rcases hc with hv | hc
  · obtain ⟨hpolicy, halerts⟩ := @complete_of_value A p c 4 hv
    rw [hpolicy, halerts]
    simp [ResultPolicy.onResult, hrole]
  · obtain ⟨hpolicy, halerts⟩ := @complete_of_pirinOk A p c hc
    rw [hpolicy, halerts]
    exact ⟨rfl, rfl⟩

theorem complete_of_danger {c : Completion} (hrole : p.role = .stream) (hc : c.danger A = true) :
    (complete A p c).policy.dangerCount = p.dangerCount + 1 ∧
      (complete A p c).alerts =
        if p.dangerCountThreshold ≤ p.dangerCount + 1 then p.alert 83 else [] := by
  obtain ⟨v, hv, hne⟩ := value_of_danger hc
  obtain ⟨hpolicy, halerts⟩ := @complete_of_value A p c v hv
  rw [hpolicy, halerts]
  simp [ResultPolicy.onResult, hrole, hne, ResultPolicy.alert]

theorem count_eq_dangersSince (hrole : p.role = .stream) (hzero : p.dangerCount = 0)
    {h : List Completion} (hfew : FewDangers A h) :
    (completeAll A p h).dangerCount.toNat = dangersSince A h := by
  induction h using List.reverseRecOn with
  | nil => simp [completeAll, hzero, dangersSince]
  | append_singleton h c ih =>
      have hprev := ih fun before after hsplit =>
        hfew before (after ++ [c]) (by rw [hsplit, List.append_assoc])
      have hrole' := (@completeAll_frame A p h).1
      rw [completeAll_concat, dangersSince]
      cases hclears : c.clears A with
      | true =>
          rw [streak_concat_clear h hclears, (complete_of_clears (hrole'.trans hrole) hclears).1]
          rfl
      | false =>
          cases hdanger : c.danger A with
          | true =>
              have hlt := hfew (h ++ [c]) [] (by simp)
              rw [dangersSince, streak_concat_hit h hclears hdanger] at hlt
              rw [streak_concat_hit h hclears hdanger,
                (complete_of_danger (hrole'.trans hrole) hdanger).1, UInt32.toNat_add, hprev]
              exact Nat.mod_eq_of_lt hlt
          | false =>
              obtain ⟨hv, hpirin⟩ := value_of_other hclears hdanger
              rw [streak_concat_other h hclears hdanger, (complete_of_none hv hpirin).1, hprev]
              rfl

end Sequences

/-- What the completions `h` do in a Stream session: the count is the number of
dangers since it was last cleared, the alert, if there is a callback for it, comes
with the dangers that bring it to the threshold, and other completions do nothing. -/
def StreamLaw (A : Arch) (threshold : UInt32) (p : ResultPolicy) (h : List Completion) : Prop :=
  ∀ before after, h = before ++ after →
    (completeAll A p before).dangerCount.toNat = dangersSince A before ∧
      ∀ c rest, after = c :: rest →
        (alertsOf A p before c =
          if c.danger A = true ∧ threshold.toNat ≤ dangersSince A (before ++ [c]) then p.alert 83
          else []) ∧
        (c.danger A = false → c.clears A = false →
          completeAll A p (before ++ [c]) = completeAll A p before)

/-- What they do in a Voice session: the count stays zero, and the alert comes
with every danger. -/
def VoiceLaw (A : Arch) (p : ResultPolicy) (h : List Completion) : Prop :=
  ∀ before after, h = before ++ after →
    (completeAll A p before).dangerCount = 0 ∧
      ∀ c rest, after = c :: rest →
        alertsOf A p before c = if c.danger A = true then p.alert 86 else []

section Laws

variable {A : Arch} {p : ResultPolicy}

theorem streamLaw_of_few (hrole : p.role = .stream) (hzero : p.dangerCount = 0)
    {h : List Completion} (hfew : FewDangers A h) :
    StreamLaw A p.dangerCountThreshold p h := by
  rintro before after rfl
  have hfewBefore : FewDangers A before := fun b a hsplit =>
    hfew b (a ++ after) (by rw [hsplit, List.append_assoc])
  have hcount := count_eq_dangersSince hrole hzero hfewBefore
  refine ⟨hcount, ?_⟩
  rintro c rest rfl
  obtain ⟨hrole', halert', hthreshold⟩ := @completeAll_frame A p before
  have hfewNext : FewDangers A (before ++ [c]) := fun b a hsplit =>
    hfew b (a ++ rest) (by rw [← List.append_assoc, ← hsplit, List.append_assoc]; rfl)
  have hnext := count_eq_dangersSince hrole hzero hfewNext
  rw [completeAll_concat] at hnext
  cases hdanger : c.danger A with
  | true =>
      obtain ⟨hpolicy, halerts⟩ := complete_of_danger (hrole'.trans hrole) hdanger
      rw [hpolicy] at hnext
      refine ⟨?_, fun h => absurd h (by simp)⟩
      rw [alertsOf, halerts, hthreshold, ← hnext, ResultPolicy.alert, halert', ← ResultPolicy.alert]
      simp only [true_and, UInt32.le_iff_toNat_le]
  | false =>
      refine ⟨?_, fun _ hclears => ?_⟩
      · rw [if_neg (by simp), alertsOf]
        cases hclears : c.clears A with
        | true => exact (complete_of_clears (hrole'.trans hrole) hclears).2
        | false =>
            obtain ⟨hv, hpirin⟩ := value_of_other hclears hdanger
            exact (complete_of_none hv hpirin).2
      · obtain ⟨hv, hpirin⟩ := value_of_other hclears hdanger
        rw [completeAll_concat, (complete_of_none hv hpirin).1]

theorem complete_voice {c : Completion} (hrole : p.role = .voice) (hzero : p.dangerCount = 0) :
    (complete A p c).policy.dangerCount = 0 ∧
      (complete A p c).alerts = if c.danger A = true then p.alert 86 else [] := by
  cases hv : c.value A with
  | some v =>
      obtain ⟨hpolicy, halerts⟩ := @complete_of_value A p c v hv
      rw [hpolicy, halerts]
      by_cases h4 : v = 4
      · simp [ResultPolicy.onResult, hrole, hzero, Completion.danger, hv, h4]
      · simp [ResultPolicy.onResult, hrole, hzero, Completion.danger, hv, h4]
  | none =>
      have hdanger : c.danger A = false := by simp [Completion.danger, hv]
      rw [hdanger]
      cases hc : c.pirinOk with
      | true =>
          obtain ⟨hpolicy, halerts⟩ := @complete_of_pirinOk A p c hc
          rw [hpolicy, halerts]
          exact ⟨rfl, rfl⟩
      | false =>
          obtain ⟨hpolicy, halerts⟩ := @complete_of_none A p c hv hc
          rw [hpolicy, halerts]
          exact ⟨hzero, rfl⟩

theorem voiceLaw (hrole : p.role = .voice) (hzero : p.dangerCount = 0) (h : List Completion) :
    VoiceLaw A p h := by
  have hcount (before : List Completion) : (completeAll A p before).dangerCount = 0 := by
    induction before using List.reverseRecOn with
    | nil => exact hzero
    | append_singleton before c ih =>
        have hrole' := (@completeAll_frame A p before).1
        rw [completeAll_concat]
        exact (complete_voice (hrole'.trans hrole) ih).1
  rintro before after -
  refine ⟨hcount before, fun c rest _ => ?_⟩
  obtain ⟨hrole', halert', -⟩ := @completeAll_frame A p before
  rw [alertsOf, (complete_voice (hrole'.trans hrole) (hcount before)).2, ResultPolicy.alert, halert',
    ← ResultPolicy.alert]

/-- Danger counting over whole sessions, with the policy that the session was
created with, whether or not this has a callback for its alerts. -/
theorem danger_counting {role : Role} {threshold : UInt32} {onAlert : Bool}
    (hcreate : ResultPolicy.create role threshold onAlert = .ok p) (h : List Completion) :
    match role with
    | .stream => FewDangers A h → StreamLaw A threshold p h
    | .voice => VoiceLaw A p h := by
  unfold ResultPolicy.create at hcreate
  split at hcreate
  · exact absurd hcreate (by simp)
  · cases hcreate
    cases role with
    | stream => exact fun hfew => streamLaw_of_few rfl rfl hfew
    | voice => exact voiceLaw rfl rfl h

end Laws

/-! ### Two sequences -/

/-- A response with a body, in answer to a packet of the session. -/
def answered (kind : CompletionKind) (body : String) : Completion :=
  ⟨kind, ⟨.ok, 83, wireCmdResponse, true, CJson.ascii body⟩⟩

/-- A policy that raises the alert with the second danger. -/
def secondDanger : ResultPolicy := ⟨.stream, 2, 0, true, fun _ => by decide⟩

/-- Two dangers, one with a bare and one with a quoted name, and a normal result
between two more. -/
def fiveAnswers : List Completion :=
  [answered .data "\x7bresult:7\x7d", answered .data "\x7b\"result\":\"5\"\x7d",
    answered .data "\x7bresult: 4\x7d", answered .data "\x7bresult:7\x7d", answered .pirin "x"]

theorem fewDangers_of_length {A : Arch} {h : List Completion} (hlen : h.length < 2 ^ 32) :
    FewDangers A h := by
  rintro before after rfl
  have hle := @streak_le_length _ (Completion.danger A) (Completion.clears A) before
  rw [List.length_append] at hlen
  rw [dangersSince]
  omega

theorem danger_counting_five :
    StreamLaw .lp64 2 secondDanger fiveAnswers ∧
      alertsOf .lp64 secondDanger (fiveAnswers.take 1) (answered .data "\x7b\"result\":\"5\"\x7d") =
        [83] ∧
      (completeAll .lp64 secondDanger fiveAnswers).dangerCount = 1 := by
  have hcreate : ResultPolicy.create .stream 2 true = .ok secondDanger := rfl
  exact ⟨danger_counting hcreate fiveAnswers (fewDangers_of_length (by decide)),
    by decide +kernel, by decide +kernel⟩

/-- A danger in answer to a PIRIN is not counted. -/
theorem pirin_answer_not_counted :
    ResultPolicy.create .stream 2 true = .ok secondDanger ∧
      streak (fun c => (responseValue .lp64 c.result).any (· ≠ 4))
        (fun c => responseValue .lp64 c.result = some 4 || c.pirinOk)
        [answered .pirin "\x7bresult:7\x7d"] = 1 ∧
      (completeAll .lp64 secondDanger [answered .pirin "\x7bresult:7\x7d"]).dangerCount = 0 :=
  ⟨rfl, by decide +kernel, by decide +kernel⟩

end Savvy.Stream
