import Savvy.Core.SizeT
import Savvy.Json.DataResult
import Savvy.Kit.Buffer

/-!
The result policy (`src/features/result_policy/result_policy.c`): it reads the
responses of the server, counts the dangers of a Stream channel since the last
normal result, and raises an alert. The counter is a `uint32_t`. Memory
allocation succeeds here; `Savvy.Stream.ParserInput` has the case that it fails.
-/

namespace Savvy.Stream

open CJson

inductive Role
  | stream
  | voice
  deriving DecidableEq, Repr

/-! ### The text of a response -/

def isWs (b : UInt8) : Bool := b = 32 || b = 9 || b = 10 || b = 13

/-- The offset behind the white space from offset `i` on. -/
def skipWs (body : List UInt8) (i : ℕ) : ℕ := i + ((body.drop i).takeWhile isWs).length

/-- `find_unquoted_result_key`: the offsets of the key and of its end. -/
def findUnquotedResultKey (body : List UInt8) : Option (ℕ × ℕ) :=
  let i := skipWs body 0
  if body[i]? ≠ some 123 then none
  else
    let keyStart := skipWs body (i + 1)
    if Kit.slice body keyStart (keyStart + 6) ≠ ascii "result" then none
    else
      let keyEnd := keyStart + 6
      if body[skipWs body keyEnd]? ≠ some 58 then none else some (keyStart, keyEnd)

/-- `make_parser_input`: the text without its terminator. -/
def makeParserInput (A : Arch) (body : List UInt8) : Except Status (List UInt8) :=
  let key := findUnquotedResultKey body
  let extra := if key.isSome then 2 else 0
  if A.sizeBound - 1 - extra - 1 < body.length then .error .overflow
  else
    match key with
    | none => .ok body
    | some (keyStart, keyEnd) =>
        .ok (body.take keyStart ++ 34 :: Kit.slice body keyStart keyEnd ++ 34 :: body.drop keyEnd)

def responseResult (A : Arch) (body : List UInt8) : Option ℤ :=
  if body = [] then none
  else
    match makeParserInput A body with
    | .error _ => none
    | .ok text => (dataResultParse text).toOption

/-! ### The policy -/

/-- `struct sensor_result_policy`; `onAlert` says whether there is a callback.
The threshold of a Stream channel is not zero. -/
structure ResultPolicy where
  role : Role
  dangerCountThreshold : UInt32
  dangerCount : UInt32
  onAlert : Bool
  threshold_pos : role = .stream → 0 < dangerCountThreshold

def ResultPolicy.create (role : Role) (threshold : UInt32) (onAlert : Bool) :
    Except Status ResultPolicy :=
  if h : role = .stream ∧ threshold = 0 then .error .invalidArgument
  else
    .ok ⟨role, threshold, 0, onAlert,
      fun hrole => UInt32.pos_iff_ne_zero.mpr fun hzero => h ⟨hrole, hzero⟩⟩

namespace ResultPolicy

def reset (p : ResultPolicy) : ResultPolicy := { p with dangerCount := 0 }

def alert (p : ResultPolicy) (start : UInt8) : List UInt8 := if p.onAlert then [start] else []

/-- `sensor_result_policy_on_response` from the value of the response on: the
policy and the alerts raised. -/
def onResult (p : ResultPolicy) (result : ℤ) : ResultPolicy × List UInt8 :=
  match p.role with
  | .stream =>
      if result = 4 then ({ p with dangerCount := 0 }, [])
      else
        let p := { p with dangerCount := p.dangerCount + 1 }
        (p, if p.dangerCountThreshold ≤ p.dangerCount then p.alert 83 else [])
  | .voice => (p, if result = 4 then [] else p.alert 86)

/-- `sensor_result_policy_on_response`; a null pointer is `none`. Where the copy of
the body cannot be allocated the code does nothing: `onResponseAt`, which has that
case too, agrees with this function in all others (`onResponseAt_eq`). -/
def onResponse (A : Arch) (p : ResultPolicy) (body : Option (List UInt8)) :
    ResultPolicy × List UInt8 :=
  match body.bind (responseResult A) with
  | none => (p, [])
  | some result => p.onResult result

end ResultPolicy

/-! ### Runs of calls -/

inductive PolicyCall
  | response (body : Option (List UInt8))
  | reset

def PolicyCall.result (A : Arch) : PolicyCall → Option ℤ
  | .response body => body.bind (responseResult A)
  | .reset => none

def PolicyCall.danger (A : Arch) (c : PolicyCall) : Bool := (c.result A).any (· ≠ 4)

/-- The call brings a normal result, or is a reset. -/
def PolicyCall.clears (A : Arch) : PolicyCall → Bool
  | .response body => body.bind (responseResult A) = some 4
  | .reset => true

namespace ResultPolicy

variable {A : Arch} {p : ResultPolicy} {c : PolicyCall}

/-- One call: the policy behind it and the alerts it raises. -/
def call (A : Arch) (p : ResultPolicy) : PolicyCall → ResultPolicy × List UInt8
  | .response body => p.onResponse A body
  | .reset => (p.reset, [])

def run (A : Arch) (p : ResultPolicy) (calls : List PolicyCall) : ResultPolicy :=
  calls.foldl (fun p c => (p.call A c).1) p

def alertsAt (A : Arch) (p : ResultPolicy) (before : List PolicyCall) (c : PolicyCall) :
    List UInt8 :=
  ((p.run A before).call A c).2

theorem run_concat (p : ResultPolicy) (calls : List PolicyCall) (c : PolicyCall) :
    p.run A (calls ++ [c]) = ((p.run A calls).call A c).1 := by
  simp [run]

theorem call_frame (p : ResultPolicy) (c : PolicyCall) :
    (p.call A c).1.role = p.role ∧ (p.call A c).1.onAlert = p.onAlert ∧
      (p.call A c).1.dangerCountThreshold = p.dangerCountThreshold := by
  cases c with
  | reset => exact ⟨rfl, rfl, rfl⟩
  | response body =>
      simp only [call, onResponse]
      split
      · exact ⟨rfl, rfl, rfl⟩
      · simp only [onResult]
        split
        · split <;> exact ⟨rfl, rfl, rfl⟩
        · exact ⟨rfl, rfl, rfl⟩

theorem run_frame (p : ResultPolicy) (calls : List PolicyCall) :
    (p.run A calls).role = p.role ∧ (p.run A calls).onAlert = p.onAlert ∧
      (p.run A calls).dangerCountThreshold = p.dangerCountThreshold := by
  induction calls generalizing p with
  | nil => exact ⟨rfl, rfl, rfl⟩
  | cons c calls ih =>
      obtain ⟨hrole, halert, hthreshold⟩ := @call_frame A p c
      obtain ⟨hrole', halert', hthreshold'⟩ := ih (p.call A c).1
      exact ⟨hrole'.trans hrole, halert'.trans halert, hthreshold'.trans hthreshold⟩

theorem call_of_clears (hrole : p.role = .stream) (hc : c.clears A = true) :
    (p.call A c).1.dangerCount = 0 ∧ (p.call A c).2 = [] := by
  cases c with
  | reset => exact ⟨rfl, rfl⟩
  | response body =>
      have hbody : body.bind (responseResult A) = some 4 := by
        simpa [PolicyCall.clears] using hc
      simp [call, onResponse, hbody, onResult, hrole]

theorem call_of_danger (hrole : p.role = .stream) (hc : c.danger A = true) :
    (p.call A c).1.dangerCount = p.dangerCount + 1 ∧
      (p.call A c).2 =
        if p.dangerCountThreshold ≤ p.dangerCount + 1 then p.alert 83 else [] := by
  cases c with
  | reset => simp [PolicyCall.danger, PolicyCall.result] at hc
  | response body =>
      obtain ⟨v, hbody, hv⟩ : ∃ v, body.bind (responseResult A) = some v ∧ v ≠ 4 := by
        simpa [PolicyCall.danger, PolicyCall.result, Option.any_eq_true] using hc
      simp only [call, onResponse, hbody, onResult, hrole, if_neg hv, alert]
      exact ⟨trivial, trivial⟩

theorem call_of_other (hclears : c.clears A = false) (hdanger : c.danger A = false) :
    p.call A c = (p, []) := by
  cases c with
  | reset => simp [PolicyCall.clears] at hclears
  | response body =>
      cases hbody : body.bind (responseResult A) with
      | none => simp [call, onResponse, hbody]
      | some v =>
          have hne : v ≠ 4 := by
            rintro rfl
            simp [PolicyCall.clears, hbody] at hclears
          simp [PolicyCall.danger, PolicyCall.result, hbody, hne] at hdanger

theorem not_clears_of_danger (hc : c.danger A = true) : c.clears A = false := by
  cases c with
  | reset => simp [PolicyCall.danger, PolicyCall.result] at hc
  | response body =>
      obtain ⟨v, hbody, hv⟩ : ∃ v, body.bind (responseResult A) = some v ∧ v ≠ 4 := by
        simpa [PolicyCall.danger, PolicyCall.result, Option.any_eq_true] using hc
      simp [PolicyCall.clears, hbody, hv]

end ResultPolicy

end Savvy.Stream
