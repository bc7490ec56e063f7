import Mathlib.Data.List.Induction
import Savvy.Stream.ResultPolicy

/-!
The alarm of a Stream channel over runs of calls. Once the count has reached the
threshold, every further danger should raise the alert again, until a normal
result or a reset. The count only grows in between, so this fails in one way
only: a danger that finds the largest `uint32_t` in the counter sets it to zero.
-/

namespace Savvy.Stream.ResultPolicy

open CJson

variable {A : Arch} {p : ResultPolicy}

/-- A danger behind an alert raises the alert, if no call in between clears the
count. -/
def Latches (A : Arch) (p : ResultPolicy) (calls : List PolicyCall) : Prop :=
  ∀ before c between d after, calls = before ++ c :: between ++ d :: after →
    p.alertsAt A before c = [83] → (∀ e ∈ between, e.clears A = false) → d.danger A = true →
      p.alertsAt A (before ++ c :: between) d = [83]

/-- No danger finds the counter at its largest value. -/
def NeverFull (A : Arch) (p : ResultPolicy) (calls : List PolicyCall) : Prop :=
  ∀ before d after, calls = before ++ d :: after → d.danger A = true →
    (p.run A before).dangerCount ≠ 4294967295

structure Armed (p : ResultPolicy) : Prop where
  role : p.role = .stream
  onAlert : p.onAlert = true

theorem create_armed {threshold : UInt32} (h : create .stream threshold true = .ok p) :
    Armed p ∧ p.dangerCount = 0 := by
  unfold create at h
  split at h
  · exact absurd h (by simp)
  · cases h
    exact ⟨⟨rfl, rfl⟩, rfl⟩

namespace Armed

theorem threshold_pos (hp : Armed p) : 0 < p.dangerCountThreshold := p.threshold_pos hp.role

theorem run (hp : Armed p) (calls : List PolicyCall) : Armed (p.run A calls) := by
  obtain ⟨hrole, halert, -⟩ := @run_frame A p calls
  exact ⟨hrole.trans hp.role, halert.trans hp.onAlert⟩

theorem alertsAt_danger (hp : Armed p) (before : List PolicyCall) {d : PolicyCall}
    (hd : d.danger A = true) :
    p.alertsAt A before d =
      if p.dangerCountThreshold ≤ (p.run A before).dangerCount + 1 then [83] else [] := by
  have hrun := hp.run (A := A) before
  obtain ⟨-, -, hthreshold⟩ := @run_frame A p before
  rw [alertsAt, (call_of_danger hrun.role hd).2, hthreshold, alert, hrun.onAlert]
  rfl

theorem danger_of_alert (hp : Armed p) {before : List PolicyCall} {c : PolicyCall}
    (h : p.alertsAt A before c = [83]) : c.danger A = true := by
  cases hdanger : c.danger A with
  | true => rfl
  | false =>
      have hnone : p.alertsAt A before c = [] := by
        cases hclears : c.clears A with
        | true => exact (call_of_clears (hp.run before).role hclears).2
        | false => rw [alertsAt, call_of_other hclears hdanger]
      rw [hnone] at h
      exact absurd h (by simp)

end Armed

theorem add_one_of_ne_max {n : UInt32} (h : n ≠ 4294967295) : (n + 1).toNat = n.toNat + 1 := by
  have hlt : n.toNat < 4294967296 := n.toNat_lt
  have hne : n.toNat ≠ 4294967295 := fun heq => h (UInt32.toNat_inj.mp heq)
  rw [UInt32.toNat_add]
  simp only [UInt32.reduceToNat]
  omega

/-- Without a clearing call and without a danger that finds it full, the counter
does not fall. -/
theorem count_mono (hp : Armed p) {before between : List PolicyCall}
    (hclears : ∀ e ∈ between, e.clears A = false)
    (hfull : ∀ b d a, between = b ++ d :: a → d.danger A = true →
      (p.run A (before ++ b)).dangerCount ≠ 4294967295) :
    (p.run A before).dangerCount ≤ (p.run A (before ++ between)).dangerCount := by
  induction between using List.reverseRecOn with
  | nil => simp
  | append_singleton between e ih =>
      have hle := ih (fun e' he' => hclears e' (List.mem_append_left _ he'))
        (fun b d a hsplit => hfull b d (a ++ [e]) (by simp [hsplit]))
      have he := hclears e (by simp)
      rw [← List.append_assoc, run_concat]
      cases hdanger : e.danger A with
      | false =>
          rw [call_of_other he hdanger]
          exact hle
      | true =>
          have hne := hfull between e [] rfl hdanger
          rw [(call_of_danger (hp.run _).role hdanger).1]
          rw [UInt32.le_iff_toNat_le] at hle ⊢
          rw [add_one_of_ne_max hne]
          omega

/-- A count that is not zero was reached by a danger, and no call has cleared it
since. -/
theorem last_danger (hp : Armed p) (hzero : p.dangerCount = 0) {calls : List PolicyCall}
    (hcount : (p.run A calls).dangerCount ≠ 0) :
    ∃ before c between, calls = before ++ c :: between ∧ c.danger A = true ∧
      (∀ e ∈ between, e.clears A = false) ∧
      (p.run A before).dangerCount + 1 = (p.run A calls).dangerCount := by
  induction calls using List.reverseRecOn with
  | nil => exact absurd hzero hcount
  | append_singleton calls e ih =>
      rw [run_concat] at hcount ⊢
      cases hclears : e.clears A with
      | true =>
          rw [(call_of_clears (hp.run _).role hclears).1] at hcount
          exact absurd rfl hcount
      | false =>
          cases hdanger : e.danger A with
          | true =>
              refine ⟨calls, e, [], rfl, hdanger, by simp, ?_⟩
              rw [(call_of_danger (hp.run _).role hdanger).1]
          | false =>
              rw [call_of_other hclears hdanger] at hcount ⊢
              obtain ⟨before, c, between, rfl, hc, hbetween, heq⟩ := ih hcount
              refine ⟨before, c, between ++ [e], by simp, hc, ?_, heq⟩
              intro e' he'
              rcases List.mem_append.mp he' with he' | he'
              · exact hbetween e' he'
              · rw [List.mem_singleton.mp he']
                exact hclears

theorem latches_of_neverFull (hp : Armed p) {calls : List PolicyCall}
    (hfull : NeverFull A p calls) : Latches A p calls := by
  rintro before c between d after rfl halert hclears hd
  have hc := hp.danger_of_alert halert
  have hreached : p.dangerCountThreshold ≤ (p.run A (before ++ [c])).dangerCount := by
    rw [hp.alertsAt_danger before hc] at halert
    rw [run_concat, (call_of_danger (hp.run _).role hc).1]
    by_contra hlt
    rw [if_neg hlt] at halert
    exact absurd halert (by simp)
  have hmono := @count_mono A p hp (before ++ [c]) between hclears
    (fun b e a hsplit he => hfull (before ++ [c] ++ b) e (a ++ d :: after) (by simp [hsplit]) he)
  have hne := hfull (before ++ c :: between) d after (by simp) hd
  rw [show before ++ [c] ++ between = before ++ c :: between by simp] at hmono
  rw [hp.alertsAt_danger _ hd, if_pos]
  rw [UInt32.le_iff_toNat_le] at hreached hmono ⊢
  rw [add_one_of_ne_max hne]
  omega

/-- The alarm latches in exactly those runs in which no danger finds the counter
at its largest value. -/
theorem latches_iff_neverFull {threshold : UInt32}
    (hcreate : create .stream threshold true = .ok p) (calls : List PolicyCall) :
    Latches A p calls ↔ NeverFull A p calls := by
  obtain ⟨hp, hzero⟩ := create_armed hcreate
  refine ⟨?_, latches_of_neverFull hp⟩
  rintro hlatch before d after rfl hd hmax
  -- the danger that filled the counter has raised the alert, this one does not
  obtain ⟨b, c, between, rfl, hc, hbetween, hcount⟩ :=
    @last_danger A p hp hzero before (by rw [hmax]; decide)
  have halert : p.alertsAt A b c = [83] := by
    rw [hp.alertsAt_danger b hc, hcount, hmax, if_pos]
    rw [UInt32.le_iff_toNat_le]
    have := p.dangerCountThreshold.toNat_lt
    simp only [UInt32.reduceToNat]
    omega
  have hagain := hlatch b c between d after (by simp) halert hbetween hd
  rw [hp.alertsAt_danger _ hd, hmax, if_neg] at hagain
  · exact absurd hagain (by simp)
  · exact UInt32.not_le.mpr hp.threshold_pos

theorem count_le_length (hp : Armed p) (hzero : p.dangerCount = 0) (calls : List PolicyCall) :
    (p.run A calls).dangerCount.toNat ≤ calls.length := by
  induction calls using List.reverseRecOn with
  | nil => simp [run, hzero]
  | append_singleton calls e ih =>
      rw [run_concat, List.length_append, List.length_singleton]
      cases hclears : e.clears A with
      | true => simp [(call_of_clears (hp.run _).role hclears).1]
      | false =>
          cases hdanger : e.danger A with
          | false =>
              rw [call_of_other hclears hdanger]
              exact Nat.le_succ_of_le ih
          | true =>
              rw [(call_of_danger (hp.run _).role hdanger).1, UInt32.toNat_add]
              have := Nat.mod_le ((p.run A calls).dangerCount.toNat + UInt32.toNat 1) (2 ^ 32)
              simp only [UInt32.reduceToNat] at this ⊢
              omega

def dangerCall : PolicyCall := .response (some (ascii "\x7bresult:7\x7d"))

theorem danger_dangerCall : dangerCall.danger .lp64 = true := by decide +kernel

def firstDanger : ResultPolicy := ⟨.stream, 1, 0, true, fun _ => by decide⟩

theorem armed_firstDanger : Armed firstDanger := ⟨rfl, rfl⟩

theorem latches_iff_neverFull_three :
    Latches .lp64 firstDanger [dangerCall, dangerCall, dangerCall] ∧
      alertsAt .lp64 firstDanger [dangerCall, dangerCall] dangerCall = [83] := by
  have hcreate : create .stream 1 true = .ok firstDanger := rfl
  refine ⟨(latches_iff_neverFull hcreate _).mpr ?_, by decide +kernel⟩
  intro before d after hsplit _ hmax
  have hle := @count_le_length .lp64 _ armed_firstDanger rfl before
  have hlen := congrArg List.length hsplit
  rw [hmax] at hle
  simp only [UInt32.reduceToNat] at hle
  simp only [List.length_append, List.length_cons, List.length_nil] at hlen
  omega

def dangers (n : ℕ) : List PolicyCall := List.replicate n dangerCall

theorem dangers_succ (n : ℕ) : dangers (n + 1) = dangers n ++ [dangerCall] :=
  List.replicate_succ'

theorem count_dangers (n : ℕ) :
    (firstDanger.run .lp64 (dangers n)).dangerCount = UInt32.ofNat n := by
  induction n with
  | zero => rfl
  | succ n ih =>
      have harmed := armed_firstDanger.run (A := .lp64) (dangers n)
      rw [dangers_succ, run_concat, (call_of_danger harmed.role danger_dangerCall).1, ih,
        UInt32.ofNat_add]
      rfl

/-- Behind `n + 1` dangers the next one raises the alert or not. -/
theorem alertsAt_dangers (n : ℕ) :
    firstDanger.alertsAt .lp64 (dangers n) dangerCall =
      if (1 : UInt32) ≤ UInt32.ofNat (n + 1) then [83] else [] := by
  rw [armed_firstDanger.alertsAt_danger _ danger_dangerCall, count_dangers, UInt32.ofNat_add]
  rfl

theorem clears_dangers {n : ℕ} : ∀ e ∈ dangers n, e.clears .lp64 = false := by
  intro e he
  rw [List.eq_of_mem_replicate he]
  exact not_clears_of_danger danger_dangerCall

theorem dangers_split (n : ℕ) :
    dangers (n + 2) = [] ++ dangerCall :: dangers n ++ dangerCall :: [] := by
  rw [dangers_succ, dangers, List.replicate_succ]
  rfl

/-- The first of `2 ^ 32` dangers raises the alert, the last one does not. -/
theorem latches_wrap_fails :
    firstDanger.alertsAt .lp64 [] dangerCall = [83] ∧
      firstDanger.alertsAt .lp64 (dangers 4294967295) dangerCall = [] ∧
      ¬ Latches .lp64 firstDanger (dangers 4294967296) := by
  have hfirst : firstDanger.alertsAt .lp64 [] dangerCall = [83] := alertsAt_dangers 0
  have hlast : firstDanger.alertsAt .lp64 (dangers 4294967295) dangerCall = [] :=
    alertsAt_dangers 4294967295
  refine ⟨hfirst, hlast, fun hlatch => ?_⟩
  have hagain := hlatch [] dangerCall (dangers 4294967294) dangerCall []
    (dangers_split 4294967294) hfirst clears_dangers danger_dangerCall
  have hcons : [] ++ dangerCall :: dangers 4294967294 = dangers 4294967295 := by
    rw [dangers, dangers, ← List.replicate_succ]
    rfl
  rw [hcons, hlast] at hagain
  exact absurd hagain (by simp)

end Savvy.Stream.ResultPolicy
