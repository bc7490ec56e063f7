import Mathlib.Tactic.Common

/-!
Transition systems whose steps are computed. An action either is not enabled
in a state (`none`) or leads to one next state; everything that is not under
the program's control, such as the scheduler or the result of a system call,
is part of the action. Safety of a program is a statement about the states
reached by any sequence of actions, and sometimes only by sequences whose
actions all satisfy a side condition, so reachability carries that condition.
-/

namespace Savvy.Kit

/-- A transition system with computed steps. -/
structure System (σ α : Type*) where
  init : σ
  step : σ → α → Option σ

namespace System

variable {σ α : Type*} (T : System σ α)

inductive ReachBy (ok : σ → α → Prop) : σ → Prop
  | init : ReachBy ok T.init
  | step {s s' : σ} {a : α} (h : ReachBy ok s) (hok : ok s a)
      (hs : T.step s a = some s') : ReachBy ok s'

def Reach : σ → Prop := T.ReachBy fun _ _ => True

/-- The state after a whole list of actions, if each of them is enabled. -/
def run : σ → List α → Option σ
  | s, [] => some s
  | s, a :: as => (T.step s a).bind fun s' => run s' as

/-- The same, if each of them satisfies `ok` too. -/
def runBy (ok : σ → α → Prop) [∀ s a, Decidable (ok s a)] : σ → List α → Option σ
  | s, [] => some s
  | s, a :: as => if ok s a then (T.step s a).bind fun s' => runBy ok s' as else none

/-- Every step of a sequence of actions satisfies `ok`. The sequence ends with the
first action that is not enabled. -/
def Along (ok : σ → α → Prop) : σ → List α → Prop
  | _, [] => True
  | s, a :: as => ∀ s' ∈ T.step s a, ok s a ∧ Along ok s' as

def Throughout (P : σ → Prop) : σ → List α → Prop
  | s, [] => P s
  | s, a :: as => P s ∧ ∀ s' ∈ T.step s a, Throughout P s' as

instance decidableAlong (ok : σ → α → Prop) [∀ s a, Decidable (ok s a)] :
    ∀ s as, Decidable (T.Along ok s as)
  | _, [] => isTrue trivial
  | s, a :: as =>
      have : ∀ s', Decidable (T.Along ok s' as) := fun s' => decidableAlong ok s' as
      inferInstanceAs (Decidable (∀ s' ∈ T.step s a, ok s a ∧ T.Along ok s' as))

variable {T}

/-- The invariant rule: a predicate that holds initially and is kept by every
step satisfying the side condition holds in every state reached that way. -/
theorem ReachBy.invariant {ok : σ → α → Prop} {I : σ → Prop} (h0 : I T.init)
    (hstep : ∀ s a s', I s → ok s a → T.step s a = some s' → I s') {s : σ}
    (h : T.ReachBy ok s) : I s := by
  induction h with
  | init => exact h0
  | step _ hok hs ih => exact hstep _ _ _ ih hok hs

theorem ReachBy.mono {ok ok' : σ → α → Prop} (hle : ∀ s a, ok s a → ok' s a) {s : σ}
    (h : T.ReachBy ok s) : T.ReachBy ok' s := by
  induction h with
  | init => exact .init
  | step _ hok hs ih => exact .step ih (hle _ _ hok) hs

theorem ReachBy.reach {ok : σ → α → Prop} {s : σ} (h : T.ReachBy ok s) : T.Reach s :=
  h.mono fun _ _ _ => trivial

theorem Reach.invariant {I : σ → Prop} (h0 : I T.init)
    (hstep : ∀ s a s', I s → T.step s a = some s' → I s') {s : σ} (h : T.Reach s) : I s :=
  ReachBy.invariant h0 (fun s a s' hI _ hs => hstep s a s' hI hs) h

/-- What follows from an invariant and `ok` at each step holds of every step. -/
theorem Along.imp {ok good : σ → α → Prop} {I : σ → Prop}
    (hstep : ∀ s a s', I s → ok s a → T.step s a = some s' → I s' ∧ good s a)
    (as : List α) {s : σ} (hI : I s) (h : T.Along ok s as) : T.Along good s as := by
  induction as generalizing s with
  | nil => trivial
  | cons a as ih =>
      intro s' hs
      obtain ⟨hok, hrest⟩ := h s' hs
      obtain ⟨hI', hgood⟩ := hstep s a s' hI hok hs
      exact ⟨hgood, ih hI' hrest⟩

/-- Where, on top of an invariant, a property is kept by exactly the steps that
satisfy `good`, it holds throughout exactly the runs of such steps. -/
theorem throughout_iff_along {ok good : σ → α → Prop} {I P : σ → Prop}
    (hstep : ∀ s a s', I s → ok s a → T.step s a = some s' →
      I s' ∧ (P s → (P s' ↔ good s a)))
    (as : List α) {s : σ} (hI : I s) (hP : P s) (hok : T.Along ok s as) :
    T.Throughout P s as ↔ T.Along good s as := by
  induction as generalizing s with
  | nil => exact iff_of_true hP trivial
  | cons a as ih =>
      rw [Throughout, Along, and_iff_right hP]
      refine forall₂_congr fun s' hs => ?_
      obtain ⟨hoka, hrest⟩ := hok s' hs
      obtain ⟨hI', hgood⟩ := hstep s a s' hI hoka hs
      constructor
      · intro hthr
        have hP' : P s' := by
          cases as with
          | nil => exact hthr
          | cons b bs => exact hthr.1
        exact ⟨(hgood hP).mp hP', (ih hI' hP' hrest).mp hthr⟩
      · rintro ⟨hgooda, halong⟩
        have hP' : P s' := (hgood hP).mpr hgooda
        exact (ih hI' hP' hrest).mpr halong

theorem reach_of_run {s s' : σ} {as : List α} (h : T.Reach s) (hrun : T.run s as = some s') :
    T.Reach s' := by
  induction as generalizing s with
  | nil =>
      simp only [run, Option.some.injEq] at hrun
      exact hrun ▸ h
  | cons a as ih =>
      simp only [run, Option.bind_eq_some_iff] at hrun
      obtain ⟨m, hm, hrest⟩ := hrun
      exact ih (.step h trivial hm) hrest

theorem reachBy_of_runBy {ok : σ → α → Prop} [∀ s a, Decidable (ok s a)] {s s' : σ}
    {as : List α} (h : T.ReachBy ok s) (hrun : T.runBy ok s as = some s') : T.ReachBy ok s' := by
  induction as generalizing s with
  | nil =>
      simp only [runBy, Option.some.injEq] at hrun
      exact hrun ▸ h
  | cons a as ih =>
      simp only [runBy] at hrun
      split at hrun
      · rename_i hok
        simp only [Option.bind_eq_some_iff] at hrun
        obtain ⟨m, hm, hrest⟩ := hrun
        exact ih (.step h hok hm) hrest
      · simp at hrun

end System

end Savvy.Kit
