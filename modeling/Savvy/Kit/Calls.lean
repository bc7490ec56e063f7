import Mathlib.Tactic.Common

/-!
Programs that call out. A program is a tree: it has returned, or it makes a call
and goes on with the answer. What an answer can be is not up to the program, so
the tree branches over all of them, and a loop without a bound takes fuel and is
`unfinished` where the fuel has run out.

`Meets` is the one judgment about a program. A contract says which calls it
permits in a state and which answers can follow, and a program meets a
postcondition if it makes only permitted calls and returns, if it does, as the
postcondition says. The rules take a program apart at its binds, so a function
is proved once and its callers use the lemma.
-/

namespace Savvy.Kit

/-- A program over the calls `C`, where a call `c` is answered by an `R c`. -/
inductive Prog (C : Type) (R : C → Type) (α : Type)
  | ret (a : α)
  | call (c : C) (k : R c → Prog C R α)
  | unfinished

namespace Prog

variable {C : Type} {R : C → Type} {α β : Type}

def bind : Prog C R α → (α → Prog C R β) → Prog C R β
  | ret a, f => f a
  | call c k, f => call c fun r => (k r).bind f
  | unfinished, _ => unfinished

instance : Monad (Prog C R) where
  pure := ret
  bind := bind

def perform (c : C) : Prog C R (R c) := call c ret

@[simp] theorem pure_eq (a : α) : (pure a : Prog C R α) = ret a := rfl

@[simp] theorem ret_bind (a : α) (f : α → Prog C R β) : (ret a >>= f) = f a := rfl

@[simp] theorem call_bind (c : C) (k : R c → Prog C R α) (f : α → Prog C R β) :
    (call c k >>= f) = call c fun r => k r >>= f := rfl

@[simp] theorem unfinished_bind (f : α → Prog C R β) :
    ((unfinished : Prog C R α) >>= f) = unfinished := rfl

@[simp] theorem perform_bind (c : C) (f : R c → Prog C R β) : (perform c >>= f) = call c f := rfl

/-- Run a program with an oracle that keeps a state: the calls that were made with
their answers, the oracle's state, and the result if the program has returned. -/
def run {κ : Type} (oracle : κ → (c : C) → R c × κ) :
    Prog C R α → κ → List (Σ c, R c) × κ × Option α
  | ret a, s => ([], s, some a)
  | call c k, s =>
      let (r, s') := oracle s c
      let (tr, s'', res) := (k r).run oracle s'
      (⟨c, r⟩ :: tr, s'', res)
  | unfinished, s => ([], s, none)

end Prog

/-- What a program may rely on: the calls it may make, and what may follow a call. -/
structure Contract (C : Type) (R : C → Type) (σ : Type*) where
  permits : σ → C → Prop
  answers : σ → (c : C) → R c → σ → Prop

namespace Prog

variable {C : Type} {R : C → Type} {α β : Type} {σ : Type*} {W : Contract C R σ}

/-- From the state `s` the program makes only permitted calls, and where it
returns `Q` holds of its result and of the state. -/
def Meets (W : Contract C R σ) : Prog C R α → σ → (α → σ → Prop) → Prop
  | ret a, s, Q => Q a s
  | call c k, s, Q => W.permits s c ∧ ∀ r s', W.answers s c r s' → (k r).Meets W s' Q
  | unfinished, _, _ => True

@[simp] theorem meets_ret (a : α) (s : σ) (Q : α → σ → Prop) :
    (ret a : Prog C R α).Meets W s Q ↔ Q a s := Iff.rfl

@[simp] theorem meets_call (c : C) (k : R c → Prog C R α) (s : σ) (Q : α → σ → Prop) :
    (call c k).Meets W s Q ↔
      W.permits s c ∧ ∀ r s', W.answers s c r s' → (k r).Meets W s' Q := Iff.rfl

@[simp] theorem meets_unfinished (s : σ) (Q : α → σ → Prop) :
    (unfinished : Prog C R α).Meets W s Q := trivial

theorem Meets.mono {p : Prog C R α} {s : σ} {Q Q' : α → σ → Prop} (h : p.Meets W s Q)
    (hQ : ∀ a s, Q a s → Q' a s) : p.Meets W s Q' := by
  induction p generalizing s with
  | ret a => exact hQ a s h
  | call c k ih => exact ⟨h.1, fun r s' hr => ih r (h.2 r s' hr)⟩
  | unfinished => trivial

theorem Meets.bind {p : Prog C R α} {f : α → Prog C R β} {s : σ} {Q : α → σ → Prop}
    {Q' : β → σ → Prop} (h : p.Meets W s Q) (hf : ∀ a s, Q a s → (f a).Meets W s Q') :
    (p >>= f).Meets W s Q' := by
  induction p generalizing s with
  | ret a => exact hf a s h
  | call c k ih => exact ⟨h.1, fun r s' hr => ih r (h.2 r s' hr)⟩
  | unfinished => trivial

end Prog

/-- The call may be made in the state and does not change it. -/
def Contract.Steady {C : Type} {R : C → Type} {σ : Type*} (W : Contract C R σ) (s : σ) (c : C) :
    Prop :=
  W.permits s c ∧ ∀ r s', W.answers s c r s' → s' = s

variable {C : Type} {R : C → Type} {α : Type} {σ : Type*} {W : Contract C R σ}

theorem Prog.Meets.ask {c : C} {k : R c → Prog C R α} {s : σ} {Q : α → σ → Prop}
    (hc : W.permits s c) (hk : ∀ r s', W.answers s c r s' → (k r).Meets W s' Q) :
    (Prog.perform c >>= k).Meets W s Q :=
  ⟨hc, hk⟩

theorem Prog.Meets.steady {c : C} {k : R c → Prog C R α} {s : σ} {Q : α → σ → Prop}
    (hc : W.Steady s c) (hk : ∀ r, (k r).Meets W s Q) : (Prog.perform c >>= k).Meets W s Q :=
  ⟨hc.1, fun r s' hr => hc.2 r s' hr ▸ hk r⟩

/-! ### Runs -/

namespace Prog

/-- The program goes on as `q` after the calls of a list were made and answered so. -/
inductive Steps : Prog C R α → List (Σ c, R c) → Prog C R α → Prop
  | nil (p : Prog C R α) : Steps p [] p
  | call {c : C} {k : R c → Prog C R α} {r : R c} {tr : List (Σ c, R c)} {q : Prog C R α}
      (h : Steps (k r) tr q) : Steps (call c k) (⟨c, r⟩ :: tr) q

/-- The state of a contract after a list of calls, where the state is a function of
the calls and their answers. -/
def stateAfter (next : σ → (c : C) → R c → σ) : σ → List (Σ c, R c) → σ
  | s, [] => s
  | s, ⟨c, r⟩ :: tr => stateAfter next (next s c r) tr

/-- Every run of a program that meets a contract keeps what the permitted calls
keep, whether it has returned or not. -/
theorem Meets.steps {next : σ → (c : C) → R c → σ} {I : σ → Prop} {p q : Prog C R α} {s : σ}
    {Q : α → σ → Prop} {tr : List (Σ c, R c)} (h : p.Meets W s Q) (hs : Steps p tr q)
    (hnext : ∀ s c r, W.answers s c r (next s c r))
    (hkeep : ∀ s c r, I s → W.permits s c → I (next s c r)) (hI : I s) :
    q.Meets W (stateAfter next s tr) Q ∧ I (stateAfter next s tr) := by
  induction hs generalizing s with
  | nil p => exact ⟨h, hI⟩
  | call hs ih => exact ih (h.2 _ _ (hnext _ _ _)) (hkeep _ _ _ hI h.1)

/-- Each call of a list was permitted in the state it was made in. -/
def Permitted (W : Contract C R σ) (next : σ → (c : C) → R c → σ) : σ → List (Σ c, R c) → Prop
  | _, [] => True
  | s, ⟨c, r⟩ :: tr => W.permits s c ∧ Permitted W next (next s c r) tr

theorem Meets.permitted {next : σ → (c : C) → R c → σ} {p q : Prog C R α} {s : σ}
    {Q : α → σ → Prop} {tr : List (Σ c, R c)} (h : p.Meets W s Q) (hs : Steps p tr q)
    (hnext : ∀ s c r, W.answers s c r (next s c r)) : Permitted W next s tr := by
  induction hs generalizing s with
  | nil p => trivial
  | call hs ih => exact ⟨h.1, ih (h.2 _ _ (hnext _ _ _))⟩

theorem permitted_append {next : σ → (c : C) → R c → σ} {s : σ} {tr₁ tr₂ : List (Σ c, R c)} :
    Permitted W next s (tr₁ ++ tr₂) ↔
      Permitted W next s tr₁ ∧ Permitted W next (stateAfter next s tr₁) tr₂ := by
  induction tr₁ generalizing s with
  | nil => simp [Permitted, stateAfter]
  | cons e tr ih => simp [Permitted, stateAfter, ih, and_assoc]

end Prog

end Savvy.Kit
