import Mathlib.Logic.Function.Basic
import Savvy.Kit.System

/-!
Threads that synchronise with mutexes. A program is given by what its threads
do while they own the locks they need; the locks themselves are added here.
Before a step a thread acquires the one lock the step needs, and after the step
it keeps exactly the locks that the place it has come to holds.

Three rules come out of it. A lock has one holder. An invariant of the program
may be shown for its steps alone, with the knowledge that no other thread holds
a lock the step uses. And if locks are nested in one order, then where a thread
is stuck waiting for a lock some thread that owns one is not.
-/

namespace Savvy.Kit

/-! ### One member of a family changes -/

/-- An update by something that looks the same does not show. -/
theorem update_view {α β γ : Type*} [DecidableEq α] {f : α → β} {a : α} {b : β} {v : β → γ}
    (h : v b = v (f a)) (x : α) : v (Function.update f a b x) = v (f x) := by
  by_cases hx : x = a
  · subst hx
    rw [Function.update_self, h]
  · rw [Function.update_of_ne hx]

/-- An update of a known value by one that looks the same does not show. -/
theorem known_view {α β γ : Type*} [DecidableEq α] {f : α → β} {a : α} {b b' : β} {v : β → γ}
    (hf : f a = b) (h : v b' = v b) (x : α) : v (Function.update f a b' x) = v (f x) :=
  update_view (by rw [hf, h]) x

/-- Neither does one after a change that does not show. -/
theorem known_map_view {α β γ : Type*} [DecidableEq α] {f : α → β} {c : β → β} {a : α}
    {b b' : β} {v : β → γ} (hc : ∀ y, v (c y) = v y) (hf : f a = b) (h : v b' = v b) (x : α) :
    v (Function.update (fun y => c (f y)) a b' x) = v (f x) := by
  refine (update_view (f := fun y => c (f y)) ?_ x).trans (hc _)
  rw [hc, hf, h]

/-! ### Threads and locks -/

/-- The threads `τ` of a program over the states `σ`, with locks `κ` and
choices `α`: the step of a thread, the locks it holds where it is, and the lock
it has to acquire before its step. -/
structure Threads (σ τ κ α : Type*) where
  init : σ
  body : σ → τ → α → Option σ
  holds : σ → τ → List κ
  needs : σ → τ → Option κ

/-- A program state with the owners of the locks. -/
structure Locked (σ τ κ : Type*) where
  core : σ
  owner : κ → Option τ

/-- A thread acquires the lock it needs, or takes its step. -/
inductive LockAct (τ α : Type*)
  | acquire (t : τ)
  | move (t : τ) (a : α)
  deriving DecidableEq

namespace Threads

variable {σ τ κ α : Type*} [DecidableEq τ] [DecidableEq κ] (P : Threads σ τ κ α)

def Ready (s : Locked σ τ κ) (t : τ) : Prop :=
  ∀ l, P.needs s.core t = some l → s.owner l = some t

instance (s : Locked σ τ κ) (t : τ) : Decidable (P.Ready s t) :=
  match h : P.needs s.core t with
  | none => .isTrue (by intro l hl; rw [h] at hl; cases hl)
  | some l =>
      if ho : s.owner l = some t then
        .isTrue (by
          intro l' hl
          rw [h] at hl
          cases hl
          exact ho)
      else .isFalse fun hr => ho (hr l h)

/-- Unlocking whatever the place the thread has come to does not hold. -/
def unlock (c : σ) (t : τ) (owner : κ → Option τ) : κ → Option τ := fun l =>
  if owner l = some t ∧ l ∉ P.holds c t then none else owner l

def lockStep (s : Locked σ τ κ) : LockAct τ α → Option (Locked σ τ κ)
  | .acquire t =>
      match P.needs s.core t with
      | none => none
      | some l =>
          if s.owner l = none then some { s with owner := Function.update s.owner l (some t) }
          else none
  | .move t a =>
      if P.Ready s t then (P.body s.core t a).map fun c => ⟨c, P.unlock c t s.owner⟩ else none

def system : System (Locked σ τ κ) (LockAct τ α) where
  init := ⟨P.init, fun _ => none⟩
  step := P.lockStep

/-- A turn of a thread: it acquires the lock it needs, if any, and takes its
step. -/
def turn (s : Locked σ τ κ) (t : τ) (a : α) : Option (Locked σ τ κ) :=
  match P.needs s.core t with
  | none => P.lockStep s (.move t a)
  | some _ => (P.lockStep s (.acquire t)).bind fun s' => P.lockStep s' (.move t a)

def turns (s : Locked σ τ κ) : List (τ × α) → Option (Locked σ τ κ)
  | [] => some s
  | (t, a) :: as => (P.turn s t a).bind fun s' => turns s' as

/-- The threads of a list take their turns, as long as each is allowed to. -/
def turnsBy (cond : σ → τ → α → Prop) [∀ c t a, Decidable (cond c t a)] (s : Locked σ τ κ) :
    List (τ × α) → Option (Locked σ τ κ)
  | [] => some s
  | (t, a) :: as =>
      if cond s.core t a then (P.turn s t a).bind fun s' => turnsBy cond s' as else none

/-- A side condition on the steps, but not on acquiring locks. -/
def onMoves (cond : σ → τ → α → Prop) : Locked σ τ κ → LockAct τ α → Prop
  | _, .acquire _ => True
  | s, .move t a => cond s.core t a

/-- What a program must keep to for its locks to be used properly, in states
that satisfy `I`: at the start nothing is held, a thread only keeps locks it
had, and it does not change what the others hold or, once they need a lock,
which one. -/
structure Lawful (I : σ → Prop) : Prop where
  init_holds (t : τ) : P.holds P.init t = []
  keeps {c c' : σ} {t : τ} {a : α} (hI : I c) (h : P.body c t a = some c') {l : κ}
    (hl : l ∈ P.holds c' t) : l ∈ P.holds c t ∨ P.needs c t = some l
  frame_holds {c c' : σ} {t u : τ} {a : α} (hI : I c) (h : P.body c t a = some c')
    (hu : u ≠ t) : P.holds c' u = P.holds c u
  frame_needs {c c' : σ} {t u : τ} {a : α} (hI : I c) (h : P.body c t a = some c')
    (hu : u ≠ t) {l : κ} (hl : P.needs c u = some l) : P.needs c' u = some l

/-- The owners of the locks are the threads that hold them, or that have just
acquired them for their next step. -/
structure Owned (s : Locked σ τ κ) : Prop where
  held {t : τ} {l : κ} (h : l ∈ P.holds s.core t) : s.owner l = some t
  wanted {t : τ} {l : κ} (h : s.owner l = some t) :
    l ∈ P.holds s.core t ∨ P.needs s.core t = some l

/-- No other thread holds a lock that the next step of `t` uses. -/
def Alone (c : σ) (t : τ) : Prop :=
  ∀ l, l ∈ P.holds c t ∨ P.needs c t = some l → ∀ u, u ≠ t → l ∉ P.holds c u

variable {P}

omit [DecidableEq τ] [DecidableEq κ] in
theorem Owned.alone {s : Locked σ τ κ} (h : P.Owned s) {t : τ} (hr : P.Ready s t) :
    P.Alone s.core t := by
  intro l hl u hu hheld
  have hown : s.owner l = some t := by
    rcases hl with hl | hl
    · exact h.held hl
    · exact hr l hl
  have heq : some u = some t := (h.held hheld).symm.trans hown
  exact hu (Option.some.inj heq)

theorem lockStep_move {s s' : Locked σ τ κ} {t : τ} {a : α}
    (h : P.lockStep s (.move t a) = some s') :
    P.Ready s t ∧ P.body s.core t a = some s'.core ∧ s'.owner = P.unlock s'.core t s.owner := by
  simp only [lockStep] at h
  split at h
  · next hr =>
      obtain ⟨c, hc, rfl⟩ := Option.map_eq_some_iff.mp h
      exact ⟨hr, hc, rfl⟩
  · cases h

theorem lockStep_acquire {s s' : Locked σ τ κ} {t : τ}
    (h : P.lockStep s (.acquire t) = some s') :
    ∃ l, P.needs s.core t = some l ∧ s.owner l = none ∧
      s' = { s with owner := Function.update s.owner l (some t) } := by
  simp only [lockStep] at h
  split at h
  · cases h
  · next l hl =>
      split at h
      · next hfree => exact ⟨l, hl, hfree, (Option.some.inj h).symm⟩
      · cases h

theorem Owned.acquire {s s' : Locked σ τ κ} (h : P.Owned s) {t : τ}
    (hs : P.lockStep s (.acquire t) = some s') : P.Owned s' := by
  obtain ⟨l, hl, hfree, rfl⟩ := lockStep_acquire hs
  constructor
  · intro u l' hheld
    have hne : l' ≠ l := by
      intro heq
      have := h.held hheld
      rw [heq, hfree] at this
      cases this
    show Function.update s.owner l (some t) l' = some u
    rw [Function.update_of_ne hne]
    exact h.held hheld
  · intro u l' hown
    by_cases heq : l' = l
    · subst heq
      have hown' : Function.update s.owner l' (some t) l' = some u := hown
      rw [Function.update_self] at hown'
      obtain rfl := Option.some.inj hown'
      exact .inr hl
    · have hown' : Function.update s.owner l (some t) l' = some u := hown
      rw [Function.update_of_ne heq] at hown'
      exact h.wanted hown'

omit [DecidableEq τ] [DecidableEq κ] in
theorem Lawful.mono {I J : σ → Prop} (h : P.Lawful I) (hle : ∀ c, J c → I c) : P.Lawful J where
  init_holds := h.init_holds
  keeps hJ := h.keeps (hle _ hJ)
  frame_holds hJ := h.frame_holds (hle _ hJ)
  frame_needs hJ := h.frame_needs (hle _ hJ)

theorem Owned.move {I : σ → Prop} (hlaw : P.Lawful I) {s s' : Locked σ τ κ} (h : P.Owned s)
    (hI : I s.core) {t : τ} {a : α} (hs : P.lockStep s (.move t a) = some s') : P.Owned s' := by
  obtain ⟨hr, hbody, howner⟩ := lockStep_move hs
  constructor
  · intro u l hheld
    rw [howner]
    by_cases hu : u = t
    · subst hu
      have hold : s.owner l = some u := by
        rcases hlaw.keeps hI hbody hheld with hl | hl
        · exact h.held hl
        · exact hr l hl
      simp [unlock, hold, hheld]
    · rw [hlaw.frame_holds hI hbody hu] at hheld
      have hold := h.held hheld
      simp [unlock, hold, hu]
  · intro u l hown
    rw [howner] at hown
    unfold unlock at hown
    split at hown
    · cases hown
    · next hkeep =>
        by_cases hu : u = t
        · subst hu
          left
          by_contra hnot
          exact hkeep ⟨hown, hnot⟩
        · rcases h.wanted hown with hl | hl
          · left
            rw [hlaw.frame_holds hI hbody hu]
            exact hl
          · right
            exact hlaw.frame_needs hI hbody hu hl

/-- The invariant rule: it is enough to look at the steps of the program, each
taken while no other thread holds a lock that it uses. -/
theorem invariant {I : σ → Prop} (hlaw : P.Lawful I) {ok : Locked σ τ κ → LockAct τ α → Prop}
    (h0 : I P.init)
    (hstep : ∀ s t a c, I s.core → P.Alone s.core t → ok s (.move t a) →
      P.body s.core t a = some c → I c)
    {s : Locked σ τ κ} (h : P.system.ReachBy ok s) : I s.core ∧ P.Owned s := by
  refine System.ReachBy.invariant (I := fun s => I s.core ∧ P.Owned s) ⟨h0, ?_⟩ ?_ h
  · constructor
    · intro t l hl
      have hnil : P.holds P.init t = [] := hlaw.init_holds t
      change l ∈ P.holds P.init t at hl
      rw [hnil] at hl
      cases hl
    · intro t l hl
      cases hl
  · intro s a s' hI hok hs
    cases a with
    | acquire t =>
        have howned := hI.2.acquire hs
        obtain ⟨l, -, -, rfl⟩ := lockStep_acquire hs
        exact ⟨hI.1, howned⟩
    | move t a =>
        obtain ⟨hr, hbody, -⟩ := lockStep_move hs
        exact ⟨hstep s t a s'.core hI.1 (hI.2.alone hr) hok hbody, hI.2.move hlaw hI.1 hs⟩

theorem turn_body {s s' : Locked σ τ κ} {t : τ} {a : α} (hs : P.turn s t a = some s') :
    P.body s.core t a = some s'.core := by
  unfold turn at hs
  split at hs
  · exact (lockStep_move hs).2.1
  · obtain ⟨m, hm, hmove⟩ := Option.bind_eq_some_iff.mp hs
    obtain ⟨l, -, -, rfl⟩ := lockStep_acquire hm
    exact (lockStep_move hmove).2.1

theorem turns_append (s : Locked σ τ κ) (as bs : List (τ × α)) :
    P.turns s (as ++ bs) = (P.turns s as).bind fun s' => P.turns s' bs := by
  induction as generalizing s with
  | nil => rfl
  | cons a as ih =>
      simp only [List.cons_append, turns, Option.bind_assoc]
      congr 1
      funext s'
      exact ih s'

theorem reachBy_turn {cond : σ → τ → α → Prop} {s s' : Locked σ τ κ} {t : τ} {a : α}
    (h : P.system.ReachBy (onMoves cond) s) (hok : cond s.core t a)
    (hs : P.turn s t a = some s') : P.system.ReachBy (onMoves cond) s' := by
  unfold turn at hs
  split at hs
  · exact .step (a := LockAct.move t a) h hok hs
  · obtain ⟨m, hm, hmove⟩ := Option.bind_eq_some_iff.mp hs
    have hmid : P.system.ReachBy (onMoves cond) m :=
      .step (a := LockAct.acquire t) h trivial hm
    have hcore : m.core = s.core := by
      obtain ⟨l, -, -, rfl⟩ := lockStep_acquire hm
      rfl
    exact .step (a := LockAct.move t a) hmid (show cond m.core t a from hcore ▸ hok) hmove

/-- Turns that are allowed in any state reach the states they lead to. -/
theorem reachBy_turns {cond : σ → τ → α → Prop} {s s' : Locked σ τ κ} {as : List (τ × α)}
    (h : P.system.ReachBy (onMoves cond) s) (hok : ∀ p ∈ as, ∀ c, cond c p.1 p.2)
    (hs : P.turns s as = some s') : P.system.ReachBy (onMoves cond) s' := by
  induction as generalizing s with
  | nil =>
      simp only [turns, Option.some.injEq] at hs
      exact hs ▸ h
  | cons a as ih =>
      simp only [turns, Option.bind_eq_some_iff] at hs
      obtain ⟨m, hm, hrest⟩ := hs
      refine ih (reachBy_turn h (hok a List.mem_cons_self _) hm) ?_ hrest
      intro p hp
      exact hok p (List.mem_cons_of_mem _ hp)

/-- Turns that are allowed where they are taken reach the state they lead to. -/
theorem reachBy_turnsBy {cond : σ → τ → α → Prop} [∀ c t a, Decidable (cond c t a)]
    {s s' : Locked σ τ κ} {as : List (τ × α)} (h : P.system.ReachBy (onMoves cond) s)
    (hs : P.turnsBy cond s as = some s') : P.system.ReachBy (onMoves cond) s' := by
  induction as generalizing s with
  | nil =>
      simp only [turnsBy, Option.some.injEq] at hs
      exact hs ▸ h
  | cons a as ih =>
      simp only [turnsBy] at hs
      split at hs
      · next hok =>
          obtain ⟨m, hm, hrest⟩ := Option.bind_eq_some_iff.mp hs
          exact ih (reachBy_turn h hok hm) hrest
      · cases hs

theorem reach_turns {s s' : Locked σ τ κ} {as : List (τ × α)} (h : P.system.Reach s)
    (hs : P.turns s as = some s') : P.system.Reach s' := by
  have hall : P.system.ReachBy (onMoves fun _ _ _ => True) s := h.mono fun _ a _ => by
    cases a <;> trivial
  exact (reachBy_turns hall (fun _ _ _ => trivial) hs).reach

/-- Locks nested in the order of `rank`: a thread only waits for a lock above
all those it holds. -/
def Ordered (P : Threads σ τ κ α) (rank : κ → ℕ) (c : σ) : Prop :=
  ∀ t l l', l ∈ P.holds c t → P.needs c t = some l' → rank l < rank l'

omit [DecidableEq κ] in
/-- Where a thread waits for a lock that is taken, some thread can acquire its
lock, or owns a lock and has all it needs. The search goes from a waiting
thread to the owner of its lock and upwards in rank, so it ends. -/
theorem Owned.exists_ready {rank : κ → ℕ} {bound : ℕ} (hrank : ∀ l, rank l < bound)
    {s : Locked σ τ κ} (hord : Ordered P rank s.core) (h : P.Owned s) {t : τ} {l : κ}
    (hl : P.needs s.core t = some l) (hwait : s.owner l ≠ some t) :
    (∃ u l', P.needs s.core u = some l' ∧ s.owner l' = none) ∨
      ∃ u, (∃ l', s.owner l' = some u) ∧ P.Ready s u := by
  induction hgap : bound - rank l using Nat.strongRecOn generalizing t l with
  | _ gap ih =>
      cases hown : s.owner l with
      | none => exact .inl ⟨t, l, hl, hown⟩
      | some u =>
          by_cases hready : P.Ready s u
          · exact .inr ⟨u, ⟨l, hown⟩, hready⟩
          · -- `u` holds `l` and waits for a lock above it.
            simp only [Ready, not_forall] at hready
            obtain ⟨l', hl', hne⟩ := hready
            have hheld : l ∈ P.holds s.core u := by
              rcases h.wanted hown with hheld | hneed
              · exact hheld
              · rw [hneed] at hl'
                cases hl'
                exact absurd hown hne
            have hlt := hord u l l' hheld hl'
            have hbound := hrank l'
            exact ih (bound - rank l') (by omega) hl' hne rfl

end Threads

end Savvy.Kit
