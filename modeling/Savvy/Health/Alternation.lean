import Mathlib.Algebra.Ring.Parity
import Savvy.Health.SensorLifecycle
import Savvy.Kit.Streak

/-!
Start and shutdown notices, as each module sees them. A transition makes one more
fan-out that owes every module a notice, and every call of a hook pays one notice
of the innermost fan-out that owes it. So the number of notices that a module has
heard or is owed has the parity of the state in every run, whatever the hooks do.
The notices of a module then alternate as long as each one comes at the right
parity; a hook that changes the state in the middle of a fan-out can break that
for the modules behind it.
-/

namespace Savvy.Health

open Kit

/-- The notice of a transition that the loop has for the module at a place. -/
def Fanout.notice (f : Fanout) (j : ℕ) : Option Lifecycle :=
  (f.snapshot[j]?).bind fun m => if m.has f.hook then f.hook.announces else none

/-- The same, if the loop has not called the module yet. -/
def Fanout.owed (f : Fanout) (j : ℕ) : Option Lifecycle :=
  if f.i < j ∨ f.i = j ∧ f.inside = false then f.notice j else none

/-- The notice of a transition that an event was for a module. -/
def Event.heard (j : ℕ) : Event → Option Lifecycle
  | .transition _ => none
  | .called hook i => if i = j then hook.announces else none

def Event.isTransition : Event → Bool
  | .transition _ => true
  | .called _ _ => false

namespace Daemon

/-- The notices that the fan-outs in progress have for a module, the innermost
first. -/
def owed (s : Daemon) (j : ℕ) : List Lifecycle := s.stack.filterMap (·.owed j)

/-- The start and shutdown notices delivered to a module, the oldest first. -/
def heard (s : Daemon) (j : ℕ) : List Lifecycle := s.log.filterMap (·.heard j)

def begun (s : Daemon) : Bool := s.log.any (·.isTransition)

/-- The notice of a transition that the next turn of the innermost loop delivers,
and to which module. -/
def upcoming (s : Daemon) : Option (ℕ × Lifecycle) :=
  match s.stack with
  | [] => none
  | f :: _ => if f.inside then none else (f.notice f.i).map (f.i, ·)

end Daemon

/-- Modules are registered before the first start, with both hooks set. -/
def Boots (s : Daemon) : Action → Prop
  | .call (.registerModule hooks) =>
      s.begun = false ∧ hooks.onStart = true ∧ hooks.onShutdown = true
  | _ => True

/-- A notice that is delivered tells the state exactly when the fan-outs in
progress owe the module an odd number of notices, this one among them. -/
def Due (s : Daemon) : Action → Prop
  | .next => ∀ p ∈ s.upcoming, (p.2 = s.lc.base ↔ Odd (s.owed p.1).length)
  | _ => True

/-- No transition is made while a fan-out still owes a notice. -/
def Calm (s : Daemon) : Action → Prop
  | .call .start => s.lc.base = .stopped → ∀ j < s.lc.modules.length, s.owed j = []
  | .call .stop => s.lc.base = .running → ∀ j < s.lc.modules.length, s.owed j = []
  | _ => True

instance (s : Daemon) : (a : Action) → Decidable (Boots s a)
  | .call (.registerModule _) => inferInstanceAs (Decidable (_ ∧ _))
  | .call .start | .call .notifyConfigApplied | .call .stop | .call .destroy => isTrue trivial
  | .next | .ret => isTrue trivial

instance (s : Daemon) : (a : Action) → Decidable (Due s a)
  | .next => inferInstanceAs (Decidable (∀ p ∈ s.upcoming, _))
  | .call _ | .ret => isTrue trivial

def Alternates (notices : List Lifecycle) : Prop :=
  ∀ (i : ℕ) (st : Lifecycle), notices[i]? = some st → (st = .running ↔ Even i)

/-- The notices of each module alternate, beginning with a start; and between the
fan-outs, behind a first start, the last of them tells the state. -/
structure InStep (s : Daemon) : Prop where
  alternates : ∀ j < s.lc.modules.length, Alternates (s.heard j)
  last : s.stack = [] → s.begun = true →
    ∀ j < s.lc.modules.length, (s.heard j).getLast? = some s.lc.base

/-! ### Alternating notices -/

theorem alternates_nil : Alternates [] := by
  intro i st h
  cases h

theorem alternates_concat {notices : List Lifecycle} {st : Lifecycle} :
    Alternates (notices ++ [st]) ↔
      Alternates notices ∧ (st = .running ↔ Even notices.length) :=
  forall_getElem?_concat

theorem Alternates.last {notices : List Lifecycle} {st : Lifecycle} (h : Alternates notices)
    (hlast : notices.getLast? = some st) : st = .running ↔ Odd notices.length := by
  rw [List.getLast?_eq_getElem?] at hlast
  have hpos : 0 < notices.length := by
    have := (List.getElem?_eq_some_iff.mp hlast).1
    omega
  rw [h _ st hlast, Nat.even_sub hpos]
  simp [Nat.not_even_iff_odd]

/-! ### What a loop owes -/

namespace Fanout

variable {f : Fanout} {j : ℕ}

theorem owed_fresh (hook : Hook) (snapshot : List Hooks) (j : ℕ) :
    (Fanout.mk hook snapshot 0 false).owed j = (Fanout.mk hook snapshot 0 false).notice j :=
  if_pos (by rcases Nat.eq_zero_or_pos j with rfl | hpos <;> simp [*])

theorem owed_finished (h : f.snapshot[f.i]? = none) : f.owed j = none := by
  unfold owed
  split
  · next hpending =>
      have hlen : f.snapshot.length ≤ j := by
        have := List.getElem?_eq_none_iff.mp h
        omega
      rw [notice, List.getElem?_eq_none hlen]
      rfl
  · rfl

theorem owed_next (hinside : f.inside = false) : f.owed f.i = f.notice f.i :=
  if_pos (.inr ⟨rfl, hinside⟩)

theorem owed_skipped (hnotice : f.notice f.i = none) :
    ({ f with i := f.i + 1, inside := false } : Fanout).owed j = f.owed j := by
  rcases Nat.lt_trichotomy f.i j with hlt | rfl | hgt
  · rw [owed, owed, if_pos (by simp only [and_true]; omega), if_pos (.inl hlt)]
    rfl
  · rw [owed, owed, if_neg (by simp), hnotice, ite_self]
  · rw [owed, owed, if_neg (by dsimp only; omega), if_neg (by omega)]

theorem owed_returned (hinside : f.inside = true) :
    ({ f with i := f.i + 1, inside := false } : Fanout).owed j = f.owed j := by
  rcases Nat.lt_trichotomy f.i j with hlt | rfl | hgt
  · rw [owed, owed, if_pos (by simp only [and_true]; omega), if_pos (.inl hlt)]
    rfl
  · rw [owed, owed, if_neg (by simp), if_neg (by simp [hinside])]
  · rw [owed, owed, if_neg (by dsimp only; omega), if_neg (by omega)]

theorem owed_entered (j : ℕ) (hinside : f.inside = false) :
    ({ f with inside := true } : Fanout).owed j = if j = f.i then none else f.owed j := by
  split
  · next hj =>
      subst hj
      exact if_neg (by simp)
  · next hj =>
      have hpending : (f.i < j ∨ f.i = j ∧ true = false) ↔
          (f.i < j ∨ f.i = j ∧ f.inside = false) := by
        rw [hinside]
        simp [Ne.symm hj]
      exact if_congr hpending rfl rfl

end Fanout

/-! ### What a step does to the notices -/

namespace Daemon

variable {s s' : Daemon} {a : Action}

/-- A step leaves the notices alone, makes a transition, which every module is
then owed a notice of, or pays a module one notice. -/
inductive Effect (s : Daemon) (a : Action) (s' : Daemon) : Prop
  | quiet (hbase : s'.lc.base = s.lc.base) (hbegun : s'.begun = s.begun)
      (hmodules : s'.lc.modules = s.lc.modules ∨
        ∃ hooks, a = .call (.registerModule hooks) ∧ s'.lc.modules = s.lc.modules ++ [hooks])
      (howed : ∀ j, s'.owed j = s.owed j) (hheard : ∀ j, s'.heard j = s.heard j)
      (hdue : Due s a)
  | transition (hbase : s'.lc.base ≠ s.lc.base) (hbegun : s'.begun = true)
      (hmodules : s'.lc.modules = s.lc.modules)
      (howed : ∀ j, s'.owed j =
        if j < s.lc.modules.length then s'.lc.base :: s.owed j else s.owed j)
      (hheard : ∀ j, s'.heard j = s.heard j)
      (hcalm : Calm s a → ∀ j < s.lc.modules.length, s.owed j = []) (hdue : Due s a)
  | told (i : ℕ) (st : Lifecycle) (hnext : a = .next) (hup : s.upcoming = some (i, st))
      (hbase : s'.lc.base = s.lc.base) (hbegun : s'.begun = s.begun)
      (hmodules : s'.lc.modules = s.lc.modules)
      (howed : ∀ j, s.owed j = if j = i then st :: s'.owed j else s'.owed j)
      (hheard : ∀ j, s'.heard j = if j = i then s.heard j ++ [st] else s.heard j)

def AllSet (s : Daemon) : Prop :=
  ∀ m ∈ s.lc.modules, m.onStart = true ∧ m.onShutdown = true

/-- The fan-out behind a transition owes each module its notice. -/
theorem owed_settle {hook : Hook} {base : Lifecycle} (hset : s.AllSet)
    (hhook : hook.announces = some base) (j : ℕ) :
    (s.settle hook (true, base)).owed j =
      if j < s.lc.modules.length then base :: s.owed j else s.owed j := by
  have hfresh := Fanout.owed_fresh hook s.lc.modules j
  change List.filterMap _ (Fanout.mk hook s.lc.modules 0 false :: s.stack) = _
  split
  · next hlt =>
      have hset := hset _ (List.getElem_mem hlt)
      have hhas : s.lc.modules[j].has hook = true := by
        cases hook with
        | onStart => exact hset.1
        | onConfigApplied => cases hhook
        | onShutdown => exact hset.2
      rw [Fanout.notice, List.getElem?_eq_getElem hlt, Option.bind_some, if_pos hhas, hhook]
        at hfresh
      exact List.filterMap_cons_some hfresh
  · next hge =>
      rw [Fanout.notice, List.getElem?_eq_none (Nat.le_of_not_lt hge), Option.bind_none] at hfresh
      exact List.filterMap_cons_none hfresh

theorem heard_settle {hook : Hook} {base : Lifecycle} (j : ℕ) :
    (s.settle hook (true, base)).heard j = s.heard j := by
  change List.filterMap _ (s.log ++ [.transition base]) = _
  rw [List.filterMap_append]
  exact List.append_nil _

theorem begun_settle {hook : Hook} {base : Lifecycle} :
    (s.settle hook (true, base)).begun = true := by
  change List.any (s.log ++ [.transition base]) _ = true
  simp [Event.isTransition]

/-- A call that makes a transition, and is calm if nothing is owed. -/
theorem effect_settle {c : Call} {hook : Hook} {base : Lifecycle} (hset : s.AllSet)
    (hhook : hook.announces = some base) (hbase : s.lc.base ≠ base)
    (hcalm : Calm s (.call c) → ∀ j < s.lc.modules.length, s.owed j = []) :
    Effect s (.call c) (s.settle hook (true, base)) :=
  .transition hbase.symm begun_settle rfl (owed_settle hset hhook) heard_settle hcalm trivial

theorem effect_call {c : Call} (hset : s.AllSet) : Effect s (.call c) (s.call c) := by
  cases c with
  | registerModule hooks =>
      refine .quiet ?_ rfl ?_ (fun _ => rfl) (fun _ => rfl) trivial
      · simp only [call, SensorLifecycle.registerModule]
        split
        · rfl
        · split <;> rfl
      · simp only [call, SensorLifecycle.registerModule]
        split
        · exact .inl rfl
        · split
          · exact .inl rfl
          · exact .inr ⟨hooks, rfl, rfl⟩
  | start =>
      cases hbase : s.lc.base with
      | running =>
          have hs : s.call .start = s.settle .onStart (false, .running) := by
            rw [call, start, hbase]
            rfl
          rw [hs]
          exact .quiet hbase.symm rfl (.inl rfl) (fun _ => rfl) (fun _ => rfl) trivial
      | stopped =>
          have hs : s.call .start = s.settle .onStart (true, .running) := by
            rw [call, start, hbase]
            rfl
          rw [hs]
          exact effect_settle hset rfl (by simp [hbase]) fun hcalm => hcalm hbase
  | notifyConfigApplied =>
      refine .quiet rfl rfl (.inl rfl) (fun j => ?_) (fun _ => rfl) trivial
      refine List.filterMap_cons_none ?_
      refine (Fanout.owed_fresh _ _ j).trans ?_
      simp [Fanout.notice, Hook.announces]
  | stop =>
      cases hbase : s.lc.base with
      | stopped =>
          have hs : s.call .stop = s.settle .onShutdown (false, .stopped) := by
            rw [call, stop, hbase]
            rfl
          rw [hs]
          exact .quiet hbase.symm rfl (.inl rfl) (fun _ => rfl) (fun _ => rfl) trivial
      | running =>
          have hs : s.call .stop = s.settle .onShutdown (true, .stopped) := by
            rw [call, stop, hbase]
            rfl
          rw [hs]
          exact effect_settle hset rfl (by simp [hbase]) fun hcalm => hcalm hbase
  | destroy =>
      simp only [call, destroy]
      split <;> exact .quiet rfl rfl (.inl rfl) (fun _ => rfl) (fun _ => rfl) trivial

theorem owed_of_stack {f : Fanout} {rest : List Fanout} (hstack : s.stack = f :: rest) (j : ℕ) :
    s.owed j = (f :: rest).filterMap (·.owed j) := by
  rw [owed, hstack]

theorem filterMap_owed_congr {f f' : Fanout} (rest : List Fanout) {j : ℕ}
    (h : f'.owed j = f.owed j) :
    (f' :: rest).filterMap (·.owed j) = (f :: rest).filterMap (·.owed j) := by
  rw [List.filterMap_cons, List.filterMap_cons, h]

theorem filterMap_owed_none {f : Fanout} (rest : List Fanout) {j : ℕ} (h : f.owed j = none) :
    (f :: rest).filterMap (·.owed j) = rest.filterMap (·.owed j) := by
  rw [List.filterMap_cons, h]

theorem due_of_silent {f : Fanout} {rest : List Fanout} (hstack : s.stack = f :: rest)
    (hnotice : f.notice f.i = none) : Due s .next := by
  intro p hp
  rw [upcoming, hstack] at hp
  dsimp only at hp
  rw [hnotice, Option.map_none, ite_self] at hp
  cases hp

theorem heard_called (hook : Hook) (i j : ℕ) :
    (s.log ++ [Event.called hook i]).filterMap (·.heard j) =
      s.heard j ++ (if i = j then hook.announces else none).toList := by
  rw [List.filterMap_append]
  rfl

theorem begun_called (hook : Hook) (i : ℕ) :
    (s.log ++ [Event.called hook i]).any (·.isTransition) = s.begun := by
  rw [List.any_append]
  exact Bool.or_false _

theorem effect_enter {f : Fanout} {rest : List Fanout} {m : Hooks} (hstack : s.stack = f :: rest)
    (hinside : f.inside = false) (hm : f.snapshot[f.i]? = some m) (hhas : m.has f.hook = true) :
    Effect s .next
      { s with
        stack := { f with inside := true } :: rest
        log := s.log ++ [.called f.hook f.i] } := by
  have hnotice : f.notice f.i = f.hook.announces := by
    rw [Fanout.notice, hm, Option.bind_some, if_pos hhas]
  cases hst : f.hook.announces with
  | none =>
      rw [hst] at hnotice
      refine .quiet rfl (begun_called _ _) (.inl rfl) (fun j => ?_) (fun j => ?_)
        (due_of_silent hstack hnotice)
      · rw [owed_of_stack hstack]
        refine filterMap_owed_congr rest ?_
        rw [Fanout.owed_entered j hinside]
        split
        · next hj =>
            subst hj
            rw [Fanout.owed_next hinside, hnotice]
        · rfl
      · refine (heard_called _ _ j).trans ?_
        rw [hst, ite_self]
        exact List.append_nil _
  | some st =>
      rw [hst] at hnotice
      refine .told f.i st rfl ?_ rfl (begun_called _ _) rfl (fun j => ?_) (fun j => ?_)
      · rw [upcoming, hstack]
        dsimp only
        rw [hinside, hnotice]
        rfl
      · have hentered := Fanout.owed_entered j hinside
        rw [owed_of_stack hstack]
        split
        · next hj =>
            rw [if_pos hj] at hentered
            subst hj
            have hnext : f.owed f.i = some st := (Fanout.owed_next hinside).trans hnotice
            rw [List.filterMap_cons, hnext]
            exact congrArg (st :: ·) (filterMap_owed_none rest hentered).symm
        · next hj =>
            rw [if_neg hj] at hentered
            exact (filterMap_owed_congr rest hentered).symm
      · refine (heard_called _ _ j).trans ?_
        rw [hst]
        rcases eq_or_ne j f.i with rfl | hj
        · rw [if_pos rfl, if_pos rfl]
          rfl
        · rw [if_neg hj.symm, if_neg hj]
          exact List.append_nil _

theorem effect_turn {f : Fanout} {rest : List Fanout} (hstack : s.stack = f :: rest)
    (hinside : f.inside = false) : Effect s .next (s.turn f rest) := by
  unfold turn
  split
  · next hm =>
      have hnotice : f.notice f.i = none := by
        rw [Fanout.notice, hm]
        rfl
      refine .quiet rfl rfl (.inl rfl) (fun j => ?_) (fun _ => rfl) (due_of_silent hstack hnotice)
      rw [owed_of_stack hstack]
      exact (filterMap_owed_none rest (Fanout.owed_finished hm)).symm
  · next m hm =>
      split
      · next hhas => exact effect_enter hstack hinside hm hhas
      · next hhas =>
          have hnotice : f.notice f.i = none := by
            rw [Fanout.notice, hm, Option.bind_some, if_neg hhas]
          refine .quiet rfl rfl (.inl rfl) (fun j => ?_) (fun _ => rfl)
            (due_of_silent hstack hnotice)
          rw [owed_of_stack hstack]
          refine filterMap_owed_congr rest ?_
          rw [← Fanout.owed_skipped hnotice, hinside]

theorem effect_of_step (hset : s.AllSet) (h : s.step a = some s') : Effect s a s' := by
  cases stepped_of_step h with
  | call c _ _ => exact effect_call hset
  | turn f rest hstack hinside => exact effect_turn hstack hinside
  | ret f rest hstack hinside =>
      refine .quiet rfl rfl (.inl rfl) (fun j => ?_) (fun _ => rfl) trivial
      rw [owed_of_stack hstack]
      exact filterMap_owed_congr rest (Fanout.owed_returned hinside)

/-- The books of the notices. With the last field, the notices that a module has
heard and those it is owed are together odd in number while the state is
`SAVVY_LIFECYCLE_RUNNING`. -/
structure Counted (s : Daemon) : Prop where
  allSet : s.AllSet
  beyond : ∀ j, s.lc.modules.length ≤ j → s.owed j = [] ∧ s.heard j = []
  boot : s.begun = false → s.lc.base = .stopped ∧ ∀ j, s.owed j = [] ∧ s.heard j = []
  pos : s.begun = true → ∀ j < s.lc.modules.length, 0 < (s.owed j).length + (s.heard j).length
  parity : ∀ j < s.lc.modules.length,
    (s.lc.base = .running ↔ Odd ((s.owed j).length + (s.heard j).length))

theorem Counted.lt_of_owed {j : ℕ} {st : Lifecycle} {rest : List Lifecycle} (h : Counted s)
    (howed : s.owed j = st :: rest) : j < s.lc.modules.length := by
  by_contra hge
  have hnone := (h.beyond j (Nat.le_of_not_lt hge)).1
  rw [hnone] at howed
  cases howed

theorem Counted.begun_of_owed {j : ℕ} {st : Lifecycle} {rest : List Lifecycle} (h : Counted s)
    (howed : s.owed j = st :: rest) : s.begun = true := by
  by_contra hfalse
  have hnone := ((h.boot (Bool.not_eq_true _ ▸ hfalse)).2 j).1
  rw [hnone] at howed
  cases howed

theorem Counted.step (h : Counted s) (hboots : Boots s a) (heffect : Effect s a s') :
    Counted s' := by
  cases heffect with
  | quiet hbase hbegun hmodules howed hheard _ =>
      rcases hmodules with hsame | ⟨hooks, rfl, hmore⟩
      · refine ⟨?_, fun j hj => ?_, fun hb => ?_, fun hb j hj => ?_, fun j hj => ?_⟩
        · rw [AllSet, hsame]
          exact h.allSet
        · rw [howed, hheard]
          exact h.beyond j (hsame ▸ hj)
        · simp only [howed, hheard, hbase]
          exact h.boot (hbegun ▸ hb)
        · rw [howed, hheard]
          exact h.pos (hbegun ▸ hb) j (hsame ▸ hj)
        · rw [howed, hheard, hbase]
          exact h.parity j (hsame ▸ hj)
      · -- a new module has heard nothing, and the state is still the first one
        obtain ⟨hfirst, hset⟩ := hboots
        obtain ⟨hstopped, hnone⟩ := h.boot hfirst
        refine ⟨?_, fun j _ => ?_, fun _ => ?_, fun hb => ?_, fun j _ => ?_⟩
        · intro m hm
          rw [hmore, List.mem_append, List.mem_singleton] at hm
          rcases hm with hm | rfl
          · exact h.allSet m hm
          · exact hset
        · rw [howed, hheard]
          exact hnone j
        · simp only [howed, hheard, hbase]
          exact ⟨hstopped, hnone⟩
        · rw [hbegun, hfirst] at hb
          cases hb
        · rw [howed, hheard, hbase, (hnone j).1, (hnone j).2, hstopped]
          simp
  | transition hbase hbegun hmodules howed hheard _ _ =>
      refine ⟨?_, fun j hj => ?_, fun hb => ?_, fun _ j hj => ?_, fun j hj => ?_⟩
      · rw [AllSet, hmodules]
        exact h.allSet
      · rw [hmodules] at hj
        rw [howed, hheard, if_neg (Nat.not_lt.mpr hj)]
        exact h.beyond j hj
      · rw [hbegun] at hb
        cases hb
      · rw [hmodules] at hj
        rw [howed, if_pos hj, List.length_cons]
        omega
      · rw [hmodules] at hj
        have hparity := h.parity j hj
        have hflip : s'.lc.base = .running ↔ ¬ s.lc.base = .running := by
          revert hbase
          cases s.lc.base <;> cases s'.lc.base <;> simp
        rw [howed, hheard, if_pos hj, List.length_cons, hflip, hparity, Nat.add_right_comm,
          Nat.odd_add_one]
  | told i st _ _ hbase hbegun hmodules howed hheard =>
      have hi : s.owed i = st :: s'.owed i := by
        rw [howed, if_pos rfl]
      have hlt : i < s.lc.modules.length := h.lt_of_owed hi
      -- what is paid is heard, so the sum of the two stays
      have hsum : ∀ j, (s'.owed j).length + (s'.heard j).length =
          (s.owed j).length + (s.heard j).length := by
        intro j
        rw [howed, hheard]
        split
        · simp only [List.length_append, List.length_cons, List.length_nil]
          omega
        · rfl
      refine ⟨?_, fun j hj => ?_, fun hb => ?_, fun hb j hj => ?_, fun j hj => ?_⟩
      · rw [AllSet, hmodules]
        exact h.allSet
      · rw [hmodules] at hj
        have hne : j ≠ i := by omega
        have hbeyond := h.beyond j hj
        rw [howed, if_neg hne] at hbeyond
        rw [hheard, if_neg hne]
        exact hbeyond
      · rw [hbegun, h.begun_of_owed hi] at hb
        cases hb
      · rw [hsum]
        exact h.pos (hbegun ▸ hb) j (hmodules ▸ hj)
      · rw [hsum, hbase]
        exact h.parity j (hmodules ▸ hj)

def Alternating (s : Daemon) : Prop := ∀ j, Alternates (s.heard j)

/-- Between the fan-outs the books leave the last notice no choice. -/
theorem Counted.inStep_iff (h : Counted s) : InStep s ↔ s.Alternating := by
  constructor
  · intro hstep j
    rcases Nat.lt_or_ge j s.lc.modules.length with hlt | hge
    · exact hstep.alternates j hlt
    · rw [(h.beyond j hge).2]
      exact alternates_nil
  · intro halt
    refine ⟨fun j _ => halt j, fun hstack hbegun j hj => ?_⟩
    have howed : s.owed j = [] := by
      rw [owed, hstack]
      rfl
    have hpos := h.pos hbegun j hj
    have hparity := h.parity j hj
    rw [howed, List.length_nil, Nat.zero_add] at hpos hparity
    obtain ⟨st, hlast⟩ : ∃ st, (s.heard j).getLast? = some st :=
      Option.isSome_iff_exists.mp (List.getLast?_isSome.mpr (List.length_pos_iff.mp hpos))
    have hsame : st = .running ↔ s.lc.base = .running :=
      ((halt j).last hlast).trans hparity.symm
    rw [hlast]
    revert hsame
    cases st <;> cases s.lc.base <;> simp

/-- A notice keeps the alternation exactly when it is due. -/
theorem Counted.alternating_iff (h : Counted s) (heffect : Effect s a s')
    (halt : s.Alternating) : s'.Alternating ↔ Due s a := by
  cases heffect with
  | quiet _ _ _ _ hheard hdue =>
      refine iff_of_true (fun j => ?_) hdue
      rw [hheard]
      exact halt j
  | transition _ _ _ _ hheard _ hdue =>
      refine iff_of_true (fun j => ?_) hdue
      rw [hheard]
      exact halt j
  | told i st hnext hup _ _ _ howed hheard =>
      have hi : s.owed i = st :: s'.owed i := by
        rw [howed, if_pos rfl]
      have hparity := h.parity i (h.lt_of_owed hi)
      have hothers : s'.Alternating ↔ Alternates (s.heard i ++ [st]) := by
        constructor
        · intro halt'
          have hthis := halt' i
          rwa [hheard, if_pos rfl] at hthis
        · intro hthis j
          rw [hheard]
          split
          · next hj =>
              subst hj
              exact hthis
          · exact halt j
      have hdue : Due s a ↔ (st = s.lc.base ↔ Odd (s.owed i).length) := by
        rw [hnext, Due, hup]
        simp
      -- the parity of what was heard, in terms of the state and of what is owed
      have hheardEven : Even (s.heard i).length ↔
          (s.lc.base = .running ↔ Odd (s.owed i).length) := by
        rw [hparity, Nat.odd_add]
        tauto
      rw [hothers, alternates_concat, and_iff_right (halt i), hdue, hheardEven]
      cases st <;> cases s.lc.base <;> simp

end Daemon

open Daemon

theorem counted_init : Counted daemon.init :=
  ⟨fun _ hm => absurd hm List.not_mem_nil, fun _ _ => ⟨rfl, rfl⟩,
    fun _ => ⟨rfl, fun _ => ⟨rfl, rfl⟩⟩,
    fun hbegun => absurd hbegun Bool.false_ne_true, fun _ hj => absurd hj (Nat.not_lt_zero _)⟩

/-- In every run in which modules are registered before the first start and with
both hooks set, and whose hooks make any calls to any depth: the start and
shutdown notices of each module alternate, and the last of them tells the state
between the fan-outs, throughout the run if and only if each notice that is
delivered is due. -/
theorem notices_alternate_iff (as : List Action) (hboots : daemon.Along Boots daemon.init as) :
    daemon.Throughout InStep daemon.init as ↔ daemon.Along Due daemon.init as := by
  have hinit : InStep daemon.init := counted_init.inStep_iff.mpr fun _ => alternates_nil
  refine System.throughout_iff_along (fun s a s' hcounted hok hs => ?_) as counted_init hinit hboots
  have heffect : Effect s a s' := effect_of_step hcounted.allSet hs
  have hcounted' : Counted s' := hcounted.step hok heffect
  refine ⟨hcounted', fun hstep => ?_⟩
  rw [hcounted'.inStep_iff]
  exact hcounted.alternating_iff heffect (hcounted.inStep_iff.mp hstep)

def wholeModule : Hooks := ⟨some "module", true, true, true⟩

/-- The hook of the first of two modules stops the daemon in the middle of a
start, and its shutdown hook starts it again in the middle of that stop. -/
def nestedCalls : List Action :=
  [.call (.registerModule wholeModule), .call (.registerModule wholeModule),
    .call .start, .next, .call .stop, .next, .call .start, .next, .ret, .next, .ret, .next,
    .ret, .next, .ret, .next, .ret, .next, .ret, .next]

theorem notices_alternate_iff_nested :
    ((daemon.run daemon.init nestedCalls).map fun s => (s.stack.length, s.heard 0, s.heard 1)) =
        some (0, [.running, .stopped, .running], [.running, .stopped, .running]) ∧
      daemon.Along Boots daemon.init nestedCalls ∧
      daemon.Throughout InStep daemon.init nestedCalls :=
  ⟨by decide +kernel, by decide +kernel,
    (notices_alternate_iff nestedCalls (by decide +kernel)).mpr (by decide +kernel)⟩

/-- The hook of the first of two modules stops the daemon in the middle of a
start. -/
def interruptedCalls : List Action :=
  [.call (.registerModule wholeModule), .call (.registerModule wholeModule),
    .call .start, .next, .call .stop, .next, .ret, .next, .ret, .next, .ret, .next, .ret, .next]

/-- The second module is shut down before it is started, and told to start when
the daemon has stopped. -/
theorem notices_alternate_fail : daemon.Along Boots daemon.init interruptedCalls ∧
    ∃ s, daemon.run daemon.init interruptedCalls = some s ∧ s.stack = [] ∧
      s.lc.base = .stopped ∧ s.heard 1 = [.stopped, .running] ∧ ¬ InStep s := by
  refine ⟨by decide +kernel, ?_⟩
  obtain ⟨s, hs, hend⟩ := Option.map_eq_some_iff.mp
    (show (daemon.run daemon.init interruptedCalls).map
        (fun s => (s.stack.length, s.lc.modules.length, s.lc.base, s.heard 1)) =
        some (0, 2, .stopped, [.stopped, .running]) by decide +kernel)
  simp only [Prod.mk.injEq, List.length_eq_zero_iff] at hend
  obtain ⟨hstack, hmodules, hbase, hheard⟩ := hend
  refine ⟨s, hs, hstack, hbase, hheard, fun hstep => ?_⟩
  have hfirst := hstep.alternates 1 (by omega) 0 .stopped (by rw [hheard]; rfl)
  cases hfirst.mpr (by decide)

/-! ### Hooks that wait -/

/-- At most one notice is owed to a module, and it tells the state. -/
def Settled (s : Daemon) : Prop := ∀ j, s.owed j = [] ∨ s.owed j = [s.lc.base]

theorem Settled.step {s s' : Daemon} {a : Action} (h : Settled s) (hcounted : Counted s)
    (hcalm : Calm s a) (heffect : Effect s a s') : Settled s' ∧ Due s a := by
  cases heffect with
  | quiet hbase _ _ howed _ hdue =>
      refine ⟨fun j => ?_, hdue⟩
      rw [howed, hbase]
      exact h j
  | transition _ _ _ howed _ hnone hdue =>
      refine ⟨fun j => ?_, hdue⟩
      rw [howed]
      split
      · next hj =>
          rw [hnone hcalm j hj]
          exact .inr rfl
      · next hj => exact .inl (hcounted.beyond j (Nat.le_of_not_lt hj)).1
  | told i st hnext hup hbase _ _ howed _ =>
      have hi : s.owed i = st :: s'.owed i := by
        rw [howed, if_pos rfl]
      have honly : s.owed i = [s.lc.base] :=
        (h i).resolve_left fun hnil => List.cons_ne_nil _ _ (hi.symm.trans hnil)
      have hpaid : s'.owed i = [] := List.tail_eq_of_cons_eq (hi.symm.trans honly)
      have hst : st = s.lc.base := List.head_eq_of_cons_eq (hi.symm.trans honly)
      refine ⟨fun j => ?_, ?_⟩
      · rcases eq_or_ne j i with rfl | hj
        · exact .inl hpaid
        · have hother := howed j
          rw [if_neg hj] at hother
          rw [← hother, hbase]
          exact h j
      · rw [hnext]
        intro p hp
        obtain rfl := Option.some.inj (hup.symm.trans hp)
        rw [honly]
        exact iff_of_true hst odd_one

/-- Every notice is due where no hook makes a transition while its fan-out or one
around it has modules left. -/
theorem due_of_calm (as : List Action)
    (h : daemon.Along (fun s a => Boots s a ∧ Calm s a) daemon.init as) :
    daemon.Along Due daemon.init as := by
  refine System.Along.imp (I := fun s => Counted s ∧ Settled s) ?_ as
    ⟨counted_init, fun _ => .inl rfl⟩ h
  rintro s a s' ⟨hcounted, hsettled⟩ ⟨hboots, hcalm⟩ hs
  have heffect : Effect s a s' := effect_of_step hcounted.allSet hs
  obtain ⟨hsettled', hdue⟩ := hsettled.step hcounted hcalm heffect
  exact ⟨⟨hcounted.step hboots heffect, hsettled'⟩, hdue⟩

end Savvy.Health
