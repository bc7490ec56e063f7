import Mathlib.Data.Fintype.Defs
import Mathlib.Data.Set.Insert
import Mathlib.Logic.Function.Basic
import Savvy.Kit.Calls
import Savvy.Kit.System

/-!
Handles. A handle is a name that the world hands out for something it has opened,
and hands out again as soon as it is closed. A program that keeps a handle for
too long then works on somebody else's. The handles here belong to objects, and
operations on the objects run at the same time, one call of one of them after
the other.

An operation works on one object, its subject, and may look at others. It is
exclusive if it changes the handles of its subject. The callers promise that an
exclusive operation does not meet another one on its subject; what a single
operation does with the handles it sees is checked alone. From both it follows
that every call is made on a handle that is open and belongs to an object of the
operation that makes it, in every interleaving and for every choice of handles.
-/

namespace Savvy.Kit

/-- What calls do with handles: the handles a call names, the handles it closes,
and the handles an answer brings. -/
structure Handling (C : Type) (R : C → Type) (H : Type) where
  names : C → List H
  closes : C → List H
  opens : (c : C) → R c → List H

namespace Handling

variable {C : Type} {R : C → Type} {H : Type} (A : Handling C R H)

/-- A program that owns handles and may name others that are lent to it. Its state
is what it owns. -/
def owning (lent : Set H) : Contract C R (Set H) where
  permits own c := (∀ h ∈ A.names c, h ∈ own ∪ lent) ∧ ∀ h ∈ A.closes c, h ∈ own
  answers own c r own' := (∀ h ∈ A.opens c r, h ∉ own ∪ lent) ∧ (A.opens c r).Nodup ∧
    own' = {h | h ∈ own ∧ h ∉ A.closes c ∨ h ∈ A.opens c r}

/-- A program that only names handles that are lent to it. -/
def borrowing (lent : Set H) : Contract C R Unit where
  permits _ c := (∀ h ∈ A.names c, h ∈ lent) ∧ A.closes c = [] ∧ ∀ r, A.opens c r = []
  answers _ _ _ _ := True

variable {A} {lent own : Set H} {c : C}

theorem steady_owning (hnames : ∀ h ∈ A.names c, h ∈ own ∪ lent) (hcloses : A.closes c = [])
    (hopens : ∀ r, A.opens c r = []) : (A.owning lent).Steady own c := by
  refine ⟨⟨hnames, by simp [hcloses]⟩, ?_⟩
  rintro r own' ⟨-, -, rfl⟩
  simp [hcloses, hopens]

theorem steady_borrowing (hnames : ∀ h ∈ A.names c, h ∈ lent) (hcloses : A.closes c = [])
    (hopens : ∀ r, A.opens c r = []) : (A.borrowing lent).Steady () c :=
  ⟨⟨hnames, hcloses, hopens⟩, fun _ _ _ => rfl⟩

theorem steady_own {h : H} (hnames : A.names c = [h]) (hh : h ∈ own) (hcloses : A.closes c = [])
    (hopens : ∀ r, A.opens c r = []) : (A.owning lent).Steady own c := by
  refine steady_owning ?_ hcloses hopens
  intro h' hname
  rw [hnames, List.mem_singleton] at hname
  exact .inl (hname ▸ hh)

theorem steady_lent {h : H} (hnames : A.names c = [h]) (hh : h ∈ lent) (hcloses : A.closes c = [])
    (hopens : ∀ r, A.opens c r = []) : (A.borrowing lent).Steady () c := by
  refine steady_borrowing ?_ hcloses hopens
  intro h' hname
  rw [hnames, List.mem_singleton] at hname
  exact hname ▸ hh

variable {α : Type} {k : R c → Prog C R α} {Q : α → Set H → Prop}

/-- The rule for a call that closes a handle: it was owned and is not any more. -/
theorem meets_closing {h : H} (hnames : A.names c = [h]) (hcloses : A.closes c = [h])
    (hopens : ∀ r, A.opens c r = []) (hh : h ∈ own)
    (hk : ∀ r, (k r).Meets (A.owning lent) (own \ {h}) Q) :
    (Prog.perform c >>= k).Meets (A.owning lent) own Q := by
  refine .ask ⟨?_, ?_⟩ ?_
  · simpa [hnames] using .inl hh
  · simpa [hcloses] using hh
  · rintro r own' ⟨-, -, rfl⟩
    have hown : {h | h ∈ own ∧ h ∉ A.closes c ∨ h ∈ A.opens c r} = own \ {h} := by
      ext h
      simp [hcloses, hopens]
    rw [hown]
    exact hk r

/-- The rule for a call that opens handles, for a program that has none. -/
theorem meets_opening (hnames : A.names c = []) (hcloses : A.closes c = [])
    (hk : ∀ r, (A.opens c r).Nodup → (k r).Meets (A.owning lent) {h | h ∈ A.opens c r} Q) :
    (Prog.perform c >>= k).Meets (A.owning lent) ∅ Q := by
  refine .ask ⟨by simp [hnames], by simp [hcloses]⟩ ?_
  rintro r own' ⟨-, hnodup, rfl⟩
  have hown : {h | h ∈ (∅ : Set H) ∧ h ∉ A.closes c ∨ h ∈ A.opens c r} =
      {h | h ∈ A.opens c r} := by
    ext h
    simp
  rw [hown]
  exact hk r hnodup

end Handling

/-- Operations on objects `ω` whose states are `σ`, of which the `valid` ones occur.
An operation is begun only where it is `ready`, and its program returns the state
it leaves its subject in, and a result. -/
structure Service (C : Type) (R : C → Type) (H ω : Type) (σ : ω → Type) (Op ρ : Type) where
  handling : Handling C R H
  handles : {o : ω} → σ o → Set H
  valid : {o : ω} → σ o → Prop
  subject : Op → ω
  exclusive : Op → Bool
  borrows : Op → List ω
  ready : Op → ((o : ω) → σ o) → Prop
  prog : (op : Op) → ((o : ω) → σ o) → Prog C R (σ (subject op) × ρ)

namespace Service

variable {C : Type} {R : C → Type} {H ω : Type} {σ : ω → Type} {Op ρ : Type} (S : Service C R H ω σ Op ρ)

def Touches (op : Op) (o : ω) : Prop := o = S.subject op ∨ o ∈ S.borrows op

def lent (op : Op) (objects : (o : ω) → σ o) : Set H :=
  {h | ∃ o ∈ S.borrows op, h ∈ S.handles (objects o)}

/-- Each operation, taken alone, keeps to the handles of its objects, and an
exclusive one leaves its subject with the handles it then owns. -/
structure Tidy : Prop where
  exclusive (op : Op) (objects : (o : ω) → σ o) (h : S.exclusive op = true)
    (hvalid : ∀ o, S.valid (objects o)) (hready : S.ready op objects)
    (hapart : ∀ h ∈ S.handles (objects (S.subject op)), h ∉ S.lent op objects) :
    (S.prog op objects).Meets (S.handling.owning (S.lent op objects))
      (S.handles (objects (S.subject op))) fun res own => own = S.handles res.1 ∧ S.valid res.1
  shared (op : Op) (objects : (o : ω) → σ o) (h : S.exclusive op = false) :
    (S.prog op objects).Meets
      (S.handling.borrowing (S.handles (objects (S.subject op)) ∪ S.lent op objects)) ()
      fun _ _ => True

def Compatible (op op' : Op) : Prop :=
  (S.exclusive op = true → ¬ S.Touches op' (S.subject op)) ∧
    (S.exclusive op' = true → ¬ S.Touches op (S.subject op'))

end Service

/-- The objects, the operations in progress, the object each open handle was opened
for, and the rest of the world. -/
structure Pool {C : Type} {R : C → Type} {H ω : Type} {σ : ω → Type} {Op ρ : Type}
    (S : Service C R H ω σ Op ρ) (τ κ : Type) where
  objects : (o : ω) → σ o
  tasks : τ → Option (Σ op, Prog C R (σ (S.subject op) × ρ))
  table : H → Option ω
  world : κ

/-- The operation a thread is in and the call it makes next. -/
def Pool.calling {C : Type} {R : C → Type} {H ω : Type} {σ : ω → Type} {Op ρ : Type}
    {S : Service C R H ω σ Op ρ} {τ κ : Type} (s : Pool S τ κ) (t : τ) : Option (Op × C) :=
  match s.tasks t with
  | some ⟨op, .call c _⟩ => some (op, c)
  | _ => none

/-- A thread begins an operation, one of its calls is answered, or it is done. -/
inductive PoolAct (C : Type) (R : C → Type) (Op τ : Type)
  | start (t : τ) (op : Op)
  | answer (t : τ) (reply : (c : C) → R c)
  | finish (t : τ)

namespace Service

variable {C : Type} {R : C → Type} {H ω : Type} {σ : ω → Type} {Op ρ τ κ : Type} (S : Service C R H ω σ Op ρ)
variable [DecidableEq H] [DecidableEq ω] [DecidableEq τ]

def retable (table : H → Option ω) (o : ω) (c : C) (r : R c) : H → Option ω := fun h =>
  if h ∈ S.handling.closes c then none
  else if h ∈ S.handling.opens c r then some o
  else table h

def Fresh (table : H → Option ω) (c : C) (r : R c) : Prop :=
  (∀ h ∈ S.handling.opens c r, table h = none) ∧ (S.handling.opens c r).Nodup

instance (table : H → Option ω) (c : C) (r : R c) : Decidable (S.Fresh table c r) :=
  inferInstanceAs (Decidable (_ ∧ _))

def store (objects : (o : ω) → σ o) (op : Op) (st : σ (S.subject op)) : (o : ω) → σ o :=
  if S.exclusive op then Function.update objects (S.subject op) st else objects

/-- Any number of operations in progress. The world answers as `respond` allows,
and opens only handles that are not in use. -/
def poolStep (respond : κ → (c : C) → R c → Option κ) (s : Pool S τ κ) :
    PoolAct C R Op τ → Option (Pool S τ κ)
  | .start t op =>
      match s.tasks t with
      | none => some { s with tasks := Function.update s.tasks t (some ⟨op, S.prog op s.objects⟩) }
      | some _ => none
  | .answer t reply =>
      match s.tasks t with
      | some ⟨op, .call c k⟩ =>
          if S.Fresh s.table c (reply c) then
            (respond s.world c (reply c)).map fun world =>
              { s with
                tasks := Function.update s.tasks t (some ⟨op, k (reply c)⟩)
                table := S.retable s.table (S.subject op) c (reply c)
                world := world }
          else none
      | _ => none
  | .finish t =>
      match s.tasks t with
      | some ⟨op, .ret res⟩ =>
          some
            { s with
              tasks := Function.update s.tasks t none
              objects := S.store s.objects op res.1 }
      | _ => none

/-- The objects as `init` says, with no operation in progress and no handle
open. -/
def pool (init : (o : ω) → σ o) (world : κ) (respond : κ → (c : C) → R c → Option κ) :
    System (Pool S τ κ) (PoolAct C R Op τ) where
  init := ⟨init, fun _ => none, fun _ => none, world⟩
  step := S.poolStep respond

/-- What the callers promise when they begin an operation. -/
def Promised (s : Pool S τ κ) : PoolAct C R Op τ → Prop
  | .start _ op => S.ready op s.objects ∧ S.subject op ∉ S.borrows op ∧
      ∀ t, ∀ task ∈ s.tasks t, S.Compatible op task.1
  | _ => True

instance (op : Op) (o : ω) : Decidable (S.Touches op o) := inferInstanceAs (Decidable (_ ∨ _))

instance (op op' : Op) : Decidable (S.Compatible op op') := inferInstanceAs (Decidable (_ ∧ _))

instance [Fintype τ] [∀ op objects, Decidable (S.ready op objects)] (s : Pool S τ κ)
    (a : PoolAct C R Op τ) : Decidable (S.Promised s a) :=
  match a with
  | .start _ op => inferInstanceAs (Decidable (S.ready op s.objects ∧ _ ∧
      ∀ t, ∀ task ∈ s.tasks t, S.Compatible op task.1))
  | .answer _ _ => .isTrue trivial
  | .finish _ => .isTrue trivial

/-! ### Steps -/

variable {S} {s s' : Pool S τ κ} {respond : κ → (c : C) → R c → Option κ}

theorem poolStep_cases {a : PoolAct C R Op τ} (h : S.poolStep respond s a = some s') :
    (∃ t op, a = .start t op ∧ s.tasks t = none ∧
      s' = { s with tasks := Function.update s.tasks t (some ⟨op, S.prog op s.objects⟩) }) ∨
    (∃ t op c k r world, s.tasks t = some ⟨op, .call c k⟩ ∧ S.Fresh s.table c r ∧
      s' =
        { s with
          tasks := Function.update s.tasks t (some ⟨op, k r⟩)
          table := S.retable s.table (S.subject op) c r
          world := world }) ∨
    (∃ t op res, s.tasks t = some ⟨op, .ret res⟩ ∧
      s' =
        { s with
          tasks := Function.update s.tasks t none
          objects := S.store s.objects op res.1 }) := by
  cases a with
  | start t op =>
      simp only [poolStep] at h
      split at h
      · next hfree => exact .inl ⟨t, op, rfl, hfree, (Option.some.inj h).symm⟩
      · cases h
  | answer t reply =>
      simp only [poolStep] at h
      split at h
      · next op c k htask =>
          split at h
          · next hfresh =>
              obtain ⟨world, -, rfl⟩ := Option.map_eq_some_iff.mp h
              exact .inr (.inl ⟨t, op, c, k, reply c, world, htask, hfresh, rfl⟩)
          · cases h
      · cases h
  | finish t =>
      simp only [poolStep] at h
      split at h
      · next op res htask =>
          exact .inr (.inr ⟨t, op, res, htask, (Option.some.inj h).symm⟩)
      · cases h

/-! ### The invariant -/

def Idle (S : Service C R H ω σ Op ρ) (s : Pool S τ κ) (o : ω) : Prop :=
  ∀ t op p, s.tasks t = some ⟨op, p⟩ → S.exclusive op = true → S.subject op ≠ o

structure PoolInv (S : Service C R H ω σ Op ρ) (s : Pool S τ κ) : Prop where
  valid : ∀ o, S.valid (s.objects o)
  compatible : ∀ t t' op op' p p', t ≠ t' → s.tasks t = some ⟨op, p⟩ →
    s.tasks t' = some ⟨op', p'⟩ → S.Compatible op op'
  apart : ∀ t op p, s.tasks t = some ⟨op, p⟩ → S.subject op ∉ S.borrows op
  idle : ∀ o, S.Idle s o → ∀ h, s.table h = some o ↔ h ∈ S.handles (s.objects o)
  owner : ∀ t op p, s.tasks t = some ⟨op, p⟩ → S.exclusive op = true →
    p.Meets (S.handling.owning (S.lent op s.objects)) {h | s.table h = some (S.subject op)}
      fun res own => own = S.handles res.1 ∧ S.valid res.1
  user : ∀ t op p, s.tasks t = some ⟨op, p⟩ → S.exclusive op = false →
    p.Meets (S.handling.borrowing (S.handles (s.objects (S.subject op)) ∪ S.lent op s.objects)) ()
      fun _ _ => True

omit [DecidableEq H] [DecidableEq ω] [DecidableEq τ] in
/-- An object that an operation only looks at is not being changed. -/
theorem PoolInv.idle_of_touches (hi : S.PoolInv s) {t : τ} {op : Op} {p : Prog C R (σ (S.subject op) × ρ)}
    (ht : s.tasks t = some ⟨op, p⟩) {o : ω} (ho : S.Touches op o)
    (hshared : o = S.subject op → S.exclusive op = false) : S.Idle s o := by
  rintro t' op' p' ht' hexcl rfl
  rcases eq_or_ne t t' with rfl | htt
  · rw [ht] at ht'
    cases ht'
    rw [hshared rfl] at hexcl
    cases hexcl
  · exact (hi.compatible t t' op op' p p' htt ht ht').2 hexcl ho

omit [DecidableEq H] [DecidableEq ω] [DecidableEq τ] in
/-- A borrowed handle is open and belongs to the object it was borrowed from. -/
theorem PoolInv.mem_lent (hi : S.PoolInv s) {t : τ} {op : Op} {p : Prog C R (σ (S.subject op) × ρ)}
    (ht : s.tasks t = some ⟨op, p⟩) {h : H} (hh : h ∈ S.lent op s.objects) :
    ∃ o ∈ S.borrows op, s.table h = some o := by
  obtain ⟨o, ho, hmem⟩ := hh
  have hidle : S.Idle s o := by
    refine hi.idle_of_touches ht (.inr ho) ?_
    rintro rfl
    exact absurd ho (hi.apart t op p ht)
  exact ⟨o, ho, (hi.idle o hidle h).mpr hmem⟩

omit [DecidableEq H] [DecidableEq ω] [DecidableEq τ] in
/-- The handles an operation may name are open and belong to objects it touches. -/
theorem PoolInv.mem_shared (hi : S.PoolInv s) {t : τ} {op : Op} {p : Prog C R (σ (S.subject op) × ρ)}
    (ht : s.tasks t = some ⟨op, p⟩) (hshared : S.exclusive op = false) {h : H}
    (hh : h ∈ S.handles (s.objects (S.subject op)) ∪ S.lent op s.objects) :
    ∃ o, S.Touches op o ∧ s.table h = some o := by
  rcases hh with hh | hh
  · have hidle := hi.idle_of_touches ht (.inl rfl) fun _ => hshared
    exact ⟨S.subject op, .inl rfl, (hi.idle _ hidle h).mpr hh⟩
  · obtain ⟨o, ho, htable⟩ := hi.mem_lent ht hh
    exact ⟨o, .inr ho, htable⟩

/-! ### Every step keeps the invariant -/

omit [DecidableEq H] [DecidableEq ω] in
theorem task_update {t t' : τ} {v : Option (Σ op, Prog C R (σ (S.subject op) × ρ))}
    {y : Σ op, Prog C R (σ (S.subject op) × ρ)} (h : Function.update s.tasks t v t' = some y) :
    (t' = t ∧ v = some y) ∨ (t' ≠ t ∧ s.tasks t' = some y) := by
  rcases eq_or_ne t' t with rfl | hne
  · exact .inl ⟨rfl, by rwa [Function.update_self] at h⟩
  · exact .inr ⟨hne, by rwa [Function.update_of_ne hne] at h⟩

omit [DecidableEq H] [DecidableEq ω] [DecidableEq τ] in
theorem Compatible.symm {op op' : Op} (h : S.Compatible op op') : S.Compatible op' op :=
  ⟨h.2, h.1⟩

omit [DecidableEq H] [DecidableEq ω] in
/-- The new operation starts with the handles of its subject, which nobody else is
changing. -/
theorem PoolInv.start (hS : S.Tidy) (hi : S.PoolInv s) {t : τ} {op : Op}
    (hnone : s.tasks t = none) (hok : S.Promised s (.start t op)) :
    S.PoolInv { s with tasks := Function.update s.tasks t (some ⟨op, S.prog op s.objects⟩) } := by
  obtain ⟨hready, hapart, hcompat⟩ := hok
  have hidle (o : ω) (ho : S.Touches op o) : S.Idle s o := by
    rintro t' op' p' ht' hexcl rfl
    exact (hcompat t' _ ht').2 hexcl ho
  refine ⟨hi.valid, ?_, ?_, ?_, ?_, ?_⟩
  · intro t₁ t₂ op₁ op₂ p₁ p₂ hne h₁ h₂
    obtain ⟨heq₁, hv₁⟩ | ⟨-, hold₁⟩ := task_update h₁
    · obtain ⟨heq₂, -⟩ | ⟨-, hold₂⟩ := task_update h₂
      · exact absurd (heq₁.trans heq₂.symm) hne
      · cases hv₁
        exact hcompat t₂ _ hold₂
    · obtain ⟨-, hv₂⟩ | ⟨-, hold₂⟩ := task_update h₂
      · cases hv₂
        exact (hcompat t₁ _ hold₁).symm
      · exact hi.compatible t₁ t₂ op₁ op₂ p₁ p₂ hne hold₁ hold₂
  · intro t' op' p' h
    obtain ⟨-, hv⟩ | ⟨-, h⟩ := task_update h
    · cases hv
      exact hapart
    · exact hi.apart t' op' p' h
  · intro o ho
    refine hi.idle o fun t' op' p' ht' => ho t' op' p' ?_
    have hne : t' ≠ t := by
      rintro rfl
      rw [hnone] at ht'
      cases ht'
    exact (Function.update_of_ne hne _ _).trans ht'
  · intro t' op' p' h hexcl
    obtain ⟨-, hv⟩ | ⟨-, h⟩ := task_update h
    · cases hv
      have hown : {h | s.table h = some (S.subject op)} =
          S.handles (s.objects (S.subject op)) :=
        Set.ext (hi.idle _ (hidle _ (.inl rfl)))
      simp only [hown]
      refine hS.exclusive op s.objects hexcl hi.valid hready ?_
      rintro h hmem ⟨o, ho, hmem'⟩
      rw [← hi.idle _ (hidle _ (.inl rfl))] at hmem
      rw [← hi.idle _ (hidle _ (.inr ho)), hmem, Option.some.injEq] at hmem'
      exact hapart (hmem' ▸ ho)
    · exact hi.owner t' op' p' h hexcl
  · intro t' op' p' h hshared
    obtain ⟨-, hv⟩ | ⟨-, h⟩ := task_update h
    · cases hv
      exact hS.shared op s.objects hshared
    · exact hi.user t' op' p' h hshared

omit [DecidableEq ω] in
/-- An answer changes the handles of no object but the subject of the operation. -/
theorem retable_of_ne {table : H → Option ω} {o o' : ω} {c : C} {r : R c} (hne : o' ≠ o)
    (hfresh : S.Fresh table c r) (hcloses : ∀ h ∈ S.handling.closes c, table h = some o) (h : H) :
    S.retable table o c r h = some o' ↔ table h = some o' := by
  unfold retable
  split
  · next hclosed => simp [hcloses h hclosed, hne.symm]
  · split
    · next hopened => simp [hfresh.1 h hopened, hne.symm]
    · rfl

omit [DecidableEq ω] in
theorem retable_self {table : H → Option ω} {o : ω} {c : C} {r : R c}
    (hfresh : S.Fresh table c r) (hcloses : ∀ h ∈ S.handling.closes c, table h = some o) :
    {h | S.retable table o c r h = some o} =
      {h | h ∈ {h | table h = some o} ∧ h ∉ S.handling.closes c ∨ h ∈ S.handling.opens c r} := by
  ext h
  simp only [Set.mem_ofPred_eq, retable]
  split
  · next hclosed =>
      have hnot : h ∉ S.handling.opens c r := by
        intro hopened
        have hopen := hcloses h hclosed
        rw [hfresh.1 h hopened] at hopen
        cases hopen
      simp [hclosed, hnot]
  · next hclosed =>
      split
      · next hopened => simp [hopened]
      · next hopened => simp [hclosed, hopened]

omit [DecidableEq H] [DecidableEq ω] [DecidableEq τ] in
/-- A call closes handles of the subject only. -/
theorem PoolInv.closes (hi : S.PoolInv s) {t : τ} {op : Op} {c : C}
    {k : R c → Prog C R (σ (S.subject op) × ρ)} (ht : s.tasks t = some ⟨op, .call c k⟩) :
    ∀ h ∈ S.handling.closes c, s.table h = some (S.subject op) ∧ S.exclusive op = true := by
  intro h hclosed
  cases hexcl : S.exclusive op with
  | true => exact ⟨(hi.owner t op _ ht hexcl).1.2 h hclosed, rfl⟩
  | false =>
      have hnone := (hi.user t op _ ht hexcl).1.2.1
      rw [hnone] at hclosed
      cases hclosed

omit [DecidableEq ω] [DecidableEq τ] in
/-- What an answer does to the table shows only at the subject, and only if the
operation is exclusive. -/
theorem PoolInv.retable_iff (hi : S.PoolInv s) {t : τ} {op : Op} {c : C} {r : R c}
    {k : R c → Prog C R (σ (S.subject op) × ρ)} (ht : s.tasks t = some ⟨op, .call c k⟩)
    (hfresh : S.Fresh s.table c r) {o : ω} (ho : S.exclusive op = true → o ≠ S.subject op)
    (h : H) : S.retable s.table (S.subject op) c r h = some o ↔ s.table h = some o := by
  cases hexcl : S.exclusive op with
  | true => exact retable_of_ne (ho hexcl) hfresh (fun h hc => (hi.closes ht h hc).1) h
  | false =>
      obtain ⟨-, hcloses, hopens⟩ := (hi.user t op _ ht hexcl).1
      simp [retable, hcloses, hopens]

omit [DecidableEq ω] in
/-- A call of an operation keeps the invariant, whichever new handles it brings. -/
theorem PoolInv.answer (hi : S.PoolInv s) {t : τ} {op : Op} {c : C} {r : R c}
    {k : R c → Prog C R (σ (S.subject op) × ρ)} (ht : s.tasks t = some ⟨op, .call c k⟩)
    (hfresh : S.Fresh s.table c r) (world : κ) :
    S.PoolInv
      { s with
        tasks := Function.update s.tasks t (some ⟨op, k r⟩)
        table := S.retable s.table (S.subject op) c r
        world := world } := by
  -- The operation of each task is the one it was.
  have hold {t' : τ} {op' : Op} {p' : Prog C R (σ (S.subject op') × ρ)}
      (h : Function.update s.tasks t (some ⟨op, k r⟩) t' = some ⟨op', p'⟩) :
      ∃ q, s.tasks t' = some ⟨op', q⟩ := by
    obtain ⟨rfl, hv⟩ | ⟨-, h⟩ := task_update h
    · cases hv
      exact ⟨_, ht⟩
    · exact ⟨p', h⟩
  refine ⟨hi.valid, ?_, ?_, ?_, ?_, ?_⟩
  · intro t₁ t₂ op₁ op₂ p₁ p₂ hne h₁ h₂
    obtain ⟨q₁, hq₁⟩ := hold h₁
    obtain ⟨q₂, hq₂⟩ := hold h₂
    exact hi.compatible t₁ t₂ op₁ op₂ q₁ q₂ hne hq₁ hq₂
  · intro t' op' p' h
    obtain ⟨q, hq⟩ := hold h
    exact hi.apart t' op' q hq
  · intro o ho h
    have hidle : S.Idle s o := by
      intro t' op' p' ht' hexcl
      rcases eq_or_ne t' t with rfl | hne
      · rw [ht] at ht'
        cases ht'
        exact ho t' op (k r) (Function.update_self ..) hexcl
      · exact ho t' op' p' ((Function.update_of_ne hne _ _).trans ht') hexcl
    rw [hi.retable_iff ht hfresh (fun hexcl => (hidle t op _ ht hexcl).symm)]
    exact hi.idle o hidle h
  · intro t' op' p' h hexcl
    obtain ⟨-, hv⟩ | ⟨hne, h⟩ := task_update h
    · cases hv
      obtain ⟨⟨-, hcloses⟩, hrest⟩ := hi.owner t op _ ht hexcl
      rw [retable_self hfresh hcloses]
      refine hrest r _ ⟨?_, hfresh.2, rfl⟩
      -- A fresh handle is neither owned nor lent, since those are in the table.
      rintro h hopened (hown | hlent)
      · have htable : s.table h = some (S.subject op) := hown
        rw [hfresh.1 h hopened] at htable
        cases htable
      · obtain ⟨o, -, htable⟩ := hi.mem_lent ht hlent
        rw [hfresh.1 h hopened] at htable
        cases htable
    · have hsubject : S.exclusive op = true → S.subject op' ≠ S.subject op := by
        intro hexcl' heq
        exact (hi.compatible t' t op' op p' _ hne h ht).1 hexcl (.inl heq)
      have hsame : {h | S.retable s.table (S.subject op) c r h = some (S.subject op')} =
          {h | s.table h = some (S.subject op')} :=
        Set.ext fun h => hi.retable_iff ht hfresh hsubject h
      rw [hsame]
      exact hi.owner t' op' p' h hexcl
  · intro t' op' p' h hshared
    obtain ⟨-, hv⟩ | ⟨-, h⟩ := task_update h
    · cases hv
      exact (hi.user t op _ ht hshared).2 r () trivial
    · exact hi.user t' op' p' h hshared

omit [DecidableEq H] in
theorem store_self {objects : (o : ω) → σ o} {op : Op} {st : σ (S.subject op)}
    (hexcl : S.exclusive op = true) : S.store objects op st (S.subject op) = st := by
  rw [store, if_pos hexcl, Function.update_self]

omit [DecidableEq H] in
theorem store_of_ne {objects : (o : ω) → σ o} {op : Op} {st : σ (S.subject op)} {o : ω}
    (ho : S.exclusive op = true → o ≠ S.subject op) : S.store objects op st o = objects o := by
  unfold store
  split
  · next hexcl => exact Function.update_of_ne (ho hexcl) _ _
  · rfl

omit [DecidableEq H] in
/-- When an operation is done its subject has the handles that the operation owned. -/
theorem PoolInv.finish (hi : S.PoolInv s) {t : τ} {op : Op} {res : σ (S.subject op) × ρ}
    (ht : s.tasks t = some ⟨op, .ret res⟩) :
    S.PoolInv
      { s with
        tasks := Function.update s.tasks t none
        objects := S.store s.objects op res.1 } := by
  have hold {t' : τ} {op' : Op} {p' : Prog C R (σ (S.subject op') × ρ)}
      (h : Function.update s.tasks t none t' = some ⟨op', p'⟩) :
      t' ≠ t ∧ s.tasks t' = some ⟨op', p'⟩ := by
    obtain ⟨-, hv⟩ | h := task_update h
    · cases hv
    · exact h
  -- The objects that the other operations look at have not changed.
  have hsame {t' : τ} {op' : Op} {p' : Prog C R (σ (S.subject op') × ρ)} (hne : t' ≠ t)
      (ht' : s.tasks t' = some ⟨op', p'⟩) {o : ω} (ho : S.Touches op' o) :
      S.store s.objects op res.1 o = s.objects o := by
    refine store_of_ne fun hexcl => ?_
    rintro rfl
    exact (hi.compatible t' t op' op p' _ hne ht' ht).2 hexcl ho
  have hlent {t' : τ} {op' : Op} {p' : Prog C R (σ (S.subject op') × ρ)} (hne : t' ≠ t)
      (ht' : s.tasks t' = some ⟨op', p'⟩) :
      S.lent op' (S.store s.objects op res.1) = S.lent op' s.objects := by
    ext h
    refine exists_congr fun o => and_congr_right fun ho => ?_
    rw [hsame hne ht' (.inr ho)]
  refine ⟨?_, ?_, ?_, ?_, ?_, ?_⟩
  · intro o
    by_cases hthis : S.exclusive op = true ∧ o = S.subject op
    · obtain ⟨hexcl, rfl⟩ := hthis
      simp only [store_self hexcl]
      exact (hi.owner t op _ ht hexcl).2
    · simp only [store_of_ne fun hexcl heq => hthis ⟨hexcl, heq⟩]
      exact hi.valid o
  · intro t₁ t₂ op₁ op₂ p₁ p₂ hne h₁ h₂
    exact hi.compatible t₁ t₂ op₁ op₂ p₁ p₂ hne (hold h₁).2 (hold h₂).2
  · intro t' op' p' h
    exact hi.apart t' op' p' (hold h).2
  · intro o ho h
    by_cases hthis : S.exclusive op = true ∧ o = S.subject op
    · obtain ⟨hexcl, rfl⟩ := hthis
      have hown : {h | s.table h = some (S.subject op)} = S.handles res.1 :=
        (hi.owner t op _ ht hexcl).1
      simp only [store_self hexcl, ← hown]
      rfl
    · have hidle : S.Idle s o := by
        rintro t' op' p' ht' hexcl rfl
        rcases eq_or_ne t' t with rfl | hne
        · rw [ht] at ht'
          cases ht'
          exact hthis ⟨hexcl, rfl⟩
        · exact ho t' op' p' ((Function.update_of_ne hne _ _).trans ht') hexcl rfl
      simp only [store_of_ne fun hexcl heq => hthis ⟨hexcl, heq⟩]
      exact hi.idle o hidle h
  · intro t' op' p' h hexcl
    obtain ⟨hne, h⟩ := hold h
    rw [hlent hne h]
    exact hi.owner t' op' p' h hexcl
  · intro t' op' p' h hshared
    obtain ⟨hne, h⟩ := hold h
    rw [hlent hne h]
    simp only [hsame hne h (.inl rfl)]
    exact hi.user t' op' p' h hshared

/-! ### Every run -/

variable {init : (o : ω) → σ o} {world : κ}

/-- Operations that are tidy alone are tidy together. -/
theorem poolInv_of_reach (hS : S.Tidy) (hinit : ∀ o, S.handles (init o) = ∅)
    (hvalid : ∀ o, S.valid (init o))
    (h : (S.pool (τ := τ) init world respond).ReachBy S.Promised s) : S.PoolInv s := by
  refine h.invariant ?_ ?_
  · refine ⟨hvalid, ?_, ?_, ?_, ?_, ?_⟩
    all_goals simp [pool, hinit]
  · intro s a s' hi hok hs
    obtain ⟨t, op, rfl, hnone, rfl⟩ | ⟨t, op, c, k, r, world', ht, hfresh, rfl⟩ |
      ⟨t, op, res, ht, rfl⟩ := poolStep_cases hs
    · exact hi.start hS hnone hok
    · exact hi.answer ht hfresh world'
    · exact hi.finish ht

omit [DecidableEq H] [DecidableEq ω] [DecidableEq τ] in
theorem calling_eq_some {t : τ} {op : Op} {c : C} (h : s.calling t = some (op, c)) :
    ∃ k, s.tasks t = some ⟨op, .call c k⟩ := by
  unfold Pool.calling at h
  split at h
  · next op' c' k ht =>
      cases h
      exact ⟨k, ht⟩
  · cases h

omit [DecidableEq H] [DecidableEq ω] [DecidableEq τ] in
/-- Every handle a call names is open and belongs to an object of the operation,
and every handle it closes belongs to the subject of an exclusive one. -/
theorem PoolInv.call_owned (hi : S.PoolInv s) {t : τ} {op : Op} {c : C}
    (h : s.calling t = some (op, c)) :
    (∀ h ∈ S.handling.names c, ∃ o, S.Touches op o ∧ s.table h = some o) ∧
      ∀ h ∈ S.handling.closes c, s.table h = some (S.subject op) ∧ S.exclusive op = true := by
  obtain ⟨k, ht⟩ := calling_eq_some h
  refine ⟨fun h hname => ?_, hi.closes ht⟩
  cases hexcl : S.exclusive op with
  | true =>
      rcases (hi.owner t op _ ht hexcl).1.1 h hname with hown | hlent
      · exact ⟨S.subject op, .inl rfl, hown⟩
      · obtain ⟨o, ho, htable⟩ := hi.mem_lent ht hlent
        exact ⟨o, .inr ho, htable⟩
  | false => exact hi.mem_shared ht hexcl ((hi.user t op _ ht hexcl).1.1 h hname)

end Service

end Savvy.Kit
