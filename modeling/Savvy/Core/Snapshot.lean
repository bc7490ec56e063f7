import Mathlib.Algebra.Order.Ring.Nat
import Mathlib.Logic.Function.Basic
import Savvy.Kit.System

/-!
Refcounted snapshots (`src/core/snapshot.c`): one owner, and any number of
threads that publish payloads, acquire the current handle and release it. The
handles are numbered in the order they are allocated, and a handle that is not
in `heap` is not allocated: reading or writing one is a fault.

A step is one section of the owner's lock or one access outside of it. The
`free_fn` of the owner is called outside the lock, and freeing the handle is a
step of its own after that. The owner of the model was made with a `free_fn`.
-/

namespace Savvy

open Kit

structure SnapshotHandle (P : Type*) where
  payload : P
  refcount : UInt32

/-- Where a thread stands in a call: in `savvy_snapshot_publish` before the
lock, in `finalize_unlocked` before and after the call of `free_fn`, or in no
call. -/
inductive SnapshotPc (P : Type*)
  | idle
  | inserting (h : ℕ) (payload : P)
  | finalizing (toFinalize : Option ℕ)
  | freeing (h : ℕ)

/-- `savvy_snapshot_owner_t` with the memory of its handles and its threads,
and a record of what happened so far: the publishes that succeeded, what
`acquire` returned, both in the order of the lock, and the payloads that
`free_fn` was called with. A handle is in `held` once for every acquire that
was not released yet. -/
structure Snapshots (ι P : Type*) where
  heap : ℕ → Option (SnapshotHandle P)
  nextHandle : ℕ
  current : Option ℕ
  version : UInt64
  pc : ι → SnapshotPc P
  held : List ℕ
  destroyed : Bool
  fault : Bool
  published : List (ℕ × P)
  acquired : List (Option ℕ × UInt64)
  freed : List (ℕ × P)

/-- The steps of thread `i`. A publish says whether `malloc` succeeds, a
release names one of the acquires that were not released yet. -/
inductive SnapshotAct (ι P : Type*)
  | publish (i : ι) (payload : P) (malloc : Bool)
  | insert (i : ι)
  | acquire (i : ι)
  | release (i : ι) (k : ℕ)
  | finalize (i : ι)
  | free (i : ι)
  | ownerDestroy (i : ι)

namespace Snapshots

variable {ι P : Type*} [DecidableEq ι]

def ownerInit : Snapshots ι P where
  heap _ := none
  nextHandle := 0
  current := none
  version := 0
  pc _ := .idle
  held := []
  destroyed := false
  fault := false
  published := []
  acquired := []
  freed := []

def goto (s : Snapshots ι P) (i : ι) (pc : SnapshotPc P) : Snapshots ι P :=
  { s with pc := Function.update s.pc i pc }

def store (s : Snapshots ι P) (h : ℕ) (r : Option (SnapshotHandle P)) : Snapshots ι P :=
  { s with heap := Function.update s.heap h r }

def unrefLocked (s : Snapshots ι P) (h : ℕ) : Option ℕ × Snapshots ι P :=
  match s.heap h with
  | none => (none, { s with fault := true })
  | some r =>
      (if r.refcount - 1 = 0 then some h else none,
        s.store h (some { r with refcount := r.refcount - 1 }))

/-- The end of a section of the lock that gives up the reference `h`, if there
is one: `finalize_unlocked` comes next. -/
def giveUp (s : Snapshots ι P) (i : ι) : Option ℕ → Snapshots ι P
  | none => s.goto i (.finalizing none)
  | some h => (s.unrefLocked h).2.goto i (.finalizing (s.unrefLocked h).1)

/-- `savvy_snapshot_publish` up to the lock. -/
def publish (s : Snapshots ι P) (i : ι) (payload : P) (malloc : Bool) : Snapshots ι P :=
  -- without memory the call returns `SAVVY_ERR_OUT_OF_MEMORY`
  if malloc then
    ({ s with nextHandle := s.nextHandle + 1 }.store s.nextHandle (some ⟨payload, 1⟩)).goto i
      (.inserting s.nextHandle payload)
  else s

/-- The locked section of `savvy_snapshot_publish`. -/
def insert (s : Snapshots ι P) (i : ι) (h : ℕ) (payload : P) : Snapshots ι P :=
  { s with
    current := some h
    version := s.version + 1
    published := s.published ++ [(h, payload)] }.giveUp i s.current

def acquire (s : Snapshots ι P) : Snapshots ι P :=
  match s.current with
  | none => { s with acquired := s.acquired ++ [(none, s.version)] }
  | some h =>
      match s.heap h with
      | none => { s with fault := true }
      | some r =>
          { s with
            held := s.held ++ [h]
            acquired := s.acquired ++ [(some h, s.version)] }.store h
              (some { r with refcount := r.refcount + 1 })

/-- The locked section of `savvy_snapshot_owner_destroy`. -/
def ownerDestroy (s : Snapshots ι P) (i : ι) : Snapshots ι P :=
  { s with current := none, destroyed := true }.giveUp i s.current

/-- The first half of `finalize_unlocked`. -/
def callFree (s : Snapshots ι P) (i : ι) : Option ℕ → Snapshots ι P
  | none => s.goto i .idle
  | some h =>
      match s.heap h with
      | none => { s with fault := true }
      | some r => { s with freed := s.freed ++ [(h, r.payload)] }.goto i (.freeing h)

def freeHandle (s : Snapshots ι P) (i : ι) (h : ℕ) : Snapshots ι P :=
  match s.heap h with
  | none => { s with fault := true }
  | some _ => (s.store h none).goto i .idle

/-- All threads together. The owner is destroyed when no handle is held, and
the lock is not taken again after that. -/
def step (s : Snapshots ι P) : SnapshotAct ι P → Option (Snapshots ι P)
  | .publish i payload malloc =>
      match s.pc i with
      | .idle => if s.destroyed then none else some (s.publish i payload malloc)
      | _ => none
  | .insert i =>
      match s.pc i with
      | .inserting h payload => if s.destroyed then none else some (s.insert i h payload)
      | _ => none
  | .acquire i =>
      match s.pc i with
      | .idle => if s.destroyed then none else some s.acquire
      | _ => none
  | .release i k =>
      match s.pc i, s.held[k]? with
      | .idle, some h =>
          if s.destroyed then none
          else some ({ s with held := s.held.eraseIdx k }.giveUp i (some h))
      | _, _ => none
  | .finalize i =>
      match s.pc i with
      | .finalizing toFinalize => some (s.callFree i toFinalize)
      | _ => none
  | .free i =>
      match s.pc i with
      | .freeing h => some (s.freeHandle i h)
      | _ => none
  | .ownerDestroy i =>
      match s.pc i with
      | .idle => if s.destroyed || !s.held.isEmpty then none else some (s.ownerDestroy i)
      | _ => none

end Snapshots

def snapshotSystem (ι P : Type*) [DecidableEq ι] : System (Snapshots ι P) (SnapshotAct ι P) where
  init := .ownerInit
  step := Snapshots.step

def fewHandles {ι P : Type*} (s : Snapshots ι P) : SnapshotAct ι P → Prop
  | .acquire _ => s.held.length + 1 < 2 ^ 32 - 1
  | _ => True

instance {ι P : Type*} (s : Snapshots ι P) (a : SnapshotAct ι P) : Decidable (fewHandles s a) :=
  match a with
  | .acquire _ => inferInstanceAs (Decidable (_ < _))
  | .publish .. | .insert _ | .release .. | .finalize _ | .free _ | .ownerDestroy _ =>
      .isTrue trivial

end Savvy
