import Mathlib.Data.List.Nodup
import Mathlib.Data.List.Perm.Basic
import Savvy.Core.Snapshot

/-!
Reference counting of snapshots. Every handle goes through the stages of
`HandleStage` one after the other, and at each stage that is inside a call one
thread is responsible for it. `Books` says which references the count of a
handle counts; in the middle of a locked section one of them may already have
lost its place (`extra`).
-/

namespace Savvy

open Kit

inductive HandleStage (ι : Type*)
  | unborn
  | inserting (i : ι)
  | live
  | finalizing (i : ι)
  | freeing (i : ι)
  | gone

namespace HandleStage

variable {ι : Type*}

def thread : HandleStage ι → Option ι
  | inserting i | finalizing i | freeing i => some i
  | _ => none

/-- The reference that a publish in progress has. -/
def ownRef : HandleStage ι → ℕ
  | inserting _ => 1
  | _ => 0

def published : HandleStage ι → Bool
  | unborn | inserting _ => false
  | _ => true

def freed : HandleStage ι → Bool
  | freeing _ | gone => true
  | _ => false

def allocated : HandleStage ι → Bool
  | unborn | gone => false
  | _ => true

end HandleStage

/-- The handle that thread `i` is responsible for, and its stage. -/
def SnapshotPc.duty {ι P : Type*} (i : ι) : SnapshotPc P → Option (ℕ × HandleStage ι)
  | .idle | .finalizing none => none
  | .inserting h _ => some (h, .inserting i)
  | .finalizing (some h) => some (h, .finalizing i)
  | .freeing h => some (h, .freeing i)

namespace Snapshots

variable {ι P : Type*}

section Fields

variable (s : Snapshots ι P) (i : ι) (h : ℕ) (pc : SnapshotPc P) (r : Option (SnapshotHandle P))

@[simp] theorem store_heap : (s.store h r).heap = Function.update s.heap h r := rfl
@[simp] theorem store_nextHandle : (s.store h r).nextHandle = s.nextHandle := rfl
@[simp] theorem store_current : (s.store h r).current = s.current := rfl
@[simp] theorem store_version : (s.store h r).version = s.version := rfl
@[simp] theorem store_pc : (s.store h r).pc = s.pc := rfl
@[simp] theorem store_held : (s.store h r).held = s.held := rfl
@[simp] theorem store_destroyed : (s.store h r).destroyed = s.destroyed := rfl
@[simp] theorem store_fault : (s.store h r).fault = s.fault := rfl
@[simp] theorem store_published : (s.store h r).published = s.published := rfl
@[simp] theorem store_acquired : (s.store h r).acquired = s.acquired := rfl
@[simp] theorem store_freed : (s.store h r).freed = s.freed := rfl

variable [DecidableEq ι]

@[simp] theorem goto_heap : (s.goto i pc).heap = s.heap := rfl
@[simp] theorem goto_nextHandle : (s.goto i pc).nextHandle = s.nextHandle := rfl
@[simp] theorem goto_current : (s.goto i pc).current = s.current := rfl
@[simp] theorem goto_version : (s.goto i pc).version = s.version := rfl
@[simp] theorem goto_pc : (s.goto i pc).pc = Function.update s.pc i pc := rfl
@[simp] theorem goto_held : (s.goto i pc).held = s.held := rfl
@[simp] theorem goto_destroyed : (s.goto i pc).destroyed = s.destroyed := rfl
@[simp] theorem goto_fault : (s.goto i pc).fault = s.fault := rfl
@[simp] theorem goto_published : (s.goto i pc).published = s.published := rfl
@[simp] theorem goto_acquired : (s.goto i pc).acquired = s.acquired := rfl
@[simp] theorem goto_freed : (s.goto i pc).freed = s.freed := rfl

end Fields

/-- The references to a handle among those held, the current one and the one
that has lost its place. -/
def refs (held : List ℕ) (current extra : Option ℕ) (h : ℕ) : ℕ :=
  held.count h + (if current = some h then 1 else 0) + (if extra = some h then 1 else 0)

/-- The books of the owner: every handle is at one stage, and its count is the
number of its references. -/
structure Books (s : Snapshots ι P) (stage : ℕ → HandleStage ι) (extra : Option ℕ) : Prop where
  no_fault : s.fault = false
  unborn : ∀ h, stage h = .unborn ↔ s.nextHandle ≤ h
  allocated : ∀ h, (stage h).allocated = (s.heap h).isSome
  count : ∀ h r, s.heap h = some r → r.refcount.toNat = refs s.held s.current extra h + (stage h).ownRef
  live : ∀ h, stage h = .live ↔ 0 < refs s.held s.current extra h
  duty : ∀ i h st, (s.pc i).duty i = some (h, st) ↔ stage h = st ∧ st.thread = some i
  inserting : ∀ i h p, s.pc i = .inserting h p → (s.heap h).map (·.payload) = some p
  published : ∀ h, h ∈ s.published.map Prod.fst ↔ (stage h).published = true
  published_nodup : (s.published.map Prod.fst).Nodup
  payload : ∀ h p r, (h, p) ∈ s.published → s.heap h = some r → r.payload = p
  freed : ∀ h, h ∈ s.freed.map Prod.fst ↔ (stage h).freed = true
  freed_nodup : (s.freed.map Prod.fst).Nodup
  freed_payload : ∀ x ∈ s.freed, x ∈ s.published
  few : s.held.length < 2 ^ 32 - 1

variable {s : Snapshots ι P} {stage : ℕ → HandleStage ι} {extra : Option ℕ} {i : ι} {h : ℕ}

theorem Books.ownerInit : Books (ownerInit : Snapshots ι P) (fun _ => .unborn) none := by
  constructor
  all_goals simp [Snapshots.ownerInit, HandleStage.allocated, refs, SnapshotPc.duty,
    HandleStage.thread, HandleStage.published, HandleStage.freed]

section

variable [DecidableEq ι]

/-- The responsibilities after thread `i` passed its handle on to the stage
`st`. -/
theorem duty_update {s : Snapshots ι P} {stage : ℕ → HandleStage ι} {st : HandleStage ι}
    {pc : SnapshotPc P}
    (hduty : ∀ i h st, (s.pc i).duty i = some (h, st) ↔ stage h = st ∧ st.thread = some i)
    (hold : ∀ h', (stage h').thread = some i → h' = h)
    (hfree : ∀ j, (stage h).thread = some j → j = i)
    (hnew : pc.duty i = if st.thread = none then none else some (h, st))
    (hst : ∀ j, st.thread = some j → j = i) (j : ι) (h' : ℕ) (st' : HandleStage ι) :
    ((Function.update s.pc i pc) j).duty j = some (h', st') ↔
      Function.update stage h st h' = st' ∧ st'.thread = some j := by
  by_cases hj : j = i
  · subst hj
    rw [Function.update_self, hnew]
    by_cases hh : h' = h
    · subst hh
      rw [Function.update_self]
      cases hthread : st.thread with
      | none =>
          rw [if_pos rfl]
          constructor
          · simp
          · rintro ⟨rfl, hne⟩
            simp [hthread] at hne
      | some k =>
          obtain rfl := hst k hthread
          simp only [reduceCtorEq, if_false, Option.some.injEq, Prod.mk.injEq, true_and]
          constructor
          · rintro rfl
            exact ⟨rfl, hthread⟩
          · exact fun hc => hc.1
    · rw [Function.update_of_ne hh]
      constructor
      · intro hc
        split at hc
        · simp at hc
        · simp only [Option.some.injEq, Prod.mk.injEq] at hc
          exact absurd hc.1.symm hh
      · rintro ⟨rfl, hthread⟩
        exact absurd (hold h' hthread) hh
  · rw [Function.update_of_ne hj, hduty]
    by_cases hh : h' = h
    · subst hh
      rw [Function.update_self]
      constructor
      · rintro ⟨rfl, hthread⟩
        exact absurd (hfree j hthread) hj
      · rintro ⟨rfl, hthread⟩
        exact absurd (hst j hthread) hj
    · rw [Function.update_of_ne hh]

end

theorem Books.stage_of_duty (hb : Books s stage extra) {st : HandleStage ι}
    (hd : (s.pc i).duty i = some (h, st)) : stage h = st ∧ st.thread = some i :=
  (hb.duty i h st).mp hd

theorem Books.thread_ne (hb : Books s stage extra) (hd : (s.pc i).duty i = none) (h' : ℕ) :
    (stage h').thread ≠ some i := by
  intro hthread
  have := (hb.duty i h' (stage h')).mpr ⟨rfl, hthread⟩
  simp [hd] at this

/-- A thread is responsible for at most one handle. -/
theorem Books.only_duty (hb : Books s stage extra) {st : HandleStage ι}
    (hd : (s.pc i).duty i = some (h, st)) {h' : ℕ} (hthread : (stage h').thread = some i) :
    h' = h := by
  have := (hb.duty i h' (stage h')).mpr ⟨rfl, hthread⟩
  rw [hd] at this
  simp only [Option.some.injEq, Prod.mk.injEq] at this
  exact this.1.symm

theorem Books.refs_eq_zero (hb : Books s stage extra) (hst : stage h ≠ .live) :
    refs s.held s.current extra h = 0 :=
  Nat.eq_zero_of_not_pos fun hpos => hst ((hb.live h).mpr hpos)

variable [DecidableEq ι]

/-- What the books say about one handle, apart from the threads. -/
structure HandleBooks (t : Snapshots ι P) (st : HandleStage ι) (extra : Option ℕ) (h : ℕ) :
    Prop where
  unborn : st = .unborn ↔ t.nextHandle ≤ h
  allocated : st.allocated = (t.heap h).isSome
  count : ∀ r, t.heap h = some r → r.refcount.toNat = refs t.held t.current extra h + st.ownRef
  live : st = .live ↔ 0 < refs t.held t.current extra h
  published : h ∈ t.published.map Prod.fst ↔ st.published = true
  payload : ∀ p r, (h, p) ∈ t.published → t.heap h = some r → r.payload = p
  freed : h ∈ t.freed.map Prod.fst ↔ st.freed = true

structure SameHandle (s t : Snapshots ι P) (extra extra' : Option ℕ) (h : ℕ) : Prop where
  heap : t.heap h = s.heap h
  refs : refs t.held t.current extra' h = refs s.held s.current extra h
  born : t.nextHandle ≤ h ↔ s.nextHandle ≤ h
  published : ∀ p, (h, p) ∈ t.published ↔ (h, p) ∈ s.published
  freed : ∀ p, (h, p) ∈ t.freed ↔ (h, p) ∈ s.freed

omit [DecidableEq ι] in
theorem Books.handle (hb : Books s stage extra) (h : ℕ) : HandleBooks s (stage h) extra h where
  unborn := hb.unborn h
  allocated := hb.allocated h
  count := hb.count h
  live := hb.live h
  published := hb.published h
  payload := hb.payload h
  freed := hb.freed h

omit [DecidableEq ι] in
theorem HandleBooks.same {t : Snapshots ι P} {extra' : Option ℕ} {st : HandleStage ι}
    (hh : HandleBooks s st extra h) (hsame : SameHandle s t extra extra' h) :
    HandleBooks t st extra' h := by
  have hpub : h ∈ t.published.map Prod.fst ↔ h ∈ s.published.map Prod.fst := by
    simp [hsame.published]
  have hfreed : h ∈ t.freed.map Prod.fst ↔ h ∈ s.freed.map Prod.fst := by
    simp [hsame.freed]
  refine ⟨hh.unborn.trans hsame.born.symm, ?_, fun r => ?_, ?_, hpub.trans hh.published,
    fun p r hmem => ?_, hfreed.trans hh.freed⟩
  · rw [hsame.heap]
    exact hh.allocated
  · rw [hsame.heap, hsame.refs]
    exact hh.count r
  · rw [hsame.refs]
    exact hh.live
  · rw [hsame.heap]
    exact hh.payload p r ((hsame.published p).mp hmem)

/-- Thread `i` takes the handle `h` to the stage `st`, and leaves the others
alone. -/
theorem Books.update {t : Snapshots ι P} {extra' : Option ℕ} {st : HandleStage ι}
    {pc : SnapshotPc P} (hb : Books s stage extra)
    (hrest : t.fault = s.fault ∧ t.pc = s.pc)
    (hsame : ∀ h', h' ≠ h → SameHandle s t extra extra' h') (hself : HandleBooks t st extra' h)
    (hold : ∀ h', (stage h').thread = some i → h' = h)
    (hfree : ∀ j, (stage h).thread = some j → j = i)
    (hnew : pc.duty i = if st.thread = none then none else some (h, st))
    (hst : ∀ j, st.thread = some j → j = i)
    (hins : ∀ h' p, pc = .inserting h' p → (t.heap h').map (·.payload) = some p)
    (hpublished : (t.published.map Prod.fst).Nodup) (hfreed : (t.freed.map Prod.fst).Nodup)
    (hpayload : ∀ x ∈ t.freed, x ∈ t.published) (hfew : t.held.length < 2 ^ 32 - 1) :
    Books (t.goto i pc) (Function.update stage h st) extra' := by
  have hhandle (h' : ℕ) : HandleBooks t (Function.update stage h st h') extra' h' := by
    by_cases hh : h' = h
    · subst hh
      rw [Function.update_self]
      exact hself
    · rw [Function.update_of_ne hh]
      exact (hb.handle h').same (hsame h' hh)
  refine ⟨hrest.1.trans hb.no_fault, fun h' => (hhandle h').unborn, fun h' => (hhandle h').allocated,
    fun h' => (hhandle h').count, fun h' => (hhandle h').live, ?_, fun j h' p => ?_,
    fun h' => (hhandle h').published, hpublished, fun h' => (hhandle h').payload,
    fun h' => (hhandle h').freed, hfreed, hpayload, hfew⟩
  · rw [goto_pc, hrest.2]
    exact duty_update hb.duty hold hfree hnew hst
  · rw [goto_pc, hrest.2]
    by_cases hj : j = i
    · subst hj
      rw [Function.update_self]
      exact hins h' p
    · rw [Function.update_of_ne hj]
      intro hpc
      -- the handle is another one: `h` is nobody else's
      have hduty : (s.pc j).duty j = some (h', .inserting j) := by rw [hpc]; rfl
      have hstage := hb.stage_of_duty hduty
      have hh : h' ≠ h := by
        rintro rfl
        exact hj (hfree j (by rw [hstage.1]; exact hstage.2))
      rw [goto_heap, (hsame h' hh).heap]
      exact hb.inserting j h' p hpc

theorem Books.publish (hb : Books s stage none) (hpc : s.pc i = .idle) (payload : P) :
    Books (s.publish i payload true) (Function.update stage s.nextHandle (.inserting i)) none := by
  have hun : stage s.nextHandle = .unborn := (hb.unborn _).mpr (Nat.le_refl _)
  have hzero : refs s.held s.current none s.nextHandle = 0 := hb.refs_eq_zero (by simp [hun])
  have hd : (s.pc i).duty i = none := by rw [hpc]; rfl
  have hhandle := hb.handle s.nextHandle
  rw [hun] at hhandle
  simp only [Snapshots.publish, if_true]
  apply hb.update
  · exact ⟨rfl, rfl⟩
  · intro h' hh
    refine ⟨Function.update_of_ne hh _ _, rfl, ?_, fun _ => Iff.rfl, fun _ => Iff.rfl⟩
    simp only [store_nextHandle]
    omega
  · refine ⟨?_, ?_, fun r => ?_, ?_, hhandle.published, fun p r hpub => ?_, hhandle.freed⟩
    · simp
    · simp [HandleStage.allocated]
    · simp only [store_heap, Function.update_self, Option.some.injEq]
      rintro rfl
      change 1 = refs s.held s.current none s.nextHandle + 1
      rw [hzero]
    · change _ ↔ 0 < refs s.held s.current none s.nextHandle
      simp [hzero]
    · have hmem := hhandle.published.mp (List.mem_map.mpr ⟨_, hpub, rfl⟩)
      cases hmem
  · exact fun h' hthread => absurd hthread (hb.thread_ne hd h')
  · simp [hun, HandleStage.thread]
  · rfl
  · rintro j hj
    simpa [HandleStage.thread] using hj.symm
  · rintro h' p ⟨⟩
    simp
  · exact hb.published_nodup
  · exact hb.freed_nodup
  · exact hb.freed_payload
  · exact hb.few

/-- Before the locked section of a publish gives up the old handle. -/
theorem Books.insert {payload : P} (hb : Books s stage none)
    (hpc : s.pc i = .inserting h payload) :
    Books ({ s with
      current := some h
      version := s.version + 1
      published := s.published ++ [(h, payload)] }.goto i .idle)
      (Function.update stage h .live) s.current := by
  have hd : (s.pc i).duty i = some (h, .inserting i) := by rw [hpc]; rfl
  have hstage : stage h = .inserting i := (hb.stage_of_duty hd).1
  have hzero : refs s.held s.current none h = 0 := hb.refs_eq_zero (by simp [hstage])
  have hnew : h ∉ s.published.map Prod.fst := by
    rw [hb.published h, hstage]
    simp [HandleStage.published]
  have hcur : s.current ≠ some h := by
    intro hc
    simp [refs, hc] at hzero
  have hrefsSelf : refs s.held (some h) s.current h = refs s.held s.current none h + 1 := by
    simp [refs, hcur]
  have hhandle := hb.handle h
  rw [hstage] at hhandle
  apply hb.update
  · exact ⟨rfl, rfl⟩
  · intro h' hh
    refine ⟨rfl, ?_, Iff.rfl, fun p => ?_, fun _ => Iff.rfl⟩
    · simp [refs, Ne.symm hh]
    · simp [hh]
  · refine ⟨?_, hhandle.allocated, fun r hr => ?_, ?_, ?_, fun p r hpub hr => ?_, hhandle.freed⟩
    · simpa using hhandle.unborn
    · have hc := hhandle.count r hr
      simpa [hrefsSelf, HandleStage.ownRef] using hc
    · simp [hrefsSelf]
    · simp [HandleStage.published]
    · simp only [List.mem_append, List.mem_singleton, Prod.mk.injEq, true_and] at hpub
      rcases hpub with hpub | rfl
      · exact hhandle.payload p r hpub hr
      · have hins := hb.inserting i h p hpc
        rw [show s.heap h = some r from hr] at hins
        simpa using hins
  · exact fun h' hthread => hb.only_duty hd hthread
  · rintro j hj
    rw [hstage] at hj
    simpa [HandleStage.thread] using hj.symm
  · rfl
  · simp [HandleStage.thread]
  · rintro h' p ⟨⟩
  · simp only [List.map_append, List.map_cons, List.map_nil]
    rw [← List.concat_eq_append]
    exact hb.published_nodup.concat hnew
  · exact hb.freed_nodup
  · exact fun x hx => List.mem_append_left _ (hb.freed_payload x hx)
  · exact hb.few

omit [DecidableEq ι] in
/-- The reference that has lost its place is one of those counted. -/
theorem Books.extra_live (hb : Books s stage (some h)) :
    stage h = .live ∧ ∃ r, s.heap h = some r ∧
      r.refcount.toNat = refs s.held s.current none h + 1 := by
  have hlive : stage h = .live := (hb.live h).mpr (by simp [refs])
  have hsome : (s.heap h).isSome = true := by
    rw [← hb.allocated h, hlive]
    rfl
  obtain ⟨r, hr⟩ := Option.isSome_iff_exists.mp hsome
  have hc := hb.count h r hr
  rw [hlive] at hc
  exact ⟨hlive, r, hr, by simpa [refs, HandleStage.ownRef] using hc⟩

omit [DecidableEq ι] in
theorem refs_extra_of_ne {held : List ℕ} {current : Option ℕ} {h h' : ℕ} (hne : h' ≠ h) :
    refs held current (some h) h' = refs held current none h' := by
  simp [refs, Ne.symm hne]

/-- The last reference is given up: the thread has to finalize the handle. -/
theorem Books.unref_last {r : SnapshotHandle P} (hb : Books s stage (some h))
    (hd : (s.pc i).duty i = none) (hlive : stage h = .live) (hr : s.heap h = some r)
    (hzero : refs s.held s.current none h = 0) (hcount : r.refcount - 1 = 0) :
    Books ((s.store h (some { r with refcount := r.refcount - 1 })).goto i
        (.finalizing (some h))) (Function.update stage h (.finalizing i)) none := by
  have hhandle := hb.handle h
  rw [hlive] at hhandle
  apply hb.update
  · exact ⟨rfl, rfl⟩
  · intro h' hh
    exact ⟨Function.update_of_ne hh _ _, (refs_extra_of_ne hh).symm, Iff.rfl, fun _ => Iff.rfl,
      fun _ => Iff.rfl⟩
  · refine ⟨?_, ?_, fun r' hr' => ?_, ?_, hhandle.published, fun p r' hpub hr' => ?_,
      hhandle.freed⟩
    · simpa using hhandle.unborn
    · simp [HandleStage.allocated]
    · simp only [store_heap, Function.update_self, Option.some.injEq] at hr'
      subst hr'
      simp [hzero, hcount, HandleStage.ownRef]
    · simp [hzero]
    · simp only [store_heap, Function.update_self, Option.some.injEq] at hr'
      rw [← hr']
      exact hhandle.payload p r hpub hr
  · exact fun h' hthread => absurd hthread (hb.thread_ne hd h')
  · simp [hlive, HandleStage.thread]
  · rfl
  · rintro j hj
    simpa [HandleStage.thread] using hj.symm
  · rintro h' p ⟨⟩
  · exact hb.published_nodup
  · exact hb.freed_nodup
  · exact hb.freed_payload
  · exact hb.few

omit [DecidableEq ι] in
/-- The count of a live handle changes together with its references. -/
theorem Books.recount {t : Snapshots ι P} {extra' : Option ℕ} {r : SnapshotHandle P}
    {n : UInt32} (hb : Books s stage extra) (hr : s.heap h = some r) (hlive : stage h = .live)
    (hheap : t.heap = Function.update s.heap h (some { r with refcount := n }))
    (hrest : t.fault = s.fault ∧ t.nextHandle = s.nextHandle ∧ t.pc = s.pc ∧
      t.published = s.published ∧ t.freed = s.freed)
    (hcount : n.toNat = refs t.held t.current extra' h) (hpos : 0 < n.toNat)
    (hother : ∀ h', h' ≠ h →
      refs t.held t.current extra' h' = refs s.held s.current extra h')
    (hfew : t.held.length < 2 ^ 32 - 1) : Books t stage extra' := by
  obtain ⟨hfault, hnext, hpc, hpub, hfreed⟩ := hrest
  refine ⟨hfault.trans hb.no_fault, ?_, fun h' => ?_, fun h' r' => ?_, fun h' => ?_, ?_,
    fun j h' p => ?_, ?_, ?_, fun h' p r' => ?_, ?_, ?_, ?_, hfew⟩
  · rw [hnext]
    exact hb.unborn
  · rw [hheap]
    by_cases hh : h' = h
    · simp [hh, hlive, HandleStage.allocated]
    · rw [Function.update_of_ne hh]
      exact hb.allocated h'
  · rw [hheap]
    by_cases hh : h' = h
    · subst hh
      rw [Function.update_self, hlive]
      rintro ⟨⟩
      simpa [HandleStage.ownRef] using hcount
    · rw [Function.update_of_ne hh, hother h' hh]
      exact hb.count h' r'
  · by_cases hh : h' = h
    · subst hh
      rw [hlive, ← hcount]
      simpa using hpos
    · rw [hother h' hh]
      exact hb.live h'
  · rw [hpc]
    exact hb.duty
  · rw [hpc, hheap]
    intro hins
    have hpay := hb.inserting j h' p hins
    by_cases hh : h' = h
    · subst hh
      rw [hr] at hpay
      simpa using hpay
    · rwa [Function.update_of_ne hh]
  · rw [hpub]
    exact hb.published
  · rw [hpub]
    exact hb.published_nodup
  · rw [hpub, hheap]
    intro hmem
    by_cases hh : h' = h
    · subst hh
      rw [Function.update_self]
      rintro ⟨⟩
      exact hb.payload h' p r hmem hr
    · rw [Function.update_of_ne hh]
      exact hb.payload h' p r' hmem
  · rw [hfreed]
    exact hb.freed
  · rw [hfreed]
    exact hb.freed_nodup
  · rw [hfreed, hpub]
    exact hb.freed_payload

theorem Books.goto (hb : Books s stage extra) (hd : (s.pc i).duty i = none) {pc : SnapshotPc P}
    (hd' : pc.duty i = none) : Books (s.goto i pc) stage extra := by
  refine { hb with duty := fun j h st => ?_, inserting := fun j h p => ?_ }
  · rw [← hb.duty j h st, goto_pc]
    by_cases hj : j = i
    · subst hj
      rw [Function.update_self, hd, hd']
    · rw [Function.update_of_ne hj]
  · rw [goto_pc]
    by_cases hj : j = i
    · subst hj
      rw [Function.update_self]
      rintro rfl
      simp [SnapshotPc.duty] at hd'
    · rw [Function.update_of_ne hj]
      exact hb.inserting j h p

/-- The end of a locked section. -/
theorem Books.giveUp (hb : Books s stage extra) (hd : (s.pc i).duty i = none) :
    ∃ stage', Books (s.giveUp i extra) stage' none := by
  cases extra with
  | none => exact ⟨stage, hb.goto hd rfl⟩
  | some h =>
      obtain ⟨hlive, r, hr, hcount⟩ := hb.extra_live
      have hsub : (r.refcount - 1).toNat = refs s.held s.current none h := by
        have hone : (1 : UInt32) ≤ r.refcount := by
          rw [UInt32.le_iff_toNat_le, hcount]
          simp
        rw [UInt32.toNat_sub_of_le _ _ hone, hcount]
        simp
      simp only [Snapshots.giveUp, unrefLocked, hr]
      by_cases hzero : r.refcount - 1 = 0
      · rw [if_pos hzero]
        refine ⟨_, hb.unref_last hd hlive hr ?_ hzero⟩
        rw [← hsub, hzero]
        rfl
      · rw [if_neg hzero]
        have hpos : 0 < (r.refcount - 1).toNat := by
          apply Nat.pos_of_ne_zero
          intro hc
          exact hzero (UInt32.toNat_inj.mp hc)
        have hnext : Books (s.store h (some { r with refcount := r.refcount - 1 })) stage none :=
          hb.recount hr hlive rfl ⟨rfl, rfl, rfl, rfl, rfl⟩ hsub hpos
            (fun h' hne => (refs_extra_of_ne hne).symm) hb.few
        exact ⟨stage, hnext.goto hd rfl⟩

omit [DecidableEq ι] in
theorem Books.acquire (hb : Books s stage none) (hfew : s.held.length + 1 < 2 ^ 32 - 1) :
    Books s.acquire stage none := by
  cases hcur : s.current with
  | none =>
      have hacq : s.acquire = { s with acquired := s.acquired ++ [(none, s.version)] } := by
        simp [Snapshots.acquire, hcur]
      rw [hacq]
      exact { hb with }
  | some h =>
      have hlive : stage h = .live := (hb.live h).mpr (by simp [refs, hcur])
      have hsome : (s.heap h).isSome = true := by
        rw [← hb.allocated h, hlive]
        rfl
      obtain ⟨r, hr⟩ := Option.isSome_iff_exists.mp hsome
      have hcount := hb.count h r hr
      rw [hlive] at hcount
      have hle : s.held.count h ≤ s.held.length := List.count_le_length
      have hsmall : r.refcount.toNat + 1 < 2 ^ 32 := by
        rw [hcount]
        simp only [refs, hcur, if_true, HandleStage.ownRef, reduceCtorEq, if_false]
        omega
      have hadd : (r.refcount + 1).toNat = r.refcount.toNat + 1 := by
        rw [UInt32.toNat_add]
        exact Nat.mod_eq_of_lt hsmall
      simp only [Snapshots.acquire, hcur, hr]
      refine hb.recount hr hlive rfl ⟨rfl, rfl, rfl, rfl, rfl⟩ ?_ ?_ ?_ ?_
      · rw [hadd, hcount]
        simp [refs, hcur, HandleStage.ownRef]
      · omega
      · intro h' hne
        simp [refs, hcur, Ne.symm hne]
      · simpa using hfew

omit [DecidableEq ι] in
theorem Books.release (hb : Books s stage none) {k : ℕ} (hk : s.held[k]? = some h) :
    Books { s with held := s.held.eraseIdx k } stage (some h) := by
  have hrefs : ∀ h', refs (s.held.eraseIdx k) s.current (some h) h' =
      refs s.held s.current none h' := by
    intro h'
    obtain ⟨hlt, hget⟩ := List.getElem?_eq_some_iff.mp hk
    have hcount : s.held.count h' = (s.held.eraseIdx k).count h' + if h = h' then 1 else 0 := by
      have hperm := (List.getElem_cons_eraseIdx_perm hlt).count_eq h'
      rw [hget, List.count_cons] at hperm
      simpa using hperm.symm
    simp only [refs, hcount, Option.some.injEq, reduceCtorEq, if_false]
    omega
  refine { hb with count := fun h' r hr => ?_, live := fun h' => ?_, few := ?_ }
  · rw [hrefs h']
    exact hb.count h' r hr
  · rw [hrefs h']
    exact hb.live h'
  · exact Nat.lt_of_le_of_lt (List.length_eraseIdx_le _ _) hb.few

omit [DecidableEq ι] in
theorem Books.ownerDestroy (hb : Books s stage none) :
    Books { s with current := none, destroyed := true } stage s.current := by
  have hrefs : ∀ h, refs s.held none s.current h = refs s.held s.current none h := by
    intro h
    simp [refs]
  refine { hb with count := fun h r hr => ?_, live := fun h => ?_ }
  · rw [hrefs h]
    exact hb.count h r hr
  · rw [hrefs h]
    exact hb.live h

theorem Books.callFree (hb : Books s stage none) (hpc : s.pc i = .finalizing (some h)) :
    ∃ r, s.heap h = some r ∧
      Books ({ s with freed := s.freed ++ [(h, r.payload)] }.goto i (.freeing h))
        (Function.update stage h (.freeing i)) none := by
  have hd : (s.pc i).duty i = some (h, .finalizing i) := by rw [hpc]; rfl
  have hstage : stage h = .finalizing i := (hb.stage_of_duty hd).1
  have hsome : (s.heap h).isSome = true := by
    rw [← hb.allocated h, hstage]
    rfl
  obtain ⟨r, hr⟩ := Option.isSome_iff_exists.mp hsome
  have hmem : h ∈ s.published.map Prod.fst := by
    rw [hb.published h, hstage]
    rfl
  have hnew : h ∉ s.freed.map Prod.fst := by
    rw [hb.freed h, hstage]
    simp [HandleStage.freed]
  have hhandle := hb.handle h
  rw [hstage] at hhandle
  refine ⟨r, hr, ?_⟩
  apply hb.update
  · exact ⟨rfl, rfl⟩
  · intro h' hh
    refine ⟨rfl, rfl, Iff.rfl, fun _ => Iff.rfl, fun p => ?_⟩
    simp [hh]
  · refine ⟨?_, hhandle.allocated, hhandle.count, ?_, hhandle.published, hhandle.payload, ?_⟩
    · simpa using hhandle.unborn
    · simpa using hhandle.live
    · simp [HandleStage.freed]
  · exact fun h' hthread => hb.only_duty hd hthread
  · rintro j hj
    rw [hstage] at hj
    simpa [HandleStage.thread] using hj.symm
  · rfl
  · rintro j hj
    simpa [HandleStage.thread] using hj.symm
  · rintro h' p ⟨⟩
  · exact hb.published_nodup
  · simp only [List.map_append, List.map_cons, List.map_nil]
    rw [← List.concat_eq_append]
    exact hb.freed_nodup.concat hnew
  · simp only [List.mem_append, List.mem_singleton]
    rintro x (hx | rfl)
    · exact hb.freed_payload x hx
    · obtain ⟨⟨h', p⟩, hpub, rfl⟩ := List.mem_map.mp hmem
      rw [hb.payload h' p r hpub hr]
      exact hpub
  · exact hb.few

theorem Books.freeHandle (hb : Books s stage none) (hpc : s.pc i = .freeing h) :
    Books (s.freeHandle i h) (Function.update stage h .gone) none := by
  have hd : (s.pc i).duty i = some (h, .freeing i) := by rw [hpc]; rfl
  have hstage : stage h = .freeing i := (hb.stage_of_duty hd).1
  have hsome : (s.heap h).isSome = true := by
    rw [← hb.allocated h, hstage]
    rfl
  obtain ⟨r, hr⟩ := Option.isSome_iff_exists.mp hsome
  have hhandle := hb.handle h
  rw [hstage] at hhandle
  simp only [Snapshots.freeHandle, hr]
  apply hb.update
  · exact ⟨rfl, rfl⟩
  · intro h' hh
    exact ⟨Function.update_of_ne hh _ _, rfl, Iff.rfl, fun _ => Iff.rfl, fun _ => Iff.rfl⟩
  · refine ⟨?_, ?_, fun r' hr' => ?_, ?_, hhandle.published, fun p r' _ hr' => ?_, hhandle.freed⟩
    · simpa using hhandle.unborn
    · simp [HandleStage.allocated]
    · simp at hr'
    · simpa using hhandle.live
    · simp at hr'
  · exact fun h' hthread => hb.only_duty hd hthread
  · rintro j hj
    rw [hstage] at hj
    simpa [HandleStage.thread] using hj.symm
  · rfl
  · simp [HandleStage.thread]
  · rintro h' p ⟨⟩
  · exact hb.published_nodup
  · exact hb.freed_nodup
  · exact hb.freed_payload
  · exact hb.few

theorem goto_giveUp (pc : SnapshotPc P) (e : Option ℕ) : (s.goto i pc).giveUp i e = s.giveUp i e := by
  cases e with
  | none => simp [Snapshots.giveUp, Snapshots.goto]
  | some h =>
      simp only [Snapshots.giveUp, unrefLocked, goto_heap]
      cases s.heap h with
      | none => simp [Snapshots.goto]
      | some r => simp [Snapshots.goto, Snapshots.store]

/-- What a step that satisfies the bound on the handles does to the books. -/
theorem Books.step {s' : Snapshots ι P} {a : SnapshotAct ι P} (hb : Books s stage none)
    (hfew : fewHandles s a) (hs : s.step a = some s') : ∃ stage', Books s' stage' none := by
  cases a with
  | publish i payload malloc =>
      simp only [Snapshots.step] at hs
      split at hs
      · rename_i hpc
        split at hs
        · simp at hs
        · obtain rfl := Option.some.inj hs
          cases malloc with
          | false => exact ⟨stage, hb⟩
          | true => exact ⟨_, hb.publish hpc payload⟩
      · simp at hs
  | insert i =>
      simp only [Snapshots.step] at hs
      split at hs
      · rename_i h payload hpc
        split at hs
        · simp at hs
        · obtain rfl := Option.some.inj hs
          have hmid := hb.insert hpc
          have hd : ((Function.update s.pc i .idle) i : SnapshotPc P).duty i = none := by
            rw [Function.update_self]
            rfl
          rw [Snapshots.insert, ← goto_giveUp .idle]
          exact hmid.giveUp hd
      · simp at hs
  | acquire i =>
      simp only [Snapshots.step] at hs
      split at hs
      · split at hs
        · simp at hs
        · obtain rfl := Option.some.inj hs
          exact ⟨stage, hb.acquire hfew⟩
      · simp at hs
  | release i k =>
      simp only [Snapshots.step] at hs
      split at hs
      · rename_i h hpc hk
        split at hs
        · simp at hs
        · obtain rfl := Option.some.inj hs
          refine (hb.release hk).giveUp ?_
          change (s.pc i).duty i = none
          rw [hpc]
          rfl
      · simp at hs
  | finalize i =>
      simp only [Snapshots.step] at hs
      split at hs
      · rename_i toFinalize hpc
        obtain rfl := Option.some.inj hs
        cases toFinalize with
        | none =>
            refine ⟨stage, hb.goto ?_ rfl⟩
            rw [hpc]
            rfl
        | some h =>
            obtain ⟨r, hr, hbooks⟩ := hb.callFree hpc
            simp only [Snapshots.callFree, hr]
            exact ⟨_, hbooks⟩
      · simp at hs
  | free i =>
      simp only [Snapshots.step] at hs
      split at hs
      · rename_i h hpc
        obtain rfl := Option.some.inj hs
        exact ⟨_, hb.freeHandle hpc⟩
      · simp at hs
  | ownerDestroy i =>
      simp only [Snapshots.step] at hs
      split at hs
      · rename_i hpc
        split at hs
        · simp at hs
        · obtain rfl := Option.some.inj hs
          refine hb.ownerDestroy.giveUp ?_
          change (s.pc i).duty i = none
          rw [hpc]
          rfl
      · simp at hs

end Snapshots

end Savvy
