import Savvy.Core.SnapshotBooks

/-!
Snapshots in the order of the lock: which handle is current, and which version
goes with it (`Log`). Together with the books this gives what readers and
writers may rely on.
-/

namespace Savvy

open Kit

namespace Snapshots

variable {ι P : Type*} [DecidableEq ι] {s : Snapshots ι P} {stage : ℕ → HandleStage ι} {h : ℕ}

def currentAfter (published : List (ℕ × P)) (k : ℕ) : Option ℕ :=
  (published.take k).getLast?.map Prod.fst

/-- The order of the publishes and the acquires: every acquire saw the state
after some number of publishes, and that number never went down. -/
structure Log (s : Snapshots ι P) : Prop where
  version : s.version = UInt64.ofNat s.published.length
  current : s.destroyed = false → s.current = currentAfter s.published s.published.length
  destroyed : s.destroyed = true → s.current = none ∧ s.held = []
  acquired : ∃ ks : List ℕ, ks.Pairwise (· ≤ ·) ∧ (∀ k ∈ ks, k ≤ s.published.length) ∧
    s.acquired = ks.map fun k => (currentAfter s.published k, UInt64.ofNat k)

omit [DecidableEq ι] in
theorem Log.ownerInit : Log (ownerInit : Snapshots ι P) where
  version := rfl
  current _ := rfl
  destroyed := by simp [Snapshots.ownerInit]
  acquired := ⟨[], by simp [Snapshots.ownerInit]⟩

/-- Two states that the lock cannot tell apart. -/
structure SameLog (s t : Snapshots ι P) : Prop where
  version : t.version = s.version
  published : t.published = s.published
  current : t.current = s.current
  destroyed : t.destroyed = s.destroyed
  held : t.held = s.held
  acquired : t.acquired = s.acquired

omit [DecidableEq ι] in
theorem Log.frame {t : Snapshots ι P} (hl : Log s) (hst : SameLog s t) : Log t := by
  obtain ⟨hversion, hpublished, hcurrent, hdestroyed, hheld, hacquired⟩ := hst
  refine ⟨?_, ?_, ?_, ?_⟩
  · rw [hversion, hpublished]
    exact hl.version
  · rw [hdestroyed, hcurrent, hpublished]
    exact hl.current
  · rw [hdestroyed, hcurrent, hheld]
    exact hl.destroyed
  · rw [hacquired, hpublished]
    exact hl.acquired

theorem sameLog_giveUp (s : Snapshots ι P) (i : ι) (e : Option ℕ) : SameLog s (s.giveUp i e) := by
  cases e with
  | none => exact ⟨rfl, rfl, rfl, rfl, rfl, rfl⟩
  | some h =>
      simp only [Snapshots.giveUp, unrefLocked]
      cases s.heap h <;> exact ⟨rfl, rfl, rfl, rfl, rfl, rfl⟩

omit [DecidableEq ι] in
theorem currentAfter_append {published : List (ℕ × P)} {k : ℕ} (x : ℕ × P)
    (hk : k ≤ published.length) :
    currentAfter (published ++ [x]) k = currentAfter published k := by
  rw [currentAfter, List.take_append_of_le_length hk, currentAfter]

omit [DecidableEq ι] in
theorem currentAfter_last (published : List (ℕ × P)) (x : ℕ × P) :
    currentAfter (published ++ [x]) (published ++ [x]).length = some x.1 := by
  rw [currentAfter, List.take_length, List.getLast?_concat]
  rfl

omit [DecidableEq ι] in
/-- A publish is one more for the next acquires, and the same for the earlier
ones. -/
theorem Log.insert (hl : Log s) (hd : s.destroyed = false) (payload : P) :
    Log { s with
      current := some h
      version := s.version + 1
      published := s.published ++ [(h, payload)] } := by
  obtain ⟨ks, hsorted, hle, hacq⟩ := hl.acquired
  refine ⟨?_, fun _ => (currentAfter_last s.published (h, payload)).symm, ?_, ks, hsorted,
    fun k hk => ?_, ?_⟩
  · rw [hl.version, List.length_append]
    exact (UInt64.ofNat_add _ _).symm
  · simp [hd]
  · rw [List.length_append]
    exact Nat.le_add_right_of_le (hle k hk)
  · rw [hacq]
    apply List.map_congr_left
    intro k hk
    rw [currentAfter_append _ (hle k hk)]

omit [DecidableEq ι] in
/-- An acquire sees all the publishes so far. -/
theorem Log.acquire (hl : Log s) (hd : s.destroyed = false) (held : List ℕ)
    (heap : ℕ → Option (SnapshotHandle P)) :
    Log { s with
      heap := heap
      held := held
      acquired := s.acquired ++ [(s.current, s.version)] } := by
  obtain ⟨ks, hsorted, hle, hacq⟩ := hl.acquired
  refine ⟨hl.version, hl.current, by simp [hd], ks ++ [s.published.length], ?_, ?_, ?_⟩
  · rw [List.pairwise_append]
    refine ⟨hsorted, List.pairwise_singleton _ _, fun k hk m hm => ?_⟩
    rw [List.mem_singleton] at hm
    exact hm ▸ hle k hk
  · intro k hk
    rcases List.mem_append.mp hk with hk | hk
    · exact hle k hk
    · exact Nat.le_of_eq (List.mem_singleton.mp hk)
  · rw [List.map_append, ← hacq, hl.current hd, hl.version]
    rfl

theorem Log.step {s' : Snapshots ι P} {a : SnapshotAct ι P} (hb : Books s stage none)
    (hl : Log s) (hs : s.step a = some s') : Log s' := by
  cases a with
  | publish i payload malloc =>
      simp only [Snapshots.step] at hs
      split at hs
      · split at hs
        · simp at hs
        · obtain rfl := Option.some.inj hs
          apply hl.frame
          cases malloc <;> exact ⟨rfl, rfl, rfl, rfl, rfl, rfl⟩
      · simp at hs
  | insert i =>
      simp only [Snapshots.step] at hs
      split at hs
      · split at hs
        · simp at hs
        · rename_i hd
          obtain rfl := Option.some.inj hs
          exact (hl.insert (by simpa using hd) _).frame (sameLog_giveUp _ _ _)
      · simp at hs
  | acquire i =>
      simp only [Snapshots.step] at hs
      split at hs
      · split at hs
        · simp at hs
        · rename_i hd
          obtain rfl := Option.some.inj hs
          have hd' : s.destroyed = false := by simpa using hd
          cases hcur : s.current with
          | none =>
              have hacq : s.acquire =
                  { s with acquired := s.acquired ++ [(s.current, s.version)] } := by
                simp [Snapshots.acquire, hcur]
              rw [hacq]
              exact hl.acquire hd' s.held s.heap
          | some h =>
              cases hr : s.heap h with
              | none =>
                  -- the current handle is allocated
                  have hlive : stage h = .live := (hb.live h).mpr (by simp [refs, hcur])
                  have halloc := hb.allocated h
                  simp [hlive, hr, HandleStage.allocated] at halloc
              | some r =>
                  have hacq : s.acquire =
                      { s with
                        heap := Function.update s.heap h (some { r with refcount := r.refcount + 1 })
                        held := s.held ++ [h]
                        acquired := s.acquired ++ [(s.current, s.version)] } := by
                    simp [Snapshots.acquire, hcur, hr, Snapshots.store]
                  rw [hacq]
                  exact hl.acquire hd' _ _
      · simp at hs
  | release i k =>
      simp only [Snapshots.step] at hs
      split at hs
      · split at hs
        · simp at hs
        · rename_i hd
          obtain rfl := Option.some.inj hs
          refine Log.frame ?_ (sameLog_giveUp _ _ _)
          exact { hl with destroyed := fun hc => absurd hc hd }
      · simp at hs
  | finalize i =>
      simp only [Snapshots.step] at hs
      split at hs
      · rename_i toFinalize hpc
        obtain rfl := Option.some.inj hs
        apply hl.frame
        cases toFinalize with
        | none => exact ⟨rfl, rfl, rfl, rfl, rfl, rfl⟩
        | some h =>
            simp only [Snapshots.callFree]
            cases s.heap h <;> exact ⟨rfl, rfl, rfl, rfl, rfl, rfl⟩
      · simp at hs
  | free i =>
      simp only [Snapshots.step] at hs
      split at hs
      · rename_i h hpc
        obtain rfl := Option.some.inj hs
        apply hl.frame
        simp only [Snapshots.freeHandle]
        cases s.heap h <;> exact ⟨rfl, rfl, rfl, rfl, rfl, rfl⟩
      · simp at hs
  | ownerDestroy i =>
      simp only [Snapshots.step] at hs
      split at hs
      · split at hs
        · simp at hs
        · rename_i hd
          obtain rfl := Option.some.inj hs
          refine Log.frame ?_ (sameLog_giveUp _ _ _)
          simp only [Bool.or_eq_true, Bool.not_eq_true', not_or, Bool.not_eq_true,
            Bool.not_eq_false] at hd
          exact { hl with
            current := fun hc => by simp at hc
            destroyed := fun _ => ⟨rfl, by simpa using hd.2⟩ }
      · simp at hs

theorem books_and_log {s : Snapshots ι P} (h : (snapshotSystem ι P).ReachBy fewHandles s) :
    (∃ stage, Books s stage none) ∧ Log s := by
  refine h.invariant (I := fun s => (∃ stage, Books s stage none) ∧ Log s) ?_ ?_
  · exact ⟨⟨_, Books.ownerInit⟩, Log.ownerInit⟩
  · rintro s a s' ⟨⟨stage, hb⟩, hl⟩ hfew hs
    exact ⟨hb.step hfew hs, hl.step hb hs⟩

omit [DecidableEq ι] in
theorem Books.freed_unused (hb : Books s stage none) {x : ℕ × P} (hx : x ∈ s.freed) :
    s.current ≠ some x.1 ∧ x.1 ∉ s.held := by
  have hfreed := (hb.freed x.1).mp (List.mem_map.mpr ⟨x, hx, rfl⟩)
  have hzero : refs s.held s.current none x.1 = 0 := by
    apply hb.refs_eq_zero
    intro hlive
    simp [hlive, HandleStage.freed] at hfreed
  simp only [refs, Nat.add_eq_zero_iff] at hzero
  constructor
  · intro hcur
    simp [hcur] at hzero
  · exact List.count_eq_zero.mp hzero.1.1

omit [DecidableEq ι] in
/-- A held handle is allocated, and its payload is the one published with
it. -/
theorem Books.held_payload (hb : Books s stage none) (hh : h ∈ s.held) :
    ∃ r, s.heap h = some r ∧ (h, r.payload) ∈ s.published := by
  have hlive : stage h = .live := by
    rw [hb.live h, refs]
    have := List.count_pos_iff.mpr hh
    omega
  have hsome : (s.heap h).isSome = true := by
    rw [← hb.allocated h, hlive]
    rfl
  have hpub : h ∈ s.published.map Prod.fst := by
    rw [hb.published h, hlive]
    rfl
  obtain ⟨r, hr⟩ := Option.isSome_iff_exists.mp hsome
  obtain ⟨⟨h', p⟩, hmem, rfl⟩ := List.mem_map.mp hpub
  refine ⟨r, hr, ?_⟩
  rw [hb.payload h' p r hmem hr]
  exact hmem

omit [DecidableEq ι] in
/-- Once nothing refers to a handle and nobody is about to free it, it was
freed. -/
theorem Books.all_freed (hb : Books s stage none) (hcur : s.current = none) (hheld : s.held = [])
    (hpending : ∀ i h, s.pc i ≠ .finalizing (some h)) {x : ℕ × P} (hx : x ∈ s.published) :
    x ∈ s.freed := by
  obtain ⟨h, p⟩ := x
  have hpub := (hb.published h).mp (List.mem_map.mpr ⟨_, hx, rfl⟩)
  have hmem : h ∈ s.freed.map Prod.fst := by
    rw [hb.freed h]
    cases hst : stage h with
    | unborn => simp [hst, HandleStage.published] at hpub
    | inserting i => simp [hst, HandleStage.published] at hpub
    | live =>
        have := (hb.live h).mp hst
        simp [refs, hcur, hheld] at this
    | finalizing i =>
        -- the thread that has to free it is still there
        have hd := (hb.duty i h (.finalizing i)).mpr ⟨hst, rfl⟩
        cases hpc : s.pc i with
        | idle => simp [hpc, SnapshotPc.duty] at hd
        | inserting h' p' => simp [hpc, SnapshotPc.duty] at hd
        | finalizing f =>
            cases f with
            | none => simp [hpc, SnapshotPc.duty] at hd
            | some h' => exact absurd hpc (hpending i h')
        | freeing h' => simp [hpc, SnapshotPc.duty] at hd
    | freeing i => rfl
    | gone => rfl
  obtain ⟨⟨h', p'⟩, hfreed, rfl⟩ := List.mem_map.mp hmem
  -- the payload published with a handle is unique
  have hpub' := hb.freed_payload _ hfreed
  have hinj := List.inj_on_of_nodup_map hb.published_nodup hpub' hx rfl
  rw [← hinj]
  exact hfreed

omit [DecidableEq ι] in
/-- Below the width of the version, the acquires are in the order of the
publishes. -/
theorem Log.versions (hl : Log s) (hlen : s.published.length < 2 ^ 64) :
    s.version.toNat = s.published.length ∧
      s.acquired.Pairwise (fun x y => x.2 ≤ y.2) ∧
      ∀ x ∈ s.acquired, x.1 = currentAfter s.published x.2.toNat := by
  have hnat : ∀ k, k ≤ s.published.length → (UInt64.ofNat k).toNat = k := by
    intro k hk
    rw [UInt64.toNat_ofNat']
    exact Nat.mod_eq_of_lt (Nat.lt_of_le_of_lt hk hlen)
  obtain ⟨ks, hsorted, hle, hacq⟩ := hl.acquired
  refine ⟨?_, ?_, ?_⟩
  · rw [hl.version, hnat _ (Nat.le_refl _)]
  · rw [hacq, List.pairwise_map]
    refine hsorted.imp_of_mem fun {k m} hk hm hkm => ?_
    rw [UInt64.le_iff_toNat_le, hnat k (hle k hk), hnat m (hle m hm)]
    exact hkm
  · intro x hx
    rw [hacq] at hx
    obtain ⟨k, hk, rfl⟩ := List.mem_map.mp hx
    rw [hnat k (hle k hk)]

end Snapshots

/-- Every published payload is freed exactly once, never while its handle is
current or held; what an acquire returns belongs to one publish. The version is
a 64-bit count of the publishes. -/
theorem snapshot_refcounting (ι P : Type) [DecidableEq ι] {s : Snapshots ι P}
    (h : (snapshotSystem ι P).ReachBy fewHandles s) :
    -- no handle is used after it was freed
    s.fault = false ∧
    -- a payload is freed at most once, after its publish, and not while in use
    ((s.published.map Prod.fst).Nodup ∧ (s.freed.map Prod.fst).Nodup ∧
      ∀ x ∈ s.freed, x ∈ s.published ∧ s.current ≠ some x.1 ∧ x.1 ∉ s.held) ∧
    -- a held handle reaches the payload published with it
    (∀ h ∈ s.held, ∃ r, s.heap h = some r ∧ (h, r.payload) ∈ s.published) ∧
    -- the version counts the publishes
    s.version = UInt64.ofNat s.published.length ∧
    (s.published.length < 2 ^ 64 →
      s.version.toNat = s.published.length ∧
      (∀ x ∈ s.acquired, x.1 = Snapshots.currentAfter s.published x.2.toNat) ∧
      (∀ x ∈ s.acquired, ∀ y ∈ s.acquired, x.2 = y.2 → x.1 = y.1) ∧
      s.acquired.Pairwise (fun x y => x.2 ≤ y.2)) ∧
    -- a failed publish changes nothing
    (∀ i payload s', s.step (.publish i payload false) = some s' → s' = s) ∧
    -- at the end everything published was freed
    (s.destroyed = true → (∀ i h, s.pc i ≠ .finalizing (some h)) →
      ∀ x ∈ s.published, x ∈ s.freed) := by
  obtain ⟨⟨stage, hb⟩, hl⟩ := Snapshots.books_and_log h
  refine ⟨hb.no_fault, ⟨hb.published_nodup, hb.freed_nodup, fun x hx => ?_⟩,
    fun h hh => hb.held_payload hh, hl.version, fun hlen => ?_, fun i payload s' hs => ?_,
    fun hd hpending x hx => ?_⟩
  · exact ⟨hb.freed_payload x hx, hb.freed_unused hx⟩
  · obtain ⟨hversion, hsorted, hpublish⟩ := hl.versions hlen
    refine ⟨hversion, hpublish, fun x hx y hy hxy => ?_, hsorted⟩
    rw [hpublish x hx, hpublish y hy, hxy]
  · simp only [Snapshots.step] at hs
    split at hs
    · split at hs
      · simp at hs
      · exact (Option.some.inj hs).symm
    · simp at hs
  · obtain ⟨hcur, hheld⟩ := hl.destroyed hd
    exact hb.all_freed hcur hheld hpending hx

/-- A handle is replaced while a reader holds it; the reader frees it. -/
def replacedWhileHeld : List (SnapshotAct Bool ℕ) :=
  [.publish true 10 true, .insert true, .finalize true, .acquire false,
    .publish true 20 true, .insert true, .finalize true, .release false 0, .finalize false,
    .free false, .ownerDestroy true, .finalize true, .free true]

def SnapshotPc.isIdle {P : Type*} : SnapshotPc P → Bool
  | .idle => true
  | _ => false

theorem snapshot_refcounting_replaced :
    ∃ s, (snapshotSystem Bool ℕ).ReachBy fewHandles s ∧ s.published = [(0, 10), (1, 20)] ∧
      s.fault = false ∧ s.version.toNat = 2 ∧ ∀ x ∈ s.published, x ∈ s.freed := by
  obtain ⟨s, hrun, hs⟩ := Option.map_eq_some_iff.mp
    (show ((snapshotSystem Bool ℕ).runBy fewHandles (snapshotSystem Bool ℕ).init
        replacedWhileHeld).map (fun s => (s.published, s.destroyed, (s.pc true).isIdle,
          (s.pc false).isIdle)) = some ([(0, 10), (1, 20)], true, true, true) by
      decide +kernel)
  simp only [Prod.mk.injEq] at hs
  obtain ⟨hpub, hdestroyed, htrue, hfalse⟩ := hs
  have hreach := System.reachBy_of_runBy System.ReachBy.init hrun
  obtain ⟨hfault, -, -, -, hversion, -, hend⟩ := snapshot_refcounting Bool ℕ hreach
  refine ⟨s, hreach, hpub, hfault, ?_, hend hdestroyed fun i h hpc => ?_⟩
  · rw [(hversion (by rw [hpub]; decide)).1, hpub]
    rfl
  · cases i with
    | true =>
        rw [hpc] at htrue
        cases htrue
    | false =>
        rw [hpc] at hfalse
        cases hfalse

namespace Snapshots

variable {ι P : Type} [DecidableEq ι] {s : Snapshots ι P} {i : ι}

@[simp] theorem snapshotSystem_step : (snapshotSystem ι P).step = Snapshots.step := rfl

theorem exists_giveUp_pc (s : Snapshots ι P) (i : ι) (e : Option ℕ) :
    ∃ f, (s.giveUp i e).pc i = .finalizing f := by
  cases e with
  | none => exact ⟨none, Function.update_self ..⟩
  | some h => exact ⟨_, Function.update_self ..⟩

/-- A thread that has to finalize a handle can go on until it is idle. -/
theorem exists_settled (h : (snapshotSystem ι P).ReachBy fewHandles s) {f : Option ℕ}
    (hpc : s.pc i = .finalizing f) :
    ∃ s', (snapshotSystem ι P).ReachBy fewHandles s' ∧ s'.pc i = .idle ∧
      s'.published = s.published ∧ s'.destroyed = s.destroyed := by
  obtain ⟨⟨stage, hb⟩, -⟩ := books_and_log h
  have hfirst : (snapshotSystem ι P).ReachBy fewHandles (s.callFree i f) := by
    refine .step (a := .finalize i) h trivial ?_
    simp [Snapshots.step, hpc]
  cases f with
  | none => exact ⟨_, hfirst, by simp [Snapshots.callFree], rfl, rfl⟩
  | some h' =>
      obtain ⟨r, hr, -⟩ := hb.callFree hpc
      have heq : s.callFree i (some h') =
          { s with freed := s.freed ++ [(h', r.payload)] }.goto i (.freeing h') := by
        simp [Snapshots.callFree, hr]
      rw [heq] at hfirst
      have hstep : Snapshots.step
          ({ s with freed := s.freed ++ [(h', r.payload)] }.goto i (.freeing h')) (.free i) =
            some ((({ s with freed := s.freed ++ [(h', r.payload)] }.goto i (.freeing h')).store h'
              none).goto i .idle) := by
        simp [Snapshots.step, Snapshots.freeHandle, hr]
      exact ⟨_, .step (a := .free i) hfirst trivial hstep, by simp, rfl, rfl⟩

/-- One thread can publish as often as it wants. -/
theorem exists_published (i : ι) (payload : P) (n : ℕ) :
    ∃ s, (snapshotSystem ι P).ReachBy fewHandles s ∧ s.pc i = .idle ∧ s.published.length = n ∧
      s.destroyed = false := by
  induction n with
  | zero => exact ⟨_, .init, rfl, rfl, rfl⟩
  | succ n ih =>
      obtain ⟨s, hreach, hpc, hlen, hd⟩ := ih
      have hfirst : (snapshotSystem ι P).ReachBy fewHandles (s.publish i payload true) := by
        refine .step (a := .publish i payload true) hreach trivial ?_
        simp [Snapshots.step, hpc, hd]
      have hins : (s.publish i payload true).pc i = .inserting s.nextHandle payload := by
        simp [Snapshots.publish]
      have hd' : (s.publish i payload true).destroyed = false := hd
      have hsecond : (snapshotSystem ι P).ReachBy fewHandles
          ((s.publish i payload true).insert i s.nextHandle payload) := by
        refine .step (a := .insert i) hfirst trivial ?_
        simp [Snapshots.step, hins, hd']
      obtain ⟨f, hf⟩ := exists_giveUp_pc _ i (s.publish i payload true).current
      obtain ⟨s', hreach', hpc', hpub', hdes'⟩ := exists_settled hsecond hf
      have hsame := sameLog_giveUp
        { s.publish i payload true with
          current := some s.nextHandle
          version := s.version + 1
          published := s.published ++ [(s.nextHandle, payload)] } i
        (s.publish i payload true).current
      refine ⟨s', hreach', hpc', ?_, ?_⟩
      · rw [hpub']
        exact (congrArg List.length hsame.published).trans (by simp [hlen])
      · rw [hdes']
        exact hsame.destroyed.trans hd

end Snapshots

/-- The version is as wide as its type: it starts again after `2 ^ 64`
publishes. -/
theorem snapshot_version_wraps :
    ∃ s : Snapshots Unit Unit, (snapshotSystem Unit Unit).ReachBy fewHandles s ∧
      s.published.length = 2 ^ 64 ∧ s.version.toNat ≠ s.published.length := by
  obtain ⟨s, hreach, -, hlen, -⟩ := Snapshots.exists_published () () (2 ^ 64)
  refine ⟨s, hreach, hlen, ?_⟩
  have := s.version.toNat_lt
  rw [hlen]
  omega

end Savvy
