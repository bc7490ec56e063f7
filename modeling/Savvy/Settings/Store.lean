import Mathlib.Data.List.Induction
import Savvy.Core.SnapshotSafety
import Savvy.Settings.FieldTable

/-!
The Config and Device stores (`src/features/config/config_store.c` and
`device_store.c` there). A store has a snapshot owner and the working value that
it compares the next one with. The two entry points hold `write_lock` for their
whole length, so a store goes through a sequence of calls; the allocations of a
call succeed or fail by choice. The two stores are one definition with the parts
in which they differ.

What a call publishes is decided by the call alone: the store holds the payload
of the last call that published one, and every other call leaves no trace.
-/

namespace Savvy.Settings

open CJson

/-! ### The snapshot of a store -/

/-- What the owner of a snapshot shows to a reader. -/
structure SnapshotView (P : Type) where
  current : Option P
  version : UInt64

/-- `savvy_snapshot_publish`, once its handle is allocated. -/
def SnapshotView.publish {P : Type} (v : SnapshotView P) (payload : P) : SnapshotView P :=
  ⟨some payload, v.version + 1⟩

/-- What the owner shows, in the model with all its threads. -/
def view {ι P : Type} (s : Snapshots ι P) : SnapshotView P :=
  ⟨s.published.getLast?.map (·.2), s.version⟩

section View

variable {ι P : Type} [DecidableEq ι] {s s' : Snapshots ι P}

theorem view_giveUp (s : Snapshots ι P) (i : ι) (e : Option ℕ) : view (s.giveUp i e) = view s := by
  have hsame := Snapshots.sameLog_giveUp s i e
  rw [view, hsame.published, hsame.version, view]

theorem view_insert (s : Snapshots ι P) (i : ι) (h : ℕ) (payload : P) :
    view (s.insert i h payload) = (view s).publish payload := by
  rw [Snapshots.insert, view_giveUp]
  simp [view, SnapshotView.publish]

/-- No other step of any thread changes what the owner shows. -/
theorem view_step {a : SnapshotAct ι P} (ha : ∀ i, a ≠ .insert i) (hs : s.step a = some s') :
    view s' = view s := by
  cases a with
  | insert i => exact absurd rfl (ha i)
  | publish i payload malloc =>
      simp only [Snapshots.step] at hs
      split at hs
      · split at hs
        · simp at hs
        · obtain rfl := Option.some.inj hs
          cases malloc <;> rfl
      · simp at hs
  | acquire i =>
      simp only [Snapshots.step] at hs
      split at hs
      · split at hs
        · simp at hs
        · obtain rfl := Option.some.inj hs
          unfold Snapshots.acquire
          split
          · rfl
          · split <;> rfl
      · simp at hs
  | release i k =>
      simp only [Snapshots.step] at hs
      split at hs
      · split at hs
        · simp at hs
        · obtain rfl := Option.some.inj hs
          rw [view_giveUp]
          rfl
      · simp at hs
  | finalize i =>
      simp only [Snapshots.step] at hs
      split at hs
      · next toFinalize _ =>
          obtain rfl := Option.some.inj hs
          cases toFinalize with
          | none => rfl
          | some h =>
              simp only [Snapshots.callFree]
              split <;> rfl
      · simp at hs
  | free i =>
      simp only [Snapshots.step] at hs
      split at hs
      · obtain rfl := Option.some.inj hs
        simp only [Snapshots.freeHandle]
        split <;> rfl
      · simp at hs
  | ownerDestroy i =>
      simp only [Snapshots.step] at hs
      split at hs
      · split at hs
        · simp at hs
        · obtain rfl := Option.some.inj hs
          rw [Snapshots.ownerDestroy, view_giveUp]
          rfl
      · simp at hs

end View

/-- `config_snapshot_payload_t` and `device_snapshot_payload_t`. -/
structure SnapshotPayload (σ : Type) where
  value : σ
  rawJson : List UInt8

/-! ### Stores -/

/-- The parts of a store: its defaults, its parser, what `load_cached` does to
the parsed value, and the result of `apply_runtime` from the old and the new
value. -/
structure StoreSpec (σ ρ : Type) where
  defaults : σ
  parse : Bool → List UInt8 → σ → Status × σ
  afterLoad : σ → σ
  result : σ → σ → ρ

/-- `sensor_config_store_t` and `sensor_device_store_t`. -/
structure Store (σ : Type) where
  snapshot : SnapshotView (SnapshotPayload σ)
  working : σ

/-- Which allocations of a call succeed: those of the parser, of the payload
(which also fails if its size does not fit a `size_t`) and of the handle. -/
structure Memory where
  tree : Bool
  payload : Bool
  handle : Bool

/-- The end of both entry points up to the publish: the payload is created and
handed to the snapshot. -/
def Store.publish {σ : Type} (s : Store σ) (scratch : σ) (raw : List UInt8) (m : Memory) :
    Status × Store σ :=
  if !m.payload then (.outOfMemory, s)
  else if !m.handle then (.outOfMemory, s)
  else (.ok, { s with snapshot := s.snapshot.publish ⟨scratch, raw⟩ })

/-- A call of a store. A null pointer is `none`, a text is terminated at its
length, and `out` is what stands behind `out_result` before the call. -/
inductive StoreCall (ρ : Type)
  | loadCached (cached : Option (List UInt8)) (m : Memory)
  | applyRuntime (json : Option (List UInt8)) (out : Option ρ) (m : Memory)

/-- What stands behind `out_result`. -/
def StoreCall.out {ρ : Type} : StoreCall ρ → Option ρ
  | .loadCached .. => none
  | .applyRuntime _ out _ => out

structure StoreReturn (σ ρ : Type) where
  status : Status
  store : Store σ
  out : Option ρ

namespace StoreSpec

variable {σ ρ : Type} (S : StoreSpec σ ρ)

/-- `sensor_config_store_init`, `sensor_device_store_init`. -/
def init : Store σ := ⟨⟨none, 0⟩, S.defaults⟩

/-- `sensor_config_store_load_cached`, `sensor_device_store_load_cached`. -/
def loadCached (s : Store σ) (cached : Option (List UInt8)) (m : Memory) : Status × Store σ :=
  let (st, scratch) :=
    match cached with
    | some text =>
        if text.length > 0 then S.parse m.tree text S.defaults else (.ok, S.defaults)
    | none => (.ok, S.defaults)
  if st ≠ .ok then (st, s)
  else
    let scratch := S.afterLoad scratch
    let (st, s) := s.publish scratch (cached.getD []) m
    if st ≠ .ok then (st, s) else (.ok, { s with working := scratch })

/-- `sensor_config_store_apply_runtime`, `sensor_device_store_apply_runtime`. -/
def applyRuntime (s : Store σ) (json : Option (List UInt8)) (out : Option ρ) (m : Memory) :
    StoreReturn σ ρ :=
  match json, out with
  | some text, some _ =>
      let (st, scratch) := S.parse m.tree text S.defaults
      if st ≠ .ok then ⟨st, s, out⟩
      else
        let (st, s) := s.publish scratch text m
        if st ≠ .ok then ⟨st, s, out⟩
        else ⟨.ok, { s with working := scratch }, some (S.result s.working scratch)⟩
  | _, _ => ⟨.invalidArgument, s, out⟩

def exec (s : Store σ) : StoreCall ρ → StoreReturn σ ρ
  | .loadCached cached m => ⟨(S.loadCached s cached m).1, (S.loadCached s cached m).2, none⟩
  | .applyRuntime json out m => S.applyRuntime s json out m

def run (calls : List (StoreCall ρ)) : Store σ :=
  calls.foldl (fun s c => (S.exec s c).store) S.init

/-! ### What a call publishes -/

/-- The fields of a text parsed onto the defaults. -/
def parsed (m : Memory) (text : List UInt8) : Option σ :=
  match S.parse m.tree text S.defaults with
  | (.ok, value) => some value
  | _ => none

/-- The payload that a call publishes, where `loaded` is applied to a cached
value. -/
def published (loaded : σ → σ) : StoreCall ρ → Option (SnapshotPayload σ)
  | .loadCached cached m =>
      if m.payload && m.handle then
        match cached.getD [] with
        | [] => some ⟨loaded S.defaults, []⟩
        | b :: text => (S.parsed m (b :: text)).map fun v => ⟨loaded v, b :: text⟩
      else none
  | .applyRuntime (some text) (some _) m =>
      if m.payload && m.handle then (S.parsed m text).map fun v => ⟨v, text⟩ else none
  | .applyRuntime _ _ _ => none

def history (loaded : σ → σ) (calls : List (StoreCall ρ)) : List (SnapshotPayload σ) :=
  calls.filterMap (S.published loaded)

def lastValue (loaded : σ → σ) (calls : List (StoreCall ρ)) : σ :=
  ((S.history loaded calls).getLast?.map (·.value)).getD S.defaults

variable {S}

theorem Store.publish_ok {σ : Type} (s : Store σ) (scratch : σ) (raw : List UInt8) {m : Memory}
    (h : (m.payload && m.handle) = true) :
    s.publish scratch raw m = (.ok, { s with snapshot := s.snapshot.publish ⟨scratch, raw⟩ }) := by
  rw [Bool.and_eq_true] at h
  simp [Store.publish, h]

theorem Store.publish_error {σ : Type} (s : Store σ) (scratch : σ) (raw : List UInt8) {m : Memory}
    (h : (m.payload && m.handle) = false) : s.publish scratch raw m = (.outOfMemory, s) := by
  rw [Bool.and_eq_false_iff] at h
  rcases h with h | h
  · simp [Store.publish, h]
  · simp [Store.publish, h]

theorem parsed_eq_some {m : Memory} {text : List UInt8} {v : σ} :
    S.parsed m text = some v ↔ S.parse m.tree text S.defaults = (.ok, v) := by
  unfold parsed
  split
  · next value heq => simp [heq]
  · next heq =>
      refine ⟨fun h => absurd h (by simp), fun h => ?_⟩
      exact absurd h (fun h => heq v h)

theorem parsed_eq_none {m : Memory} {text : List UInt8} :
    S.parsed m text = none ↔ (S.parse m.tree text S.defaults).1 ≠ .ok := by
  unfold parsed
  split
  · next value heq => simp [heq]
  · next heq =>
      refine ⟨fun _ h => ?_, fun _ => rfl⟩
      exact heq _ (Prod.ext h rfl)

/-- The value that `load_cached` starts the publish with. -/
def cachedValue (S : StoreSpec σ ρ) (m : Memory) (cached : Option (List UInt8)) : Status × σ :=
  match cached.getD [] with
  | [] => (.ok, S.defaults)
  | b :: text => S.parse m.tree (b :: text) S.defaults

theorem loadCached_eq (s : Store σ) (cached : Option (List UInt8)) (m : Memory) :
    S.loadCached s cached m =
      if (S.cachedValue m cached).1 ≠ .ok then ((S.cachedValue m cached).1, s)
      else
        let r := s.publish (S.afterLoad (S.cachedValue m cached).2) (cached.getD []) m
        if r.1 ≠ .ok then (r.1, r.2)
        else (.ok, { r.2 with working := S.afterLoad (S.cachedValue m cached).2 }) := by
  match cached with
  | none => rfl
  | some [] => rfl
  | some (_ :: _) => rfl

theorem published_loadCached (cached : Option (List UInt8)) (m : Memory) :
    S.published S.afterLoad (.loadCached cached m) =
      if (m.payload && m.handle) = true ∧ (S.cachedValue m cached).1 = .ok then
        some ⟨S.afterLoad (S.cachedValue m cached).2, cached.getD []⟩
      else none := by
  simp only [published, cachedValue]
  cases hmemory : (m.payload && m.handle) with
  | false => simp
  | true =>
      by_cases hcached : cached.getD [] = []
      · simp [hcached]
      · obtain ⟨b, text, htext⟩ := List.exists_cons_of_ne_nil hcached
        simp only [htext, if_true, true_and]
        cases hparsed : S.parsed m (b :: text) with
        | none =>
            rw [if_neg (parsed_eq_none.mp hparsed)]
            rfl
        | some v =>
            rw [parsed_eq_some.mp hparsed]
            simp

/-- A call that publishes a payload. -/
theorem exec_of_published {c : StoreCall ρ} {p : SnapshotPayload σ}
    (h : S.published S.afterLoad c = some p) (s : Store σ) :
    S.exec s c =
      ⟨.ok, ⟨s.snapshot.publish p, p.value⟩,
        c.out.map fun _ => S.result s.working p.value⟩ := by
  cases c with
  | loadCached cached m =>
      rw [published_loadCached] at h
      split at h
      · next hok =>
          cases h
          simp [exec, loadCached_eq, hok.2, Store.publish_ok _ _ _ hok.1, StoreCall.out]
      · exact absurd h (by simp)
  | applyRuntime json out m =>
      cases json with
      | none => simp [published] at h
      | some text =>
          cases out with
          | none => simp [published] at h
          | some old =>
              simp only [published] at h
              split at h
              · next hmemory =>
                  obtain ⟨v, hv, rfl⟩ := Option.map_eq_some_iff.mp h
                  rw [parsed_eq_some] at hv
                  simp [exec, applyRuntime, hv, Store.publish_ok _ _ _ hmemory, StoreCall.out]
              · exact absurd h (by simp)

/-- A call that publishes nothing fails and leaves everything as it was. -/
theorem exec_of_not_published {c : StoreCall ρ} (h : S.published S.afterLoad c = none)
    (s : Store σ) :
    (S.exec s c).status ≠ .ok ∧ (S.exec s c).store = s ∧ (S.exec s c).out = c.out := by
  cases c with
  | loadCached cached m =>
      rw [published_loadCached] at h
      rw [exec, loadCached_eq]
      by_cases hok : (S.cachedValue m cached).1 = .ok
      · have hmemory : (m.payload && m.handle) = false := by
          by_contra htrue
          rw [if_pos ⟨by simpa using htrue, hok⟩] at h
          exact absurd h (by simp)
        simp [hok, Store.publish_error _ _ _ hmemory, StoreCall.out]
      · simp [hok, StoreCall.out]
  | applyRuntime json out m =>
      cases json with
      | none => simp [exec, applyRuntime, StoreCall.out]
      | some text =>
          cases out with
          | none => simp [exec, applyRuntime, StoreCall.out]
          | some old =>
              simp only [published] at h
              simp only [exec, applyRuntime, StoreCall.out]
              by_cases hok : (S.parse m.tree text S.defaults).1 = .ok
              · have hmemory : (m.payload && m.handle) = false := by
                  by_contra htrue
                  rw [if_pos (by simpa using htrue), Option.map_eq_none_iff, parsed_eq_none] at h
                  exact h hok
                simp [hok, Store.publish_error _ _ _ hmemory]
              · simp [hok]

/-! ### Sequences of calls -/

theorem run_concat (calls : List (StoreCall ρ)) (c : StoreCall ρ) :
    S.run (calls ++ [c]) = (S.exec (S.run calls) c).store := by
  simp [run]

theorem history_concat (loaded : σ → σ) (calls : List (StoreCall ρ)) (c : StoreCall ρ) :
    S.history loaded (calls ++ [c]) =
      S.history loaded calls ++ (S.published loaded c).toList := by
  cases h : S.published loaded c <;> simp [history, h]

/-- The store is given by the payloads that were published. -/
theorem run_eq (calls : List (StoreCall ρ)) :
    S.run calls =
      ⟨⟨(S.history S.afterLoad calls).getLast?,
          UInt64.ofNat (S.history S.afterLoad calls).length⟩,
        S.lastValue S.afterLoad calls⟩ := by
  induction calls using List.reverseRecOn with
  | nil => rfl
  | append_singleton calls c ih =>
      rw [run_concat, lastValue, history_concat]
      cases h : S.published S.afterLoad c with
      | none =>
          rw [(exec_of_not_published h _).2.1, ih]
          simp [lastValue]
      | some p =>
          rw [exec_of_published h, ih]
          simp [SnapshotView.publish]

/-- What holds after a sequence of calls, and of the call that comes next, where
`compared` is the result for the value before and the value published. -/
structure Transactional (S : StoreSpec σ ρ) (loaded : σ → σ) (compared : σ → σ → ρ)
    (calls : List (StoreCall ρ)) : Prop where
  /-- The working value is the typed value of the snapshot. -/
  working : (S.run calls).working =
    ((S.run calls).snapshot.current.map (·.value)).getD S.defaults
  /-- The snapshot is that of the last call that succeeded. -/
  current : (S.run calls).snapshot.current = (S.history loaded calls).getLast?
  /-- The version counts the calls that succeeded. -/
  version : (S.run calls).snapshot.version = UInt64.ofNat (S.history loaded calls).length
  /-- A call succeeds exactly if it publishes a payload. -/
  status : ∀ c, (S.exec (S.run calls) c).status = .ok ↔ (S.published loaded c).isSome = true
  /-- It publishes that payload, and compares its value with that of the previous
  call that succeeded. -/
  ok : ∀ c p, S.published loaded c = some p →
    (S.exec (S.run calls) c).store.snapshot.current = some p ∧
      (S.exec (S.run calls) c).store.snapshot.version = (S.run calls).snapshot.version + 1 ∧
      (S.exec (S.run calls) c).store.working = p.value ∧
      (S.exec (S.run calls) c).out = c.out.map fun _ => compared (S.lastValue loaded calls) p.value
  /-- A call that fails changes nothing. -/
  error : ∀ c, (S.exec (S.run calls) c).status ≠ .ok →
    (S.exec (S.run calls) c).store = S.run calls ∧ (S.exec (S.run calls) c).out = c.out

theorem transactional (S : StoreSpec σ ρ) (calls : List (StoreCall ρ)) :
    S.Transactional S.afterLoad S.result calls := by
  have hrun := @run_eq σ ρ S calls
  have hstatus (c : StoreCall ρ) : (S.exec (S.run calls) c).status = .ok ↔
      (S.published S.afterLoad c).isSome = true := by
    cases h : S.published S.afterLoad c with
    | none => simpa using (exec_of_not_published h _).1
    | some p => simp [exec_of_published h]
  refine ⟨?_, ?_, ?_, hstatus, ?_, ?_⟩
  · rw [hrun]
    rfl
  · rw [hrun]
  · rw [hrun]
  · intro c p h
    rw [exec_of_published h]
    refine ⟨rfl, rfl, rfl, ?_⟩
    rw [hrun]
  · intro c hfail
    have hnone : S.published S.afterLoad c = none := by
      rw [Ne, hstatus, Bool.not_eq_true, Option.isSome_eq_false_iff, Option.isNone_iff_eq_none] at hfail
      exact hfail
    exact (exec_of_not_published hnone _).2

end StoreSpec

/-! ### The two stores -/

/-- `sensor_config_apply_result_t`. -/
structure ConfigApplyResult where
  serverIpChanged : Bool
  serverIp : FieldString
  useRknnRawChanged : Bool
  useRknnRawOld : Int32
  useRknnRawNew : Int32
  deriving DecidableEq

def configApplyResult (working scratch : Config) : ConfigApplyResult where
  serverIpChanged := working.serverIp ≠ scratch.serverIp
  serverIp := if working.serverIp ≠ scratch.serverIp then scratch.serverIp else .empty
  useRknnRawChanged := working.useRknn ≠ scratch.useRknn
  useRknnRawOld := working.useRknn
  useRknnRawNew := scratch.useRknn

def configStore : StoreSpec Config ConfigApplyResult where
  defaults := configDefaults
  parse := configParse
  afterLoad := id
  result := configApplyResult

/-- `sensor_device_apply_result_t`. -/
structure DeviceApplyResult where
  dataCollectionRawOld : Int32
  dataCollectionRawNew : Int32
  deriving DecidableEq

def deviceApplyResult (working scratch : Device) : DeviceApplyResult where
  dataCollectionRawOld := working.dataCollection
  dataCollectionRawNew := scratch.dataCollection

def resetStatefulFields (device : Device) : Device :=
  { device with
    blueTooth := 0
    mic := 0
    wifi := 0
    tof := 0
    led := 0
    buzzer := 0
    moveSensor := 0
    beacon := 0
    reboot := 0 }

def deviceStore : StoreSpec Device DeviceApplyResult where
  defaults := deviceDefaults
  parse := deviceParse
  afterLoad := resetStatefulFields
  result := deviceApplyResult

/-- Both stores are transactional: a cached Config is published as it was parsed,
a cached Device with its nine stateful fields zeroed, and the result of a call
has the fields of the value before it and of the value it publishes. -/
theorem stores_transactional :
    (∀ calls, configStore.Transactional (fun config => config)
      (fun old new =>
        { serverIpChanged := old.serverIp ≠ new.serverIp
          serverIp := if old.serverIp ≠ new.serverIp then new.serverIp else .empty
          useRknnRawChanged := old.useRknn ≠ new.useRknn
          useRknnRawOld := old.useRknn
          useRknnRawNew := new.useRknn }) calls) ∧
      ∀ calls, deviceStore.Transactional
        (fun device =>
          ⟨device.deviceSerial, device.deviceMac, device.deviceIp, device.btName, 0, 0, 0, 0, 0, 0,
            0, 0, device.appMgr, device.appSensor, device.os, device.tName, device.toilet,
            device.stall, 0, device.appRknn, device.verRknn, device.smokeValue,
            device.dataCollection⟩)
        (fun old new =>
          { dataCollectionRawOld := old.dataCollection
            dataCollectionRawNew := new.dataCollection }) calls :=
  ⟨fun calls => configStore.transactional calls, fun calls => deviceStore.transactional calls⟩

def noCache : StoreCall ConfigApplyResult := .loadCached none ⟨true, true, true⟩

def noCaches (n : ℕ) : List (StoreCall ConfigApplyResult) := List.replicate n noCache

theorem published_noCache : configStore.published (fun config => config) noCache =
    some ⟨configDefaults, []⟩ := rfl

theorem length_history_noCaches (n : ℕ) :
    (configStore.history (fun config => config) (noCaches n)).length = n := by
  rw [StoreSpec.history, noCaches, List.filterMap_replicate_of_some published_noCache,
    List.length_replicate]

theorem version_noCaches (n : ℕ) :
    (configStore.run (noCaches n)).snapshot.version = UInt64.ofNat n := by
  rw [(configStore.transactional (noCaches n)).version]
  exact congrArg UInt64.ofNat (length_history_noCaches n)

/-- The version of the call behind `2 ^ 64 - 1` others is zero. -/
theorem store_version_wraps :
    (configStore.run (noCaches 18446744073709551615)).snapshot.version.toNat =
        18446744073709551615 ∧
      (configStore.exec (configStore.run (noCaches 18446744073709551615)) noCache).status = .ok ∧
      (configStore.exec (configStore.run (noCaches 18446744073709551615))
        noCache).store.snapshot.version.toNat = 0 := by
  have hversion := version_noCaches 18446744073709551615
  have htrans := configStore.transactional (noCaches 18446744073709551615)
  have hnext := (htrans.ok noCache _ published_noCache).2.1
  refine ⟨?_, (htrans.status noCache).mpr rfl, ?_⟩
  · rw [hversion]
    rfl
  · rw [hnext, hversion]
    rfl

end Savvy.Settings
