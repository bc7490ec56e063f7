import Savvy.Settings.ApplyTable

/-!
The two models of the Config and Device codecs. `Savvy.Settings.FieldTable` has a
struct as a record of its values, as the stores use it; `Savvy.Settings.Layout` has
its bytes. A record stands for the bytes when each field of the table has the value
that the record has. What the parse functions do to the bytes is then what they do
to the record.
-/

namespace Savvy.Settings

open CJson Kit

variable {σ ι : Type} {decls : List (ι × CType)} {rows : List FieldRow}

/-- The two descriptions of one field: the same member, type and room. -/
def FieldDesc.Matches : FieldDesc σ → FieldRow → Prop
  | .string key _, f => key = f.jsonKey ∧ f.type = .string ∧ f.strCap = strLen
  | .int32 key _, f => key = f.jsonKey ∧ f.type = .int32

/-- The field is number `i` of the values of a record. -/
def FieldDesc.Writes (values : σ → List FieldValue) (i : ℕ) : FieldDesc σ → Prop
  | .string _ set => ∀ v out, values (set v out) = (values out).set i (.string v.bytes)
  | .int32 _ set => ∀ v out, values (set v out) = (values out).set i (.int32 v)

/-- A record type for a table: its fields are those of the rows, in their order. -/
structure TypedTable (σ : Type) (rows : List FieldRow) where
  fields : List (FieldDesc σ)
  values : σ → List FieldValue
  same : List.Forall₂ FieldDesc.Matches fields rows
  writes : ∀ p ∈ fields.zipIdx, p.1.Writes values p.2

/-- The values of the fields of a struct, in the order of the rows. -/
def fieldValues (o : ByteOrder) (rows : List FieldRow) (mem : List UInt8) : List FieldValue :=
  rows.map fun f => f.value o mem

theorem FieldDesc.Matches.key {d : FieldDesc σ} {f : FieldRow} (h : d.Matches f) :
    d.key = f.jsonKey := by
  cases d with
  | string key set => exact h.1
  | int32 key set => exact h.1

/-- The record takes a member that the row does not accept for an error, too. -/
theorem applyItem_reject {d : FieldDesc σ} {f : FieldRow} (hmatch : d.Matches f) {item : Json}
    (h : ¬ f.Accepts item) (out : σ) : applyItem item out d = none := by
  cases d with
  | string key set =>
      obtain ⟨-, htype, hcap⟩ := hmatch
      simp only [FieldRow.Accepts, htype, hcap] at h
      cases item with
      | string s =>
          have hlong : ¬ (cstr s).length < strLen := fun hlt => h ⟨s, rfl, hlt⟩
          simp only [applyItem, dif_neg hlong]
      | _ => rfl
  | int32 key set =>
      obtain ⟨-, htype⟩ := hmatch
      simp only [FieldRow.Accepts, htype] at h
      simp only [applyItem]
      split
      · next n hn => exact absurd ⟨n, numberToInt32_ok_iff.mp hn⟩ h
      · rfl

theorem applyItem_accept {o : ByteOrder} {values : σ → List FieldValue} {i : ℕ} {d : FieldDesc σ}
    {f : FieldRow} (hmatch : d.Matches f) (hwrites : d.Writes values i) {item : Json}
    (h : f.Accepts item) {mem : List UInt8} (hholds : f.HoldsItem o item mem) (out : σ) :
    ∃ out', applyItem item out d = some out' ∧
      values out' = (values out).set i (f.value o mem) := by
  cases d with
  | string key set =>
      obtain ⟨-, htype, hcap⟩ := hmatch
      simp only [FieldRow.Accepts, htype, hcap] at h
      obtain ⟨s, rfl, hlen⟩ := h
      refine ⟨set ⟨cstr s, hlen⟩ out, by simp only [applyItem, dif_pos hlen], ?_⟩
      rw [hwrites]
      simp only [FieldRow.HoldsItem, FieldRow.value, htype] at hholds ⊢
      obtain ⟨t, ht, heq⟩ := hholds
      cases ht
      rw [heq]
  | int32 key set =>
      obtain ⟨-, htype⟩ := hmatch
      simp only [FieldRow.Accepts, htype] at h
      obtain ⟨n, rfl, hrange⟩ := h
      refine ⟨set (Int32.ofInt n) out,
        by simp only [applyItem, numberToInt32_ok_iff.mpr ⟨rfl, hrange⟩], ?_⟩
      rw [hwrites]
      simp only [FieldRow.HoldsItem, FieldRow.value, htype] at hholds ⊢
      simp only [Json.number.injEq, Double.finite.injEq, Rat.intCast_inj] at hholds
      rw [hholds, Int32.ofInt_toInt]

theorem applyFieldTable_reject {root item : Json} {d : FieldDesc σ} {fields : List (FieldDesc σ)}
    {out : σ} (hget : getObjectItem root d.key = some item) (h : applyItem item out d = none) :
    applyFieldTable root (d :: fields) out = (.protocol, out) := by
  rw [applyFieldTable, hget]
  cases item with
  | null => rfl
  | _ => simp only [h]

theorem applyFieldTable_found {root item : Json} {d : FieldDesc σ} {fields : List (FieldDesc σ)}
    {out out' : σ} (hget : getObjectItem root d.key = some item) (hne : item ≠ .null)
    (h : applyItem item out d = some out') :
    applyFieldTable root (d :: fields) out = applyFieldTable root fields out' := by
  rw [applyFieldTable, hget]
  cases item with
  | null => exact absurd rfl hne
  | _ => simp only [h]

theorem fieldValues_set {size : ℕ} (table : Table size) (o : ByteOrder) {i : ℕ} {f : FieldRow}
    (hi : table.rows[i]? = some f) {mem mem' : List UInt8}
    (hframe : ∀ k, ¬ f.Covers k → mem'[k]? = mem[k]?) :
    fieldValues o table.rows mem' = (fieldValues o table.rows mem).set i (f.value o mem') := by
  have hnodup : table.rows.Nodup := List.Nodup.of_map _ table.names
  obtain ⟨hlt, rfl⟩ := List.getElem?_eq_some_iff.mp hi
  apply List.ext_getElem
  · simp [fieldValues]
  · intro j hj _
    have hjlt : j < table.rows.length := by simpa [fieldValues] using hj
    simp only [fieldValues, List.getElem_map, List.getElem_set]
    split
    · next heq => subst heq; rfl
    · next hne =>
        apply FieldRow.value_congr_covers
        intro k hk
        apply hframe k
        have hother : table.rows[j] ≠ table.rows[i] := fun heq =>
          hne (hnodup.getElem_inj_iff.mp heq).symm
        exact table.not_covers (List.getElem_mem hjlt) (List.getElem_mem hlt) hother hk

/-- The loops do the same to the bytes and to the record, from the row number `i` on. -/
theorem applyRows_typed {size : ℕ} (table : Table size) (o : ByteOrder) {root : Json}
    {values : σ → List FieldValue} {fields : List (FieldDesc σ)} {fs : List FieldRow}
    (hsame : List.Forall₂ FieldDesc.Matches fields fs) {i : ℕ}
    (hrows : ∀ (j : ℕ) (f : FieldRow), fs[j]? = some f → table.rows[i + j]? = some f)
    (hwrites : ∀ (j : ℕ) (d : FieldDesc σ), fields[j]? = some d → d.Writes values (i + j))
    {mem : List UInt8} {out : σ} (hlen : mem.length = size)
    (hvalues : fieldValues o table.rows mem = values out) :
    ∃ mem', applyRows o root fs mem = some ((applyFieldTable root fields out).1, mem') ∧
      mem'.length = size ∧
      fieldValues o table.rows mem' = values (applyFieldTable root fields out).2 := by
  induction hsame generalizing i mem out with
  | nil => exact ⟨mem, rfl, hlen, hvalues⟩
  | @cons d f fields fs hmatch hsame ih =>
      have hrow : table.rows[i]? = some f := hrows 0 f rfl
      have hmem : f ∈ table.rows := List.mem_of_getElem? hrow
      have hrows' : ∀ (j : ℕ) (g : FieldRow), fs[j]? = some g → table.rows[i + 1 + j]? = some g := by
        intro j g hg
        rw [Nat.add_assoc, Nat.add_comm 1 j]
        exact hrows (j + 1) g hg
      have hwrites' : ∀ (j : ℕ) (e : FieldDesc σ), fields[j]? = some e →
          e.Writes values (i + 1 + j) := by
        intro j e he
        rw [Nat.add_assoc, Nat.add_comm 1 j]
        exact hwrites (j + 1) e he
      cases hget : getObjectItem root f.jsonKey with
      | none =>
          rw [applyRows_absent hget, applyFieldTable, hmatch.key, hget]
          exact ih hrows' hwrites' hlen hvalues
      | some item =>
          have hgetd : getObjectItem root d.key = some item := hmatch.key ▸ hget
          by_cases haccepts : f.Accepts item
          · obtain ⟨mem1, happly, hlen1, hholds, hframe⟩ :=
              applyRow_accept (o := o) haccepts (hlen ▸ table.inside f hmem)
            obtain ⟨out1, hitem, hout1⟩ :=
              applyItem_accept hmatch (hwrites 0 d rfl) haccepts hholds out
            have hvalues1 : fieldValues o table.rows mem1 = values out1 := by
              rw [fieldValues_set table o hrow hframe, hvalues, hout1]
              rfl
            have hne := FieldRow.accepts_ne_null haccepts
            rw [applyRows_found hget hne happly, applyFieldTable_found hgetd hne hitem]
            exact ih hrows' hwrites' (hlen1.trans hlen) hvalues1
          · rw [applyRows_reject hget haccepts,
              applyFieldTable_reject hgetd (applyItem_reject hmatch haccepts out)]
            exact ⟨mem, rfl, hlen, hvalues⟩

/-- A parse function on a struct does to its bytes what it does to the record, and
returns the same status. -/
theorem parseRows_typed (typed : TypedTable σ rows) (h : TableOk decls rows) (o : ByteOrder)
    (text more : List UInt8) {mem : List UInt8} {out : σ} (hlen : mem.length = sizeof decls)
    (hvalues : fieldValues o rows mem = typed.values out) :
    ∃ mem' calls, parseRows o rows (text ++ 0 :: more) text.length mem =
        some ((parseTable typed.fields true text out).1, mem', calls) ∧
      mem'.length = sizeof decls ∧
      fieldValues o rows mem' = typed.values (parseTable typed.fields true text out).2 := by
  have hparse := parseAt_terminated text more
  unfold parseRows parseTable
  rw [hparse, if_pos rfl]
  cases jsonParse text with
  | error status => exact ⟨mem, [], rfl, hlen, hvalues⟩
  | ok root =>
      cases root with
      | object members =>
          have hwrites (j : ℕ) (d : FieldDesc σ) (hd : typed.fields[j]? = some d) :
              d.Writes typed.values (0 + j) := by
            rw [Nat.zero_add]
            exact typed.writes (d, j) (List.mem_zipIdx_iff_getElem?.mpr hd)
          have hrows (j : ℕ) (f : FieldRow) (hf : rows[j]? = some f) : rows[0 + j]? = some f := by
            rwa [Nat.zero_add]
          obtain ⟨mem', happly, hlen', hvalues'⟩ : ∃ mem', applyRows o (.object members) rows mem =
                some ((applyFieldTable (.object members) typed.fields out).1, mem') ∧
              mem'.length = sizeof decls ∧ fieldValues o rows mem' =
                typed.values (applyFieldTable (.object members) typed.fields out).2 :=
            applyRows_typed h.table o typed.same hrows hwrites hlen hvalues
          refine ⟨mem', unknownKeys rows members, ?_, hlen', hvalues'⟩
          simp only [happly, Option.map_some]
      | _ => exact ⟨mem, [], rfl, hlen, hvalues⟩

/-! ### Config and Device -/

def configTyped : TypedTable Config configRows where
  fields := configFields
  values c :=
    [.string c.serverIp.bytes, .string c.ftpIp.bytes, .string c.selectWifi.bytes,
      .string c.selectBeacon.bytes, .int32 c.videoTime, .int32 c.frame, .int32 c.dangerCount,
      .int32 c.decibel, .int32 c.inoutTime, .int32 c.buzzerTime, .int32 c.pixelCount,
      .int32 c.milliMeter, .string c.sendingLogTime.bytes, .int32 c.keepAliveTime,
      .string c.keepServerIp.bytes, .string c.bootAutoTime.bytes, .int32 c.compress,
      .int32 c.fractureFramePixel, .int32 c.fractureFrameCnt, .int32 c.resetFramePixel,
      .int32 c.resetFrameCnt, .int32 c.sameFramePixel, .int32 c.sameFrameCnt, .int32 c.alertSmoke,
      .int32 c.useRknn, .int32 c.volume, .int32 c.buzzerOnStream, .int32 c.buzzerOnVoice,
      .int32 c.buzzerOnBeacon, .int32 c.buzzerOnSmoke]
  same := by
    repeat' first | exact .nil | refine .cons ?_ ?_ | exact ⟨rfl, rfl, rfl⟩ | exact ⟨rfl, rfl⟩
  writes := by
    repeat' first
      | exact List.forall_mem_nil _
      | refine List.forall_mem_cons.mpr ⟨fun _ _ => rfl, ?_⟩

def deviceTyped : TypedTable Device deviceRows where
  fields := deviceFields
  values c :=
    [.string c.deviceSerial.bytes, .string c.deviceMac.bytes, .string c.deviceIp.bytes,
      .string c.btName.bytes, .int32 c.blueTooth, .int32 c.mic, .int32 c.wifi, .int32 c.tof,
      .int32 c.led, .int32 c.buzzer, .int32 c.moveSensor, .int32 c.reboot, .string c.appMgr.bytes,
      .string c.appSensor.bytes, .string c.os.bytes, .string c.tName.bytes, .int32 c.toilet,
      .int32 c.stall, .int32 c.beacon, .string c.appRknn.bytes, .string c.verRknn.bytes,
      .int32 c.smokeValue, .int32 c.dataCollection]
  same := by
    repeat' first | exact .nil | refine .cons ?_ ?_ | exact ⟨rfl, rfl, rfl⟩ | exact ⟨rfl, rfl⟩
  writes := by
    repeat' first
      | exact List.forall_mem_nil _
      | refine List.forall_mem_cons.mpr ⟨fun _ _ => rfl, ?_⟩

theorem configParseAt_typed (o : ByteOrder) (text more : List UInt8) {mem : List UInt8}
    {config : Config} (hlen : mem.length = sizeof configStruct)
    (hvalues : fieldValues o configRows mem = configTyped.values config) :
    ∃ mem' calls, configParseAt o (text ++ 0 :: more) text.length mem =
        some ((configParse true text config).1, mem', calls) ∧
      mem'.length = sizeof configStruct ∧
      fieldValues o configRows mem' = configTyped.values (configParse true text config).2 :=
  parseRows_typed configTyped configRows_ok o text more hlen hvalues

theorem deviceParseAt_typed (o : ByteOrder) (text more : List UInt8) {mem : List UInt8}
    {device : Device} (hlen : mem.length = sizeof deviceStruct)
    (hvalues : fieldValues o deviceRows mem = deviceTyped.values device) :
    ∃ mem' calls, deviceParseAt o (text ++ 0 :: more) text.length mem =
        some ((deviceParse true text device).1, mem', calls) ∧
      mem'.length = sizeof deviceStruct ∧
      fieldValues o deviceRows mem' = deviceTyped.values (deviceParse true text device).2 :=
  parseRows_typed deviceTyped deviceRows_ok o text more hlen hvalues

end Savvy.Settings
