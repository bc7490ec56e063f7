import Savvy.Json.Utf8
import Savvy.Settings.Layout

/-!
What `savvy_config_build` and `savvy_device_build` write is read back into every
field, whatever the struct held before. The rows of a table go to fields that
are apart from each other and inside of the struct, under different names, so a
row never undoes what another one has done.
-/

namespace Savvy.Settings

open CJson Kit

/-! ### Fields -/

inductive FieldValue
  | string (s : List UInt8)
  | int32 (v : Int32)

def Slot.value {ι : Type} (o : ByteOrder) (s : Slot ι) (mem : List UInt8) : FieldValue :=
  match s.type with
  | .chars n => .string (cstr (slice mem s.offset (s.offset + n)))
  | .int32 => .int32 (int32OfBytes o (slice mem s.offset (s.offset + 4)))

/-- The strings of a struct end within their arrays and are UTF-8. -/
def StringsOk {ι : Type} (decls : List (ι × CType)) (mem : List UInt8) : Prop :=
  ∀ s ∈ layout decls, ∀ n, s.type = .chars n →
    0 ∈ slice mem s.offset (s.offset + n) ∧
      ∃ cs, cstr (slice mem s.offset (s.offset + n)) = utf8 cs

def FieldRow.size (f : FieldRow) : ℕ :=
  match f.type with
  | .string => f.strCap
  | .int32 => 4

def FieldRow.describes {ι : Type} (f : FieldRow) (s : Slot ι) : Bool :=
  f.offset = s.offset &&
    match s.type with
    | .chars n => f.type = .string && f.strCap = n
    | .int32 => f.type = .int32

/-- What the round trip asks of a table. -/
structure TableOk {ι : Type} (decls : List (ι × CType)) (fields : List FieldRow) : Prop where
  names : (fields.map FieldRow.jsonKey).Nodup
  plain : ∀ f ∈ fields, 0 ∉ f.jsonKey ∧ utf8Validate f.jsonKey = true
  bounds : ∀ f ∈ fields, f.offset + f.size ≤ sizeof decls
  apart : fields.Pairwise fun f g => f.offset + f.size ≤ g.offset ∨ g.offset + g.size ≤ f.offset
  covers : ∀ s ∈ layout decls, ∃ f ∈ fields, f.describes s = true
  declared : ∀ f ∈ fields, ∃ s ∈ layout decls, f.describes s = true

/-! ### One row -/

def FieldRow.value (o : ByteOrder) (f : FieldRow) (mem : List UInt8) : FieldValue :=
  match f.type with
  | .string => .string (cstr (slice mem f.offset (f.offset + f.strCap)))
  | .int32 => .int32 (int32OfBytes o (slice mem f.offset (f.offset + 4)))

theorem FieldRow.value_eq {ι : Type} {f : FieldRow} {s : Slot ι} (o : ByteOrder)
    (h : f.describes s = true) (mem : List UInt8) : s.value o mem = f.value o mem := by
  simp only [describes, Bool.and_eq_true, decide_eq_true_eq] at h
  obtain ⟨hoff, htype⟩ := h
  unfold Slot.value FieldRow.value
  cases hs : s.type with
  | chars n =>
      simp only [hs, Bool.and_eq_true, decide_eq_true_eq] at htype
      simp only [htype, hoff]
  | int32 =>
      simp only [hs, decide_eq_true_eq] at htype
      simp only [htype, hoff]

/-- What the struct has to hold for a row. -/
def FieldRow.Holds (f : FieldRow) (mem : List UInt8) : Prop :=
  f.offset + f.size ≤ mem.length ∧
    (f.type = .string → 0 ∈ slice mem f.offset (f.offset + f.strCap) ∧
      utf8Loop (cstr (slice mem f.offset (f.offset + f.strCap))) = true)

theorem int32OfBytes_int32Bytes (o : ByteOrder) (v : Int32) :
    int32OfBytes o (int32Bytes o v) = v := by
  cases o with
  | little =>
      simp only [int32Bytes, int32OfBytes, join32_octet]
      rfl
  | big =>
      simp only [int32Bytes, int32OfBytes, join32_octet]
      rfl

theorem length_int32Bytes (o : ByteOrder) (v : Int32) : (int32Bytes o v).length = 4 := by
  cases o with
  | little => rfl
  | big => rfl

theorem int32_toInt (v : Int32) : IsInt32 v.toInt := by
  have hmin := v.le_toInt
  have hmax := v.toInt_lt
  simp only [IsInt32, intMin, intMax]
  omega

theorem exists_cstr {buf : List UInt8} (h : 0 ∈ buf) :
    ∃ t, buf = cstr buf ++ 0 :: t ∧ 0 ∉ cstr buf := by
  obtain ⟨s, t, hbuf, hs⟩ := List.eq_append_cons_of_mem h
  have heq : cstr buf = s := by rw [hbuf, cstr_append_zero hs]
  rw [heq]
  exact ⟨t, hbuf, hs⟩

/-- A string that ends in its array is what is read from its offset on. -/
theorem cstr_drop_eq {mem : List UInt8} {off cap : ℕ} (h : 0 ∈ slice mem off (off + cap)) :
    0 ∈ mem.drop off ∧ cstr (mem.drop off) = cstr (slice mem off (off + cap)) := by
  have hslice : slice mem off (off + cap) = (mem.drop off).take cap := by
    rw [slice, List.drop_take, Nat.add_sub_cancel_left]
  have hsplit : mem.drop off = slice mem off (off + cap) ++ (mem.drop off).drop cap := by
    rw [hslice, List.take_append_drop]
  obtain ⟨t, hbuf, hs⟩ := exists_cstr h
  rw [hsplit]
  refine ⟨List.mem_append_left _ h, ?_⟩
  generalize (mem.drop off).drop cap = rest
  rw [hbuf, List.append_assoc, List.cons_append, cstr_append_zero hs, cstr_append_zero hs]

def itemOf (o : ByteOrder) (mem : List UInt8) (f : FieldRow) : Json :=
  match f.value o mem with
  | .string s => .string s
  | .int32 v => .number (.finite v.toInt)

theorem buildRow_eq {o : ByteOrder} {f : FieldRow} {mem : List UInt8} (h : f.Holds mem) :
    buildRow o f mem = some (itemOf o mem f) := by
  obtain ⟨hfits, hstring⟩ := h
  cases htype : f.type with
  | string =>
      obtain ⟨hzero, -⟩ := hstring htype
      obtain ⟨hmem, heq⟩ := cstr_drop_eq hzero
      have hcontains : (mem.drop f.offset).contains 0 = true := List.contains_iff_mem.mpr hmem
      simp only [buildRow, itemOf, FieldRow.value, htype, hcontains, heq, if_true]
  | int32 =>
      simp only [FieldRow.size, htype] at hfits
      simp only [buildRow, itemOf, FieldRow.value, htype, if_pos hfits]

/-- What a write into the field of a row leaves alone. -/
theorem slice_write_apart {f : FieldRow} {out bytes : List UInt8} (hbytes : bytes.length ≤ f.size)
    (hout : f.offset + f.size ≤ out.length) {i j : ℕ}
    (h : j ≤ f.offset ∨ f.offset + f.size ≤ i) :
    slice (write out f.offset bytes) i j = slice out i j := by
  obtain hj | hi := h
  · exact slice_write_of_le hj (by omega)
  · exact slice_write_of_ge (by omega) (by omega)

/-- What is written at the start of a field, and what is left of the field. -/
theorem slice_write_front {out bytes : List UInt8} {off n : ℕ} (hbytes : bytes.length ≤ n)
    (hout : off + n ≤ out.length) :
    slice (write out off bytes) off (off + n) =
      bytes ++ slice out (off + bytes.length) (off + n) := by
  have hlen : (write out off bytes).length = out.length := length_write (by omega)
  have hsplit := slice_append_slice (show off ≤ off + bytes.length by omega)
    (show off + bytes.length ≤ off + n by omega) (show off + n ≤ (write out off bytes).length by omega)
  rw [← hsplit, slice_write_self (by omega), slice_write_of_ge (Nat.le_refl _) (by omega)]

/-- A row puts the item back into its field and touches nothing else. -/
theorem applyRow_item {o : ByteOrder} {f : FieldRow} {mem out : List UInt8} (h : f.Holds mem)
    (hout : f.offset + f.size ≤ out.length) :
    ∃ out', applyRow o f (itemOf o mem f) out = some (.ok out') ∧ out'.length = out.length ∧
      f.value o out' = f.value o mem ∧
      ∀ i j, j ≤ f.offset ∨ f.offset + f.size ≤ i → slice out' i j = slice out i j := by
  obtain ⟨hfits, hstring⟩ := h
  cases htype : f.type with
  | string =>
      obtain ⟨hzero, -⟩ := hstring htype
      have hsize : f.size = f.strCap := by simp only [FieldRow.size, htype]
      obtain ⟨t, hbuf, hs⟩ := exists_cstr hzero
      generalize hstr : cstr (slice mem f.offset (f.offset + f.strCap)) = s at hbuf hs
      have hlen : s.length < f.strCap := by
        have hlen := congrArg List.length hbuf
        rw [length_slice (by omega), List.length_append, List.length_cons] at hlen
        omega
      have hcstr : cstr s = s := cstr_of_not_contains (by simpa using hs)
      have hcopy := copy_all (show f.offset + (s ++ [0]).length ≤ out.length by
        rw [List.length_append, List.length_singleton]; omega)
      rw [List.length_append, List.length_singleton] at hcopy
      have hread : slice (write out f.offset (s ++ [0])) f.offset (f.offset + f.strCap) =
          s ++ 0 :: slice out (f.offset + (s ++ [0]).length) (f.offset + f.strCap) := by
        have hfront := slice_write_front
          (show (s ++ [0]).length ≤ f.strCap by rw [List.length_append, List.length_singleton]; omega)
          (show f.offset + f.strCap ≤ out.length by omega)
        rw [List.append_assoc] at hfront
        exact hfront
      refine ⟨write out f.offset (s ++ [0]), ?_, length_write (by simp; omega), ?_, ?_⟩
      · simp only [applyRow, itemOf, FieldRow.value, htype, hstr, hcstr, if_neg (Nat.not_le.mpr hlen),
          hcopy, Option.map_some]
      · simp only [FieldRow.value, htype, hread, cstr_append_zero hs, hstr]
      · intro i j hapart
        exact slice_write_apart (by rw [hsize, List.length_append, List.length_singleton]; omega) hout
          hapart
  | int32 =>
      have hsize : f.size = 4 := by simp only [FieldRow.size, htype]
      generalize hv : int32OfBytes o (slice mem f.offset (f.offset + 4)) = v
      have hlen := length_int32Bytes o v
      have hnumber : numberToInt32 (.number (.finite v.toInt)) = .ok v.toInt := by
        obtain ⟨hmin, hmax⟩ := int32_toInt v
        have hrange : ¬ (v.toInt < intMin ∨ intMax < v.toInt) := by omega
        simp [numberToInt32, hrange]
      have hcopy := copy_all (show f.offset + (int32Bytes o v).length ≤ out.length by omega)
      rw [hlen] at hcopy
      have hread : slice (write out f.offset (int32Bytes o v)) f.offset (f.offset + 4) =
          int32Bytes o v := by
        have hself : slice (write out f.offset (int32Bytes o v)) f.offset
            (f.offset + (int32Bytes o v).length) = int32Bytes o v := slice_write_self (by omega)
        rw [hlen] at hself
        exact hself
      refine ⟨write out f.offset (int32Bytes o v), ?_, length_write (by omega), ?_, ?_⟩
      · simp only [applyRow, itemOf, FieldRow.value, htype, hv, hnumber, Int32.ofInt_toInt, hcopy,
          Option.map_some]
      · simp only [FieldRow.value, htype, hread, hv, int32OfBytes_int32Bytes]
      · intro i j hapart
        exact slice_write_apart (by omega) hout hapart

/-! ### All rows -/

def membersOf (o : ByteOrder) (mem : List UInt8) (fields : List FieldRow) :
    List (List UInt8 × Json) :=
  fields.map fun f => (f.jsonKey, itemOf o mem f)

theorem buildRows_eq {o : ByteOrder} {mem : List UInt8} {fields : List FieldRow}
    (h : ∀ f ∈ fields, f.Holds mem) : buildRows o mem fields = some (membersOf o mem fields) := by
  induction fields with
  | nil => rfl
  | cons f fields ih =>
      obtain ⟨hf, hfields⟩ := List.forall_mem_cons.mp h
      rw [buildRows, buildRow_eq hf, Option.bind_some, ih hfields]
      rfl

theorem getObjectItem_membersOf {o : ByteOrder} {mem : List UInt8} {fields : List FieldRow}
    (hnames : (fields.map FieldRow.jsonKey).Nodup) (hplain : ∀ f ∈ fields, 0 ∉ f.jsonKey)
    {f : FieldRow} (hf : f ∈ fields) :
    getObjectItem (.object (membersOf o mem fields)) f.jsonKey = some (itemOf o mem f) := by
  have hcstr {g : FieldRow} (hg : g ∈ fields) : cstr g.jsonKey = g.jsonKey :=
    cstr_of_not_contains (by simpa using hplain g hg)
  rw [getObjectItem]
  induction fields with
  | nil => cases hf
  | cons g fields ih =>
      rw [List.map_cons, List.nodup_cons] at hnames
      rw [membersOf, List.map_cons, List.find?_cons]
      dsimp only
      rw [hcstr List.mem_cons_self]
      obtain rfl | hmem := List.mem_cons.mp hf
      · rw [beq_self_eq_true]
        rfl
      · have hne : (g.jsonKey == f.jsonKey) = false := by
          rw [beq_eq_false_iff_ne]
          intro heq
          exact hnames.1 (heq ▸ List.mem_map_of_mem hmem)
        rw [hne]
        exact ih hnames.2 (fun g hg => hplain g (List.mem_cons_of_mem _ hg)) hmem
          fun hg => hcstr (List.mem_cons_of_mem _ hg)

theorem itemOf_ne_null (o : ByteOrder) (mem : List UInt8) (f : FieldRow) :
    itemOf o mem f ≠ .null := by
  unfold itemOf
  split <;> nofun

/-- Fields that are apart keep their values. -/
theorem FieldRow.value_congr {o : ByteOrder} {f : FieldRow} {mem mem' : List UInt8}
    (h : slice mem f.offset (f.offset + f.size) = slice mem' f.offset (f.offset + f.size)) :
    f.value o mem = f.value o mem' := by
  cases htype : f.type with
  | string =>
      simp only [size, htype] at h
      simp only [value, htype, h]
  | int32 =>
      simp only [size, htype] at h
      simp only [value, htype, h]

theorem applyRows_found {o : ByteOrder} {root item : Json} {f : FieldRow} {fields : List FieldRow}
    {out out' : List UInt8} (hget : getObjectItem root f.jsonKey = some item) (hnull : item ≠ .null)
    (happly : applyRow o f item out = some (.ok out')) :
    applyRows o root (f :: fields) out = applyRows o root fields out' := by
  rw [applyRows, hget]
  cases item with
  | null => exact absurd rfl hnull
  | _ => simp only [happly, Option.bind_some]

/-- The loop of `savvy_apply_field_table` over the rows that are left: each puts
its item back, and none of them touches what is apart from all of them. -/
theorem applyRows_items {o : ByteOrder} {root : Json} {mem : List UInt8} {fields : List FieldRow}
    {out : List UInt8}
    (hroot : ∀ f ∈ fields, getObjectItem root f.jsonKey = some (itemOf o mem f))
    (hmem : ∀ f ∈ fields, f.Holds mem) (hout : ∀ f ∈ fields, f.offset + f.size ≤ out.length)
    (hapart : fields.Pairwise fun f g =>
      f.offset + f.size ≤ g.offset ∨ g.offset + g.size ≤ f.offset) :
    ∃ out', applyRows o root fields out = some (.ok, out') ∧ out'.length = out.length ∧
      (∀ f ∈ fields, f.value o out' = f.value o mem) ∧
      ∀ i j, (∀ f ∈ fields, j ≤ f.offset ∨ f.offset + f.size ≤ i) →
        slice out' i j = slice out i j := by
  induction fields generalizing out with
  | nil => exact ⟨out, rfl, rfl, by simp, fun _ _ _ => rfl⟩
  | cons f fields ih =>
      obtain ⟨hrootf, hroot⟩ := List.forall_mem_cons.mp hroot
      obtain ⟨hmemf, hmem⟩ := List.forall_mem_cons.mp hmem
      obtain ⟨houtf, hout⟩ := List.forall_mem_cons.mp hout
      obtain ⟨hapartf, hapart⟩ := List.pairwise_cons.mp hapart
      obtain ⟨out1, happly, hlen1, hvalue1, hframe1⟩ := applyRow_item (o := o) hmemf houtf
      obtain ⟨out2, hrest, hlen2, hvalue2, hframe2⟩ := ih hroot hmem (hlen1 ▸ hout) hapart
      refine ⟨out2, ?_, hlen2.trans hlen1, ?_, ?_⟩
      · rw [applyRows_found hrootf (itemOf_ne_null o mem f) happly]
        exact hrest
      · have hkeep : f.value o out2 = f.value o out1 :=
          FieldRow.value_congr (hframe2 _ _ hapartf)
        exact List.forall_mem_cons.mpr ⟨hkeep.trans hvalue1, hvalue2⟩
      · intro i j h
        obtain ⟨hf, hfields⟩ := List.forall_mem_cons.mp h
        exact (hframe2 i j hfields).trans (hframe1 i j hf)

/-! ### The tree -/

section Tree

variable {o : ByteOrder} {mem : List UInt8} {fields : List FieldRow}

theorem isPlain_itemOf {f : FieldRow} (h : f.Holds mem) : isPlain (itemOf o mem f) = true := by
  obtain ⟨-, hstring⟩ := h
  cases htype : f.type with
  | string =>
      obtain ⟨hzero, -⟩ := hstring htype
      obtain ⟨t, -, hs⟩ := exists_cstr hzero
      simp only [itemOf, FieldRow.value, htype, isPlain]
      simpa using hs
  | int32 =>
      obtain ⟨hmin, hmax⟩ := int32_toInt (int32OfBytes o (slice mem f.offset (f.offset + 4)))
      simp only [itemOf, FieldRow.value, htype, isPlain, isInt32]
      simp [hmin, hmax]

theorem checkUtf8_itemOf {f : FieldRow} (h : f.Holds mem) : checkUtf8 (itemOf o mem f) = true := by
  obtain ⟨-, hstring⟩ := h
  cases htype : f.type with
  | string =>
      obtain ⟨hzero, hutf8⟩ := hstring htype
      obtain ⟨t, -, hs⟩ := exists_cstr hzero
      simp only [itemOf, FieldRow.value, htype, checkUtf8, utf8Validate]
      rw [cstr_of_not_contains (by simpa using hs)]
      exact hutf8
  | int32 => simp only [itemOf, FieldRow.value, htype, checkUtf8]

theorem isPlain_membersOf (hplain : ∀ f ∈ fields, 0 ∉ f.jsonKey) (h : ∀ f ∈ fields, f.Holds mem) :
    isPlainMembers (membersOf o mem fields) = true := by
  induction fields with
  | nil => rfl
  | cons f fields ih =>
      obtain ⟨hkey, hplain⟩ := List.forall_mem_cons.mp hplain
      obtain ⟨hf, hfields⟩ := List.forall_mem_cons.mp h
      have hname : (!f.jsonKey.contains 0) = true := by simpa using hkey
      simp only [membersOf, List.map_cons, isPlainMembers, hname, isPlain_itemOf hf, Bool.true_and]
      exact ih hplain hfields

theorem checkUtf8_membersOf (hkeys : ∀ f ∈ fields, utf8Validate f.jsonKey = true)
    (h : ∀ f ∈ fields, f.Holds mem) : checkUtf8Members (membersOf o mem fields) = true := by
  induction fields with
  | nil => rfl
  | cons f fields ih =>
      obtain ⟨hkey, hkeys⟩ := List.forall_mem_cons.mp hkeys
      obtain ⟨hf, hfields⟩ := List.forall_mem_cons.mp h
      simp only [membersOf, List.map_cons, checkUtf8Members, hkey, checkUtf8_itemOf hf,
        Bool.true_and]
      exact ih hkeys hfields

theorem leaf_itemOf (f : FieldRow) :
    depth (itemOf o mem f) = 0 ∧ checkNoDuplicateKeys (itemOf o mem f) = true := by
  unfold itemOf
  split
  · simp only [depth, checkNoDuplicateKeys, and_self]
  · simp only [depth, checkNoDuplicateKeys, and_self]

theorem depth_membersOf (fields : List FieldRow) : depthMembers (membersOf o mem fields) = 0 := by
  induction fields with
  | nil => rfl
  | cons f fields ih =>
      simp only [membersOf, List.map_cons, depthMembers, leaf_itemOf, Nat.zero_max]
      exact ih

theorem checkNoDuplicateKeys_membersOf (fields : List FieldRow) :
    checkNoDuplicateKeysMembers (membersOf o mem fields) = true := by
  induction fields with
  | nil => rfl
  | cons f fields ih =>
      simp only [membersOf, List.map_cons, checkNoDuplicateKeysMembers, leaf_itemOf, Bool.true_and]
      exact ih

theorem distinctNames_membersOf (hnames : (fields.map FieldRow.jsonKey).Nodup)
    (hplain : ∀ f ∈ fields, 0 ∉ f.jsonKey) : distinctNames (membersOf o mem fields) = true := by
  induction fields with
  | nil => rfl
  | cons f fields ih =>
      rw [List.map_cons, List.nodup_cons] at hnames
      obtain ⟨hkey, hplain⟩ := List.forall_mem_cons.mp hplain
      simp only [membersOf, List.map_cons, distinctNames, Bool.and_eq_true]
      refine ⟨?_, ih hnames.2 hplain⟩
      rw [List.all_map, List.all_eq_true]
      intro g hg
      have hcstr {k : List UInt8} (hk : 0 ∉ k) : cstr k = k :=
        cstr_of_not_contains (by simpa using hk)
      rw [Function.comp_apply, hcstr hkey, hcstr (hplain g hg), bne_iff_ne]
      intro heq
      exact hnames.1 (heq ▸ List.mem_map_of_mem hg)

theorem unknownKeys_membersOf (hplain : ∀ f ∈ fields, 0 ∉ f.jsonKey) :
    unknownKeys fields (membersOf o mem fields) = [] := by
  rw [unknownKeys, List.filter_eq_nil_iff]
  intro key hkey
  obtain ⟨m, hm, rfl⟩ := List.mem_map.mp hkey
  obtain ⟨f, hf, rfl⟩ := List.mem_map.mp hm
  have hcstr : cstr f.jsonKey = f.jsonKey := cstr_of_not_contains (by simpa using hplain f hf)
  have hhas : fieldTableHasKey fields f.jsonKey = true := by
    rw [fieldTableHasKey, List.any_eq_true]
    exact ⟨f, hf, decide_eq_true rfl⟩
  simp only [hcstr, hhas, Bool.not_true, Bool.false_eq_true, not_false_eq_true]

end Tree

/-! ### The codecs -/

/-- The rows of a table hold in a struct whose strings are in order. -/
theorem holds_of_stringsOk {ι : Type} {decls : List (ι × CType)} {fields : List FieldRow}
    (hok : TableOk decls fields) {mem : List UInt8} (hmem : mem.length = sizeof decls)
    (hstrings : StringsOk decls mem) : ∀ f ∈ fields, f.Holds mem := by
  intro f hf
  refine ⟨hmem ▸ hok.bounds f hf, fun htype => ?_⟩
  obtain ⟨s, hs, hdescribes⟩ := hok.declared f hf
  simp only [FieldRow.describes, Bool.and_eq_true, decide_eq_true_eq] at hdescribes
  obtain ⟨hoff, hslot⟩ := hdescribes
  cases hs' : s.type with
  | chars n =>
      simp only [hs', Bool.and_eq_true, decide_eq_true_eq] at hslot
      obtain ⟨hzero, hutf8⟩ := hstrings s hs n hs'
      rw [hoff, hslot.2]
      exact ⟨hzero, (utf8Loop_iff _).mpr hutf8⟩
  | int32 =>
      simp only [hs', decide_eq_true_eq] at hslot
      rw [hslot] at htype
      cases htype

/-- Every table that is in order is read back. -/
theorem parseRows_build {ι : Type} {decls : List (ι × CType)} {fields : List FieldRow}
    (hok : TableOk decls fields) (o : ByteOrder) {mem base : List UInt8}
    (hmem : mem.length = sizeof decls) (hbase : base.length = sizeof decls)
    (hstrings : StringsOk decls mem) (more : List UInt8) :
    ∃ text out, buildTable o fields mem = some text ∧
      parseRows o fields (text ++ 0 :: more) text.length base = some (.ok, out, []) ∧
      out.length = sizeof decls ∧ ∀ s ∈ layout decls, s.value o out = s.value o mem := by
  have hholds := holds_of_stringsOk hok hmem hstrings
  have hplain : ∀ f ∈ fields, 0 ∉ f.jsonKey := fun f hf => (hok.plain f hf).1
  have hkeys : ∀ f ∈ fields, utf8Validate f.jsonKey = true := fun f hf => (hok.plain f hf).2
  have hparse : parseAt false (printUnformatted (.object (membersOf o mem fields)) ++ 0 :: more)
      (printUnformatted (.object (membersOf o mem fields))).length =
      some (.ok (.object (membersOf o mem fields))) := by
    refine parseAt_print ?_ ?_ (.inr ?_) ?_ more
    · rw [isPlain]
      exact isPlain_membersOf hplain hholds
    · rw [depth, depth_membersOf]
      decide
    · rw [checkNoDuplicateKeys, distinctNames_membersOf hok.names hplain,
        checkNoDuplicateKeys_membersOf]
      rfl
    · rw [checkUtf8]
      exact checkUtf8_membersOf hkeys hholds
  have hget : ∀ f ∈ fields, getObjectItem (.object (membersOf o mem fields)) f.jsonKey =
      some (itemOf o mem f) := fun f hf => getObjectItem_membersOf hok.names hplain hf
  have hfits : ∀ f ∈ fields, f.offset + f.size ≤ base.length := fun f hf =>
    hbase ▸ hok.bounds f hf
  obtain ⟨out, happly, hlen, hvalues, -⟩ := applyRows_items hget hholds hfits hok.apart
  refine ⟨printUnformatted (.object (membersOf o mem fields)), out, ?_, ?_, hlen.trans hbase, ?_⟩
  · rw [buildTable, buildRows_eq hholds]
    rfl
  · simp only [parseRows, hparse, happly, Option.map_some, unknownKeys_membersOf hplain]
  · intro s hs
    obtain ⟨f, hf, hdescribes⟩ := hok.covers s hs
    rw [FieldRow.value_eq o hdescribes, FieldRow.value_eq o hdescribes]
    exact hvalues f hf

theorem configRows_ok : TableOk configStruct configRows where
  names := by decide +kernel
  plain := by decide +kernel
  bounds := by decide +kernel
  apart := by decide +kernel
  covers := by decide +kernel
  declared := by decide +kernel

theorem deviceRows_ok : TableOk deviceStruct deviceRows where
  names := by decide +kernel
  plain := by decide +kernel
  bounds := by decide +kernel
  apart := by decide +kernel
  covers := by decide +kernel
  declared := by decide +kernel

/-- What the build functions write, parsed onto any struct, gives every field
its value back, and no key is unknown. -/
theorem settings_roundTrip (o : ByteOrder) (more : List UInt8) :
    ((layout configStruct).length = 30 ∧ ∀ cfg base : List UInt8,
        cfg.length = sizeof configStruct → base.length = sizeof configStruct →
        StringsOk configStruct cfg →
        ∃ text out, configBuild o cfg = some text ∧
          configParseAt o (text ++ 0 :: more) text.length base = some (.ok, out, []) ∧
          out.length = sizeof configStruct ∧
          ∀ s ∈ layout configStruct, s.value o out = s.value o cfg) ∧
      (layout deviceStruct).length = 23 ∧ ∀ dev base : List UInt8,
        dev.length = sizeof deviceStruct → base.length = sizeof deviceStruct →
        StringsOk deviceStruct dev →
        ∃ text out, deviceBuild o dev = some text ∧
          deviceParseAt o (text ++ 0 :: more) text.length base = some (.ok, out, []) ∧
          out.length = sizeof deviceStruct ∧
          ∀ s ∈ layout deviceStruct, s.value o out = s.value o dev := by
  refine ⟨⟨by decide, fun cfg base hcfg hbase hstrings => ?_⟩, by decide,
    fun dev base hdev hbase hstrings => ?_⟩
  · exact parseRows_build configRows_ok o hcfg hbase hstrings more
  · exact parseRows_build deviceRows_ok o hdev hbase hstrings more

/-- A Config with a string and without one, onto a struct of ones. -/
theorem settings_roundTrip_ones :
    ∃ text out, configBuild .little (ascii "10.0.0.1" ++ List.replicate 532 0) = some text ∧
      configParseAt .little (text ++ 0 :: []) text.length (List.replicate 540 1) =
        some (.ok, out, []) ∧
      out.length = sizeof configStruct ∧ ∀ s ∈ layout configStruct,
        s.value .little out = s.value .little (ascii "10.0.0.1" ++ List.replicate 532 0) := by
  have htypes : ∀ s ∈ layout configStruct, s.type = .chars 64 ∨ s.type = .int32 := by decide
  have hstrings : ∀ s ∈ layout configStruct,
      0 ∈ slice (ascii "10.0.0.1" ++ List.replicate 532 0) s.offset (s.offset + 64) ∧
        utf8Loop (cstr (slice (ascii "10.0.0.1" ++ List.replicate 532 0) s.offset
          (s.offset + 64))) = true := by
    decide +kernel
  refine (settings_roundTrip .little []).1.2 _ _ (by decide +kernel) (by decide +kernel) ?_
  intro s hs n hn
  obtain h64 | hint := htypes s hs
  · obtain rfl : 64 = n := CType.chars.inj (h64.symm.trans hn)
    exact ⟨(hstrings s hs).1, (utf8Loop_iff _).mp (hstrings s hs).2⟩
  · cases hint.symm.trans hn

end Savvy.Settings
