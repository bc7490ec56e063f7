import Mathlib.Data.List.Nodup
import Mathlib.Data.List.Pairwise
import Savvy.Settings.LayoutRoundTrip

/-!
`savvy_apply_field_table` for every table (`src/protocol/json/field_table.c`). A
table is in order when its keys differ and its slots are inside of the struct
and apart from each other. The rows are then independent: each reads the member
of its own name and writes into its own slot, and the order of the members does
not matter.
-/

namespace Savvy.Settings

open CJson Kit

/-- A byte of the slot of a row. -/
def FieldRow.Covers (f : FieldRow) (i : ℕ) : Prop := f.offset ≤ i ∧ i < f.offset + f.size

/-- A table for a struct of `size` bytes. -/
structure Table (size : ℕ) where
  rows : List FieldRow
  names : (rows.map FieldRow.jsonKey).Nodup
  inside : ∀ f ∈ rows, ∀ i, f.Covers i → i < size
  apart : rows.Pairwise fun f g => ∀ i, f.Covers i → ¬ g.Covers i

theorem Table.not_covers {size : ℕ} (table : Table size) {f g : FieldRow} (hf : f ∈ table.rows)
    (hg : g ∈ table.rows) (hne : f ≠ g) {i : ℕ} (hi : f.Covers i) : ¬ g.Covers i := by
  have hsymm : Std.Symm fun f g : FieldRow => ∀ i, f.Covers i → ¬ g.Covers i :=
    ⟨fun f g h i hgi hfi => h i hfi hgi⟩
  exact table.apart.forall hf hg hne i hi

/-- The first loop of `savvy_apply_field_table`: the calls of `log_fn`, which may
be missing. -/
def logCalls (fields : List FieldRow) (members : List (List UInt8 × Json))
    (objectName : List UInt8) (logFn : Bool) : List (List UInt8 × List UInt8) :=
  if logFn then (unknownKeys fields members).map (Prod.mk objectName) else []

/-- `savvy_apply_field_table` on an object: the status, the struct and the calls
of `log_fn`. -/
def applyFieldTableAt (o : ByteOrder) (members : List (List UInt8 × Json))
    (fields : List FieldRow) (out objectName : List UInt8) (logFn : Bool) :
    Option (Status × List UInt8 × List (List UInt8 × List UInt8)) :=
  (applyRows o (.object members) fields out).map fun r =>
    (r.1, r.2, logCalls fields members objectName logFn)

def FieldRow.Accepts (f : FieldRow) (item : Json) : Prop :=
  match f.type with
  | .string => ∃ s, item = .string s ∧ (cstr s).length < f.strCap
  | .int32 => ∃ n : ℤ, item = .number (.finite n) ∧ intMin ≤ n ∧ n ≤ intMax

def FieldRow.HoldsItem (o : ByteOrder) (f : FieldRow) (item : Json) (mem : List UInt8) : Prop :=
  match f.value o mem with
  | .string s => ∃ t, item = .string t ∧ s = cstr t
  | .int32 v => item = .number (.finite v.toInt)

/-! ### Members by name -/

theorem getObjectItem_eq_some {members : List (List UInt8 × Json)}
    (hkeys : (members.map fun m => cstr m.1).Nodup) {key : List UInt8} {item : Json} :
    getObjectItem (.object members) key = some item ↔ ∃ m ∈ members, cstr m.1 = key ∧ m.2 = item := by
  rw [getObjectItem]
  induction members with
  | nil => simp
  | cons m members ih =>
      rw [List.map_cons, List.nodup_cons] at hkeys
      rw [List.find?_cons]
      by_cases hm : cstr m.1 = key
      · -- a second member of that name would be a duplicate
        have hother : ¬ ∃ m' ∈ members, cstr m'.1 = key ∧ m'.2 = item := by
          rintro ⟨m', hm', hkey, -⟩
          exact hkeys.1 (List.mem_map.mpr ⟨m', hm', hkey.trans hm.symm⟩)
        simp [hm, hother]
      · rw [beq_eq_false_iff_ne.mpr hm]
        simp only [ih hkeys.2, List.mem_cons, or_and_right, exists_or, exists_eq_left, hm, false_and,
          false_or]

theorem getObjectItem_perm {members members' : List (List UInt8 × Json)}
    (hkeys : (members.map fun m => cstr m.1).Nodup) (hperm : members.Perm members')
    (key : List UInt8) :
    getObjectItem (.object members') key = getObjectItem (.object members) key := by
  have hkeys' : (members'.map fun m => cstr m.1).Nodup := (hperm.map _).nodup_iff.mp hkeys
  apply Option.ext
  intro item
  rw [getObjectItem_eq_some hkeys, getObjectItem_eq_some hkeys']
  simp only [hperm.mem_iff]

/-- The rows see an object only through its members by name. -/
theorem applyRows_congr {o : ByteOrder} {root root' : Json}
    (h : ∀ key, getObjectItem root' key = getObjectItem root key) (fields : List FieldRow)
    (out : List UInt8) : applyRows o root' fields out = applyRows o root fields out := by
  induction fields generalizing out with
  | nil => rfl
  | cons f fields ih => simp only [applyRows, h, ih]

/-! ### One row -/

theorem FieldRow.accepts_ne_null {f : FieldRow} {item : Json} (h : f.Accepts item) :
    item ≠ .null := by
  rintro rfl
  unfold Accepts at h
  split at h
  · obtain ⟨s, hs, -⟩ := h
    cases hs
  · obtain ⟨n, hn, -⟩ := h
    cases hn

/-- `savvy_json_number_to_int32` takes the whole numbers in the range. -/
theorem numberToInt32_ok_iff {item : Json} {n : ℤ} :
    numberToInt32 item = .ok n ↔ item = .number (.finite n) ∧ intMin ≤ n ∧ n ≤ intMax := by
  constructor
  · intro h
    unfold numberToInt32 at h
    split at h
    · next q =>
        split_ifs at h with hden hrange
        obtain rfl : q.num = n := Except.ok.inj h
        rw [not_ne_iff] at hden
        rw [Rat.coe_int_num_of_den_eq_one hden]
        exact ⟨rfl, by omega, by omega⟩
    · cases h
  · rintro ⟨rfl, hmin, hmax⟩
    have hrange : ¬ (n < intMin ∨ intMax < n) := by omega
    simp [numberToInt32, hrange]

theorem applyRow_reject {o : ByteOrder} {f : FieldRow} {item : Json} (h : ¬ f.Accepts item)
    (out : List UInt8) : applyRow o f item out = some (.error .protocol) := by
  cases htype : f.type with
  | string =>
      simp only [FieldRow.Accepts, htype] at h
      simp only [applyRow, htype]
      split
      · next s =>
          have hlong : f.strCap ≤ (cstr s).length := by
            by_contra hlt
            exact h ⟨s, rfl, by omega⟩
          rw [if_pos hlong]
      · rfl
  | int32 =>
      simp only [FieldRow.Accepts, htype] at h
      simp only [applyRow, htype]
      split
      · rfl
      · next n hn => exact absurd ⟨n, numberToInt32_ok_iff.mp hn⟩ h

/-- The bytes of a slot are the field. -/
theorem FieldRow.value_congr_covers {o : ByteOrder} {f : FieldRow} {mem mem' : List UInt8}
    (h : ∀ i, f.Covers i → mem'[i]? = mem[i]?) : f.value o mem' = f.value o mem :=
  value_congr (slice_congr fun i hi hi' => h i ⟨hi, hi'⟩)

/-- The slot ends inside of the struct, unless it is empty. -/
theorem FieldRow.end_le {f : FieldRow} {size : ℕ} (h : ∀ i, f.Covers i → i < size)
    (hpos : 0 < f.size) : f.offset + f.size ≤ size := by
  have hlast := h (f.offset + f.size - 1) ⟨by omega, by omega⟩
  omega

/-- A member that is taken is written into the slot, and nothing else is. -/
theorem applyRow_accept {o : ByteOrder} {f : FieldRow} {item : Json} {out : List UInt8}
    (h : f.Accepts item) (hinside : ∀ i, f.Covers i → i < out.length) :
    ∃ out', applyRow o f item out = some (.ok out') ∧ out'.length = out.length ∧
      f.HoldsItem o item out' ∧ ∀ i, ¬ f.Covers i → out'[i]? = out[i]? := by
  cases htype : f.type with
  | string =>
      have hsize : f.size = f.strCap := by simp only [FieldRow.size, htype]
      simp only [FieldRow.Accepts, htype] at h
      obtain ⟨s, rfl, hlen⟩ := h
      have hend := FieldRow.end_le hinside (by omega)
      have hbytes : (cstr s ++ [0]).length = (cstr s).length + 1 := by
        rw [List.length_append, List.length_singleton]
      have hcopy := copy_all (show f.offset + (cstr s ++ [0]).length ≤ out.length by omega)
      rw [hbytes] at hcopy
      have hread := slice_write_front (show (cstr s ++ [0]).length ≤ f.strCap by omega)
        (show f.offset + f.strCap ≤ out.length by omega)
      rw [List.append_assoc, List.singleton_append] at hread
      refine ⟨write out f.offset (cstr s ++ [0]), ?_, length_write (by omega), ?_, ?_⟩
      · simp only [applyRow, htype, if_neg (Nat.not_le.mpr hlen), hcopy, Option.map_some]
      · simp only [FieldRow.HoldsItem, FieldRow.value, htype, hread,
          cstr_append_zero (zero_notMem_cstr s)]
        exact ⟨s, rfl, rfl⟩
      · intro i hi
        simp only [FieldRow.Covers] at hi
        exact getElem?_write_of_notMem (by omega) (by omega)
  | int32 =>
      have hsize : f.size = 4 := by simp only [FieldRow.size, htype]
      simp only [FieldRow.Accepts, htype] at h
      obtain ⟨n, hitem, hrange⟩ := h
      have hnumber := numberToInt32_ok_iff.mpr ⟨hitem, hrange⟩
      have hend := FieldRow.end_le hinside (by omega)
      have hlen := length_int32Bytes o (Int32.ofInt n)
      have hcopy := copy_all (show f.offset + (int32Bytes o (Int32.ofInt n)).length ≤ out.length by
        omega)
      rw [hlen] at hcopy
      have hread : slice (write out f.offset (int32Bytes o (Int32.ofInt n))) f.offset
          (f.offset + (int32Bytes o (Int32.ofInt n)).length) = int32Bytes o (Int32.ofInt n) :=
        slice_write_self (by omega)
      rw [hlen] at hread
      have hvalue : (Int32.ofInt n).toInt = n := by
        simp only [intMin, intMax] at hrange
        exact Int32.toInt_ofInt_of_le (by omega) (by omega)
      refine ⟨write out f.offset (int32Bytes o (Int32.ofInt n)), ?_, length_write (by omega), ?_, ?_⟩
      · simp only [applyRow, htype, hnumber, hcopy, Option.map_some]
      · simp only [FieldRow.HoldsItem, FieldRow.value, htype, hread, int32OfBytes_int32Bytes, hvalue]
        exact hitem
      · intro i hi
        simp only [FieldRow.Covers] at hi
        exact getElem?_write_of_notMem (by omega) (by omega)

/-! ### All rows -/

section Rows

variable {o : ByteOrder} {root : Json}

/-- The rows that have a member in the object. -/
def FieldRow.Present (root : Json) (f : FieldRow) : Prop :=
  ∃ item, getObjectItem root f.jsonKey = some item

/-- A row whose member, if there is one, is taken. -/
def FieldRow.Fits (root : Json) (f : FieldRow) : Prop :=
  ∀ item, getObjectItem root f.jsonKey = some item → f.Accepts item

theorem applyRows_absent {f : FieldRow} {fields : List FieldRow} {out : List UInt8}
    (hget : getObjectItem root f.jsonKey = none) :
    applyRows o root (f :: fields) out = applyRows o root fields out := by
  rw [applyRows, hget]

theorem applyRows_reject {item : Json} {f : FieldRow} {fields : List FieldRow} {out : List UInt8}
    (hget : getObjectItem root f.jsonKey = some item) (h : ¬ f.Accepts item) :
    applyRows o root (f :: fields) out = some (.protocol, out) := by
  rw [applyRows, hget]
  cases item with
  | null => rfl
  | _ => simp only [applyRow_reject h, Option.bind_some]

/-- The loop over rows that all fit: every row that is present holds its member,
and a byte in none of their slots is as before. -/
theorem applyRows_fits {fields : List FieldRow} {out : List UInt8}
    (hinside : ∀ f ∈ fields, ∀ i, f.Covers i → i < out.length)
    (hapart : fields.Pairwise fun f g => ∀ i, f.Covers i → ¬ g.Covers i)
    (hfits : ∀ f ∈ fields, f.Fits root) (more : List FieldRow) :
    ∃ out', applyRows o root (fields ++ more) out = applyRows o root more out' ∧
      out'.length = out.length ∧
      (∀ f ∈ fields, ∀ item, getObjectItem root f.jsonKey = some item → f.HoldsItem o item out') ∧
      ∀ i, (∀ f ∈ fields, f.Present root → ¬ f.Covers i) → out'[i]? = out[i]? := by
  induction fields generalizing out with
  | nil => exact ⟨out, rfl, rfl, by simp, fun _ _ => rfl⟩
  | cons f fields ih =>
      obtain ⟨hinsidef, hinside⟩ := List.forall_mem_cons.mp hinside
      obtain ⟨hapartf, hapart⟩ := List.pairwise_cons.mp hapart
      obtain ⟨hfitsf, hfits⟩ := List.forall_mem_cons.mp hfits
      cases hget : getObjectItem root f.jsonKey with
      | none =>
          obtain ⟨out', happly, hlen, hholds, hframe⟩ := ih hinside hapart hfits
          refine ⟨out', ?_, hlen, ?_, ?_⟩
          · rw [List.cons_append, applyRows_absent hget, happly]
          · rw [List.forall_mem_cons]
            refine ⟨fun item hitem => ?_, hholds⟩
            cases hget.symm.trans hitem
          · intro i hi
            exact hframe i fun g hg => hi g (List.mem_cons_of_mem _ hg)
      | some item =>
          have haccepts := hfitsf item hget
          obtain ⟨out1, happly1, hlen1, hholds1, hframe1⟩ :=
            applyRow_accept (o := o) haccepts hinsidef
          rw [← hlen1] at hinside
          obtain ⟨out2, happly2, hlen2, hholds2, hframe2⟩ := ih hinside hapart hfits
          -- the rows behind this one do not touch its slot
          have hkeep : f.value o out2 = f.value o out1 := by
            apply FieldRow.value_congr_covers
            intro i hi
            exact hframe2 i fun g hg _ => hapartf g hg i hi
          refine ⟨out2, ?_, hlen2.trans hlen1, ?_, ?_⟩
          · rw [List.cons_append, applyRows_found hget (FieldRow.accepts_ne_null haccepts) happly1,
              happly2]
          · rw [List.forall_mem_cons]
            refine ⟨fun item' hitem' => ?_, hholds2⟩
            obtain rfl : item = item' := Option.some.inj (hget.symm.trans hitem')
            unfold FieldRow.HoldsItem at hholds1 ⊢
            rw [hkeep]
            exact hholds1
          · intro i hi
            obtain ⟨hif, hi⟩ := List.forall_mem_cons.mp hi
            rw [hframe2 i hi, hframe1 i (hif ⟨item, hget⟩)]

theorem exists_first_misfit {fields : List FieldRow} (h : ¬ ∀ f ∈ fields, f.Fits root) :
    ∃ before f after, fields = before ++ f :: after ∧ (∀ g ∈ before, g.Fits root) ∧
      ¬ f.Fits root := by
  induction fields with
  | nil => exact absurd (by simp) h
  | cons f fields ih =>
      by_cases hf : f.Fits root
      · have hfields : ¬ ∀ g ∈ fields, g.Fits root := by
          intro hall
          exact h (List.forall_mem_cons.mpr ⟨hf, hall⟩)
        obtain ⟨before, g, after, rfl, hbefore, hg⟩ := ih hfields
        exact ⟨f :: before, g, after, rfl, List.forall_mem_cons.mpr ⟨hf, hbefore⟩, hg⟩
      · exact ⟨[], f, fields, rfl, by simp, hf⟩

end Rows

/-! ### The log -/

theorem fieldTableHasKey_iff {fields : List FieldRow} {key : List UInt8} :
    fieldTableHasKey fields key = true ↔ key ∈ fields.map FieldRow.jsonKey := by
  simp [fieldTableHasKey]

/-- The unknown keys are logged once each, in the order of the members. -/
theorem logCalls_spec (fields : List FieldRow) {members : List (List UInt8 × Json)}
    (hkeys : (members.map fun m => cstr m.1).Nodup) (objectName : List UInt8) (logFn : Bool) :
    (logCalls fields members objectName logFn).Sublist
        (members.map fun m => (objectName, cstr m.1)) ∧
      (logCalls fields members objectName logFn).Nodup ∧
      ∀ key, (objectName, key) ∈ logCalls fields members objectName logFn ↔
        logFn = true ∧ key ∈ members.map (fun m => cstr m.1) ∧
          key ∉ fields.map FieldRow.jsonKey := by
  cases logFn with
  | false => simp [logCalls]
  | true =>
      have hsub : (unknownKeys fields members).Sublist (members.map fun m => cstr m.1) :=
        List.filter_sublist
      rw [logCalls, if_pos rfl]
      refine ⟨?_, List.Nodup.map (Prod.mk_right_injective objectName) (hsub.nodup hkeys), ?_⟩
      · have hmap := hsub.map (Prod.mk objectName)
        rw [List.map_map] at hmap
        exact hmap
      · intro key
        rw [List.mem_map_of_injective (Prod.mk_right_injective objectName), unknownKeys,
          List.mem_filter, Bool.not_eq_true', ← Bool.not_eq_true, fieldTableHasKey_iff]
        simp only [true_and]

/-! ### The whole function -/

section Apply

variable {members : List (List UInt8 × Json)} (hkeys : (members.map fun m => cstr m.1).Nodup)

include hkeys

theorem FieldRow.fits_iff {f : FieldRow} :
    f.Fits (.object members) ↔ ∀ m ∈ members, cstr m.1 = f.jsonKey → f.Accepts m.2 := by
  simp only [Fits, getObjectItem_eq_some hkeys]
  constructor
  · intro h m hm hkey
    exact h m.2 ⟨m, hm, hkey, rfl⟩
  · rintro h item ⟨m, hm, hkey, rfl⟩
    exact h m hm hkey

theorem FieldRow.present_iff {f : FieldRow} :
    f.Present (.object members) ↔ f.jsonKey ∈ members.map fun m => cstr m.1 := by
  simp only [Present, getObjectItem_eq_some hkeys, List.mem_map]
  constructor
  · rintro ⟨item, m, hm, hkey, -⟩
    exact ⟨m, hm, hkey⟩
  · rintro ⟨m, hm, hkey⟩
    exact ⟨m.2, m, hm, hkey, rfl⟩

theorem applyRows_ok {size : ℕ} (table : Table size) (o : ByteOrder) {out : List UInt8}
    (hout : out.length = size)
    (hfits : ∀ m ∈ members, ∀ f ∈ table.rows, cstr m.1 = f.jsonKey → f.Accepts m.2) :
    ∃ out', applyRows o (.object members) table.rows out = some (.ok, out') ∧ out'.length = size ∧
      (∀ m ∈ members, ∀ f ∈ table.rows, cstr m.1 = f.jsonKey → f.HoldsItem o m.2 out') ∧
      ∀ i, (∀ f ∈ table.rows, f.jsonKey ∈ members.map (fun m => cstr m.1) → ¬ f.Covers i) →
        out'[i]? = out[i]? := by
  have hrows : ∀ f ∈ table.rows, f.Fits (.object members) := by
    intro f hf
    rw [FieldRow.fits_iff hkeys]
    exact fun m hm => hfits m hm f hf
  obtain ⟨out', happly, hlen, hholds, hframe⟩ :=
    applyRows_fits (o := o) (fun f hf => hout.symm ▸ table.inside f hf) table.apart hrows []
  rw [List.append_nil] at happly
  refine ⟨out', happly, hlen.trans hout, ?_, ?_⟩
  · intro m hm f hf hkey
    exact hholds f hf m.2 ((getObjectItem_eq_some hkeys).mpr ⟨m, hm, hkey, rfl⟩)
  · intro i hi
    exact hframe i fun f hf hpresent => hi f hf ((FieldRow.present_iff hkeys).mp hpresent)

theorem applyRows_error {size : ℕ} (table : Table size) (o : ByteOrder) {out : List UInt8}
    (hout : out.length = size)
    (hmisfit : ¬ ∀ m ∈ members, ∀ f ∈ table.rows, cstr m.1 = f.jsonKey → f.Accepts m.2) :
    ∃ out' before f after, applyRows o (.object members) table.rows out = some (.protocol, out') ∧
      out'.length = size ∧ table.rows = before ++ f :: after ∧
      (∃ m ∈ members, cstr m.1 = f.jsonKey ∧ ¬ f.Accepts m.2) ∧
      (∀ g ∈ before, ∀ m ∈ members, cstr m.1 = g.jsonKey → g.Accepts m.2) ∧
      ∀ i, (∀ g ∈ before, ¬ g.Covers i) → out'[i]? = out[i]? := by
  have hrows : ¬ ∀ f ∈ table.rows, f.Fits (.object members) := by
    intro hall
    apply hmisfit
    intro m hm f hf
    exact (FieldRow.fits_iff hkeys).mp (hall f hf) m hm
  obtain ⟨before, f, after, hsplit, hbefore, hf⟩ := exists_first_misfit hrows
  have hmem : ∀ g ∈ before, g ∈ table.rows := by
    intro g hg
    rw [hsplit]
    exact List.mem_append_left _ hg
  have hapart := table.apart
  rw [hsplit, List.pairwise_append] at hapart
  obtain ⟨out', happly, hlen, -, hframe⟩ := applyRows_fits (o := o)
    (fun g hg => hout.symm ▸ table.inside g (hmem g hg)) hapart.1 hbefore (f :: after)
  simp only [FieldRow.Fits, not_forall] at hf
  obtain ⟨item, hget, hitem⟩ := hf
  rw [applyRows_reject hget hitem] at happly
  obtain ⟨m, hm, hkey, rfl⟩ := (getObjectItem_eq_some hkeys).mp hget
  refine ⟨out', before, f, after, hsplit ▸ happly, hlen.trans hout, hsplit, ⟨m, hm, hkey, hitem⟩,
    ?_, ?_⟩
  · intro g hg
    exact (FieldRow.fits_iff hkeys).mp (hbefore g hg)
  · intro i hi
    exact hframe i fun g hg _ => hi g hg

end Apply

/-- Every table that is in order, on every object without duplicate keys and
every struct. -/
theorem applyFieldTableAt_correct {size : ℕ} (table : Table size) (o : ByteOrder)
    {members : List (List UInt8 × Json)} (hkeys : (members.map fun m => cstr m.1).Nodup)
    {out : List UInt8} (hout : out.length = size) (objectName : List UInt8) (logFn : Bool) :
    ∃ status out' calls,
      applyFieldTableAt o members table.rows out objectName logFn = some (status, out', calls) ∧
      out'.length = size ∧
      (status = .ok ↔
        ∀ m ∈ members, ∀ f ∈ table.rows, cstr m.1 = f.jsonKey → f.Accepts m.2) ∧
      (status = .ok →
        (∀ m ∈ members, ∀ f ∈ table.rows, cstr m.1 = f.jsonKey → f.HoldsItem o m.2 out') ∧
        (∀ f ∈ table.rows, f.jsonKey ∉ members.map (fun m => cstr m.1) →
          f.value o out' = f.value o out) ∧
        ∀ i, (∀ f ∈ table.rows, f.jsonKey ∈ members.map (fun m => cstr m.1) → ¬ f.Covers i) →
          out'[i]? = out[i]?) ∧
      (status ≠ .ok → status = .protocol ∧
        ∃ before f after, table.rows = before ++ f :: after ∧
          (∃ m ∈ members, cstr m.1 = f.jsonKey ∧ ¬ f.Accepts m.2) ∧
          (∀ g ∈ before, ∀ m ∈ members, cstr m.1 = g.jsonKey → g.Accepts m.2) ∧
          ∀ i, (∀ g ∈ before, ¬ g.Covers i) → out'[i]? = out[i]?) ∧
      calls.Sublist (members.map fun m => (objectName, cstr m.1)) ∧ calls.Nodup ∧
      (∀ key, (objectName, key) ∈ calls ↔
        logFn = true ∧ key ∈ members.map (fun m => cstr m.1) ∧
          key ∉ table.rows.map FieldRow.jsonKey) ∧
      ∀ members', members.Perm members' → ∃ calls',
        applyFieldTableAt o members' table.rows out objectName logFn =
          some (status, out', calls') := by
  obtain ⟨hsub, hnodup, hcalls⟩ := logCalls_spec table.rows hkeys objectName logFn
  -- the rows do not see the order of the members
  have hperm {status : Status} {out' : List UInt8}
      (happly : applyRows o (.object members) table.rows out = some (status, out'))
      {members' : List (List UInt8 × Json)} (hperm : members.Perm members') :
      ∃ calls', applyFieldTableAt o members' table.rows out objectName logFn =
        some (status, out', calls') := by
    rw [applyFieldTableAt, applyRows_congr (getObjectItem_perm hkeys hperm), happly]
    exact ⟨_, rfl⟩
  by_cases hfits : ∀ m ∈ members, ∀ f ∈ table.rows, cstr m.1 = f.jsonKey → f.Accepts m.2
  · obtain ⟨out', happly, hlen, hholds, hframe⟩ := applyRows_ok hkeys table o hout hfits
    refine ⟨.ok, out', logCalls table.rows members objectName logFn, ?_, hlen, iff_of_true rfl hfits,
      fun _ => ⟨hholds, ?_, hframe⟩, fun h => absurd rfl h, hsub, hnodup, hcalls,
      fun members' => hperm happly⟩
    · rw [applyFieldTableAt, happly]
      rfl
    · intro f hf hkey
      apply FieldRow.value_congr_covers
      intro i hi
      refine hframe i fun g hg hgkey hgi => ?_
      have hne : f ≠ g := by
        rintro rfl
        exact hkey hgkey
      exact table.not_covers hf hg hne hi hgi
  · obtain ⟨out', before, f, after, happly, hlen, hsplit, hm, hbefore, hframe⟩ :=
      applyRows_error hkeys table o hout hfits
    refine ⟨.protocol, out', logCalls table.rows members objectName logFn, ?_, hlen,
      iff_of_false (by simp) hfits, fun h => ?_,
      fun _ => ⟨rfl, before, f, after, hsplit, hm, hbefore, hframe⟩, hsub, hnodup, hcalls,
      fun members' => hperm happly⟩
    · rw [applyFieldTableAt, happly]
      rfl
    · cases h

/-! ### The tables of the repository -/

section Shipped

variable {ι : Type} {decls : List (ι × CType)} {fields : List FieldRow}

theorem TableOk.inside (h : TableOk decls fields) :
    ∀ f ∈ fields, ∀ i, f.Covers i → i < sizeof decls := by
  intro f hf i hi
  exact Nat.lt_of_lt_of_le hi.2 (h.bounds f hf)

theorem TableOk.disjoint (h : TableOk decls fields) :
    fields.Pairwise fun f g => ∀ i, f.Covers i → ¬ g.Covers i := by
  refine h.apart.imp ?_
  rintro f g hapart i ⟨hf, hf'⟩ ⟨hg, hg'⟩
  omega

/-- A table that is in order for a declaration. -/
def TableOk.table (h : TableOk decls fields) : Table (sizeof decls) where
  rows := fields
  names := h.names
  inside := h.inside
  apart := h.disjoint

end Shipped

/-- The parse functions apply their table to the object they have read, with
`log_fn`. -/
theorem parseRows_object {o : ByteOrder} {fields : List FieldRow} {mem : List UInt8} {len : ℕ}
    {members : List (List UInt8 × Json)} (hparse : parseAt false mem len = some (.ok (.object members)))
    (out objectName : List UInt8) :
    parseRows o fields mem len out =
      (applyFieldTableAt o members fields out objectName true).map fun r =>
        (r.1, r.2.1, r.2.2.map Prod.snd) := by
  have hcalls : (logCalls fields members objectName true).map Prod.snd =
      unknownKeys fields members := by
    rw [logCalls, if_pos rfl, List.map_map]
    exact List.map_id _
  simp only [parseRows, hparse, applyFieldTableAt, Option.map_map, Function.comp_def, hcalls]

/-- A Device with a number and an unknown key. -/
theorem applyFieldTableAt_correct_device :
    ∃ out' calls, applyFieldTableAt .little
        [(ascii "mic", .number (.finite 7)), (ascii "x", .null)] deviceRows
        (List.replicate (sizeof deviceStruct) 1) (ascii "jsonDeviceDto") true =
          some (.ok, out', calls) ∧
      (ascii "jsonDeviceDto", ascii "x") ∈ calls := by
  have hmic : ∀ f ∈ deviceRows, ascii "mic" = f.jsonKey → f.type = .int32 := by decide +kernel
  have hx : ∀ f ∈ deviceRows, ascii "x" ≠ f.jsonKey := by decide +kernel
  have hcstr : cstr (ascii "mic") = ascii "mic" ∧ cstr (ascii "x") = ascii "x" := by decide +kernel
  have hkeys : ([(ascii "mic", Json.number (.finite 7)), (ascii "x", .null)].map
      fun m => cstr m.1).Nodup := by decide +kernel
  obtain ⟨status, out', calls, happly, -, hok, -, -, -, -, hcalls, -⟩ :=
    applyFieldTableAt_correct deviceRows_ok.table .little hkeys (List.length_replicate (a := 1))
      (ascii "jsonDeviceDto") true
  obtain rfl : status = .ok := by
    rw [hok, List.forall_mem_cons, List.forall_mem_singleton, hcstr.1, hcstr.2]
    constructor
    · intro f hf hkey
      simp only [FieldRow.Accepts, hmic f hf hkey]
      exact ⟨7, rfl, by decide, by decide⟩
    · intro f hf hkey
      exact absurd hkey (hx f hf)
  refine ⟨out', calls, happly, (hcalls _).mpr ⟨rfl, ?_, ?_⟩⟩
  · decide +kernel
  · decide +kernel

end Savvy.Settings
