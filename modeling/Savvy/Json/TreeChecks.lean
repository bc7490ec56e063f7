import Savvy.Json.Utf8

/-!
The checks of a whole tree (`src/protocol/json/json_codec.c`). Both walks visit
every item below the root, through objects and arrays alike, so a tree passes
exactly when each of its objects and each of its strings does.
-/

namespace Savvy.CJson

inductive Occurs (v : Json) : Json → Prop
  | root : Occurs v v
  | item {items : List Json} {w : Json} : w ∈ items → Occurs v w → Occurs v (.array items)
  | member {members : List (List UInt8 × Json)} {m : List UInt8 × Json} :
      m ∈ members → Occurs v m.2 → Occurs v (.object members)

def children : Json → List Json
  | .array items => items
  | .object members => members.map Prod.snd
  | _ => []

theorem occurs_iff {v w : Json} : Occurs v w ↔ v = w ∨ ∃ u ∈ children w, Occurs v u := by
  constructor
  · intro h
    cases h with
    | root => exact .inl rfl
    | item hw h => exact .inr ⟨_, hw, h⟩
    | member hm h => exact .inr ⟨_, List.mem_map_of_mem hm, h⟩
  · rintro (rfl | ⟨u, hu, h⟩)
    · exact .root
    · cases w with
      | array items => exact .item hu h
      | object members =>
          obtain ⟨m, hm, rfl⟩ := List.mem_map.mp hu
          exact .member hm h
      | _ => cases hu

/-- A walk that looks at an item and then at the items below it looks at all
items of the tree. -/
theorem walk_iff (check here : Json → Prop)
    (hcheck : ∀ v, check v ↔ here v ∧ ∀ u ∈ children v, check u) (root : Json) :
    check root ↔ ∀ v, Occurs v root → here v := by
  have hstep (w : Json) (ih : ∀ u ∈ children w, check u ↔ ∀ v, Occurs v u → here v) :
      check w ↔ ∀ v, Occurs v w → here v := by
    rw [hcheck w]
    constructor
    · rintro ⟨hw, hbelow⟩ v hv
      obtain rfl | ⟨u, hu, hv⟩ := occurs_iff.mp hv
      · exact hw
      · exact (ih u hu).mp (hbelow u hu) v hv
    · intro h
      refine ⟨h w .root, fun u hu => (ih u hu).mpr fun v hv => h v ?_⟩
      exact occurs_iff.mpr (.inr ⟨u, hu, hv⟩)
  induction root using Json.induct with
  | null => exact hstep _ (by simp [children])
  | bool b => exact hstep _ (by simp [children])
  | number d => exact hstep _ (by simp [children])
  | string s => exact hstep _ (by simp [children])
  | array items ih => exact hstep _ ih
  | object members ih => exact hstep _ (List.forall_mem_map.mpr ih)

/-! ### Keys -/

/-- The two nested loops compare every pair of keys. -/
theorem distinctNames_iff (members : List (List UInt8 × Json)) :
    distinctNames members = true ↔ (members.map fun m => cstr m.1).Nodup := by
  induction members with
  | nil => simp [distinctNames]
  | cons m members ih =>
      rw [distinctNames, Bool.and_eq_true, ih, List.map_cons, List.nodup_cons, List.all_eq_true]
      refine and_congr_left fun _ => ?_
      simp only [bne_iff_ne, List.mem_map, not_exists, not_and]
      exact forall₂_congr fun m' _ => ne_comm

theorem checkNoDuplicateKeysItems_iff (items : List Json) :
    checkNoDuplicateKeysItems items = true ↔ ∀ v ∈ items, checkNoDuplicateKeys v = true := by
  induction items with
  | nil => simp [checkNoDuplicateKeysItems]
  | cons v items ih => rw [checkNoDuplicateKeysItems, Bool.and_eq_true, ih, List.forall_mem_cons]

theorem checkNoDuplicateKeysMembers_iff (members : List (List UInt8 × Json)) :
    checkNoDuplicateKeysMembers members = true ↔
      ∀ v ∈ members.map Prod.snd, checkNoDuplicateKeys v = true := by
  induction members with
  | nil => simp [checkNoDuplicateKeysMembers]
  | cons m members ih =>
      rw [checkNoDuplicateKeysMembers, Bool.and_eq_true, ih, List.map_cons, List.forall_mem_cons]

def keys : Json → List (List UInt8)
  | .object members => members.map fun m => cstr m.1
  | _ => []

def KeysDistinct (root : Json) : Prop :=
  ∀ members, Occurs (.object members) root → (members.map fun m => cstr m.1).Nodup

theorem checkNoDuplicateKeys_iff (root : Json) :
    checkNoDuplicateKeys root = true ↔ KeysDistinct root := by
  rw [walk_iff (fun v => checkNoDuplicateKeys v = true) (fun v => (keys v).Nodup)]
  · constructor
    · intro h members hmembers
      exact h _ hmembers
    · intro h v hv
      cases v with
      | object members => exact h members hv
      | _ => exact List.nodup_nil
  · intro v
    cases v with
    | array items => rw [checkNoDuplicateKeys, checkNoDuplicateKeysItems_iff]; simp [keys, children]
    | object members =>
        rw [checkNoDuplicateKeys, Bool.and_eq_true, distinctNames_iff,
          checkNoDuplicateKeysMembers_iff]
        rfl
    | _ => simp [checkNoDuplicateKeys, keys, children]

/-! ### Strings -/

/-- A C string that is the encoding of a list of characters. -/
def WellFormed (s : List UInt8) : Prop := ∃ cs, cstr s = utf8 cs

theorem utf8Validate_iff (s : List UInt8) : utf8Validate s = true ↔ WellFormed s := utf8Loop_iff _

theorem checkUtf8Items_iff (items : List Json) :
    checkUtf8Items items = true ↔ ∀ v ∈ items, checkUtf8 v = true := by
  induction items with
  | nil => simp [checkUtf8Items]
  | cons v items ih => rw [checkUtf8Items, Bool.and_eq_true, ih, List.forall_mem_cons]

theorem checkUtf8Members_iff (members : List (List UInt8 × Json)) :
    checkUtf8Members members = true ↔
      (∀ m ∈ members, WellFormed m.1) ∧ ∀ v ∈ members.map Prod.snd, checkUtf8 v = true := by
  induction members with
  | nil => simp [checkUtf8Members]
  | cons m members ih =>
      rw [checkUtf8Members, Bool.and_eq_true, Bool.and_eq_true, utf8Validate_iff, ih,
        List.map_cons, List.forall_mem_cons, List.forall_mem_cons]
      tauto

/-- The strings that belong to an item: its value, and the keys of its members. -/
def ownStrings : Json → List (List UInt8)
  | .string s => [s]
  | .object members => members.map Prod.fst
  | _ => []

def StringsWellFormed (root : Json) : Prop :=
  (∀ members, Occurs (.object members) root → ∀ m ∈ members, WellFormed m.1) ∧
    ∀ s, Occurs (.string s) root → WellFormed s

theorem checkUtf8_iff (root : Json) : checkUtf8 root = true ↔ StringsWellFormed root := by
  rw [walk_iff (fun v => checkUtf8 v = true) (fun v => ∀ s ∈ ownStrings v, WellFormed s)]
  · constructor
    · intro h
      refine ⟨fun members hmembers => ?_, fun s hs => ?_⟩
      · exact List.forall_mem_map.mp (h _ hmembers)
      · exact h _ hs s List.mem_cons_self
    · rintro ⟨hkeys, hstrings⟩ v hv
      cases v with
      | string s => exact List.forall_mem_singleton.mpr (hstrings s hv)
      | object members => exact List.forall_mem_map.mpr (hkeys members hv)
      | _ => simp [ownStrings]
  · intro v
    cases v with
    | string s => simp [checkUtf8, utf8Validate_iff, ownStrings, children]
    | array items => simp [checkUtf8, checkUtf8Items_iff, ownStrings, children]
    | object members =>
        rw [checkUtf8, checkUtf8Members_iff]
        simp only [ownStrings, children, List.forall_mem_map]
    | _ => simp [checkUtf8, ownStrings, children]

/-! ### The two parse functions -/

/-- The status and the variable after a result: only a tree is written to it. -/
def leave (cell : Option Json) : Except Status Json → Status × Option (Option Json)
  | .error status => (status, some cell)
  | .ok root => (.ok, some (some root))

/-- `savvy_json_parse` and `savvy_json_parse_allow_duplicate_keys`, with the
variable behind `out_root`. A null pointer is `none`. -/
def parseInto (allowDuplicateKeys : Bool) (text : Option (List UInt8)) (len : ℕ)
    (outRoot : Option (Option Json)) : Option (Status × Option (Option Json)) :=
  match text, outRoot with
  | some mem, some cell => (parseAt allowDuplicateKeys mem len).map (leave cell)
  | _, _ => some (.invalidArgument, outRoot)

/-- On a text that has a tree, the two checks decide. -/
theorem parseInto_tree {text : List UInt8} (htext : 0 ∉ text) {root : Json}
    (hroot : parseWithOpts text = some root) (allowDuplicateKeys : Bool) (more : List UInt8)
    (cell : Option Json) :
    parseInto allowDuplicateKeys (some (text ++ 0 :: more)) text.length (some cell) =
      if (allowDuplicateKeys || checkNoDuplicateKeys root) && checkUtf8 root then
        some (.ok, some (some root))
      else some (.protocol, some cell) := by
  have hget : (text ++ 0 :: more)[text.length]? = some 0 := by simp
  have hcontains : ¬ text.contains 0 = true := by simpa using htext
  simp only [parseInto, parseAt, parseText, hget, ne_eq, not_true, if_false, List.take_left,
    if_neg hcontains, hroot]
  cases allowDuplicateKeys <;> cases checkNoDuplicateKeys root <;> cases checkUtf8 root <;> rfl

theorem parseInto_rejected {allowDuplicateKeys : Bool} {text : Option (List UInt8)} {len : ℕ}
    {outRoot outRoot' : Option (Option Json)} {status : Status}
    (h : parseInto allowDuplicateKeys text len outRoot = some (status, outRoot'))
    (hstatus : status ≠ .ok) : outRoot' = outRoot := by
  cases text with
  | none => cases h; rfl
  | some mem =>
      cases outRoot with
      | none => cases h; rfl
      | some cell =>
          obtain ⟨r, -, hr⟩ := Option.map_eq_some_iff.mp h
          cases r with
          | error status => cases hr; rfl
          | ok root => cases hr; exact absurd rfl hstatus

/-- The two functions accept a tree exactly when all of its objects and strings
are in order, and a rejected call does not write `*out_root`. -/
theorem parseInto_whole_tree :
    (∀ (text more : List UInt8) (root : Json) (cell : Option Json), 0 ∉ text →
      parseWithOpts text = some root →
      (parseInto false (some (text ++ 0 :: more)) text.length (some cell) =
          some (.ok, some (some root)) ↔ KeysDistinct root ∧ StringsWellFormed root) ∧
      (parseInto true (some (text ++ 0 :: more)) text.length (some cell) =
          some (.ok, some (some root)) ↔ StringsWellFormed root) ∧
      (KeysDistinct root →
        parseInto false (some (text ++ 0 :: more)) text.length (some cell) =
          parseInto true (some (text ++ 0 :: more)) text.length (some cell))) ∧
      ∀ allowDuplicateKeys text len outRoot status outRoot',
        parseInto allowDuplicateKeys text len outRoot = some (status, outRoot') →
        status ≠ .ok → outRoot' = outRoot := by
  refine ⟨fun text more root cell htext hroot => ?_, ?_⟩
  · simp only [parseInto_tree htext hroot, ← checkNoDuplicateKeys_iff, ← checkUtf8_iff]
    cases checkNoDuplicateKeys root <;> cases checkUtf8 root <;> simp
  · intro allowDuplicateKeys text len outRoot status outRoot' h hstatus
    exact parseInto_rejected h hstatus

/-- A duplicate in an object in an array. -/
theorem parseInto_whole_tree_nested :
    parseInto false (some (ascii "[\x7b\"a\":\"x\",\"a\":\"y\"\x7d]" ++ [0])) 19 (some none) ≠
        some (.ok, some (some (.array [.object [(ascii "a", .string (ascii "x")),
          (ascii "a", .string (ascii "y"))]]))) ∧
      parseInto true (some (ascii "[\x7b\"a\":\"x\",\"a\":\"y\"\x7d]" ++ [0])) 19 (some none) =
        some (.ok, some (some (.array [.object [(ascii "a", .string (ascii "x")),
          (ascii "a", .string (ascii "y"))]]))) := by
  have hroot : parseWithOpts (ascii "[\x7b\"a\":\"x\",\"a\":\"y\"\x7d]") =
      some (.array [.object [(ascii "a", .string (ascii "x")),
        (ascii "a", .string (ascii "y"))]]) := rfl
  obtain ⟨hstrict, hlax, -⟩ := parseInto_whole_tree.1 _ [] _ none (by decide) hroot
  refine ⟨fun h => ?_, hlax.mpr ?_⟩
  · have hkeys := (hstrict.mp h).1 _ (.item List.mem_cons_self .root)
    exact absurd hkeys (by decide)
  · rw [← checkUtf8_iff]
    rfl

end Savvy.CJson
