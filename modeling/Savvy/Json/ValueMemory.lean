import Savvy.Json.ParseMemory
import Savvy.Json.PrintMemory

/-!
`parse_value` on memory. The loops of `parse_array` and `parse_object` are one loop over
the bytes that are left, and a value is by induction on the levels of nesting. An item
that a function was given stays in use where it gives up; what the function has made
itself is freed.
-/

namespace Savvy.CJson

open Kit

/-! ### The loops on lists -/

section Loops

variable {α : Type}

/-- The loops of `parse_array` and `parse_object`, where `parse` takes one item. -/
def parseLoop (close : UInt8) (parse : List UInt8 → Option (α × List UInt8)) :
    ℕ → List UInt8 → Option (List α × List UInt8)
  | 0, _ => none
  | turns + 1, rest =>
      (parse rest).bind fun (x, rest) =>
        match skipWhitespace rest with
        | [] => none
        | b :: rest =>
            if b = 44 then (parseLoop close parse turns rest).map fun (xs, rest) => (x :: xs, rest)
            else if b = close then some ([x], rest)
            else none

/-- `parse_array` and `parse_object` behind the opening bracket. -/
def parseBracketed (close : UInt8) (parse : List UInt8 → Option (α × List UInt8))
    (rest : List UInt8) : Option (List α × List UInt8) :=
  match skipWhitespace rest with
  | [] => none
  | b :: r =>
      if b = close then some ([], r) else parseLoop close parse (r.length + 1) (b :: r)

def parseElement (pv : List UInt8 → Option (Json × List UInt8)) (rest : List UInt8) :
    Option (Json × List UInt8) :=
  pv (skipWhitespace rest)

def parseMember (pv : List UInt8 → Option (Json × List UInt8)) (rest : List UInt8) :
    Option ((List UInt8 × Json) × List UInt8) :=
  (parseString (skipWhitespace rest)).bind fun (name, rest) =>
    match skipWhitespace rest with
    | [] => none
    | b :: rest =>
        if b ≠ 58 then none
        else (pv (skipWhitespace rest)).map fun (v, rest) => ((name, v), rest)

variable {close : UInt8} {parse : List UInt8 → Option (α × List UInt8)}
  {pv : List UInt8 → Option (Json × List UInt8)}

theorem parseItems_eq_loop (turns : ℕ) (rest : List UInt8) :
    parseItems pv turns rest = parseLoop 93 (parseElement pv) turns rest := by
  induction turns generalizing rest with
  | zero => rfl
  | succ turns ih =>
      rw [parseItems, parseLoop, parseElement]
      congr 1
      funext found
      obtain ⟨v, behind⟩ := found
      dsimp only
      cases skipWhitespace behind with
      | nil => rfl
      | cons b s =>
          dsimp only
          rw [ih]

theorem parseMembers_eq_loop (turns : ℕ) (rest : List UInt8) :
    parseMembers pv turns rest = parseLoop 125 (parseMember pv) turns rest := by
  induction turns generalizing rest with
  | zero => rfl
  | succ turns ih =>
      rw [parseMembers, parseLoop, parseMember, Option.bind_assoc]
      congr 1
      funext found
      obtain ⟨name, r⟩ := found
      dsimp only
      cases skipWhitespace r with
      | nil => rfl
      | cons b r =>
          dsimp only
          by_cases hcolon : b ≠ 58
          · rw [if_pos hcolon, if_pos hcolon]
            rfl
          · rw [if_neg hcolon, if_neg hcolon, Option.bind_map]
            congr 1
            funext found
            obtain ⟨v, behind⟩ := found
            dsimp only [Function.comp_apply]
            cases skipWhitespace behind with
            | nil => rfl
            | cons b s =>
                dsimp only
                rw [ih]

theorem parseArray_eq (rest : List UInt8) :
    parseArray pv rest =
      (parseBracketed 93 (parseElement pv) rest).map fun (vs, rest) => (.array vs, rest) := by
  unfold parseArray parseBracketed
  cases skipWhitespace rest with
  | nil => rfl
  | cons b r =>
      dsimp only
      rw [parseItems_eq_loop]
      split_ifs <;> rfl

theorem parseObject_eq (rest : List UInt8) :
    parseObject pv rest =
      (parseBracketed 125 (parseMember pv) rest).map fun (ms, rest) => (.object ms, rest) := by
  unfold parseObject parseBracketed
  cases skipWhitespace rest with
  | nil => rfl
  | cons b r =>
      dsimp only
      rw [parseMembers_eq_loop]
      split_ifs <;> rfl

theorem parseMember_shrinks (hpv : Shrinks pv) : Shrinks (parseMember pv) := by
  intro rest x behind h
  obtain ⟨⟨name, r⟩, hname, hrest⟩ := Option.bind_eq_some_iff.mp h
  have h1 := length_skipWhitespace_le rest
  have h2 := parseString_shrinks _ _ _ hname
  have h3 := length_skipWhitespace_le r
  dsimp only at hrest
  split at hrest
  · cases hrest
  next b r' hb =>
    rw [hb, List.length_cons] at h3
    split at hrest
    · cases hrest
    · obtain ⟨⟨v, r''⟩, hv, heq⟩ := Option.map_eq_some_iff.mp hrest
      cases heq
      have h4 := length_skipWhitespace_le r'
      have h5 := hpv _ _ _ hv
      show r''.length ≤ rest.length
      omega

theorem parseElement_shrinks (hpv : Shrinks pv) : Shrinks (parseElement pv) := fun rest _ _ h =>
  Nat.le_trans (hpv _ _ _ h) (length_skipWhitespace_le rest)

theorem parseLoop_none {turns : ℕ} {rest : List UInt8} (h : parse rest = none) :
    parseLoop close parse turns rest = none := by
  cases turns with
  | zero => rfl
  | succ turns => rw [parseLoop, h, Option.bind_none]

theorem parseLoop_comma {turns : ℕ} {rest behind r : List UInt8} {x : α}
    (h : parse rest = some (x, behind)) (hcomma : skipWhitespace behind = 44 :: r) :
    parseLoop close parse (turns + 1) rest =
      (parseLoop close parse turns r).map fun (xs, rest) => (x :: xs, rest) := by
  rw [parseLoop, h, Option.bind_some]
  dsimp only
  rw [hcomma]
  rfl

theorem parseLoop_close {turns : ℕ} {rest behind r : List UInt8} {x : α} (hne : close ≠ 44)
    (h : parse rest = some (x, behind)) (hclose : skipWhitespace behind = close :: r) :
    parseLoop close parse (turns + 1) rest = some ([x], r) := by
  rw [parseLoop, h, Option.bind_some]
  dsimp only
  rw [hclose]
  dsimp only
  rw [if_neg hne, if_pos rfl]

theorem parseLoop_bad {turns : ℕ} {rest behind : List UInt8} {x : α}
    (h : parse rest = some (x, behind)) (hcomma : ∀ r, skipWhitespace behind ≠ 44 :: r)
    (hclose : ∀ r, skipWhitespace behind ≠ close :: r) :
    parseLoop close parse turns rest = none := by
  cases turns with
  | zero => rfl
  | succ turns =>
      rw [parseLoop, h, Option.bind_some]
      dsimp only
      cases hnext : skipWhitespace behind with
      | nil => rfl
      | cons b r =>
          dsimp only
          rw [if_neg fun hb => hcomma r (by rw [hnext, hb]),
            if_neg fun hb => hclose r (by rw [hnext, hb])]

end Loops

/-! ### Items -/

variable {A : Arch} {M : Allocator} {content : List UInt8} {p : ParseBuffer} {depth : ℕ}
  {ids : List ℕ} {rest r : List UInt8} {c : UInt8} {item : Item} {done : List Item}

def Item.Empty (item : Item) : Prop := item.valuestring = none ∧ item.child = []

theorem Item.Empty.ids_eq (h : item.Empty) : item.ids = stringIds item.string ++ [item.block.id] := by
  obtain ⟨hstring, hchild⟩ := h
  rw [Item.ids_eq, Item.contents, hstring, hchild]
  rfl

theorem newItem_meets (bad : Prop) (h : Stands content p depth ids rest) :
    (newItem M).Meets p
      (fun item p' => item.Empty ∧ item.string = none ∧ p'.offset = p.offset ∧
        Stands content p' depth (item.ids ++ ids) rest)
      (Stopped M ids bad) := by
  refine (allocateBytes_meets sizeofItem bad h).bind ?_
  rintro b q ⟨-, hoffset, hq⟩
  exact Attempt.meets_pure ⟨⟨rfl, rfl⟩, rfl, hoffset, hq⟩

theorem itemIds_concat (done : List Item) (item : Item) (ids : List ℕ) :
    itemIds (done ++ [item]) ++ ids = itemIds done ++ (item.ids ++ ids) := by
  simp only [itemIds_append, itemIds, List.append_nil, List.append_assoc]

theorem perm_concat (done : List Item) (item : Item) (ids : List ℕ) :
    (item.ids ++ (itemIds done ++ ids)).Perm (itemIds (done ++ [item]) ++ ids) := by
  rw [itemIds_concat]
  exact List.perm_append_comm_assoc ..

/-! ### Values -/

/-- The value of an item was parsed: its blocks are in use besides the others. -/
def Parsed (content : List UInt8) (depth : ℕ) (item : Item) (ids : List ℕ)
    (result : Option (Json × List UInt8)) (item' : Item) (p : ParseBuffer) : Prop :=
  ∃ v behind, result = some (v, behind) ∧ Represents v item' ∧ item'.string = item.string ∧
    Stands content p depth (item'.ids ++ ids) behind

/-- From every place of the text `pv` parses what `parse` does, into an item that is
empty. -/
def ParsesValue (M : Allocator) (content : List UInt8) (depth : ℕ) (pv : Item → Parsing Item)
    (parse : List UInt8 → Option (Json × List UInt8)) : Prop :=
  ∀ p ids rest item, item.Empty → Stands content p depth (item.ids ++ ids) rest →
    (pv item).Meets p (Parsed content depth item ids (parse rest))
      (Stopped M (item.ids ++ ids) (parse rest = none))

/-- From every place of the text `child` parses one item more of a list, as `parse`
does behind the next byte. -/
def ParsesChild {α : Type} (M : Allocator) (content : List UInt8) (depth : ℕ)
    (child : List Item → Parsing (List Item)) (parse : List UInt8 → Option (α × List UInt8))
    (Rep : α → Item → Prop) : Prop :=
  ∀ p ids c r done, Stands content p depth (itemIds done ++ ids) (c :: r) →
    (child done).Meets p
      (fun items p' => ∃ x behind item, parse r = some (x, behind) ∧ items = done ++ [item] ∧
        Rep x item ∧ Stands content p' depth (itemIds items ++ ids) (skipWhitespace behind))
      (Stopped M ids (parse r = none))

def RepresentsElement (v : Json) (item : Item) : Prop := item.string = none ∧ Represents v item

def RepresentsMember (m : List UInt8 × Json) (item : Item) : Prop :=
  (∃ b, item.string = some b ∧ m.1 ++ [0] <+: b.bytes) ∧ Represents m.2 item

theorem representsItems_iff {vs : List Json} {items : List Item} :
    RepresentsItems vs items ↔ List.Forall₂ RepresentsElement vs items := by
  induction vs generalizing items with
  | nil => rw [RepresentsItems, List.forall₂_nil_left_iff]
  | cons v vs ih =>
      rw [RepresentsItems, List.forall₂_cons_left_iff]
      constructor
      · rintro ⟨item, next, rfl, hname, hv, hvs⟩
        exact ⟨item, next, ⟨hname, hv⟩, ih.mp hvs, rfl⟩
      · rintro ⟨item, next, ⟨hname, hv⟩, hvs, rfl⟩
        exact ⟨item, next, rfl, hname, hv, ih.mpr hvs⟩

theorem representsMembers_iff {ms : List (List UInt8 × Json)} {items : List Item} :
    RepresentsMembers ms items ↔ List.Forall₂ RepresentsMember ms items := by
  induction ms generalizing items with
  | nil => rw [RepresentsMembers, List.forall₂_nil_left_iff]
  | cons m ms ih =>
      obtain ⟨name, v⟩ := m
      rw [RepresentsMembers, List.forall₂_cons_left_iff]
      constructor
      · rintro ⟨item, next, rfl, hname, hv, hms⟩
        exact ⟨item, next, ⟨hname, hv⟩, ih.mp hms, rfl⟩
      · rintro ⟨item, next, ⟨hname, hv⟩, hms, rfl⟩
        exact ⟨item, next, rfl, hname, hv, ih.mpr hms⟩

theorem parseElementAt_parses {pv : Item → Parsing Item}
    {parse : List UInt8 → Option (Json × List UInt8)} (hA : content.length ≤ A.ptrdiffMax)
    (hpv : ParsesValue M content depth pv parse) :
    ParsesChild M content depth (parseElementAt A M content pv) (parseElement parse)
      RepresentsElement := by
  intro p ids c r done h
  refine (meets_deleteAll (newItem_meets _ h) (.refl _)).bind ?_
  rintro item q ⟨hempty, hname, -, hq⟩
  refine forward_meets [c] hA hq rfl fun q1 h1 => ?_
  refine skip_meets hA h1 fun q2 h2 => ?_
  refine (meets_deleteAll (hpv _ _ _ _ hempty h2) (perm_concat ..)).bind ?_
  rintro item' q3 ⟨v, behind, hparse, hrep, hstring, h3⟩
  refine skip_meets hA h3 fun q4 h4 => ?_
  exact Attempt.meets_pure
    ⟨v, behind, item', hparse, rfl, ⟨by rw [hstring, hname], hrep⟩, h4.of_perm (perm_concat ..)⟩

theorem exists_skipWhitespace (c : UInt8) (r : List UInt8) :
    ∃ b s, skipWhitespace (c :: r) = b :: s := by
  unfold skipWhitespace
  cases (c :: r).dropWhile (· ≤ 32) with
  | nil =>
      refine List.exists_cons_of_length_pos ?_
      rw [List.length_drop, List.length_cons]
      omega
  | cons b s => exact ⟨b, s, rfl⟩

theorem parseMember_badName {parse : List UInt8 → Option (Json × List UInt8)}
    (h : parseString (skipWhitespace r) = none) : parseMember parse r = none := by
  rw [parseMember, h, Option.bind_none]

theorem parseMember_noColon {parse : List UInt8 → Option (Json × List UInt8)}
    {name behind : List UInt8} (h : parseString (skipWhitespace r) = some (name, behind))
    (hcolon : ∀ s, skipWhitespace behind ≠ 58 :: s) : parseMember parse r = none := by
  rw [parseMember, h, Option.bind_some]
  dsimp only
  cases hnext : skipWhitespace behind with
  | nil => rfl
  | cons b s =>
      dsimp only
      rw [if_pos fun hb => hcolon s (by rw [hnext, hb])]

theorem parseMember_colon {parse : List UInt8 → Option (Json × List UInt8)}
    {name behind s : List UInt8} (h : parseString (skipWhitespace r) = some (name, behind))
    (hcolon : skipWhitespace behind = 58 :: s) :
    parseMember parse r =
      (parse (skipWhitespace s)).map fun found => ((name, found.1), found.2) := by
  rw [parseMember, h, Option.bind_some]
  dsimp only
  rw [hcolon]
  rfl

theorem expectMore_meets {bad : Prop} (hA : content.length ≤ A.ptrdiffMax)
    (h : Stands content p depth ids (c :: r)) (hbad : r = [] → bad) :
    (expectMore A content).Meets p (fun _ p' => p = p' ∧ r ≠ []) (Stopped M ids bad) := by
  have hacc := canAccess_eq hA h (Nat.le_trans (by decide) (le_ptrdiffMax A) : 1 ≤ A.ptrdiffMax)
  cases r with
  | nil =>
      have hrun : expectMore A content p = some (none, p) := by
        rw [expectMore, hacc]
        rfl
      exact Attempt.meets_of_gaveUp hrun (h.stopped (hbad rfl))
  | cons c' r =>
      have hrun : expectMore A content p = some (some (), p) := by
        rw [expectMore, hacc, if_pos (by simp)]
      exact Attempt.meets_of_result hrun ⟨rfl, by simp⟩

theorem parseMemberAt_parses {pv : Item → Parsing Item}
    {parse : List UInt8 → Option (Json × List UInt8)} (hA : content.length ≤ A.ptrdiffMax)
    (hpv : ParsesValue M content depth pv parse) :
    ParsesChild M content depth (parseMemberAt A M content pv) (parseMember parse)
      RepresentsMember := by
  intro p ids c r done h
  refine (meets_deleteAll (newItem_meets _ h) (.refl _)).bind ?_
  rintro item q ⟨hempty, hname, -, hq⟩
  refine (meets_deleteAll (expectMore_meets hA hq ?_) (perm_concat ..)).bind ?_
  · rintro rfl
    rfl
  rintro _ _ ⟨rfl, hmore⟩
  refine forward_meets [c] hA hq rfl fun q1 h1 => ?_
  refine skip_meets hA h1 fun q2 h2 => ?_
  obtain ⟨c', r', rfl⟩ := List.exists_cons_of_ne_nil hmore
  obtain ⟨b, s, hskip⟩ := exists_skipWhitespace c' r'
  rw [hskip] at h2
  refine (meets_deleteAll (meets_stopped (parseStringAt_meets item hA h2) fun hnone => ?_)
    (perm_concat ..)).bind ?_
  · exact parseMember_badName (by rw [hskip, hnone])
  rintro _ q3 ⟨name, behind, output, hparse, rfl, hprefix, h3⟩
  refine skip_meets hA h3 fun q4 h4 => ?_
  obtain ⟨named, hnamed⟩ : ∃ named : Item, named =
      ({ item with type := .string, valuestring := some output } : Item).named := ⟨_, rfl⟩
  have hfresh : named.Empty := by
    rw [hnamed]
    exact ⟨rfl, hempty.2⟩
  have hids : named.ids = output.id :: item.ids := by
    rw [hfresh.ids_eq, hempty.ids_eq, hname, hnamed]
    rfl
  rw [← List.cons_append, ← hids] at h4
  dsimp only
  rw [← hnamed]
  rw [← hskip] at hparse
  refine (meets_deleteAll (expect_meets hA 58 h4 (parseMember_noColon hparse))
    (perm_concat ..)).bind ?_
  rintro _ _ ⟨rfl, s', hcolon⟩
  rw [hcolon] at h4
  have hmember : parseMember parse (c' :: r') = _ := parseMember_colon hparse hcolon
  refine forward_meets [58] hA h4 rfl fun q5 h5 => ?_
  refine skip_meets hA h5 fun q6 h6 => ?_
  refine (meets_deleteAll (meets_stopped (hpv _ _ _ _ hfresh h6) fun hnone => ?_)
    (perm_concat ..)).bind ?_
  · rw [hmember, hnone]
    rfl
  rintro item' q7 ⟨v, behind', hvalue, hrep, hstring, h7⟩
  refine skip_meets hA h7 fun q8 h8 => ?_
  refine Attempt.meets_pure ⟨(name, v), behind', item', ?_, rfl, ⟨⟨output, ?_, hprefix⟩, hrep⟩,
    h8.of_perm (perm_concat ..)⟩
  · rw [hmember, hvalue]
    rfl
  · rw [hstring, hnamed]
    rfl

/-! ### The loops -/

/-- What the loop leaves: all items, in front of the closing bracket. -/
def Listed {α : Type} (content : List UInt8) (depth : ℕ) (done : List Item) (ids : List ℕ)
    (close : UInt8) (Rep : α → Item → Prop) (result : Option (List α × List UInt8))
    (items : List Item) (p : ParseBuffer) : Prop :=
  ∃ xs behind new, result = some (xs, behind) ∧ items = done ++ new ∧ List.Forall₂ Rep xs new ∧
    Stands content p depth (itemIds items ++ ids) (close :: behind)

theorem head?_beq_false {b : UInt8} {s : List UInt8} (h : ¬ ∃ r, s = b :: r) :
    (s.head? == some b) = false := by
  cases s with
  | nil => rfl
  | cons c r =>
      rw [List.head?_cons, beq_eq_false_iff_ne]
      intro heq
      exact h ⟨r, by rw [Option.some.inj heq]⟩

theorem parseChildren_meets {α : Type} {close : UInt8} {child : List Item → Parsing (List Item)}
    {parse : List UInt8 → Option (α × List UInt8)} {Rep : α → Item → Prop}
    (hA : content.length ≤ A.ptrdiffMax) (hclose : close ≠ 44)
    (hchild : ParsesChild M content depth child parse Rep) (hshrinks : Shrinks parse)
    (hnil : parse [] = none) {turns fuel : ℕ} (hturns : r.length < turns)
    (hfuel : r.length ≤ fuel) (h : Stands content p depth (itemIds done ++ ids) (c :: r)) :
    (parseChildren A content close child turns done).Meets p
      (Listed content depth done ids close Rep (parseLoop close parse fuel r))
      (Stopped M ids (parseLoop close parse fuel r = none)) := by
  induction turns generalizing fuel p c r done with
  | zero => omega
  | succ turns ih =>
      rw [parseChildren]
      refine (meets_stopped (hchild _ _ _ _ _ h) parseLoop_none).bind ?_
      rintro _ q ⟨x, behind, item, hparse, rfl, hrep, hq⟩
      have hbehind := hshrinks _ _ _ hparse
      have hskip := length_skipWhitespace_le behind
      obtain ⟨fuel, rfl⟩ : ∃ n, fuel = n + 1 := by
        refine Nat.exists_eq_succ_of_ne_zero ?_
        rintro rfl
        obtain rfl : r = [] := List.length_eq_zero_iff.mp (by omega)
        rw [hnil] at hparse
        cases hparse
      refine currentIs_meets hA 44 hq ?_
      by_cases hcomma : ∃ r', skipWhitespace behind = 44 :: r'
      · obtain ⟨r', hnext⟩ := hcomma
        rw [hnext] at hq
        rw [hnext, List.length_cons] at hskip
        rw [hnext, if_pos (by simp), parseLoop_comma hparse hnext]
        refine (ih (show r'.length < turns by omega) (show r'.length ≤ fuel by omega) hq).mono ?_ ?_
        · rintro items p' ⟨xs, last, new, hloop, rfl, hall, hp'⟩
          refine ⟨x :: xs, last, item :: new, by rw [hloop]; rfl, ?_, .cons hrep hall, hp'⟩
          rw [List.append_assoc]
          rfl
        · rintro p' hstop
          exact hstop.mono fun hnone => by rw [hnone]; rfl
      · rw [head?_beq_false hcomma, if_neg (by simp)]
        refine (meets_deleteAll (expect_meets hA close hq fun hbad => ?_) (.refl _)).bind ?_
        · exact parseLoop_bad hparse (fun r' hr' => hcomma ⟨r', hr'⟩) hbad
        · rintro _ _ ⟨rfl, r', hr'⟩
          rw [hr'] at hq
          exact Attempt.meets_pure ⟨[x], r', [item], parseLoop_close hclose hparse hr', rfl,
            .cons hrep .nil, hq⟩

/-! ### Arrays and objects -/

theorem enterLevel_meets {bad : Prop} (h : Stands content p depth ids rest)
    (hbad : nestingLimit ≤ depth → bad) :
    enterLevel.Meets p (fun _ p' => depth < nestingLimit ∧ Stands content p' (depth + 1) ids rest)
      (Stopped M ids bad) := by
  have hdepth := h.depth_eq
  by_cases hlimit : nestingLimit ≤ depth
  · have hrun : enterLevel p = some (none, p) := by
      rw [enterLevel, if_pos (by omega)]
    exact Attempt.meets_of_gaveUp hrun (h.stopped (hbad hlimit))
  · have hrun : enterLevel p = some (some (), { p with depth := p.depth + 1 }) := by
      rw [enterLevel, if_neg (by omega)]
    exact Attempt.meets_of_result hrun ⟨by omega, h.inside, h.rest_eq, by rw [hdepth], h.inUse⟩

theorem finishItem_meets {F : ParseBuffer → Prop} {children : List Item} (type : ItemType)
    (hA : content.length ≤ A.ptrdiffMax) (h : Stands content p (depth + 1) ids (c :: rest)) :
    (finishItem A type children item).Meets p
      (fun item' p' => item' = { item with type := type, child := children } ∧
        Stands content p' depth ids rest) F := by
  have hleft : Stands content { p with depth := p.depth - 1 } depth ids (c :: rest) :=
    ⟨h.inside, h.rest_eq, by dsimp only; rw [h.depth_eq, Nat.add_sub_cancel], h.inUse⟩
  refine Attempt.meets_change_bind rfl ?_
  refine forward_meets [c] hA hleft rfl fun q hq => ?_
  exact Attempt.meets_pure ⟨rfl, hq⟩

theorem stepBack_meets {bad : Prop} (hA : content.length ≤ A.ptrdiffMax)
    (h : Stands content p depth ids rest) (hoffset : 0 < p.offset) (hbad : rest = [] → bad) :
    (stepBack A content).Meets p
      (fun _ p' => rest ≠ [] ∧ ∃ c, Stands content p' depth ids (c :: rest))
      (Stopped M ids bad) := by
  have hacc := canAccess_eq hA h (Nat.zero_le _)
  have hlen := h.length_eq
  have hbound := A.two_mul_ptrdiffMax_lt
  have hback : A.sub p.offset 1 = p.offset - 1 := A.sub_of_le (by omega) (by omega)
  cases rest with
  | nil =>
      have hrun : stepBack A content p = some (none, { p with offset := A.sub p.offset 1 }) := by
        rw [stepBack, hacc]
        rfl
      exact Attempt.meets_of_gaveUp hrun ⟨h.inUse, fun _ => hbad rfl⟩
  | cons b r =>
      have hrun : stepBack A content p = some (some (), { p with offset := A.sub p.offset 1 }) := by
        rw [stepBack, hacc]
        rfl
      rw [List.length_cons] at hlen
      refine Attempt.meets_of_result hrun
        ⟨by simp, content[p.offset - 1], by dsimp only; omega, ?_, h.depth_eq, h.inUse⟩
      dsimp only
      rw [hback, List.drop_eq_getElem_cons (by omega), Nat.sub_add_cancel hoffset, h.rest_eq]

theorem parseBracketed_nil {α : Type} {close : UInt8}
    {parse : List UInt8 → Option (α × List UInt8)} (h : skipWhitespace r = []) :
    parseBracketed close parse r = none := by
  rw [parseBracketed, h]

theorem parseBracketed_empty {α : Type} {close : UInt8}
    {parse : List UInt8 → Option (α × List UInt8)} (h : skipWhitespace r = close :: rest) :
    parseBracketed close parse r = some ([], rest) := by
  rw [parseBracketed, h]
  exact if_pos rfl

theorem parseBracketed_loop {α : Type} {close b : UInt8}
    {parse : List UInt8 → Option (α × List UInt8)} (h : skipWhitespace r = b :: rest)
    (hne : b ≠ close) :
    parseBracketed close parse r = parseLoop close parse (rest.length + 1) (b :: rest) := by
  rw [parseBracketed, h]
  exact if_neg hne

theorem parseBrackets_meets {α : Type} {close : UInt8}
    {child : List Item → Parsing (List Item)} {parse : List UInt8 → Option (α × List UInt8)}
    {Rep : α → Item → Prop} (type : ItemType) (hA : content.length ≤ A.ptrdiffMax)
    (hclose : close ≠ 44) (hchild : ParsesChild M content (depth + 1) child parse Rep)
    (hshrinks : Shrinks parse) (hnil : parse [] = none)
    (h : Stands content p (depth + 1) ids (c :: r)) :
    (parseBrackets A content type close child item).Meets p
      (fun item' p' => ∃ xs children behind, parseBracketed close parse r = some (xs, behind) ∧
        item' = { item with type := type, child := children } ∧ List.Forall₂ Rep xs children ∧
        Stands content p' depth (itemIds children ++ ids) behind)
      (Stopped M ids (parseBracketed close parse r = none)) := by
  refine forward_meets [c] hA h rfl fun q1 h1 => ?_
  refine skip_meets hA h1 fun q2 h2 => ?_
  refine currentIs_meets hA close h2 ?_
  have hpos : 0 < q2.offset := by
    have hlen := h.length_eq
    have hlen2 := h2.length_eq
    have hskip := length_skipWhitespace_le r
    rw [List.length_cons] at hlen
    omega
  by_cases hempty : ∃ r', skipWhitespace r = close :: r'
  · obtain ⟨r', hnext⟩ := hempty
    rw [hnext] at h2
    rw [hnext, if_pos (by simp)]
    refine (finishItem_meets type hA h2).mono ?_ fun _ hF => hF
    rintro item' p' ⟨rfl, hp'⟩
    exact ⟨[], [], r', parseBracketed_empty hnext, rfl, .nil, hp'⟩
  · rw [head?_beq_false hempty, if_neg (by simp)]
    refine (stepBack_meets hA h2 hpos parseBracketed_nil).bind ?_
    rintro _ q3 ⟨hne, c', h3⟩
    obtain ⟨b, r', hnext⟩ := List.exists_cons_of_ne_nil hne
    have hloop : parseBracketed close parse r = parseLoop close parse (r'.length + 1) (b :: r') :=
      parseBracketed_loop hnext fun hb => hempty ⟨r', by rw [hnext, hb]⟩
    rw [hnext] at h3
    have hlen := h3.length_eq
    simp only [List.length_cons] at hlen
    rw [hloop]
    refine (parseChildren_meets hA hclose hchild hshrinks hnil
      (show (b :: r').length < content.length + 1 by rw [List.length_cons]; omega) (Nat.le_refl _)
      (show Stands content q3 (depth + 1) (itemIds [] ++ ids) (c' :: b :: r') from h3)).bind ?_
    rintro children q4 ⟨xs, behind, new, hparse, rfl, hall, h4⟩
    refine (finishItem_meets type hA h4).mono ?_ fun _ hF => hF
    rintro item' p' ⟨rfl, hp'⟩
    exact ⟨xs, children, behind, hparse, rfl, hall, hp'⟩

/-- From behind the first byte of an array or an object `parseAt` parses what `parse`
does. -/
def ParsesOpened (M : Allocator) (content : List UInt8) (depth : ℕ) (c : UInt8)
    (parseAt : Item → Parsing Item) (parse : List UInt8 → Option (Json × List UInt8)) : Prop :=
  ∀ p ids r item, item.Empty → Stands content p depth (item.ids ++ ids) (c :: r) →
    (parseAt item).Meets p (Parsed content depth item ids (parse r))
      (Stopped M (item.ids ++ ids) (parse r = none))

theorem Item.Empty.ids_children (h : item.Empty) (type : ItemType) (children : List Item) :
    ({ item with type := type, child := children } : Item).ids = itemIds children ++ item.ids := by
  rw [h.ids_eq, Item.ids_eq, Item.contents, h.1, List.append_assoc]
  rfl

section Levels

variable {pv : Item → Parsing Item} {parse : List UInt8 → Option (Json × List UInt8)}

theorem parseArrayAt_opened (hA : content.length ≤ A.ptrdiffMax)
    (hpv : ParsesValue M content (depth + 1) pv parse) (hshrinks : Shrinks parse)
    (hnil : parse [] = none) (hdepth : depth < nestingLimit) :
    ParsesOpened M content depth 91 (parseArrayAt A M content pv) (parseArray parse) := by
  intro p ids r item hempty h
  rw [parseArray_eq]
  refine (enterLevel_meets h fun hlimit => absurd hlimit (by omega)).bind ?_
  rintro _ q ⟨-, hq⟩
  refine Attempt.Meets.bind (here_meets (Q := fun _ p' => q = p') 91 hq (fun _ => rfl)
    fun hne => absurd rfl hne) ?_
  rintro _ _ rfl
  refine (parseBrackets_meets .array hA (by decide) (parseElementAt_parses hA hpv)
    (parseElement_shrinks hshrinks) hnil hq).mono ?_ ?_
  · rintro item' p' ⟨vs, children, behind, hparse, rfl, hall, hp'⟩
    refine ⟨.array vs, behind, by rw [hparse]; rfl, ?_, rfl, ?_⟩
    · rw [Represents]
      exact ⟨rfl, representsItems_iff.mpr hall⟩
    · rwa [hempty.ids_children, List.append_assoc]
  · rintro p' hstop
    exact hstop.mono fun hnone => by rw [hnone]; rfl

theorem parseObjectAt_opened (hA : content.length ≤ A.ptrdiffMax)
    (hpv : ParsesValue M content (depth + 1) pv parse) (hshrinks : Shrinks parse)
    (hdepth : depth < nestingLimit) :
    ParsesOpened M content depth 123 (parseObjectAt A M content pv) (parseObject parse) := by
  intro p ids r item hempty h
  rw [parseObject_eq]
  refine (enterLevel_meets h fun hlimit => absurd hlimit (by omega)).bind ?_
  rintro _ q ⟨-, hq⟩
  refine (expect_meets hA 123 hq fun hne => absurd rfl (hne r)).bind ?_
  rintro _ _ ⟨rfl, -⟩
  refine (parseBrackets_meets .object hA (by decide) (parseMemberAt_parses hA hpv)
    (parseMember_shrinks hshrinks) rfl hq).mono ?_ ?_
  · rintro item' p' ⟨ms, children, behind, hparse, rfl, hall, hp'⟩
    refine ⟨.object ms, behind, by rw [hparse]; rfl, ?_, rfl, ?_⟩
    · rw [Represents]
      exact ⟨rfl, representsMembers_iff.mpr hall⟩
    · rwa [hempty.ids_children, List.append_assoc]
  · rintro p' hstop
    exact hstop.mono fun hnone => by rw [hnone]; rfl

/-- At the nesting limit nothing is opened. -/
theorem parseArrayAt_limit (hdepth : nestingLimit ≤ depth) :
    ParsesOpened M content depth 91 (parseArrayAt A M content pv) fun _ => none := by
  intro p ids r item _ h
  refine (enterLevel_meets h fun _ => rfl).bind ?_
  rintro _ q ⟨hlt, -⟩
  exact absurd hdepth (by omega)

theorem parseObjectAt_limit (hdepth : nestingLimit ≤ depth) :
    ParsesOpened M content depth 123 (parseObjectAt A M content pv) fun _ => none := by
  intro p ids r item _ h
  refine (enterLevel_meets h fun _ => rfl).bind ?_
  rintro _ q ⟨hlt, -⟩
  exact absurd hdepth (by omega)

end Levels

/-! ### Values -/

theorem Item.ids_leaf (item : Item) (type : ItemType) (n : ℤ) (d : Double) :
    ({ item with type := type, valueint := n, valuedouble := d } : Item).ids = item.ids := by
  rw [Item.ids_eq, Item.ids_eq]
  rfl

theorem parseWord_meets {F : ParseBuffer → Prop} {word : List UInt8} {n : ℕ} {v : Json}
    {type : ItemType} {valueint : ℤ} (hA : content.length ≤ A.ptrdiffMax)
    (h : Stands content p depth (item.ids ++ ids) rest) (hword : word.isPrefixOf rest = true)
    (hn : n = word.length) (hv : Represents v { item with type := type, valueint := valueint }) :
    (parseWord A type valueint n item).Meets p
      (Parsed content depth item ids (some (v, rest.drop n))) F := by
  obtain ⟨behind, rfl⟩ := List.isPrefixOf_iff_prefix.mp hword
  refine forward_meets word hA h hn fun q hq => ?_
  refine Attempt.meets_pure ⟨v, behind, by rw [hn, List.drop_left], hv, rfl, ?_⟩
  rwa [Item.ids_leaf]

theorem parseStringAt_value (hA : content.length ≤ A.ptrdiffMax) (hempty : item.Empty)
    (h : Stands content p depth (item.ids ++ ids) (c :: r)) :
    (parseStringAt A M content item).Meets p
      (Parsed content depth item ids
        ((parseString (c :: r)).map fun found => (.string found.1, found.2)))
      (Stopped M (item.ids ++ ids)
        ((parseString (c :: r)).map (fun found => (Json.string found.1, found.2)) = none)) := by
  refine (parseStringAt_meets item hA h).mono ?_ ?_
  · rintro item' p' ⟨s, behind, b, hparse, rfl, hprefix, hp'⟩
    refine ⟨.string s, behind, by rw [hparse]; rfl, ⟨rfl, b, rfl, hprefix⟩, rfl, ?_⟩
    have hids : ({ item with type := .string, valuestring := some b } : Item).ids =
        b.id :: item.ids := by
      rw [hempty.ids_eq, Item.ids_eq, Item.contents, hempty.2]
      rfl
    rwa [hids]
  · rintro p' hstop
    exact hstop.mono fun hnone => by rw [hnone]; rfl

theorem parseNumberAt_value (hA : content.length ≤ A.ptrdiffMax)
    (h : Stands content p depth (item.ids ++ ids) rest) :
    (parseNumberAt A M content item).Meets p (Parsed content depth item ids (parseNumber rest))
      (Stopped M (item.ids ++ ids) (parseNumber rest = none)) := by
  refine (parseNumberAt_meets item hA h).mono ?_ fun _ hstop => hstop
  rintro item' p' ⟨d, behind, hparse, rfl, hp'⟩
  refine ⟨.number d, behind, hparse, ⟨rfl, rfl, rfl⟩, rfl, ?_⟩
  rwa [Item.ids_leaf]

/-- The pointers to the text that `parse_value` follows are in it. -/
theorem parseOther_eq (pv : Item → Parsing Item) (item : Item)
    (hA : content.length ≤ A.ptrdiffMax) (h : Stands content p depth ids (c :: r)) :
    parseOther A M content pv item p =
      (if c = 34 then parseStringAt A M content item
      else if c = 45 ∨ isDigit c then parseNumberAt A M content item
      else if c = 91 then parseArrayAt A M content pv item
      else if c = 123 then parseObjectAt A M content pv item
      else Attempt.giveUp) p := by
  have hacc := canAccess_eq hA h (Nat.zero_le _)
  have hc : content[p.offset]? = some c := getElem?_of_drop h.rest_eq 0
  rw [parseOther, hacc, if_pos (by simp), hc, Option.bind_some]
  split_ifs <;> rfl

/-- `parse_value` is its own function on lists, where the functions for arrays and objects
are theirs. -/
theorem parseValueAt_step {levels : ℕ} {pv : List UInt8 → Option (Json × List UInt8)}
    {array object : (List UInt8 → Option (Json × List UInt8)) → List UInt8 →
      Option (Json × List UInt8)} (hA : content.length ≤ A.ptrdiffMax)
    (harray : ParsesOpened M content depth 91
      (parseArrayAt A M content (parseValueAt A M content levels)) (array pv))
    (hobject : ParsesOpened M content depth 123
      (parseObjectAt A M content (parseValueAt A M content levels)) (object pv)) :
    ParsesValue M content depth (parseValueAt A M content (levels + 1))
      (parseValueWith pv array object) := by
  intro p ids rest item hempty h
  rw [parseValueAt]
  unfold parseValueWith
  refine startsWith_meets hA (by decide) h ?_
  by_cases hnull : (ascii "null").isPrefixOf rest
  · rw [if_pos hnull, if_pos hnull]
    exact parseWord_meets hA h hnull rfl rfl
  rw [if_neg hnull]
  refine startsWith_meets hA (by decide) h ?_
  by_cases hfalse : (ascii "false").isPrefixOf rest
  · rw [if_pos hfalse, if_neg hnull, if_pos hfalse]
    exact parseWord_meets hA h hfalse rfl rfl
  rw [if_neg hfalse]
  refine startsWith_meets hA (by decide) h ?_
  by_cases htrue : (ascii "true").isPrefixOf rest
  · rw [if_pos htrue, if_neg hnull, if_neg hfalse, if_pos htrue]
    exact parseWord_meets hA h htrue rfl rfl
  rw [if_neg htrue, if_neg hnull, if_neg hfalse, if_neg htrue]
  cases rest with
  | nil =>
      have hacc := canAccess_eq hA h (Nat.zero_le _)
      have hrun : parseOther A M content (parseValueAt A M content levels) item p =
          some (none, p) := by
        rw [parseOther, hacc]
        rfl
      exact Attempt.meets_of_gaveUp hrun (h.stopped rfl)
  | cons c r =>
      rw [Attempt.Meets, parseOther_eq _ item hA h]
      dsimp only
      by_cases hquote : c = 34
      · rw [if_pos hquote, if_pos hquote]
        exact parseStringAt_value hA hempty h
      rw [if_neg hquote, if_neg hquote]
      by_cases hnumber : c = 45 ∨ isDigit c
      · rw [if_pos hnumber, if_pos hnumber]
        exact parseNumberAt_value hA h
      rw [if_neg hnumber, if_neg hnumber]
      by_cases hbracket : c = 91
      · rw [if_pos hbracket, if_pos hbracket]
        exact harray p ids r item hempty (hbracket ▸ h)
      rw [if_neg hbracket, if_neg hbracket]
      by_cases hbrace : c = 123
      · rw [if_pos hbrace, if_pos hbrace]
        exact hobject p ids r item hempty (hbrace ▸ h)
      rw [if_neg hbrace, if_neg hbrace]
      exact h.stopped rfl

theorem parseValue_nil (levels : ℕ) : parseValue levels [] = none := by
  cases levels with
  | zero => rfl
  | succ levels => rfl

/-- `parse_value`, with so many levels of nesting left. -/
theorem parseValueAt_parses (hA : content.length ≤ A.ptrdiffMax) {levels depth : ℕ}
    (hlevels : depth + levels = nestingLimit) :
    ParsesValue M content depth (parseValueAt A M content (levels + 1)) (parseValue levels) := by
  induction levels generalizing depth with
  | zero =>
      exact parseValueAt_step hA (parseArrayAt_limit (by omega)) (parseObjectAt_limit (by omega))
  | succ levels ih =>
      have hpv := ih (show depth + 1 + levels = nestingLimit by omega)
      exact parseValueAt_step hA
        (parseArrayAt_opened hA hpv (parseValue_shrinks levels) (parseValue_nil levels) (by omega))
        (parseObjectAt_opened hA hpv (parseValue_shrinks levels) (by omega))

/-! ### Texts -/

section Texts

variable {text behind : List UInt8} {v : Json} {required : Bool}

theorem parseWithLengthOpts_bad
    (h : parseValue nestingLimit (skipWhitespace (skipUtf8Bom text)) = none) :
    parseWithLengthOpts required text = none := by
  rw [parseWithLengthOpts, h, Option.bind_none]

theorem parseWithLengthOpts_ended
    (h : parseValue nestingLimit (skipWhitespace (skipUtf8Bom text)) = some (v, behind))
    (hend : required = true → ∃ r, skipWhitespace behind = 0 :: r) :
    parseWithLengthOpts required text = some v := by
  rw [parseWithLengthOpts, h, Option.bind_some]
  cases required with
  | false => rfl
  | true =>
      obtain ⟨r, hr⟩ := hend rfl
      dsimp only
      rw [if_pos rfl, hr]
      rfl

theorem parseWithLengthOpts_unended
    (h : parseValue nestingLimit (skipWhitespace (skipUtf8Bom text)) = some (v, behind))
    (hrequired : required = true) (hend : ∀ r, skipWhitespace behind ≠ 0 :: r) :
    parseWithLengthOpts required text = none := by
  rw [parseWithLengthOpts, h, Option.bind_some]
  dsimp only
  rw [if_pos hrequired]
  cases hnext : skipWhitespace behind with
  | nil => rfl
  | cons b r =>
      dsimp only
      rw [if_neg fun hb => hend r (by rw [hnext, hb])]

end Texts

theorem checkTerminator_meets {bad : Prop} (required : Bool) (hA : content.length ≤ A.ptrdiffMax)
    (h : Stands content p depth ids rest)
    (hbad : required = true → (∀ r, skipWhitespace rest ≠ 0 :: r) → bad) :
    (checkTerminator A content required).Meets p
      (fun _ p' => (required = true → ∃ r, skipWhitespace rest = 0 :: r) ∧ p'.heap.InUse ids)
      (Stopped M ids bad) := by
  cases required with
  | false => exact Attempt.meets_pure ⟨fun hfalse => absurd hfalse (by decide), h.inUse⟩
  | true =>
      rw [checkTerminator, if_pos rfl]
      refine skip_meets hA h fun q hq => ?_
      refine (expect_meets hA 0 hq (hbad rfl)).mono ?_ fun _ hstop => hstop
      rintro _ _ ⟨rfl, hr⟩
      exact ⟨fun _ => hr, hq.inUse⟩

theorem parseRoot_meets (hA : content.length ≤ A.ptrdiffMax) (hempty : item.Empty)
    (hoffset : p.offset = 0) (h : Stands content p 0 (item.ids ++ ids) rest) :
    (parseRoot A M content item).Meets p
      (Parsed content 0 item ids (parseValue nestingLimit (skipWhitespace (skipUtf8Bom rest))))
      (Stopped M (item.ids ++ ids)
        (parseValue nestingLimit (skipWhitespace (skipUtf8Bom rest)) = none)) := by
  obtain ⟨q, hbom, hq⟩ := bufferSkipUtf8Bom_eq hA h hoffset
  refine Attempt.Meets.bind (Q := fun _ p' => q = p') (Attempt.meets_of_result hbom rfl) ?_
  rintro _ _ rfl
  refine skip_meets hA hq fun q' hq' => ?_
  exact parseValueAt_parses hA (Nat.zero_add _) _ _ _ _ hempty hq'

theorem parseWithLengthOptsAt_meets {heap : Heap} (required : Bool)
    (hA : content.length ≤ A.ptrdiffMax) (hheap : heap.InUse ids) :
    (parseWithLengthOptsAt A M content required).Meets ⟨0, 0, heap⟩
      (fun item p' => ∃ v, parseWithLengthOpts required content = some v ∧ Represents v item ∧
        p'.heap.InUse (item.ids ++ ids))
      (Stopped M ids (parseWithLengthOpts required content = none)) := by
  have hstart : Stands content ⟨0, 0, heap⟩ 0 ids content :=
    ⟨Nat.zero_le _, List.drop_zero, rfl, hheap⟩
  unfold parseWithLengthOptsAt
  by_cases hnil : content = []
  · rw [if_pos hnil]
    refine Attempt.meets_giveUp (hstart.stopped (parseWithLengthOpts_bad ?_))
    rw [hnil]
    exact parseValue_nil _
  rw [if_neg hnil]
  refine (newItem_meets _ hstart).bind ?_
  rintro root q ⟨hempty, -, hoffset, hq⟩
  refine (meets_deleteAll (meets_stopped (parseRoot_meets hA hempty hoffset hq)
    parseWithLengthOpts_bad) (perm_concat [] root ids)).bind ?_
  rintro item q' ⟨v, behind, hparse, hrep, -, hq'⟩
  refine (meets_deleteAll (checkTerminator_meets required hA hq' fun hrequired hend =>
    parseWithLengthOpts_unended hparse hrequired hend) (perm_concat [] item ids)).bind ?_
  rintro _ p' ⟨hend, hinUse⟩
  exact Attempt.meets_pure ⟨v, parseWithLengthOpts_ended hparse hend, hrep, hinUse⟩

/-- `cJSON_ParseWithLengthOpts` on memory. No byte outside of the text or of a block is
touched and no block is freed twice. What it returns is the tree of the text, and
`cJSON_Delete` frees all that was allocated for it; where it fails nothing is left, and
with enough memory it fails on the texts the parser rejects only. -/
theorem parseWithLengthOptsAt_refines (A : Arch) (M : Allocator) (content : List UInt8)
    (required : Bool) (heap : Heap) (ids : List ℕ) (hA : content.length ≤ A.ptrdiffMax)
    (hheap : heap.InUse ids) :
    ∃ result p, parseWithLengthOptsAt A M content required ⟨0, 0, heap⟩ = some (result, p) ∧
      (∀ item, result = some item →
        ∃ v, parseWithLengthOpts required content = some v ∧ Represents v item ∧
          p.heap.InUse (item.ids ++ ids) ∧
          ∃ heap', deleteItems [item] p.heap = some heap' ∧ heap'.InUse ids) ∧
      (result = none → p.heap.InUse ids) ∧
      (M.Ample → (result = none ↔ parseWithLengthOpts required content = none)) := by
  obtain ⟨result, p, hrun, hsome, hnone⟩ :=
    (parseWithLengthOptsAt_meets (M := M) required hA hheap).exists
  refine ⟨result, p, hrun, ?_, fun hr => (hnone hr).1, fun hample =>
    ⟨fun hr => (hnone hr).2 hample, ?_⟩⟩
  · intro item hitem
    obtain ⟨v, hparse, hrep, hinUse⟩ := hsome item hitem
    refine ⟨v, hparse, hrep, hinUse, ?_⟩
    exact deleteItems_inUse [item] (by rwa [itemIds, itemIds, List.append_nil])
  · intro hbad
    cases result with
    | none => rfl
    | some item =>
        obtain ⟨v, hparse, -, -⟩ := hsome item rfl
        rw [hbad] at hparse
        cases hparse

/-- An object with an array in it. -/
theorem parseWithLengthOptsAt_refines_object :
    ∃ item p heap, parseWithLengthOptsAt .lp64 plenty.memory (ascii "\x7b\"a\":[true]\x7d" ++ [0]) true
        ⟨0, 0, ⟨0, []⟩⟩ = some (some item, p) ∧
      Represents (.object [(ascii "a", .array [.bool true])]) item ∧ p.heap.InUse item.ids ∧
      deleteItems [item] p.heap = some heap ∧ heap.live = [] := by
  have htext : parseWithLengthOpts true (ascii "\x7b\"a\":[true]\x7d" ++ [0]) =
      some (.object [(ascii "a", .array [.bool true])]) := by rfl
  obtain ⟨result, p, hrun, hsome, -, hbad⟩ := parseWithLengthOptsAt_refines .lp64 plenty.memory
    (ascii "\x7b\"a\":[true]\x7d" ++ [0]) true ⟨0, []⟩ [] (by decide) (Heap.inUse_nil 0)
  have hne : result ≠ none := by
    rw [Ne, hbad fun turn => Option.some_ne_none _, htext]
    exact Option.some_ne_none _
  obtain ⟨item, rfl⟩ := Option.ne_none_iff_exists'.mp hne
  obtain ⟨v, hparse, hrep, hinUse, heap, hdelete, hheap⟩ := hsome item rfl
  rw [htext] at hparse
  cases hparse
  rw [List.append_nil] at hinUse
  exact ⟨item, p, heap, hrun, hrep, hinUse, hdelete, hheap.live_eq_nil⟩

end Savvy.CJson
