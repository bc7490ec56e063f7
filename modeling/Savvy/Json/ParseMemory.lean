import Savvy.Json.StringMemory

/-!
The parse buffer against the parser. Every function is judged from a place of the text:
it either parses what the function on lists parses, with the blocks of its result in use
besides those that were, or it stops with just these. A value is by induction on the
levels, and a loop on the bytes that are left.
-/

namespace Savvy.CJson

open Kit

/-! ### Items -/

def stringIds (b : Option HeapBlock) : List ℕ := (b.map (·.id)).toList

mutual

def Item.ids : Item → List ℕ
  | ⟨block, _, valuestring, _, _, string, child⟩ =>
      itemIds child ++ (stringIds valuestring ++ (stringIds string ++ [block.id]))

def itemIds : List Item → List ℕ
  | [] => []
  | item :: next => item.ids ++ itemIds next

end

def Item.contents (item : Item) : List ℕ := itemIds item.child ++ stringIds item.valuestring

mutual

/-- The item in memory is that of a tree. A string is terminated in its block. -/
def Represents : Json → Item → Prop
  | .null, item => item.type = .null
  | .bool b, item => item.type = if b then .true else .false
  | .number d, item =>
      item.type = .number ∧ item.valuedouble = d ∧ item.valueint = d.valueint
  | .string s, item =>
      item.type = .string ∧ ∃ b, item.valuestring = some b ∧ s ++ [0] <+: b.bytes
  | .array items, item => item.type = .array ∧ RepresentsItems items item.child
  | .object members, item => item.type = .object ∧ RepresentsMembers members item.child

def RepresentsItems : List Json → List Item → Prop
  | [], items => items = []
  | v :: vs, items => ∃ item next, items = item :: next ∧ item.string = none ∧
      Represents v item ∧ RepresentsItems vs next

def RepresentsMembers : List (List UInt8 × Json) → List Item → Prop
  | [], items => items = []
  | (name, v) :: ms, items => ∃ item next, items = item :: next ∧
      (∃ b, item.string = some b ∧ name ++ [0] <+: b.bytes) ∧ Represents v item ∧
        RepresentsMembers ms next

end

variable {A : Arch} {M : Allocator} {content : List UInt8} {p : ParseBuffer} {depth : ℕ}
  {ids ids' : List ℕ} {rest : List UInt8} {F : ParseBuffer → Prop}

theorem itemIds_append (items items' : List Item) :
    itemIds (items ++ items') = itemIds items ++ itemIds items' := by
  induction items with
  | nil => rfl
  | cons item items ih => simp only [List.cons_append, itemIds, ih, List.append_assoc]

theorem Item.ids_eq (item : Item) :
    item.ids = item.contents ++ (stringIds item.string ++ [item.block.id]) := by
  obtain ⟨block, type, valuestring, valueint, valuedouble, string, child⟩ := item
  simp only [Item.ids, Item.contents, List.append_assoc]

theorem freeString_inUse {b : Option HeapBlock} {heap : Heap}
    (h : heap.InUse (stringIds b ++ ids)) :
    ∃ heap', freeString b heap = some heap' ∧ heap'.InUse ids := by
  cases b with
  | none => exact ⟨heap, rfl, h⟩
  | some b => exact Heap.InUse.free h

mutual

/-- Deleting an item frees its blocks and no others. -/
theorem deleteItem_inUse (item : Item) {ids : List ℕ} {heap : Heap}
    (h : heap.InUse (item.ids ++ ids)) :
    ∃ heap', deleteItem item heap = some heap' ∧ heap'.InUse ids := by
  obtain ⟨block, type, valuestring, valueint, valuedouble, string, child⟩ := item
  simp only [Item.ids, List.append_assoc] at h
  obtain ⟨h1, hr1, hu1⟩ := deleteItems_inUse child h
  obtain ⟨h2, hr2, hu2⟩ := freeString_inUse hu1
  obtain ⟨h3, hr3, hu3⟩ := freeString_inUse hu2
  obtain ⟨h4, hr4, hu4⟩ := Heap.InUse.free hu3
  exact ⟨h4, by simp only [deleteItem, hr1, hr2, hr3, hr4, Option.bind_some], hu4⟩

theorem deleteItems_inUse (items : List Item) {ids : List ℕ} {heap : Heap}
    (h : heap.InUse (itemIds items ++ ids)) :
    ∃ heap', deleteItems items heap = some heap' ∧ heap'.InUse ids := by
  cases items with
  | nil => exact ⟨heap, rfl, h⟩
  | cons item next =>
      simp only [itemIds, List.append_assoc] at h
      obtain ⟨h1, hr1, hu1⟩ := deleteItem_inUse item h
      obtain ⟨h2, hr2, hu2⟩ := deleteItems_inUse next hu1
      exact ⟨h2, by simp only [deleteItems, hr1, hr2, Option.bind_some], hu2⟩

end

/-- Deleting what was parsed so far leaves the other blocks. -/
theorem meets_deleteAll {α : Type} {m : Parsing α} {Q : α → ParseBuffer → Prop} {bad : Prop}
    {items : List Item} (h : m.Meets p Q (Stopped M ids' bad))
    (hids : ids'.Perm (itemIds items ++ ids)) :
    (m.orDo (deleteAll items)).Meets p Q (Stopped M ids bad) := by
  refine h.orDo ?_
  rintro p' ⟨hheap, hbad⟩
  obtain ⟨heap, hr, hheap'⟩ := deleteItems_inUse items (hheap.of_perm hids)
  exact ⟨{ p' with heap := heap }, by rw [deleteAll, hr]; rfl, hheap', hbad⟩

/-! ### The buffer -/

theorem Stands.length_eq (h : Stands content p depth ids rest) :
    p.offset + rest.length = content.length := by
  have hcount := congrArg List.length h.rest_eq
  have hle := h.inside
  rw [List.length_drop] at hcount
  omega

theorem Stands.of_perm (h : Stands content p depth ids rest) (hids : ids.Perm ids') :
    Stands content p depth ids' rest :=
  ⟨h.inside, h.rest_eq, h.depth_eq, h.inUse.of_perm hids⟩

theorem Stands.moved (front : List UInt8) (h : Stands content p depth ids (front ++ rest))
    {offset : ℕ} (hoffset : offset = p.offset + front.length) :
    Stands content { p with offset := offset } depth ids rest := by
  have hlen := h.length_eq
  rw [List.length_append] at hlen
  refine ⟨?_, ?_, h.depth_eq, h.inUse⟩
  · dsimp only
    omega
  · dsimp only
    rw [hoffset]
    exact drop_of_drop h.rest_eq

/-- An index into the text is far from the end of the address space. -/
theorem add_offset (hA : content.length ≤ A.ptrdiffMax) (h : Stands content p depth ids rest)
    {n : ℕ} (hn : n ≤ A.ptrdiffMax) : A.add p.offset n = p.offset + n := by
  have hbound := A.two_mul_ptrdiffMax_lt
  have hle := h.inside
  exact A.add_of_lt (by omega)

theorem le_ptrdiffMax (A : Arch) : 2 ^ 31 - 1 ≤ A.ptrdiffMax := by
  have hpow : 2 ^ 31 ≤ 2 ^ (A.width - 1) :=
    Nat.pow_le_pow_right (by decide) (by have := A.width_ge; omega)
  rw [Arch.ptrdiffMax]
  omega

theorem canAccess_eq (hA : content.length ≤ A.ptrdiffMax) (h : Stands content p depth ids rest)
    {i : ℕ} (hi : i ≤ A.ptrdiffMax) : canAccess A content i p = decide (i < rest.length) := by
  have hlen := h.length_eq
  rw [canAccess, add_offset hA h hi]
  congr 1
  rw [eq_iff_iff]
  omega

theorem forward_meets (front : List UInt8) {n : ℕ} {β : Type} {k : Unit → Parsing β}
    {Q : β → ParseBuffer → Prop} (hA : content.length ≤ A.ptrdiffMax)
    (h : Stands content p depth ids (front ++ rest)) (hn : n = front.length)
    (hk : ∀ p', Stands content p' depth ids rest → (k ()).Meets p' Q F) :
    (forward A n >>= k).Meets p Q F := by
  have hlen := h.length_eq
  rw [List.length_append] at hlen
  refine Attempt.meets_change_bind rfl (hk _ (h.moved _ ?_))
  rw [add_offset hA h (by omega), hn]

theorem currentIs_eq (hA : content.length ≤ A.ptrdiffMax) (b : UInt8)
    (h : Stands content p depth ids rest) :
    currentIs A content b p = some (some (rest.head? == some b), p) := by
  have hacc := canAccess_eq hA h (i := 0) (Nat.zero_le _)
  rw [currentIs, hacc]
  cases rest with
  | nil => rfl
  | cons c r =>
      have hc : content[p.offset]? = some c := getElem?_of_drop h.rest_eq 0
      simp [hc]

theorem currentIs_meets {β : Type} {k : Bool → Parsing β} {Q : β → ParseBuffer → Prop}
    (hA : content.length ≤ A.ptrdiffMax) (b : UInt8) (h : Stands content p depth ids rest)
    (hk : (k (rest.head? == some b)).Meets p Q F) :
    (currentIs A content b >>= k).Meets p Q F := by
  refine Attempt.Meets.bind (Q := fun c p' => c = (rest.head? == some b) ∧ p = p')
    (Attempt.meets_of_result (currentIs_eq hA b h) ⟨rfl, rfl⟩) ?_
  rintro _ _ ⟨rfl, rfl⟩
  exact hk

theorem expect_meets (hA : content.length ≤ A.ptrdiffMax) (b : UInt8) {bad : Prop}
    (h : Stands content p depth ids rest) (hbad : (∀ r, rest ≠ b :: r) → bad) :
    (expect A content b).Meets p (fun _ p' => p = p' ∧ ∃ r, rest = b :: r) (Stopped M ids bad) := by
  refine currentIs_meets hA b h ?_
  cases rest with
  | nil => exact Attempt.meets_giveUp (h.stopped (hbad (by simp)))
  | cons c r =>
      by_cases hc : c = b
      · rw [if_pos (by simp [hc])]
        exact Attempt.meets_pure ⟨rfl, r, by rw [hc]⟩
      · rw [if_neg (by simp [hc])]
        exact Attempt.meets_giveUp (h.stopped (hbad (by simp [hc])))

theorem skipLoop_eq (hA : content.length ≤ A.ptrdiffMax) {turns : ℕ}
    (h : Stands content p depth ids rest) (hturns : rest.length < turns) :
    ∃ q, skipLoop A content turns p = some q ∧
      Stands content q depth ids (rest.dropWhile (· ≤ 32)) := by
  induction turns generalizing p rest with
  | zero => omega
  | succ turns ih =>
      have hacc := canAccess_eq hA h (i := 0) (Nat.zero_le _)
      rw [skipLoop, hacc]
      cases rest with
      | nil => exact ⟨p, rfl, h⟩
      | cons c r =>
          have hc : content[p.offset]? = some c := getElem?_of_drop h.rest_eq 0
          have hmove : A.add p.offset 1 = p.offset + [c].length :=
            add_offset hA h (Nat.le_trans (by decide) (le_ptrdiffMax A))
          rw [if_pos (by simp), hc, Option.bind_some]
          by_cases hspace : c ≤ 32
          · rw [if_pos hspace, List.dropWhile_cons_of_pos (by simpa using hspace)]
            exact ih (h.moved [c] hmove) (by simpa using hturns)
          · rw [if_neg hspace, List.dropWhile_cons_of_neg (by simpa using hspace)]
            exact ⟨p, rfl, h⟩

theorem bufferSkipWhitespace_eq (hA : content.length ≤ A.ptrdiffMax)
    (h : Stands content p depth ids rest) :
    ∃ q, bufferSkipWhitespace A content p = some (some (), q) ∧
      Stands content q depth ids (skipWhitespace rest) := by
  have hacc := canAccess_eq hA h (i := 0) (Nat.zero_le _)
  have hlen := h.length_eq
  cases rest with
  | nil => exact ⟨p, by simp [bufferSkipWhitespace, Attempt.change, hacc], h⟩
  | cons c r =>
      obtain ⟨q, hq, hstands⟩ := skipLoop_eq hA h
        (show (c :: r).length < content.length + 1 by omega)
      have hrun : bufferSkipWhitespace A content p = some (some (),
          if q.offset = content.length then { q with offset := A.sub q.offset 1 } else q) := by
        simp [bufferSkipWhitespace, Attempt.change, hacc, hq]
      refine ⟨_, hrun, ?_⟩
      have hend := hstands.length_eq
      unfold skipWhitespace
      cases hdrop : (c :: r).dropWhile (· ≤ 32) with
      | nil =>
          -- All of it is whitespace: one step back.
          rw [hdrop, List.length_nil] at hend
          have hbound := A.two_mul_ptrdiffMax_lt
          rw [List.length_cons] at hlen
          have hback : A.sub q.offset 1 = q.offset - 1 := A.sub_of_le (by omega) (by omega)
          rw [if_pos (by omega), hback]
          refine ⟨by dsimp only; omega, ?_, hstands.depth_eq, hstands.inUse⟩
          dsimp only
          rw [← h.rest_eq, List.length_drop, List.drop_drop]
          congr 1
          omega
      | cons b s =>
          rw [hdrop] at hstands hend
          rw [List.length_cons] at hend
          rw [if_neg (by omega)]
          exact hstands

theorem skip_meets {β : Type} {k : Unit → Parsing β} {Q : β → ParseBuffer → Prop}
    (hA : content.length ≤ A.ptrdiffMax) (h : Stands content p depth ids rest)
    (hk : ∀ p', Stands content p' depth ids (skipWhitespace rest) → (k ()).Meets p' Q F) :
    (bufferSkipWhitespace A content >>= k).Meets p Q F := by
  obtain ⟨q, hq, hstands⟩ := bufferSkipWhitespace_eq hA h
  refine Attempt.Meets.bind (Q := fun _ p' => Stands content p' depth ids (skipWhitespace rest))
    (Attempt.meets_of_result hq hstands) fun _ p' hp' => hk p' hp'

/-! ### Words -/

theorem slice_offset (h : Stands content p depth ids rest) (n : ℕ) :
    slice content p.offset (p.offset + n) = rest.take n := by
  rw [slice, List.drop_take, h.rest_eq, Nat.add_sub_cancel_left]

theorem strncmpHere_eq {word : List UInt8} (h : Stands content p depth ids rest)
    (hword : word.length ≤ rest.length) :
    strncmpHere content word p = some (rest.take word.length == word) := by
  have hlen := h.length_eq
  rw [strncmpHere, if_pos (by omega), slice_offset h]

theorem startsWith_eq (hA : content.length ≤ A.ptrdiffMax) {word : List UInt8}
    (hword : word.length ≤ A.ptrdiffMax) (h : Stands content p depth ids rest) :
    startsWith A content word p = some (some (word.isPrefixOf rest), p) := by
  have hlen := h.length_eq
  have hread : canRead A content word.length p = decide (word.length ≤ rest.length) := by
    rw [canRead, add_offset hA h hword]
    congr 1
    rw [eq_iff_iff]
    omega
  rw [startsWith, hread]
  by_cases hle : word.length ≤ rest.length
  · rw [if_pos (by simpa using hle), strncmpHere_eq h hle, Option.map_some]
    congr 3
    rw [Bool.eq_iff_iff, beq_iff_eq, List.isPrefixOf_iff_prefix, List.prefix_iff_eq_take]
    exact eq_comm
  · rw [if_neg (by simpa using hle)]
    congr 3
    rw [eq_comm, ← Bool.not_eq_true, List.isPrefixOf_iff_prefix]
    exact fun hprefix => hle hprefix.length_le

theorem startsWith_meets {β : Type} {k : Bool → Parsing β} {Q : β → ParseBuffer → Prop}
    (hA : content.length ≤ A.ptrdiffMax) {word : List UInt8} (hword : word.length ≤ 5)
    (h : Stands content p depth ids rest) (hk : (k (word.isPrefixOf rest)).Meets p Q F) :
    (startsWith A content word >>= k).Meets p Q F := by
  have hle : word.length ≤ A.ptrdiffMax :=
    Nat.le_trans hword (Nat.le_trans (by decide) (le_ptrdiffMax A))
  refine Attempt.Meets.bind (Q := fun c p' => c = word.isPrefixOf rest ∧ p = p')
    (Attempt.meets_of_result (startsWith_eq hA hle h) ⟨rfl, rfl⟩) ?_
  rintro _ _ ⟨rfl, rfl⟩
  exact hk

theorem bufferSkipUtf8Bom_eq (hA : content.length ≤ A.ptrdiffMax)
    (h : Stands content p depth ids rest) (hstart : p.offset = 0) :
    ∃ q, bufferSkipUtf8Bom A content p = some (some (), q) ∧
      Stands content q depth ids (skipUtf8Bom rest) := by
  have hmax := le_ptrdiffMax A
  have hacc := canAccess_eq hA h (i := 4) (Nat.le_trans (by decide) hmax)
  rw [bufferSkipUtf8Bom, if_neg (by simpa using hstart), hacc]
  by_cases hlong : 4 < rest.length
  · rw [if_pos (by simpa using hlong),
      strncmpHere_eq h (show [0xEF, 0xBB, 0xBF].length ≤ _ from Nat.le_trans (by decide) hlong.le),
      Option.map_some]
    refine ⟨_, rfl, ?_⟩
    by_cases hbom : rest.take 3 = [0xEF, 0xBB, 0xBF]
    · rw [if_pos (by simpa using hbom), skipUtf8Bom, if_pos ⟨hlong, hbom⟩]
      have hsplit : rest.take 3 ++ rest.drop 3 = rest := List.take_append_drop ..
      refine Stands.moved (rest.take 3) (by rwa [hsplit]) ?_
      rw [add_offset hA h (Nat.le_trans (by decide) hmax), List.length_take]
      omega
    · rw [if_neg (by simpa using hbom), skipUtf8Bom, if_neg fun hboth => hbom hboth.2]
      exact h
  · rw [if_neg (by simpa using hlong), skipUtf8Bom, if_neg fun hboth => hlong hboth.1]
    exact ⟨p, rfl, h⟩

/-! ### Numbers -/

theorem numberLength_eq (hA : content.length ≤ A.ptrdiffMax)
    (h : Stands content p depth ids rest) {turns i : ℕ} (hi : i ≤ rest.length)
    (hturns : rest.length < i + turns) :
    numberLength A content turns i p =
      some (i + ((rest.drop i).takeWhile isNumberByte).length) := by
  have hlen := h.length_eq
  induction turns generalizing i with
  | zero => omega
  | succ turns ih =>
      rw [numberLength, canAccess_eq hA h (by omega)]
      by_cases hend : rest.length = i
      · rw [if_neg (by simp [hend]), List.drop_eq_nil_of_le (by omega)]
        rfl
      have hlt : i < rest.length := by omega
      have hb : content[p.offset + i]? = some rest[i] := by
        rw [getElem?_of_drop h.rest_eq, List.getElem?_eq_getElem hlt]
      rw [if_pos (by simpa using hlt), hb, Option.bind_some, List.drop_eq_getElem_cons hlt]
      by_cases hdigit : isNumberByte rest[i]
      · rw [if_pos hdigit, ih (show i + 1 ≤ _ from hlt) (by omega), List.takeWhile_cons_of_pos hdigit, List.length_cons]
        congr 1
        omega
      · rw [if_neg hdigit, List.takeWhile_cons_of_neg hdigit]
        rfl

theorem copyNumber_eq {b : HeapBlock} {text behind : List UInt8}
    (h : Stands content p depth ids (text ++ behind)) (hb : b.bytes.length = text.length + 1) :
    copyNumber content b text.length p = some (some ⟨b.id, text ++ [0]⟩, p) := by
  have hlen := h.length_eq
  rw [List.length_append] at hlen
  have hslice := slice_offset h text.length
  have hcopy : copy ([] ++ b.bytes) 0 content p.offset text.length = _ :=
    copy_append rfl (by omega) (by omega)
  rw [hslice, List.take_left, List.nil_append, List.nil_append] at hcopy
  obtain ⟨x, hx⟩ : ∃ x, b.bytes.drop text.length = [x] := by
    apply List.length_eq_one_iff.mp
    rw [List.length_drop]
    omega
  have hstore : store (text ++ [x]) text.length 0 = some (text ++ [0] ++ [x].drop 1) :=
    store_append 0 rfl (by simp)
  simp only [copyNumber, hcopy, hx, hstore, Option.bind_some, Option.map_some, List.drop_one,
    List.tail_cons, List.append_nil]

theorem zero_notMem_number (rest : List UInt8) : 0 ∉ rest.takeWhile isNumberByte := by
  intro hmem
  exact absurd (List.mem_takeWhile_imp hmem) (by decide)

theorem parseNumber_none (h : strtod (rest.takeWhile isNumberByte) = none) :
    parseNumber rest = none := by
  rw [parseNumber, h]
  rfl

theorem parseNumber_some {d : Double} {behind : List UInt8}
    (h : strtod (rest.takeWhile isNumberByte) = some (d, behind)) :
    parseNumber rest = some (.number d,
      rest.drop ((rest.takeWhile isNumberByte).length - behind.length)) := by
  rw [parseNumber, h]
  rfl

theorem parseNumberAt_meets (item : Item) (hA : content.length ≤ A.ptrdiffMax)
    (h : Stands content p depth ids rest) :
    (parseNumberAt A M content item).Meets p
      (fun item' p' => ∃ d behind, parseNumber rest = some (.number d, behind) ∧
        item' = { item with type := .number, valueint := d.valueint, valuedouble := d } ∧
        Stands content p' depth ids behind)
      (Stopped M ids (parseNumber rest = none)) := by
  have hlen := h.length_eq
  obtain ⟨text, htext⟩ : ∃ text, rest.takeWhile isNumberByte = text := ⟨_, rfl⟩
  have hsplit : rest = text ++ rest.dropWhile isNumberByte := by
    rw [← htext, List.takeWhile_append_dropWhile]
  have hle : text.length ≤ rest.length := by
    rw [← htext]
    exact (List.takeWhile_prefix _).length_le
  have hzero : 0 ∉ text := by
    rw [← htext]
    exact zero_notMem_number rest
  have hcount := numberLength_eq hA h (Nat.zero_le _)
    (show rest.length < 0 + (content.length + 1) by omega)
  rw [List.drop_zero, htext, Nat.zero_add] at hcount
  refine Attempt.Meets.bind (Q := fun n p' => n = text.length ∧ p = p')
    (Attempt.meets_of_result (by rw [hcount]; rfl) ⟨rfl, rfl⟩) ?_
  rintro _ _ ⟨rfl, rfl⟩
  have hadd : A.add text.length 1 = text.length + 1 := by
    have hbound := A.two_mul_ptrdiffMax_lt
    have hmax := le_ptrdiffMax A
    exact A.add_of_lt (by omega)
  rw [hadd]
  refine (allocateBytes_meets _ _ h).bind ?_
  rintro b q ⟨hb, -, hq⟩
  refine Attempt.Meets.bind (Q := fun b' p' => b' = ⟨b.id, text ++ [0]⟩ ∧ q = p')
    (Attempt.meets_of_result (copyNumber_eq (hsplit ▸ hq) hb) ⟨rfl, rfl⟩) ?_
  rintro _ _ ⟨rfl, rfl⟩
  obtain ⟨heap, hfree, hheap⟩ := Heap.InUse.free (b := ⟨b.id, text ++ [0]⟩) hq.inUse
  have hcstr : cstr (text ++ [0]) = text := cstr_append_zero hzero []
  cases hstrtod : strtod text with
  | none =>
      have hrun : readNumber A ⟨b.id, text ++ [0]⟩ item q = some (none, { q with heap := heap }) := by
        simp only [readNumber, hfree, hcstr, hstrtod, Option.map_some]
        simp
      exact Attempt.meets_of_gaveUp hrun ⟨hheap, fun _ => parseNumber_none (by rw [htext, hstrtod])⟩
  | some found =>
      obtain ⟨d, behind⟩ := found
      have hrun : readNumber A ⟨b.id, text ++ [0]⟩ item q =
          some (some { item with type := .number, valueint := d.valueint, valuedouble := d },
            { q with offset := A.add q.offset (text.length - behind.length), heap := heap }) := by
        simp only [readNumber, hfree, hcstr, hstrtod, Option.map_some]
        simp
      have hparse := parseNumber_some ((congrArg strtod htext).trans hstrtod)
      rw [htext] at hparse
      refine Attempt.meets_of_result hrun ⟨d, _, hparse, rfl, ?_⟩
      have hmoved : Stands content
          { q with offset := A.add q.offset (text.length - behind.length) } depth (b.id :: ids)
          (rest.drop (text.length - behind.length)) := by
        refine Stands.moved (rest.take (text.length - behind.length))
          (by rwa [List.take_append_drop]) ?_
        rw [add_offset hA hq (by omega), List.length_take]
        omega
      exact ⟨hmoved.inside, hmoved.rest_eq, hmoved.depth_eq, hheap⟩

end Savvy.CJson
