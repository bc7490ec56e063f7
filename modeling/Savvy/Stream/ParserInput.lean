import Savvy.Json.RoundTrip
import Savvy.Stream.ResultPolicy

/-!
`make_parser_input` on memory. A read outside of the body and a write outside of
the allocated block are faults. The function puts the bareword key of a response
into quotation marks and leaves every other body as it is; a text that the
strict parser accepts has no such key.
-/

namespace Savvy.Stream

open CJson Kit

/-! ### The code -/

def skipWsAt (body : List UInt8) (i : ℕ) : Option ℕ :=
  if i < body.length then
    body[i]?.bind fun b => if isWs b then skipWsAt body (i + 1) else some i
  else some i
termination_by body.length - i

/-- `strncmp(body + i, key, strlen(key)) == 0`. -/
def strncmpAt (body : List UInt8) : ℕ → List UInt8 → Option Bool
  | _, [] => some true
  | i, k :: key => body[i]?.bind fun b => if b = k then strncmpAt body (i + 1) key else some false

/-- `find_unquoted_result_key`; a fault is `none`. -/
def findUnquotedResultKeyAt (A : Arch) (body : List UInt8) : Option (Option (ℕ × ℕ)) :=
  (skipWsAt body 0).bind fun i =>
    if body.length ≤ i then some none
    else
      body[i]?.bind fun b =>
        if b ≠ 123 then some none
        else
          (skipWsAt body (A.add i 1)).bind fun i =>
            if A.sub body.length i < 6 then some none
            else
              (strncmpAt body i (ascii "result")).bind fun same =>
                if !same then some none
                else
                  (skipWsAt body (A.add i 6)).bind fun j =>
                    if body.length ≤ j then some none
                    else
                      body[j]?.bind fun b =>
                        if b ≠ 58 then some none else some (some (i, A.add i 6))

/-- `malloc`: a block of the size asked for, with anything in it, or none. -/
structure Malloc where
  block : ℕ → Option (List UInt8)
  length_block : ∀ n bytes, block n = some bytes → bytes.length = n

/-- The copies of `make_parser_input` into the new block. -/
def copyQuoted (A : Arch) (body text : List UInt8) : Option (ℕ × ℕ) → Option (List UInt8)
  | some (keyStart, keyEnd) =>
      (copy text 0 body 0 keyStart).bind fun text =>
        (store text keyStart 34).bind fun text =>
          (copy text (A.add keyStart 1) body keyStart (A.sub keyEnd keyStart)).bind fun text =>
            (store text (A.add keyEnd 1) 34).bind fun text =>
              copy text (A.add keyEnd 2) body keyEnd (A.sub body.length keyEnd)
  | none => copy text 0 body 0 body.length

/-- `make_parser_input`: the block and the length it reports; a fault is
`none`. -/
def makeParserInputAt (A : Arch) (malloc : Malloc) (body : List UInt8) :
    Option (Except Status (List UInt8 × ℕ)) :=
  (findUnquotedResultKeyAt A body).bind fun key =>
    let extra := if key.isSome then 2 else 0
    if A.sub (A.sub (A.sizeBound - 1) extra) 1 < body.length then some (.error .overflow)
    else
      let parserLen := A.add body.length extra
      match malloc.block (A.add parserLen 1) with
      | none => some (.error .outOfMemory)
      | some text =>
          (copyQuoted A body text key).bind fun text =>
            (store text parserLen 0).map fun text => .ok (text, parserLen)

/-- `sensor_result_policy_on_response` from the input of the parser on; the status
of the parser decides whether its result is used. -/
def respondTo (p : ResultPolicy) (input : Option (Except Status (List UInt8 × ℕ))) :
    Option (ResultPolicy × List UInt8) :=
  input.bind fun
    | .error _ => some (p, [])
    | .ok (text, len) =>
        (dataResultParseInto text len 0).map fun (status, result) =>
          if status = .ok then p.onResult result else (p, [])

/-- `sensor_result_policy_on_response` on a body that is no null pointer. -/
def onResponseAt (A : Arch) (malloc : Malloc) (p : ResultPolicy) (body : List UInt8) :
    Option (ResultPolicy × List UInt8) :=
  if body.length = 0 then some (p, []) else respondTo p (makeParserInputAt A malloc body)

/-! ### The scanner -/

theorem skipWs_stop {body : List UInt8} {i : ℕ} (h : ∀ b ∈ body[i]?, isWs b = false) :
    skipWs body i = i := by
  have hnil : (body.drop i).takeWhile isWs = [] := by
    cases hdrop : body.drop i with
    | nil => rfl
    | cons b r =>
        have hb : body[i]? = some b := by
          rw [← List.head?_drop, hdrop]
          rfl
        rw [List.takeWhile_cons_of_neg]
        rw [h b hb]
        exact Bool.false_ne_true
  rw [skipWs, hnil]
  rfl

theorem skipWs_succ {body : List UInt8} {i : ℕ} {b : UInt8} (hb : body[i]? = some b)
    (hws : isWs b = true) : skipWs body (i + 1) = skipWs body i := by
  have hdrop : body.drop i = b :: body.drop (i + 1) := by
    obtain ⟨hi, rfl⟩ := List.getElem?_eq_some_iff.mp hb
    exact List.drop_eq_getElem_cons hi
  rw [skipWs, skipWs, hdrop, List.takeWhile_cons_of_pos hws, List.length_cons]
  omega

/-- The loop reads the white space and the byte behind it, and nothing outside of
the body. -/
theorem skipWsAt_eq (body : List UInt8) (i : ℕ) : skipWsAt body i = some (skipWs body i) := by
  fun_induction skipWsAt body i with
  | case1 i hi ih =>
      have hb := List.getElem?_eq_getElem hi
      rw [hb, Option.bind_some]
      split
      · next hws => rw [ih, skipWs_succ hb hws]
      · next hws =>
          rw [skipWs_stop]
          intro b hmem
          obtain rfl := Option.some.inj (hb.symm.trans hmem)
          exact Bool.not_eq_true _ ▸ hws
  | case2 i hi =>
      rw [skipWs_stop]
      rw [List.getElem?_eq_none (Nat.le_of_not_lt hi)]
      simp

theorem strncmpAt_eq {body key : List UInt8} {i : ℕ} (h : i + key.length ≤ body.length) :
    strncmpAt body i key = some (decide (slice body i (i + key.length) = key)) := by
  induction key generalizing i with
  | nil => simp [strncmpAt]
  | cons k key ih =>
      rw [List.length_cons] at h
      have hi : i < body.length := by omega
      have hslice : slice body i (i + (key.length + 1)) =
          body[i] :: slice body (i + 1) (i + 1 + key.length) := by
        rw [slice, slice, Nat.add_right_comm i 1, Nat.add_assoc i,
          List.drop_eq_getElem_cons (by rw [List.length_take]; omega), List.getElem_take]
      rw [strncmpAt, List.getElem?_eq_getElem hi, Option.bind_some, ih (by omega), List.length_cons,
        hslice]
      by_cases hk : body[i] = k
      · simp [hk]
      · simp [hk]

theorem skipWs_le {body : List UInt8} {i : ℕ} (hi : i ≤ body.length) :
    skipWs body i ≤ body.length := by
  have hlen := (List.takeWhile_sublist isWs (l := body.drop i)).length_le
  rw [List.length_drop] at hlen
  rw [skipWs]
  omega

/-- A byte is compared where there is one. -/
theorem compareAt_eq {body : List UInt8} {j : ℕ} {c : UInt8} {x : Option (ℕ × ℕ)}
    {y : Option (Option (ℕ × ℕ))} (hy : body[j]? = some c → y = some x) :
    (if body.length ≤ j then some none
      else body[j]?.bind fun b => if b ≠ c then some none else y) =
    some (if body[j]? ≠ some c then none else x) := by
  by_cases hj : body.length ≤ j
  · rw [if_pos hj, List.getElem?_eq_none hj]
    simp
  · have hget := List.getElem?_eq_getElem (Nat.lt_of_not_le hj)
    rw [if_neg hj, hget, Option.bind_some]
    by_cases hc : body[j] = c
    · rw [if_neg (not_not.mpr hc), hc, hy (hget.trans (congrArg some hc))]
      simp
    · simp [hc]

/-- The scanner reads no byte outside of the body. -/
theorem findUnquotedResultKeyAt_eq {A : Arch} {body : List UInt8}
    (hlen : body.length < A.sizeBound) :
    findUnquotedResultKeyAt A body = some (findUnquotedResultKey body) := by
  have hkey : (ascii "result").length = 6 := by decide
  unfold findUnquotedResultKeyAt findUnquotedResultKey
  rw [skipWsAt_eq, Option.bind_some]
  apply compareAt_eq
  intro hbrace
  have hi := (List.getElem?_eq_some_iff.mp hbrace).1
  generalize skipWs body 0 = i at hi
  rw [A.add_of_lt (show i + 1 < A.sizeBound by omega), skipWsAt_eq, Option.bind_some]
  have hk := skipWs_le (show i + 1 ≤ body.length by omega)
  generalize skipWs body (i + 1) = k at hk
  rw [A.sub_of_le hk hlen]
  dsimp only
  by_cases hroom : body.length - k < 6
  · have hshort : slice body k (k + 6) ≠ ascii "result" := by
      intro heq
      have hlt := congrArg List.length heq
      rw [hkey, slice, List.length_drop, List.length_take] at hlt
      omega
    rw [if_pos hroom, if_pos hshort]
  · have hend : k + 6 ≤ body.length := by omega
    rw [if_neg hroom, strncmpAt_eq (by rw [hkey]; exact hend), Option.bind_some, hkey,
      A.add_of_lt (show k + 6 < A.sizeBound by omega)]
    by_cases heq : slice body k (k + 6) = ascii "result"
    · rw [if_neg (not_not.mpr heq), heq]
      simp only [decide_true, Bool.not_true, Bool.false_eq_true, if_false]
      rw [skipWsAt_eq, Option.bind_some]
      exact compareAt_eq fun _ => rfl
    · rw [if_pos heq]
      simp [heq]

/-! ### The key -/

/-- The body starts with a bareword key: `front` ends where the key starts, `back`
starts where it ends. -/
def BarewordAt (body front back : List UInt8) : Prop :=
  ∃ w1 w2 w3 rest, front = w1 ++ 123 :: w2 ∧ back = w3 ++ 58 :: rest ∧
    (∀ b ∈ w1 ++ w2 ++ w3, isWs b = true) ∧ body = front ++ ascii "result" ++ back

theorem BarewordAt.eq {body front back : List UInt8} (h : BarewordAt body front back) :
    body = front ++ ascii "result" ++ back := by
  obtain ⟨w1, w2, w3, rest, -, -, -, hbody⟩ := h
  exact hbody

theorem skipWs_of_eq {body done ws rest : List UInt8} {b : UInt8} {i : ℕ}
    (hbody : body = done ++ (ws ++ b :: rest)) (hi : i = done.length)
    (hws : ∀ b ∈ ws, isWs b = true) (hb : isWs b = false) :
    skipWs body i = i + ws.length ∧ body[i + ws.length]? = some b := by
  rw [hbody, hi]
  constructor
  · rw [skipWs, List.drop_left, List.takeWhile_append_of_pos hws, List.takeWhile_cons_of_neg]
    · simp
    · rw [hb]
      exact Bool.false_ne_true
  · rw [← List.append_assoc, ← List.length_append]
    simp

theorem skipWs_split {body done rest : List UInt8} {b : UInt8} {i : ℕ} (hbody : body = done ++ rest)
    (hi : i = done.length) (h : body[skipWs body i]? = some b) :
    ∃ ws r, rest = ws ++ b :: r ∧ (∀ b ∈ ws, isWs b = true) ∧ skipWs body i = i + ws.length := by
  have hskip : skipWs body i = i + (rest.takeWhile isWs).length := by
    rw [skipWs, hbody, hi, List.drop_left]
  have hsplit := (List.takeWhile_append_dropWhile (p := isWs) (l := rest)).symm
  have hws : ∀ b ∈ rest.takeWhile isWs, isWs b = true := fun _ hb => List.mem_takeWhile_imp hb
  rw [hskip, hbody, hi, List.getElem?_append_right (Nat.le_add_right _ _),
    Nat.add_sub_cancel_left] at h
  generalize rest.takeWhile isWs = ws at *
  rw [hsplit, List.getElem?_append_right (Nat.le_refl _), Nat.sub_self, ← List.head?_eq_getElem?,
    List.head?_eq_some_iff] at h
  obtain ⟨r, hr⟩ := h
  rw [hr] at hsplit
  exact ⟨ws, r, hsplit, hws, hskip⟩

theorem slice_append (front back : List UInt8) (n : ℕ) :
    slice (front ++ back) front.length (front.length + n) = back.take n := by
  rw [slice, List.take_length_add_append, List.drop_left]

theorem isWs_of_mem {w1 w2 w3 : List UInt8} (h : ∀ b ∈ w1 ++ w2 ++ w3, isWs b = true) :
    (∀ b ∈ w1, isWs b = true) ∧ (∀ b ∈ w2, isWs b = true) ∧ ∀ b ∈ w3, isWs b = true := by
  rw [List.forall_mem_append, List.forall_mem_append] at h
  exact ⟨h.1.1, h.1.2, h.2⟩

/-- The key is found where the body has it. -/
theorem findUnquotedResultKey_some {body front back : List UInt8} (h : BarewordAt body front back) :
    findUnquotedResultKey body = some (front.length, front.length + 6) := by
  obtain ⟨w1, w2, w3, rest, rfl, rfl, hws, hbody⟩ := h
  obtain ⟨hw1, hw2, hw3⟩ := isWs_of_mem hws
  have hresult : ascii "result" = 114 :: [101, 115, 117, 108, 116] := by decide
  -- the body as each of the three loops finds it
  have hfirst : body = [] ++ (w1 ++ 123 :: (w2 ++ ascii "result" ++ (w3 ++ 58 :: rest))) := by
    simp [hbody]
  have hsecond : body = (w1 ++ [123]) ++
      (w2 ++ 114 :: ([101, 115, 117, 108, 116] ++ (w3 ++ 58 :: rest))) := by
    simp [hbody, hresult]
  have hthird : body = (w1 ++ 123 :: w2 ++ ascii "result") ++ (w3 ++ 58 :: rest) := hbody
  obtain ⟨hskip1, hbrace⟩ := skipWs_of_eq hfirst rfl hw1 (by decide)
  obtain ⟨hskip2, -⟩ := skipWs_of_eq (i := w1.length + 1) hsecond (by simp) hw2 (by decide)
  obtain ⟨hskip3, hcolon⟩ := skipWs_of_eq (i := w1.length + 1 + w2.length + 6) hthird
    (by simp [hresult]; omega) hw3 (by decide)
  have hlen : (w1 ++ 123 :: w2).length = w1.length + 1 + w2.length := by
    simp only [List.length_append, List.length_cons]
    omega
  have hslice : slice body (w1.length + 1 + w2.length) (w1.length + 1 + w2.length + 6) =
      ascii "result" := by
    rw [hbody, ← hlen, List.append_assoc, slice_append, hresult]
    rfl
  rw [List.length_nil, Nat.zero_add] at hskip1 hbrace
  simp only [findUnquotedResultKey]
  rw [hskip1, hbrace, hskip2, hslice, hskip3, hcolon]
  simp
  omega

theorem barewordAt_of_find {body : List UInt8} {keyStart keyEnd : ℕ}
    (h : findUnquotedResultKey body = some (keyStart, keyEnd)) :
    ∃ front back, BarewordAt body front back ∧ keyStart = front.length ∧
      keyEnd = front.length + 6 := by
  simp only [findUnquotedResultKey] at h
  split at h
  · cases h
  next hbrace =>
  split at h
  · cases h
  next hslice =>
  split at h
  · cases h
  next hcolon =>
  obtain ⟨rfl, rfl⟩ := Prod.mk.inj (Option.some.inj h)
  rw [Decidable.not_not] at hbrace hslice hcolon
  have hresult : ascii "result" = 114 :: [101, 115, 117, 108, 116] := by decide
  obtain ⟨w1, r1, hbody1, hw1, hskip1⟩ := skipWs_split (List.nil_append body).symm rfl hbrace
  rw [List.length_nil, Nat.zero_add] at hskip1
  rw [hskip1] at hslice hcolon ⊢
  have hr : body[skipWs body (w1.length + 1)]? = some 114 := by
    have hhead := congrArg List.head? hslice
    rw [slice, List.head?_drop, List.getElem?_take, if_pos (by omega), hresult] at hhead
    exact hhead
  have hbrace1 : body = (w1 ++ [123]) ++ r1 := by
    rw [hbody1]
    simp
  obtain ⟨w2, r2, hr1, hw2, hskip2⟩ := skipWs_split hbrace1 (by simp) hr
  have hfront : skipWs body (w1.length + 1) = (w1 ++ 123 :: w2).length := by
    rw [hskip2]
    simp only [List.length_append, List.length_cons]
    omega
  have hbody2 : body = (w1 ++ 123 :: w2) ++ 114 :: r2 := by
    rw [hbody1, hr1]
    simp
  rw [hfront] at hslice hcolon ⊢
  rw [hbody2, slice_append] at hslice
  have hbody3 : body = (w1 ++ 123 :: w2 ++ ascii "result") ++ (114 :: r2).drop 6 := by
    rw [List.append_assoc, ← hslice, List.take_append_drop]
    exact hbody2
  obtain ⟨w3, rest, hr3, hw3, -⟩ := skipWs_split hbody3 List.length_append.symm hcolon
  rw [hr3] at hbody3
  refine ⟨w1 ++ 123 :: w2, w3 ++ 58 :: rest, ⟨w1, w2, w3, rest, rfl, rfl, ?_, hbody3⟩, rfl, rfl⟩
  rw [List.forall_mem_append, List.forall_mem_append]
  exact ⟨⟨hw1, hw2⟩, hw3⟩

theorem findUnquotedResultKey_none {body : List UInt8} (h : ∀ front back, ¬ BarewordAt body front back) :
    findUnquotedResultKey body = none := by
  cases hfind : findUnquotedResultKey body with
  | none => rfl
  | some key =>
      obtain ⟨front, back, hat, -⟩ := barewordAt_of_find hfind
      exact absurd hat (h front back)

/-! ### The copies -/

theorem copyQuoted_none (A : Arch) {body text : List UInt8} (hlen : text.length = body.length + 1) :
    ((copyQuoted A body text none).bind fun text => store text body.length 0) =
      some (body ++ [0]) := by
  have hcopy : copy text 0 body 0 body.length = some (body ++ text.drop body.length) := by
    have h : copy ([] ++ text) 0 body 0 body.length =
        some ([] ++ slice body 0 (0 + body.length) ++ text.drop body.length) :=
      copy_append rfl (by omega) (by omega)
    rw [List.nil_append, List.nil_append, Nat.zero_add, slice, List.take_length] at h
    exact h
  have hrest : text.drop body.length ≠ [] := by
    rw [ne_eq, List.drop_eq_nil_iff]
    omega
  rw [copyQuoted, hcopy, Option.bind_some, store_append 0 rfl hrest, List.drop_drop,
    List.drop_eq_nil_of_le (by omega), List.append_nil]

theorem copyQuoted_some {A : Arch} {body front back text : List UInt8}
    (hbody : body = front ++ ascii "result" ++ back) (hlt : body.length + 2 < A.sizeBound)
    (hlen : text.length = body.length + 3) :
    ((copyQuoted A body text (some (front.length, front.length + 6))).bind fun text =>
      store text (body.length + 2) 0) =
      some (front ++ 34 :: ascii "result" ++ 34 :: back ++ [0]) := by
  have hkey : (ascii "result").length = 6 := by decide
  have hsize : body.length = front.length + 6 + back.length := by
    rw [hbody, List.length_append, List.length_append, hkey]
  have hfront : slice body 0 (0 + front.length) = front := by
    rw [Nat.zero_add, slice, hbody, List.append_assoc, List.take_left]
    rfl
  have hresult : slice body front.length (front.length + 6) = ascii "result" := by
    rw [hbody, List.append_assoc, slice_append]
    rfl
  have hback : slice body (front.length + 6) (front.length + 6 + back.length) = back := by
    have h := slice_append (front ++ ascii "result") back back.length
    rw [← hbody, List.length_append, hkey, List.take_length] at h
    exact h
  have hne (n : ℕ) (hn : n < body.length + 3) : text.drop n ≠ [] := by
    rw [ne_eq, List.drop_eq_nil_iff]
    omega
  have hcopy1 : copy text 0 body 0 front.length = some (front ++ text.drop front.length) := by
    have h : copy ([] ++ text) 0 body 0 front.length =
        some ([] ++ slice body 0 (0 + front.length) ++ text.drop front.length) :=
      copy_append rfl (by omega) (by omega)
    rw [hfront] at h
    exact h
  simp only [copyQuoted]
  rw [hcopy1, Option.bind_some, store_append 34 rfl (hne _ (by omega)), Option.bind_some,
    List.drop_drop, A.add_of_lt (by omega), A.sub_of_le (by omega) (by omega),
    Nat.add_sub_cancel_left, copy_append (by simp) (by rw [List.length_drop]; omega) (by omega),
    Option.bind_some, hresult, List.drop_drop, A.add_of_lt (by omega),
    store_append 34 (by simp [hkey]) (hne _ (by omega)), Option.bind_some, List.drop_drop,
    A.add_of_lt (by omega), A.sub_of_le (by omega) (by omega), hsize, Nat.add_sub_cancel_left,
    copy_append (by simp [hkey]) (by rw [List.length_drop]; omega) (by omega), Option.bind_some,
    hback, List.drop_drop, store_append 0 (by simp [hkey]; omega) (hne _ (by omega)),
    List.drop_drop, List.drop_eq_nil_of_le (by omega)]
  simp

/-! ### The input of the parser -/

/-- What `make_parser_input` returns when the text for the parser is `text`: a
copy that is terminated at its length. -/
def terminated (A : Arch) (malloc : Malloc) (text : List UInt8) :
    Except Status (List UInt8 × ℕ) :=
  if A.sizeBound ≤ text.length + 1 then .error .overflow
  else if (malloc.block (text.length + 1)).isNone then .error .outOfMemory
  else .ok (text ++ [0], text.length)

/-- The text that a body with a bareword key is rewritten to. -/
def quoted (front back : List UInt8) : List UInt8 := front ++ 34 :: ascii "result" ++ 34 :: back

/-- Both ways of copying end in a terminated text. -/
theorem makeParserInputAt_of_copy {A : Arch} {body text : List UInt8} {extra : ℕ} (malloc : Malloc)
    (hlen : body.length < A.sizeBound)
    (hextra : extra = if (findUnquotedResultKey body).isSome then 2 else 0)
    (htext : text.length = body.length + extra)
    (hcopy : ∀ block, text.length + 1 < A.sizeBound → block.length = text.length + 1 →
      ((copyQuoted A body block (findUnquotedResultKey body)).bind fun block =>
        store block text.length 0) = some (text ++ [0])) :
    makeParserInputAt A malloc body = some (terminated A malloc text) := by
  have hbound := A.two_pow_32_le_sizeBound
  have hle : extra ≤ 2 := by
    rw [hextra]
    split <;> decide
  unfold makeParserInputAt terminated
  rw [findUnquotedResultKeyAt_eq hlen, Option.bind_some]
  dsimp only
  rw [← hextra, A.sub_max (by omega), A.sub_of_le (by omega) (by omega)]
  by_cases hroom : A.sizeBound ≤ text.length + 1
  · rw [if_pos hroom, if_pos (by omega)]
  · have hadd : A.add body.length extra = text.length := by
      rw [A.add_of_lt (by omega), htext]
    have hadd' : A.add text.length 1 = text.length + 1 := A.add_of_lt (by omega)
    rw [if_neg hroom, if_neg (by omega), hadd, hadd']
    cases hmalloc : malloc.block (text.length + 1) with
    | none => rfl
    | some block =>
        have hblock := hcopy block (by omega) (malloc.length_block _ _ hmalloc)
        obtain ⟨filled, hfilled, hstore⟩ := Option.bind_eq_some_iff.mp hblock
        simp only [hfilled, Option.bind_some, hstore, Option.map_some, Option.isNone_some,
          Bool.false_eq_true, if_false]

theorem makeParserInputAt_rewrites {A : Arch} {body front back : List UInt8} (malloc : Malloc)
    (hlen : body.length < A.sizeBound) (h : BarewordAt body front back) :
    makeParserInputAt A malloc body = some (terminated A malloc (quoted front back)) := by
  have hbody := h.eq
  have hsize : (quoted front back).length = body.length + 2 := by
    rw [hbody, quoted]
    simp only [List.length_append, List.length_cons]
    omega
  have hfind := findUnquotedResultKey_some h
  refine makeParserInputAt_of_copy malloc hlen (by rw [hfind]; rfl) hsize ?_
  intro block hlt hblock
  rw [hsize] at hlt hblock ⊢
  rw [hfind]
  exact copyQuoted_some hbody (by omega) hblock

theorem makeParserInputAt_keeps {A : Arch} {body : List UInt8} (malloc : Malloc)
    (hlen : body.length < A.sizeBound) (h : ∀ front back, ¬ BarewordAt body front back) :
    makeParserInputAt A malloc body = some (terminated A malloc body) := by
  have hfind := findUnquotedResultKey_none h
  refine makeParserInputAt_of_copy malloc hlen (by rw [hfind]) rfl ?_
  intro block _ hblock
  rw [hfind]
  exact copyQuoted_none A hblock

theorem ws_split_unique {w w' r r' : List UInt8} {b b' : UInt8} (hw : ∀ x ∈ w, isWs x = true)
    (hw' : ∀ x ∈ w', isWs x = true) (hb : isWs b = false) (hb' : isWs b' = false)
    (h : w ++ b :: r = w' ++ b' :: r') : b = b' ∧ r = r' := by
  have htake {w r : List UInt8} {b : UInt8} (hw : ∀ x ∈ w, isWs x = true) (hb : isWs b = false) :
      (w ++ b :: r).takeWhile isWs = w := by
    rw [List.takeWhile_append_of_pos hw, List.takeWhile_cons_of_neg, List.append_nil]
    rw [hb]
    exact Bool.false_ne_true
  have heq : w = w' := by rw [← htake (r := r) hw hb, h, htake hw' hb']
  rw [heq, List.append_cancel_left_eq] at h
  exact List.cons.inj h

/-- Behind its brace, a rewritten body has a quotation mark. -/
theorem quoted_not_bareword {body front back : List UInt8} (h : BarewordAt body front back)
    (front' back' : List UInt8) : ¬ BarewordAt (quoted front back) front' back' := by
  rintro ⟨w1', w2', w3', rest', rfl, rfl, hws', heq⟩
  obtain ⟨w1, w2, w3, rest, rfl, rfl, hws, -⟩ := h
  obtain ⟨hw1, hw2, -⟩ := isWs_of_mem hws
  obtain ⟨hw1', hw2', -⟩ := isWs_of_mem hws'
  have hresult : ascii "result" = 114 :: [101, 115, 117, 108, 116] := by decide
  simp only [quoted, hresult, List.append_assoc, List.cons_append] at heq
  obtain ⟨-, heq⟩ := ws_split_unique hw1 hw1' (by decide) (by decide) heq
  obtain ⟨hmark, -⟩ := ws_split_unique hw2 hw2' (by decide) (by decide) heq
  exact absurd hmark (by decide)

theorem skipWhitespace_ws {ws : List UInt8} {b : UInt8} (hws : ∀ x ∈ ws, isWs x = true)
    (hb : 32 < b) (r : List UInt8) : skipWhitespace (ws ++ b :: r) = b :: r := by
  have hle : ∀ x : UInt8, isWs x = true → x ≤ 32 := by
    intro x hx
    simp only [isWs, Bool.or_eq_true, decide_eq_true_eq] at hx
    obtain ((rfl | rfl) | rfl) | rfl := hx <;> decide
  have hdrop : (ws ++ b :: r).dropWhile (· ≤ 32) = b :: r := by
    rw [List.dropWhile_append_of_pos fun x hx => decide_eq_true (hle x (hws x hx)),
      List.dropWhile_cons_of_neg]
    rw [decide_eq_true_eq]
    exact UInt8.not_le.mpr hb
  rw [skipWhitespace, hdrop]

/-- The strict parser does not take a bareword for a name. -/
theorem parseWithOpts_bareword {body front back : List UInt8} (h : BarewordAt body front back) :
    parseWithOpts body = none := by
  obtain ⟨w1, w2, w3, rest, rfl, rfl, hws, hbody⟩ := h
  obtain ⟨hw1, hw2, -⟩ := isWs_of_mem hws
  have hresult : ascii "result" = 114 :: [101, 115, 117, 108, 116] := by decide
  obtain ⟨t, ht⟩ : ∃ t, body ++ [0] = w1 ++ 123 :: (w2 ++ 114 :: t) :=
    ⟨_, by simp only [hbody, hresult, List.append_assoc, List.cons_append]; rfl⟩
  have hbom : skipUtf8Bom (body ++ [0]) = w1 ++ 123 :: (w2 ++ 114 :: t) := by
    rw [skipUtf8Bom, if_neg, ht]
    rintro ⟨-, hmark⟩
    have hhead := congrArg List.head? hmark
    rw [ht] at hhead
    cases w1 with
    | nil => exact absurd hhead (by simp)
    | cons b w1 =>
        have hb := hw1 b List.mem_cons_self
        simp at hhead
        rw [hhead] at hb
        exact absurd hb (by decide)
  have hname (pv : List UInt8 → Option (Json × List UInt8)) :
      parseObject pv (w2 ++ 114 :: t) = none := by
    have hskip : skipWhitespace (114 :: t) = 114 :: t := skipWhitespace_of_lt (by decide) t
    have hstring : parseString (114 :: t) = none := rfl
    rw [parseObject, skipWhitespace_ws hw2 (by decide)]
    simp [parseMembers, hskip, hstring]
  rw [parseWithOpts_eq, hbom, skipWhitespace_ws hw1 (by decide)]
  change (parseValue (999 + 1) _).bind _ = none
  rw [parseValue, parseValueWith_object, hname]
  rfl

/-- A text that the strict parser accepts has no bareword key. -/
theorem not_bareword_of_parseAt {body : List UInt8} {root : Json}
    (h : parseAt true (body ++ [0]) body.length = some (.ok root)) (front back : List UInt8) :
    ¬ BarewordAt body front back := by
  intro hat
  have hget : (body ++ [0])[body.length]? = some 0 := by simp
  simp only [parseAt, hget, ne_eq, not_true, if_false, List.take_left, parseText,
    parseWithOpts_bareword hat] at h
  split at h
  · cases h
  · cases h

/-! ### The normalisation -/

/-- A text that was terminated is what stands in front of the terminator. -/
theorem terminated_ok {A : Arch} {malloc : Malloc} {text block : List UInt8} {len : ℕ}
    (h : terminated A malloc text = .ok (block, len)) :
    block.take len = text ∧ text.length < A.sizeBound := by
  unfold terminated at h
  split at h
  · cases h
  next hroom =>
    split at h
    · cases h
    · cases h
      exact ⟨List.take_left, by omega⟩

theorem makeParserInputAt_cases {A : Arch} {body : List UInt8} (malloc : Malloc)
    (hlen : body.length < A.sizeBound) :
    ∃ text, makeParserInputAt A malloc body = some (terminated A malloc text) ∧
      ∀ front back, ¬ BarewordAt text front back := by
  by_cases hat : ∃ front back, BarewordAt body front back
  · obtain ⟨front, back, hat⟩ := hat
    exact ⟨_, makeParserInputAt_rewrites malloc hlen hat, quoted_not_bareword hat⟩
  · have hnot : ∀ front back, ¬ BarewordAt body front back := fun front back h =>
      hat ⟨front, back, h⟩
    exact ⟨body, makeParserInputAt_keeps malloc hlen hnot, hnot⟩

/-- A result of the strict parser comes of a text that it accepts. -/
theorem parseAt_of_dataResultParseInto {body : List UInt8} {out r : ℤ}
    (h : dataResultParseInto (body ++ [0]) body.length out = some (.ok, r)) :
    ∃ root, parseAt true (body ++ [0]) body.length = some (.ok root) := by
  have hget : (body ++ [0])[body.length]? = some 0 := by simp
  unfold dataResultParseInto at h
  split at h
  · cases h
  · next status hstatus =>
      obtain rfl := (Prod.mk.inj (Option.some.inj h)).1
      simp only [parseAt, hget, ne_eq, not_true, if_false, List.take_left] at hstatus
      split at hstatus
      · cases hstatus
      · cases parseText_error (Option.some.inj hstatus)
  · next root hroot => exact ⟨root, hroot⟩

/-- `make_parser_input` never faults. It rewrites a body with a bareword key and
no other one; it leaves its own output and the texts of the strict parser as
they are. -/
theorem makeParserInput_conservative {A : Arch} {body : List UInt8} (malloc : Malloc)
    (hlen : body.length < A.sizeBound) :
    (makeParserInputAt A malloc body).isSome = true ∧
      (∀ front back, BarewordAt body front back →
        makeParserInputAt A malloc body = some (terminated A malloc (quoted front back))) ∧
      ((∀ front back, ¬ BarewordAt body front back) →
        makeParserInputAt A malloc body = some (terminated A malloc body)) ∧
      (∀ text len, makeParserInputAt A malloc body = some (.ok (text, len)) → ∀ malloc',
        makeParserInputAt A malloc' (text.take len) = some (terminated A malloc' (text.take len))) ∧
      (∀ out r, dataResultParseInto (body ++ [0]) body.length out = some (.ok, r) →
        makeParserInputAt A malloc body = some (terminated A malloc body)) ∧
      ∀ root, parseAt true (body ++ [0]) body.length = some (.ok root) → ∀ p,
        onResponseAt A malloc p body = respondTo p (some (terminated A malloc body)) := by
  have hstrict {root : Json} (hroot : parseAt true (body ++ [0]) body.length = some (.ok root)) :=
    makeParserInputAt_keeps malloc hlen (not_bareword_of_parseAt hroot)
  obtain ⟨input, hinput, hnot⟩ := makeParserInputAt_cases malloc hlen
  refine ⟨by rw [hinput]; rfl, fun _ _ hat => makeParserInputAt_rewrites malloc hlen hat,
    makeParserInputAt_keeps malloc hlen, ?_, ?_, ?_⟩
  · intro text len h malloc'
    rw [hinput] at h
    obtain ⟨htake, hlt⟩ := terminated_ok (Option.some.inj h)
    rw [htake]
    exact makeParserInputAt_keeps malloc' hlt hnot
  · intro out r h
    obtain ⟨root, hroot⟩ := parseAt_of_dataResultParseInto h
    exact hstrict hroot
  · intro root hroot p
    have hne : body.length ≠ 0 := by
      intro hzero
      rw [List.length_eq_zero_iff.mp hzero] at hroot
      cases hroot
    rw [onResponseAt, if_neg hne, hstrict hroot]

/-- Where `malloc` does not fail, the code is the function of the policy. -/
theorem makeParserInputAt_eq {A : Arch} {body : List UInt8} {malloc : Malloc}
    (hmalloc : ∀ n, (malloc.block n).isSome = true) (hlen : body.length < A.sizeBound) :
    makeParserInputAt A malloc body =
      some ((makeParserInput A body).map fun text => (text ++ [0], text.length)) := by
  have hbound := A.two_pow_32_le_sizeBound
  have hsome (n : ℕ) : (malloc.block n).isNone = false := by
    rw [Option.isNone_eq_false_iff]
    exact hmalloc n
  unfold makeParserInput
  by_cases hat : ∃ front back, BarewordAt body front back
  · obtain ⟨front, back, hat⟩ := hat
    have hkey : (ascii "result").length = 6 := by decide
    have hfront : (front ++ ascii "result").length = front.length + 6 := by
      rw [List.length_append, hkey]
    have htext : body.take front.length ++ 34 :: slice body front.length (front.length + 6) ++
        34 :: body.drop (front.length + 6) = quoted front back := by
      have htake : body.take front.length = front := by
        rw [hat.eq, List.append_assoc, List.take_left]
      have hslice : slice body front.length (front.length + 6) = ascii "result" := by
        rw [hat.eq, List.append_assoc, slice_append]
        rfl
      have hdrop : body.drop (front.length + 6) = back := by
        rw [hat.eq, ← hfront, List.drop_left]
      rw [htake, hslice, hdrop, quoted]
    have hsize : (quoted front back).length = body.length + 2 := by
      rw [hat.eq, quoted]
      simp only [List.length_append, List.length_cons]
      omega
    rw [makeParserInputAt_rewrites malloc hlen hat, findUnquotedResultKey_some hat, terminated,
      hsome, hsize]
    simp only [Option.isSome_some, if_true]
    rw [htext]
    by_cases hroom : A.sizeBound ≤ body.length + 2 + 1
    · rw [if_pos hroom, if_pos (by omega)]
      rfl
    · rw [if_neg hroom, if_neg Bool.false_ne_true, if_neg (by omega), Except.map, hsize]
  · have hnot : ∀ front back, ¬ BarewordAt body front back := fun front back h =>
      hat ⟨front, back, h⟩
    rw [makeParserInputAt_keeps malloc hlen hnot, findUnquotedResultKey_none hnot, terminated, hsome]
    simp only [Option.isSome_none, Bool.false_eq_true, if_false]
    by_cases hroom : A.sizeBound ≤ body.length + 1
    · rw [if_pos hroom, if_pos (by omega)]
      rfl
    · rw [if_neg hroom, if_neg (by omega)]
      rfl

/-- Where `malloc` does not fail, the response is that of the policy as well. -/
theorem onResponseAt_eq {A : Arch} {body : List UInt8} {malloc : Malloc}
    (hmalloc : ∀ n, (malloc.block n).isSome = true) (hlen : body.length < A.sizeBound)
    (p : ResultPolicy) : onResponseAt A malloc p body = some (p.onResponse A (some body)) := by
  unfold onResponseAt ResultPolicy.onResponse
  simp only [Option.bind_some, responseResult, List.length_eq_zero_iff]
  split
  · rfl
  · rw [makeParserInputAt_eq hmalloc hlen]
    cases makeParserInput A body with
    | error status => rfl
    | ok text =>
        change (dataResultParseInto (text ++ 0 :: []) text.length 0).map _ = _
        rw [dataResultParseInto_terminated]
        cases hparse : dataResultParse text with
        | ok r =>
            simp only [hparse]
            rfl
        | error status =>
            simp only [hparse, dataResultParse_error hparse]
            rfl

def Malloc.ample : Malloc where
  block n := some (List.replicate n 0xAA)
  length_block n bytes h := by
    obtain rfl := Option.some.inj h
    exact List.length_replicate

theorem makeParserInput_conservative_bareword :
    makeParserInputAt .lp64 .ample (ascii "\x7bresult: 4\x7d") =
      some (.ok (ascii "\x7b\"result\": 4\x7d\x00", 13)) := by
  have hat : BarewordAt (ascii "\x7bresult: 4\x7d") (ascii "\x7b") (ascii ": 4\x7d") :=
    ⟨[], [], [], ascii " 4\x7d", by decide, by decide, by simp, by decide⟩
  have h := (makeParserInput_conservative .ample
    (show (ascii "\x7bresult: 4\x7d").length < Arch.lp64.sizeBound by decide)).2.1 _ _ hat
  rw [h]
  decide

end Savvy.Stream
