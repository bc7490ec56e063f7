import Savvy.Json.ParseBuffer
import Savvy.Json.Strings

/-!
`parse_string` on memory. Its first loop looks for the closing quote and counts a
backslash and the byte behind it as one; its second one writes what the literal stands
for. The two loops may pair the bytes of a literal in different ways, as the second one
takes a malformed `\u` with the four bytes behind it, whatever they are. The bytes that
are left count for no less than what is still to be written all the same.
-/

namespace Savvy.CJson

open Kit

/-! ### The bytes that are counted -/

/-- The bytes that a part of a literal counts for. -/
def units : List UInt8 → ℕ
  | [] => 0
  | [_] => 1
  | b :: c :: r => if b = 92 then 1 + units r else 1 + units (c :: r)

theorem units_plain {b : UInt8} (hb : b ≠ 92) (r : List UInt8) : units (b :: r) = 1 + units r := by
  cases r with
  | nil => rfl
  | cons c r => rw [units, if_neg hb]

theorem units_pair (c : UInt8) (r : List UInt8) : units (92 :: c :: r) = 1 + units r := by
  rw [units, if_pos rfl]

/-- A byte in front counts for one at most, and nothing counts for less with it. -/
theorem units_cons (b : UInt8) (r : List UInt8) :
    units r ≤ units (b :: r) ∧ units (b :: r) ≤ 1 + units r := by
  induction r generalizing b with
  | nil => exact ⟨Nat.zero_le _, Nat.le_refl _⟩
  | cons c r ih =>
      by_cases hb : b = 92
      · obtain ⟨hle, hge⟩ := ih c
        rw [hb, units_pair]
        omega
      · rw [units_plain hb]
        omega

theorem units_append_le (ds r : List UInt8) : units r ≤ units (ds ++ r) := by
  induction ds with
  | nil => exact Nat.le_refl _
  | cons d ds ih => exact Nat.le_trans ih (units_cons d (ds ++ r)).1

theorem units_append {ds : List UInt8} (h : 92 ∉ ds) (r : List UInt8) :
    units (ds ++ r) = ds.length + units r := by
  induction ds with
  | nil => simp
  | cons d ds ih =>
      rw [List.mem_cons, not_or] at h
      rw [List.cons_append, units_plain (Ne.symm h.1), ih h.2, List.length_cons]
      omega

theorem units_le_length (s : List UInt8) : units s ≤ s.length := by
  induction s with
  | nil => exact Nat.le_refl _
  | cons b s ih =>
      have hle := (units_cons b s).2
      rw [List.length_cons]
      omega

/-! ### The closing quote -/

variable {content : List UInt8}

theorem contentAt_bind {σ α : Type} {i : ℕ} {b : UInt8} (h : content[i]? = some b)
    (f : UInt8 → Attempt σ α) (s : σ) : (contentAt content i >>= f) s = f b s := by
  change Attempt.bind (contentAt content i) f s = f b s
  simp only [Attempt.bind, contentAt, h, Option.map_some]

theorem contentAt_meets {σ α : Type} {i : ℕ} {b : UInt8} {f : UInt8 → Attempt σ α} {s : σ}
    {Q : α → σ → Prop} {F : σ → Prop} (h : content[i]? = some b) (hf : (f b).Meets s Q F) :
    (contentAt content i >>= f).Meets s Q F := by
  rw [Attempt.Meets, contentAt_bind h]
  exact hf

theorem scanString_split {r lit behind : List UInt8} (h : scanString r = some (lit, behind)) :
    r = lit ++ 34 :: behind := by
  fun_induction scanString r generalizing lit behind with
  | case1 => cases h
  | case2 r =>
      cases h
      rfl
  | case3 _ => cases h
  | case4 _ c r ih =>
      obtain ⟨⟨lit', behind'⟩, hscan, heq⟩ := Option.map_eq_some_iff.mp h
      cases heq
      rw [ih hscan]
      rfl
  | case5 b r _ _ ih =>
      obtain ⟨⟨lit', behind'⟩, hscan, heq⟩ := Option.map_eq_some_iff.mp h
      cases heq
      rw [ih hscan]
      rfl

theorem closingQuote_eq {turns e : ℕ} (skipped : ℕ) (p : ParseBuffer) (he : e ≤ content.length)
    (hturns : content.length < e + turns) :
    closingQuote content turns e skipped p =
      match scanString (content.drop e) with
      | none => some (none, p)
      | some (lit, _) =>
          some (some (e + lit.length, skipped + (lit.length - units lit)), p) := by
  induction turns generalizing e skipped with
  | zero => omega
  | succ turns ih =>
      rw [closingQuote]
      by_cases hend : content.length ≤ e
      · rw [if_pos hend, List.drop_eq_nil_of_le hend]
        rfl
      obtain ⟨b, hb⟩ : ∃ b, content[e]? = some b := ⟨content[e], List.getElem?_eq_getElem (by omega)⟩
      have hcons : content.drop e = b :: content.drop (e + 1) := by
        rw [List.drop_eq_getElem_cons (by omega)]
        rw [List.getElem?_eq_getElem (by omega)] at hb
        rw [Option.some.inj hb]
      rw [if_neg hend, contentAt_bind hb, hcons]
      by_cases hquote : b = 34
      · rw [if_pos hquote, hquote, scanString_quote]
        rfl
      rw [if_neg hquote]
      by_cases hescape : b = 92
      · rw [if_pos hescape, hescape]
        by_cases hlast : content.length ≤ e + 1
        · rw [if_pos hlast, List.drop_eq_nil_of_le hlast]
          rfl
        rw [if_neg hlast, ih (skipped + 1) (by omega) (by omega),
          List.drop_eq_getElem_cons (show e + 1 < content.length by omega), scanString_pair]
        cases hscan : scanString (content.drop (e + 1 + 1)) with
        | none => rfl
        | some r =>
            obtain ⟨lit, behind⟩ := r
            have hle := units_le_length lit
            simp only [Option.map_some, List.length_cons, units_pair]
            congr 4
            · omega
            · omega
      · rw [if_neg hescape, scanString_byte hquote hescape, ih skipped (by omega) (by omega)]
        cases hscan : scanString (content.drop (e + 1)) with
        | none => rfl
        | some r =>
            obtain ⟨lit, behind⟩ := r
            have hle := units_le_length lit
            simp only [Option.map_some, List.length_cons, units_plain hescape]
            congr 4
            · omega
            · omega

/-! ### What is written -/

/-- The output has room for `n` more bytes behind those that are `done`. -/
def Room (done : List UInt8) (n : ℕ) (o : StringOutput) : Prop :=
  ∃ rest, o = ⟨done ++ rest, done.length⟩ ∧ n ≤ rest.length

variable {done : List UInt8} {o : StringOutput} {F : StringOutput → Prop}

theorem Room.mono {m n : ℕ} (h : Room done n o) (hmn : m ≤ n) : Room done m o := by
  obtain ⟨rest, rfl, hn⟩ := h
  exact ⟨rest, rfl, Nat.le_trans hmn hn⟩

theorem putByte_meets {n : ℕ} (h : Room done (n + 1) o) (b : UInt8) :
    (putByte b).Meets o (fun _ o' => Room (done ++ [b]) n o') F := by
  obtain ⟨rest, rfl, hn⟩ := h
  have hrest : rest ≠ [] := by
    rw [← List.length_pos_iff]
    omega
  refine Attempt.meets_change (by rw [store_append b rfl hrest]; rfl) ⟨rest.drop 1, ?_, ?_⟩
  · rw [List.length_append, List.length_singleton]
  · rw [List.length_drop]
    omega

def tailBytes : ℕ → ℕ → List UInt8
  | 0, _ => []
  | n + 1, cp => tailBytes n (cp >>> 6) ++ [UInt8.ofNat ((cp ||| 0x80) &&& 0xBF)]

theorem length_tailBytes (n cp : ℕ) : (tailBytes n cp).length = n := by
  induction n generalizing cp with
  | zero => rfl
  | succ n ih => rw [tailBytes, List.length_append, ih, List.length_singleton]

/-- The loop writes them from the last one on, behind a byte `x`. -/
theorem putTail_eq (done : List UInt8) (n cp : ℕ) (x : UInt8) {mid : List UInt8} (rest : List UInt8)
    (hmid : mid.length = n) :
    putTail done.length n cp (done ++ x :: (mid ++ rest)) =
      some (cp >>> (6 * n), done ++ x :: (tailBytes n cp ++ rest)) := by
  induction n generalizing cp mid rest with
  | zero =>
      obtain rfl := List.length_eq_zero_iff.mp hmid
      rfl
  | succ n ih =>
      obtain ⟨front, y, rfl⟩ := List.eq_nil_or_concat' mid |>.resolve_left (by rintro rfl; simp at hmid)
      have hfront : front.length = n := by simpa using hmid
      have hlen : done.length + (n + 1) = (done ++ x :: front).length := by
        simp only [List.length_append, List.length_cons, hfront]
      have hsplit : done ++ x :: (front ++ [y] ++ rest) = (done ++ x :: front) ++ y :: rest := by
        simp only [List.append_assoc, List.cons_append, List.nil_append]
      rw [putTail, hsplit, store_append _ hlen (by simp)]
      have hstored (b : UInt8) : done ++ x :: front ++ [b] ++ (y :: rest).drop 1 =
          done ++ x :: (front ++ b :: rest) := by
        simp only [List.append_assoc, List.cons_append, List.nil_append, List.drop_one,
          List.tail_cons]
      rw [Option.bind_some, hstored, ih (cp >>> 6) _ hfront, tailBytes, ← Nat.shiftRight_add,
        Nat.mul_succ, Nat.add_comm 6 (6 * n)]
      simp only [List.append_assoc, List.cons_append, List.nil_append]

theorem putUtf8_meets {n m : ℕ} (mark mask cp : ℕ) (h : Room done (m + (n + 1)) o) :
    (putUtf8 n mark mask cp).Meets o
      (fun _ o' => Room (done ++ UInt8.ofNat ((cp >>> (6 * n) ||| mark) &&& mask) ::
        tailBytes n cp) m o') F := by
  obtain ⟨rest, rfl, hn⟩ := h
  obtain ⟨x, rest, rfl⟩ := List.exists_cons_of_length_pos (by omega : 0 < rest.length)
  rw [List.length_cons] at hn
  have hmid : (rest.take n).length = n := by
    rw [List.length_take]
    omega
  have htail := putTail_eq done n cp x (rest.drop n) hmid
  rw [List.take_append_drop] at htail
  refine Attempt.meets_change (by
    rw [htail, Option.bind_some]
    dsimp only
    rw [store_append _ rfl (by simp)]
    rfl) ⟨rest.drop n, ?_, ?_⟩
  · simp only [List.drop_one, List.tail_cons, List.append_assoc, List.cons_append,
      List.nil_append, List.length_append, List.length_cons, length_tailBytes, Nat.add_assoc]
  · rw [List.length_drop]
    omega

/-- The encoding of a code point is written as a whole. -/
theorem putCodepoint_meets {cp m : ℕ} (hcp : cp ≤ 0x10FFFF)
    (h : Room done (m + (encodeUtf8 cp).length) o) :
    (putCodepoint cp).Meets o (fun _ o' => Room (done ++ encodeUtf8 cp) m o') F := by
  unfold putCodepoint
  unfold encodeUtf8 at *
  split_ifs at * with h1 h2 h3
  · have hput := putUtf8_meets (n := 0) (F := F) 0 0x7F cp h
    rwa [Nat.or_zero] at hput
  · exact putUtf8_meets (n := 1) 0xC0 0xFF cp h
  · exact putUtf8_meets (n := 2) 0xE0 0xFF cp h
  · exact putUtf8_meets (n := 3) 0xF0 0xFF cp h

/-! ### Escapes -/

theorem getElem?_of_drop {i : ℕ} {s : List UInt8} (h : content.drop i = s) (k : ℕ) :
    content[i + k]? = s[k]? := by
  rw [← h, List.getElem?_drop]

theorem drop_of_drop {i : ℕ} {s t : List UInt8} (h : content.drop i = s ++ t) :
    content.drop (i + s.length) = t := by
  rw [← List.drop_drop, h, List.drop_left]

theorem hex4Loop_eq {i : ℕ} {b0 b1 b2 b3 : UInt8} {r : List UInt8}
    (h : content.drop i = b0 :: b1 :: b2 :: b3 :: r) :
    hex4Loop content 4 i 0 = some (parseHex4 b0 b1 b2 b3) := by
  have h0 : content[i]? = some b0 := getElem?_of_drop h 0
  have h1 : content[i + 1]? = some b1 := getElem?_of_drop h 1
  have h2 : content[i + 1 + 1]? = some b2 := getElem?_of_drop h 2
  have h3 : content[i + 1 + 1 + 1]? = some b3 := getElem?_of_drop h 3
  simp only [hex4Loop, h0, h1, h2, h3, Option.bind_some, parseHex4]
  cases hexDigit b0 with
  | none => rfl
  | some d0 =>
  cases hexDigit b1 with
  | none => rfl
  | some d1 =>
  cases hexDigit b2 with
  | none => rfl
  | some d2 =>
  cases hexDigit b3 with
  | none => rfl
  | some d3 =>
  simp [Nat.shiftLeft_eq]

/-- The digits of a number that is not zero are no backslashes. -/
theorem notMem_of_parseHex4 {b0 b1 b2 b3 : UInt8} (h : parseHex4 b0 b1 b2 b3 ≠ 0) :
    92 ∉ [b0, b1, b2, b3] := by
  have hdigit : hexDigit 92 = none := by decide
  intro hmem
  simp only [List.mem_cons, List.not_mem_nil, or_false] at hmem
  refine h ?_
  unfold parseHex4
  split
  · next d0 d1 d2 d3 h0 h1 h2 h3 =>
      obtain rfl | rfl | rfl | rfl := hmem
      all_goals simp_all
  · rfl

theorem length_encodeUtf8_le (cp : ℕ) :
    1 ≤ (encodeUtf8 cp).length ∧ (encodeUtf8 cp).length ≤ 4 ∧
      (cp < 0x10000 → (encodeUtf8 cp).length ≤ 3) := by
  unfold encodeUtf8
  split_ifs
  all_goals simp
  omega

/-- An escape of four digits counts for what it is encoded to, whatever the digits. -/
theorem units_hex (b0 b1 b2 b3 : UInt8) (r : List UInt8) :
    (encodeUtf8 (parseHex4 b0 b1 b2 b3)).length + units r ≤
      units (92 :: 117 :: b0 :: b1 :: b2 :: b3 :: r) := by
  rw [units_pair]
  by_cases hzero : parseHex4 b0 b1 b2 b3 = 0
  · have hle := units_append_le [b0, b1, b2, b3] r
    have hlen : (encodeUtf8 0).length = 1 := by decide
    rw [hzero, hlen]
    exact Nat.add_le_add_left hle 1
  · have heq : units (b0 :: b1 :: b2 :: b3 :: r) = 4 + units r :=
      units_append (notMem_of_parseHex4 hzero) r
    have hlen := (length_encodeUtf8_le (parseHex4 b0 b1 b2 b3)).2.2 (parseHex4_lt ..)
    omega

/-- A surrogate pair counts for no less than four bytes. -/
theorem units_surrogates {b0 b1 b2 b3 : UInt8} (h : parseHex4 b0 b1 b2 b3 ≠ 0)
    (ds r : List UInt8) :
    4 + units r ≤ units (92 :: 117 :: b0 :: b1 :: b2 :: b3 :: (ds ++ r)) := by
  have heq : units (b0 :: b1 :: b2 :: b3 :: (ds ++ r)) = 4 + units (ds ++ r) :=
    units_append (notMem_of_parseHex4 h) _
  have hle := units_append_le ds r
  rw [units_pair]
  omega

theorem unescape_unit (b0 b1 b2 b3 : UInt8) (r : List UInt8) :
    unescape (92 :: 117 :: b0 :: b1 :: b2 :: b3 :: r) =
      let first := parseHex4 b0 b1 b2 b3
      if 0xDC00 ≤ first ∧ first ≤ 0xDFFF then none
      else if 0xD800 ≤ first ∧ first ≤ 0xDBFF then
        match r with
        | x :: y :: c0 :: c1 :: c2 :: c3 :: r =>
            let second := parseHex4 c0 c1 c2 c3
            if x ≠ 92 ∨ y ≠ 117 then none
            else if second < 0xDC00 ∨ 0xDFFF < second then none
            else
              (unescape r).map (encodeUtf8
                (0x10000 + ((first &&& 0x3FF) <<< 10 ||| second &&& 0x3FF)) ++ ·)
        | _ => none
      else (unescape r).map (encodeUtf8 first ++ ·) := by
  have hletter : simpleEscape 117 = none := by decide
  have hunit := unescape.eq_def (92 :: 117 :: b0 :: b1 :: b2 :: b3 :: r)
  simp only [ne_eq, not_true_eq_false, if_false, hletter] at hunit
  exact hunit

theorem unescape_short {r : List UInt8} (h : r.length < 4) : unescape (92 :: 117 :: r) = none := by
  have hletter : simpleEscape 117 = none := by decide
  rw [unescape.eq_def]
  simp only [ne_eq, not_true_eq_false, if_false, hletter]
  split
  · simp only [List.length_cons] at h
    omega
  · rfl

/-- One escape: `n` bytes of the literal `lit` are taken, and what they stand for is
written. -/
def Escaped (done lit : List UInt8) (n : ℕ) (o : StringOutput) : Prop :=
  ∃ bytes taken r, lit = taken ++ r ∧ taken.length = n ∧ 0 < n ∧
    unescape lit = (unescape r).map (bytes ++ ·) ∧ Room (done ++ bytes) (units r + 1) o

variable {i e : ℕ} {r behind : List UInt8}

theorem parseHex4At_meets {α : Type} {b0 b1 b2 b3 : UInt8} {f : ℕ → Attempt StringOutput α}
    {Q : α → StringOutput → Prop} (h : content.drop i = b0 :: b1 :: b2 :: b3 :: r)
    (hf : (f (parseHex4 b0 b1 b2 b3)).Meets o Q F) :
    (parseHex4At content i >>= f).Meets o Q F := by
  change (Attempt.bind (parseHex4At content i) f).Meets o Q F
  simp only [Attempt.Meets, Attempt.bind, parseHex4At, hex4Loop_eq h, Option.map_some]
  exact hf

theorem secondSequence_meets {b0 b1 b2 b3 : UInt8}
    (hfirst : 0xD800 ≤ parseHex4 b0 b1 b2 b3 ∧ parseHex4 b0 b1 b2 b3 ≤ 0xDBFF)
    (hcontent : content.drop i = r ++ 34 :: behind) (he : e = i + r.length)
    (hroom : Room done (units (92 :: 117 :: b0 :: b1 :: b2 :: b3 :: r) + 1) o) :
    (secondSequence content (parseHex4 b0 b1 b2 b3) i e).Meets o
      (fun n o' => Escaped done (92 :: 117 :: b0 :: b1 :: b2 :: b3 :: r) n o')
      (fun _ => unescape (92 :: 117 :: b0 :: b1 :: b2 :: b3 :: r) = none) := by
  have hunit := unescape_unit b0 b1 b2 b3 r
  dsimp only at hunit
  rw [if_neg (by omega), if_pos hfirst] at hunit
  unfold secondSequence
  by_cases hshort : e < i + 6
  · rw [if_pos hshort]
    refine Attempt.meets_giveUp ?_
    rw [hunit]
    split
    · simp only [List.length_cons] at he
      omega
    · rfl
  rw [if_neg hshort]
  obtain ⟨x, y, c0, c1, tail, rfl⟩ := exists_four (s := r) (by omega)
  obtain ⟨c2, c3, r', rfl⟩ := exists_two (s := tail) (by
    simp only [List.length_cons] at he
    omega)
  dsimp only at hunit
  have hx : content[i]? = some x := getElem?_of_drop hcontent 0
  have hy : content[i + 1]? = some y := getElem?_of_drop hcontent 1
  refine contentAt_meets hx ?_
  by_cases hx92 : x ≠ 92
  · rw [if_pos hx92]
    exact Attempt.meets_giveUp (by rw [hunit, if_pos (.inl hx92)])
  rw [if_neg hx92]
  refine contentAt_meets hy ?_
  by_cases hy117 : y ≠ 117
  · rw [if_pos hy117]
    exact Attempt.meets_giveUp (by rw [hunit, if_pos (.inr hy117)])
  rw [if_neg hy117]
  refine parseHex4At_meets (drop_of_drop (s := [x, y]) hcontent) ?_
  rw [if_neg (not_or.mpr ⟨hx92, hy117⟩)] at hunit
  by_cases hsecond : parseHex4 c0 c1 c2 c3 < 0xDC00 ∨ 0xDFFF < parseHex4 c0 c1 c2 c3
  · rw [if_pos hsecond]
    exact Attempt.meets_giveUp (by rw [hunit, if_pos hsecond])
  rw [if_neg hsecond]
  rw [if_neg hsecond] at hunit
  have hlow : 0xDC00 ≤ parseHex4 c0 c1 c2 c3 ∧ parseHex4 c0 c1 c2 c3 ≤ 0xDFFF := by omega
  have hcp := pair_eq hfirst hlow
  have hlen := length_encodeUtf8_le (0x10000 + ((parseHex4 b0 b1 b2 b3 &&& 0x3FF) <<< 10 |||
    parseHex4 c0 c1 c2 c3 &&& 0x3FF))
  have hnonzero : parseHex4 b0 b1 b2 b3 ≠ 0 := by omega
  have hunits := units_surrogates hnonzero [x, y, c0, c1, c2, c3] r'
  refine (putCodepoint_meets (m := units r' + 1) (by omega) (hroom.mono ?_)).bind ?_
  · simp only [List.cons_append, List.nil_append] at hunits
    omega
  intro _ o' ho'
  exact Attempt.meets_pure ⟨_, [92, 117, b0, b1, b2, b3, x, y, c0, c1, c2, c3], r', rfl, rfl, by decide, hunit, ho'⟩

theorem utf16LiteralToUtf8_meets (hcontent : content.drop i = 92 :: 117 :: r ++ 34 :: behind)
    (he : e = i + 2 + r.length) (hroom : Room done (units (92 :: 117 :: r) + 1) o) :
    (utf16LiteralToUtf8 content i e).Meets o
      (fun n o' => Escaped done (92 :: 117 :: r) n o')
      (fun _ => unescape (92 :: 117 :: r) = none) := by
  unfold utf16LiteralToUtf8
  by_cases hshort : e < i + 6
  · rw [if_pos hshort]
    exact Attempt.meets_giveUp (unescape_short (by omega))
  rw [if_neg hshort]
  obtain ⟨b0, b1, b2, b3, r, rfl⟩ := exists_four (s := r) (by omega)
  have hunit := unescape_unit b0 b1 b2 b3 r
  dsimp only at hunit
  refine parseHex4At_meets (drop_of_drop (s := [92, 117]) hcontent) ?_
  by_cases hlow : 0xDC00 ≤ parseHex4 b0 b1 b2 b3 ∧ parseHex4 b0 b1 b2 b3 ≤ 0xDFFF
  · rw [if_pos hlow]
    exact Attempt.meets_giveUp (by rw [hunit, if_pos hlow])
  rw [if_neg hlow]
  by_cases hhigh : 0xD800 ≤ parseHex4 b0 b1 b2 b3 ∧ parseHex4 b0 b1 b2 b3 ≤ 0xDBFF
  · rw [if_pos hhigh]
    have hnext : content.drop (i + 6) = r ++ 34 :: behind :=
      drop_of_drop (s := [92, 117, b0, b1, b2, b3]) hcontent
    refine secondSequence_meets hhigh hnext ?_ hroom
    simp only [List.length_cons] at he
    omega
  rw [if_neg hhigh]
  rw [if_neg hlow, if_neg hhigh] at hunit
  have hlt := parseHex4_lt b0 b1 b2 b3
  have hunits := units_hex b0 b1 b2 b3 r
  refine (putCodepoint_meets (m := units r + 1) (by omega) (hroom.mono (by omega))).bind ?_
  intro _ o' ho'
  exact Attempt.meets_pure ⟨_, [92, 117, b0, b1, b2, b3], r, rfl, rfl, by decide, hunit, ho'⟩

theorem escapeAt_meets {c : UInt8} (hcontent : content.drop i = 92 :: c :: r ++ 34 :: behind)
    (he : e = i + 2 + r.length) (hroom : Room done (units (92 :: c :: r) + 1) o) :
    (escapeAt content i e).Meets o (fun n o' => Escaped done (92 :: c :: r) n o')
      (fun _ => unescape (92 :: c :: r) = none) := by
  refine contentAt_meets (getElem?_of_drop hcontent 1) ?_
  cases hx : simpleEscape c with
  | some x =>
      rw [units_pair] at hroom
      refine (putByte_meets (n := units r + 1) (hroom.mono (by omega)) x).bind ?_
      intro _ o' ho'
      exact Attempt.meets_pure ⟨[x], [92, c], r, rfl, rfl, by decide, unescape_pair hx r, ho'⟩
  | none =>
      dsimp only
      by_cases hc : c = 117
      · rw [if_pos hc]
        subst hc
        exact utf16LiteralToUtf8_meets hcontent he hroom
      · rw [if_neg hc]
        refine Attempt.meets_giveUp ?_
        rw [unescape.eq_def]
        simp only [ne_eq, not_true_eq_false, if_false, hx, hc, not_false_eq_true, if_true]

/-- What the second loop leaves: the string, with room for the terminator. -/
def Unescaped (done lit : List UInt8) (o : StringOutput) : Prop :=
  ∃ s, unescape lit = some s ∧ Room (done ++ s) 1 o

theorem Unescaped.of_step {lit bytes : List UInt8}
    (hstep : unescape lit = (unescape r).map (bytes ++ ·)) (h : Unescaped (done ++ bytes) r o) :
    Unescaped done lit o := by
  obtain ⟨s, hs, hroom⟩ := h
  exact ⟨bytes ++ s, by rw [hstep, hs]; rfl, by rwa [← List.append_assoc]⟩

/-- The second loop of `parse_string`, which has `lit` in front of it. -/
theorem unescapeAt_meets {turns : ℕ} {lit : List UInt8}
    (hcontent : content.drop i = lit ++ 34 :: behind) (he : e = i + lit.length)
    (hturns : lit.length < turns) (hroom : Room done (units lit + 1) o) :
    (unescapeAt content e turns i).Meets o (fun _ o' => Unescaped done lit o')
      (fun _ => unescape lit = none) := by
  induction turns generalizing i lit done o with
  | zero => omega
  | succ turns ih =>
      rw [unescapeAt]
      cases lit with
      | nil =>
          rw [if_neg (by rw [he, List.length_nil]; omega)]
          exact Attempt.meets_pure ⟨[], rfl, by rwa [List.append_nil]⟩
      | cons b r =>
      rw [if_pos (by rw [he, List.length_cons]; omega)]
      refine contentAt_meets (getElem?_of_drop hcontent 0) ?_
      by_cases hplain : b ≠ 92
      · rw [if_pos hplain]
        rw [units_plain hplain, Nat.add_comm 1] at hroom
        have hbyte := unescape_byte hplain r
        refine (putByte_meets hroom b).bind ?_
        intro _ o' ho'
        simp only [List.length_cons] at he hturns
        refine (ih (drop_of_drop (s := [b]) hcontent) ?_ (by omega) ho').mono
          (fun _ o'' h => h.of_step hbyte) fun _ hnone => ?_
        · rw [he, List.length_singleton]
          omega
        · rw [hbyte, hnone]
          rfl
      rw [if_neg hplain]
      obtain rfl : b = 92 := Decidable.not_not.mp hplain
      cases r with
      | nil =>
          -- Only behind a malformed `\u`: the closing quote is taken for the escaped byte.
          have hquote : (escapeAt content i e).Meets o
              (fun n o' => n = 2 ∧ Room (done ++ [34]) 1 o') (fun _ => unescape [92] = none) := by
            refine contentAt_meets (getElem?_of_drop hcontent 1) ?_
            refine (putByte_meets hroom 34).bind ?_
            intro _ o' ho'
            exact Attempt.meets_pure ⟨rfl, ho'⟩
          refine hquote.bind ?_
          rintro n o' ⟨rfl, ho'⟩
          cases turns with
          | zero => simp at hturns
          | succ turns =>
              rw [unescapeAt, if_neg (by rw [he, List.length_singleton]; omega)]
              exact Attempt.meets_pure ⟨[34], rfl, ho'⟩
      | cons c r =>
          simp only [List.length_cons] at he hturns
          refine (escapeAt_meets hcontent (by omega) hroom).bind ?_
          rintro n o' ⟨bytes, taken, r', hsplit, rfl, hpos, hstep, ho'⟩
          have hcount := congrArg List.length hsplit
          simp only [List.length_cons, List.length_append] at hcount
          have hdrop : content.drop (i + taken.length) = r' ++ 34 :: behind :=
            drop_of_drop (by rw [hcontent, hsplit, List.append_assoc])
          refine (ih hdrop (by omega) (by omega) ho').mono (fun _ o'' h => h.of_step hstep)
            fun _ hnone => ?_
          rw [hstep, hnone]
          rfl

/-! ### The buffer -/

/-- The buffer is in front of `rest`, so many levels deep, and the blocks `ids` are in
use. -/
structure Stands (content : List UInt8) (p : ParseBuffer) (depth : ℕ) (ids : List ℕ)
    (rest : List UInt8) : Prop where
  inside : p.offset ≤ content.length
  rest_eq : content.drop p.offset = rest
  depth_eq : p.depth = depth
  inUse : p.heap.InUse ids

/-- Parsing was given up with only the blocks `ids` in use; if memory did not fail, the
text is bad. -/
def Stopped (M : Allocator) (ids : List ℕ) (bad : Prop) (p : ParseBuffer) : Prop :=
  p.heap.InUse ids ∧ (M.Ample → bad)

variable {A : Arch} {M : Allocator} {p : ParseBuffer} {depth : ℕ} {ids : List ℕ}
  {rest lit : List UInt8}

theorem Stopped.mono {bad bad' : Prop} (h : Stopped M ids bad p) (himp : bad → bad') :
    Stopped M ids bad' p :=
  ⟨h.1, fun hM => himp (h.2 hM)⟩

theorem meets_stopped {α : Type} {m : Parsing α} {Q : α → ParseBuffer → Prop} {bad bad' : Prop}
    (h : m.Meets p Q (Stopped M ids bad)) (himp : bad → bad') :
    m.Meets p Q (Stopped M ids bad') :=
  h.mono (fun _ _ hdone => hdone) fun _ hstop => hstop.mono himp

theorem Stands.stopped {bad : Prop} (h : Stands content p depth ids rest) (hbad : bad) :
    Stopped M ids bad p :=
  ⟨h.inUse, fun _ => hbad⟩

theorem allocateBytes_meets (n : ℕ) (bad : Prop) (h : Stands content p depth ids rest) :
    (allocateBytes M n).Meets p
      (fun b p' => b.bytes.length = n ∧ p'.offset = p.offset ∧
        Stands content p' depth (b.id :: ids) rest)
      (Stopped M ids bad) := by
  obtain ⟨hM, heap, hr, hheap⟩ | ⟨b, heap, hlen, hr, hheap⟩ := h.inUse.allocate M n
  · have hrun : allocateBytes M n p = some (none, { p with heap := heap }) := by
      rw [allocateBytes, hr]
    exact Attempt.meets_of_gaveUp hrun ⟨hheap, fun hample => absurd hM (hample _)⟩
  · have hrun : allocateBytes M n p = some (some b, { p with heap := heap }) := by
      rw [allocateBytes, hr]
    exact Attempt.meets_of_result hrun
      ⟨hlen, rfl, h.inside, h.rest_eq, h.depth_eq, hheap⟩

theorem here_meets {c : UInt8} {r : List UInt8} (b : UInt8) {Q : Unit → ParseBuffer → Prop}
    {F : ParseBuffer → Prop} (h : Stands content p depth ids (c :: r)) (hQ : c = b → Q () p)
    (hF : c ≠ b → F p) : (here content b).Meets p Q F := by
  have hc : content[p.offset]? = some c := getElem?_of_drop h.rest_eq 0
  by_cases hcb : c = b
  · exact Attempt.meets_of_result (by rw [here, hc, Option.map_some, if_pos hcb]) (hQ hcb)
  · exact Attempt.meets_of_gaveUp (by rw [here, hc, Option.map_some, if_neg hcb]) (hF hcb)

/-- The literal is written into a block as large as it counts for. -/
theorem fillString_meets {output : HeapBlock} {start : ℕ}
    (hcontent : content.drop start = lit ++ 34 :: behind)
    (hsize : output.bytes.length = units lit + 2)
    (h : Stands content p depth (output.id :: ids) rest) :
    (fillString content output start (start + lit.length)).Meets p
      (fun b p' => p = p' ∧ b.id = output.id ∧
        ∃ s, unescape lit = some s ∧ s ++ [0] <+: b.bytes)
      (Stopped M ids (unescape lit = none)) := by
  have hlen : lit.length < content.length + 1 := by
    have hcount := congrArg List.length hcontent
    simp only [List.length_drop, List.length_append, List.length_cons] at hcount
    omega
  have hroom : Room [] (units lit + 1) ⟨output.bytes, 0⟩ := ⟨output.bytes, rfl, by omega⟩
  obtain ⟨r, o, hrun, hresult, hbad⟩ := (unescapeAt_meets hcontent rfl hlen hroom).exists
  cases r with
  | none =>
      obtain ⟨heap, hfree, hheap⟩ := h.inUse.free
      have hfill : fillString content output start (start + lit.length) p =
          some (none, { p with heap := heap }) := by
        simp only [fillString, hrun, hfree, Option.map_some]
      exact Attempt.meets_of_gaveUp hfill ⟨hheap, fun _ => hbad rfl⟩
  | some u =>
      obtain ⟨s, hs, more, rfl, hmore⟩ := hresult u rfl
      rw [List.nil_append] at hrun
      have hstore : store (s ++ more) s.length 0 = some (s ++ [0] ++ more.drop 1) :=
        store_append 0 rfl (List.length_pos_iff.mp hmore)
      have hfill : fillString content output start (start + lit.length) p =
          some (some ⟨output.id, s ++ [0] ++ more.drop 1⟩, p) := by
        simp only [fillString, hrun, hstore, Option.map_some]
      exact Attempt.meets_of_result hfill ⟨rfl, rfl, s, hs, List.prefix_append ..⟩

theorem parseString_unclosed (h : scanString r = none) : parseString (34 :: r) = none := by
  rw [parseString, if_neg (by decide), h]
  rfl

theorem parseString_closed (h : scanString r = some (lit, behind)) :
    parseString (34 :: r) = (unescape lit).map fun s => (s, behind) := by
  rw [parseString, if_neg (by decide), h]
  rfl

/-- `parse_string` on memory is `parse_string`, with a new block for the string. -/
theorem parseStringAt_meets {c : UInt8} (item : Item) (hA : content.length ≤ A.ptrdiffMax)
    (h : Stands content p depth ids (c :: r)) :
    (parseStringAt A M content item).Meets p
      (fun item' p' => ∃ s behind b, parseString (c :: r) = some (s, behind) ∧
        item' = { item with type := .string, valuestring := some b } ∧ s ++ [0] <+: b.bytes ∧
        Stands content p' depth (b.id :: ids) behind)
      (Stopped M ids (parseString (c :: r) = none)) := by
  have hrest : content.drop (p.offset + 1) = r := drop_of_drop (s := [c]) h.rest_eq
  have hinside : p.offset + 1 + r.length = content.length := by
    have hcount := congrArg List.length h.rest_eq
    simp only [List.length_drop, List.length_cons] at hcount
    omega
  refine Attempt.Meets.bind (here_meets (Q := fun _ p' => c = 34 ∧ p = p') 34 h
    (fun hc => ⟨hc, rfl⟩) fun hc => h.stopped (by rw [parseString, if_pos hc])) ?_
  rintro _ _ ⟨rfl, rfl⟩
  refine Attempt.Meets.bind
    (Attempt.meets_of_result (Q := fun start p' => start = p.offset ∧ p = p') rfl ⟨rfl, rfl⟩) ?_
  rintro _ _ ⟨rfl, rfl⟩
  have hquote := closingQuote_eq 0 p (show p.offset + 1 ≤ content.length by omega)
    (show content.length < p.offset + 1 + (content.length + 1) by omega)
  rw [hrest] at hquote
  cases hscan : scanString r with
  | none =>
      rw [hscan] at hquote
      exact Attempt.Meets.bind (Q := fun _ _ => False)
        (Attempt.meets_of_gaveUp hquote (h.stopped (parseString_unclosed hscan)))
        fun _ _ hfalse => hfalse.elim
  | some found =>
      obtain ⟨lit, behind⟩ := found
      rw [hscan] at hquote
      have hsplit := scanString_split hscan
      have hlit : lit.length + 1 ≤ r.length := by
        rw [hsplit, List.length_append, List.length_cons]
        omega
      have hparse := parseString_closed hscan
      refine Attempt.Meets.bind (Q := fun found p' =>
        found = (p.offset + 1 + lit.length, lit.length - units lit) ∧ p = p')
        (Attempt.meets_of_result hquote ⟨by rw [Nat.zero_add], rfl⟩) ?_
      rintro _ _ ⟨rfl, rfl⟩
      dsimp only
      -- What the first loop counted, with the quote and the terminator.
      have hsize : A.add (A.sub (p.offset + 1 + lit.length - p.offset) (lit.length - units lit)) 1 =
          units lit + 2 := by
        have hbound := A.two_mul_ptrdiffMax_lt
        have hle := units_le_length lit
        rw [A.sub_of_le (by omega) (by omega), A.add_of_lt (by omega)]
        omega
      rw [hsize]
      refine (allocateBytes_meets (units lit + 2) _ h).bind ?_
      rintro output q ⟨hlen, hoffset, hq⟩
      rw [hsplit] at hrest
      refine (meets_stopped (fillString_meets hrest hlen hq) fun hnone => ?_).bind ?_
      · rw [hparse, hnone]
        rfl
      rintro b _ ⟨rfl, hid, s, hs, hprefix⟩
      refine Attempt.meets_change_bind rfl ?_
      refine Attempt.meets_pure ⟨s, behind, b, by rw [hparse, hs]; rfl, rfl, hprefix, ?_, ?_,
        hq.depth_eq, by rw [hid]; exact hq.inUse⟩
      · dsimp only
        omega
      · have hbehind := drop_of_drop (s := lit ++ [34]) (t := behind)
          (by rw [hrest, List.append_assoc]; rfl)
        rwa [List.length_append, List.length_singleton, ← Nat.add_assoc] at hbehind

end Savvy.CJson
