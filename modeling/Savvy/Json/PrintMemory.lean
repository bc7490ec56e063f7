import Savvy.Json.PrintBuffer

/-!
The print buffer against the printer. A function that prints is judged by what it
leaves in the buffer: `Passed` text that `offset` is behind, or `Printed` text that
the next `update_offset` will find by its zero. The judgments of two functions make
the judgment of their sequence, so each function is proved once and a value by
induction. The size that `ensure` is asked for never exceeds the text of the whole
value by more than two bytes, which makes the bound on the length exact.
-/

namespace Savvy.CJson

open Kit

variable (M : Hooks)

/-! ### What the buffer holds -/

/-- The buffer holds a text that `offset` has passed, with some bytes behind it, and
it is the only block in use. -/
def Holds (p : PrintBuffer) (text rest : List UInt8) : Prop :=
  ∃ id turn, p = ⟨some ⟨id, text ++ rest⟩, (text ++ rest).length, text.length, ⟨turn, [id]⟩⟩ ∧
    rest ≠ [] ∧ (text ++ rest).length ≤ intMaxSize

/-- Printing was given up: the buffer is the only block in use or is gone, and if
memory did not fail there would have been too much text. -/
def GaveUp (needed : ℕ) (p : PrintBuffer) : Prop :=
  p.heap.live = p.buffer.toList.map (·.id) ∧ (M.memory.Ample → intMaxSize < needed)

/-- The text `w` is in the buffer behind `text`, up to a zero. -/
def Printed (p : PrintBuffer) (text w : List UInt8) : Prop :=
  ∃ done rest tail, w = done ++ rest ∧ tail ≠ [] ∧ Holds p (text ++ done) (rest ++ 0 :: tail)

section

variable {A : Arch} {M : Hooks} {p : PrintBuffer} {text rest w : List UInt8}

theorem intMaxSize_lt : 2 * intMaxSize + 2 ≤ A.sizeBound := A.two_pow_32_le_sizeBound

theorem GaveUp.mono {m n : ℕ} (h : GaveUp M m p) (hmn : m ≤ n) : GaveUp M n p :=
  ⟨h.1, fun hM => lt_of_lt_of_le (h.2 hM) hmn⟩

/-- A buffer that is freed because memory failed. -/
theorem dropped_eq {b : HeapBlock} {length offset turn turn' : ℕ} :
    (⟨some b, length, offset, ⟨turn, [b.id]⟩⟩ : PrintBuffer).dropped b ⟨turn', [b.id]⟩ =
      some ⟨none, 0, offset, ⟨turn', []⟩⟩ := by
  rw [PrintBuffer.dropped, Heap.free_only]
  rfl

theorem grow_meets {newsize : ℕ} (n : ℕ) (h : Holds p text rest)
    (hgrow : (text ++ rest).length < newsize) (hmax : newsize ≤ intMaxSize) :
    (grow A M newsize).Meets p
      (fun _ p' => ∃ rest', Holds p' text rest' ∧ text.length + rest'.length = newsize)
      (GaveUp M n) := by
  obtain ⟨id, turn, rfl, hne, -⟩ := h
  have hlen : 0 < rest.length := List.length_pos_iff.mpr hne
  have hgave (hM : M.memory turn = none) :
      GaveUp M n ⟨none, 0, text.length, ⟨turn + 1, []⟩⟩ :=
    ⟨rfl, fun hample => absurd hM (hample turn)⟩
  cases hre : M.reallocates with
  | true =>
      obtain ⟨hfail, hr⟩ | ⟨b', -, hlen', htake, hr⟩ :=
        Heap.reallocate_cases (M := M.memory) (b := ⟨id, text ++ rest⟩) turn newsize
      · refine Attempt.meets_of_gaveUp ?_ (hgave hfail)
        simp only [grow, hre, hr, if_true, dropped_eq (b := ⟨id, text ++ rest⟩), Option.map_some]
      · -- The bytes that fit are all of the old block.
        have hall : (text ++ rest).take newsize = text ++ rest :=
          List.take_of_length_le (le_of_lt hgrow)
        rw [hall, Nat.min_eq_right (le_of_lt hgrow)] at htake
        have hsplit : b'.bytes = text ++ (rest ++ b'.bytes.drop (text ++ rest).length) :=
          calc b'.bytes
              = b'.bytes.take (text ++ rest).length ++ b'.bytes.drop (text ++ rest).length :=
                (List.take_append_drop ..).symm
            _ = text ++ (rest ++ b'.bytes.drop (text ++ rest).length) := by
                rw [htake, List.append_assoc]
        have hrun : grow A M newsize ⟨some ⟨id, text ++ rest⟩, (text ++ rest).length, text.length,
            ⟨turn, [id]⟩⟩ =
              some (some (), ⟨some b', newsize, text.length, ⟨turn + 1, [b'.id]⟩⟩) := by
          simp only [grow, hre, hr, if_true]
        refine Attempt.meets_of_result hrun ?_
        refine ⟨_, ⟨b'.id, turn + 1, by rw [← hsplit, hlen'], by simp [hne],
          by rw [← hsplit, hlen']; exact hmax⟩, ?_⟩
        rw [← List.length_append, ← hsplit, hlen']
  | false =>
      obtain ⟨hfail, hr⟩ | ⟨b', hid, hlen', hr⟩ :=
        Heap.allocate_cases (M := M.memory) (h := ⟨turn, [id]⟩) newsize
      · refine Attempt.meets_of_gaveUp ?_ (hgave hfail)
        simp only [grow, hre, hr, Bool.false_eq_true, if_false,
          dropped_eq (b := ⟨id, text ++ rest⟩), Option.map_some]
      · obtain rfl : turn = b'.id := hid.symm
        -- Only the text and the byte behind it are copied.
        have hadd : A.add text.length 1 = text.length + 1 := by
          refine A.add_of_lt (lt_of_lt_of_le ?_ (intMaxSize_lt (A := A)))
          rw [List.length_append] at hgrow
          omega
        have hfits : text.length + 1 ≤ (text ++ rest).length := by
          rw [List.length_append]
          omega
        have hcopy : copy b'.bytes 0 (text ++ rest) 0 (text.length + 1) =
            some (text ++ (rest.take 1 ++ b'.bytes.drop (text.length + 1))) := by
          have hslice : slice (text ++ rest) 0 (text.length + 1) = text ++ rest.take 1 := by
            rw [slice, List.drop_zero, List.take_length_add_append]
          rw [copy, if_pos ⟨by omega, by omega⟩, Nat.zero_add, hslice, write, List.take_zero,
            List.nil_append, Nat.zero_add, List.append_assoc, List.length_append,
            List.length_take, Nat.min_eq_left hlen]
        have hrun : grow A M newsize ⟨some ⟨id, text ++ rest⟩, (text ++ rest).length, text.length,
            ⟨b'.id, [id]⟩⟩ =
              some (some (), ⟨some ⟨b'.id, text ++ (rest.take 1 ++ b'.bytes.drop (text.length + 1))⟩,
                newsize, text.length, ⟨b'.id + 1, [b'.id]⟩⟩) := by
          simp only [grow, hre, hr, Bool.false_eq_true, if_false, hadd, hcopy, Option.bind_some,
            Heap.free_older (b := ⟨id, text ++ rest⟩), Option.map_some]
        refine Attempt.meets_of_result hrun ?_
        have hlen'' : (text ++ (rest.take 1 ++ b'.bytes.drop (text.length + 1))).length = newsize := by
          simp only [List.length_append, List.length_take, List.length_drop, hlen']
          omega
        refine ⟨_, ⟨b'.id, b'.id + 1, by rw [hlen''], ?_, by rw [hlen'']; exact hmax⟩, ?_⟩
        · simp [hne]
        · rw [← List.length_append, hlen'']

theorem Holds.gaveUp {n : ℕ} (h : Holds p text rest) (hn : intMaxSize < n) : GaveUp M n p := by
  obtain ⟨id, turn, rfl, -, -⟩ := h
  exact ⟨rfl, fun _ => hn⟩

/-- After `ensure` there is room for so many bytes, and for one more. -/
theorem ensure_meets (needed : ℕ) (h : Holds p text rest) :
    (ensure A M needed).Meets p (fun _ p' => ∃ rest', Holds p' text rest' ∧ needed < rest'.length)
      (GaveUp M (text.length + needed + 1)) := by
  have hbound := intMaxSize_lt (A := A)
  obtain ⟨id, turn, hp, hne, hmax⟩ := id h
  have hlen : 0 < rest.length := List.length_pos_iff.mpr hne
  have hoffset : p.offset = text.length := by rw [hp]
  have hlength : p.length = text.length + rest.length := by rw [hp, ← List.length_append]
  have hbuffer : p.buffer ≠ none := by simp [hp]
  have hmax' : text.length + rest.length ≤ intMaxSize := by rwa [← List.length_append]
  by_cases hhuge : intMaxSize < needed
  · refine Attempt.meets_of_gaveUp ?_ (h.gaveUp (by omega))
    rw [ensure, if_neg hbuffer, if_neg (by omega), if_pos hhuge]
  have hadd : A.add needed (A.add p.offset 1) = needed + (text.length + 1) := by
    rw [hoffset, A.add_of_lt (b := 1) (by omega), A.add_of_lt (by omega)]
  have hensure : ensure A M needed p =
      if needed + (text.length + 1) ≤ p.length then some (some (), p)
      else if intMaxSize / 2 < needed + (text.length + 1) then
        if needed + (text.length + 1) ≤ intMaxSize then grow A M intMaxSize p else some (none, p)
      else grow A M (A.mul (needed + (text.length + 1)) 2) p := by
    rw [ensure, if_neg hbuffer, if_neg (by omega), if_neg hhuge, hadd]
  -- A buffer that has grown so far has the room.
  have hgrown (newsize : ℕ) (hroom : needed + (text.length + 1) ≤ newsize)
      (hgrow : p.length < newsize) (hnewsize : newsize ≤ intMaxSize) :
      (grow A M newsize).Meets p
        (fun _ p' => ∃ rest', Holds p' text rest' ∧ needed < rest'.length)
        (GaveUp M (text.length + needed + 1)) := by
    refine (grow_meets _ h (by rw [List.length_append, ← hlength]; exact hgrow) hnewsize).mono ?_
      fun _ hgave => hgave
    rintro _ p' ⟨rest', hholds, heq⟩
    exact ⟨rest', hholds, by omega⟩
  rw [Attempt.Meets, hensure]
  split_ifs with hfits hhalf hle
  · exact ⟨rest, h, by omega⟩
  · exact hgrown intMaxSize hle (by omega) (le_refl _)
  · exact h.gaveUp (by omega)
  · rw [A.mul_of_lt (by omega)]
    exact hgrown _ (by omega) (by omega) (by omega)

theorem put_meets {i : ℕ} {bytes : List UInt8} {F : PrintBuffer → Prop} (h : Holds p text rest)
    (hi : i + bytes.length ≤ rest.length) :
    (put i bytes).Meets p (fun _ p' => Holds p' text (write rest i bytes)) F := by
  obtain ⟨id, turn, rfl, hne, hmax⟩ := h
  have hlen : (write rest i bytes).length = rest.length := length_write hi
  have hcopy : copy (text ++ rest) (text.length + i) bytes 0 bytes.length =
      some (text ++ write rest i bytes) := by
    rw [copy_all (by rw [List.length_append]; omega), write_append_right]
  refine Attempt.meets_change (by simp only [Option.bind_some, hcopy, Option.map_some]; rfl) ?_
  refine ⟨id, turn, by rw [List.length_append, List.length_append, hlen], ?_, ?_⟩
  · rw [← List.length_pos_iff, hlen]
    exact List.length_pos_iff.mpr hne
  · rwa [List.length_append, hlen, ← List.length_append]

theorem advance_meets {F : PrintBuffer → Prop} {done : List UInt8} {n : ℕ}
    (h : Holds p text (done ++ rest)) (hn : n = done.length) (hrest : rest ≠ []) :
    (advance A n).Meets p (fun _ p' => Holds p' (text ++ done) rest) F := by
  subst hn
  have hbound := intMaxSize_lt (A := A)
  obtain ⟨id, turn, rfl, -, hmax⟩ := h
  have hadd : A.add text.length done.length = (text ++ done).length := by
    simp only [List.length_append] at hmax
    rw [A.add_of_lt (by omega), List.length_append]
  refine Attempt.meets_change rfl ⟨id, turn, ?_, hrest, by rwa [List.append_assoc]⟩
  dsimp only
  rw [hadd, List.append_assoc]

theorem strlen_eq {tail : List UInt8} (hw : 0 ∉ w) : strlen (w ++ 0 :: tail) = some w.length := by
  rw [strlen, if_pos (by simp), cstr_append_zero hw]

theorem updateOffset_meets {F : PrintBuffer → Prop} (h : Printed p text w) (hw : 0 ∉ w) :
    (updateOffset A).Meets p (fun _ p' => ∃ tail, Holds p' (text ++ w) (0 :: tail) ∧ tail ≠ []) F := by
  have hbound := intMaxSize_lt (A := A)
  obtain ⟨done, rest, tail, rfl, htail, id, turn, rfl, -, hmax⟩ := h
  have hrest : 0 ∉ rest := fun hmem => hw (List.mem_append_right _ hmem)
  have hadd : A.add (text ++ done).length rest.length = (text ++ (done ++ rest)).length := by
    simp only [List.length_append] at hmax
    rw [A.add_of_lt (by simp only [List.length_append]; omega)]
    simp only [List.length_append]
    omega
  refine Attempt.meets_change (by
    dsimp only
    rw [List.drop_left, strlen_eq hrest, Option.map_some, hadd]) ?_
  refine ⟨tail, ⟨id, turn, ?_, by simp, ?_⟩, htail⟩
  · simp only [List.append_assoc]
  · simpa only [List.append_assoc] using hmax

/-! ### What the functions print -/

/-- The text `w` is behind `text` and is passed. -/
def Passed (p : PrintBuffer) (text w : List UInt8) : Prop := ∃ rest, Holds p (text ++ w) rest

/-- Wherever it is called, the function leaves the text `w` as `Q` says. -/
def Outputs (M : Hooks) (Q : PrintBuffer → List UInt8 → List UInt8 → Prop) (m : Printing Unit)
    (w : List UInt8) : Prop :=
  ∀ p text rest, Holds p text rest →
    m.Meets p (fun _ p' => Q p' text w) (GaveUp M (text.length + w.length + 2))

/-- What is passed can be counted to the text or to what is printed. -/
def Shifts (Q : PrintBuffer → List UInt8 → List UInt8 → Prop) : Prop :=
  ∀ p text done w, Q p (text ++ done) w → Q p text (done ++ w)

theorem shifts_passed : Shifts Passed := by
  rintro p text done w ⟨rest, h⟩
  exact ⟨rest, by rwa [← List.append_assoc]⟩

theorem shifts_printed : Shifts Printed := by
  rintro p text done w ⟨done', rest, tail, rfl, htail, h⟩
  exact ⟨done ++ done', rest, tail, (List.append_assoc ..).symm, htail, by
    rwa [← List.append_assoc]⟩

section

variable {Q : PrintBuffer → List UInt8 → List UInt8 → Prop} {m k : Printing Unit} {w' : List UInt8}

theorem Outputs.next (hQ : Shifts Q) (h : Outputs M Passed m w) (hk : Outputs M Q k w') :
    Outputs M Q (do m; k) (w ++ w') := by
  intro p text rest hp
  refine ((h p text rest hp).mono (fun _ _ h => h) fun p' hgave => hgave.mono ?_).bind ?_
  · rw [List.length_append]
    omega
  rintro _ p' ⟨rest', hp'⟩
  refine (hk p' _ rest' hp').mono (fun _ p'' h => hQ _ _ _ _ h) fun p'' hgave => hgave.mono ?_
  simp only [List.length_append]
  omega

theorem Outputs.update (hQ : Shifts Q) (h : Outputs M Printed m w) (hw : 0 ∉ w)
    (hk : Outputs M Q k w') : Outputs M Q (do m; updateOffset A; k) (w ++ w') := by
  intro p text rest hp
  refine ((h p text rest hp).mono (fun _ _ h => h) fun p' hgave => hgave.mono ?_).bind ?_
  · rw [List.length_append]
    omega
  intro _ p' hprinted
  refine (updateOffset_meets hprinted hw).bind ?_
  rintro _ p'' ⟨tail, hp'', -⟩
  refine (hk p'' _ (0 :: tail) hp'').mono (fun _ _ h => hQ _ _ _ _ h) fun _ hgave => hgave.mono ?_
  simp only [List.length_append]
  omega

theorem outputs_pure : Outputs M Passed (pure ()) [] := by
  intro p text rest hp
  exact Attempt.meets_pure ⟨rest, by rwa [List.append_nil]⟩

end

theorem printByte_outputs {needed : ℕ} (hneeded : 1 ≤ needed) (hle : needed ≤ 2) (b : UInt8) :
    Outputs M Passed (printByte A M needed b) [b] := by
  intro p text rest hp
  refine ((ensure_meets needed hp).mono (fun _ _ h => h) fun _ hgave => hgave.mono ?_).bind ?_
  · rw [List.length_singleton]
    omega
  rintro _ p' ⟨rest', hp', hroom⟩
  refine (put_meets hp' (by rw [List.length_singleton]; omega)).bind ?_
  intro _ p'' hp''
  rw [write_zero] at hp''
  refine (advance_meets hp'' rfl ?_).mono (fun _ _ h => ⟨_, h⟩) fun _ hgave => hgave
  rw [← List.length_pos_iff, List.length_drop, List.length_singleton]
  omega

theorem put_two {F : PrintBuffer → Prop} {k : Unit → Printing Unit}
    {Q : Unit → PrintBuffer → Prop} (b c : UInt8) (hp : Holds p text rest) (hroom : 2 < rest.length)
    (hk : ∀ p' tail, tail ≠ [] → Holds p' text (b :: c :: tail) → (k ()).Meets p' Q F) :
    (do put 0 [b]; put 1 [c]; k ()).Meets p Q F := by
  obtain ⟨x, y, tail, rfl⟩ := exists_two (le_of_lt hroom)
  refine (put_meets hp (by simp)).bind ?_
  intro _ p' hp'
  refine (put_meets hp' (by simp [write])).bind ?_
  intro _ p'' hp''
  refine hk p'' tail ?_ (by simpa [write] using hp'')
  rintro rfl
  simp at hroom

theorem printClose_outputs (b : UInt8) : Outputs M Printed (printClose A M b) [b] := by
  intro p text rest hp
  refine ((ensure_meets 2 hp).mono (fun _ _ h => h) fun _ hgave => hgave.mono ?_).bind ?_
  · rw [List.length_singleton]
  rintro _ p' ⟨rest', hp', hroom⟩
  rw [← Attempt.bind_pure (put 1 [0])]
  refine put_two (k := pure) b 0 hp' hroom fun p'' tail htail hp'' => ?_
  exact Attempt.meets_pure ⟨[], [b], tail, rfl, htail, by rwa [List.append_nil]⟩

theorem printComma_outputs : Outputs M Passed (printComma A M) [44] := by
  intro p text rest hp
  refine ((ensure_meets 2 hp).mono (fun _ _ h => h) fun _ hgave => hgave.mono ?_).bind ?_
  · rw [List.length_singleton]
  rintro _ p' ⟨rest', hp', hroom⟩
  refine put_two (k := fun _ => advance A 1) 44 0 hp' hroom fun p'' tail htail hp'' => ?_
  rw [← List.singleton_append] at hp''
  exact (advance_meets hp'' rfl (by simp)).mono (fun _ _ h => ⟨_, h⟩) fun _ hgave => hgave

def comma (last : Bool) : List UInt8 := if last then [] else [44]

theorem printItemEnd_outputs (last : Bool) :
    Outputs M Passed (printItemEnd A M last) (comma last) := by
  cases last with
  | true => exact outputs_pure
  | false => exact printComma_outputs

theorem printMemberEnd_outputs (last : Bool) :
    Outputs M Passed (printMemberEnd A M last) (comma last) := by
  cases last with
  | true =>
      intro p text rest hp
      refine ((ensure_meets 1 hp).mono (fun _ _ h => h) fun _ hgave => hgave.mono ?_).bind ?_
      · rw [comma, if_pos rfl, List.length_nil]
      rintro _ p' ⟨rest', hp', hroom⟩
      refine (put_meets hp' (by rw [List.length_singleton]; omega)).mono ?_ fun _ hgave => hgave
      intro _ p'' hp''
      exact ⟨_, by rwa [comma, if_pos rfl, List.append_nil]⟩
  | false => exact printComma_outputs

theorem printWord_outputs (word : List UInt8) : Outputs M Printed (printWord A M word) word := by
  intro p text rest hp
  refine ((ensure_meets (word.length + 1) hp).mono (fun _ _ h => h)
    fun _ hgave => hgave.mono (by omega)).bind ?_
  rintro _ p' ⟨rest', hp', hroom⟩
  have hlen : (word ++ [(0 : UInt8)]).length = word.length + 1 := by simp
  refine (put_meets hp' (by rw [hlen]; omega)).mono ?_ fun _ hgave => hgave
  intro _ p'' hp''
  rw [write_zero, List.append_assoc] at hp''
  refine ⟨[], word, rest'.drop (word ++ [0]).length, rfl, ?_, by rw [List.append_nil]; exact hp''⟩
  rw [← List.length_pos_iff, List.length_drop, hlen]
  omega

theorem sprintfAll_meets {F : PrintBuffer → Prop} (texts : List (List UInt8))
    (h : ∀ text ∈ texts, text.length + 1 ≤ 26) :
    (sprintfAll texts).Meets p (fun _ p' => p' = p) F := by
  induction texts with
  | nil => exact Attempt.meets_pure rfl
  | cons text texts ih =>
      obtain ⟨htext, htexts⟩ := List.forall_mem_cons.mp h
      have hsprintf : (sprintf text).Meets p (fun _ p' => p' = p) F :=
        Attempt.meets_change (by rw [if_pos htext]) rfl
      refine hsprintf.bind ?_
      rintro _ p' rfl
      exact ih htexts

theorem printNumberAt_outputs {d : Double} (hd : d.InRange) :
    Outputs M Printed (printNumberAt A M d) (printNumber d) := by
  intro p text rest hp
  refine (sprintfAll_meets _ (length_numberTexts_le hd)).bind ?_
  rintro _ p' rfl
  refine ((ensure_meets ((printNumber d).length + 1) hp).mono (fun _ _ h => h)
    fun _ hgave => hgave.mono (by omega)).bind ?_
  rintro _ p' ⟨rest', hp', hroom⟩
  have hlen : (printNumber d ++ [(0 : UInt8)]).length = (printNumber d).length + 1 := by simp
  refine (put_meets hp' (by rw [hlen]; omega)).bind ?_
  intro _ p'' hp''
  rw [write_zero, List.append_assoc] at hp''
  refine (advance_meets hp'' rfl (by simp)).mono ?_ fun _ hgave => hgave
  intro _ p''' hp'''
  refine ⟨printNumber d, [], rest'.drop (printNumber d ++ [0]).length,
    (List.append_nil _).symm, ?_, by simpa using hp'''⟩
  rw [← List.length_pos_iff, List.length_drop, hlen]
  omega

/-! ### Strings -/

theorem length_escapeByte (b : UInt8) : (escapeByte b).length = 1 + escapeExtra b := by
  by_cases hplain : 31 < b
  · have hcontrol : ¬ b < 32 ∧ b ≠ 8 ∧ b ≠ 12 ∧ b ≠ 10 ∧ b ≠ 13 ∧ b ≠ 9 := by grind
    unfold escapeByte escapeExtra
    split_ifs <;> simp_all
  · have hcontrol : b < 32 := by grind
    unfold escapeByte escapeExtra
    split_ifs <;> simp_all

theorem escapeByte_of_plain {b : UInt8} (hb : escapeExtra b = 0) : escapeByte b = [b] := by
  unfold escapeByte escapeExtra at *
  grind

theorem length_escaped (s : List UInt8) :
    (s.flatMap escapeByte).length = s.length + (s.map escapeExtra).sum := by
  induction s with
  | nil => rfl
  | cons b s ih =>
      rw [List.flatMap_cons, List.length_append, length_escapeByte, ih, List.length_cons,
        List.map_cons, List.sum_cons]
      omega

theorem foldl_escapeExtra {s : List UInt8} {n : ℕ}
    (h : n + (s.map escapeExtra).sum < A.sizeBound) :
    s.foldl (fun n b => A.add n (escapeExtra b)) n = n + (s.map escapeExtra).sum := by
  induction s generalizing n with
  | nil => rfl
  | cons b s ih =>
      rw [List.map_cons, List.sum_cons] at h
      rw [List.foldl_cons, A.add_of_lt (by omega), ih (by omega), List.map_cons, List.sum_cons]
      omega

/-- A string without anything to escape is copied as it is. -/
theorem escaped_of_none {s : List UInt8} (h : (s.map escapeExtra).sum = 0) :
    s.flatMap escapeByte = s := by
  induction s with
  | nil => rfl
  | cons b s ih =>
      rw [List.map_cons, List.sum_cons] at h
      rw [List.flatMap_cons, escapeByte_of_plain (by omega), ih (by omega)]
      rfl

/-- The loop writes behind what is written, and once a zero further on. -/
theorem putEscaped_meets {F : PrintBuffer → Prop} {done more : List UInt8} (s : List UInt8)
    (hp : Holds p text (done ++ more)) (hroom : (s.flatMap escapeByte).length < more.length) :
    (putEscaped A done.length s).Meets p
      (fun _ p' => ∃ more', Holds p' text (done ++ s.flatMap escapeByte ++ more') ∧
        (s.flatMap escapeByte).length + more'.length = more.length) F := by
  induction s generalizing p done more with
  | nil => exact Attempt.meets_pure ⟨more, by simpa using hp, by simp⟩
  | cons b s ih =>
      rw [List.flatMap_cons, List.length_append] at hroom
      -- What is written of the byte, as far as it is passed.
      have hput : ∃ more' : List UInt8,
          (put done.length (if escapeExtra b = 5 then escapeByte b ++ [0] else escapeByte b)).Meets
            p (fun _ p' => Holds p' text (done ++ escapeByte b ++ more')) F ∧
          (escapeByte b).length + more'.length = more.length := by
        split
        · refine ⟨0 :: more.drop ((escapeByte b).length + 1), ?_, ?_⟩
          · refine (put_meets hp ?_).mono ?_ fun _ h => h
            · simp only [List.length_append, List.length_singleton]
              omega
            · intro _ p' hp'
              rw [write_append rfl] at hp'
              simpa using hp'
          · rw [List.length_cons, List.length_drop]
            omega
        · refine ⟨more.drop (escapeByte b).length, ?_, ?_⟩
          · refine (put_meets hp ?_).mono ?_ fun _ h => h
            · rw [List.length_append]
              omega
            · intro _ p' hp'
              rwa [write_append rfl] at hp'
          · rw [List.length_drop]
            omega
      obtain ⟨more', hmeets, hlen⟩ := hput
      refine hmeets.bind ?_
      intro _ p' hp'
      have hadd : A.add done.length (escapeByte b).length = (done ++ escapeByte b).length := by
        have hbound := intMaxSize_lt (A := A)
        obtain ⟨id, turn, -, -, hmax⟩ := hp
        simp only [List.length_append] at hmax
        rw [A.add_of_lt (by omega), List.length_append]
      rw [hadd]
      refine (ih hp' (by omega)).mono ?_ fun _ h => h
      rintro _ p'' ⟨more'', hp'', hlen'⟩
      refine ⟨more'', by simpa using hp'', ?_⟩
      rw [List.flatMap_cons, List.length_append]
      omega

theorem putString_meets {F : PrintBuffer → Prop} {b : UInt8} {more : List UInt8} (s : List UInt8)
    (hs : (s.map escapeExtra).sum < A.sizeBound) (hp : Holds p text (b :: more))
    (hroom : (s.flatMap escapeByte).length < more.length) :
    (putString A s).Meets p
      (fun _ p' => ∃ more', Holds p' text (b :: (s.flatMap escapeByte ++ more')) ∧
        (s.flatMap escapeByte).length + more'.length = more.length) F := by
  have hcount : escapeCharacters A s = (s.map escapeExtra).sum := by
    rw [escapeCharacters, foldl_escapeExtra (by omega), Nat.zero_add]
  unfold putString
  rw [hcount]
  split
  · next hnone =>
      have hplain := escaped_of_none hnone
      rw [hplain] at hroom ⊢
      have hmem : write (b :: more) 1 s = b :: (s ++ more.drop s.length) :=
        calc write ([b] ++ more) 1 s
            = [b] ++ s ++ more.drop s.length := write_append rfl
          _ = b :: (s ++ more.drop s.length) := rfl
      refine (put_meets hp ?_).mono ?_ fun _ h => h
      · rw [List.length_cons]
        omega
      · intro _ p' hp'
        refine ⟨more.drop s.length, hmem ▸ hp', ?_⟩
        rw [List.length_drop]
        omega
  · rw [← List.singleton_append] at hp
    refine (putEscaped_meets s hp hroom).mono ?_ fun _ h => h
    rintro _ p' ⟨more', hp', hlen⟩
    exact ⟨more', by simpa using hp', hlen⟩

theorem printStringAt_outputs {s : List UInt8} (hs : (printString s).length + 1 < A.sizeBound) :
    Outputs M Printed (printStringAt A M s) (printString s) := by
  intro p text rest hp
  have hescaped := length_escaped (cstr s)
  have hlen : (printString s).length = ((cstr s).flatMap escapeByte).length + 2 := by
    rw [printString, List.length_cons, List.length_append, List.length_singleton]
  have hcount : escapeCharacters A (cstr s) = ((cstr s).map escapeExtra).sum := by
    rw [escapeCharacters, foldl_escapeExtra (by omega), Nat.zero_add]
  have hout : A.add (cstr s).length (escapeCharacters A (cstr s)) =
      ((cstr s).flatMap escapeByte).length := by
    rw [hcount, A.add_of_lt (by omega), hescaped]
  unfold printStringAt
  rw [hout, A.add_of_lt (b := 3) (by omega), A.add_of_lt (b := 2) (by omega),
    A.add_of_lt (b := 1) (by omega)]
  generalize hw : (cstr s).flatMap escapeByte = w at *
  refine ((ensure_meets (w.length + 3) hp).mono (fun _ _ h => h)
    fun _ hgave => hgave.mono (by omega)).bind ?_
  rintro _ p' ⟨rest', hp', hroom⟩
  refine (put_meets hp' (by rw [List.length_singleton]; omega)).bind ?_
  intro _ p₁ hp₁
  rw [write_zero, List.singleton_append, List.length_singleton] at hp₁
  refine (putString_meets (cstr s) (by omega) hp₁ ?_).bind ?_
  · rw [hw, List.length_drop]
    omega
  rintro _ p₂ ⟨more, hp₂, hmore⟩
  rw [hw] at hp₂ hmore
  rw [List.length_drop] at hmore
  obtain ⟨x, y, tail, rfl⟩ := exists_two (show 2 ≤ more.length by omega)
  -- The quote and the zero go to the two bytes behind the text.
  have hquote : write (34 :: (w ++ x :: y :: tail)) (w.length + 1) [34] =
      34 :: (w ++ 34 :: y :: tail) :=
    calc write ((34 :: w) ++ x :: y :: tail) (w.length + 1) [34]
        = (34 :: w) ++ [34] ++ (x :: y :: tail).drop 1 := write_append rfl
      _ = 34 :: (w ++ 34 :: y :: tail) := by simp
  have hzero : write (34 :: (w ++ 34 :: y :: tail)) (w.length + 2) [0] =
      34 :: (w ++ 34 :: 0 :: tail) :=
    calc write (34 :: (w ++ 34 :: y :: tail)) (w.length + 2) [0]
        = write ((34 :: (w ++ [34])) ++ y :: tail) (w.length + 2) [0] := by simp
      _ = (34 :: (w ++ [34])) ++ [0] ++ (y :: tail).drop 1 := write_append (by simp)
      _ = 34 :: (w ++ 34 :: 0 :: tail) := by simp
  refine (put_meets hp₂ (by simp)).bind ?_
  intro _ p₃ hp₃
  rw [hquote] at hp₃
  refine (put_meets hp₃ (by simp)).mono ?_ fun _ h => h
  intro _ p₄ hp₄
  rw [hzero] at hp₄
  refine ⟨[], printString s, tail, rfl, ?_, ?_⟩
  · rintro rfl
    simp only [List.length_cons, List.length_nil] at hmore
    omega
  · rw [List.append_nil, printString, hw]
    simpa using hp₄

/-! ### Values -/

theorem printItems_cons (v : Json) (rest : List Json) :
    printItems (v :: rest) = printValue v ++ (comma rest.isEmpty ++ printItems rest) := by
  cases rest with
  | nil => rfl
  | cons v' rest => rw [printItems]; rfl

theorem printMembers_cons (name : List UInt8) (v : Json) (rest : List (List UInt8 × Json)) :
    printMembers ((name, v) :: rest) =
      printString name ++ ([58] ++ (printValue v ++ (comma rest.isEmpty ++ printMembers rest))) := by
  cases rest with
  | nil => rfl
  | cons m rest => rw [printMembers]; rfl

theorem printItemsAt_outputs {items : List Json}
    (h : ∀ v ∈ items, Outputs M Printed (printValueAt A M v) (printValue v)) :
    Outputs M Passed (printItemsAt A M items) (printItems items) := by
  induction items with
  | nil => exact outputs_pure
  | cons v rest ih =>
      obtain ⟨hv, hrest⟩ := List.forall_mem_cons.mp h
      rw [printItems_cons, printItemsAt]
      refine hv.update shifts_passed (zero_not_mem_printValue_any v) ?_
      exact (printItemEnd_outputs rest.isEmpty).next shifts_passed (ih hrest)

theorem printMembersAt_outputs {members : List (List UInt8 × Json)}
    (hnames : ∀ m ∈ members, (printString m.1).length + 1 < A.sizeBound)
    (h : ∀ m ∈ members, Outputs M Printed (printValueAt A M m.2) (printValue m.2)) :
    Outputs M Passed (printMembersAt A M members) (printMembers members) := by
  induction members with
  | nil => exact outputs_pure
  | cons m rest ih =>
      obtain ⟨name, v⟩ := m
      obtain ⟨hname, hnames⟩ := List.forall_mem_cons.mp hnames
      obtain ⟨hv, hrest⟩ := List.forall_mem_cons.mp h
      rw [printMembers_cons, printMembersAt]
      refine (printStringAt_outputs hname).update shifts_passed (zero_not_mem_printString name) ?_
      refine (printByte_outputs (le_refl _) (by decide) 58).next shifts_passed ?_
      refine hv.update shifts_passed (zero_not_mem_printValue_any v) ?_
      exact (printMemberEnd_outputs rest.isEmpty).next shifts_passed (ih hnames hrest)

end

mutual

/-- The numbers are in the range of a `double`, and a `size_t` can count the bytes
of each string as it is printed. -/
def Printable (A : Arch) : Json → Prop
  | .null | .bool _ => True
  | .number d => d.InRange
  | .string s => (printString s).length + 1 < A.sizeBound
  | .array items => PrintableItems A items
  | .object members => PrintableMembers A members

def PrintableItems (A : Arch) : List Json → Prop
  | [] => True
  | v :: rest => Printable A v ∧ PrintableItems A rest

def PrintableMembers (A : Arch) : List (List UInt8 × Json) → Prop
  | [] => True
  | (name, v) :: rest =>
      (printString name).length + 1 < A.sizeBound ∧ Printable A v ∧ PrintableMembers A rest

end

section

variable {A : Arch} {M : Hooks}

theorem PrintableItems.mem {items : List Json} (h : PrintableItems A items) :
    ∀ v ∈ items, Printable A v := by
  induction items with
  | nil => exact fun v hv => absurd hv List.not_mem_nil
  | cons v rest ih => exact List.forall_mem_cons.mpr ⟨h.1, ih h.2⟩

theorem PrintableMembers.mem {members : List (List UInt8 × Json)} (h : PrintableMembers A members) :
    ∀ m ∈ members, (printString m.1).length + 1 < A.sizeBound ∧ Printable A m.2 := by
  induction members with
  | nil => exact fun m hm => absurd hm List.not_mem_nil
  | cons m rest ih =>
      obtain ⟨name, v⟩ := m
      exact List.forall_mem_cons.mpr ⟨⟨h.1, h.2.1⟩, ih h.2.2⟩

theorem printValueAt_outputs {v : Json} (hv : Printable A v) :
    Outputs M Printed (printValueAt A M v) (printValue v) := by
  induction v using Json.induct with
  | null => exact printWord_outputs _
  | bool b => cases b <;> exact printWord_outputs _
  | number d => exact printNumberAt_outputs hv
  | string s => exact printStringAt_outputs hv
  | array items ih =>
      have hitems : Outputs M Passed (printItemsAt A M items) (printItems items) :=
        printItemsAt_outputs fun v hmem => ih v hmem (PrintableItems.mem hv v hmem)
      exact (printByte_outputs (le_refl _) (by decide) 91).next shifts_printed
        (hitems.next shifts_printed (printClose_outputs 93))
  | object members ih =>
      have hmem := PrintableMembers.mem hv
      have hmembers : Outputs M Passed (printMembersAt A M members) (printMembers members) :=
        printMembersAt_outputs (fun m hm => (hmem m hm).1) fun m hm => ih m hm (hmem m hm).2
      exact (printByte_outputs (by decide) (le_refl _) 123).next shifts_printed
        (hmembers.next shifts_printed (printClose_outputs 125))

/-- The block that is returned has the text and its zero, and nothing else is in
use. -/
theorem finish_meets {p : PrintBuffer} {w rest : List UInt8} (h : Holds p w (0 :: rest)) :
    (finish A M).Meets p
      (fun printed p' => printed.bytes = w ++ [0] ∧ p'.buffer = none ∧ p'.heap.live = [printed.id])
      (fun p' => p'.heap.live = p'.buffer.toList.map (·.id) ∧ ¬ M.memory.Ample) := by
  have hbound := intMaxSize_lt (A := A)
  obtain ⟨id, turn, rfl, -, hmax⟩ := h
  have hlen : (w ++ 0 :: rest).length = w.length + 1 + rest.length := by
    rw [List.length_append, List.length_cons]
    omega
  have hadd : A.add w.length 1 = w.length + 1 := A.add_of_lt (by omega)
  have hfront : (w ++ 0 :: rest).take (w.length + 1) = w ++ [0] := by
    rw [List.take_length_add_append]
    rfl
  have hfailed (hM : M.memory turn = none) : ¬ M.memory.Ample := fun hample => hample turn hM
  cases hre : M.reallocates with
  | true =>
      obtain ⟨hfail, hr⟩ | ⟨b', -, hlen', htake, hr⟩ :=
        Heap.reallocate_cases (M := M.memory) (b := ⟨id, w ++ 0 :: rest⟩) turn (w.length + 1)
      · refine Attempt.meets_of_gaveUp
          (by simp only [finish, hre, if_true, hadd, hr, Option.map_some]; rfl) ?_
        exact ⟨rfl, hfailed hfail⟩
      · refine Attempt.meets_of_result
          (by simp only [finish, hre, if_true, hadd, hr, Option.map_some]; rfl) ?_
        refine ⟨?_, rfl, rfl⟩
        dsimp only at htake
        rw [Nat.min_eq_left (by omega), hfront] at htake
        rw [← htake, List.take_of_length_le (le_of_eq hlen')]
  | false =>
      obtain ⟨hfail, hr⟩ | ⟨b', hid, hlen', hr⟩ :=
        Heap.allocate_cases (M := M.memory) (h := ⟨turn, [id]⟩) (w.length + 1)
      · refine Attempt.meets_of_gaveUp
          (by simp only [finish, hre, Bool.false_eq_true, if_false, hadd, hr]; rfl) ?_
        exact ⟨rfl, hfailed hfail⟩
      · obtain rfl : turn = b'.id := hid.symm
        have hmin : min (w ++ 0 :: rest).length (w.length + 1) = w.length + 1 := by omega
        have hcopy : copy b'.bytes 0 (w ++ 0 :: rest) 0 (w.length + 1) = some (w ++ [0]) := by
          rw [copy, if_pos ⟨by omega, by omega⟩, Nat.zero_add, slice, List.drop_zero, hfront,
            write_zero, List.drop_eq_nil_of_le, List.append_nil]
          rw [List.length_append, hlen', List.length_singleton]
        have hstore : store (w ++ [0]) w.length 0 = some (w ++ [0]) :=
          (store_append 0 rfl (List.cons_ne_nil 0 [])).trans (by simp)
        refine Attempt.meets_of_result (by
          simp only [finish, hre, Bool.false_eq_true, if_false, hadd, hr, hmin, hcopy,
            Option.bind_some, hstore, Heap.free_older (b := ⟨id, w ++ 0 :: rest⟩), Option.map_some]
          rfl) ?_
        exact ⟨rfl, rfl, rfl⟩

theorem printAll_meets {p : PrintBuffer} {rest : List UInt8} {v : Json} (hv : Printable A v)
    (h : Holds p [] rest) :
    (printAll A M v).Meets p
      (fun printed p' => printed.bytes = printValue v ++ [0] ∧ p'.heap.live = [printed.id] ∧
        (printValue v).length + 2 ≤ intMaxSize)
      (fun p' => p'.heap.live = p'.buffer.toList.map (·.id) ∧
        (M.memory.Ample → intMaxSize < (printValue v).length + 2)) := by
  have hprint := printValueAt_outputs (M := M) hv p [] rest h
  rw [List.length_nil, Nat.zero_add] at hprint
  refine hprint.bind ?_
  intro _ p₁ hp₁
  refine (updateOffset_meets hp₁ (zero_not_mem_printValue_any v)).bind ?_
  rintro _ p₂ ⟨tail, hp₂, htail⟩
  rw [List.nil_append] at hp₂
  have hfits : (printValue v).length + 2 ≤ intMaxSize := by
    have hpos := List.length_pos_iff.mpr htail
    obtain ⟨id, turn, -, -, hmax⟩ := hp₂
    rw [List.length_append, List.length_cons] at hmax
    omega
  refine (finish_meets hp₂).mono ?_ ?_
  · rintro printed p' ⟨hbytes, -, hlive⟩
    exact ⟨hbytes, hlive, hfits⟩
  · rintro p' ⟨hlive, hfail⟩
    exact ⟨hlive, fun hample => absurd hample hfail⟩

end

/-- `cJSON_PrintUnformatted` prints the text of a value. Whatever the allocator
does, no byte outside of a block is touched and no block is freed twice: the block
that is returned holds the text and its zero, and no other is left in use; or NULL
is returned and none is. As long as memory does not fail, NULL means that the text
with two bytes more does not fit into an `int`. -/
theorem printAt_refines (A : Arch) (M : Hooks) (v : Json) (turn : ℕ) (hv : Printable A v) :
    ∃ r heap, printAt A M v ⟨turn, []⟩ = some (r, heap) ∧
      (∀ b, r = some b → b.bytes = printUnformatted v ++ [0] ∧ heap.live = [b.id]) ∧
      (r = none → heap.live = []) ∧
      (M.memory.Ample → (r ≠ none ↔ (printUnformatted v).length + 2 ≤ intMaxSize)) := by
  obtain ⟨hfail, hr⟩ | ⟨b, hid, hlen, hr⟩ :=
    Heap.allocate_cases (M := M.memory) (h := ⟨turn, []⟩) 256
  · refine ⟨none, ⟨turn + 1, []⟩, by simp only [printAt, hr], ?_, fun _ => rfl, ?_⟩
    · rintro b ⟨⟩
    · exact fun hample => absurd hfail (hample turn)
  obtain rfl : turn = b.id := hid.symm
  have hholds : Holds ⟨some b, 256, 0, ⟨b.id + 1, [b.id]⟩⟩ [] b.bytes := by
    refine ⟨b.id, b.id + 1, by rw [List.nil_append, hlen]; rfl, ?_, ?_⟩
    · rw [← List.length_pos_iff, hlen]
      decide
    · rw [List.nil_append, hlen]
      decide
  obtain ⟨r, p, hp, hsome, hnone⟩ := (printAll_meets (M := M) hv hholds).exists
  cases r with
  | some printed =>
      obtain ⟨hbytes, hlive, hfits⟩ := hsome printed rfl
      refine ⟨some printed, p.heap, by simp only [printAt, hr, hp], ?_, ?_, ?_⟩
      · rintro b' ⟨⟩
        exact ⟨hbytes, hlive⟩
      · rintro ⟨⟩
      · exact fun _ => ⟨fun _ => hfits, fun _ => Option.some_ne_none _⟩
  | none =>
      obtain ⟨hlive, hlong⟩ := hnone rfl
      have hclean : ∃ heap, printFailed p = some heap ∧ heap.live = [] := by
        obtain ⟨buffer, length, offset, heapTurn, live⟩ := p
        cases buffer with
        | none => exact ⟨_, rfl, hlive⟩
        | some b' =>
            obtain rfl : live = [b'.id] := hlive
            exact ⟨_, Heap.free_only, rfl⟩
      obtain ⟨heap, hfailed, hempty⟩ := hclean
      refine ⟨none, heap, by simp only [printAt, hr, hp, hfailed, Option.map_some], ?_,
        fun _ => hempty, ?_⟩
      · rintro b' ⟨⟩
      · intro hample
        have := hlong hample
        refine ⟨fun h => absurd rfl h, fun hle => ?_⟩
        rw [printUnformatted] at hle
        omega

def plenty : Hooks := ⟨fun _ => some fun _ => 170, true⟩

/-- An array with a string that has to be escaped. -/
theorem printAt_refines_array :
    ∃ b heap, printAt .lp64 plenty (.array [.string [97, 10], .bool true, .null]) ⟨0, []⟩ =
        some (some b, heap) ∧
      b.bytes = ascii "[\"a\\n\",true,null]" ++ [0] ∧ heap.live = [b.id] := by
  have hprintable : Printable .lp64 (.array [.string [97, 10], .bool true, .null]) :=
    ⟨show (printString [97, 10]).length + 1 < Arch.lp64.sizeBound by decide, trivial, trivial,
      trivial⟩
  have htext : printUnformatted (.array [.string [97, 10], .bool true, .null]) =
      ascii "[\"a\\n\",true,null]" := by rfl
  obtain ⟨r, heap, hr, hsome, -, hfits⟩ := printAt_refines .lp64 plenty _ 0 hprintable
  have hne : r ≠ none := (hfits fun turn => Option.some_ne_none _).mpr (by rw [htext]; decide)
  obtain ⟨b, rfl⟩ := Option.ne_none_iff_exists'.mp hne
  obtain ⟨hbytes, hlive⟩ := hsome b rfl
  exact ⟨b, heap, hr, by rw [hbytes, htext], hlive⟩

end Savvy.CJson
