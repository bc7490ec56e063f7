import Mathlib.Data.List.Induction
import Mathlib.Data.Nat.Digits.Defs
import Savvy.Json.DataResult
import Savvy.Json.RoundTrip

/-!
The policy for the result of an analysis: which members `result` have a value,
and which one. The value of a text of digits is that of its digits to the base
ten, however long the text is.
-/

namespace Savvy.CJson

/-! ### The policy -/

def decimalValue (ds : List UInt8) : ℕ := Nat.ofDigits 10 (ds.reverse.map fun b => b.toNat - 48)

/-- A text `-?[0-9]+` and its decimal value. -/
inductive Numeral : List UInt8 → ℤ → Prop
  | plain {ds : List UInt8} (hne : ds ≠ []) (hds : ∀ b ∈ ds, 48 ≤ b ∧ b ≤ 57) :
      Numeral ds (decimalValue ds)
  | minus {ds : List UInt8} (hne : ds ≠ []) (hds : ∀ b ∈ ds, 48 ≤ b ∧ b ≤ 57) :
      Numeral (45 :: ds) (-(decimalValue ds : ℤ))

/-- What a member `result`, or its absence, stands for. -/
inductive Denotes : Option Json → ℤ → Prop
  | missing : Denotes none 0
  | null : Denotes (some .null) 0
  | number {r : ℤ} (hr : IsInt32 r) : Denotes (some (.number (.finite r))) r
  | string {s : List UInt8} {r : ℤ} (hs : Numeral (cstr s) r) (hr : IsInt32 r) :
      Denotes (some (.string s)) r

def lastNamedResult (members : List (List UInt8 × Json)) : Option Json :=
  (members.filter fun m => cstr m.1 = ascii "result").getLast?.map (·.2)

/-! ### The code -/

theorem lastResult_eq (members : List (List UInt8 × Json)) :
    lastResult members = lastNamedResult members := by
  induction members using List.reverseRecOn with
  | nil => rfl
  | append_singleton members m ih =>
      rw [lastResult, List.foldl_append, lastNamedResult, List.filter_append]
      change (if cstr m.1 = ascii "result" then some m.2 else lastResult members) = _
      by_cases hm : cstr m.1 = ascii "result"
      · simp [hm]
      · simp [hm, ih, lastNamedResult]

theorem digitsValue_eq (ds : List UInt8) : digitsValue ds = decimalValue ds := by
  induction ds using List.reverseRecOn with
  | nil => rfl
  | append_singleton ds b ih =>
      rw [digitsValue_concat, ih, decimalValue, decimalValue, List.reverse_append]
      simp [Nat.ofDigits_cons, Nat.add_comm]

theorem numberToInt32_iff (d : Double) (r : ℤ) :
    numberToInt32 (.number d) = .ok r ↔ Denotes (some (.number d)) r := by
  constructor
  · intro h
    cases d with
    | inf neg => cases h
    | finite q =>
        simp only [numberToInt32] at h
        split at h
        · cases h
        next hden =>
          split at h
          · cases h
          next hrange =>
            cases h
            have hq : q = (q.num : ℚ) := ((Rat.den_eq_one_iff q).mp (Decidable.not_not.mp hden)).symm
            have hr : IsInt32 q.num := by
              rw [not_or, Int.not_lt, Int.not_lt] at hrange
              exact hrange
            have hdenotes := Denotes.number hr
            rwa [← hq] at hdenotes
  · rintro (_ | _ | hr)
    obtain ⟨hmin, hmax⟩ := hr
    have hrange : ¬ (r < intMin ∨ intMax < r) := by omega
    simp [numberToInt32, hrange]

theorem isDigit_iff (b : UInt8) : isDigit b = true ↔ 48 ≤ b ∧ b ≤ 57 := by
  rw [isDigit, Bool.and_eq_true, decide_eq_true_eq, decide_eq_true_eq]

theorem all_isDigit_iff (ds : List UInt8) :
    (ds.any fun b => !isDigit b) = false ↔ ∀ b ∈ ds, 48 ≤ b ∧ b ≤ 57 := by
  simp only [List.any_eq_false, Bool.not_eq_true', Bool.not_eq_false, isDigit_iff]

theorem numeral_iff (s : List UInt8) (r : ℤ) :
    Numeral s r ↔
      ∃ ds, ds = (if s.head? = some 45 then s.drop 1 else s) ∧ ds ≠ [] ∧
        (ds.any fun b => !isDigit b) = false ∧
        r = if s.head? = some 45 then -(digitsValue ds : ℤ) else digitsValue ds := by
  constructor
  · rintro (⟨hne, hds⟩ | ⟨hne, hds⟩)
    · have hsign : s.head? ≠ some 45 := by
        intro hhead
        have hmem := List.mem_of_mem_head? hhead
        exact absurd (hds 45 hmem).1 (by decide)
      refine ⟨s, by rw [if_neg hsign], hne, (all_isDigit_iff s).mpr hds, ?_⟩
      rw [if_neg hsign, digitsValue_eq]
    · next ds =>
      refine ⟨ds, rfl, hne, (all_isDigit_iff ds).mpr hds, ?_⟩
      rw [digitsValue_eq]
      simp
  · rintro ⟨ds, hds, hne, hdigits, hr⟩
    rw [all_isDigit_iff] at hdigits
    rw [digitsValue_eq] at hr
    by_cases hsign : s.head? = some 45
    · rw [if_pos hsign] at hds hr
      obtain ⟨t, rfl⟩ := List.head?_eq_some_iff.mp hsign
      obtain rfl : ds = t := hds
      rw [hr]
      exact .minus hne hdigits
    · rw [if_neg hsign] at hds hr
      rw [hds] at hne hdigits hr
      rw [hr]
      exact .plain hne hdigits

theorem stringToInt32_iff (s : List UInt8) (r : ℤ) :
    stringToInt32 s = .ok r ↔ Numeral s r ∧ IsInt32 r := by
  rw [numeral_iff]
  constructor
  · intro h
    simp only [stringToInt32] at h
    generalize (if s.head? = some 45 then s.drop 1 else s) = ds at h ⊢
    generalize hv : (if s.head? = some 45 then -(digitsValue ds : ℤ) else digitsValue ds) = v at h ⊢
    split at h
    · cases h
    next hne =>
      split at h
      · cases h
      next hdigits =>
        split at h
        · cases h
        split at h
        · cases h
        next hrange =>
          cases h
          rw [not_or, Int.not_lt, Int.not_lt] at hrange
          rw [Bool.not_eq_true] at hdigits
          exact ⟨⟨ds, rfl, hne, hdigits, hv.symm⟩, hrange⟩
  · rintro ⟨⟨ds, rfl, hne, hdigits, hr⟩, hmin, hmax⟩
    -- `strtoll` has room for every `int32_t`
    have hlong : ¬ (r < llongMin ∨ llongMax < r) := by
      simp only [intMin, intMax, llongMin, llongMax] at *
      omega
    have hrange : ¬ (r < intMin ∨ intMax < r) := by omega
    simp only [stringToInt32]
    rw [if_neg hne, hdigits, if_neg Bool.false_ne_true, ← hr, if_neg hlong, if_neg hrange]

theorem valueToInt32_iff (item : Json) (r : ℤ) (hnull : item ≠ .null) :
    valueToInt32 item = .ok r ↔ Denotes (some item) r := by
  cases item with
  | null => exact absurd rfl hnull
  | number d => exact numberToInt32_iff d r
  | string s =>
      rw [valueToInt32, stringToInt32_iff]
      refine ⟨fun h => .string h.1 h.2, fun h => ?_⟩
      cases h with
      | string hs hr => exact ⟨hs, hr⟩
  | bool b =>
      refine iff_of_false (by simp [valueToInt32]) fun h => ?_
      cases h
  | array items =>
      refine iff_of_false (by simp [valueToInt32]) fun h => ?_
      cases h
  | object members =>
      refine iff_of_false (by simp [valueToInt32]) fun h => ?_
      cases h

/-- The root of a text whose result is `r`. -/
def RootDenotes (root : Json) (r : ℤ) : Prop :=
  ∃ members, root = .object members ∧ Denotes (lastNamedResult members) r

/-- On a member that is there and not `null`, the value decides. -/
theorem dataResultOfRootInto_object {members : List (List UInt8 × Json)} {item : Json} (out : ℤ)
    (hitem : lastNamedResult members = some item) (hnull : item ≠ .null) :
    dataResultOfRootInto (.object members) out =
      match valueToInt32 item with
      | .ok v => (.ok, v)
      | .error _ => (.protocol, out) := by
  rw [← lastResult_eq] at hitem
  rw [dataResultOfRootInto, hitem]
  cases item with
  | null => exact absurd rfl hnull
  | _ => rfl

/-- The result of the policy, or an error that leaves `*out` as it was. -/
theorem dataResultOfRootInto_cases (root : Json) (out : ℤ) :
    (∃ r, dataResultOfRootInto root out = (.ok, r) ∧ ∀ r', RootDenotes root r' ↔ r' = r) ∨
      dataResultOfRootInto root out = (.protocol, out) ∧ ∀ r, ¬ RootDenotes root r := by
  cases root with
  | object members =>
      have hroot (r : ℤ) : RootDenotes (.object members) r ↔ Denotes (lastNamedResult members) r := by
        refine ⟨fun h => ?_, fun h => ⟨members, rfl, h⟩⟩
        obtain ⟨_, heq, h⟩ := h
        cases heq
        exact h
      simp only [hroot]
      cases hlast : lastNamedResult members with
      | none =>
          refine .inl ⟨0, ?_, fun r => ⟨fun h => ?_, fun h => ?_⟩⟩
          · rw [dataResultOfRootInto, lastResult_eq, hlast]
          · cases h
            rfl
          · rw [h]
            exact .missing
      | some item =>
          by_cases hnull : item = .null
          · refine .inl ⟨0, ?_, fun r => ⟨fun h => ?_, fun h => ?_⟩⟩
            · rw [dataResultOfRootInto, lastResult_eq, hlast, hnull]
            · rw [hnull] at h
              cases h
              rfl
            · rw [h, hnull]
              exact .null
          · rw [dataResultOfRootInto_object out hlast hnull]
            have hiff := fun r => valueToInt32_iff item r hnull
            simp only [← hiff]
            cases valueToInt32 item with
            | ok v => exact .inl ⟨v, rfl, fun r => by rw [Except.ok.injEq, eq_comm]⟩
            | error status => exact .inr ⟨rfl, fun r => by simp⟩
  | _ =>
      refine .inr ⟨rfl, fun r h => ?_⟩
      obtain ⟨_, heq, _⟩ := h
      cases heq

/-! ### The text that is built -/

theorem isInt32_of {r : ℤ} (hr : IsInt32 r) : isInt32 (.finite r) = true := by
  obtain ⟨hmin, hmax⟩ := hr
  simp [isInt32, hmin, hmax]

/-- The text that `savvy_data_result_build` writes is read back. -/
theorem parseAt_build {r : ℤ} (hr : IsInt32 r) (more : List UInt8) :
    parseAt true (dataResultBuild r ++ 0 :: more) (dataResultBuild r).length =
      some (.ok (.object [(ascii "result", .number (.finite r))])) := by
  have hname : (!(ascii "result").contains 0) = true := by decide
  have hplain : isPlain (.object [(ascii "result", .number (.finite r))]) = true := by
    simp only [isPlain, isPlainMembers, hname, isInt32_of hr, Bool.and_self]
  have hdepth : depth (.object [(ascii "result", .number (.finite r))]) ≤ nestingLimit := by
    simp [depth, depthMembers, nestingLimit]
  have hutf8 : utf8Validate (ascii "result") = true := by decide
  refine parseAt_print hplain hdepth (.inl rfl) ?_ more
  simp only [checkUtf8, checkUtf8Members, hutf8, Bool.and_self]

/-- `savvy_data_result_parse` follows the policy on every text that parses, and
reads back what `savvy_data_result_build` writes. -/
theorem dataResultParse_policy (out : ℤ) :
    (∀ mem len root, parseAt true mem len = some (.ok root) →
      (∀ r, dataResultParseInto mem len out = some (.ok, r) ↔ RootDenotes root r) ∧
        ((∀ r, ¬ RootDenotes root r) → dataResultParseInto mem len out = some (.protocol, out))) ∧
      ∀ r, IsInt32 r → ∀ more,
        dataResultParseInto (dataResultBuild r ++ 0 :: more) (dataResultBuild r).length out =
          some (.ok, r) := by
  have hparse {mem : List UInt8} {len : ℕ} {root : Json}
      (h : parseAt true mem len = some (.ok root)) :
      dataResultParseInto mem len out = some (dataResultOfRootInto root out) := by
    rw [dataResultParseInto, h]
  constructor
  · intro mem len root h
    rw [hparse h]
    obtain ⟨r, heq, hr⟩ | ⟨heq, hnone⟩ := dataResultOfRootInto_cases root out
    · rw [heq]
      constructor
      · intro r'
        rw [hr, Option.some.injEq, Prod.mk.injEq, eq_comm (a := r)]
        exact and_iff_right rfl
      · intro hnot
        exact absurd ((hr r).mpr rfl) (hnot r)
    · rw [heq]
      constructor
      · intro r
        exact iff_of_false (by simp) (hnone r)
      · intro _
        rfl
  · intro r hr more
    have hdenotes : RootDenotes (.object [(ascii "result", .number (.finite r))]) r :=
      ⟨_, rfl, .number hr⟩
    rw [hparse (parseAt_build hr more)]
    obtain ⟨r', heq, hr'⟩ | ⟨-, hnone⟩ := dataResultOfRootInto_cases
      (.object [(ascii "result", .number (.finite r))]) out
    · rw [heq, (hr' r).mp hdenotes]
    · exact absurd hdenotes (hnone r)

theorem dataResultParse_policy_quoted :
    dataResultParseInto (ascii "\x7b\"result\":null,\"result\":\"-007\"\x7d\x00") 31 4 =
      some (.ok, -7) := by
  have hparse : parseAt true (ascii "\x7b\"result\":null,\"result\":\"-007\"\x7d\x00") 31 =
      some (.ok (.object [(ascii "result", .null), (ascii "result", .string (ascii "-007"))])) := by
    rfl
  have hminus : Numeral (ascii "-007") (-7) :=
    Numeral.minus (show ascii "007" ≠ [] by decide) (by decide +kernel)
  exact (((dataResultParse_policy 4).1 _ _ _ hparse).1 (-7)).mpr
    ⟨_, rfl, .string hminus ⟨by decide, by decide⟩⟩

end Savvy.CJson
