import Mathlib.Data.Set.Insert

/-!
Descriptors in fields. A field of the code that can hold a descriptor is an `int`,
and a negative one stands for none.
-/

namespace Savvy

def held (fd : Int32) : Set Int32 := {h | 0 ≤ h ∧ h = fd}

theorem held_of_neg {fd : Int32} (h : fd < 0) : held fd = ∅ := by
  ext x
  simp only [held, Set.mem_ofPred_eq, Set.mem_empty_iff_false, iff_false, not_and]
  rintro hx rfl
  exact Int32.not_lt.mpr hx h

theorem mem_held {fd : Int32} (h : 0 ≤ fd) : fd ∈ held fd := ⟨h, rfl⟩

/-- What a call that opens a descriptor, or fails and returns a negative number,
leaves in a field. -/
theorem held_eq_opened (fd : Int32) : {h | h ∈ if 0 ≤ fd then [fd] else []} = held fd := by
  ext h
  simp only [held, Set.mem_ofPred_eq]
  split
  · next hfd =>
      rw [List.mem_singleton]
      exact ⟨fun heq => ⟨heq ▸ hfd, heq⟩, And.right⟩
  · next hfd =>
      simp only [List.not_mem_nil, false_iff, not_and]
      rintro hnonneg rfl
      exact hfd hnonneg

theorem held_diff (fd : Int32) : held fd \ {fd} = ∅ := by
  ext h
  simp [held]

end Savvy
