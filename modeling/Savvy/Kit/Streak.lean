import Mathlib.Data.List.TakeWhile

/-!
Histories that grow by one event at a time. What is said of every event of a
history is checked at its last one. A counter that is raised by some events,
cleared by others and left alone by the rest holds the streak of its history: the
number of events that raised it since the last one that cleared it.
-/

namespace Savvy.Kit

variable {α : Type*} {hit clears : α → Bool}

/-- A property of every entry and its place, when one is added. -/
theorem forall_getElem?_concat {P : ℕ → α → Prop} {h : List α} {a : α} :
    (∀ (i : ℕ) (x : α), (h ++ [a])[i]? = some x → P i x) ↔
      (∀ (i : ℕ) (x : α), h[i]? = some x → P i x) ∧ P h.length a := by
  constructor
  · intro hall
    refine ⟨fun i x hi => hall i x ?_, hall _ a List.getElem?_concat_length⟩
    rw [List.getElem?_append_left (List.getElem?_eq_some_iff.mp hi).1]
    exact hi
  · rintro ⟨hall, hlast⟩ i x hi
    rcases Nat.lt_or_ge i h.length with hlt | hge
    · rw [List.getElem?_append_left hlt] at hi
      exact hall i x hi
    · obtain ⟨hlt, -⟩ := List.getElem?_eq_some_iff.mp hi
      rw [List.length_append, List.length_singleton] at hlt
      obtain rfl : i = h.length := by omega
      rw [List.getElem?_concat_length] at hi
      obtain rfl := Option.some.inj hi
      exact hlast

/-- The number of hits of a history behind its last clearing event. -/
def streak (hit clears : α → Bool) (h : List α) : ℕ :=
  (h.reverse.takeWhile fun a => !clears a).countP hit

@[simp] theorem streak_nil : streak hit clears [] = 0 := rfl

theorem streak_concat_clear {a : α} (h : List α) (ha : clears a = true) :
    streak hit clears (h ++ [a]) = 0 := by
  simp [streak, ha]

theorem streak_concat_hit {a : α} (h : List α) (ha : clears a = false) (hhit : hit a = true) :
    streak hit clears (h ++ [a]) = streak hit clears h + 1 := by
  simp [streak, ha, hhit]

theorem streak_concat_other {a : α} (h : List α) (ha : clears a = false) (hhit : hit a = false) :
    streak hit clears (h ++ [a]) = streak hit clears h := by
  simp [streak, ha, hhit]

theorem streak_le_length (h : List α) : streak hit clears h ≤ h.length := by
  calc streak hit clears h ≤ (h.reverse.takeWhile fun a => !clears a).length :=
        List.countP_le_length
    _ ≤ h.reverse.length := (List.takeWhile_sublist _).length_le
    _ = h.length := List.length_reverse

end Savvy.Kit
