import Mathlib.Tactic.Common

/-!
Deadlines on the monotonic clock (`src/core/clock.c`). A reading of the clock is
a `uint64_t` of nanoseconds; what a function reads is an argument of its model.
-/

namespace Savvy

def clockDiffMs (later earlier : UInt64) : UInt64 :=
  if later ≤ earlier then 0 else (later - earlier) / 1000000

structure Deadline where
  startedAt : UInt64
  timeoutMs : UInt32

/-- `savvy_deadline_arm`. -/
def Deadline.arm (now : UInt64) (timeoutMs : UInt32) : Deadline := ⟨now, timeoutMs⟩

def Deadline.expired (d : Deadline) (now : UInt64) : Bool :=
  d.timeoutMs.toUInt64 ≤ clockDiffMs now d.startedAt

def Deadline.remainingMs (d : Deadline) (now : UInt64) : UInt32 :=
  if d.timeoutMs.toUInt64 ≤ clockDiffMs now d.startedAt then 0
  else d.timeoutMs - (clockDiffMs now d.startedAt).toUInt32

/-! ### Elapsed time -/

def elapsedMs (start now : UInt64) : ℕ := (now.toNat - start.toNat) / 1000000

theorem toNat_clockDiffMs (later earlier : UInt64) :
    (clockDiffMs later earlier).toNat = elapsedMs earlier later := by
  unfold clockDiffMs elapsedMs
  split
  · next hle =>
      rw [UInt64.le_iff_toNat_le] at hle
      rw [Nat.sub_eq_zero_of_le hle]
      rfl
  · next hlt =>
      rw [UInt64.le_iff_toNat_le, Nat.not_le] at hlt
      have hle : earlier ≤ later := UInt64.le_iff_toNat_le.mpr (Nat.le_of_lt hlt)
      rw [UInt64.toNat_div, UInt64.toNat_sub_of_le _ _ hle]
      rfl

theorem elapsedMs_mono {now now' : UInt64} (h : now ≤ now') (start : UInt64) :
    elapsedMs start now ≤ elapsedMs start now' := by
  rw [UInt64.le_iff_toNat_le] at h
  exact Nat.div_le_div_right (Nat.sub_le_sub_right h _)

namespace Deadline

variable (d : Deadline) (now : UInt64)

theorem expired_iff :
    d.expired now = true ↔ d.timeoutMs.toNat ≤ elapsedMs d.startedAt now := by
  rw [expired, decide_eq_true_eq, UInt64.le_iff_toNat_le, toNat_clockDiffMs,
    UInt32.toNat_toUInt64]

/-- What is left of the timeout: the milliseconds that have passed fit into the
`uint32_t` they are cast to. -/
theorem toNat_remainingMs :
    (d.remainingMs now).toNat = d.timeoutMs.toNat - elapsedMs d.startedAt now := by
  unfold remainingMs
  split
  · next hle =>
      rw [UInt64.le_iff_toNat_le, UInt32.toNat_toUInt64, toNat_clockDiffMs] at hle
      rw [Nat.sub_eq_zero_of_le hle]
      rfl
  · next hlt =>
      rw [UInt64.le_iff_toNat_le, Nat.not_le, UInt32.toNat_toUInt64, toNat_clockDiffMs] at hlt
      have hbound := d.timeoutMs.toNat_lt
      have hcast : (clockDiffMs now d.startedAt).toUInt32.toNat = elapsedMs d.startedAt now := by
        rw [UInt64.toNat_toUInt32, toNat_clockDiffMs]
        exact Nat.mod_eq_of_lt (by omega)
      rw [UInt32.toNat_sub_of_le _ _ (UInt32.le_iff_toNat_le.mpr (by omega)), hcast]

end Deadline

end Savvy
