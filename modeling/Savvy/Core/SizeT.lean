import Mathlib.Algebra.Order.Ring.Nat
import Mathlib.Tactic.Common

/-!
`size_t` arithmetic. The code is built for targets whose `size_t` has 32 bits
or more, and unsigned arithmetic wraps, so a target is its width and the
operations the code uses are stated with the wrap.
-/

namespace Savvy

/-- A target: the number of bits of its `size_t`. -/
structure Arch where
  width : ℕ
  width_ge : 32 ≤ width

namespace Arch

variable (A : Arch)

/-- One past `SIZE_MAX`. -/
def sizeBound : ℕ := 2 ^ A.width

def add (a b : ℕ) : ℕ := (a + b) % A.sizeBound

def sub (a b : ℕ) : ℕ := (a + A.sizeBound - b) % A.sizeBound

def mul (a b : ℕ) : ℕ := a * b % A.sizeBound

def ptrdiffMax : ℕ := 2 ^ (A.width - 1) - 1

theorem two_pow_32_le_sizeBound : 2 ^ 32 ≤ A.sizeBound :=
  Nat.pow_le_pow_right (by decide) A.width_ge

theorem add_of_lt {a b : ℕ} (h : a + b < A.sizeBound) : A.add a b = a + b :=
  Nat.mod_eq_of_lt h

theorem mul_of_lt {a b : ℕ} (h : a * b < A.sizeBound) : A.mul a b = a * b :=
  Nat.mod_eq_of_lt h

/-- Two objects fit into the address space. -/
theorem two_mul_ptrdiffMax_lt : 2 * A.ptrdiffMax < A.sizeBound := by
  have hwidth : A.width = A.width - 1 + 1 := by
    have := A.width_ge
    omega
  have hpos : 0 < 2 ^ (A.width - 1) := Nat.two_pow_pos _
  rw [sizeBound, hwidth, Nat.pow_succ, ptrdiffMax]
  omega

theorem sub_of_le {a b : ℕ} (hba : b ≤ a) (ha : a < A.sizeBound) : A.sub a b = a - b := by
  have hsplit : a + A.sizeBound - b = (a - b) + A.sizeBound := by omega
  rw [sub, hsplit, Nat.add_mod_right]
  exact Nat.mod_eq_of_lt (by omega)

theorem sub_max {n : ℕ} (hn : n < 2 ^ 32) : A.sub (A.sizeBound - 1) n = A.sizeBound - 1 - n := by
  have hbound := A.two_pow_32_le_sizeBound
  exact A.sub_of_le (by omega) (by omega)

def lp64 : Arch := ⟨64, by decide⟩

end Arch

/-- A pointer argument together with its length argument: a null pointer, or a
block of that many bytes. -/
structure Span (A : Arch) where
  bytes : Option (List UInt8)
  len : ℕ
  len_lt : len < A.sizeBound
  length_eq : ∀ bs, bytes = some bs → bs.length = len

namespace Span

variable {A : Arch}

def null (A : Arch) : Span A where
  bytes := none
  len := 0
  len_lt := lt_of_lt_of_le (by decide) A.two_pow_32_le_sizeBound
  length_eq := by simp

def block (bs : List UInt8) (h : bs.length < A.sizeBound) : Span A where
  bytes := some bs
  len := bs.length
  len_lt := h
  length_eq := by simp

def content (s : Span A) : List UInt8 := s.bytes.getD []

@[simp] theorem bytes_null : (null A).bytes = none := rfl

@[simp] theorem len_null : (null A).len = 0 := rfl

@[simp] theorem content_null : (null A).content = [] := rfl

@[simp] theorem bytes_block (bs : List UInt8) (h : bs.length < A.sizeBound) :
    (block bs h).bytes = some bs := rfl

@[simp] theorem len_block (bs : List UInt8) (h : bs.length < A.sizeBound) :
    (block bs h).len = bs.length := rfl

@[simp] theorem content_block (bs : List UInt8) (h : bs.length < A.sizeBound) :
    (block bs h).content = bs := rfl

/-- A pair that may be null only when it is empty holds as many bytes as it
says. -/
theorem length_content {s : Span A} (h : s.bytes = none → s.len = 0) :
    s.content.length = s.len := by
  cases hb : s.bytes with
  | none => simp [content, hb, h hb]
  | some bs =>
      have hlen := s.length_eq bs hb
      simpa [content, hb] using hlen

end Span

end Savvy
