import Mathlib.Tactic.Common

/-!
Byte buffers. A block of memory is the list of its bytes; `slice` reads the
bytes between two offsets and `write` is `memcpy` into the block. A write that
stays inside the block keeps its length, so a buffer whose length never
changes was never written out of bounds.
-/

namespace Savvy.Kit

variable {α : Type*}

def slice (buf : List α) (i j : ℕ) : List α := (buf.take j).drop i

/-- `memcpy(buf + off, bytes, |bytes|)`. -/
def write (buf : List α) (off : ℕ) (bytes : List α) : List α :=
  buf.take off ++ bytes ++ buf.drop (off + bytes.length)

@[simp] theorem slice_self (buf : List α) (i : ℕ) : slice buf i i = [] := by
  simp [slice]

theorem length_slice {buf : List α} {i j : ℕ} (hj : j ≤ buf.length) :
    (slice buf i j).length = j - i := by
  simp [slice, Nat.min_eq_left hj]

theorem length_write {buf bytes : List α} {off : ℕ} (h : off + bytes.length ≤ buf.length) :
    (write buf off bytes).length = buf.length := by
  simp only [write, List.length_append, List.length_take, List.length_drop]
  omega

theorem slice_append_slice {buf : List α} {i j k : ℕ} (hij : i ≤ j) (hjk : j ≤ k)
    (hk : k ≤ buf.length) : slice buf i j ++ slice buf j k = slice buf i k := by
  have htake : buf.take j = (buf.take k).take j := by
    rw [List.take_take, Nat.min_eq_left hjk]
  have hlen : i ≤ ((buf.take k).take j).length := by
    simp only [List.length_take]
    omega
  rw [slice, slice, slice, htake, ← List.drop_append_of_le_length hlen, List.take_append_drop]

theorem take_slice {buf : List α} {i j n : ℕ} (h : i + n ≤ j) :
    (slice buf i j).take n = slice buf i (i + n) := by
  rw [slice, slice, List.take_drop, List.take_take, Nat.min_eq_left h]

theorem drop_slice {buf : List α} {i j n : ℕ} : (slice buf i j).drop n = slice buf (i + n) j := by
  rw [slice, slice, List.drop_drop]

theorem getElem?_write_of_notMem {buf bytes : List α} {off i : ℕ} (hoff : off ≤ buf.length)
    (hi : i < off ∨ off + bytes.length ≤ i) : (write buf off bytes)[i]? = buf[i]? := by
  have hlen : (buf.take off).length = off := by
    rw [List.length_take, Nat.min_eq_left hoff]
  obtain hi | hi := hi
  · rw [write, List.append_assoc, List.getElem?_append_left (by omega), List.getElem?_take_of_lt hi]
  · have hlen' : (buf.take off ++ bytes).length = off + bytes.length := by
      rw [List.length_append, hlen]
    rw [write, List.getElem?_append_right (by omega), hlen', List.getElem?_drop,
      Nat.add_sub_cancel' hi]

theorem slice_congr {buf buf' : List α} {i j : ℕ}
    (h : ∀ k, i ≤ k → k < j → buf'[k]? = buf[k]?) : slice buf' i j = slice buf i j := by
  apply List.ext_getElem?
  intro k
  rw [slice, slice, List.getElem?_drop, List.getElem?_drop, List.getElem?_take, List.getElem?_take]
  split
  · exact h (i + k) (by omega) (by omega)
  · rfl

theorem slice_write_of_le {buf bytes : List α} {off i j : ℕ} (hj : j ≤ off)
    (hoff : off ≤ buf.length) : slice (write buf off bytes) i j = slice buf i j := by
  apply slice_congr
  intro k _ hk
  exact getElem?_write_of_notMem hoff (.inl (by omega))

theorem slice_write_of_ge {buf bytes : List α} {off i j : ℕ} (hi : off + bytes.length ≤ i)
    (hoff : off ≤ buf.length) : slice (write buf off bytes) i j = slice buf i j := by
  apply slice_congr
  intro k hk _
  exact getElem?_write_of_notMem hoff (.inr (by omega))

theorem slice_write_self {buf bytes : List α} {off : ℕ} (hoff : off ≤ buf.length) :
    slice (write buf off bytes) off (off + bytes.length) = bytes := by
  have hlen : (buf.take off).length = off := by
    simp [Nat.min_eq_left hoff]
  have hlen' : (buf.take off ++ bytes).length = off + bytes.length := by
    simp [hlen]
  rw [slice, write, ← hlen', List.take_left, List.drop_left' hlen]

theorem write_append {done rest bytes : List α} {off : ℕ} (hoff : off = done.length) :
    write (done ++ rest) off bytes = done ++ bytes ++ rest.drop bytes.length := by
  subst hoff
  have hdrop : (done ++ rest).drop (done.length + bytes.length) = rest.drop bytes.length := by
    rw [List.drop_append, List.drop_eq_nil_of_le (by omega), List.nil_append]
    congr 1
    omega
  rw [write, List.take_left, hdrop]

/-- `memcpy(dst + off, src + i, n)`. A byte outside of one of the blocks is a
fault (`none`). -/
def copy (dst : List α) (off : ℕ) (src : List α) (i n : ℕ) : Option (List α) :=
  if off + n ≤ dst.length ∧ i + n ≤ src.length then some (write dst off (slice src i (i + n)))
  else none

/-- `dst[off] = x`. -/
def store (dst : List α) (off : ℕ) (x : α) : Option (List α) :=
  if off < dst.length then some (write dst off [x]) else none

theorem write_zero (buf bytes : List α) : write buf 0 bytes = bytes ++ buf.drop bytes.length := by
  rw [write, List.take_zero, List.nil_append, Nat.zero_add]

theorem write_append_right (done rest bytes : List α) (i : ℕ) :
    write (done ++ rest) (done.length + i) bytes = done ++ write rest i bytes := by
  rw [write, write, List.take_length_add_append, Nat.add_assoc, List.drop_length_add_append]
  simp only [List.append_assoc]

theorem copy_all {out bytes : List α} {off : ℕ} (h : off + bytes.length ≤ out.length) :
    copy out off bytes 0 bytes.length = some (write out off bytes) := by
  rw [copy, if_pos ⟨h, by omega⟩, Nat.zero_add, slice, List.take_length]
  rfl

theorem copy_append {done rest src : List α} {off i n : ℕ} (hoff : off = done.length)
    (hn : n ≤ rest.length) (hsrc : i + n ≤ src.length) :
    copy (done ++ rest) off src i n = some (done ++ slice src i (i + n) ++ rest.drop n) := by
  have hlen : (slice src i (i + n)).length = n := by
    rw [length_slice hsrc]
    omega
  have hfits : off + n ≤ (done ++ rest).length := by
    rw [List.length_append]
    omega
  rw [copy, if_pos ⟨hfits, hsrc⟩, write_append hoff, hlen]

theorem store_append {done rest : List α} {off : ℕ} (x : α) (hoff : off = done.length)
    (hrest : rest ≠ []) : store (done ++ rest) off x = some (done ++ [x] ++ rest.drop 1) := by
  have hpos := List.length_pos_iff.mpr hrest
  have hfits : off < (done ++ rest).length := by
    rw [List.length_append]
    omega
  rw [store, if_pos hfits, write_append hoff]
  rfl

theorem exists_two {s : List α} (h : 2 ≤ s.length) : ∃ x y tail, s = x :: y :: tail := by
  rcases s with _ | ⟨x, _ | ⟨y, tail⟩⟩
  · simp at h
  · simp at h
  · exact ⟨x, y, tail, rfl⟩

theorem exists_four {s : List α} (h : 4 ≤ s.length) :
    ∃ w x y z tail, s = w :: x :: y :: z :: tail := by
  obtain ⟨w, x, tail, rfl⟩ := exists_two (s := s) (by omega)
  obtain ⟨y, z, tail, rfl⟩ := exists_two (s := tail) (by
    simp only [List.length_cons] at h
    omega)
  exact ⟨w, x, y, z, tail, rfl⟩

theorem slice_four {buf : List α} {i : ℕ} (default : α) (h : i + 4 ≤ buf.length) :
    slice buf i (i + 4) = [buf.getD i default, buf.getD (i + 1) default, buf.getD (i + 2) default,
      buf.getD (i + 3) default] := by
  apply List.ext_getElem
  · rw [length_slice h]
    simp
  · intro k hk hk'
    simp only [slice, List.getElem_drop, List.getElem_take]
    simp only [List.length_cons, List.length_nil] at hk'
    have hk4 : k = 0 ∨ k = 1 ∨ k = 2 ∨ k = 3 := by omega
    rcases hk4 with rfl | rfl | rfl | rfl
    · simp [List.getElem?_eq_getElem (show i < buf.length by omega)]
    · simp [List.getElem?_eq_getElem (show i + 1 < buf.length by omega)]
    · simp [List.getElem?_eq_getElem (show i + 2 < buf.length by omega)]
    · simp [List.getElem?_eq_getElem (show i + 3 < buf.length by omega)]

end Savvy.Kit
