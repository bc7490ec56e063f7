import Savvy.Kit.Buffer

/-!
Memory. A block has the number of the allocation that made it, so no two blocks
have the same, and the heap knows which of them are in use. What an allocation
brings, and whether it succeeds, is up to the allocator; bytes that were not
written yet are the allocator's too.

A function that works on a state may give up, as a C function that returns
`false`, or go wrong: a byte outside of a block or a block that is freed twice is
a fault.
-/

namespace Savvy.Kit

/-! ### Functions that give up -/

/-- A function on a state: `none` is a fault, and otherwise it has given up or
has a result. -/
def Attempt (σ α : Type) := σ → Option (Option α × σ)

namespace Attempt

variable {σ α β : Type}

def bind (m : Attempt σ α) (f : α → Attempt σ β) : Attempt σ β := fun s =>
  match m s with
  | none => none
  | some (none, s) => some (none, s)
  | some (some a, s) => f a s

instance : Monad (Attempt σ) where
  pure a := fun s => some (some a, s)
  bind := bind

def giveUp : Attempt σ α := fun s => some (none, s)

def fault : Attempt σ α := fun _ => none

/-- Clean up where the function gives up. -/
def orDo (m : Attempt σ α) (cleanup : σ → Option σ) : Attempt σ α := fun s =>
  match m s with
  | some (none, s) => (cleanup s).map fun s => (none, s)
  | r => r

def change (f : σ → Option σ) : Attempt σ Unit := fun s => (f s).map fun s => (some (), s)

/-- From the state `s` the function does not fault, and where it has a result `Q`
holds of it and of the state; where it has given up `F` holds. -/
def Meets (m : Attempt σ α) (s : σ) (Q : α → σ → Prop) (F : σ → Prop) : Prop :=
  match m s with
  | none => False
  | some (none, s) => F s
  | some (some a, s) => Q a s

variable {m : Attempt σ α} {s : σ} {Q Q' : α → σ → Prop} {F F' : σ → Prop}

theorem meets_of_result {a : α} {s' : σ} (hm : m s = some (some a, s')) (h : Q a s') :
    m.Meets s Q F := by
  rw [Meets, hm]
  exact h

theorem meets_of_gaveUp {s' : σ} (hm : m s = some (none, s')) (h : F s') : m.Meets s Q F := by
  rw [Meets, hm]
  exact h

theorem meets_pure {a : α} (h : Q a s) : (pure a : Attempt σ α).Meets s Q F := h

theorem meets_giveUp (h : F s) : (giveUp : Attempt σ α).Meets s Q F := h

theorem meets_change {f : σ → Option σ} {s' : σ} {Q : Unit → σ → Prop} (hf : f s = some s')
    (h : Q () s') : (change f).Meets s Q F :=
  meets_of_result (by rw [change, hf]; rfl) h

theorem Meets.bind {f : α → Attempt σ β} {Q' : β → σ → Prop} (h : m.Meets s Q F)
    (hf : ∀ a s', Q a s' → (f a).Meets s' Q' F) : (m >>= f).Meets s Q' F := by
  change (Attempt.bind m f).Meets s Q' F
  unfold Meets Attempt.bind at *
  rcases hm : m s with _ | ⟨_ | a, s'⟩
  all_goals rw [hm] at h
  · exact h
  · exact h
  · exact hf a s' h

theorem meets_change_bind {f : σ → Option σ} {s' : σ} {k : Unit → Attempt σ β}
    {Q' : β → σ → Prop} (hf : f s = some s') (h : (k ()).Meets s' Q' F) :
    (change f >>= k).Meets s Q' F :=
  (meets_change (Q := fun _ s => s = s') hf rfl).bind fun _ _ hs => hs ▸ h

theorem bind_pure (m : Attempt σ Unit) : (m >>= fun _ => pure ()) = m := by
  funext s
  change Attempt.bind m (fun _ => pure ()) s = m s
  unfold Attempt.bind
  rcases m s with _ | ⟨_ | a, s'⟩
  all_goals rfl

theorem Meets.mono (h : m.Meets s Q F) (hQ : ∀ a s, Q a s → Q' a s) (hF : ∀ s, F s → F' s) :
    m.Meets s Q' F' := by
  unfold Meets at *
  rcases hm : m s with _ | ⟨_ | a, s'⟩
  all_goals rw [hm] at h
  · exact h
  · exact hF _ h
  · exact hQ _ _ h

theorem Meets.orDo {cleanup : σ → Option σ} (h : m.Meets s Q F)
    (hcleanup : ∀ s, F s → ∃ s', cleanup s = some s' ∧ F' s') :
    (m.orDo cleanup).Meets s Q F' := by
  unfold Meets Attempt.orDo at *
  rcases hm : m s with _ | ⟨_ | a, s'⟩
  all_goals rw [hm] at h
  · exact h
  · obtain ⟨s'', hs, hF⟩ := hcleanup s' h
    simp only [hs, Option.map_some]
    exact hF
  · exact h

theorem Meets.exists (h : m.Meets s Q F) :
    ∃ r s', m s = some (r, s') ∧ (∀ a, r = some a → Q a s') ∧ (r = none → F s') := by
  unfold Meets at h
  rcases hm : m s with _ | ⟨_ | a, s'⟩
  all_goals rw [hm] at h
  · exact h.elim
  · refine ⟨none, s', rfl, ?_, fun _ => h⟩
    rintro a ⟨⟩
  · refine ⟨some a, s', rfl, ?_, ?_⟩
    · rintro b ⟨⟩
      exact h
    · rintro ⟨⟩

end Attempt

/-! ### The heap -/

/-- What each allocation gets: nothing, or memory with some bytes in it. -/
def Allocator := ℕ → Option (ℕ → UInt8)

def Allocator.Ample (M : Allocator) : Prop := ∀ turn, M turn ≠ none

structure HeapBlock where
  id : ℕ
  bytes : List UInt8
  deriving DecidableEq

/-- How many allocations have been asked for, and the blocks in use. -/
structure Heap where
  turn : ℕ
  live : List ℕ
  deriving DecidableEq

namespace Heap

variable (M : Allocator) (h : Heap)

/-- `malloc(n)`. -/
def allocate (n : ℕ) : Option HeapBlock × Heap :=
  match M h.turn with
  | none => (none, ⟨h.turn + 1, h.live⟩)
  | some fresh => (some ⟨h.turn, (List.range n).map fresh⟩, ⟨h.turn + 1, h.turn :: h.live⟩)

/-- `free(b)`. A block that is not in use is a fault. -/
def free (b : HeapBlock) : Option Heap :=
  if b.id ∈ h.live then some { h with live := h.live.erase b.id } else none

/-- `realloc(b, n)`. Without memory the block stays as it is. -/
def reallocate (b : HeapBlock) (n : ℕ) : Option (Option HeapBlock × Heap) :=
  if b.id ∈ h.live then
    match M h.turn with
    | none => some (none, ⟨h.turn + 1, h.live⟩)
    | some fresh =>
        some (some ⟨h.turn, b.bytes.take n ++ (List.range (n - b.bytes.length)).map fresh⟩,
          ⟨h.turn + 1, h.turn :: h.live.erase b.id⟩)
  else none

variable {M h}

/-- An allocation fails, or there is one block more. -/
theorem allocate_cases (n : ℕ) :
    (M h.turn = none ∧ h.allocate M n = (none, ⟨h.turn + 1, h.live⟩)) ∨
    ∃ b, b.id = h.turn ∧ b.bytes.length = n ∧
      h.allocate M n = (some b, ⟨h.turn + 1, h.turn :: h.live⟩) := by
  unfold allocate
  cases hM : M h.turn with
  | none => exact .inl ⟨rfl, rfl⟩
  | some fresh => exact .inr ⟨_, rfl, by simp, rfl⟩

theorem free_only {b : HeapBlock} {turn : ℕ} : (⟨turn, [b.id]⟩ : Heap).free b = some ⟨turn, []⟩ := by
  simp [free]

theorem free_older {b : HeapBlock} {turn id : ℕ} :
    (⟨turn, [id, b.id]⟩ : Heap).free b = some ⟨turn, [id]⟩ := by
  by_cases hid : id = b.id
  · simp [free, hid]
  · simp [free, hid]

/-- A reallocation fails, or keeps what fits of the block. -/
theorem reallocate_cases {b : HeapBlock} (turn n : ℕ) :
    (M turn = none ∧
      reallocate M ⟨turn, [b.id]⟩ b n = some (none, ⟨turn + 1, [b.id]⟩)) ∨
    ∃ b' : HeapBlock, b'.id = turn ∧ b'.bytes.length = n ∧
      b'.bytes.take (min n b.bytes.length) = b.bytes.take n ∧
      reallocate M ⟨turn, [b.id]⟩ b n = some (some b', ⟨turn + 1, [b'.id]⟩) := by
  unfold reallocate
  rw [if_pos (by simp)]
  cases hM : M turn with
  | none => exact .inl ⟨rfl, rfl⟩
  | some fresh =>
      refine .inr ⟨⟨turn, b.bytes.take n ++ (List.range (n - b.bytes.length)).map fresh⟩, rfl,
        ?_, List.take_left' (List.length_take ..), by simp⟩
      simp only [List.length_append, List.length_take, List.length_map, List.length_range]
      omega

/-- The blocks in use are `ids`, in any order. They differ, and from any block that
is allocated next. -/
structure InUse (h : Heap) (ids : List ℕ) : Prop where
  perm : h.live.Perm ids
  nodup : ids.Nodup
  older : ∀ id ∈ ids, id < h.turn

variable {ids ids' : List ℕ}

theorem inUse_nil (turn : ℕ) : (⟨turn, []⟩ : Heap).InUse [] :=
  ⟨.refl _, List.nodup_nil, by simp⟩

theorem InUse.of_perm (hh : h.InUse ids) (hids : ids.Perm ids') : h.InUse ids' :=
  ⟨hh.perm.trans hids, hids.nodup_iff.mp hh.nodup, fun id hid => hh.older id (hids.mem_iff.mpr hid)⟩

theorem InUse.live_eq_nil (hh : h.InUse []) : h.live = [] := hh.perm.eq_nil

theorem InUse.allocate (hh : h.InUse ids) (M : Allocator) (n : ℕ) :
    (M h.turn = none ∧ ∃ h', h.allocate M n = (none, h') ∧ h'.InUse ids) ∨
      ∃ b h', b.bytes.length = n ∧ h.allocate M n = (some b, h') ∧ h'.InUse (b.id :: ids) := by
  obtain ⟨hM, hr⟩ | ⟨b, hid, hlen, hr⟩ := allocate_cases (M := M) (h := h) n
  · refine .inl ⟨hM, _, hr, hh.perm, hh.nodup, fun id hid => ?_⟩
    exact Nat.lt_succ_of_lt (hh.older id hid)
  · refine .inr ⟨b, _, hlen, hr, ?_, ?_, ?_⟩
    · rw [hid]
      exact hh.perm.cons _
    · refine List.nodup_cons.mpr ⟨fun hmem => ?_, hh.nodup⟩
      exact absurd (hh.older _ hmem) (by omega)
    · intro id hmem
      obtain rfl | hmem := List.mem_cons.mp hmem
      · exact Nat.lt_succ_of_le (Nat.le_of_eq hid)
      · exact Nat.lt_succ_of_lt (hh.older id hmem)

theorem InUse.free {b : HeapBlock} (hh : h.InUse (b.id :: ids)) :
    ∃ h', h.free b = some h' ∧ h'.InUse ids := by
  have hmem : b.id ∈ h.live := hh.perm.mem_iff.mpr List.mem_cons_self
  refine ⟨_, if_pos hmem, ?_, (List.nodup_cons.mp hh.nodup).2, fun id hid => ?_⟩
  · have herase := hh.perm.erase b.id
    rwa [List.erase_cons_head] at herase
  · exact hh.older id (List.mem_cons_of_mem _ hid)

end Heap

end Savvy.Kit
