import Mathlib.Tactic.Common

/-!
Reading frames out of a stream. A scanner looks at the unread part of a
stream and answers one of three things: a frame of some length starts here,
more input is needed to tell, or no amount of input will ever make a frame.
The two positive answers must not change when more input arrives; then the
frames of a stream do not depend on how it was cut into pieces.
-/

namespace Savvy.Kit

/-- What a scanner says about the unread part of a stream. -/
inductive Scan (β : Type*)
  | more
  | frame (b : β) (n : ℕ)
  | bad

/-- A scanner whose positive answers are final. -/
structure Framing (α β : Type*) where
  scan : List α → Scan β
  frame_length {xs : List α} {b : β} {n : ℕ} (h : scan xs = .frame b n) : 0 < n ∧ n ≤ xs.length
  frame_append {xs : List α} {b : β} {n : ℕ} (h : scan xs = .frame b n) (ys : List α) :
    scan (xs ++ ys) = .frame b n
  bad_append {xs : List α} (h : scan xs = .bad) (ys : List α) : scan (xs ++ ys) = .bad

namespace Framing

variable {α β : Type*} (F : Framing α β)

/-- The frames at the front of `xs`, whether reading stopped at an
unrecoverable position, and what is left unread. -/
structure Result (α β : Type*) where
  frames : List β
  bad : Bool
  rest : List α

def parse (xs : List α) : Result α β :=
  match _h : F.scan xs with
  | .more => ⟨[], false, xs⟩
  | .bad => ⟨[], true, xs⟩
  | .frame b n =>
      let r := parse (xs.drop n)
      ⟨b :: r.frames, r.bad, r.rest⟩
  termination_by xs.length
  decreasing_by
    have := F.frame_length _h
    simp only [List.length_drop]
    omega

variable {F}

theorem parse_of_more {xs : List α} (h : F.scan xs = .more) : F.parse xs = ⟨[], false, xs⟩ := by
  rw [parse]
  split <;> simp_all

theorem parse_of_bad {xs : List α} (h : F.scan xs = .bad) : F.parse xs = ⟨[], true, xs⟩ := by
  rw [parse]
  split <;> simp_all

theorem parse_of_frame {xs : List α} {b : β} {n : ℕ} (h : F.scan xs = .frame b n) :
    F.parse xs = ⟨b :: (F.parse (xs.drop n)).frames, (F.parse (xs.drop n)).bad,
      (F.parse (xs.drop n)).rest⟩ := by
  rw [parse]
  split
  · simp_all
  · simp_all
  · next b' n' h' =>
      rw [h] at h'
      obtain ⟨rfl, rfl⟩ := Scan.frame.inj h'
      rfl

/-- A frame at the front is the first one read, whatever follows it. -/
theorem parse_append_of_frame {xs : List α} {b : β} {n : ℕ} (h : F.scan xs = .frame b n)
    (ys : List α) :
    (F.parse (xs ++ ys)).frames = b :: (F.parse (xs.drop n ++ ys)).frames := by
  rw [parse_of_frame (F.frame_append h ys), List.drop_append_of_le_length (F.frame_length h).2]

/-- Reading in two goes: read what is there, then read what was left over
together with the rest of the input. -/
theorem parse_append (xs ys : List α) :
    F.parse (xs ++ ys) =
      ⟨(F.parse xs).frames ++ (F.parse ((F.parse xs).rest ++ ys)).frames,
        (F.parse ((F.parse xs).rest ++ ys)).bad,
        (F.parse ((F.parse xs).rest ++ ys)).rest⟩ := by
  induction hlen : xs.length using Nat.strongRecOn generalizing xs with
  | _ len ih =>
      cases hs : F.scan xs with
      | more => simp [parse_of_more hs]
      | bad => simp [parse_of_bad hs]
      | frame b n =>
          have hn := F.frame_length hs
          have hdrop : (xs ++ ys).drop n = xs.drop n ++ ys := by
            rw [List.drop_append_of_le_length hn.2]
          have hrec := ih (xs.drop n).length (by simp only [List.length_drop]; omega) _ rfl
          rw [parse_of_frame (F.frame_append hs ys), parse_of_frame hs, hdrop, hrec]
          simp

/-- Reading stops where the scanner sees no further frame. -/
theorem scan_rest (xs : List α) :
    F.scan (F.parse xs).rest = if (F.parse xs).bad then .bad else .more := by
  induction hlen : xs.length using Nat.strongRecOn generalizing xs with
  | _ len ih =>
      cases hs : F.scan xs with
      | more => simp [parse_of_more hs, hs]
      | bad => simp [parse_of_bad hs, hs]
      | frame b n =>
          have hn := F.frame_length hs
          rw [parse_of_frame hs]
          exact ih (xs.drop n).length (by simp only [List.length_drop]; omega) _ rfl

/-- What is left over holds no further frame. -/
theorem parse_rest (xs : List α) :
    F.parse (F.parse xs).rest = ⟨[], (F.parse xs).bad, (F.parse xs).rest⟩ := by
  have hscan := F.scan_rest xs
  cases hbad : (F.parse xs).bad with
  | false => exact parse_of_more (by simpa [hbad] using hscan)
  | true => exact parse_of_bad (by simpa [hbad] using hscan)

/-- A stream that is beyond recovery stays so. -/
theorem bad_parse_append {xs : List α} (h : (F.parse xs).bad = true) (ys : List α) :
    (F.parse (xs ++ ys)).bad = true := by
  have hscan := F.scan_rest xs
  rw [h, if_pos rfl] at hscan
  rw [parse_append]
  simp [parse_of_bad (F.bad_append hscan ys)]

end Framing

end Savvy.Kit
