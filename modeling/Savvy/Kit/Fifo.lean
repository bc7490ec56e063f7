import Mathlib.Tactic.Common

/-!
A bounded queue that can be closed and cancelled, as a list of items. An event is
a call that returns, with its answer; calls that block are not seen until they
do. `Run` are the sequences of events that such a queue allows, and the laws below
hold of all of them: what was accepted comes out in order and once, what is left
at a close is what the pops behind it return, and behind a cancel every call is
refused.
-/

namespace Savvy.Kit

/-- The items, the oldest first, and whether the queue takes no more of them. -/
structure Fifo (α : Type*) where
  items : List α
  closed : Bool

namespace Fifo

inductive Reply
  | accepted
  | closed
  | full
  deriving DecidableEq

/-- A call that returns. A pop returns an item or that the queue is closed, and
the calls that discard the items list those they hand to their destructor. -/
inductive Event (α : Type*)
  | push (x : α) (waits : Bool) (reply : Reply)
  | pop (result : Option α)
  | close
  | cancel (handed : List α)
  | destroy (handed : List α)
  deriving DecidableEq

variable {α : Type*} {cap : ℕ} {destructs : Bool} {s s' m : Fifo α} {e : Event α}
  {es fs : List (Event α)}

/-- What a queue of a given capacity does, with or without a destructor. A queue
that was destroyed takes no calls, which is the same as a closed one without
items. -/
inductive Step (cap : ℕ) (destructs : Bool) : Fifo α → Event α → Fifo α → Prop
  | accepted {items : List α} (x : α) (waits : Bool) (hroom : items.length < cap) :
      Step cap destructs ⟨items, false⟩ (.push x waits .accepted) ⟨items ++ [x], false⟩
  | refused {items : List α} (x : α) (waits : Bool) :
      Step cap destructs ⟨items, true⟩ (.push x waits .closed) ⟨items, true⟩
  | full {items : List α} (x : α) (hfull : items.length = cap) :
      Step cap destructs ⟨items, false⟩ (.push x false .full) ⟨items, false⟩
  | popped {x : α} {items : List α} {closed : Bool} :
      Step cap destructs ⟨x :: items, closed⟩ (.pop (some x)) ⟨items, closed⟩
  | drained : Step cap destructs ⟨[], true⟩ (.pop none) ⟨[], true⟩
  | close {items : List α} {closed : Bool} :
      Step cap destructs ⟨items, closed⟩ .close ⟨items, true⟩
  | cancel {items : List α} {closed : Bool} :
      Step cap destructs ⟨items, closed⟩ (.cancel (if destructs then items else [])) ⟨[], true⟩
  | destroy {items : List α} {closed : Bool} :
      Step cap destructs ⟨items, closed⟩ (.destroy (if destructs then items else [])) ⟨[], true⟩

inductive Run (cap : ℕ) (destructs : Bool) : Fifo α → List (Event α) → Fifo α → Prop
  | nil (s : Fifo α) : Run cap destructs s [] s
  | cons {s m s' : Fifo α} {e : Event α} {es : List (Event α)} (hstep : Step cap destructs s e m)
      (hrun : Run cap destructs m es s') : Run cap destructs s (e :: es) s'

def empty : Fifo α := ⟨[], false⟩

def Event.accepted? : Event α → Option α
  | .push x _ .accepted => some x
  | _ => none

def Event.popped? : Event α → Option α
  | .pop result => result
  | _ => none

def Event.pop? : Event α → Option (Option α)
  | .pop result => some result
  | _ => none

def Event.handed : Event α → List α
  | .cancel handed => handed
  | .destroy handed => handed
  | _ => []

def Event.discards : Event α → Bool
  | .cancel _ => true
  | .destroy _ => true
  | _ => false

/-- The event is not a push or a pop, or it was refused since the queue is
closed. -/
def Event.Refused : Event α → Prop
  | .push _ _ reply => reply = .closed
  | .pop result => result = none
  | _ => True

def accepted (es : List (Event α)) : List α := es.filterMap Event.accepted?

def popped (es : List (Event α)) : List α := es.filterMap Event.popped?

def pops (es : List (Event α)) : List (Option α) := es.filterMap Event.pop?

def handed (es : List (Event α)) : List α := es.flatMap Event.handed

/-- The items that are left: those accepted and not popped, unless they were
discarded. -/
def left (es : List (Event α)) : List α :=
  if es.any Event.discards then [] else (accepted es).drop (popped es).length

theorem Run.concat (hrun : Run cap destructs s es m) (hstep : Step cap destructs m e s') :
    Run cap destructs s (es ++ [e]) s' := by
  induction hrun with
  | nil s => exact .cons hstep (.nil s')
  | cons hfirst _ ih => exact .cons hfirst (ih hstep)

theorem Run.of_append (h : Run cap destructs s (es ++ fs) s') :
    ∃ m, Run cap destructs s es m ∧ Run cap destructs m fs s' := by
  induction es generalizing s with
  | nil => exact ⟨s, .nil s, h⟩
  | cons e es ih =>
      cases h with
      | cons hstep hrest =>
          obtain ⟨m, hes, hfs⟩ := ih hrest
          exact ⟨m, .cons hstep hes, hfs⟩

/-! ### Every item comes out once -/

/-- What a step does to the items: one is added, the oldest one is taken out, they
stay, or all of them are discarded. -/
inductive Moves (destructs : Bool) (s : Fifo α) (e : Event α) (s' : Fifo α) : Prop
  | added (x : α) (haccepted : e.accepted? = some x) (hpopped : e.popped? = none)
      (hhanded : e.handed = []) (hkeeps : e.discards = false) (hopen : s.closed = false)
      (hitems : s'.items = s.items ++ [x])
  | taken (x : α) (haccepted : e.accepted? = none) (hpopped : e.popped? = some x)
      (hhanded : e.handed = []) (hkeeps : e.discards = false) (hitems : s.items = x :: s'.items)
  | kept (haccepted : e.accepted? = none) (hpopped : e.popped? = none) (hhanded : e.handed = [])
      (hkeeps : e.discards = false) (hitems : s'.items = s.items)
      (hclosed : s.closed = true → s'.closed = true)
  | discarded (haccepted : e.accepted? = none) (hpopped : e.popped? = none)
      (hhanded : e.handed = if destructs then s.items else []) (hdiscards : e.discards = true)
      (hitems : s'.items = []) (hclosed : s'.closed = true)

theorem Step.moves (h : Step cap destructs s e s') : Moves destructs s e s' := by
  cases h with
  | accepted x waits _ => exact .added x rfl rfl rfl rfl rfl rfl
  | refused x waits => exact .kept rfl rfl rfl rfl rfl id
  | full x _ => exact .kept rfl rfl rfl rfl rfl id
  | popped => exact .taken _ rfl rfl rfl rfl rfl
  | drained => exact .kept rfl rfl rfl rfl rfl id
  | close => exact .kept rfl rfl rfl rfl rfl fun _ => rfl
  | cancel => exact .discarded rfl rfl rfl rfl rfl rfl
  | destroy => exact .discarded rfl rfl rfl rfl rfl rfl

theorem accepted_concat : accepted (es ++ [e]) = accepted es ++ e.accepted?.toList := by
  rw [accepted, List.filterMap_append]
  cases hx : e.accepted? <;> simp [accepted, hx]

theorem popped_concat : popped (es ++ [e]) = popped es ++ e.popped?.toList := by
  rw [popped, List.filterMap_append]
  cases hx : e.popped? <;> simp [popped, hx]

theorem handed_concat : handed (es ++ [e]) = handed es ++ e.handed := by
  rw [handed, List.flatMap_append, List.flatMap_singleton]
  rfl

theorem discards_concat :
    (es ++ [e]).any Event.discards = (es.any Event.discards || e.discards) := by
  rw [List.any_append, List.any_cons, List.any_nil, Bool.or_false]

/-- The accounts of a queue: what was popped, what was discarded and what is left
are the accepted items in their order, and a queue that has discarded is closed
and has none left. -/
structure Accounts (destructs : Bool) (es : List (Event α)) (s : Fifo α) (dropped : List α) :
    Prop where
  accepted_eq : accepted es = popped es ++ dropped ++ s.items
  handed_eq : handed es = if destructs then dropped else []
  kept : es.any Event.discards = false → dropped = []
  gone : es.any Event.discards = true → s.items = [] ∧ s.closed = true

theorem accounts_empty : Accounts destructs [] (empty : Fifo α) [] :=
  ⟨rfl, (ite_self _).symm, fun _ => rfl, fun h => absurd h Bool.false_ne_true⟩

theorem Accounts.kept_of_items {dropped : List α} (h : Accounts destructs es s dropped)
    (hlive : ¬ (s.items = [] ∧ s.closed = true)) : es.any Event.discards = false := by
  by_contra hany
  exact hlive (h.gone (Bool.not_eq_false _ ▸ hany))

theorem Accounts.step {dropped : List α} (h : Accounts destructs es s dropped)
    (hmoves : Moves destructs s e s') :
    ∃ dropped', Accounts destructs (es ++ [e]) s' dropped' := by
  cases hmoves with
  | added x haccepted hpopped hhanded hkeeps hopen hitems =>
      have hany := h.kept_of_items fun hgone => Bool.false_ne_true (hopen.symm.trans hgone.2)
      have hnone := h.kept hany
      refine ⟨[], ?_, ?_, fun _ => rfl, fun hdiscards => ?_⟩
      · rw [accepted_concat, popped_concat, h.accepted_eq, haccepted, hpopped, hitems, hnone]
        simp
      · rw [handed_concat, h.handed_eq, hhanded, hnone, List.append_nil]
      · rw [discards_concat, hany, hkeeps] at hdiscards
        cases hdiscards
  | taken x haccepted hpopped hhanded hkeeps hitems =>
      have hany := h.kept_of_items fun hgone =>
        List.cons_ne_nil _ _ (hitems.symm.trans hgone.1)
      have hnone := h.kept hany
      refine ⟨[], ?_, ?_, fun _ => rfl, fun hdiscards => ?_⟩
      · rw [accepted_concat, popped_concat, h.accepted_eq, haccepted, hpopped, hitems, hnone]
        simp
      · rw [handed_concat, h.handed_eq, hhanded, hnone, List.append_nil]
      · rw [discards_concat, hany, hkeeps] at hdiscards
        cases hdiscards
  | kept haccepted hpopped hhanded hkeeps hitems hclosed =>
      have hsame : (es ++ [e]).any Event.discards = es.any Event.discards := by
        rw [discards_concat, hkeeps, Bool.or_false]
      refine ⟨dropped, ?_, ?_, fun hkept => h.kept (hsame ▸ hkept), fun hdiscards => ?_⟩
      · rw [accepted_concat, popped_concat, h.accepted_eq, haccepted, hpopped, hitems]
        simp
      · rw [handed_concat, h.handed_eq, hhanded, List.append_nil]
      · have hgone := h.gone (hsame ▸ hdiscards)
        exact ⟨hitems.trans hgone.1, hclosed hgone.2⟩
  | discarded haccepted hpopped hhanded hdiscards hitems hclosed =>
      refine ⟨dropped ++ s.items, ?_, ?_, fun hkept => ?_, fun _ => ⟨hitems, hclosed⟩⟩
      · rw [accepted_concat, popped_concat, h.accepted_eq, haccepted, hpopped, hitems]
        simp
      · rw [handed_concat, h.handed_eq, hhanded]
        cases destructs <;> simp
      · rw [discards_concat, hdiscards, Bool.or_true] at hkept
        cases hkept

theorem Run.accounts_from {dropped : List α} {bs : List (Event α)} (hrun : Run cap destructs s es s')
    (h : Accounts destructs bs s dropped) :
    ∃ dropped', Accounts destructs (bs ++ es) s' dropped' := by
  induction hrun generalizing bs dropped with
  | nil s => exact ⟨dropped, by rwa [List.append_nil]⟩
  | @cons s m s' e es hstep _ ih =>
      obtain ⟨dropped', hnext⟩ := h.step hstep.moves
      obtain ⟨dropped'', hrest⟩ := ih hnext
      rw [List.append_assoc] at hrest
      exact ⟨dropped'', hrest⟩

theorem Run.items_eq (h : Run cap destructs empty es s) : s.items = left es := by
  obtain ⟨dropped, haccounts⟩ := h.accounts_from accounts_empty
  rw [List.nil_append] at haccounts
  unfold left
  split
  · next hdiscards => exact (haccounts.gone hdiscards).1
  · next hkept =>
      have hnone := haccounts.kept (Bool.not_eq_true _ ▸ hkept)
      rw [haccounts.accepted_eq, hnone, List.append_nil, List.drop_left]

/-- The accepted items are those that were popped, then those that were discarded,
each of which was handed to the destructor if there is one, then those left. -/
theorem Run.accounts (h : Run cap destructs empty es s) :
    ∃ dropped, accepted es = popped es ++ dropped ++ left es ∧
      handed es = if destructs then dropped else [] := by
  obtain ⟨dropped, haccounts⟩ := h.accounts_from accounts_empty
  rw [List.nil_append] at haccounts
  refine ⟨dropped, ?_, haccounts.handed_eq⟩
  rw [← h.items_eq]
  exact haccounts.accepted_eq

theorem Run.popped_getElem? (h : Run cap destructs empty es s) {i : ℕ} {x : α}
    (hi : (popped es)[i]? = some x) : (accepted es)[i]? = some x := by
  obtain ⟨dropped, heq, -⟩ := h.accounts
  obtain ⟨hlt, -⟩ := List.getElem?_eq_some_iff.mp hi
  rw [heq, List.append_assoc, List.getElem?_append_left hlt]
  exact hi

/-! ### Closing and cancelling -/

/-- The pops behind a close return what was left at the close, in order, and then
that the queue is closed; and nothing is accepted any more. -/
theorem Run.closed_spec {items : List α} (h : Run cap destructs ⟨items, true⟩ es s)
    (hkeep : ∀ e ∈ es, e.discards = false) :
    (∀ (i : ℕ) (result : Option α), (pops es)[i]? = some result → result = items[i]?) ∧
      accepted es = [] := by
  induction es generalizing items with
  | nil =>
      refine ⟨fun i result hi => ?_, rfl⟩
      cases hi
  | cons e es ih =>
      have hrest : ∀ e ∈ es, e.discards = false := fun e he => hkeep e (List.mem_cons_of_mem _ he)
      cases h with
      | cons hstep hrun =>
          cases hstep with
          | refused x waits => exact ih hrun hrest
          | close => exact ih hrun hrest
          | drained =>
              obtain ⟨hpops, haccepted⟩ := ih hrun hrest
              refine ⟨fun i result hi => ?_, haccepted⟩
              cases i with
              | zero => exact (Option.some.inj hi).symm
              | succ i => exact hpops i result hi
          | @popped x items _ =>
              obtain ⟨hpops, haccepted⟩ := ih hrun hrest
              refine ⟨fun i result hi => ?_, haccepted⟩
              cases i with
              | zero => exact (Option.some.inj hi).symm
              | succ i => exact hpops i result hi
          | cancel => cases hkeep _ List.mem_cons_self
          | destroy => cases hkeep _ List.mem_cons_self

/-- Behind a cancel every push and every pop is refused. -/
theorem Run.cancelled_spec (h : Run cap destructs ⟨[], true⟩ es s) : ∀ e ∈ es, e.Refused := by
  induction es with
  | nil => exact fun e he => absurd he List.not_mem_nil
  | cons e es ih =>
      cases h with
      | cons hstep hrun =>
          refine List.forall_mem_cons.mpr ?_
          cases hstep with
          | refused x waits => exact ⟨rfl, ih hrun⟩
          | drained => exact ⟨rfl, ih hrun⟩
          | close => exact ⟨trivial, ih hrun⟩
          | cancel => exact ⟨trivial, ih hrun⟩
          | destroy => exact ⟨trivial, ih hrun⟩

theorem Run.after_close (h : Run cap destructs empty (es ++ .close :: fs) s)
    (hkeep : ∀ e ∈ fs, e.discards = false) :
    (∀ (i : ℕ) (result : Option α), (pops fs)[i]? = some result → result = (left es)[i]?) ∧
      accepted fs = [] := by
  obtain ⟨m, hes, hfs⟩ := h.of_append
  rw [← hes.items_eq]
  cases hfs with
  | cons hstep hrun =>
      cases hstep with
      | close => exact hrun.closed_spec hkeep

theorem Run.after_cancel {gone : List α}
    (h : Run cap destructs empty (es ++ .cancel gone :: fs) s) : ∀ e ∈ fs, e.Refused := by
  obtain ⟨m, -, hfs⟩ := h.of_append
  cases hfs with
  | cons hstep hrun =>
      cases hstep with
      | cancel => exact hrun.cancelled_spec

end Fifo

end Savvy.Kit
