import FrameMachine.Evaluation.Basic
import FrameMachine.Proofs.Compiler.Slots
import Mathlib.Data.List.Forall2

/-!
# Variables and slots

The variables of an evaluation agree with the slots of an activation (`Agree`) if the scope has the
same names in the same order and each slot contains the value of its variable. Because the slots in
scope are different, an assignment to a variable changes one slot and nothing else.
-/

set_option autoImplicit false

namespace FrameMachine

/-- What is in a slot after something has been stored. -/
theorem Locals.get?_set (l : Locals) (slot place : Nat) (v : Value) :
    (l.set slot v).get? place = if place = slot then some v else l.get? place := by
  rw [set]
  split
  · rename_i hlt
    rw [get?, get?, Array.getElem?_setIfInBounds]
    by_cases hp : place = slot
    · simp [hp, hlt]
    · simp [hp, Ne.symm hp]
  · rename_i hlt
    have hsize : (l.slots ++ Array.replicate (slot - l.slots.size) (none : Option Value)).size =
        slot := by
      rw [Array.size_append, Array.size_replicate]
      omega
    rw [get?, get?, Array.getElem?_push, hsize]
    by_cases hp : place = slot
    · simp [hp]
    · rw [if_neg hp, if_neg hp, Array.getElem?_append]
      by_cases hin : place < l.slots.size
      · rw [if_pos hin]
      · rw [if_neg hin, Array.getElem?_replicate, Array.getElem?_eq_none (Nat.le_of_not_lt hin)]
        split <;> rfl

/-- The variables have the names of the scope, and their values are in the slots. -/
def Agree (L : Locals) (vars : Bindings) (scope : Scope) : Prop :=
  List.Forall₂ (fun binding place => binding.1 = place.1 ∧ L.get? place.2 = some binding.2) vars
    scope

namespace Agree

variable {L : Locals} {vars : Bindings} {scope : Scope}

/-- A variable that is in scope has a value, and its slot contains it. -/
theorem lookup (h : Agree L vars scope) {name : String} {slot : Nat}
    (hs : scope.lookup name = some slot) :
    ∃ v, vars.lookup name = some v ∧ L.get? slot = some v := by
  induction h with
  | nil => cases hs
  | @cons binding place vars scope hhead _ ih =>
    obtain ⟨x, v⟩ := binding
    obtain ⟨y, k⟩ := place
    obtain ⟨rfl, hv⟩ := hhead
    rw [List.lookup_cons] at hs ⊢
    cases hname : name == x with
    | true =>
      rw [hname] at hs
      cases hs
      exact ⟨v, rfl, hv⟩
    | false =>
      rw [hname] at hs
      exact ih hs

/-- A slot that no variable in scope has may be changed. -/
theorem set_of_notMem (h : Agree L vars scope) {slot : Nat} (hslot : slot ∉ scope.map Prod.snd)
    (v : Value) :
    Agree (L.set slot v) vars scope := by
  induction h with
  | nil => exact .nil
  | @cons binding place vars scope hhead _ ih =>
    rw [List.map_cons, List.mem_cons, not_or] at hslot
    refine .cons ⟨hhead.1, ?_⟩ (ih hslot.2)
    rw [Locals.get?_set, if_neg (Ne.symm hslot.1), hhead.2]

/-- A new variable gets its value in the next slot. -/
theorem declare {σ : Slots} (h : Agree L vars σ.visible) (hσ : σ.Distinct) (name : String)
    (v : Value) :
    Agree (L.set σ.used v) ((name, v) :: vars) (σ.declare name).visible := by
  have hfresh : σ.used ∉ σ.visible.map Prod.snd := by
    intro hmem
    obtain ⟨b, hb, heq⟩ := List.mem_map.1 hmem
    exact absurd heq (Nat.ne_of_lt (hσ.lt b hb))
  refine .cons ⟨rfl, ?_⟩ (h.set_of_notMem hfresh v)
  rw [Locals.get?_set, if_pos rfl]

/-- A variable is changed by changing its slot. -/
theorem assign (h : Agree L vars scope) (hnodup : (scope.map Prod.snd).Nodup) {name : String}
    {slot : Nat} (hs : scope.lookup name = some slot) (v : Value) :
    Agree (L.set slot v) (vars.assign name v) scope := by
  induction h with
  | nil => cases hs
  | @cons binding place vars scope hhead htail ih =>
    obtain ⟨x, old⟩ := binding
    obtain ⟨y, k⟩ := place
    obtain ⟨rfl, hv⟩ := hhead
    rw [List.map_cons, List.nodup_cons] at hnodup
    rw [List.lookup_cons] at hs
    rw [Bindings.assign]
    by_cases hx : x = name
    · subst hx
      rw [beq_self_eq_true] at hs
      cases hs
      rw [if_pos rfl]
      refine .cons ⟨rfl, ?_⟩ (set_of_notMem htail hnodup.1 v)
      rw [Locals.get?_set, if_pos rfl]
    · rw [beq_false_of_ne (Ne.symm hx)] at hs
      rw [if_neg hx]
      refine .cons ⟨rfl, ?_⟩ (ih hnodup.2 hs)
      have hne : k ≠ slot := by
        rintro rfl
        exact hnodup.1 (List.mem_map.2 ⟨_, mem_of_lookup hs, rfl⟩)
      rw [Locals.get?_set, if_neg hne]
      exact hv

/-- At the end of a block the variables from before it are left. -/
theorem leave {L' : Locals} {inner : Bindings} {innerScope : Scope} (h : Agree L vars scope)
    (h' : Agree L' inner innerScope) (hsuffix : scope <:+ innerScope) :
    Agree L' (vars.leave inner) scope := by
  obtain ⟨extra, rfl⟩ := hsuffix
  have hlen : inner.length - vars.length = extra.length := by
    rw [h.length_eq, h'.length_eq, List.length_append]
    omega
  have hdrop := List.forall₂_drop (inner.length - vars.length) h'
  rw [hlen, List.drop_left] at hdrop
  rw [Bindings.leave, hlen]
  exact hdrop

end Agree

end FrameMachine
