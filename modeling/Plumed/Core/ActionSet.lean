/-
The action set as the graph engine reads it: each action with its label, its name, its dynamic
type, the values it outputs, the values it takes as arguments and the actions it depends on. A
value names the action that owns it by its position in the set. The lookups by label used
throughout `PlumedMain` and `ActionWithArguments` (`selectWithLabel`, the label part of a value's
name) are defined here.
-/
import Mathlib.Data.List.Basic
import Mathlib.Data.List.GetD

namespace Plumed.Core

/-- Modelled from the spec: a `Value` (Value.h is not among the sources) as the actions that read it
see it. `action` is the position in the action set of the action that owns it (`getPntrToAction()`);
`storeDataFor` lists the labels the value stores its data for, each with the stream position of the
stash (`store_data_for`); `ntasks` is the task count of the value. -/
structure Value where
  name : String
  action : Nat
  rank : Nat
  isConstant : Bool
  alwaysstore : Bool
  isTimeSeries : Bool
  numberOfValues : Nat
  ntasks : Nat
  storeDataFor : List (String × Nat)
  positionInStream : Nat
deriving Inhabited, DecidableEq

/-- Modelled from the spec: an action of the action set (Action.h and ActionWithValue.h are not
among the sources) as the engine reads it. The flags are its dynamic type as the code's casts test
it; `components` are its outputs, `arguments` the values it requested, `dependencies` the positions
of the actions it depends on; `doneOverStream` is its `done_over_stream`; `actionThatCalculates`,
`allActionsRequired` and `numberOfDerivatives` are the results of `getActionThatCalculates()`,
`getAllActionsRequired()` and `getNumberOfDerivatives()`. -/
structure Action where
  label : String
  name : String
  isActionWithValue : Bool
  isActionWithArguments : Bool
  isActionAtomistic : Bool
  isActionSetup : Bool
  isAverageBase : Bool
  components : List Value
  arguments : List Value
  dependencies : List Nat
  doneOverStream : Bool
  actionThatCalculates : Nat
  allActionsRequired : List Nat
  numberOfDerivatives : Nat
deriving Inhabited

/-- The action at position `p` of the set. -/
def actionAt (set : List Action) (p : Nat) : Action := set.getD p default

/-- `ActionSet::selectWithLabel`: the position of the first action with label `l`. -/
def selectWithLabel (set : List Action) (l : String) : Option Nat := set.findIdx? (·.label == l)

/-- The label part of a value's name: the text before the first `.`, or the whole name. -/
def labelOf (fullname : String) : String := String.mk (fullname.toList.takeWhile (· ≠ '.'))

theorem selectWithLabel_lt {set : List Action} {l : String} {p : Nat} (h : selectWithLabel set l = some p) :
    p < set.length :=
  (List.findIdx?_eq_some_iff_findIdx_eq.1 h).1

theorem except_bind_eq_ok {ε α β : Type} {x : Except ε α} {f : α → Except ε β} {b : β}
    (h : x >>= f = .ok b) : ∃ a, x = .ok a ∧ f a = .ok b := by
  cases x with
  | error e => cases h
  | ok a => exact ⟨a, rfl, h⟩

@[simp] theorem ok_bind {ε α β : Type} (a : α) (f : α → Except ε β) : (Except.ok a >>= f) = f a := rfl

@[simp] theorem error_bind {ε α β : Type} (e : ε) (f : α → Except ε β) : (Except.error e >>= f) = .error e := rfl

@[simp] theorem except_pure {ε α : Type} (a : α) : (pure a : Except ε α) = .ok a := rfl

theorem foldlM_except_invariant {σ α ε : Type} (P : σ → Prop) (f : σ → α → Except ε σ)
    (hf : ∀ s a s', P s → f s a = .ok s' → P s') :
    ∀ (l : List α) (s s' : σ), P s → l.foldlM f s = .ok s' → P s'
  | [], s, s', hs, h => by cases h; exact hs
  | a :: l, s, s', hs, h => by
    rw [List.foldlM_cons] at h
    obtain ⟨t, ht, h⟩ := except_bind_eq_ok h
    exact foldlM_except_invariant P f hf l t s' (hf s a t hs ht) h

theorem mapM_except_ok {ε α β : Type} {f : α → Except ε β} {g : α → β} :
    ∀ {l : List α}, (∀ a ∈ l, f a = .ok (g a)) → l.mapM f = .ok (l.map g)
  | [], _ => rfl
  | a :: l, h => by
    rw [List.mapM_cons, h a (.head _), mapM_except_ok fun b hb => h b (.tail _ hb)]; rfl

theorem foldlM_except_ok {ε α σ : Type} {f : σ → α → Except ε σ} {g : σ → α → σ}
    (h : ∀ s a, f s a = .ok (g s a)) : ∀ (l : List α) (s : σ), l.foldlM f s = .ok (l.foldl g s)
  | [], _ => rfl
  | a :: l, s => by rw [List.foldlM_cons, h s a]; exact foldlM_except_ok h l (g s a)

theorem getD_flatMap_range {T : Type} {f : Nat → List T} {m : Nat} (hf : ∀ i, (f i).length = m) (d : T) :
    ∀ n i j, i < n → j < m → ((List.range n).flatMap f).getD (i * m + j) d = (f i).getD j d := by
  have hlen : ∀ n, ((List.range n).flatMap f).length = n * m := fun n => by
    induction n with
    | zero => simp
    | succ n ih => rw [List.range_succ, List.flatMap_append, List.length_append, ih]; simp [hf, Nat.succ_mul]
  intro n
  induction n with
  | zero => intro i j hi; omega
  | succ n ih =>
    intro i j hi hj
    rw [List.range_succ, List.flatMap_append]
    rcases Nat.lt_or_ge i n with hin | hin
    · have hlt : i * m + j < n * m := calc
        i * m + j < (i + 1) * m := by rw [Nat.succ_mul]; omega
        _ ≤ n * m := Nat.mul_le_mul_right m hin
      rw [List.getD_append _ _ _ _ (by rw [hlen]; exact hlt), ih i j hin hj]
    · obtain rfl : i = n := by omega
      rw [List.getD_append_right _ _ _ _ (by rw [hlen]; omega), hlen, Nat.add_sub_cancel_left]
      simp

end Plumed.Core
