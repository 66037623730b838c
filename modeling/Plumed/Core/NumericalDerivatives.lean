/-
`ActionWithArguments::calculateNumericalDerivatives`: each argument in turn is moved by
`sqrt(epsilon)`, the action recalculated and the argument set back; the action is then calculated
once more, its derivatives cleared, and each value with derivatives gets, for each argument, the
forward difference quotient.

The arguments are `Value*`: argument `i` refers to a value of a store, and `arguments[i]->set` writes
that value, so two arguments that refer to the same value (`ARG=v,v`) move together. For every
calculation the loop gives every value back and each derivative is the forward difference of the
calculation along the value the argument refers to (`calculateNumericalDerivatives_eq`); on a
calculation affine in the arguments the derivative with respect to an argument is the sum of the
coefficients of all the arguments that refer to its value, whatever the step
(`calculateNumericalDerivatives_affine`), and so the argument's own coefficient when no other
argument refers to it.
-/
import Plumed.Core.ActionSet
import Mathlib.Algebra.BigOperators.Group.Finset
import Mathlib.Algebra.Field.Basic
import Mathlib.Algebra.Field.Rat
import Mathlib.Algebra.EuclideanDomain.Field
import Mathlib.Algebra.BigOperators.Ring
import Mathlib.Tactic.Ring

namespace Plumed.Core

open Finset

variable {R : Type} [Field R]

/-- One pass of the loop over the arguments, on argument `i`: `args[i]` is the value it refers to in
the store, which is moved by `h`; the action is calculated (`calculate` gives the values of `myvals`
from the values the arguments read), the value set back, and the `nvals` values stored after those
of the earlier arguments. -/
def perturbStep (calculate : List R → List R) (h : R) (nvals : Nat) (args : List Nat) (st : (Nat → R) × List R)
    (i : Nat) : (Nat → R) × List R :=
  let v := args.getD i 0
  let arg0 := st.1 v
  let moved := Function.update st.1 v (arg0 + h)
  (Function.update moved v arg0, st.2 ++ (List.range nvals).map ((calculate (args.map moved)).getD · 0))

/-- `ActionWithArguments::calculateNumericalDerivatives` of an action whose scalar arguments refer to
the values `args` of `store`. `calculate` gives the values of `myvals`, the `nvals` values
`retrieveAllScalarValuesInLoop` collects, after `a->calculate()`, from the values the arguments
read; `outputQuantity` gives `a->getOutputQuantity(j)` after it; `hasDerivatives j` is
`myvals[j]->hasDerivatives()`; `h` is `sqrt(epsilon)`. The result holds the store after the loop, the
values after the last calculation, and the derivative of value `j` with respect to argument `i`. -/
def calculateNumericalDerivatives (doneOverStream isActionWithValue : Bool) (calculate : List R → List R)
    (outputQuantity : List R → Nat → R) (hasDerivatives : Nat → Bool) (h : R) (nvals : Nat) (args : List Nat)
    (store : Nat → R) : Except String ((Nat → R) × List R × (Nat → Nat → R)) :=
  if doneOverStream then .error "cannot use numerical derivatives if calculation is done over stream"
  else if !isActionWithValue then .error "cannot compute numerical derivatives for an action without values"
  else
    let st := (List.range args.length).foldl (perturbStep calculate h nvals args) (store, [])
    .ok (st.1, calculate (args.map st.1), fun j i =>
      if j < nvals ∧ hasDerivatives j = true ∧ i < args.length then
        (st.2.getD (i * nvals + j) 0 - outputQuantity (args.map st.1) j) / h
      else 0)

/-- The store with the value `v` moved by `h`. -/
def moveValue (store : Nat → R) (h : R) (v : Nat) : Nat → R := Function.update store v (store v + h)

/-- The loop over the first `k` arguments gives every value back and stores, argument after argument,
the values calculated with the argument's value moved. -/
theorem foldl_perturbStep (calculate : List R → List R) (h : R) (nvals : Nat) (args : List Nat) (store : Nat → R) :
    ∀ k, (List.range k).foldl (perturbStep calculate h nvals args) (store, []) =
      (store, (List.range k).flatMap fun i =>
        (List.range nvals).map ((calculate (args.map (moveValue store h (args.getD i 0)))).getD · 0))
  | 0 => rfl
  | k + 1 => by
    rw [List.range_succ, List.foldl_append, foldl_perturbStep calculate h nvals args store k, List.flatMap_append,
      List.foldl_cons, List.foldl_nil]
    simp only [perturbStep, moveValue, Function.update_idem, Function.update_eq_self, List.flatMap_cons,
      List.flatMap_nil, List.append_nil]

/-- `calculateNumericalDerivatives` of an action with values outside a stream, for every calculation,
every step and every store: the store comes back unchanged, the values are those of the arguments,
and the derivative of each value with derivatives is the forward difference quotient of the
calculation along the value the argument refers to. -/
theorem calculateNumericalDerivatives_eq (calculate : List R → List R) (outputQuantity : List R → Nat → R)
    (hasDerivatives : Nat → Bool) (h : R) (nvals : Nat) (args : List Nat) (store : Nat → R) :
    calculateNumericalDerivatives false true calculate outputQuantity hasDerivatives h nvals args store =
      .ok (store, calculate (args.map store), fun j i =>
        if j < nvals ∧ hasDerivatives j = true ∧ i < args.length then
          ((calculate (args.map (moveValue store h (args.getD i 0)))).getD j 0 - outputQuantity (args.map store) j) / h
        else 0) := by
  simp only [calculateNumericalDerivatives, Bool.false_eq_true, ↓reduceIte, Bool.not_true,
    foldl_perturbStep calculate h nvals args store args.length]
  congr
  funext j i
  split_ifs with hc
  · rw [getD_flatMap_range (by simp) 0 _ _ _ hc.2.2 hc.1, List.getD_eq_getElem _ _ (by simpa using hc.1),
      List.getElem_map, List.getElem_range]
  · rfl

/-- A calculation affine in the `n` arguments: value `j` is `c j + Σ a j i · x[i]`, `x` the values
the arguments read. -/
def affineCalculation (n nvals : Nat) (c : Nat → R) (a : Nat → Nat → R) (x : List R) : List R :=
  (List.range nvals).map fun j => c j + ∑ i ∈ range n, a j i * x.getD i 0

theorem getD_affineCalculation (n : Nat) {nvals j : Nat} (hj : j < nvals) (c : Nat → R) (a : Nat → Nat → R)
    (x : List R) : (affineCalculation n nvals c a x).getD j 0 = c j + ∑ i ∈ range n, a j i * x.getD i 0 := by
  rw [affineCalculation, List.getD_eq_getElem _ _ (by simpa using hj), List.getElem_map, List.getElem_range]

theorem getD_map_moveValue (store : Nat → R) (h : R) (v : Nat) (args : List Nat) {k : Nat} (hk : k < args.length) :
    (args.map (moveValue store h v)).getD k 0 = (args.map store).getD k 0 + if args.getD k 0 = v then h else 0 := by
  have hk' : k < (args.map store).length := by simpa using hk
  rw [List.getD_eq_getElem _ _ (by simpa using hk), List.getD_eq_getElem _ _ hk', List.getD_eq_getElem _ _ hk,
    List.getElem_map, List.getElem_map, moveValue, Function.update_apply]
  split_ifs with hv
  · rw [hv]
  · rw [add_zero]

/-- Moving the value `v` by `h` changes a linear form in the arguments by `h` times the sum of the
coefficients of the arguments that refer to `v`. -/
theorem sum_linear_moveValue (store : Nat → R) (h : R) (v : Nat) (args : List Nat) (a : Nat → R) :
    ∑ k ∈ range args.length, a k * (args.map (moveValue store h v)).getD k 0 =
      ∑ k ∈ range args.length, a k * (args.map store).getD k 0 +
        (∑ k ∈ range args.length, if args.getD k 0 = v then a k else 0) * h := by
  rw [sum_mul, ← sum_add_distrib]
  refine sum_congr rfl fun k hk => ?_
  rw [getD_map_moveValue store h v args (mem_range.1 hk), mul_add, ite_mul, zero_mul, mul_ite, mul_zero]

/-- `calculateNumericalDerivatives` on a calculation affine in the arguments, with any nonzero step
and any store: the derivative of value `j` with respect to argument `i` is the sum of the
coefficients of every argument that refers to the value argument `i` refers to, `a j i` itself when
no other argument refers to it. -/
theorem calculateNumericalDerivatives_affine (c : Nat → R) (a : Nat → Nat → R) (hasDerivatives : Nat → Bool)
    {h : R} (hh : h ≠ 0) (nvals : Nat) (args : List Nat) (store : Nat → R) :
    calculateNumericalDerivatives false true (affineCalculation args.length nvals c a)
        (fun x j => (affineCalculation args.length nvals c a x).getD j 0) hasDerivatives h nvals args store =
      .ok (store, affineCalculation args.length nvals c a (args.map store), fun j i =>
        if j < nvals ∧ hasDerivatives j = true ∧ i < args.length then
          ∑ k ∈ range args.length, if args.getD k 0 = args.getD i 0 then a j k else 0
        else 0) := by
  rw [calculateNumericalDerivatives_eq]
  congr
  funext j i
  split_ifs with hc
  · rw [getD_affineCalculation _ hc.1, getD_affineCalculation _ hc.1, sum_linear_moveValue, ← add_assoc,
      add_sub_cancel_left, mul_div_cancel_right₀ _ hh]
  · rfl

/-- `ARG=v,v` with the value `v = 5`, one value `1 + x[0] + 2·x[1]`, step 2: both arguments move
together, and each gets the derivative `1 + 2`. -/
theorem calculateNumericalDerivatives_affine_shared :
    calculateNumericalDerivatives false true (affineCalculation 2 1 (fun _ => 1) fun _ i => (i + 1 : ℚ))
        (fun x j => (affineCalculation 2 1 (fun _ => 1) (fun _ i => (i + 1 : ℚ)) x).getD j 0) (fun _ => true)
        2 1 [0, 0] (fun _ => 5) =
      .ok ((fun _ => 5), affineCalculation 2 1 (fun _ => 1) (fun _ i => (i + 1 : ℚ)) ([0, 0].map fun _ => 5),
        fun j i => if j < 1 ∧ (fun _ => true) j = true ∧ i < [0, 0].length then
          ∑ k ∈ range [0, 0].length, if [0, 0].getD k 0 = [0, 0].getD i 0 then (k + 1 : ℚ) else 0 else 0) :=
  calculateNumericalDerivatives_affine (fun _ => 1) (fun _ i => (i + 1 : ℚ)) (fun _ => true) (by decide) 1 [0, 0]
    (fun _ => 5)

end Plumed.Core
