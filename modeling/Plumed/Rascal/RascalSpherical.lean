/-
`RascalSpherical::apply`: the forces on the SOAP matrix are turned into forces on the atoms and a
virial, pair by pair of librascal's neighbour list. For every neighbour table, gradient table and
set of forces, the nine entries it writes after the atom forces are `−Σ F ⊗ dist`, the force in
the row and the separation in the column: the transpose of the `−Σ dist ⊗ F` orientation that
`setBoxDerivativesNoPbc` uses (position in the row, derivative in the column).
-/
import Plumed.Tools.Vector
import Mathlib.Algebra.BigOperators.Group.List
import Mathlib.Algebra.BigOperators.Pi
import Mathlib.Algebra.Order.Ring.Defs
import Mathlib.Algebra.Order.Ring.Int
import Mathlib.Algebra.Order.Ring.Nat
import Mathlib.Data.List.FinRange
import Mathlib.Logic.Function.Basic
import Mathlib.Tactic.FinCases

namespace Plumed.Rascal

open Plumed.Tools

/-- What `apply` reads once librascal has run: the shape of the output matrix (environments by
features), the centre and the neighbour of each gradient row (columns 1 and 2 of
`get_gradients_info`), the gradients, the forces on the output, the positions, the minimum-image
separation, the length factor `lunit` and the number of atoms. -/
structure ApplyData (R : Type) where
  shape : Nat × Nat
  ninfo : List (Nat × Nat)
  gradients : Nat → Nat → R
  getForce : Nat → R
  getPosition : Nat → Vec R
  pbcDistance : Vec R → Vec R → Vec R
  lunit : R
  natoms : Nat

/-- The two accumulators of `apply`'s loops. -/
structure Acc (R : Type) where
  forcesToApply : Nat → R
  vir : Tensor R

/-- `neigh[c]` after the counting loop over `ninfo`: the gradient rows whose centre is `c`. -/
def neigh (ninfo : List (Nat × Nat)) (c : Nat) : Nat := ninfo.countP (·.1 == c)

/-- `base` when environment `i` starts: the gradient rows of the environments before it. -/
def rowStart (ninfo : List (Nat × Nat)) (i : Nat) : Nat := ((List.range i).map (neigh ninfo)).sum

section Write

variable {R : Type}

/-- The closing loops: `forcesToApply[vbase + 3i + j] = vir(i, j)`. -/
def writeVirial (vbase : Nat) (vir : Tensor R) (fta : Nat → R) : Nat → R :=
  (List.finRange 3).foldl (fun fta (a : Fin 3) => (List.finRange 3).foldl (fun fta (b : Fin 3) =>
    Function.update fta (vbase + 3 * a.val + b.val) (vir a b)) fta) fta

theorem writeVirial_apply (vbase : Nat) (vir : Tensor R) (fta : Nat → R) (a b : Fin 3) :
    writeVirial vbase vir fta (vbase + 3 * a.val + b.val) = vir a b := by
  simp only [writeVirial, List.finRange_succ, List.finRange_zero, List.map_nil, List.map_cons,
    List.foldl_cons, List.foldl_nil]
  fin_cases a <;> fin_cases b <;> simp [Function.update_apply, add_assoc]

end Write

section Apply

variable {R : Type} [LinearOrderedCommRing R] (d : ApplyData R)

/-- `force` for feature `j` of environment `i` and gradient row `row`. -/
def featureForce (i row j : Nat) : Vec R :=
  fun n => d.getForce (i * d.shape.2 + j) * d.gradients (3 * row + n.val) j * d.lunit

/-- The neighbour of gradient row `row`. -/
def neighbourOf (row : Nat) : Nat := (d.ninfo.getD row (0, 0)).2

/-- The innermost loops, for feature `j`: the force is taken from the centre and given to the
neighbour component by component, and `vir -= Tensor(force, dist)`. -/
def featureStep (i row : Nat) (dist : Vec R) (acc : Acc R) (j : Nat) : Acc R :=
  let force := featureForce d i row j
  let nb := neighbourOf d row
  { forcesToApply := (List.finRange 3).foldl (fun fta n =>
      let fta := Function.update fta (3 * i + n.val) (fta (3 * i + n.val) - force n)
      Function.update fta (3 * nb + n.val) (fta (3 * nb + n.val) + force n)) acc.forcesToApply
    vir := acc.vir - outer force dist }

/-- The loop over the `k`-th neighbour of environment `i`, gradient row `base + k`. -/
def neighbourStep (i base : Nat) (acc : Acc R) (k : Nat) : Acc R :=
  let dist := d.pbcDistance (d.getPosition i) (d.getPosition (neighbourOf d (base + k)))
  (List.range d.shape.2).foldl (featureStep d i (base + k) dist) acc

/-- The loop over environment `i`, then `base = base + neigh[i]`. -/
def environmentStep (st : Acc R × Nat) (i : Nat) : Acc R × Nat :=
  ((List.range (neigh d.ninfo i)).foldl (neighbourStep d i st.2) st.1, st.2 + neigh d.ninfo i)

/-- `RascalSpherical::apply` on the `forcesToApply` of the last call: nothing when no force was
added, the error for a cell smaller than the cutoff, and otherwise the cleared forces, the loops
over environments and the virial. -/
def apply (forcesWereAdded : Bool) (box : Tensor R) (cutoff : R) (forcesToApply : Nat → R) :
    Except String (Nat → R) :=
  if !forcesWereAdded then .ok forcesToApply
  else if (List.finRange 3).any fun i => decide (box i i < cutoff) then
    .error "cannot calculate rascal derivatives correctly for small cells"
  else
    let acc := ((List.range d.shape.1).foldl (environmentStep d) (⟨fun _ => 0, 0⟩, 0)).1
    .ok (writeVirial (3 * d.natoms) acc.vir acc.forcesToApply)

/-! ## The pairs and the two orientations -/

/-- The force that gradient row `row` of environment `i` adds to the neighbour, summed over the
features. -/
def pairForce (i row : Nat) : Vec R := ((List.range d.shape.2).map (featureForce d i row)).sum

/-- `dist = pbcDistance(centre, neighbour)` of gradient row `row` of environment `i`. -/
def pairDist (i row : Nat) : Vec R := d.pbcDistance (d.getPosition i) (d.getPosition (neighbourOf d row))

/-- The pairs of environment `i`, neighbour by neighbour, each contributing a tensor built from its
separation and its force. -/
def envPairs (t : Vec R → Vec R → Tensor R) (i : Nat) : Tensor R :=
  ((List.range (neigh d.ninfo i)).map fun k =>
    t (pairDist d i (rowStart d.ninfo i + k)) (pairForce d i (rowStart d.ninfo i + k))).sum

/-- The sum of `envPairs` over the environments. -/
def pairSum (t : Vec R → Vec R → Tensor R) : Tensor R := ((List.range d.shape.1).map (envPairs d t)).sum

/-- The spec's virial: `−Σ dist ⊗ F`, separation in the row and force in the column. -/
def specVirial : Tensor R := -pairSum d outer

/-! ## The loops -/

theorem foldl_vir {ι : Type} (f : Acc R → ι → Acc R) (g : ι → Tensor R)
    (h : ∀ acc x, (f acc x).vir = acc.vir - g x) :
    ∀ (l : List ι) (acc : Acc R), (l.foldl f acc).vir = acc.vir - (l.map g).sum
  | [], acc => by simp
  | x :: l, acc => by rw [List.foldl_cons, foldl_vir f g h l, h, List.map_cons, List.sum_cons, sub_sub]

theorem neighbourStep_vir (i base : Nat) (acc : Acc R) (k : Nat) :
    (neighbourStep d i base acc k).vir =
      acc.vir - outer (pairForce d i (base + k)) (pairDist d i (base + k)) := by
  rw [neighbourStep, foldl_vir _ (fun j => outer (featureForce d i (base + k) j) _) (fun _ _ => rfl),
    pairForce, outer_sum_left, pairDist]

/-- The loop over the environments: `base` runs through the row starts, and the virial is lowered
by `F ⊗ dist` for every pair. -/
theorem foldl_environmentStep (acc : Acc R) :
    ∀ n, ((List.range n).foldl (environmentStep d) (acc, 0)).2 = rowStart d.ninfo n ∧
      ((List.range n).foldl (environmentStep d) (acc, 0)).1.vir =
        acc.vir - ((List.range n).map (envPairs d fun u v => outer v u)).sum
  | 0 => by simp [rowStart]
  | n + 1 => by
    obtain ⟨h2, hv⟩ := foldl_environmentStep acc n
    rw [List.range_succ, List.foldl_append, List.foldl_cons, List.foldl_nil]
    generalize (List.range n).foldl (environmentStep d) (acc, 0) = st at h2 hv
    obtain ⟨a, b⟩ := st
    dsimp only at h2 hv
    subst h2
    refine ⟨by simp [environmentStep, rowStart, List.range_succ], ?_⟩
    rw [environmentStep, foldl_vir _ _ (neighbourStep_vir d n _), hv, List.map_append, List.sum_append,
      List.map_singleton, List.sum_singleton, sub_sub]
    rfl

theorem envPairs_swap (i : Nat) (a b : Fin 3) :
    envPairs d (fun u v => outer v u) i a b = envPairs d outer i b a := by
  simp only [envPairs, Pi.list_sum_apply, List.map_map, Function.comp_def, outer_apply, mul_comm]

/-- `RascalSpherical::apply`, for every neighbour table, gradient table, set of forces and cell at
least as large as the cutoff: it succeeds, and entry `(a, b)` of the virial it writes is entry
`(b, a)` of the spec's `−Σ dist ⊗ F`. The code writes `−Σ F ⊗ dist`. -/
theorem apply_virial (box : Tensor R) (cutoff : R) (hbox : ∀ a, cutoff ≤ box a a) (fta0 : Nat → R) :
    ∃ fta, apply d true box cutoff fta0 = .ok fta ∧
      ∀ a b : Fin 3, fta (3 * d.natoms + 3 * a.val + b.val) = specVirial d b a := by
  have hsmall : ((List.finRange 3).any fun i => decide (box i i < cutoff)) = false := by
    simpa using hbox
  refine ⟨_, by rw [apply, if_neg (by decide), if_neg (by rw [hsmall]; decide)], fun a b => ?_⟩
  rw [writeVirial_apply, (foldl_environmentStep d _ _).2]
  simp only [specVirial, pairSum, zero_sub, Pi.neg_apply, Pi.list_sum_apply, List.map_map,
    Function.comp_def, envPairs_swap]

/-- One environment, atom 0, with one neighbour, atom 1, and one feature: the force `(1, 0, 0)` on
the neighbour at separation `(0, 1, 0)`. -/
def onePair : ApplyData Int where
  shape := (1, 1)
  ninfo := [(0, 1)]
  gradients := fun r _ => if r = 0 then 1 else 0
  getForce := fun _ => 1
  getPosition := fun i => vec 0 (i : Int) 0
  pbcDistance := delta
  lunit := 1
  natoms := 2

/-- On `onePair` the virial entry `(0, 1)` that `apply` writes is `−1`, where `−dist ⊗ F` has `0`. -/
theorem apply_virial_onePair :
    ∃ fta, apply onePair true (fun _ _ => 1) 0 (fun _ => 0) = .ok fta ∧
      fta (3 * 2 + 3 * 0 + 1) = -1 ∧ specVirial onePair 0 1 = 0 := by
  obtain ⟨fta, h, hv⟩ := apply_virial onePair (fun _ _ => 1) 0 (fun _ => zero_le_one) (fun _ => 0)
  exact ⟨fta, h, (hv 0 1).trans (by decide), by decide⟩

end Apply

end Plumed.Rascal
