/-
The default `DISTANCE` colvar (neither `COMPONENTS` nor `SCALED_COMPONENTS`) through
`MultiColvarBase::performTask`: for every pair of positions, every two-block layout and every
task, the box derivative it deposits is `−(d ⊗ d)/|d|` for the separation `d` (minimum-image
under PBC, the plain difference under `NOPBC`), hence symmetric. The make-whole step is what makes
the second position minus the first equal to the separation that `compute` differentiates.
-/
import Plumed.Multicolvar.MultiColvarBase
import Mathlib.Algebra.Field.Basic
import Mathlib.Tactic.Ring
import Mathlib.Algebra.Order.Field.Rat
import Mathlib.Algebra.EuclideanDomain.Field

namespace Plumed.Multicolvar

open Plumed.Core Plumed.Tools

/-- Modelled from the spec: the periodic-boundary object `Pbc` (tools/Pbc.h is not among the
sources) as `DISTANCE` reads it: the minimum-image separation, zero from a point to itself; the
conversion to scaled coordinates; the inverse box; and `Tools::pbc`, the wrap of a scaled
coordinate. -/
structure Pbc (R : Type) [CommRing R] where
  distance : Vec R → Vec R → Vec R
  distance_self : ∀ p, distance p p = 0
  realToScaled : Vec R → Vec R
  invBox : Tensor R
  wrap : R → R

namespace Distance

/-- The three forms of `DISTANCE`: the distance, its `COMPONENTS`, its `SCALED_COMPONENTS`. -/
inductive Mode where
  | plain
  | components
  | scaled

variable {R : Type} [Field R]

/-- `Distance::compute` on the positions `pos` of a task; `modulo` is `Vector::modulo`. -/
def compute (mode : Mode) (pbc : Pbc R) (modulo : Vec R → R) (noDerivatives : Bool)
    (ab : AtomBlocks) (pos : List (Vec R)) (mv : MultiValue R) : MultiValue R :=
  let distance := delta (pos.getD 0 0) (pos.getD 1 0)
  let value := modulo distance
  let invvalue := 1 / value
  let atoms := addAtomsDerivatives noDerivatives ab
  let box := setBoxDerivativesNoPbc noDerivatives ab
  match mode with
  | .components =>
    let mv := box 0 pos (atoms 0 1 (vec 1 0 0) (atoms 0 0 (vec (-1) 0 0) mv))
    let mv := box 1 pos (atoms 1 1 (vec 0 1 0) (atoms 1 0 (vec 0 (-1) 0) (mv.setValue 0 (distance 0))))
    let mv := box 2 pos (atoms 2 1 (vec 0 0 1) (atoms 2 0 (vec 0 0 (-1)) (mv.setValue 1 (distance 1))))
    mv.setValue 2 (distance 2)
  | .scaled =>
    let d := pbc.realToScaled distance
    let mv := atoms 0 1 (matmul pbc.invBox (vec 1 0 0)) (atoms 0 0 (matmul pbc.invBox (vec (-1) 0 0)) mv)
    let mv := atoms 1 0 (matmul pbc.invBox (vec 0 (-1) 0)) (mv.setValue 0 (pbc.wrap (d 0)))
    let mv := atoms 1 1 (matmul pbc.invBox (vec 0 1 0)) mv
    let mv := atoms 2 0 (matmul pbc.invBox (vec 0 0 (-1))) (mv.setValue 1 (pbc.wrap (d 1)))
    let mv := atoms 2 1 (matmul pbc.invBox (vec 0 0 1)) mv
    mv.setValue 2 (pbc.wrap (d 2))
  | .plain =>
    let mv := atoms 0 1 (invvalue • distance) (atoms 0 0 (-invvalue • distance) mv)
    (box 0 pos mv).setValue 0 value

/-- The separation the spec names: minimum-image under PBC, the plain difference under `NOPBC`. -/
def separation (usepbc : Bool) (pbc : Pbc R) (p0 p1 : Vec R) : Vec R :=
  if usepbc then pbc.distance p0 p1 else delta p0 p1

/-- The positions `compute` receives differ by the separation. -/
theorem makeWhole_two (usepbc : Bool) (pbc : Pbc R) (p0 p1 : Vec R) :
    delta ((makeWhole usepbc pbc.distance [p0, p1]).getD 0 0)
      ((makeWhole usepbc pbc.distance [p0, p1]).getD 1 0) = separation usepbc pbc p0 p1 := by
  cases usepbc <;> simp [makeWhole, wholeFrom, separation, delta]

theorem separation_self (usepbc : Bool) (pbc : Pbc R) (p : Vec R) : separation usepbc pbc p p = 0 := by
  cases usepbc <;> simp [separation, delta, pbc.distance_self]

theorem distance_box_entry (pbc : Pbc R) (modulo : Vec R → R) (usepbc : Bool)
    (positions : Nat → Vec R) (nderivatives : Nat) (ab : AtomBlocks) (hb : ab.ablocks.length = 2)
    (t : Nat) (ht : t < ab.ntasks) (a b : Fin 3) :
    (performTask usepbc pbc.distance positions (compute .plain pbc modulo false ab) false
      nderivatives 1 ab (MultiValue.clear t)).derivatives 0 (3 * ab.natoms + 3 * a.val + b.val) =
      -(separation usepbc pbc (positions ((ab.taskAtoms t).getD 0 0)) (positions ((ab.taskAtoms t).getD 1 0)) a *
        separation usepbc pbc (positions ((ab.taskAtoms t).getD 0 0)) (positions ((ab.taskAtoms t).getD 1 0)) b) /
      modulo (separation usepbc pbc (positions ((ab.taskAtoms t).getD 0 0))
        (positions ((ab.taskAtoms t).getD 1 0))) := by
  obtain ⟨b0, b1, hab⟩ := List.length_eq_two.1 hb
  have hatoms : ab.taskAtoms t = [b0.getD t 0, b1.getD t 0] := by simp [AtomBlocks.taskAtoms, hab]
  have hlt := ab.taskAtoms_lt ht
  rw [hatoms] at hlt ⊢
  have hblk0 : (ab.ablocks.getD 0 []).getD t 0 = b0.getD t 0 := by rw [hab]; rfl
  have hblk1 : (ab.ablocks.getD 1 []).getD t 0 = b1.getD t 0 := by rw [hab]; rfl
  generalize b0.getD t 0 = x0 at hatoms hlt hblk0 ⊢
  generalize b1.getD t 0 = x1 at hatoms hlt hblk1 ⊢
  have hj : 3 * ab.natoms ≤ 3 * ab.natoms + 3 * a.val + b.val := by omega
  simp only [performTask, MultiValue.foldl_updateIndex_derivatives, MultiValue.clear_taskIndex, hatoms,
    compute, List.map_cons, List.map_nil, MultiValue.setValue_derivatives, setBoxDerivativesNoPbc,
    Bool.false_eq_true, ite_false, addBoxDerivatives_derivatives]
  rw [addAtomsDerivatives_box _ _ _ _ _ _ _ _ (by
      rw [addAtomsDerivatives_taskIndex, MultiValue.clear_taskIndex, hblk1]; exact hlt x1 (by simp)) hj,
    addAtomsDerivatives_box _ _ _ _ _ _ _ _ (by
      rw [MultiValue.clear_taskIndex, hblk0]; exact hlt x0 (by simp)) hj]
  simp only [MultiValue.clear_derivatives, zero_add, boxVirial_two, atomDerivative_addAtomsDerivatives,
    addAtomsDerivatives_taskIndex, MultiValue.clear_taskIndex, hatoms, hblk0, hblk1, atomDerivative_clear,
    List.getD_cons_zero, List.getD_cons_succ]
  have hd := makeWhole_two usepbc pbc (positions x0) (positions x1)
  generalize makeWhole usepbc pbc.distance [positions x0, positions x1] = fp at hd ⊢
  by_cases hx : x1 = x0
  · subst hx
    rw [separation_self]
    simp
  · rw [← hd]
    simp [hx, Ne.symm hx, delta]
    ring

/-- The default `DISTANCE` through `MultiColvarBase::performTask`, for every pair of positions,
every two-block layout and every task: the box derivative it deposits is `−(d ⊗ d)/|d|` for the
separation `d`, and is therefore symmetric. -/
theorem distance_boxDerivative (pbc : Pbc R) (modulo : Vec R → R) (usepbc : Bool)
    (positions : Nat → Vec R) (nderivatives : Nat) (ab : AtomBlocks) (hb : ab.ablocks.length = 2)
    (t : Nat) (ht : t < ab.ntasks) (a b : Fin 3) :
    let d := separation usepbc pbc (positions ((ab.taskAtoms t).getD 0 0))
      (positions ((ab.taskAtoms t).getD 1 0))
    let box := (performTask usepbc pbc.distance positions (compute .plain pbc modulo false ab) false
      nderivatives 1 ab (MultiValue.clear t)).derivatives 0
    box (3 * ab.natoms + 3 * a.val + b.val) = -(d a * d b) / modulo d ∧
      box (3 * ab.natoms + 3 * a.val + b.val) = box (3 * ab.natoms + 3 * b.val + a.val) :=
  ⟨distance_box_entry pbc modulo usepbc positions nderivatives ab hb t ht a b, by
    rw [distance_box_entry pbc modulo usepbc positions nderivatives ab hb t ht a b,
      distance_box_entry pbc modulo usepbc positions nderivatives ab hb t ht b a, mul_comm]⟩

/-- The pair `ATOMS=1,2` in an open box has two blocks and one task, and its box derivative is
symmetric in entries `(0, 1)` and `(1, 0)`. -/
theorem distance_boxDerivative_ofGroup :
    (AtomBlocks.ofGroup 2).ablocks.length = 2 ∧ 0 < (AtomBlocks.ofGroup 2).ntasks ∧
      (performTask false (fun p q => q - p) (fun i => vec (i : ℚ) 0 0)
        (compute .plain ⟨fun p q => q - p, sub_self, id, 0, id⟩ (fun _ => 1) false (AtomBlocks.ofGroup 2))
        false 0 1 (AtomBlocks.ofGroup 2) (MultiValue.clear 0)).derivatives 0 (3 * 2 + 3 * 0 + 1) =
      (performTask false (fun p q => q - p) (fun i => vec (i : ℚ) 0 0)
        (compute .plain ⟨fun p q => q - p, sub_self, id, 0, id⟩ (fun _ => 1) false (AtomBlocks.ofGroup 2))
        false 0 1 (AtomBlocks.ofGroup 2) (MultiValue.clear 0)).derivatives 0 (3 * 2 + 3 * 1 + 0) :=
  ⟨rfl, Nat.one_pos, (distance_boxDerivative ⟨fun p q => q - p, sub_self, id, 0, id⟩ (fun _ => 1) false
    (fun i => vec (i : ℚ) 0 0) 0 (AtomBlocks.ofGroup 2) rfl 0 Nat.one_pos 0 1).2⟩

end Distance

end Plumed.Multicolvar
