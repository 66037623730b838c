/-
`ANGLE`: the layout its constructor accepts and `Angle::compute`. Three atoms per task become four
through `useFourAtomsForEachCV`, the vertex standing second and third; `compute` takes the bond
vectors `pos[3] − pos[2]` and `pos[0] − pos[1]`, deposits the derivatives `ddik`, `−ddik`, `−ddij`,
`ddij` of `PLMD::Angle::compute` on the atoms of the four blocks, and the box derivative
`−Σ position ⊗ derivative` over the task's distinct atoms.

The four deposits sum to zero over the atoms, whichever atoms repeat, so the box derivative does
not depend on the origin: moving every position by one vector leaves the whole record of the task,
value, atom derivatives and box derivative, unchanged (`compute_translate`).
-/
import Plumed.Multicolvar.MultiColvarBase
import Mathlib.Algebra.BigOperators.Pi
import Mathlib.Algebra.BigOperators.Ring

namespace Plumed.Multicolvar

open Plumed.Core Plumed.Tools Finset

namespace Angle

variable {R : Type} [CommRing R]

/-- The constructor of `ANGLE` on the layout of its atoms: three blocks become four through
`useFourAtomsForEachCV`, and any other number than four is an error. -/
def setupBlocks (ab : AtomBlocks) : Except String AtomBlocks :=
  let ab := if ab.ablocks.length = 3 then ab.useFourAtomsForEachCV else ab
  if ab.ablocks.length = 4 then .ok ab else .error "Number of specified atoms should be 3 or 4"

/-- `Angle::compute` on the positions `pos` of a task. `angle` is `PLMD::Angle::compute`
(tools/Angle.h is not among the sources): from `dij` and `dik`, the angle and its derivatives
`ddij` and `ddik`. -/
def compute (angle : Vec R → Vec R → R × Vec R × Vec R) (noDerivatives : Bool) (ab : AtomBlocks)
    (pos : List (Vec R)) (mv : MultiValue R) : MultiValue R :=
  let dij := delta (pos.getD 2 0) (pos.getD 3 0)
  let dik := delta (pos.getD 1 0) (pos.getD 0 0)
  let a := angle dij dik
  let mv := addAtomsDerivatives noDerivatives ab 0 0 a.2.2 mv
  let mv := addAtomsDerivatives noDerivatives ab 0 1 (-a.2.2) mv
  let mv := addAtomsDerivatives noDerivatives ab 0 2 (-a.2.1) mv
  let mv := addAtomsDerivatives noDerivatives ab 0 3 a.2.1 mv
  (setBoxDerivativesNoPbc noDerivatives ab 0 pos mv).setValue 0 a.1

theorem setupBlocks_four {ab ab' : AtomBlocks} (h : setupBlocks ab = .ok ab') : ab'.ablocks.length = 4 := by
  simp only [setupBlocks] at h
  generalize (if ab.ablocks.length = 3 then ab.useFourAtomsForEachCV else ab) = ab₁ at h
  by_cases h4 : ab₁.ablocks.length = 4
  · rw [if_pos h4] at h; cases h; exact h4
  · rw [if_neg h4] at h; cases h

/-! ## Translation invariance -/

theorem outer_sum_right {ι : Type} (s : Finset ι) (u : Vec R) (v : ι → Vec R) :
    outer u (∑ i ∈ s, v i) = ∑ i ∈ s, outer u (v i) := by
  funext a b
  simp only [outer_apply, Finset.sum_apply, mul_sum]

/-- When the derivatives sum to zero over the atoms, moving every position by `c` leaves the
virial unchanged. -/
theorem boxVirial_translate (fpositions : List (Vec R)) (der : Nat → Vec R) (atoms : List Nat) (c : Vec R)
    (hlen : atoms.length ≤ fpositions.length) (hsum : ∑ a ∈ atoms.toFinset, der a = 0) :
    boxVirial (fpositions.map (· + c)) der atoms = boxVirial fpositions der atoms := by
  have hget : ∀ a ∈ atoms.toFinset, (fpositions.map (· + c)).getD (atoms.indexOf a) 0 =
      fpositions.getD (atoms.indexOf a) 0 + c := fun a ha => by
    have hi : atoms.indexOf a < fpositions.length :=
      (List.indexOf_lt_length.mpr (List.mem_toFinset.mp ha)).trans_le hlen
    rw [List.getD_eq_getElem _ _ (by simpa using hi), List.getD_eq_getElem _ _ hi, List.getElem_map]
  rw [boxVirial_eq, boxVirial_eq, sum_congr rfl fun a ha => by rw [hget a ha, outer_add_left], sum_add_distrib,
    ← outer_sum_right, hsum]
  funext a b
  simp

/-- The four deposits of `compute`, `u`, `−u`, `−v`, `v` on the atoms of blocks 0 to 3: on atom `x`,
the deposits of the blocks that hold it. -/
theorem atomDerivative_deposits (ab : AtomBlocks) (u v : Vec R) (mv : MultiValue R) (x : Nat) :
    atomDerivative (addAtomsDerivatives false ab 0 3 v (addAtomsDerivatives false ab 0 2 (-v)
      (addAtomsDerivatives false ab 0 1 (-u) (addAtomsDerivatives false ab 0 0 u mv)))) 0 x =
      atomDerivative mv 0 x + (if x = (ab.ablocks.getD 0 []).getD mv.taskIndex 0 then u else 0) +
        (if x = (ab.ablocks.getD 1 []).getD mv.taskIndex 0 then -u else 0) +
        (if x = (ab.ablocks.getD 2 []).getD mv.taskIndex 0 then -v else 0) +
        (if x = (ab.ablocks.getD 3 []).getD mv.taskIndex 0 then v else 0) := by
  simp only [atomDerivative_addAtomsDerivatives, addAtomsDerivatives_taskIndex]

/-- Over the distinct atoms of a four-block task with no derivative yet, the four deposits sum to
zero, whichever atoms repeat. -/
theorem sum_atomDerivative_deposits {ab : AtomBlocks} {b0 b1 b2 b3 : List Nat} (hblocks : ab.ablocks = [b0, b1, b2, b3])
    (u v : Vec R) (mv : MultiValue R) (hfresh : ∀ a ∈ ab.taskAtoms mv.taskIndex, atomDerivative mv 0 a = 0) :
    ∑ x ∈ (ab.taskAtoms mv.taskIndex).toFinset, atomDerivative (addAtomsDerivatives false ab 0 3 v
      (addAtomsDerivatives false ab 0 2 (-v) (addAtomsDerivatives false ab 0 1 (-u)
        (addAtomsDerivatives false ab 0 0 u mv)))) 0 x = 0 := by
  have hatoms : ab.taskAtoms mv.taskIndex =
      [b0.getD mv.taskIndex 0, b1.getD mv.taskIndex 0, b2.getD mv.taskIndex 0, b3.getD mv.taskIndex 0] := by
    simp [AtomBlocks.taskAtoms, hblocks]
  rw [sum_congr rfl fun x _ => atomDerivative_deposits ab u v mv x]
  simp only [sum_add_distrib, sum_ite_eq']
  rw [sum_eq_zero fun x hx => hfresh x (List.mem_toFinset.mp hx)]
  simp only [hatoms, hblocks, List.mem_toFinset, List.getD_cons_zero, List.getD_cons_succ, List.mem_cons,
    List.mem_singleton, true_or, or_true, ↓reduceIte]
  rw [zero_add, add_neg_cancel, zero_add, neg_add_cancel]

/-- `Angle::compute`, for every layout its constructor accepts, every task whose atoms have no
derivative yet, every four positions and every vector `c`: moving every position by `c` leaves the
record unchanged, the box derivative included. -/
theorem compute_translate (angle : Vec R → Vec R → R × Vec R × Vec R) (noDerivatives : Bool)
    (ab₀ : AtomBlocks) {ab : AtomBlocks} (hab : setupBlocks ab₀ = .ok ab) (pos : List (Vec R)) (hpos : pos.length = 4)
    (c : Vec R) (mv : MultiValue R) (hfresh : ∀ a ∈ ab.taskAtoms mv.taskIndex, atomDerivative mv 0 a = 0) :
    compute angle noDerivatives ab (pos.map (· + c)) mv = compute angle noDerivatives ab pos mv := by
  have hshift : ∀ i, i < 4 → (pos.map (· + c)).getD i 0 = pos.getD i 0 + c := fun i hi => by
    rw [List.getD_eq_getElem _ _ (by simpa [hpos] using hi), List.getD_eq_getElem _ _ (by omega),
      List.getElem_map]
  have hdelta : ∀ i j, i < 4 → j < 4 → delta ((pos.map (· + c)).getD i 0) ((pos.map (· + c)).getD j 0) =
      delta (pos.getD i 0) (pos.getD j 0) := fun i j hi hj => by
    rw [hshift i hi, hshift j hj]; funext k; simp
  simp only [compute, hdelta 2 3 (by omega) (by omega), hdelta 1 0 (by omega) (by omega)]
  generalize angle (delta (pos.getD 2 0) (pos.getD 3 0)) (delta (pos.getD 1 0) (pos.getD 0 0)) = a
  obtain ⟨value, ddij, ddik⟩ := a
  cases noDerivatives
  · obtain ⟨b0, b1, b2, b3, hblocks⟩ : ∃ b0 b1 b2 b3, ab.ablocks = [b0, b1, b2, b3] := by
      have h4 := setupBlocks_four hab
      rcases hb : ab.ablocks with _ | ⟨b0, _ | ⟨b1, _ | ⟨b2, _ | ⟨b3, _ | ⟨b4, rest⟩⟩⟩⟩⟩ <;> rw [hb] at h4 <;>
        simp at h4
      exact ⟨b0, b1, b2, b3, rfl⟩
    have hlen : (ab.taskAtoms mv.taskIndex).length ≤ pos.length := by simp [AtomBlocks.taskAtoms, hblocks, hpos]
    have hsum := sum_atomDerivative_deposits hblocks ddik ddij mv hfresh
    have htask : (addAtomsDerivatives false ab 0 3 ddij (addAtomsDerivatives false ab 0 2 (-ddij)
        (addAtomsDerivatives false ab 0 1 (-ddik) (addAtomsDerivatives false ab 0 0 ddik mv)))).taskIndex =
        mv.taskIndex := by simp only [addAtomsDerivatives_taskIndex]
    generalize addAtomsDerivatives false ab 0 3 ddij (addAtomsDerivatives false ab 0 2 (-ddij)
      (addAtomsDerivatives false ab 0 1 (-ddik) (addAtomsDerivatives false ab 0 0 ddik mv))) = M at hsum htask ⊢
    rw [setBoxDerivativesNoPbc, setBoxDerivativesNoPbc, if_neg Bool.false_ne_true, if_neg Bool.false_ne_true, htask,
      boxVirial_translate _ _ _ _ hlen hsum]
  · rw [setBoxDerivativesNoPbc, setBoxDerivativesNoPbc, if_pos rfl, if_pos rfl]

/-- `ANGLE ATOMS=1,2,3`, moved by `(1, 2, 3)`. -/
theorem compute_translate_ofGroup :
    compute (fun dij dik => ((1 : ℤ), dik, dij)) false (AtomBlocks.ofGroup 3).useFourAtomsForEachCV
        ([vec 1 0 0, vec 0 0 0, vec 0 0 0, vec 0 1 0].map (· + vec 1 2 3)) (MultiValue.clear 0) =
      compute (fun dij dik => ((1 : ℤ), dik, dij)) false (AtomBlocks.ofGroup 3).useFourAtomsForEachCV
        [vec 1 0 0, vec 0 0 0, vec 0 0 0, vec 0 1 0] (MultiValue.clear 0) :=
  compute_translate _ false (AtomBlocks.ofGroup 3) rfl [vec 1 0 0, vec 0 0 0, vec 0 0 0, vec 0 1 0] rfl _ _
    fun a _ => atomDerivative_clear 0 0 a

end Angle

end Plumed.Multicolvar
