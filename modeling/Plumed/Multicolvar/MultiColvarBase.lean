/-
`MultiColvarBase::performTask` and `setBoxDerivativesNoPbc` on every atom-block layout: for every
output, the derivative indices passed to `updateIndex` are, each once, the three indices of each
distinct atom of the task and the nine box indices; and the box derivative is `−position ⊗
derivative` summed once over each distinct atom. Layouts carry their own well-formedness, and the
constructor's layouts and `useFourAtomsForEachCV` are well-formed.
-/
import Plumed.Core.MultiValue
import Plumed.Tools.Vector
import Mathlib.Algebra.BigOperators.Group.Finset
import Mathlib.Data.List.GetD
import Mathlib.Tactic.FinCases
import Mathlib.Tactic.SplitIfs
import Mathlib.Algebra.Ring.Int.Defs

namespace Plumed.Multicolvar

open Plumed.Core Plumed.Tools

/-! ## Atom-block layouts -/

/-- The atom-block layout `ablocks` of a `MultiColvarBase`: block `i` lists, task by task, the
index among the requested atoms of each task's `i`-th atom. Every block has one entry per task
and names a requested atom. -/
structure AtomBlocks where
  ablocks : List (List Nat)
  natoms : Nat
  ntasks : Nat
  length_eq : ∀ b ∈ ablocks, b.length = ntasks
  lt_natoms : ∀ b ∈ ablocks, ∀ a ∈ b, a < natoms

namespace AtomBlocks

/-- The atoms of task `t`, block by block: `ablocks[i][t]`. -/
def taskAtoms (ab : AtomBlocks) (t : Nat) : List Nat := ab.ablocks.map (·.getD t 0)

theorem taskAtoms_lt (ab : AtomBlocks) {t : Nat} (ht : t < ab.ntasks) :
    ∀ a ∈ ab.taskAtoms t, a < ab.natoms := by
  intro a ha
  obtain ⟨b, hb, rfl⟩ := List.mem_map.1 ha
  have hl : t < b.length := by rw [ab.length_eq b hb]; exact ht
  rw [List.getD_eq_getElem _ _ hl]
  exact ab.lt_natoms b hb _ (List.getElem_mem hl)

/-- The layout of one group `ATOMS=a₀,…,aₙ₋₁`: one task, block `j` holding atom `j`. -/
def ofGroup (n : Nat) : AtomBlocks where
  ablocks := (List.range n).map fun j => [j]
  natoms := n
  ntasks := 1
  length_eq := by simp
  lt_natoms := by simp

/-- The layout of `POSITION`, `MASSES` and `CHARGES`: one block, task `i` holding atom `i`. -/
def ofAtomList (n : Nat) : AtomBlocks where
  ablocks := [List.range n]
  natoms := n
  ntasks := n
  length_eq := by simp
  lt_natoms := by simp

/-- The layout of `m` numbered groups `ATOMS1, ATOMS2, …` of `k` atoms each: block `j` holds the
atom `k·(i−1) + j` of task `i − 1`. -/
def ofNumberedGroups (k m : Nat) : AtomBlocks where
  ablocks := (List.range k).map fun j => (List.range m).map fun i => k * i + j
  natoms := k * m
  ntasks := m
  length_eq := by simp
  lt_natoms b hb a ha := by
    obtain ⟨j, hj, rfl⟩ := List.mem_map.1 hb
    obtain ⟨i, hi, rfl⟩ := List.mem_map.1 ha
    rw [List.mem_range] at hi hj
    calc k * i + j < k * i + k := by omega
      _ = k * (i + 1) := (Nat.mul_succ k i).symm
      _ ≤ k * m := Nat.mul_le_mul_left k hi

/-- The blocks `useFourAtomsForEachCV` builds from three: the middle block is repeated, so that
each task's second atom also stands third. `ANGLE` calls it on three blocks only. -/
def fourBlocks : List (List Nat) → List (List Nat)
  | [b0, b1, b2] => [b0, b1, b1, b2]
  | l => l

theorem mem_fourBlocks {l : List (List Nat)} {b : List Nat} (h : b ∈ fourBlocks l) : b ∈ l := by
  unfold fourBlocks at h
  split at h <;> simp_all

/-- `MultiColvarBase::useFourAtomsForEachCV`. -/
def useFourAtomsForEachCV (ab : AtomBlocks) : AtomBlocks where
  ablocks := fourBlocks ab.ablocks
  natoms := ab.natoms
  ntasks := ab.ntasks
  length_eq b hb := ab.length_eq b (mem_fourBlocks hb)
  lt_natoms b hb := ab.lt_natoms b (mem_fourBlocks hb)

end AtomBlocks

/-! ## The distinct atoms of a task -/

section Distinct

variable (atoms : List Nat)

/-- The duplicate check of `performTask` and `setBoxDerivativesNoPbc` at block `i`: no earlier
block of the task holds the same atom. -/
def isNew (i : Nat) : Bool := !(atoms.take i).contains (atoms.getD i 0)

/-- The blocks both loops visit: the first block of each atom of the task. -/
def newBlocks : List Nat := (List.range atoms.length).filter (isNew atoms)

theorem isNew_iff {i : Nat} (hi : i < atoms.length) :
    isNew atoms i = true ↔ atoms.indexOf atoms[i] = i := by
  have hsplit : atoms = atoms.take i ++ atoms[i] :: atoms.drop (i + 1) := by
    rw [← List.drop_eq_getElem_cons hi, List.take_append_drop]
  have hlen : (atoms.take i).length = i := List.length_take_of_le (by omega)
  have key : atoms.indexOf atoms[i] = (atoms.take i ++ atoms[i] :: atoms.drop (i + 1)).indexOf atoms[i] :=
    congrArg _ hsplit
  unfold isNew
  rw [List.getD_eq_getElem _ _ hi, key]
  by_cases hm : atoms[i] ∈ atoms.take i
  · have hlt := List.indexOf_lt_length.2 hm
    rw [List.indexOf_append_of_mem hm]
    simp only [hm, List.elem_eq_mem, List.contains, decide_True, Bool.not_true, Bool.false_eq_true,
      false_iff]
    omega
  · rw [List.indexOf_append_of_not_mem hm, List.indexOf_cons_self, hlen]
    simpa using hm

theorem mem_newBlocks {i : Nat} :
    i ∈ newBlocks atoms ↔ ∃ h : i < atoms.length, atoms.indexOf atoms[i] = i := by
  unfold newBlocks
  rw [List.mem_filter, List.mem_range]
  constructor
  · rintro ⟨hi, hn⟩; exact ⟨hi, (isNew_iff atoms hi).1 hn⟩
  · rintro ⟨hi, hn⟩; exact ⟨hi, (isNew_iff atoms hi).2 hn⟩

theorem getD_newBlocks {i : Nat} (h : i ∈ newBlocks atoms) :
    atoms.indexOf (atoms.getD i 0) = i := by
  obtain ⟨hi, hn⟩ := (mem_newBlocks atoms).1 h
  rwa [List.getD_eq_getElem _ _ hi]

/-- The atoms of the visited blocks are the task's atoms, each once. -/
theorem newBlocks_atoms_nodup : ((newBlocks atoms).map (atoms.getD · 0)).Nodup :=
  (List.nodup_range _).filter _ |>.map_on fun i hi j hj hij => by
    rw [← getD_newBlocks atoms hi, ← getD_newBlocks atoms hj, hij]

theorem mem_newBlocks_atoms {a : Nat} : a ∈ (newBlocks atoms).map (atoms.getD · 0) ↔ a ∈ atoms := by
  rw [List.mem_map]
  constructor
  · rintro ⟨i, hi, rfl⟩
    obtain ⟨hl, -⟩ := (mem_newBlocks atoms).1 hi
    rw [List.getD_eq_getElem _ _ hl]; exact List.getElem_mem hl
  · intro ha
    have hl := List.indexOf_lt_length.2 ha
    have hget : atoms[atoms.indexOf a] = a := List.indexOf_get hl
    refine ⟨atoms.indexOf a, (mem_newBlocks atoms).2 ⟨hl, by rw [hget]⟩, ?_⟩
    rw [List.getD_eq_getElem _ _ hl, hget]

end Distinct

/-! ## Index updates -/

/-- The three derivative indices of atom `a`, for every component in turn. -/
def atomIndexPairs (ncomp a : Nat) : List (Nat × Nat) :=
  (List.range ncomp).flatMap fun j => [(j, 3 * a), (j, 3 * a + 1), (j, 3 * a + 2)]

/-- The nine box indices after the `natoms` atoms' indices, for every component in turn. -/
def boxIndexPairs (ncomp natoms : Nat) : List (Nat × Nat) :=
  (List.range ncomp).flatMap fun j => (List.range 9).map fun i => (j, 3 * natoms + i)

/-- The `(component, derivative index)` pairs that `MultiColvarBase::performTask` passes to
`updateIndex`, in order, for a task whose atoms are `atoms`: those of the atom of each visited
block, then the box indices. `skip` is the early return when derivatives are off or
`getNumberOfDerivatives()==getNumberOfAtoms()`. -/
def updateIndexCalls (skip : Bool) (ncomp natoms : Nat) (atoms : List Nat) : List (Nat × Nat) :=
  if skip then [] else
    (newBlocks atoms).flatMap (fun i => atomIndexPairs ncomp (atoms.getD i 0)) ++
      boxIndexPairs ncomp natoms

theorem mem_atomIndexPairs {ncomp a : Nat} {p : Nat × Nat} :
    p ∈ atomIndexPairs ncomp a ↔ p.1 < ncomp ∧ ∃ k < 3, p.2 = 3 * a + k := by
  obtain ⟨j, x⟩ := p
  simp only [atomIndexPairs, List.mem_flatMap, List.mem_range, List.mem_cons, Prod.mk.injEq,
    List.mem_singleton, List.not_mem_nil, or_false]
  constructor
  · rintro ⟨j, hj, ⟨rfl, rfl⟩ | ⟨rfl, rfl⟩ | ⟨rfl, rfl⟩⟩
    exacts [⟨hj, 0, by omega, rfl⟩, ⟨hj, 1, by omega, rfl⟩, ⟨hj, 2, by omega, rfl⟩]
  · rintro ⟨hj, k, hk, rfl⟩
    exact ⟨j, hj, by omega⟩

theorem mem_boxIndexPairs {ncomp natoms : Nat} {p : Nat × Nat} :
    p ∈ boxIndexPairs ncomp natoms ↔ p.1 < ncomp ∧ 3 * natoms ≤ p.2 ∧ p.2 < 3 * natoms + 9 := by
  obtain ⟨j, x⟩ := p
  simp only [boxIndexPairs, List.mem_flatMap, List.mem_range, List.mem_map, Prod.mk.injEq]
  constructor
  · rintro ⟨j, hj, i, hi, rfl, rfl⟩; exact ⟨hj, by omega, by omega⟩
  · rintro ⟨hj, h1, h2⟩; exact ⟨j, hj, x - 3 * natoms, by omega, rfl, by omega⟩

theorem atomIndexPairs_nodup (ncomp a : Nat) : (atomIndexPairs ncomp a).Nodup := by
  refine List.nodup_flatMap.2 ⟨fun j _ => by simp, (List.nodup_range ncomp).imp fun hne => ?_⟩
  intro p h1 h2
  simp only [List.mem_cons, List.mem_singleton, List.not_mem_nil, or_false] at h1 h2
  rcases h1 with rfl | rfl | rfl <;> rcases h2 with h | h | h <;> simp_all

theorem boxIndexPairs_nodup (ncomp natoms : Nat) : (boxIndexPairs ncomp natoms).Nodup := by
  refine List.nodup_flatMap.2 ⟨fun j _ => (List.nodup_range 9).map fun _ _ h => by simpa using h,
    (List.nodup_range ncomp).imp fun hne => ?_⟩
  intro p h1 h2
  simp only [List.mem_map] at h1 h2
  obtain ⟨i, -, rfl⟩ := h1
  obtain ⟨i', -, h⟩ := h2
  simp only [Prod.mk.injEq] at h
  exact hne h.1.symm

theorem mem_updateIndexCalls {skip : Bool} {ncomp natoms : Nat} {atoms : List Nat} {j idx : Nat} :
    (j, idx) ∈ updateIndexCalls skip ncomp natoms atoms ↔ skip = false ∧ j < ncomp ∧
      ((∃ a ∈ atoms, ∃ k < 3, idx = 3 * a + k) ∨ (3 * natoms ≤ idx ∧ idx < 3 * natoms + 9)) := by
  cases skip
  · simp only [updateIndexCalls, Bool.false_eq_true, ite_false, List.mem_append, List.mem_flatMap,
      mem_atomIndexPairs, mem_boxIndexPairs, true_and]
    constructor
    · rintro (⟨i, hi, hj, hk⟩ | ⟨hj, hb⟩)
      · exact ⟨hj, .inl ⟨_, (mem_newBlocks_atoms atoms).1 (List.mem_map_of_mem _ hi), hk⟩⟩
      · exact ⟨hj, .inr hb⟩
    · rintro ⟨hj, ⟨a, ha, hk⟩ | hb⟩
      · obtain ⟨i, hi, rfl⟩ := List.mem_map.1 ((mem_newBlocks_atoms atoms).2 ha)
        exact .inl ⟨i, hi, hj, hk⟩
      · exact .inr ⟨hj, hb⟩
  · simp [updateIndexCalls]

/-- Each pair is passed once: distinct atoms have disjoint index triples, and every atom index
lies below the box indices. -/
theorem updateIndexCalls_nodup {skip : Bool} {ncomp natoms : Nat} {atoms : List Nat}
    (hlt : ∀ a ∈ atoms, a < natoms) : (updateIndexCalls skip ncomp natoms atoms).Nodup := by
  cases skip
  · simp only [updateIndexCalls, Bool.false_eq_true, ite_false]
    refine List.nodup_append.2 ⟨?_, boxIndexPairs_nodup _ _, fun p h1 h2 => ?_⟩
    · rw [show ((newBlocks atoms).flatMap fun i => atomIndexPairs ncomp (atoms.getD i 0)) =
          ((newBlocks atoms).map (atoms.getD · 0)).flatMap (atomIndexPairs ncomp) from
        (List.flatMap_map _ _ _).symm]
      refine List.nodup_flatMap.2 ⟨fun a _ => atomIndexPairs_nodup _ _,
        (newBlocks_atoms_nodup atoms).imp fun hne p h1 h2 => ?_⟩
      obtain ⟨-, k, hk, e1⟩ := mem_atomIndexPairs.1 h1
      obtain ⟨-, k', hk', e2⟩ := mem_atomIndexPairs.1 h2
      exact hne (by omega)
    · obtain ⟨i, hi, h1⟩ := List.mem_flatMap.1 h1
      obtain ⟨-, k, hk, e1⟩ := mem_atomIndexPairs.1 h1
      obtain ⟨-, hb, -⟩ := mem_boxIndexPairs.1 h2
      have := hlt _ ((mem_newBlocks_atoms atoms).1 (List.mem_map_of_mem _ hi))
      omega
  · simp [updateIndexCalls]

/-! ## The box derivative -/

section Virial

variable {R : Type} [CommRing R]

/-- The virial that `setBoxDerivativesNoPbc` accumulates: `−Tensor(fpositions[i], der(atom))` for
each visited block `i`. -/
def boxVirial (fpositions : List (Vec R)) (der : Nat → Vec R) (atoms : List Nat) : Tensor R :=
  (List.range atoms.length).foldl (fun vir i =>
    if isNew atoms i then vir - outer (fpositions.getD i 0) (der (atoms.getD i 0)) else vir) 0

theorem boxVirial_two (fpositions : List (Vec R)) (der : Nat → Vec R) (x0 x1 : Nat) :
    boxVirial fpositions der [x0, x1] =
      -outer (fpositions.getD 0 0) (der x0) - if x1 = x0 then 0 else outer (fpositions.getD 1 0) (der x1) := by
  by_cases h : x1 = x0 <;> simp [boxVirial, isNew, List.range_succ, h]

theorem foldl_sub_filter (p : Nat → Bool) (F : Nat → Tensor R) :
    ∀ (l : List Nat) (v : Tensor R),
      l.foldl (fun (vir : Tensor R) i => if p i then vir - F i else vir) v = v - ((l.filter p).map F).sum
  | [], v => by simp
  | a :: l, v => by
    rw [List.foldl_cons, foldl_sub_filter p F l, List.filter_cons]
    cases p a <;> simp [sub_sub]

/-- The box derivative sums `−position ⊗ derivative` over the distinct atoms of the task, each
once, at the position of its first block. -/
theorem boxVirial_eq (fpositions : List (Vec R)) (der : Nat → Vec R) (atoms : List Nat) :
    boxVirial fpositions der atoms =
      -∑ a ∈ atoms.toFinset, outer (fpositions.getD (atoms.indexOf a) 0) (der a) := by
  have hset : atoms.toFinset = ((newBlocks atoms).map (atoms.getD · 0)).toFinset := by
    ext a; simp only [List.mem_toFinset, mem_newBlocks_atoms]
  rw [boxVirial, foldl_sub_filter, zero_sub, hset, List.sum_toFinset _ (newBlocks_atoms_nodup atoms),
    List.map_map]
  congr 2
  refine List.map_congr_left fun i hi => ?_
  simp only [Function.comp_apply, getD_newBlocks atoms hi]

/-- The derivative of output `ival` on atom `a`, as `setBoxDerivativesNoPbc` reads it back. -/
def atomDerivative (mv : MultiValue R) (ival a : Nat) : Vec R :=
  vec (mv.derivatives ival (3 * a)) (mv.derivatives ival (3 * a + 1)) (mv.derivatives ival (3 * a + 2))

@[simp] theorem atomDerivative_clear (t ival a : Nat) : atomDerivative (MultiValue.clear t : MultiValue R) ival a = 0 := by
  funext k; fin_cases k <;> rfl

/-- Modelled from the spec: `addBoxDerivatives` (MultiColvarBase.h is not among the sources) adds
entry `(a, b)` of the box derivative to index `3·natoms + 3a + b` of output `ival`. -/
def addBoxDerivatives (natoms ival : Nat) (vir : Tensor R) (mv : MultiValue R) : MultiValue R :=
  (List.finRange 3).foldl (fun mv (a : Fin 3) => (List.finRange 3).foldl (fun mv (b : Fin 3) =>
    mv.addDerivative ival (3 * natoms + 3 * a.val + b.val) (vir a b)) mv) mv

/-- Modelled from the spec: `addAtomsDerivatives` (MultiColvarBase.h is not among the sources)
adds `der` to the three indices of the atom of block `iatom` in the task. -/
def addAtomsDerivatives (noDerivatives : Bool) (ab : AtomBlocks) (ival iatom : Nat) (der : Vec R)
    (mv : MultiValue R) : MultiValue R :=
  if noDerivatives then mv else
    let a := (ab.ablocks.getD iatom []).getD mv.taskIndex 0
    ((mv.addDerivative ival (3 * a) (der 0)).addDerivative ival (3 * a + 1) (der 1)).addDerivative
      ival (3 * a + 2) (der 2)

@[simp] theorem addAtomsDerivatives_taskIndex (noDerivatives : Bool) (ab : AtomBlocks) (ival iatom : Nat)
    (der : Vec R) (mv : MultiValue R) :
    (addAtomsDerivatives noDerivatives ab ival iatom der mv).taskIndex = mv.taskIndex := by
  unfold addAtomsDerivatives; split <;> simp

theorem atomDerivative_addAtomsDerivatives (ab : AtomBlocks) (ival iatom x : Nat) (der : Vec R)
    (mv : MultiValue R) :
    atomDerivative (addAtomsDerivatives false ab ival iatom der mv) ival x =
      atomDerivative mv ival x + if x = (ab.ablocks.getD iatom []).getD mv.taskIndex 0 then der else 0 := by
  unfold addAtomsDerivatives
  simp only [Bool.false_eq_true, ite_false]
  generalize (ab.ablocks.getD iatom []).getD mv.taskIndex 0 = a
  by_cases h : x = a
  · subst h; funext k; fin_cases k <;> simp [atomDerivative, vec]
  · rw [if_neg h, add_zero]
    simp (disch := omega) only [atomDerivative, MultiValue.addDerivative_derivatives, true_and, if_neg]

theorem addAtomsDerivatives_box (noDerivatives : Bool) (ab : AtomBlocks) (ival iatom i j : Nat)
    (der : Vec R) (mv : MultiValue R) (ha : (ab.ablocks.getD iatom []).getD mv.taskIndex 0 < ab.natoms)
    (hj : 3 * ab.natoms ≤ j) :
    (addAtomsDerivatives noDerivatives ab ival iatom der mv).derivatives i j = mv.derivatives i j := by
  unfold addAtomsDerivatives
  split
  · rfl
  · revert ha
    generalize (ab.ablocks.getD iatom []).getD mv.taskIndex 0 = a
    intro ha
    simp only [MultiValue.addDerivative_derivatives]
    split_ifs <;> first | rfl | omega

/-- `MultiColvarBase::setBoxDerivativesNoPbc` for output `ival`. -/
def setBoxDerivativesNoPbc (noDerivatives : Bool) (ab : AtomBlocks) (ival : Nat)
    (fpositions : List (Vec R)) (mv : MultiValue R) : MultiValue R :=
  if noDerivatives then mv
  else addBoxDerivatives ab.natoms ival
    (boxVirial fpositions (atomDerivative mv ival) (ab.taskAtoms mv.taskIndex)) mv

@[simp] theorem addBoxDerivatives_taskIndex (natoms ival : Nat) (vir : Tensor R) (mv : MultiValue R) :
    (addBoxDerivatives natoms ival vir mv).taskIndex = mv.taskIndex := by
  simp [addBoxDerivatives, List.finRange_succ]

theorem boxIndex_inj {N : Nat} {a b a' b' : Fin 3} :
    3 * N + 3 * a.val + b.val = 3 * N + 3 * a'.val + b'.val ↔ a = a' ∧ b = b' := by
  refine ⟨fun h => ?_, by rintro ⟨rfl, rfl⟩; rfl⟩
  have := a.isLt; have := b.isLt; have := a'.isLt; have := b'.isLt
  exact ⟨Fin.ext (by omega), Fin.ext (by omega)⟩

theorem addBoxDerivatives_derivatives (natoms ival : Nat) (vir : Tensor R) (mv : MultiValue R)
    (a b : Fin 3) :
    (addBoxDerivatives natoms ival vir mv).derivatives ival (3 * natoms + 3 * a.val + b.val) =
      mv.derivatives ival (3 * natoms + 3 * a.val + b.val) + vir a b := by
  simp only [addBoxDerivatives, List.finRange_succ, List.finRange_zero, List.map_nil, List.map_cons,
    List.foldl_cons, List.foldl_nil, MultiValue.addDerivative_derivatives, true_and, boxIndex_inj]
  fin_cases a <;> fin_cases b <;> simp

theorem addBoxDerivatives_derivatives_of_lt (natoms ival : Nat) (vir : Tensor R) (mv : MultiValue R)
    (i j : Nat) (h : i ≠ ival ∨ j < 3 * natoms) :
    (addBoxDerivatives natoms ival vir mv).derivatives i j = mv.derivatives i j := by
  simp only [addBoxDerivatives, List.finRange_succ, List.finRange_zero, List.map_nil, List.map_cons,
    List.foldl_cons, List.foldl_nil, MultiValue.addDerivative_derivatives]
  rcases h with h | h
  · simp [h]
  · have h0 : j ≠ 3 * natoms := by omega
    have h1 : ∀ k, j ≠ 3 * natoms + k := fun k => by omega
    simp [h0, h1, add_assoc]

/-! ## The task -/

/-- The make-whole step of `performTask`: each position after `prev` is moved by the separation
`pbcDistance`, from the position before it as already moved. -/
def wholeFrom (pbcDistance : Vec R → Vec R → Vec R) (prev : Vec R) : List (Vec R) → List (Vec R)
  | [] => []
  | q :: rest => (prev + pbcDistance prev q) :: wholeFrom pbcDistance (prev + pbcDistance prev q) rest

/-- The positions `performTask` hands to `compute`: made whole under PBC, as read otherwise. -/
def makeWhole (usepbc : Bool) (pbcDistance : Vec R → Vec R → Vec R) : List (Vec R) → List (Vec R)
  | [] => []
  | p :: rest => if usepbc then p :: wholeFrom pbcDistance p rest else p :: rest

theorem length_wholeFrom (pbcDistance : Vec R → Vec R → Vec R) :
    ∀ (prev : Vec R) (qs : List (Vec R)), (wholeFrom pbcDistance prev qs).length = qs.length
  | _, [] => rfl
  | _, _ :: rest => congrArg (· + 1) (length_wholeFrom pbcDistance _ rest)

section Whole

/-! ## Making the task whole -/

variable (pbcDistance : Vec R → Vec R → Vec R) (L : Set (Vec R))
  (himage : ∀ p q, pbcDistance p q - (q - p) ∈ L)
  (hperiodic : ∀ p p' q, p' - p ∈ L → pbcDistance p' q = pbcDistance p q)
include himage hperiodic

/-- The make-whole loop from a position `prev` that is an image of `orig`, through `L`, the
differences between periodic images: each position it returns is an image of the original one, and
each bond of the result is the separation of the original bond. -/
theorem wholeFrom_images : ∀ (qs : List (Vec R)) (orig prev : Vec R), prev - orig ∈ L →
    (∀ i < qs.length + 1, (prev :: wholeFrom pbcDistance prev qs).getD i 0 - (orig :: qs).getD i 0 ∈ L) ∧
    ∀ i, i + 1 < qs.length + 1 → (prev :: wholeFrom pbcDistance prev qs).getD (i + 1) 0 -
      (prev :: wholeFrom pbcDistance prev qs).getD i 0 = pbcDistance ((orig :: qs).getD i 0) ((orig :: qs).getD (i + 1) 0)
  | [], _, _, h => ⟨fun i hi => by rw [Nat.lt_one_iff.1 hi]; exact h, fun i hi => absurd hi (by simp)⟩
  | q :: rest, orig, prev, h => by
    have hnew : prev + pbcDistance prev q - q ∈ L := by
      have := himage prev q
      rwa [sub_sub_eq_add_sub, add_comm (pbcDistance prev q)] at this
    obtain ⟨himg, hbond⟩ := wholeFrom_images rest q _ hnew
    refine ⟨fun i hi => ?_, fun i hi => ?_⟩
    · cases i with
      | zero => exact h
      | succ i => exact himg i (by simpa using hi)
    · cases i with
      | zero =>
        simp only [wholeFrom, List.getD_cons_succ, List.getD_cons_zero, add_sub_cancel_left]
        exact hperiodic orig prev q h
      | succ i => exact hbond i (by simpa using hi)

/-- The positions `performTask` hands to `compute` under PBC, for every list of positions and every
separation that differs from the bond by a vector of `L` and depends on its first position only up
to vectors of `L`: as many as the atoms, each an image of the atom's position, and each bond between
consecutive atoms the separation of the original bond. -/
theorem makeWhole_images (h0 : (0 : Vec R) ∈ L) (ps : List (Vec R)) :
    (makeWhole true pbcDistance ps).length = ps.length ∧
    (∀ i < ps.length, (makeWhole true pbcDistance ps).getD i 0 - ps.getD i 0 ∈ L) ∧
    ∀ i, i + 1 < ps.length → (makeWhole true pbcDistance ps).getD (i + 1) 0 -
      (makeWhole true pbcDistance ps).getD i 0 = pbcDistance (ps.getD i 0) (ps.getD (i + 1) 0) := by
  cases ps with
  | nil => exact ⟨rfl, fun i hi => absurd hi (Nat.not_lt_zero i), fun i hi => absurd hi (Nat.not_lt_zero _)⟩
  | cons p rest =>
    obtain ⟨himg, hbond⟩ := wholeFrom_images pbcDistance L himage hperiodic rest p p (by rwa [sub_self])
    exact ⟨by simp [makeWhole, length_wholeFrom], himg, hbond⟩

end Whole

/-- The minimum-image wrap of a coordinate in a box of side 10, into `[-5, 5)`. -/
def wrapTen (x : Int) : Int := (x + 5) % 10 - 5

/-- The separation in a box periodic along `x` with side 10. -/
def slabDistance (p q : Vec Int) : Vec Int := vec (wrapTen (q 0 - p 0)) (q 1 - p 1) (q 2 - p 2)

/-- The differences between periodic images in that box: multiples of 10 along `x`. -/
def slabImages : Set (Vec Int) := {v | 10 ∣ v 0 ∧ v 1 = 0 ∧ v 2 = 0}

theorem slabDistance_image (p q : Vec Int) : slabDistance p q - (q - p) ∈ slabImages := by
  refine ⟨⟨-((q 0 - p 0 + 5) / 10), ?_⟩, by simp [slabDistance, vec], by simp [slabDistance, vec]⟩
  simp only [slabDistance, vec, wrapTen, Pi.sub_apply, Matrix.cons_val_zero]
  omega

theorem slabDistance_periodic (p p' q : Vec Int) (h : p' - p ∈ slabImages) :
    slabDistance p' q = slabDistance p q := by
  obtain ⟨⟨m, hm⟩, h1, h2⟩ := h
  simp only [Pi.sub_apply] at hm h1 h2
  funext k
  fin_cases k
  · simp only [slabDistance, vec, wrapTen, Fin.zero_eta, Matrix.cons_val_zero]
    omega
  · simp [slabDistance, vec]; omega
  · simp [slabDistance, vec]; omega

/-- Two atoms at `x = 9` and `x = 1` in a box of side 10: made whole, the second moves to `x = 11`,
its image two along from the first. -/
theorem makeWhole_images_slab :
    let ps := [vec 9 0 0, vec 1 0 0]
    (makeWhole true slabDistance ps).length = ps.length ∧
    (∀ i < ps.length, (makeWhole true slabDistance ps).getD i 0 - ps.getD i 0 ∈ slabImages) ∧
    ∀ i, i + 1 < ps.length → (makeWhole true slabDistance ps).getD (i + 1) 0 -
      (makeWhole true slabDistance ps).getD i 0 = slabDistance (ps.getD i 0) (ps.getD (i + 1) 0) :=
  makeWhole_images slabDistance slabImages slabDistance_image slabDistance_periodic ⟨⟨0, rfl⟩, rfl, rfl⟩ _

/-- `MultiColvarBase::performTask` on the record `mv` of its task: the positions of the task's
atoms, the colvar's `compute`, then the index updates. The outputs of a multicolvar, which heads
its chain, take the first stream positions, output `j` at position `j`. -/
def performTask (usepbc : Bool) (pbcDistance : Vec R → Vec R → Vec R) (positions : Nat → Vec R)
    (compute : List (Vec R) → MultiValue R → MultiValue R) (noDerivatives : Bool)
    (nderivatives ncomp : Nat) (ab : AtomBlocks) (mv : MultiValue R) : MultiValue R :=
  let atoms := ab.taskAtoms mv.taskIndex
  (updateIndexCalls (noDerivatives || nderivatives == ab.natoms) ncomp ab.natoms atoms).foldl
    (fun mv p => mv.updateIndex p.1 p.2) (compute (makeWhole usepbc pbcDistance (atoms.map positions)) mv)

/-- `performTask` extends the active list of output `j` by exactly the indices it passes for `j`,
in order. -/
theorem performTask_active (usepbc : Bool) (pbcDistance : Vec R → Vec R → Vec R)
    (positions : Nat → Vec R) (compute : List (Vec R) → MultiValue R → MultiValue R)
    (noDerivatives : Bool) (nderivatives ncomp : Nat) (ab : AtomBlocks) (mv : MultiValue R) (j : Nat) :
    (performTask usepbc pbcDistance positions compute noDerivatives nderivatives ncomp ab mv).active j =
      (compute (makeWhole usepbc pbcDistance ((ab.taskAtoms mv.taskIndex).map positions)) mv).active j ++
        ((updateIndexCalls (noDerivatives || nderivatives == ab.natoms) ncomp ab.natoms
          (ab.taskAtoms mv.taskIndex)).filter (·.1 == j)).map (·.2) :=
  MultiValue.foldl_updateIndex_active j _ _

theorem mem_map_snd_filter {l : List (Nat × Nat)} {j idx : Nat} : idx ∈ (l.filter (·.1 == j)).map (·.2) ↔ (j, idx) ∈ l := by
  simp only [List.mem_map, List.mem_filter, beq_iff_eq]
  exact ⟨fun ⟨⟨j', i⟩, ⟨hp, hj⟩, hi⟩ => by simp_all, fun h => ⟨(j, idx), ⟨h, rfl⟩, rfl⟩⟩

theorem nodup_map_snd_filter {l : List (Nat × Nat)} (h : l.Nodup) (j : Nat) : ((l.filter (·.1 == j)).map (·.2)).Nodup :=
  (h.filter _).map_on fun x hx y hy hxy => by
    simp only [List.mem_filter, beq_iff_eq] at hx hy
    exact Prod.ext (hx.2.trans hy.2.symm) hxy

/-- `MultiColvarBase::performTask` and `setBoxDerivativesNoPbc` for every layout, task and record:
for every output `j`, `performTask` extends the active list `compute` leaves by indices that are
distinct, and that are exactly the three indices of each distinct atom of the task and the nine box
indices `3N … 3N+8` (none when the task returns early, when derivatives are off or
`getNumberOfDerivatives()==getNumberOfAtoms()`); the box derivative deposited is
`−position ⊗ derivative` summed once over each distinct atom of the task. -/
theorem performTask_updateIndex (usepbc : Bool) (pbcDistance : Vec R → Vec R → Vec R) (positions : Nat → Vec R)
    (compute : List (Vec R) → MultiValue R → MultiValue R) (noDerivatives : Bool) (nderivatives ncomp ival : Nat)
    (ab : AtomBlocks) (fpositions : List (Vec R)) (mv : MultiValue R) (ht : mv.taskIndex < ab.ntasks) :
    (∀ j, ∃ added,
      (performTask usepbc pbcDistance positions compute noDerivatives nderivatives ncomp ab mv).active j =
        (compute (makeWhole usepbc pbcDistance ((ab.taskAtoms mv.taskIndex).map positions)) mv).active j ++ added ∧
      added.Nodup ∧
      ∀ idx, idx ∈ added ↔ (noDerivatives || nderivatives == ab.natoms) = false ∧ j < ncomp ∧
        ((∃ a ∈ ab.taskAtoms mv.taskIndex, ∃ k < 3, idx = 3 * a + k) ∨
          (3 * ab.natoms ≤ idx ∧ idx < 3 * ab.natoms + 9))) ∧
    ∀ a b : Fin 3,
      (setBoxDerivativesNoPbc false ab ival fpositions mv).derivatives ival
          (3 * ab.natoms + 3 * a.val + b.val) =
        mv.derivatives ival (3 * ab.natoms + 3 * a.val + b.val) +
          (-∑ x ∈ (ab.taskAtoms mv.taskIndex).toFinset,
            outer (fpositions.getD ((ab.taskAtoms mv.taskIndex).indexOf x) 0) (atomDerivative mv ival x)) a b :=
  ⟨fun j => ⟨_, performTask_active usepbc pbcDistance positions compute noDerivatives nderivatives ncomp ab mv j,
      nodup_map_snd_filter (updateIndexCalls_nodup (ab.taskAtoms_lt ht)) j,
      fun _ => mem_map_snd_filter.trans mem_updateIndexCalls⟩,
    fun a b => by
      rw [setBoxDerivativesNoPbc, if_neg Bool.false_ne_true, addBoxDerivatives_derivatives, boxVirial_eq]⟩

/-- `ATOMS=1,2` with one component and derivatives on: its single task adds distinct indices, those
of the two atoms and of the box. -/
theorem performTask_updateIndex_ofGroup :
    (MultiValue.clear 0 : MultiValue Int).taskIndex < (AtomBlocks.ofGroup 2).ntasks ∧
      ∃ added, (performTask false (fun _ _ => 0) (fun _ => 0) (fun _ mv => mv) false 0 1 (AtomBlocks.ofGroup 2)
          (MultiValue.clear 0 : MultiValue Int)).active 0 =
        (MultiValue.clear 0 : MultiValue Int).active 0 ++ added ∧ added.Nodup ∧
        ∀ idx, idx ∈ added ↔ (false || 0 == (AtomBlocks.ofGroup 2).natoms) = false ∧ 0 < 1 ∧
          ((∃ a ∈ (AtomBlocks.ofGroup 2).taskAtoms 0, ∃ k < 3, idx = 3 * a + k) ∨
            (3 * (AtomBlocks.ofGroup 2).natoms ≤ idx ∧ idx < 3 * (AtomBlocks.ofGroup 2).natoms + 9)) :=
  ⟨Nat.one_pos, (performTask_updateIndex false (fun _ _ => 0) (fun _ => 0) (fun _ mv => mv) false 0 1 0
    (AtomBlocks.ofGroup 2) [] (MultiValue.clear 0 : MultiValue Int) Nat.one_pos).1 0⟩

end Virial

end Plumed.Multicolvar
