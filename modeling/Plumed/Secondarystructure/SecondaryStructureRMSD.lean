/-
`SecondaryStructureRMSD`, the base of the secondary-structure variables: the fields its constructor
sets from `TYPE` and `STRANDS_CUTOFF`, `setAtomsFromStrands` and `addColvar`, the strands filter of
`buildCurrentTaskList`, and `performTask`, which hands the positions of a segment, with its two
strands aligned or the chain made whole, to each reference structure. The distance from a
reference (`SingleDomainRMSD`, not among the sources) is a parameter.

The filter is the cheap half of a two-tier computation. For every action a derived variable builds
with `STRANDS_CUTOFF = s`, it selects the tasks whose two marker atoms are less than `|s|` apart,
whatever the sign of `s`, and none when `s = 0` (`buildCurrentTaskList_flags`). The separation it
measures is the one between the markers in the positions the references then see: the alignment
moves the second strand rigidly by a difference between periodic images and leaves everything else
in place (`alignedPositions_strands`).
-/
import Plumed.Multicolvar.MultiColvarBase
import Mathlib.Algebra.Order.Ring.Defs
import Mathlib.Algebra.Order.Ring.Unbundled.Basic
import Mathlib.Algebra.Order.Ring.Int

namespace Plumed.Secondarystructure

open Plumed.Tools Plumed.Multicolvar

variable {R : Type}

/-- The fields of a `SecondaryStructureRMSD` that the code below reads: the label, `alignType` (from
`TYPE`), `nopbc`, `align_strands`, `s_cutoff2`, the two atoms of `setAtomsFromStrands`, and the atoms
of each segment (`colvar_atoms`), one task each. -/
structure SecondaryStructureRMSD (R : Type) where
  label : String
  alignType : String
  nopbc : Bool
  alignStrands : Bool
  sCutoff2 : R
  alignAtom1 : Nat
  alignAtom2 : Nat
  colvarAtoms : List (List Nat)

namespace SecondaryStructureRMSD

/-- The constructor. `strandsCutoff` is `none` when the derived action does not use
`STRANDS_CUTOFF` (`keywords.exists` is false), and otherwise the value parsed, `0` when it is not
given: `align_strands` is then set and `s_cutoff2` is its square. -/
def create [CommRing R] (label alignType : String) (strandsCutoff : Option R) : SecondaryStructureRMSD R :=
  match strandsCutoff with
  | none => ⟨label, alignType, false, false, 0, 0, 0, []⟩
  | some s => ⟨label, alignType, false, true, s * s, 0, 0, []⟩

/-- `setAtomsFromStrands`: the marker atoms of the two strands. -/
def setAtomsFromStrands (ss : SecondaryStructureRMSD R) (atom1 atom2 : Nat) : SecondaryStructureRMSD R :=
  { ss with alignAtom1 := atom1, alignAtom2 := atom2 }

/-- `addColvar`: a new segment, which is a new task; the assertion fails (`none`) on a segment with
another number of atoms than the first. -/
def addColvar (ss : SecondaryStructureRMSD R) (newatoms : List Nat) : Option (SecondaryStructureRMSD R) :=
  if 0 < ss.colvarAtoms.length ∧ (ss.colvarAtoms.getD 0 []).length ≠ newatoms.length then none
  else some { ss with colvarAtoms := ss.colvarAtoms ++ [newatoms] }

/-- The action as the constructor of a derived variable leaves it: created, its marker atoms set,
and its segments added one after the other. -/
def build [CommRing R] (label alignType : String) (strandsCutoff : Option R) (atom1 atom2 : Nat)
    (segments : List (List Nat)) : Option (SecondaryStructureRMSD R) :=
  segments.foldlM addColvar ((create label alignType strandsCutoff).setAtomsFromStrands atom1 atom2)

/-- `getAtomIndex(current, i)`: atom `i` of segment `current`. -/
def getAtomIndex (ss : SecondaryStructureRMSD R) (current i : Nat) : Nat := (ss.colvarAtoms.getD current []).getD i 0

/-- The separation `buildCurrentTaskList` measures for task `i`: between its two marker atoms.
`position` is `ActionAtomistic::getPosition` and `pbcDistance` the minimum-image separation. -/
def strandsDistance (ss : SecondaryStructureRMSD R) (pbcDistance : Vec R → Vec R → Vec R) (position : Nat → Vec R)
    (i : Nat) : Vec R :=
  pbcDistance (position (ss.getAtomIndex i ss.alignAtom1)) (position (ss.getAtomIndex i ss.alignAtom2))

/-- `buildCurrentTaskList`: with a strands cutoff, the action registers among those that select
tasks and flags each task whose marker atoms are closer than the cutoff. -/
def buildCurrentTaskList [LinearOrderedCommRing R] (ss : SecondaryStructureRMSD R) (pbcDistance : Vec R → Vec R → Vec R)
    (position : Nat → Vec R) (actionsThatSelectTasks : List String) (tflags : List Nat) :
    List String × List Nat :=
  if 0 < ss.sCutoff2 then
    (actionsThatSelectTasks ++ [ss.label],
      (List.range tflags.length).foldl (fun tflags i =>
        if modulo2 (ss.strandsDistance pbcDistance position i) < ss.sCutoff2 then tflags.set i 1 else tflags) tflags)
  else (actionsThatSelectTasks, tflags)

/-- The positions of the first `n` atoms of segment `current`; `n` is the number of atoms of the
references. -/
def taskPositions [CommRing R] (ss : SecondaryStructureRMSD R) (position : Nat → Vec R) (n current : Nat) : List (Vec R) :=
  (List.range n).map fun i => position (ss.getAtomIndex current i)

/-- The loop `for(i=15; i<30; ++i) pos[i] += shift`: the second strand moved by `shift`. -/
def shiftStrand [CommRing R] (shift : Vec R) (pos : List (Vec R)) : List (Vec R) :=
  (List.range 15).foldl (fun pos k => pos.set (15 + k) (pos.getD (15 + k) 0 + shift)) pos

/-- The alignment in `performTask`: unless the distance is a DRMSD, the second strand is moved so
that its marker atom sits at the minimum-image separation from the first strand's, or, without
strands, each atom is moved next to the one before it. -/
def alignPositions [CommRing R] (ss : SecondaryStructureRMSD R) (pbcDistance : Vec R → Vec R → Vec R) (pos : List (Vec R)) :
    List (Vec R) :=
  let distance := pbcDistance (pos.getD ss.alignAtom1 0) (pos.getD ss.alignAtom2 0)
  if ss.alignType ≠ "DRMSD" ∧ ss.alignStrands = true then
    shiftStrand (pos.getD ss.alignAtom1 0 + distance - pos.getD ss.alignAtom2 0) pos
  else if ss.alignType ≠ "DRMSD" ∧ ss.nopbc = false then makeWhole true pbcDistance pos
  else pos

/-- The positions of task `current` that `performTask` hands to the references. -/
def alignedPositions [CommRing R] (ss : SecondaryStructureRMSD R) (pbcDistance : Vec R → Vec R → Vec R) (position : Nat → Vec R)
    (n current : Nat) : List (Vec R) :=
  ss.alignPositions pbcDistance (ss.taskPositions position n current)

/-- `performTask` on task `current`. `calculate r pos` is `references[r]->calculate(pos, pbc,
mypack, false)`: the distance from reference `r`, the derivative it leaves on each atom, and whether
it set the virial. For each of the `nrefs` references, the value set, and the box derivative
`-Σ pos[i] ⊗ der[i]` over the segment's atoms, added when derivatives are on and the reference set
none. -/
def performTask [CommRing R] (ss : SecondaryStructureRMSD R) (pbcDistance : Vec R → Vec R → Vec R) (position : Nat → Vec R)
    (n nrefs : Nat) (calculate : Nat → List (Vec R) → R × (Nat → Vec R) × Bool) (doNotCalculateDerivatives : Bool)
    (current : Nat) : List (R × Option (Tensor R)) :=
  let pos := ss.alignedPositions pbcDistance position n current
  (List.range nrefs).map fun r =>
    let c := calculate r pos
    (c.1, if !doNotCalculateDerivatives && !c.2.2 then
      some (((List.range (ss.colvarAtoms.getD current []).length).map fun i => -outer (pos.getD i 0) (c.2.1 i)).sum)
    else none)

/-! ## The construction -/

theorem addColvar_fields {ss ss' : SecondaryStructureRMSD R} {newatoms : List Nat} (h : ss.addColvar newatoms = some ss') :
    ss'.label = ss.label ∧ ss'.sCutoff2 = ss.sCutoff2 ∧ ss'.alignAtom1 = ss.alignAtom1 ∧
      ss'.alignAtom2 = ss.alignAtom2 := by
  unfold addColvar at h
  split at h
  · cases h
  · cases h; exact ⟨rfl, rfl, rfl, rfl⟩

theorem foldlM_addColvar_fields : ∀ (segments : List (List Nat)) (ss ss' : SecondaryStructureRMSD R),
    segments.foldlM addColvar ss = some ss' →
      ss'.label = ss.label ∧ ss'.sCutoff2 = ss.sCutoff2 ∧ ss'.alignAtom1 = ss.alignAtom1 ∧
        ss'.alignAtom2 = ss.alignAtom2
  | [], _, _, h => by cases h; exact ⟨rfl, rfl, rfl, rfl⟩
  | seg :: rest, ss, ss', h => by
    rw [List.foldlM_cons] at h
    cases hadd : ss.addColvar seg with
    | none => rw [hadd] at h; cases h
    | some ss₁ =>
      rw [hadd] at h
      obtain ⟨h1, h2, h3, h4⟩ := addColvar_fields hadd
      obtain ⟨h1', h2', h3', h4'⟩ := foldlM_addColvar_fields rest ss₁ ss' h
      exact ⟨h1'.trans h1, h2'.trans h2, h3'.trans h3, h4'.trans h4⟩

/-! ## The strands filter -/

theorem getD_set_eq {α : Type} (l : List α) (i j : Nat) (a d : α) :
    (l.set i a).getD j d = if i = j ∧ i < l.length then a else l.getD j d := by
  simp only [List.getD_eq_getElem?_getD, List.getElem?_set]
  by_cases h : i = j
  · subst h
    by_cases hi : i < l.length
    · simp [hi]
    · simp [hi, List.getElem?_eq_none (Nat.le_of_not_lt hi)]
  · simp [h]

theorem foldl_flag (P : Nat → Prop) [DecidablePred P] : ∀ (n : Nat) (fl : List Nat),
    ((List.range n).foldl (fun fl i => if P i then fl.set i 1 else fl) fl).length = fl.length ∧
    ∀ j, ((List.range n).foldl (fun fl i => if P i then fl.set i 1 else fl) fl).getD j 0 =
      if j < n ∧ j < fl.length ∧ P j then 1 else fl.getD j 0
  | 0, fl => ⟨rfl, fun j => by simp⟩
  | n + 1, fl => by
    obtain ⟨hlen, hget⟩ := foldl_flag P n fl
    rw [List.range_succ, List.foldl_append, List.foldl_cons, List.foldl_nil]
    by_cases hP : P n
    · rw [if_pos hP, List.length_set, hlen]
      refine ⟨rfl, fun j => ?_⟩
      rw [getD_set_eq, hlen, hget]
      by_cases hj : j = n
      · subst hj; by_cases hl : j < fl.length <;> simp [hl, hP]
      · have hn : ¬ (n = j ∧ n < fl.length) := fun h => hj h.1.symm
        rw [if_neg hn]
        exact if_congr (and_congr_left fun _ => ⟨fun h => by omega, fun h => by omega⟩) rfl rfl
    · rw [if_neg hP]
      refine ⟨hlen, fun j => ?_⟩
      rw [hget]
      by_cases hj : j = n
      · subst hj; simp [hP]
      · exact if_congr (and_congr_left fun _ => ⟨fun h => by omega, fun h => by omega⟩) rfl rfl

/-- `STRANDS_CUTOFF`, for every action a derived variable builds with it set to `s`, every set of
positions and every list of task flags: with `s ≠ 0` the action registers among those that select
tasks and flags, besides the tasks already flagged, exactly those whose marker atoms are less than
`|s|` apart (a negative cutoff acts as its absolute value); with `s = 0` nothing changes. -/
theorem buildCurrentTaskList_flags [LinearOrderedCommRing R] {label alignType : String} {s : R} {atom1 atom2 : Nat}
    {segments : List (List Nat)} {ss : SecondaryStructureRMSD R}
    (hss : build label alignType (some s) atom1 atom2 segments = some ss)
    (pbcDistance : Vec R → Vec R → Vec R) (position : Nat → Vec R) (actionsThatSelectTasks : List String)
    (tflags : List Nat) :
    (s ≠ 0 → (ss.buildCurrentTaskList pbcDistance position actionsThatSelectTasks tflags).1 =
        actionsThatSelectTasks ++ [label] ∧
      (ss.buildCurrentTaskList pbcDistance position actionsThatSelectTasks tflags).2.length = tflags.length ∧
      ∀ j, (ss.buildCurrentTaskList pbcDistance position actionsThatSelectTasks tflags).2.getD j 0 =
        if j < tflags.length ∧ modulo2 (ss.strandsDistance pbcDistance position j) < s * s then 1
        else tflags.getD j 0) ∧
    (s = 0 → ss.buildCurrentTaskList pbcDistance position actionsThatSelectTasks tflags =
      (actionsThatSelectTasks, tflags)) := by
  obtain ⟨hlabel, hcut, -, -⟩ := foldlM_addColvar_fields segments _ ss hss
  simp only [create, setAtomsFromStrands] at hlabel hcut
  refine ⟨fun hs => ?_, fun hs => ?_⟩
  · obtain ⟨hlen, hget⟩ := foldl_flag (fun i => modulo2 (ss.strandsDistance pbcDistance position i) < ss.sCutoff2)
      tflags.length tflags
    rw [buildCurrentTaskList, if_pos (hcut ▸ mul_self_pos.2 hs), hlabel]
    refine ⟨rfl, hlen, fun j => ?_⟩
    rw [hget, hcut]
    exact if_congr ⟨fun h => ⟨h.1, h.2.2⟩, fun h => ⟨h.1, h.1, h.2⟩⟩ rfl rfl
  · rw [buildCurrentTaskList, if_neg (by rw [hcut, hs, mul_zero]; exact lt_irrefl 0)]

/-- An action with two strands, built with `STRANDS_CUTOFF=-1`: markers at atoms 6 and 21 of its one
segment of 30 atoms. -/
def strandPair : SecondaryStructureRMSD Int := ⟨"ab", "OPTIMAL", false, true, 1, 6, 21, [List.range 30]⟩

/-- With `STRANDS_CUTOFF=-1` the action filters with cutoff 1. -/
theorem buildCurrentTaskList_flags_strandPair :
    (-1 ≠ (0 : Int) → (strandPair.buildCurrentTaskList slabDistance (fun a => vec a 0 0) [] [0]).1 = [] ++ ["ab"] ∧
      (strandPair.buildCurrentTaskList slabDistance (fun a => vec a 0 0) [] [0]).2.length = [0].length ∧
      ∀ j, (strandPair.buildCurrentTaskList slabDistance (fun a => vec a 0 0) [] [0]).2.getD j 0 =
        if j < [0].length ∧ modulo2 (strandPair.strandsDistance slabDistance (fun a => vec a 0 0) j) < -1 * -1 then 1
        else [0].getD j 0) ∧
    (-1 = (0 : Int) → strandPair.buildCurrentTaskList slabDistance (fun a => vec a 0 0) [] [0] = ([], [0])) :=
  buildCurrentTaskList_flags (show build "ab" "OPTIMAL" (some (-1 : Int)) 6 21 [List.range 30] = some strandPair from rfl)
    slabDistance (fun a => vec a 0 0) [] [0]

/-! ## The strand alignment -/

section Alignment

variable [CommRing R]

theorem foldl_addRange (c : Vec R) (off : Nat) : ∀ (n : Nat) (pos : List (Vec R)),
    ((List.range n).foldl (fun pos k => pos.set (off + k) (pos.getD (off + k) 0 + c)) pos).length = pos.length ∧
    ∀ j, ((List.range n).foldl (fun pos k => pos.set (off + k) (pos.getD (off + k) 0 + c)) pos).getD j 0 =
      pos.getD j 0 + if off ≤ j ∧ j < off + n ∧ j < pos.length then c else 0
  | 0, pos => ⟨rfl, fun j => by rw [if_neg (by omega), add_zero]; rfl⟩
  | n + 1, pos => by
    obtain ⟨hlen, hget⟩ := foldl_addRange c off n pos
    rw [List.range_succ, List.foldl_append, List.foldl_cons, List.foldl_nil, List.length_set, hlen]
    refine ⟨rfl, fun j => ?_⟩
    rw [getD_set_eq, hlen, hget, hget]
    by_cases hj : off + n = j ∧ off + n < pos.length
    · obtain ⟨rfl, hl⟩ := hj
      rw [if_pos ⟨rfl, hl⟩, if_neg (by omega), if_pos (by omega), add_zero]
    · rw [if_neg hj]
      exact congrArg (pos.getD j 0 + ·) (if_congr (by omega) rfl rfl)

theorem shiftStrand_spec (shift : Vec R) (pos : List (Vec R)) :
    (shiftStrand shift pos).length = pos.length ∧
    ∀ j, (shiftStrand shift pos).getD j 0 = pos.getD j 0 + if 15 ≤ j ∧ j < 30 ∧ j < pos.length then shift else 0 :=
  foldl_addRange shift 15 15 pos

theorem getD_taskPositions (ss : SecondaryStructureRMSD R) (position : Nat → Vec R) {n i : Nat} (current : Nat)
    (hi : i < n) : (ss.taskPositions position n current).getD i 0 = position (ss.getAtomIndex current i) := by
  rw [taskPositions, List.getD_eq_getElem _ _ (by simpa using hi), List.getElem_map, List.getElem_range]

theorem alignPositions_of_strands (ss : SecondaryStructureRMSD R) (pbcDistance : Vec R → Vec R → Vec R)
    (pos : List (Vec R)) (htype : ss.alignType ≠ "DRMSD") (hstrands : ss.alignStrands = true) :
    ss.alignPositions pbcDistance pos = shiftStrand (pos.getD ss.alignAtom1 0 +
      pbcDistance (pos.getD ss.alignAtom1 0) (pos.getD ss.alignAtom2 0) - pos.getD ss.alignAtom2 0) pos := by
  rw [alignPositions, if_pos ⟨htype, hstrands⟩]

/-- The positions `performTask` hands to the references, for every action aligning its strands
with the first marker atom on the first strand (atoms 0 to 14) and the second on the second (atoms
15 to 29), every segment of at least 30 atoms and every separation that differs from the bond by a
vector of `L`: as many positions as atoms; the second strand moved rigidly by a vector of `L`; every
other atom in place; and the markers at the separation the strands filter measures. -/
theorem alignedPositions_strands (ss : SecondaryStructureRMSD R) (pbcDistance : Vec R → Vec R → Vec R)
    (L : Set (Vec R)) (himage : ∀ p q, pbcDistance p q - (q - p) ∈ L) (position : Nat → Vec R) {n : Nat}
    (current : Nat) (htype : ss.alignType ≠ "DRMSD") (hstrands : ss.alignStrands = true)
    (h1 : ss.alignAtom1 < 15) (h2 : 15 ≤ ss.alignAtom2) (h2' : ss.alignAtom2 < 30) (hn : 30 ≤ n) :
    (ss.alignedPositions pbcDistance position n current).length = n ∧
    (∃ shift ∈ L, ∀ i < n, (ss.alignedPositions pbcDistance position n current).getD i 0 =
      position (ss.getAtomIndex current i) + if 15 ≤ i ∧ i < 30 then shift else 0) ∧
    (ss.alignedPositions pbcDistance position n current).getD ss.alignAtom2 0 -
        (ss.alignedPositions pbcDistance position n current).getD ss.alignAtom1 0 =
      ss.strandsDistance pbcDistance position current := by
  have hlen : (ss.taskPositions position n current).length = n := by simp [taskPositions]
  have hget : ∀ i < n, (ss.taskPositions position n current).getD i 0 = position (ss.getAtomIndex current i) :=
    fun i hi => getD_taskPositions ss position current hi
  rw [alignedPositions, alignPositions_of_strands ss pbcDistance _ htype hstrands, strandsDistance]
  generalize ss.taskPositions position n current = pos at hlen hget
  obtain ⟨hslen, hsget⟩ := shiftStrand_spec (pos.getD ss.alignAtom1 0 +
    pbcDistance (pos.getD ss.alignAtom1 0) (pos.getD ss.alignAtom2 0) - pos.getD ss.alignAtom2 0) pos
  rw [hget ss.alignAtom1 (by omega), hget ss.alignAtom2 (by omega)] at hslen hsget ⊢
  set p := position (ss.getAtomIndex current ss.alignAtom1)
  set q := position (ss.getAtomIndex current ss.alignAtom2)
  refine ⟨hslen.trans hlen, ⟨p + pbcDistance p q - q, ?_, fun i hi => ?_⟩, ?_⟩
  · have := himage p q
    rwa [sub_sub_eq_add_sub, add_comm (pbcDistance p q)] at this
  · rw [hsget, hget i hi, hlen]
    exact congrArg _ (if_congr (by omega) rfl rfl)
  · rw [hsget, hsget, hlen, if_pos (by omega), if_neg (by omega), add_zero, hget ss.alignAtom1 (by omega),
      hget ss.alignAtom2 (by omega)]
    exact (congrArg (· - p) (add_sub_cancel q (p + pbcDistance p q))).trans (add_sub_cancel_left p _)

/-- The action above with its atoms along `x` in the box of side 10: the second strand moves by
`-10`, the marker separation becoming `15 - 10 = 5`. -/
theorem alignedPositions_strands_slab :
    (strandPair.alignedPositions slabDistance (fun a => vec a 0 0) 30 0).length = 30 ∧
    (∃ shift ∈ slabImages, ∀ i < 30, (strandPair.alignedPositions slabDistance (fun a => vec a 0 0) 30 0).getD i 0 =
      vec (strandPair.getAtomIndex 0 i : Int) 0 0 + if 15 ≤ i ∧ i < 30 then shift else 0) ∧
    (strandPair.alignedPositions slabDistance (fun a => vec a 0 0) 30 0).getD strandPair.alignAtom2 0 -
        (strandPair.alignedPositions slabDistance (fun a => vec a 0 0) 30 0).getD strandPair.alignAtom1 0 =
      strandPair.strandsDistance slabDistance (fun a => vec a 0 0) 0 :=
  alignedPositions_strands strandPair slabDistance slabImages slabDistance_image (fun a => vec a 0 0) 0 (by decide) rfl
    (by decide) (by decide) (by decide) le_rfl

end Alignment

end SecondaryStructureRMSD

end Plumed.Secondarystructure
