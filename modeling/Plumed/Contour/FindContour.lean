/-
`FindContour::setupCurrentTaskList` on every grid: the ids it adds to the current task list are,
in order, exactly the `d·i + j` for which grid point `i` has a neighbour one step along
dimension `j` (wrapping to point 0 on a periodic dimension, none past the end of a non-periodic
one) and the field minus the isovalue changes sign strictly between the two points. Every id is
below the output length `d · npoints` that `finishOutputSetup` sets, and `performTask` decodes it
back to the point and the direction.

The proof is the restore invariant of the inner loop: after each direction the shared index
vector is again the point's own indices and the edge flag is clear.
-/
import Mathlib.Algebra.Order.Ring.Defs
import Mathlib.Algebra.BigOperators.Group.List
import Mathlib.Algebra.Order.Ring.Int
import Mathlib.Algebra.Order.Ring.Nat

namespace Plumed.Contour

/-- Modelled from the spec: what `FindContour` reads of its input grid (`GridBase` is not among the
sources). The dimension `dim` and the number of points `npoints` are those of the input value
(`getRank()`, `getNumberOfValues()`); `nbin` is `getNbin(false)` of the grid object, one count per
dimension, which the search compares the indices against; `pbc` gives `isPeriodic(j)`; and
`getIndices` fills one index per dimension. -/
structure Grid where
  dim : Nat
  npoints : Nat
  nbin : List Nat
  pbc : List Bool
  getIndex : List Nat → Nat
  getIndices : Nat → List Nat
  nbin_length : nbin.length = dim
  getIndices_length : ∀ i, (getIndices i).length = dim

/-- `isPeriodic(j)`. -/
def Grid.isPeriodic (g : Grid) (j : Nat) : Bool := g.pbc.getD j false

section Search

variable {R : Type} [LinearOrderedRing R] (g : Grid) (f : Nat → R) (contour : R)

/-- The state of the loop over directions: the shared index vector `ind`, the `edge` flag and
the ids added so far. -/
abbrev DirState := List Nat × Bool × List Nat

/-- One pass of the loop over directions `j` in `FindContour::setupCurrentTaskList`: step `ind`
forward along `j` (wrapping on a periodic edge), test for a sign change against `val1`, and step
back. -/
def dirStep (i : Nat) (val1 : R) (st : DirState) (j : Nat) : DirState :=
  let (ind, edge, out) := st
  let nb := g.nbin.getD j 0
  if !g.isPeriodic j && ind.getD j 0 + 1 == nb then st
  else
    let (ind, edge) :=
      if ind.getD j 0 + 1 == nb then (ind.set j 0, true) else (ind.set j (ind.getD j 0 + 1), edge)
    let val2 := f (g.getIndex ind) - contour
    let out := if val1 * val2 < 0 then out ++ [g.dim * i + j] else out
    let (ind, edge) :=
      if g.isPeriodic j && edge then (ind.set j (nb - 1), false) else (ind.set j (ind.getD j 0 - 1), edge)
    (ind, edge, out)

/-- The work on grid point `i`: its indices, its shifted value, and the loop over directions. -/
def searchPoint (i : Nat) : List Nat :=
  ((List.range g.dim).foldl (dirStep g f contour i (f i - contour)) (g.getIndices i, false, [])).2.2

/-- `FindContour::setupCurrentTaskList`: the ids added to the current task list, in order. -/
def setupCurrentTaskList : List Nat :=
  (List.range g.npoints).flatMap (searchPoint g f contour)

/-- `FindContour::finishOutputSetup`: the length of each output component. -/
def finishOutputSetup : Nat := g.dim * g.npoints

/-- `FindContour::performTask`: the grid point and the search direction a task id stands for. -/
def performTask (current : Nat) : Nat × Nat := (current / g.dim, current % g.dim)

/-! ## The spec's edge test -/

/-- The neighbour of grid point `i` one step along dimension `j`: point 0 of that dimension past
the end of a periodic one, none past the end of a non-periodic one. -/
def neighbour (i j : Nat) : Option Nat :=
  let ind := g.getIndices i
  if ind.getD j 0 + 1 = g.nbin.getD j 0 then
    if g.isPeriodic j then some (g.getIndex (ind.set j 0)) else none
  else some (g.getIndex (ind.set j (ind.getD j 0 + 1)))

/-- The edge from `i` along `j` is a candidate crossing: a strict sign change of `f - contour`. -/
def crossing (i j : Nat) : Bool :=
  match neighbour g i j with
  | some n => decide ((f i - contour) * (f n - contour) < 0)
  | none => false

/-- The ids of the crossing edges of point `i`, in direction order. -/
def crossingIds (i : Nat) : List Nat :=
  (List.range g.dim).filter (crossing g f contour i) |>.map (g.dim * i + ·)

/-! ## The restore invariant -/

theorem set_getElem_self {l : List Nat} {j : Nat} (hj : j < l.length) : l.set j l[j] = l :=
  List.ext_getElem (List.length_set ..) fun n _ _ => by
    rw [List.getElem_set]; split <;> simp_all

theorem getD_set_self {l : List Nat} {j y : Nat} (hj : j < l.length) : (l.set j y).getD j 0 = y := by
  simp [hj]

theorem set_set_getD {l : List Nat} {j y : Nat} (hj : j < l.length) :
    (l.set j y).set j (l.getD j 0) = l := by
  rw [List.set_set, List.getD_eq_getElem?_getD, List.getElem?_eq_getElem hj, Option.getD_some,
    set_getElem_self hj]

/-- One direction, from the restored state: the index vector comes back unchanged, the edge flag
clear, and the id is added exactly when the edge is a crossing. -/
theorem dirStep_restored (i j : Nat) (hj : j < g.dim) (out : List Nat) :
    dirStep g f contour i (f i - contour) (g.getIndices i, false, out) j =
      (g.getIndices i, false, if crossing g f contour i j then out ++ [g.dim * i + j] else out) := by
  have hl : j < (g.getIndices i).length := by rw [g.getIndices_length]; exact hj
  unfold dirStep crossing neighbour
  by_cases hlast : (g.getIndices i).getD j 0 + 1 = g.nbin.getD j 0 <;> cases hp : g.isPeriodic j
  · simp only [hlast, hp, beq_self_eq_true, Bool.not_false, Bool.true_and, ite_true, if_true,
      Bool.false_eq_true, ite_false]
  · have hnb : g.nbin.getD j 0 - 1 = (g.getIndices i).getD j 0 := by omega
    simp only [hlast, hp, hnb, set_set_getD hl, beq_self_eq_true, ite_true, Bool.and_self,
      Bool.not_true, Bool.false_and, Bool.false_eq_true, ite_false, decide_eq_true_eq]
  all_goals
    simp only [hlast, hp, beq_iff_eq, ite_false, getD_set_self hl, Nat.add_sub_cancel,
      set_set_getD hl, Bool.and_false, Bool.false_eq_true, Bool.and_self, Bool.not_false,
      Bool.not_true, Bool.true_and, Bool.false_and, decide_eq_true_eq]

theorem foldl_dirStep (i : Nat) :
    ∀ n, n ≤ g.dim → (List.range n).foldl (dirStep g f contour i (f i - contour))
        (g.getIndices i, false, []) =
      (g.getIndices i, false, ((List.range n).filter (crossing g f contour i)).map (g.dim * i + ·))
  | 0, _ => rfl
  | n + 1, hn => by
    rw [List.range_succ, List.foldl_append, foldl_dirStep i n (by omega), List.foldl_cons,
      List.foldl_nil, dirStep_restored g f contour i n (by omega), List.filter_append]
    cases h : crossing g f contour i n <;> simp [h]

theorem searchPoint_eq : searchPoint g f contour = crossingIds g f contour :=
  funext fun i => by
    unfold searchPoint crossingIds
    rw [foldl_dirStep g f contour i g.dim le_rfl]

/-! ## Headline theorems -/

theorem setupCurrentTaskList_eq :
    setupCurrentTaskList g f contour = (List.range g.npoints).flatMap (crossingIds g f contour) := by
  rw [setupCurrentTaskList, searchPoint_eq]

theorem mem_setupCurrentTaskList (id : Nat) :
    id ∈ setupCurrentTaskList g f contour ↔
      ∃ i < g.npoints, ∃ j < g.dim, id = g.dim * i + j ∧ crossing g f contour i j = true := by
  rw [setupCurrentTaskList_eq]
  simp only [crossingIds, List.mem_flatMap, List.mem_range, List.mem_map, List.mem_filter]
  constructor
  · rintro ⟨i, hi, j, ⟨hj, hc⟩, rfl⟩; exact ⟨i, hi, j, hj, rfl, hc⟩
  · rintro ⟨i, hi, j, hj, rfl, hc⟩; exact ⟨i, hi, j, ⟨hj, hc⟩, rfl⟩

theorem decode_id {d i j : Nat} (hj : j < d) : (d * i + j) / d = i ∧ (d * i + j) % d = j := by
  have hd : 0 < d := by omega
  refine ⟨?_, ?_⟩
  · rw [Nat.add_comm, Nat.add_mul_div_left _ _ hd, Nat.div_eq_of_lt hj, Nat.zero_add]
  · rw [Nat.add_comm, Nat.add_mul_mod_self_left, Nat.mod_eq_of_lt hj]

theorem id_lt_output {d n i j : Nat} (hi : i < n) (hj : j < d) : d * i + j < d * n :=
  calc d * i + j < d * i + d := by omega
    _ = d * (i + 1) := (Nat.mul_succ d i).symm
    _ ≤ d * n := Nat.mul_le_mul_left d hi

/-- `FindContour::setupCurrentTaskList`, for every grid, field and isovalue: an id is added
exactly when it is `d·i + j` for a grid point `i` whose neighbour along `j` exists and lies
across a strict sign change of `f - contour`; every such id is below the output length set by
`finishOutputSetup`; and `performTask` decodes it back to `i` and `j`. -/
theorem findContour_taskList (id : Nat) :
    (id ∈ setupCurrentTaskList g f contour ↔
      ∃ i < g.npoints, ∃ j < g.dim, id = g.dim * i + j ∧
        ∃ n, neighbour g i j = some n ∧ (f i - contour) * (f n - contour) < 0) ∧
    (id ∈ setupCurrentTaskList g f contour →
      id < finishOutputSetup g ∧ ∃ i j, performTask g id = (i, j) ∧ j < g.dim ∧
        id = g.dim * i + j ∧ crossing g f contour i j = true) := by
  have hc : ∀ i j, crossing g f contour i j = true ↔
      ∃ n, neighbour g i j = some n ∧ (f i - contour) * (f n - contour) < 0 := by
    intro i j; unfold crossing; cases neighbour g i j <;> simp
  refine ⟨by simp only [mem_setupCurrentTaskList, hc], fun h => ?_⟩
  obtain ⟨i, hi, j, hj, rfl, hcr⟩ := (mem_setupCurrentTaskList g f contour id).1 h
  obtain ⟨h1, h2⟩ := decode_id (i := i) hj
  exact ⟨id_lt_output hi hj, i, j, by rw [performTask, h1, h2], hj, rfl, hcr⟩

/-- The spec's example scaled by ten: the field `2, 6, 3` on a periodic line of three points with
isovalue `5` flags the edges `0 → 1` and `1 → 2`. -/
example : setupCurrentTaskList ⟨1, 3, [3], [true], fun ind => ind.getD 0 0, fun i => [i], rfl, fun _ => rfl⟩
    (fun i => ([2, 6, 3] : List Int).getD i 0) 5 = [0, 1] := by decide

end Search

end Plumed.Contour
