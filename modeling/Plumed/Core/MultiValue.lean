/-
The per-task record `MultiValue` through which a chain of actions passes values and derivatives
within one task: values by stream position, a derivative store that `addDerivative` accumulates
into, one active-index list per stream position that `updateIndex` extends, the task index, and
the matrix-index stash that `updateCentralMatrixIndex` fills. Every operation is stated by one
simp lemma per field, so that the actions' models are computed by `simp` without unfolding.
-/
import Mathlib.Algebra.Group.Defs
import Mathlib.Data.List.Basic

namespace Plumed.Core

/-- Modelled from the spec: `MultiValue` (tools/MultiValue.h) is not among the sources. The
spec's "TaskRecord": values indexed by stream position, a sparse derivative store mapping
(component, derivative index) to a number in which duplicate contributions add, an active-index
list per component, the task index, and the lists of matrix indices kept per matrix stash. -/
@[ext] structure MultiValue (R : Type) where
  taskIndex : Nat
  values : Nat → R
  derivatives : Nat → Nat → R
  active : Nat → List Nat
  matrixIndices : Nat → List Nat

namespace MultiValue

section Plain

variable {R : Type}

/-- `MultiValue::setValue`. -/
def setValue (mv : MultiValue R) (ival : Nat) (v : R) : MultiValue R :=
  { mv with values := fun i => if i = ival then v else mv.values i }

/-- `MultiValue::updateIndex`: `jder` joins the active indices of `ival`. -/
def updateIndex (mv : MultiValue R) (ival jder : Nat) : MultiValue R :=
  { mv with active := fun i => if i = ival then mv.active i ++ [jder] else mv.active i }

/-- `MultiValue::getNumberActive`. -/
def getNumberActive (mv : MultiValue R) (ival : Nat) : Nat := (mv.active ival).length

/-- `MultiValue::getActiveIndex`. -/
def getActiveIndex (mv : MultiValue R) (ival k : Nat) : Nat := (mv.active ival).getD k 0

/-- `MultiValue::getMatrixIndices` with `setNumberOfMatrixIndices`, as `updateCentralMatrixIndex`
uses them: the stash `nmat` becomes the list `l` of its first entries. -/
def setMatrixIndices (mv : MultiValue R) (nmat : Nat) (l : List Nat) : MultiValue R :=
  { mv with matrixIndices := fun i => if i = nmat then l else mv.matrixIndices i }

variable (mv : MultiValue R) (ival jder i nmat : Nat) (v : R) (l : List Nat)

@[simp] theorem setValue_taskIndex : (mv.setValue ival v).taskIndex = mv.taskIndex := rfl
@[simp] theorem setValue_values : (mv.setValue ival v).values i = if i = ival then v else mv.values i :=
  rfl
@[simp] theorem setValue_derivatives : (mv.setValue ival v).derivatives = mv.derivatives := rfl
@[simp] theorem setValue_active : (mv.setValue ival v).active = mv.active := rfl
@[simp] theorem setValue_matrixIndices : (mv.setValue ival v).matrixIndices = mv.matrixIndices := rfl

@[simp] theorem updateIndex_taskIndex : (mv.updateIndex ival jder).taskIndex = mv.taskIndex := rfl
@[simp] theorem updateIndex_values : (mv.updateIndex ival jder).values = mv.values := rfl
@[simp] theorem updateIndex_derivatives : (mv.updateIndex ival jder).derivatives = mv.derivatives :=
  rfl
@[simp] theorem updateIndex_active :
    (mv.updateIndex ival jder).active i = if i = ival then mv.active i ++ [jder] else mv.active i := rfl
@[simp] theorem updateIndex_matrixIndices :
    (mv.updateIndex ival jder).matrixIndices = mv.matrixIndices := rfl

@[simp] theorem setMatrixIndices_taskIndex : (mv.setMatrixIndices nmat l).taskIndex = mv.taskIndex :=
  rfl
@[simp] theorem setMatrixIndices_values : (mv.setMatrixIndices nmat l).values = mv.values := rfl
@[simp] theorem setMatrixIndices_derivatives :
    (mv.setMatrixIndices nmat l).derivatives = mv.derivatives := rfl
@[simp] theorem setMatrixIndices_active : (mv.setMatrixIndices nmat l).active = mv.active := rfl
@[simp] theorem setMatrixIndices_matrixIndices :
    (mv.setMatrixIndices nmat l).matrixIndices i = if i = nmat then l else mv.matrixIndices i := rfl

theorem foldl_updateIndex_active (j : Nat) :
    ∀ (calls : List (Nat × Nat)) (mv : MultiValue R),
      (calls.foldl (fun mv p => mv.updateIndex p.1 p.2) mv).active j =
        mv.active j ++ (calls.filter (·.1 == j)).map (·.2)
  | [], mv => by simp
  | p :: calls, mv => by
    rw [List.foldl_cons, foldl_updateIndex_active j calls, List.filter_cons]
    by_cases h : p.1 = j
    · subst h; simp
    · simp [h, Ne.symm h]

theorem foldl_updateIndex_derivatives :
    ∀ (calls : List (Nat × Nat)) (mv : MultiValue R),
      (calls.foldl (fun mv p => mv.updateIndex p.1 p.2) mv).derivatives = mv.derivatives
  | [], _ => rfl
  | p :: calls, mv => by rw [List.foldl_cons, foldl_updateIndex_derivatives calls]; rfl

@[simp] theorem getNumberActive_eq : mv.getNumberActive ival = (mv.active ival).length := rfl
@[simp] theorem getActiveIndex_eq (k : Nat) : mv.getActiveIndex ival k = (mv.active ival).getD k 0 :=
  rfl

end Plain

section Sums

variable {R : Type} [AddCommMonoid R]

/-- The record cleared for task `t`: every value and derivative zero, no active index. -/
def clear (t : Nat) : MultiValue R :=
  ⟨t, fun _ => 0, fun _ _ => 0, fun _ => [], fun _ => []⟩

/-- `MultiValue::addValue`. -/
def addValue (mv : MultiValue R) (ival : Nat) (v : R) : MultiValue R :=
  { mv with values := fun i => if i = ival then mv.values i + v else mv.values i }

/-- `MultiValue::addDerivative`: contributions to one (component, index) pair add up. -/
def addDerivative (mv : MultiValue R) (ival jder : Nat) (der : R) : MultiValue R :=
  { mv with derivatives := fun i j => if i = ival ∧ j = jder then mv.derivatives i j + der
                                      else mv.derivatives i j }

@[simp] theorem clear_taskIndex (t : Nat) : (clear t : MultiValue R).taskIndex = t := rfl
@[simp] theorem clear_values (t i : Nat) : (clear t : MultiValue R).values i = 0 := rfl
@[simp] theorem clear_derivatives (t i j : Nat) : (clear t : MultiValue R).derivatives i j = 0 := rfl
@[simp] theorem clear_active (t i : Nat) : (clear t : MultiValue R).active i = [] := rfl
@[simp] theorem clear_matrixIndices (t i : Nat) : (clear t : MultiValue R).matrixIndices i = [] := rfl

variable (mv : MultiValue R) (ival jder i j : Nat) (v : R)

@[simp] theorem addValue_taskIndex : (mv.addValue ival v).taskIndex = mv.taskIndex := rfl
@[simp] theorem addValue_values :
    (mv.addValue ival v).values i = if i = ival then mv.values i + v else mv.values i := rfl
@[simp] theorem addValue_derivatives : (mv.addValue ival v).derivatives = mv.derivatives := rfl
@[simp] theorem addValue_active : (mv.addValue ival v).active = mv.active := rfl
@[simp] theorem addValue_matrixIndices : (mv.addValue ival v).matrixIndices = mv.matrixIndices := rfl

@[simp] theorem addDerivative_taskIndex : (mv.addDerivative ival jder v).taskIndex = mv.taskIndex :=
  rfl
@[simp] theorem addDerivative_values : (mv.addDerivative ival jder v).values = mv.values := rfl
@[simp] theorem addDerivative_derivatives :
    (mv.addDerivative ival jder v).derivatives i j =
      if i = ival ∧ j = jder then mv.derivatives i j + v else mv.derivatives i j := rfl
@[simp] theorem addDerivative_active : (mv.addDerivative ival jder v).active = mv.active := rfl
@[simp] theorem addDerivative_matrixIndices :
    (mv.addDerivative ival jder v).matrixIndices = mv.matrixIndices := rfl

end Sums

end MultiValue

/-! ## The loops over the outputs of an action -/

section Outputs

variable {R : Type} [AddCommMonoid R]

/-- `myvals.addValue(getPntrToOutput(i)->getPositionInStream(), vals[i])` for every value `i`, the
outputs sitting at the stream positions `outputs`. -/
def addValues (outputs : List Nat) (vals : List R) (mv : MultiValue R) : MultiValue R :=
  (List.range vals.length).foldl (fun mv i => mv.addValue (outputs.getD i 0) (vals.getD i 0)) mv

/-- The loop over the components for argument `j` outside a chain: `addDerivative` of
`derivatives(i, j)` then `updateIndex`, at `myind`, for the stream position of each output `i`. -/
def componentLoop (outputs : List Nat) (derivatives : Nat → Nat → R) (j myind : Nat)
    (mv : MultiValue R) : MultiValue R :=
  (List.range outputs.length).foldl (fun mv i =>
    (mv.addDerivative (outputs.getD i 0) myind (derivatives i j)).updateIndex (outputs.getD i 0) myind) mv

theorem foldl_addValue_active (outputs : List Nat) (vals : List R) (o : Nat) :
    ∀ (L : List Nat) (mv : MultiValue R),
      (L.foldl (fun mv i => mv.addValue (outputs.getD i 0) (vals.getD i 0)) mv).active o = mv.active o
  | [], _ => rfl
  | _ :: L, mv => by rw [List.foldl_cons, foldl_addValue_active outputs vals o L]; rfl

theorem foldl_addValue_derivatives (outputs : List Nat) (vals : List R) :
    ∀ (L : List Nat) (mv : MultiValue R),
      (L.foldl (fun mv i => mv.addValue (outputs.getD i 0) (vals.getD i 0)) mv).derivatives = mv.derivatives
  | [], _ => rfl
  | _ :: L, mv => by rw [List.foldl_cons, foldl_addValue_derivatives outputs vals L]; rfl

theorem foldl_addValue_taskIndex (outputs : List Nat) (vals : List R) :
    ∀ (L : List Nat) (mv : MultiValue R),
      (L.foldl (fun mv i => mv.addValue (outputs.getD i 0) (vals.getD i 0)) mv).taskIndex = mv.taskIndex
  | [], _ => rfl
  | _ :: L, mv => by rw [List.foldl_cons, foldl_addValue_taskIndex outputs vals L]; rfl

@[simp] theorem addValues_active (outputs : List Nat) (vals : List R) (mv : MultiValue R) (o : Nat) :
    (addValues outputs vals mv).active o = mv.active o :=
  foldl_addValue_active outputs vals o _ mv

@[simp] theorem addValues_derivatives (outputs : List Nat) (vals : List R) (mv : MultiValue R) :
    (addValues outputs vals mv).derivatives = mv.derivatives :=
  foldl_addValue_derivatives outputs vals _ mv

@[simp] theorem addValues_taskIndex (outputs : List Nat) (vals : List R) (mv : MultiValue R) :
    (addValues outputs vals mv).taskIndex = mv.taskIndex :=
  foldl_addValue_taskIndex outputs vals _ mv

theorem map_getD_range (l : List Nat) : (List.range l.length).map (l.getD · 0) = l :=
  List.ext_getElem (by simp) fun i _ hi => by simp [List.getElem?_eq_getElem hi]

theorem foldl_componentStep_active (f : Nat → Nat) (der : Nat → R) (myind o : Nat) :
    ∀ (L : List Nat) (mv : MultiValue R),
      (L.foldl (fun mv i => (mv.addDerivative (f i) myind (der i)).updateIndex (f i) myind) mv).active o =
        mv.active o ++ List.replicate (L.countP fun i => f i = o) myind
  | [], mv => by simp
  | i :: L, mv => by
    rw [List.foldl_cons, foldl_componentStep_active f der myind o L, List.countP_cons]
    by_cases h : f i = o
    · subst h; simp [List.replicate_succ]
    · simp [h, Ne.symm h]

/-- The component loop adds `myind` to the active list of `o` once per output at `o`. -/
theorem componentLoop_active (outputs : List Nat) (derivatives : Nat → Nat → R) (j myind o : Nat)
    (mv : MultiValue R) :
    (componentLoop outputs derivatives j myind mv).active o =
      mv.active o ++ List.replicate (outputs.count o) myind := by
  rw [componentLoop, foldl_componentStep_active (outputs.getD · 0) (derivatives · j)]
  congr 2
  conv_rhs => rw [← map_getD_range outputs, List.count, List.countP_map]
  exact List.countP_congr fun _ _ => by simp

end Outputs

end Plumed.Core
