/-
`FunctionOfMatrix` outside a chain, for a matrix output: the derivative indices `performTask`
writes for one matrix entry, and the matrix indices `updateCentralMatrixIndex` registers for the
row. `performTask` moves a running `base` past every argument's values, matrices and scalars
alike; `updateCentralMatrixIndex` starts each matrix's block at `ss · task` and skips scalars. The
two agree for a single matrix argument, and differ as soon as a scalar or a second matrix comes
first.

With the reads of `getShape()` it makes, `performTask` takes the row and column of a task from the
shape of its first output and of its first argument; a zero-rank output, such as a sum over a
matrix, computed outside a chain reads position `0` of an empty shape.

The constructor names a component with `_` after each argument `j` and that component, for every
component; `FunctionOfVector`'s constructor pairs argument `i` with `components[i]` instead, so the
two create different names from the same keywords as soon as there are two such components.
-/
import Plumed.Function.FunctionOfVector
import Mathlib.Algebra.BigOperators.Group.List
import Mathlib.Algebra.Ring.Int.Defs
import Mathlib.Data.List.GetD
import Mathlib.Algebra.Order.Ring.Nat

namespace Plumed.Matrixtools

open Plumed.Core

/-- The shape of an argument of a `FunctionOfMatrix`: the constructor accepts scalars and
`nrows × ncols` matrices only. -/
inductive ArgShape where
  | scalar
  | matrix (nrows ncols : Nat)
deriving DecidableEq

namespace ArgShape

/-- `getNumberOfValues()`. -/
def getNumberOfValues : ArgShape → Nat
  | scalar => 1
  | matrix nrows ncols => nrows * ncols

end ArgShape

/-- An argument as `performTask` reads it: its shape and its elements by flat index (`get()` of a
scalar is element 0). -/
structure Argument (R : Type) where
  shape : ArgShape
  get : Nat → R

/-! ## `performTask` outside a chain -/

/-- The derivative index `performTask` uses for an argument of shape `a` whose values start at
`base`, on the entry of row `index1` and column `ind2` of an output with `ncols` columns. -/
def derivIndex (ncols index1 ind2 base : Nat) : ArgShape → Nat
  | .matrix _ _ => base + ncols * index1 + ind2
  | .scalar => base

section Task

variable {R : Type} [AddCommMonoid R]

/-- One pass of the loop over arguments outside a chain, on the record, `base` and the argument
index `j`: the component loop at the argument's index, then `base += getNumberOfValues()`. -/
def argStep (outputs : List Nat) (derivatives : Nat → Nat → R) (ncols index1 ind2 : Nat)
    (st : MultiValue R × Nat × Nat) (a : ArgShape) : MultiValue R × Nat × Nat :=
  (componentLoop outputs derivatives st.2.2 (derivIndex ncols index1 ind2 st.2.1 a) st.1,
    st.2.1 + a.getNumberOfValues, st.2.2 + 1)

/-- The derivative branch of `performTask` outside a chain, from `base = 0`. -/
def noChainDerivatives (args : List ArgShape) (outputs : List Nat) (ncols : Nat)
    (derivatives : Nat → Nat → R) (index1 ind2 : Nat) (mv : MultiValue R) : MultiValue R :=
  (args.foldl (argStep outputs derivatives ncols index1 ind2) (mv, 0, 0)).1

/-- `FunctionOfMatrix::performTask` outside a chain, for an output matrix of shape `outShape` whose
components sit at the stream positions `outputs`; `myfunc` is `myfunc.calc`, returning the values and
the derivatives by (component, argument). Task `(index1, index2)` is the entry of row `index1` and
column `index2 − nrows`. A scalar first argument has no `getShape()[0]`; the model reads no shift
there. -/
def performTask (myfunc : List R → List R × (Nat → Nat → R)) (doNotCalculateDerivatives : Bool)
    (args : List (Argument R)) (outputs : List Nat) (outShape : Nat × Nat) (index1 index2 : Nat)
    (mv : MultiValue R) : MultiValue R :=
  let ind2 :=
    if outShape.1 ≤ index2 then index2 - outShape.1
    else match args.head?.map (·.shape) with
      | some (ArgShape.matrix nrows _) => if nrows ≤ index2 then index2 - nrows else index2
      | _ => index2
  let xs := args.map fun a => match a.shape with
    | .matrix _ ncols => a.get (ncols * index1 + ind2)
    | .scalar => a.get 0
  let (vals, derivatives) := myfunc xs
  let mv := addValues outputs vals mv
  if doNotCalculateDerivatives then mv
  else
    let ind2 := if outShape.1 ≤ index2 then index2 - outShape.1 else index2
    noChainDerivatives (args.map (·.shape)) outputs outShape.2 derivatives index1 ind2 mv

end Task

/-! ## `updateCentralMatrixIndex` outside a chain -/

/-- The matrix indices of task `task`: for each matrix argument with `ss` columns, in order, the
block `ss·task, …, ss·task + ss − 1`; scalars add nothing. -/
def centralIndices (args : List ArgShape) (task : Nat) : List Nat :=
  args.foldl (fun l a => match a with
    | .matrix _ ss => l ++ (List.range ss).map (ss * task + ·)
    | .scalar => l) []

/-- `FunctionOfMatrix::updateCentralMatrixIndex` outside a chain, for an output matrix: the stash of
every output gets `centralIndices` of the record's task. -/
def updateCentralMatrixIndex {R : Type} (args : List ArgShape) (stashes : List Nat) (mv : MultiValue R) :
    MultiValue R :=
  stashes.foldl (fun mv nmat => mv.setMatrixIndices nmat (centralIndices args mv.taskIndex)) mv

/-! ## The two index lists -/

/-- The indices `performTask` writes, argument by argument, when the first argument's values start
at `base`. -/
def writtenIndices (ncols index1 ind2 : Nat) : Nat → List ArgShape → List Nat
  | _, [] => []
  | base, a :: rest => derivIndex ncols index1 ind2 base a :: writtenIndices ncols index1 ind2
      (base + a.getNumberOfValues) rest

/-- Where argument `j`'s values start: the values of the arguments before it. -/
def argBase (args : List ArgShape) (j : Nat) : Nat := ((args.take j).map (·.getNumberOfValues)).sum

section Indices

variable {R : Type} [AddCommMonoid R]

/-- Outside a chain, a component at `o` collects the indices `writtenIndices`, argument by
argument. -/
theorem foldl_argStep_active (outputs : List Nat) {o : Nat} (hc : outputs.count o = 1)
    (derivatives : Nat → Nat → R) (ncols index1 ind2 : Nat) :
    ∀ (args : List ArgShape) (st : MultiValue R × Nat × Nat),
      (args.foldl (argStep outputs derivatives ncols index1 ind2) st).1.active o =
        st.1.active o ++ writtenIndices ncols index1 ind2 st.2.1 args
  | [], st => by simp [writtenIndices]
  | a :: args, st => by
    rw [List.foldl_cons, foldl_argStep_active outputs hc derivatives ncols index1 ind2 args, argStep,
      componentLoop_active, hc]
    simp [writtenIndices]

/-- `performTask` outside a chain, on the entry of row `index1` and column `c`: a component at
`o` collects exactly `writtenIndices` of the argument shapes, from `base = 0`. -/
theorem performTask_active (myfunc : List R → List R × (Nat → Nat → R)) (args : List (Argument R))
    (outputs : List Nat) (o : Nat) (hc : outputs.count o = 1) (outShape : Nat × Nat) (index1 c : Nat)
    (mv : MultiValue R) :
    (performTask myfunc false args outputs outShape index1 (outShape.1 + c) mv).active o =
      mv.active o ++ writtenIndices outShape.2 index1 c 0 (args.map (·.shape)) := by
  simp only [performTask, Nat.le_add_right, if_true, Nat.add_sub_cancel_left, Bool.false_eq_true,
    if_false]
  generalize myfunc _ = p
  obtain ⟨vals, derivatives⟩ := p
  rw [noChainDerivatives, foldl_argStep_active outputs hc, addValues_active]

end Indices

theorem writtenIndices_eq (ncols index1 ind2 : Nat) :
    ∀ (args : List ArgShape) (base : Nat), writtenIndices ncols index1 ind2 base args =
      (List.range args.length).map fun j =>
        derivIndex ncols index1 ind2 (base + argBase args j) (args.getD j .scalar)
  | [], _ => rfl
  | a :: args, base => by
    rw [writtenIndices, writtenIndices_eq ncols index1 ind2 args, List.length_cons,
      List.range_succ_eq_map]
    simp [argBase, add_assoc]

theorem foldl_centralIndices_mem (task x : Nat) :
    ∀ (args : List ArgShape) (l : List Nat),
      x ∈ args.foldl (fun l a => match a with
        | .matrix _ ss => l ++ (List.range ss).map (ss * task + ·)
        | .scalar => l) l ↔
      x ∈ l ∨ ∃ nrows ss, ArgShape.matrix nrows ss ∈ args ∧ ∃ k < ss, x = ss * task + k
  | [], l => by simp
  | a :: args, l => by
    rw [List.foldl_cons, foldl_centralIndices_mem task x args]
    cases a with
    | scalar => simp
    | matrix nrows ss =>
      simp only [List.mem_append, List.mem_map, List.mem_range, List.mem_cons, ArgShape.matrix.injEq]
      constructor
      · rintro ((h | ⟨k, hk, rfl⟩) | ⟨n, s, hm, k, hk, rfl⟩)
        · exact .inl h
        · exact .inr ⟨nrows, ss, .inl ⟨rfl, rfl⟩, k, hk, rfl⟩
        · exact .inr ⟨n, s, .inr hm, k, hk, rfl⟩
      · rintro (h | ⟨n, s, (⟨rfl, rfl⟩ | hm), k, hk, rfl⟩)
        · exact .inl (.inl h)
        · exact .inl (.inr ⟨k, hk, rfl⟩)
        · exact .inr ⟨n, s, hm, k, hk, rfl⟩

/-- The indices `updateCentralMatrixIndex` registers for task `task`: `ss·task + k`, `k < ss`, for
each matrix argument with `ss` columns. -/
theorem mem_centralIndices (args : List ArgShape) (task x : Nat) :
    x ∈ centralIndices args task ↔ ∃ nrows ss, ArgShape.matrix nrows ss ∈ args ∧ ∃ k < ss, x = ss * task + k := by
  rw [centralIndices, foldl_centralIndices_mem]
  simp

theorem updateCentralMatrixIndex_matrixIndices {R : Type} (args : List ArgShape) (nmat : Nat) :
    ∀ (stashes : List Nat) (mv : MultiValue R),
      (updateCentralMatrixIndex args stashes mv).matrixIndices nmat =
        if nmat ∈ stashes then centralIndices args mv.taskIndex else mv.matrixIndices nmat
  | [], _ => rfl
  | s :: stashes, mv => by
    rw [updateCentralMatrixIndex, List.foldl_cons, ← updateCentralMatrixIndex,
      updateCentralMatrixIndex_matrixIndices args nmat stashes]
    by_cases hs : nmat = s <;> by_cases hm : nmat ∈ stashes <;> simp [hs, hm]

/-! ## Where the two lists agree, and where they do not -/

/-- With a single matrix argument the two agree: over the columns `c` of row `r`, `performTask`
writes (`performTask_active`) exactly the indices `updateCentralMatrixIndex` registers. -/
theorem rowIndices_singleMatrix (nrows ncols r : Nat) :
    (List.range ncols).flatMap (fun c => writtenIndices ncols r c 0 [.matrix nrows ncols]) =
      centralIndices [.matrix nrows ncols] r := by
  simp [writtenIndices, centralIndices, derivIndex, List.map_eq_flatMap]

/-- A scalar before a `1 × 1` matrix: on entry `(0, 0)` `performTask` writes the indices `0` (the
scalar) and `1` (the matrix, after the scalar's value), while `updateCentralMatrixIndex` registers
only `[0]` for row 0. -/
theorem rowIndices_scalarFirst :
    (performTask (fun _ => ([0], fun _ _ => 1)) false [⟨.scalar, fun _ => (0 : Int)⟩, ⟨.matrix 1 1, fun _ => 0⟩]
      [0] (1, 1) 0 (1 + 0) (MultiValue.clear 0)).active 0 = [0, 1] ∧
    (updateCentralMatrixIndex [.scalar, .matrix 1 1] [0] (performTask (fun _ => ([0], fun _ _ => 1)) false
      [⟨.scalar, fun _ => (0 : Int)⟩, ⟨.matrix 1 1, fun _ => 0⟩] [0] (1, 1) 0 (1 + 0)
        (MultiValue.clear 0))).matrixIndices 0 = [0] :=
  ⟨by rw [performTask_active _ _ [0] 0 rfl]; rfl, by rw [updateCentralMatrixIndex_matrixIndices]; rfl⟩

/-! ## `performTask` with its shape reads

The whole task, in a chain and outside one and for any output rank, with every `getShape()[k]`
read checked against the rank of the value it reads. -/

/-- `getShape()` of an argument. -/
def ArgShape.getShape : ArgShape → List Nat
  | .scalar => []
  | .matrix nrows ncols => [nrows, ncols]

/-- `getShape()[k]` of a value of shape `shape`; past the rank it is an error. -/
def shapeAt (shape : List Nat) (k : Nat) : Except String Nat :=
  match shape.get? k with
  | some s => .ok s
  | none => .error "getShape() read past the rank"

/-- An argument as the whole of `performTask` reads it: its shape and elements, and, for a chain,
its `Value` and whether its value has been set. -/
structure ChainArgument (R : Type) extends Argument R where
  value : Value
  valueHasBeenSet : Bool

section Checked

variable {R : Type} [Semiring R]

/-- The column `ind2` of task `index2`: past the rows of a matrix output, or else past the rows of
argument `0`. -/
def taskColumn (outShape : List Nat) (args : List (ChainArgument R)) (index2 : Nat) : Except String Nat :=
  let argShift : Except String Nat := match args.head? with
    | none => .error "getPntrToArgument(0) read past the arguments"
    | some a => do
      let s0 ← shapeAt a.shape.getShape 0
      pure (if s0 ≤ index2 then index2 - s0 else index2)
  if outShape.length = 2 then do
    let s0 ← shapeAt outShape 0
    if s0 ≤ index2 then pure (index2 - s0) else argShift
  else argShift

/-- The value of an argument on the entry `(index1, ind2)`: in a chain a scalar's value, a
streamed value from the record, or the stored element; outside a chain a matrix's element or a
scalar's value. -/
def argumentValue (actionInChain : Bool) (mv : MultiValue R) (index1 ind2 : Nat) (a : ChainArgument R) :
    Except String R :=
  if actionInChain then
    if a.shape.getShape.length = 0 then .ok (a.get 0)
    else if !a.valueHasBeenSet then .ok (mv.values a.value.positionInStream)
    else do
      let ncols ← shapeAt a.shape.getShape 1
      pure (a.get (ncols * index1 + ind2))
  else if a.shape.getShape.length = 2 then do
    let ncols ← shapeAt a.shape.getShape 1
    pure (a.get (ncols * index1 + ind2))
  else .ok (a.get 0)

/-- The derivative loop for a matrix argument outside a chain: every component reads the column
count of its output. -/
def matrixComponentLoop (outputs : List Nat) (derivatives : Nat → Nat → R) (outShape : List Nat)
    (j base index1 ind2 : Nat) (mv : MultiValue R) : Except String (MultiValue R) :=
  (List.range outputs.length).foldlM (fun mv i => do
    let ncols ← shapeAt outShape 1
    let myind := base + ncols * index1 + ind2
    pure ((mv.addDerivative (outputs.getD i 0) myind (derivatives i j)).updateIndex (outputs.getD i 0) myind)) mv

/-- One argument of the derivative loop outside a chain, on the record, `base` and the argument
index. -/
def checkedArgStep (outputs : List Nat) (derivatives : Nat → Nat → R) (outShape : List Nat) (index1 ind2 : Nat)
    (st : MultiValue R × Nat × Nat) (a : ArgShape) : Except String (MultiValue R × Nat × Nat) := do
  let mv ← if a.getShape.length = 2 then matrixComponentLoop outputs derivatives outShape st.2.2 st.2.1 index1 ind2 st.1
    else pure (componentLoop outputs derivatives st.2.2 st.2.1 st.1)
  pure (mv, st.2.1 + a.getNumberOfValues, st.2.2 + 1)

/-- The derivative loops in a chain: every component collects, for every matrix argument `j`, its
derivatives on the argument's active indices, shifted by `arg_deriv_starts[j]`; a matrix output
then registers those indices once for each distinct start. As in `FunctionOfVector`, the active
indices of an argument are read before the loop over them. -/
def chainDerivatives (label : String) (argDerivStarts outputs : List Nat) (derivatives : Nat → Nat → R)
    (args : List (ChainArgument R)) (outShape : List Nat) (mv : MultiValue R) : MultiValue R :=
  let mv := (List.range outputs.length).foldl (fun mv i => args.enum.foldl (fun mv (j, a) =>
    if a.shape.getShape.length = 2 then
      let (istrn, mv) := getArgumentPositionInStream label a.value mv
      ((List.range (mv.getNumberActive istrn)).map (mv.getActiveIndex istrn)).foldl (fun mv kind =>
        mv.addDerivative (outputs.getD i 0) (argDerivStarts.getD j 0 + kind) (derivatives i j * mv.derivatives istrn kind)) mv
    else mv) mv) mv
  if outShape.length = 2 then
    (List.range outputs.length).foldl (fun mv i => args.enum.foldl (fun mv (j, a) =>
      if a.shape.getShape.length = 0 ∨ (List.range j).any (fun k => argDerivStarts.getD k 0 == argDerivStarts.getD j 0) then mv
      else ((List.range (mv.getNumberActive a.value.positionInStream)).map (mv.getActiveIndex a.value.positionInStream)).foldl
        (fun mv kind => mv.updateIndex (outputs.getD i 0) (argDerivStarts.getD j 0 + kind)) mv) mv) mv
  else mv

/-- `FunctionOfMatrix::performTask(controller, index1, index2, myvals)` for an output of shape
`outShape` (`[nrows, ncols]` for a matrix, `[]` for a zero-rank output), whose components sit at
the stream positions `outputs`; `myfunc` is `myfunc.calc`. A read of `getShape()` past a value's
rank is an error. -/
def performTaskChecked (myfunc : List R → List R × (Nat → Nat → R)) (label : String)
    (actionInChain doNotCalculateDerivatives : Bool) (args : List (ChainArgument R))
    (argDerivStarts outputs outShape : List Nat) (index1 index2 : Nat) (mv : MultiValue R) :
    Except String (MultiValue R) := do
  let ind2 ← taskColumn outShape args index2
  let xs ← args.mapM (argumentValue actionInChain mv index1 ind2)
  let (vals, derivatives) := myfunc xs
  let mv := addValues outputs vals mv
  if doNotCalculateDerivatives then pure mv
  else if actionInChain then pure (chainDerivatives label argDerivStarts outputs derivatives args outShape mv)
  else do
    let s0 ← shapeAt outShape 0
    let ind2 := if s0 ≤ index2 then index2 - s0 else index2
    let st ← (args.map (·.shape)).foldlM (checkedArgStep outputs derivatives outShape index1 ind2) (mv, 0, 0)
    pure st.1

omit [Semiring R] in
theorem argumentValue_noChain (mv : MultiValue R) (index1 ind2 : Nat) (a : ChainArgument R) :
    argumentValue false mv index1 ind2 a = .ok (match a.shape with
      | .matrix _ ncols => a.get (ncols * index1 + ind2)
      | .scalar => a.get 0) := by
  cases h : a.shape <;> simp [argumentValue, h, ArgShape.getShape, shapeAt]

omit [Semiring R] in
theorem argumentValue_chain_ok (mv : MultiValue R) (index1 ind2 : Nat) (a : ChainArgument R) :
    ∃ x, argumentValue true mv index1 ind2 a = .ok x := by
  cases h : a.shape <;> cases hv : a.valueHasBeenSet <;> simp [argumentValue, h, hv, ArgShape.getShape, shapeAt]

omit [Semiring R] in
/-- A scalar first argument: on a column before the rows of a matrix output, `performTask` reads
`getShape()[0]` of the scalar. -/
theorem taskColumn_scalarFirst (nrows ncols index2 : Nat) (a : ChainArgument R) (rest : List (ChainArgument R))
    (ha : a.shape = .scalar) (h : index2 < nrows) :
    taskColumn [nrows, ncols] (a :: rest) index2 = .error "getShape() read past the rank" := by
  simp [taskColumn, shapeAt, ha, ArgShape.getShape, Nat.not_le.mpr h]

omit [Semiring R] in
theorem taskColumn_matrixFirst (outShape : List Nat) (index2 : Nat) (a : ChainArgument R)
    (rest : List (ChainArgument R)) {nrows ncols : Nat} (ha : a.shape = .matrix nrows ncols) :
    ∃ ind2, taskColumn outShape (a :: rest) index2 = .ok ind2 := by
  match outShape with
  | [s0, _] => by_cases hs : s0 ≤ index2 <;> simp [taskColumn, shapeAt, hs, ha, ArgShape.getShape]
  | [] | [_] | _ :: _ :: _ :: _ => simp [taskColumn, shapeAt, ha, ArgShape.getShape]

theorem matrixComponentLoop_ok {outputs : List Nat} {derivatives : Nat → Nat → R} {outShape : List Nat}
    {ncols : Nat} (h : shapeAt outShape 1 = .ok ncols) (j base index1 ind2 : Nat) (mv : MultiValue R) :
    matrixComponentLoop outputs derivatives outShape j base index1 ind2 mv =
      .ok (componentLoop outputs derivatives j (base + ncols * index1 + ind2) mv) := by
  rw [matrixComponentLoop]
  exact foldlM_except_ok (fun mv i => by rw [h]; rfl) _ _

theorem checkedArgStep_matrixOutput (outputs : List Nat) (derivatives : Nat → Nat → R)
    (outRows outCols index1 ind2 : Nat) (st : MultiValue R × Nat × Nat) (b : ArgShape) :
    checkedArgStep outputs derivatives [outRows, outCols] index1 ind2 st b =
      .ok (argStep outputs derivatives outCols index1 ind2 st b) := by
  cases b with
  | scalar => rfl
  | matrix r c =>
    rw [checkedArgStep, if_pos (show (ArgShape.matrix r c).getShape.length = 2 from rfl),
      matrixComponentLoop_ok (show shapeAt [outRows, outCols] 1 = .ok outCols from rfl)]
    rfl

/-- Outside a chain, with derivatives, a zero-rank output (a function such as a sum over a matrix,
whose output shape is resized to `[]`) reads `getShape()[0]` of the output: every task fails. -/
theorem performTaskChecked_zeroRank (myfunc : List R → List R × (Nat → Nat → R)) (label : String)
    {args : List (ChainArgument R)} (hargs : args ≠ []) (argDerivStarts outputs : List Nat)
    (index1 index2 : Nat) (mv : MultiValue R) :
    performTaskChecked myfunc label false false args argDerivStarts outputs [] index1 index2 mv =
      .error "getShape() read past the rank" := by
  obtain ⟨a, rest, rfl⟩ := List.exists_cons_of_ne_nil hargs
  cases ha : a.shape with
  | scalar => simp [performTaskChecked, taskColumn, shapeAt, ha, ArgShape.getShape]
  | matrix nrows ncols =>
    obtain ⟨ind2, hcol⟩ := taskColumn_matrixFirst [] index2 a rest ha
    rw [performTaskChecked, hcol, ok_bind, mapM_except_ok fun b _ => argumentValue_noChain mv index1 ind2 b,
      ok_bind]
    rfl

/-- Outside a chain, for a matrix output and a matrix first argument, every read is in range and
the task is the one `performTask` computes. -/
theorem performTaskChecked_noChain (myfunc : List R → List R × (Nat → Nat → R)) (label : String)
    (doNotCalculateDerivatives : Bool) (a : ChainArgument R) (rest : List (ChainArgument R))
    {nrows ncols : Nat} (ha : a.shape = .matrix nrows ncols) (argDerivStarts outputs : List Nat)
    (outRows outCols index1 index2 : Nat) (mv : MultiValue R) :
    performTaskChecked myfunc label false doNotCalculateDerivatives (a :: rest) argDerivStarts outputs
        [outRows, outCols] index1 index2 mv =
      .ok (performTask myfunc doNotCalculateDerivatives ((a :: rest).map (·.toArgument)) outputs
        (outRows, outCols) index1 index2 mv) := by
  have hcol : taskColumn [outRows, outCols] (a :: rest) index2 =
      .ok (if outRows ≤ index2 then index2 - outRows else if nrows ≤ index2 then index2 - nrows else index2) := by
    by_cases h1 : outRows ≤ index2 <;> simp [taskColumn, shapeAt, h1, ha, ArgShape.getShape]
  rw [performTaskChecked, hcol, ok_bind, mapM_except_ok fun b _ => argumentValue_noChain mv index1 _ b, ok_bind,
    performTask]
  simp only [List.map_map, List.map_cons, List.head?_cons, Option.map_some', Function.comp_def, ha]
  generalize myfunc _ = p
  obtain ⟨vals, derivatives⟩ := p
  cases doNotCalculateDerivatives
  · simp only [Bool.false_eq_true, if_false]
    rw [show shapeAt [outRows, outCols] 0 = .ok outRows from rfl, ok_bind,
      foldlM_except_ok (checkedArgStep_matrixOutput outputs derivatives outRows outCols index1 _), ok_bind]
    rfl
  · rfl

/-- In a chain, with a matrix first argument, every read is in range, whatever the output's rank. -/
theorem performTaskChecked_chain (myfunc : List R → List R × (Nat → Nat → R)) (label : String)
    (doNotCalculateDerivatives : Bool) (a : ChainArgument R) (rest : List (ChainArgument R))
    {nrows ncols : Nat} (ha : a.shape = .matrix nrows ncols) (argDerivStarts outputs outShape : List Nat)
    (index1 index2 : Nat) (mv : MultiValue R) :
    ∃ mv', performTaskChecked myfunc label true doNotCalculateDerivatives (a :: rest) argDerivStarts outputs
      outShape index1 index2 mv = .ok mv' := by
  obtain ⟨ind2, hcol⟩ := taskColumn_matrixFirst outShape index2 a rest ha
  rw [performTaskChecked, hcol, ok_bind, mapM_except_ok (g := fun b => (argumentValue_chain_ok mv index1 ind2 b).choose)
    fun b _ => (argumentValue_chain_ok mv index1 ind2 b).choose_spec, ok_bind]
  cases doNotCalculateDerivatives <;> exact ⟨_, rfl⟩

/-- A sum over a `2 × 2` matrix, outside a chain and with derivatives, on task `(0, 2)`. -/
theorem performTaskChecked_zeroRank_sum :
    [(⟨⟨.matrix 2 2, fun _ => 0⟩, default, true⟩ : ChainArgument Int)] ≠ [] ∧
      performTaskChecked (fun xs => ([xs.sum], fun _ _ => 1)) "s" false false
        [(⟨⟨.matrix 2 2, fun _ => 0⟩, default, true⟩ : ChainArgument Int)] [] [0] [] 0 2 (MultiValue.clear 0) =
        .error "getShape() read past the rank" :=
  ⟨List.cons_ne_nil _ _, performTaskChecked_zeroRank _ _ (List.cons_ne_nil _ _) _ _ _ _ _⟩

end Checked

/-! ## The shape of the output -/

/-- One argument of `FunctionOfMatrix::getValueShapeFromArguments` on the shape found so far: a
matrix must have that shape once its row count is not zero, and sets it while it is. The
assertions (every argument a scalar or a matrix, no matrix with derivatives) hold of an `ArgShape`. -/
def shapeStep (shape : Nat × Nat) : ArgShape → Except String (Nat × Nat)
  | .scalar => .ok shape
  | .matrix nrows ncols =>
    if 0 < shape.1 ∧ (nrows ≠ shape.1 ∨ ncols ≠ shape.2) then .error "all matrices input should have the same shape"
    else if shape.1 = 0 then .ok (nrows, ncols) else .ok shape

/-- `FunctionOfMatrix::getValueShapeFromArguments`: the shape of the output, from the arguments
after `argstart`. -/
def getValueShapeFromArguments (argstart : Nat) (args : List ArgShape) : Except String (List Nat) :=
  ((args.drop argstart).foldlM shapeStep (0, 0)).map fun s => [s.1, s.2]

/-- The columns of the first matrix of a list of arguments, where the loop of `getNumberOfColumns`
returns. -/
def firstMatrixColumns : List ArgShape → Option Nat
  | [] => none
  | .scalar :: rest => firstMatrixColumns rest
  | .matrix _ ncols :: _ => some ncols

/-- `FunctionOfMatrix::getNumberOfColumns` of an action whose output has rank `outputRank`: the
columns of its first matrix argument after `argstart`; `plumed_error()` without one, or when the
output is not a matrix. -/
def getNumberOfColumns (outputRank argstart : Nat) (args : List ArgShape) : Except String Nat :=
  if outputRank = 2 then
    match firstMatrixColumns (args.drop argstart) with
    | some ncols => .ok ncols
    | none => .error "plumed_error()"
  else .error "plumed_error()"

theorem foldlM_shapeStep_noRows : ∀ (l : List ArgShape) (c : Nat), (∀ r c', .matrix r c' ∈ l → r = 0) →
    ∃ c', l.foldlM shapeStep (0, c) = .ok (0, c')
  | [], c, _ => ⟨c, rfl⟩
  | .scalar :: l, c, h => foldlM_shapeStep_noRows l c fun r c' hm => h r c' (List.mem_cons_of_mem _ hm)
  | .matrix r c'' :: l, c, h => by
    obtain rfl := h r c'' (List.mem_cons_self _ _)
    obtain ⟨c', hc'⟩ := foldlM_shapeStep_noRows l c'' fun r c' hm => h r c' (List.mem_cons_of_mem _ hm)
    exact ⟨c', by simpa [shapeStep] using hc'⟩

/-- An argument that does not contradict the shape `r × c`: a scalar, or a matrix of that shape. -/
def hasShape (r c : Nat) : ArgShape → Bool
  | .scalar => true
  | .matrix nrows ncols => nrows == r && ncols == c

theorem foldlM_shapeStep_set {r c : Nat} (hr : 0 < r) : ∀ l : List ArgShape,
    l.foldlM shapeStep (r, c) =
      if l.all (hasShape r c) then .ok (r, c) else .error "all matrices input should have the same shape"
  | [] => rfl
  | .scalar :: l => foldlM_shapeStep_set hr l
  | .matrix r' c' :: l => by
    by_cases h : r' = r ∧ c' = c
    · obtain ⟨rfl, rfl⟩ := h
      have hs : shapeStep (r', c') (.matrix r' c') = .ok (r', c') := by simp [shapeStep, hr.ne']
      rw [List.foldlM_cons, hs, List.all_cons]
      simpa [hasShape] using foldlM_shapeStep_set hr l
    · have hs : shapeStep (r, c) (.matrix r' c') = .error "all matrices input should have the same shape" := by
        rw [shapeStep, if_pos ⟨hr, by omega⟩]
      have hm : hasShape r c (.matrix r' c') = false := by simp only [hasShape]; simpa using h
      rw [List.foldlM_cons, hs, List.all_cons, hm, Bool.false_and, if_neg Bool.false_ne_true]
      rfl

/-- `getValueShapeFromArguments`, when a matrix with rows comes after matrices without: its shape,
provided that every later matrix has it, and otherwise the error. The matrices without rows before
it are not compared. -/
theorem getValueShapeFromArguments_firstRows {argstart : Nat} {args pre post : List ArgShape} {r c : Nat}
    (hsplit : args.drop argstart = pre ++ .matrix r c :: post) (hr : 0 < r)
    (hpre : ∀ r' c', .matrix r' c' ∈ pre → r' = 0) :
    getValueShapeFromArguments argstart args =
      if post.all (hasShape r c) then .ok [r, c] else .error "all matrices input should have the same shape" := by
  obtain ⟨c0, h0⟩ := foldlM_shapeStep_noRows pre 0 hpre
  have hstep : shapeStep (0, c0) (.matrix r c) = .ok (r, c) := by simp [shapeStep]
  rw [getValueShapeFromArguments, hsplit, List.foldlM_append, h0]
  show Except.map _ ((ArgShape.matrix r c :: post).foldlM shapeStep (0, c0)) = _
  rw [List.foldlM_cons, hstep]
  show Except.map _ (post.foldlM shapeStep (r, c)) = _
  rw [foldlM_shapeStep_set hr]
  split_ifs <;> rfl

/-- The shape of `ARG=s,M,N` with `M` and `N` of `3 × 4`. -/
theorem getValueShapeFromArguments_firstRows_scalarFirst :
    getValueShapeFromArguments 0 [.scalar, .matrix 3 4, .matrix 3 4] =
      if [ArgShape.matrix 3 4].all (hasShape 3 4) then .ok [3, 4]
      else .error "all matrices input should have the same shape" :=
  @getValueShapeFromArguments_firstRows 0 [.scalar, .matrix 3 4, .matrix 3 4] [.scalar] [.matrix 3 4] 3 4 rfl
    (by decide) (by simp)

/-- A first matrix without rows is not what the shape comes from, but `getNumberOfColumns` still
reads it: `[0 × 5, 3 × 4]` gives a `3 × 4` output whose `getNumberOfColumns` is `5`. -/
example : getValueShapeFromArguments 0 [.matrix 0 5, .matrix 3 4] = .ok [3, 4] ∧
    getNumberOfColumns 2 0 [.matrix 0 5, .matrix 3 4] = .ok 5 := ⟨rfl, rfl⟩

/-! ## The names of the outputs -/

/-- The outputs `FunctionOfMatrix`'s constructor creates, in order (`none` the action's own value,
`some name` a component). A function whose arguments start at `argstart > 0` is refused first (the
message goes on with a contact address, left out here). A component with `_` and more than one
argument gives one output per argument `j`, named after that argument and the component. -/
def outputComponents (components strInd argNames : List String) (argstart : Nat) :
    Except String (List (Option String)) :=
  if 0 < argstart then .error "this has not beeen implemented"
  else if components.isEmpty then .ok (if strInd.isEmpty then [none] else strInd.map some)
  else .ok (components.flatMap fun c =>
    if !strInd.isEmpty then strInd.map fun s => some (c ++ s)
    else if '_' ∈ c.toList then
      if argNames.length - argstart == 1 then [none]
      else (List.range' argstart (argNames.length - argstart)).map fun j => some (argNames.getD j "" ++ c)
    else [some c])

/-- With components per label absent and every component holding `_`, more than one argument and
`argstart = 0`, the names pair every argument with every component. -/
theorem outputComponents_underscore {components argNames : List String} (hne : components ≠ [])
    (hc : ∀ c ∈ components, '_' ∈ c.toList) (hargs : argNames.length ≠ 1) :
    outputComponents components [] argNames 0 =
      .ok (components.flatMap fun c => argNames.map fun a => some (a ++ c)) := by
  rw [outputComponents, if_neg (by omega), if_neg (by simpa using hne)]
  refine congrArg Except.ok (List.flatMap_congr fun c hc' => ?_)
  rw [if_neg (by simp), if_pos (hc c hc'), if_neg (by simpa using hargs)]
  refine List.ext_getElem (by simp) fun i h1 _ => ?_
  have hi : i < argNames.length := by simpa using h1
  simp [List.getElem?_eq_getElem hi]

/-- Two components with `_` over the arguments `p` and `q`: `FunctionOfVector` names `p_x`, `q_y`
and the same two again, `FunctionOfMatrix` names `p_x`, `q_x`, `p_y` and `q_y`. -/
theorem outputComponents_underscoreDiffer :
    Function.outputComponents ["_x", "_y"] [] ["p", "q"] 0 = .ok [some "p_x", some "q_y", some "p_x", some "q_y"] ∧
      outputComponents ["_x", "_y"] [] ["p", "q"] 0 = .ok [some "p_x", some "q_x", some "p_y", some "q_y"] :=
  ⟨rfl, rfl⟩

end Plumed.Matrixtools
