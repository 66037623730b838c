/-
`FunctionOfVector::performTask`, in a chain and outside one. In a chain, the derivative of each
output on index `arg_deriv_starts[j] + k` collects `derivatives(i, j)` times the derivative its
argument holds in the task record, where an argument read from stored data is seeded by
`getArgumentPositionInStream`. That seed is added on every call: an argument read twice from the
same stash sees `1` the first time and `2` the second, so its second derivative is counted twice.

`getNumberOfFinalTasks`, the length of the output vector: without time series, an accepted
argument list has vectors all of one length, except empty vectors read before the first non-empty
one, and the count is that length. A time series shorter than the count sets it to
`isTimeSeries()`, that is to `1`. The constructor names a component with `_` after the arguments,
and its inner loop reads `components[i]` with the argument's index `i`.
-/
import Plumed.Core.ActionWithArguments
import Mathlib.Algebra.Ring.Int.Defs

namespace Plumed.Function

open Plumed.Core

/-- An argument as `performTask` reads it: its `Value`, whether its value has been set (a streamed
value has not), and its stored elements (`get()` is element 0). -/
structure Argument (R : Type) where
  value : Value
  valueHasBeenSet : Bool
  get : Nat → R

section Task

variable {R : Type} [Semiring R]

/-- The chained derivative loop for argument `j`: for every active index `kind` of the argument's
stream position, every output gets `derivatives(i, j)` times the argument's derivative on `kind` at
`arg_deriv_starts[j] + kind`; unless an earlier argument has the same start, the outputs then
register those indices. The active indices of the argument are read before the loops, which change
them only when an output sits at the argument's stream position. -/
def chainStep (label : String) (argDerivStarts outputs : List Nat) (derivatives : Nat → Nat → R)
    (args : List Value) (mv : MultiValue R) (j : Nat) : MultiValue R :=
  let (istrn, mv) := getArgumentPositionInStream label (args.getD j default) mv
  let start := argDerivStarts.getD j 0
  let actives := (List.range (mv.getNumberActive istrn)).map (mv.getActiveIndex istrn)
  let mv := actives.foldl (fun mv kind => (List.range outputs.length).foldl (fun mv i =>
    mv.addDerivative (outputs.getD i 0) (start + kind) (derivatives i j * mv.derivatives istrn kind)) mv) mv
  if (List.range j).any fun k => argDerivStarts.getD k 0 == start then mv
  else actives.foldl (fun mv kind => (List.range outputs.length).foldl (fun mv i =>
    mv.updateIndex (outputs.getD i 0) (start + kind)) mv) mv

/-- The derivative loop outside a chain for argument `j`, whose values start at `base`: element
`current` of a vector, the value of a scalar. -/
def noChainStep (outputs : List Nat) (derivatives : Nat → Nat → R) (current : Nat)
    (st : MultiValue R × Nat × Nat) (v : Value) : MultiValue R × Nat × Nat :=
  (componentLoop outputs derivatives st.2.2 (if v.rank == 1 then st.2.1 + current else st.2.1) st.1,
    st.2.1 + v.numberOfValues, st.2.2 + 1)

/-- `FunctionOfVector::performTask(current, myvals)` of the action labelled `label`, whose components
sit at the stream positions `outputs`; `myfunc` is `myfunc.calc`, returning the values and the
derivatives by (component, argument). -/
def performTask (myfunc : List R → List R × (Nat → Nat → R)) (label : String)
    (actionInChain doNotCalculateDerivatives : Bool) (argstart : Nat) (args : List (Argument R))
    (argDerivStarts outputs : List Nat) (current : Nat) (mv : MultiValue R) : MultiValue R :=
  let args := args.drop argstart
  let xs := args.map fun a =>
    if actionInChain then
      if a.value.rank == 0 then a.get 0
      else if !a.valueHasBeenSet then mv.values a.value.positionInStream
      else a.get mv.taskIndex
    else if a.value.rank == 1 then a.get current else a.get 0
  let (vals, derivatives) := myfunc xs
  let mv := addValues outputs vals mv
  if doNotCalculateDerivatives then mv
  else if actionInChain && !argDerivStarts.isEmpty then
    (List.range args.length).foldl (chainStep label argDerivStarts outputs derivatives (args.map (·.value))) mv
  else ((args.map (·.value)).foldl (noChainStep outputs derivatives current) (mv, 0, 0)).1

end Task

/-- A vector `v` of five elements that stores its data for `f` in stash `7`. -/
def storedVector : Value :=
  { name := "v", action := 0, rank := 1, isConstant := false, alwaysstore := false, isTimeSeries := false,
    numberOfValues := 5, ntasks := 5, storeDataFor := [("f", 7)], positionInStream := 0 }

/-- `f: CUSTOM ARG=v,v FUNC=x+y` in a chain, on task 2, both arguments read from the stash of `v`:
the derivative on element 2 of `v` is `1·1 + 1·2`, where the two occurrences contribute `1` each. -/
theorem performTask_repeatedStored :
    (performTask (fun xs => ([xs.sum], fun _ _ => (1 : Int))) "f" true false 0
      [⟨storedVector, true, fun _ => 0⟩, ⟨storedVector, true, fun _ => 0⟩] [0, 0] [0] 2
      (MultiValue.clear 2)).derivatives 0 2 = 1 * 1 + 1 * 2 := by
  decide

/-! ## The number of tasks -/

/-- One pass of `getNumberOfFinalTasks`'s loop, on the count `nelements` so far. For a vector,
`getShape()[0]` is its number of values. The assertion that a vector has no derivatives is not
modelled (`Value` does not record them). -/
def finalTasksStep (nelements : Nat) (v : Value) : Except String Nat :=
  if v.rank < 2 then
    if v.rank == 1 then
      if 0 < nelements then
        if v.isTimeSeries && v.numberOfValues < nelements then .ok v.isTimeSeries.toNat
        else if v.numberOfValues != nelements then .error "all vectors input should have the same length"
        else .ok nelements
      else .ok v.numberOfValues
    else .ok nelements
  else .error "assertion failed: getPntrToArgument(i)->getRank()<2"

/-- `FunctionOfVector::getNumberOfFinalTasks()` over the arguments from `argstart` on. -/
def getNumberOfFinalTasks (argstart : Nat) (args : List Value) : Except String Nat :=
  (args.drop argstart).foldlM finalTasksStep 0

/-- The lengths of the vectors among `args`, in order. -/
def vectorLengths (args : List Value) : List Nat := (args.filter (·.rank == 1)).map (·.numberOfValues)

/-- The length of the shortest vector among `args`, `0` when there is none. -/
def shortestVectorLength (args : List Value) : Nat := (vectorLengths args).min?.getD 0

@[simp] theorem vectorLengths_nil : vectorLengths [] = [] := rfl

theorem vectorLengths_cons (v : Value) (l : List Value) :
    vectorLengths (v :: l) = if v.rank = 1 then v.numberOfValues :: vectorLengths l else vectorLengths l := by
  by_cases h : v.rank = 1 <;> simp [vectorLengths, List.filter_cons, h]

theorem finalTasksStep_cases {n n' : Nat} {v : Value} (hts : v.isTimeSeries = false)
    (h : finalTasksStep n v = .ok n') :
    v.rank = 0 ∧ n' = n ∨ v.rank = 1 ∧ (n = 0 ∧ n' = v.numberOfValues ∨ 0 < n ∧ n' = n ∧ v.numberOfValues = n) := by
  simp only [finalTasksStep, hts, Bool.false_and, Bool.false_eq_true, if_false, bne_iff_ne, ne_eq,
    beq_iff_eq] at h
  split_ifs at h <;> cases h <;> omega

/-- The run of the loop from the count `n`, when no argument is a time series: every vector has
length `0` or the result, a positive starting count is the result, and a positive result is the
starting count or the length of a vector. -/
theorem foldlM_finalTasksStep (r : Nat) : ∀ (l : List Value) (n : Nat), (∀ v ∈ l, v.isTimeSeries = false) →
    l.foldlM finalTasksStep n = .ok r →
    (∀ x ∈ vectorLengths l, x = 0 ∨ x = r) ∧ (n = 0 ∨ n = r) ∧ (0 < r → n = r ∨ r ∈ vectorLengths l)
  | [], n, _, h => by cases h; exact ⟨by simp, .inr rfl, fun _ => .inl rfl⟩
  | v :: l, n, hts, h => by
    rw [List.foldlM_cons] at h
    obtain ⟨n', hstep, hrest⟩ := except_bind_eq_ok h
    obtain ⟨hl, hn', hpos⟩ := foldlM_finalTasksStep r l n' (fun w hw => hts w (.tail _ hw)) hrest
    have hv := finalTasksStep_cases (hts v (.head _)) hstep
    rw [vectorLengths_cons]
    split_ifs with h1
    · simp only [List.mem_cons, forall_eq_or_imp]
      refine ⟨⟨by omega, hl⟩, by omega, fun hr => ?_⟩
      rcases hpos hr with h' | h' <;> [skip; exact .inr (.inr h')]
      by_cases hn : n = r <;> [exact .inl hn; exact .inr (.inl (by omega))]
    · exact ⟨hl, by omega, fun hr => (hpos hr).imp_left fun h' => by omega⟩

/-- Without time series, an accepted argument list has every vector of length `0` or of the count
returned, and a positive count is the length of one of them. -/
theorem getNumberOfFinalTasks_lengths {argstart r : Nat} {args : List Value}
    (hts : ∀ v ∈ args.drop argstart, v.isTimeSeries = false)
    (h : getNumberOfFinalTasks argstart args = .ok r) :
    (∀ x ∈ vectorLengths (args.drop argstart), x = 0 ∨ x = r) ∧
      (0 < r → r ∈ vectorLengths (args.drop argstart)) := by
  obtain ⟨hl, -, hpos⟩ := foldlM_finalTasksStep r _ 0 hts h
  exact ⟨hl, fun hr => (hpos hr).resolve_left (by omega)⟩

/-- Where the count is the shortest length: no time series and no empty vector. -/
theorem getNumberOfFinalTasks_eq_shortest {argstart r : Nat} {args : List Value}
    (hts : ∀ v ∈ args.drop argstart, v.isTimeSeries = false)
    (hne : ∀ x ∈ vectorLengths (args.drop argstart), 0 < x)
    (h : getNumberOfFinalTasks argstart args = .ok r) : r = shortestVectorLength (args.drop argstart) := by
  obtain ⟨hl, hpos⟩ := getNumberOfFinalTasks_lengths hts h
  have hall : ∀ x ∈ vectorLengths (args.drop argstart), x = r := fun x hx =>
    (hl x hx).resolve_left (Nat.pos_iff_ne_zero.mp (hne x hx))
  rw [shortestVectorLength]
  cases hmin : (vectorLengths (args.drop argstart)).min? with
  | none =>
    rw [List.min?_eq_none_iff] at hmin
    rw [hmin] at hpos
    exact (Nat.eq_zero_of_not_pos fun hr => List.not_mem_nil r (hpos hr))
  | some m => exact (hall m (List.min?_mem (fun a b => by omega) hmin)).symm

/-- A vector of `n` elements, a time series or not. -/
def vectorOfLength (n : Nat) (timeSeries : Bool) : Value :=
  { storedVector with numberOfValues := n, ntasks := n, isTimeSeries := timeSeries, storeDataFor := [] }

/-- A vector of five elements then a time series of three give a count of `1`, and an empty vector
then a vector of five give `5`: the shortest vectors have three and zero elements. -/
theorem getNumberOfFinalTasks_notShortest :
    getNumberOfFinalTasks 0 [vectorOfLength 5 false, vectorOfLength 3 true] = .ok 1 ∧
      shortestVectorLength [vectorOfLength 5 false, vectorOfLength 3 true] = 3 ∧
    getNumberOfFinalTasks 0 [vectorOfLength 0 false, vectorOfLength 5 false] = .ok 5 ∧
      shortestVectorLength [vectorOfLength 0 false, vectorOfLength 5 false] = 0 :=
  ⟨rfl, rfl, rfl, rfl⟩

/-! ## The names of the outputs -/

/-- The outputs the constructor creates for the output component `c` when the function names no
components per label: for a component with `_` and more than one argument, one per argument
`i ≥ argstart`, named after that argument and `components[i]`: the inner loop's `i` hides the
outer one. `none` is the action's own value (`addValue…`), `some name` a component
(`addComponent…`); the zero-rank choice between the two forms with derivatives and without does not
change a name. A read of `components[i]` past its end is an error. -/
def componentOutputs (components strInd argNames : List String) (argstart : Nat) (c : String) :
    Except String (List (Option String)) :=
  if !strInd.isEmpty then .ok (strInd.map fun s => some (c ++ s))
  else if '_' ∈ c.toList then
    if argNames.length == 1 then .ok [none]
    else (List.range' argstart (argNames.length - argstart)).mapM fun i =>
      match components.get? i with
      | some ci => .ok (some (argNames.getD i "" ++ ci))
      | none => .error "components[i] read past its end"
  else .ok [some c]

/-- The outputs `FunctionOfVector`'s constructor creates, in order, from the keywords' output
components, the function's components per label and the arguments' names. -/
def outputComponents (components strInd argNames : List String) (argstart : Nat) :
    Except String (List (Option String)) :=
  if components.isEmpty then .ok (if strInd.isEmpty then [none] else strInd.map some)
  else List.flatten <$> components.mapM (componentOutputs components strInd argNames argstart)

/-- With components per label absent, for a component with `_` and more than one argument, the
names are those of the arguments `i` joined to `components[i]`, whichever component asks. -/
theorem componentOutputs_underscore {components argNames : List String} {argstart : Nat} {c : String}
    (hc : '_' ∈ c.toList) (hargs : argNames.length ≠ 1) (hlen : argNames.length ≤ components.length) :
    componentOutputs components [] argNames argstart c =
      .ok ((List.range' argstart (argNames.length - argstart)).map fun i =>
        some (argNames.getD i "" ++ components.getD i "")) := by
  rw [componentOutputs, if_neg (by simp), if_pos hc, if_neg (by simpa using hargs)]
  refine mapM_except_ok fun i hi => ?_
  have hi : i < components.length := by rw [List.mem_range'_1] at hi; omega
  rw [List.get?_eq_getElem?, List.getElem?_eq_getElem hi, List.getD_eq_getElem _ _ hi]

/-- With components per label absent and every component holding `_`, more than one argument and
`argstart = 0`, the names pair argument `i` with component `i`, once for every component. -/
theorem outputComponents_underscore {components argNames : List String} (hne : components ≠ [])
    (hc : ∀ c ∈ components, '_' ∈ c.toList) (hargs : argNames.length ≠ 1)
    (hlen : argNames.length ≤ components.length) :
    outputComponents components [] argNames 0 =
      .ok (components.flatMap fun _ => (List.zipWith (· ++ ·) argNames components).map some) := by
  rw [outputComponents, if_neg (by simpa using hne),
    mapM_except_ok fun c hc' => componentOutputs_underscore (hc c hc') hargs hlen]
  refine congrArg (fun l => Except.ok (List.flatten l)) (List.map_congr_left fun _ _ => ?_)
  refine List.ext_getElem (by simp; omega) fun i h1 _ => ?_
  have hi : i < argNames.length := by simpa using h1
  simp [List.getElem?_eq_getElem hi, List.getElem?_eq_getElem (Nat.lt_of_lt_of_le hi hlen)]

end Plumed.Function
