/-
The backward pass of a chained `ActionWithArguments` against the layout of its forward pass: the
derivative count `setupActionInChain` returns, and the walk of `setForcesOnArguments` over
`distinct_arguments`. Two inputs where the three disagree: an action repeated after another
repeated one takes the start of the wrong block (`arg_deriv_starts[argno]` is read with `argno` an
index into `distinct_arguments`), and a stored scalar given twice has its force read twice.

Outside a chain, `setForcesOnArguments` hands the forces out argument by argument, element by
element, and `setForceOnScalarArgument(n, f)` finds the argument of the flat index `n` by running
totals of the value counts. The two agree: the branch is the flat loop over `n` of the pairs
`setForceOnScalarArgument` finds (`setForcesOnArgumentsNoStream_eq`), argument `j` with
`prefix j ≤ n < prefix (j + 1)` at element `n − prefix j`.
-/
import Plumed.Core.ActionWithArguments
import Mathlib.Data.List.Infix
import Mathlib.Algebra.BigOperators.Group.List
import Mathlib.Algebra.Order.Ring.Nat

namespace Plumed.Core

section Walk

variable (set : List Action)

/-- The derivative count `setupActionInChain` returns for `distinct_arguments`: a streamed action's
own derivatives; otherwise the values of its single component, or of the one argument taken from
it (1 for an average), with the error for a second argument taken from it. The registration of the
caller in its arguments' chains is not modelled. -/
def setupActionInChain (args : List Value) (distinct : List (Nat × Nat)) : Except String Nat :=
  distinct.foldlM (fun n (d : Nat × Nat) =>
    let a := actionAt set d.1
    if d.2 == 0 then .ok (n + a.numberOfDerivatives)
    else if a.components.length == 1 then .ok (n + (a.components.headD default).numberOfValues)
    else do
      let nd ← args.foldlM (fun nd (v : Value) =>
        if (actionAt set v.action).label == a.label then
          if 0 < nd then .error "cannot use more than one argument from an action at once in this way"
          else .ok (if d.2 == 2 then 1 else v.numberOfValues)
        else .ok nd) 0
      if 0 < nd then .ok (n + nd) else .error "assertion failed nd > 0") 0

/-- A force read by `setForcesOnArguments`: the block handed on, from `start`, to a streamed action
through `setForcesOnActionChain`, or the force at `index` added to element `k` of argument `j`. -/
inductive ForceRead where
  | chain (action start : Nat)
  | arg (j k index : Nat)
deriving DecidableEq

/-- The test `getName().find("_ones")!=npos`. -/
def onesName (name : String) : Bool := decide ("_ones".toList <:+: name.toList)

/-- `setForcesOnArguments(argstart, forces, start)` of a caller with `done_over_stream`, labelled
`label`, whose values `built` were asked to store their data for it: the forces it reads, in order,
and the final `start`. Modelled from the spec: a streamed action consumes its own
`getNumberOfDerivatives()` entries. -/
def setForcesOnArguments (label : String) (built : List String) (args : List Value) (argstart : Nat)
    (distinct : List (Nat × Nat)) (start : Nat) : List ForceRead × Nat :=
  distinct.foldl (fun (st : List ForceRead × Nat) (d : Nat × Nat) =>
    if d.2 == 0 then (st.1 ++ [.chain d.1 st.2], st.2 + (actionAt set d.1).numberOfDerivatives)
    else
      let r := ((List.range args.length).drop argstart).foldl
        (fun (r : List ForceRead × Nat × List String) j =>
          let v := args.getD j default
          if storesFor label built v && v.action == d.1 then
            if r.2.2.contains v.name then r
            else
              let narg := if d.2 == 2 then 1 else v.numberOfValues
              (r.1 ++ (List.range narg).map (fun k => .arg j k (r.2.1 + k)), r.2.1 + narg,
                if onesName v.name then r.2.2 ++ [v.name] else r.2.2)
          else r) (st.1, st.2, [])
      (r.1, r.2.1)) ([], start)

end Walk

/-! ## Where the backward pass leaves the forward layout -/

/-- The value of the scalar `s`. -/
def valueS : Value :=
  { name := "s", action := 2, rank := 0, isConstant := false, alwaysstore := false, isTimeSeries := false,
    numberOfValues := 1, ntasks := 1, storeDataFor := [], positionInStream := 2 }

/-- `dependentPair` followed by the scalar `s`, at position 2. -/
def pairWithScalar : List Action :=
  dependentPair ++
    [{ label := "s", name := "CONSTANT", isActionWithValue := true, isActionWithArguments := false,
       isActionAtomistic := false, isActionSetup := false, isAverageBase := false, components := [valueS],
       arguments := [], dependencies := [], doneOverStream := false, actionThatCalculates := 2,
       allActionsRequired := [], numberOfDerivatives := 0 }]

/-- `c` chained on `a, a, b, b`: the layout gives the second `b` the start `0` of `a`'s block while the
walk hands `b`'s forces on from `3`. `c` chained on `a, s, s`: the layout and `setupActionInChain`
count `3 + 1 = 4` derivatives, while the walk reads the force of `s` twice, at `3` and `4`, and ends at
`5`. -/
theorem setForcesOnArguments_repeats :
    (∃ r, requestArguments dependentPair pairCaller [valueA, valueA, valueB, valueB] true 0 = .ok r ∧
      r.distinctArguments = [(0, 0), (1, 0)] ∧ r.argDerivStarts = [0, 0, 3, 0] ∧
      setupActionInChain dependentPair [valueA, valueA, valueB, valueB] r.distinctArguments = .ok 8 ∧
      setForcesOnArguments dependentPair "c" r.built [valueA, valueA, valueB, valueB] 0
        r.distinctArguments 0 = ([.chain 0 0, .chain 1 3], 8)) ∧
    (∃ r, requestArguments pairWithScalar pairCaller [valueA, valueS, valueS] true 0 = .ok r ∧
      r.distinctArguments = [(0, 0), (2, 1)] ∧ r.argDerivStarts = [0, 3, 3] ∧
      setupActionInChain pairWithScalar [valueA, valueS, valueS] r.distinctArguments = .ok 4 ∧
      setForcesOnArguments pairWithScalar "c" r.built [valueA, valueS, valueS] 0 r.distinctArguments 0 =
        ([.chain 0 0, .arg 1 0 3, .arg 2 0 4], 5)) :=
  ⟨⟨_, rfl, rfl, rfl, rfl, rfl⟩, ⟨_, rfl, rfl, rfl, rfl, rfl⟩⟩


/-! ## Outside a chain -/

/-- The value count of the arguments before argument `j`: where the values of argument `j` start
in the flat list of the arguments' values. -/
def valuePrefix (args : List Value) (j : Nat) : Nat := ((args.take j).map (·.numberOfValues)).sum

@[simp] theorem valuePrefix_zero (args : List Value) : valuePrefix args 0 = 0 := rfl

@[simp] theorem valuePrefix_nil (j : Nat) : valuePrefix [] j = 0 := by simp [valuePrefix]

@[simp] theorem valuePrefix_cons_succ (v : Value) (args : List Value) (j : Nat) :
    valuePrefix (v :: args) (j + 1) = v.numberOfValues + valuePrefix args j := by
  simp [valuePrefix]

theorem valuePrefix_succ {args : List Value} {m : Nat} (hm : m < args.length) :
    valuePrefix args (m + 1) = valuePrefix args m + (args.getD m default).numberOfValues := by
  rw [valuePrefix, valuePrefix, List.take_succ, List.getElem?_eq_getElem hm, Option.toList_some, List.map_append,
    List.sum_append, List.map_singleton, List.sum_singleton, List.getD_eq_getElem _ _ hm]

theorem valuePrefix_mono : ∀ (args : List Value) {j m : Nat}, j ≤ m → valuePrefix args j ≤ valuePrefix args m
  | [], _, _, _ => by simp
  | _ :: _, 0, _, _ => Nat.zero_le _
  | v :: args, j + 1, m + 1, h => by
    simpa using valuePrefix_mono args (Nat.le_of_succ_le_succ h)

theorem valuePrefix_le_total (args : List Value) (j : Nat) :
    valuePrefix args j ≤ (args.map (·.numberOfValues)).sum := by
  rcases Nat.le_total j args.length with h | h
  · simpa [valuePrefix] using valuePrefix_mono args h
  · simp [valuePrefix, List.take_of_length_le h]

theorem valuePrefix_window_unique {args : List Value} {n j m : Nat}
    (hj : valuePrefix args j ≤ n ∧ n < valuePrefix args (j + 1))
    (hm : valuePrefix args m ≤ n ∧ n < valuePrefix args (m + 1)) : j = m := by
  rcases Nat.lt_trichotomy j m with h | h | h
  · have := valuePrefix_mono args (show j + 1 ≤ m by omega); omega
  · exact h
  · have := valuePrefix_mono args (show m + 1 ≤ j by omega); omega

/-- The loop of `setForceOnScalarArgument(n, ff)` from argument `i`, with its running totals `nt`
and `nn`: `nt` counts argument `i` before the test `n < nt`, `nn` after it. It returns the argument
`j` it breaks at (`0`, its initial value, when it never breaks) and `nn`. -/
def scalarArgumentSearch (n : Nat) : List Value → Nat → Nat → Nat → Nat × Nat
  | [], _, _, nn => (0, nn)
  | v :: rest, i, nt, nn =>
    if n < nt + v.numberOfValues then (i, nn)
    else scalarArgumentSearch n rest (i + 1) (nt + v.numberOfValues) (nn + v.numberOfValues)

/-- `setForceOnScalarArgument(n, ff)`: the argument `j` and the element `n − nn` of it to which
`addForce` adds `ff`. -/
def setForceOnScalarArgument (args : List Value) (n : Nat) : Nat × Nat :=
  let r := scalarArgumentSearch n args 0 0 0
  (r.1, n - r.2)

/-- From running totals `base`, below the total the loop breaks at the argument whose values hold
`n`, with `nn` the count before it. -/
theorem scalarArgumentSearch_spec (n : Nat) : ∀ (args : List Value) (i base : Nat), base ≤ n →
    n < base + (args.map (·.numberOfValues)).sum →
    ∃ j, scalarArgumentSearch n args i base base = (i + j, base + valuePrefix args j) ∧
      base + valuePrefix args j ≤ n ∧ n < base + valuePrefix args (j + 1)
  | [], _, _, h1, h2 => by simp at h2; omega
  | v :: args, i, base, h1, h2 => by
    rw [scalarArgumentSearch]
    split_ifs with h
    · exact ⟨0, by simp, by simpa using h1, by simpa using h⟩
    · obtain ⟨j, hj, hlo, hhi⟩ := scalarArgumentSearch_spec n args (i + 1) (base + v.numberOfValues)
        (by omega) (by simp at h2; omega)
      refine ⟨j + 1, ?_, ?_, ?_⟩ <;> simp only [hj, valuePrefix_cons_succ, Prod.mk.injEq] <;> omega

theorem setForceOnScalarArgument_window {args : List Value} {n m : Nat} (hlo : valuePrefix args m ≤ n)
    (hhi : n < valuePrefix args (m + 1)) : setForceOnScalarArgument args n = (m, n - valuePrefix args m) := by
  obtain ⟨j, hj, hlo', hhi'⟩ := scalarArgumentSearch_spec n args 0 0 (Nat.zero_le n)
    (by have := valuePrefix_le_total args (m + 1); omega)
  simp only [Nat.zero_add] at hj hlo' hhi'
  obtain rfl := valuePrefix_window_unique ⟨hlo', hhi'⟩ ⟨hlo, hhi⟩
  simp [setForceOnScalarArgument, hj]

/-- One argument of the branch of `setForcesOnArguments` without `done_over_stream`: element `k` of
argument `j` takes the force at `start`, which then moves on. -/
def noStreamStep (args : List Value) (st : List ForceRead × Nat) (j : Nat) : List ForceRead × Nat :=
  let narg := (args.getD j default).numberOfValues
  (st.1 ++ (List.range narg).map (fun k => .arg j k (st.2 + k)), st.2 + narg)

/-- `setForcesOnArguments(argstart, forces, start)` of a caller without `done_over_stream`: every
argument from `argstart` on, each of its elements in turn; the forces it reads, in order, and the
final `start`. -/
def setForcesOnArgumentsNoStream (args : List Value) (argstart start : Nat) : List ForceRead × Nat :=
  ((List.range args.length).drop argstart).foldl (noStreamStep args) ([], start)

/-- The read of the flat index `n` as `setForceOnScalarArgument` places it. -/
def scalarRead (args : List Value) (start n : Nat) : ForceRead :=
  .arg (setForceOnScalarArgument args n).1 (setForceOnScalarArgument args n).2 (start + n)

/-- After the first `m` arguments the branch has read the flat indices below their value count,
each at the pair `setForceOnScalarArgument` finds. -/
theorem foldl_noStreamStep (args : List Value) (start : Nat) : ∀ m ≤ args.length,
    (List.range m).foldl (noStreamStep args) ([], start) =
      ((List.range (valuePrefix args m)).map (scalarRead args start), start + valuePrefix args m)
  | 0, _ => rfl
  | m + 1, hm => by
    rw [List.range_succ, List.foldl_append, foldl_noStreamStep args start m (by omega), List.foldl_cons,
      List.foldl_nil, noStreamStep, valuePrefix_succ hm, List.range_add, List.map_append, List.map_map,
      Prod.mk.injEq]
    refine ⟨congrArg (_ ++ ·) (List.map_congr_left fun k hk => ?_), Nat.add_assoc _ _ _⟩
    have hw : setForceOnScalarArgument args (valuePrefix args m + k) = (m, k) := by
      rw [setForceOnScalarArgument_window (Nat.le_add_right _ k)
        (by rw [valuePrefix_succ hm]; exact Nat.add_lt_add_left (List.mem_range.mp hk) _), Nat.add_sub_cancel_left]
    simp only [Function.comp_apply, scalarRead, hw, Nat.add_assoc]

/-- Without `done_over_stream` and from the first argument, `setForcesOnArguments` is the loop over
the flat indices `n` of the arguments' values that gives the force at `start + n` to the pair
`setForceOnScalarArgument(n, ·)` finds. -/
theorem setForcesOnArgumentsNoStream_eq (args : List Value) (start : Nat) :
    setForcesOnArgumentsNoStream args 0 start =
      ((List.range (args.map (·.numberOfValues)).sum).map (scalarRead args start),
        start + (args.map (·.numberOfValues)).sum) := by
  rw [setForcesOnArgumentsNoStream, List.drop_zero, foldl_noStreamStep args start _ le_rfl]
  simp [valuePrefix]

/-- Below the total, `setForceOnScalarArgument(n, f)` adds `f` to the pair to which
`setForcesOnArguments` (no `done_over_stream`, `argstart = 0`) gives the force at `start + n`:
argument `j` with `prefix j ≤ n < prefix (j + 1)`, at element `n − prefix j`. -/
theorem setForceOnScalarArgument_noStream (args : List Value) (start n : Nat)
    (hn : n < (args.map (·.numberOfValues)).sum) :
    ∃ j k, setForceOnScalarArgument args n = (j, k) ∧
      (setForcesOnArgumentsNoStream args 0 start).1[n]? = some (.arg j k (start + n)) ∧
      valuePrefix args j ≤ n ∧ n < valuePrefix args (j + 1) ∧ k = n - valuePrefix args j := by
  obtain ⟨j, hj, hlo, hhi⟩ := scalarArgumentSearch_spec n args 0 0 (Nat.zero_le n) (by omega)
  simp only [Nat.zero_add] at hj hlo hhi
  refine ⟨j, n - valuePrefix args j, setForceOnScalarArgument_window hlo hhi, ?_, hlo, hhi, rfl⟩
  rw [setForcesOnArgumentsNoStream_eq, List.getElem?_map, List.getElem?_range hn, Option.map_some', scalarRead,
    setForceOnScalarArgument_window hlo hhi]

/-- Three arguments with `2`, `0` and `3` values. -/
def countsTwoZeroThree : List Value :=
  [{ (default : Value) with numberOfValues := 2 }, { (default : Value) with numberOfValues := 0 },
   { (default : Value) with numberOfValues := 3 }]

/-- The flat index `3` skips the empty argument: element `1` of argument `2`. -/
theorem setForceOnScalarArgument_noStream_three :
    3 < (countsTwoZeroThree.map (·.numberOfValues)).sum ∧
      ∃ j k, setForceOnScalarArgument countsTwoZeroThree 3 = (j, k) ∧
        (setForcesOnArgumentsNoStream countsTwoZeroThree 0 0).1[3]? = some (.arg j k (0 + 3)) ∧
        valuePrefix countsTwoZeroThree j ≤ 3 ∧ 3 < valuePrefix countsTwoZeroThree (j + 1) ∧
        k = 3 - valuePrefix countsTwoZeroThree j :=
  ⟨by decide, setForceOnScalarArgument_noStream countsTwoZeroThree 0 3 (by decide)⟩

example : setForceOnScalarArgument countsTwoZeroThree 3 = (2, 1) := rfl

end Plumed.Core
