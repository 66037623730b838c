/-
`ActionWithArguments::requestArguments`: the dependencies it adds, the values it asks to store
their data for the caller, and the stream-or-store decision with the derivative layout of a
chained caller. Each rank > 0 argument from `argstart` on ends up stored for the caller unless
`done_over_stream` holds and the code treats the caller as an `ActionWithValue`, or the call is a
later call from an action that is not one, with `allow_streams`, on a non-constant argument, and no
argument always stores unless it is constant or from a setup action. `done_over_stream` holds only
when the actions computing the streamed arguments agree on their task
counts, none of them is a dependency of the first, and every dependency of the others is found in
the action set before the first or is the first. The first of these can be a dependency of the
others: the code accepts a dependency that is `f_actions[0]` itself.

Also `mustBeTreatedAsDistinctArguments`, `getFirstNonStream` (with fuel) and
`getArgumentPositionInStream`.
-/
import Plumed.Core.ActionSet
import Plumed.Core.MultiValue
import Mathlib.Data.List.GetD
import Mathlib.Tactic.SplitIfs
import Mathlib.Algebra.Ring.Defs

namespace Plumed.Core

/-- The calling action as `requestArguments` sees it: its label; its position in the set, `none`
while its constructor runs (the action is added to the set afterwards); whether the cast to
`ActionWithValue` succeeds; whether it has the `SERIAL` keyword; whether it had no arguments
before the call; and its stream fields before the call. -/
structure Caller where
  label : String
  self : Option Nat
  thisAsActionWithValue : Bool
  hasSerial : Bool
  firstcall : Bool
  doneOverStream : Bool
  distinctArguments : List (Nat × Nat)
  argDerivStarts : List Nat

/-- What a call of `requestArguments` leaves behind: the names of the values that were asked to
store their data for the caller (`buildDataStore`), the dependencies, the actions `f_actions` it
found computing the streamed arguments, `done_over_stream`, `distinct_arguments` (action and kind:
0 streamed, 1 stored, 2 average) and `arg_deriv_starts`. -/
structure Request where
  built : List String
  dependencies : List Nat
  fActions : List Nat
  doneOverStream : Bool
  distinctArguments : List (Nat × Nat)
  argDerivStarts : List Nat

/-- Whether `v` stores its data for the action labelled `label` once the values `built` were asked
to. -/
def storesFor (label : String) (built : List String) (v : Value) : Bool :=
  v.storeDataFor.any (·.1 == label) || built.contains v.name

theorem storesFor_of_mem {label : String} {built : List String} {v : Value} (h : v.name ∈ built) :
    storesFor label built v = true := by
  simp [storesFor, h]

section Request

variable (set : List Action)

/-! ## The actions a streamed argument is charged to -/

/-- Modelled from the spec: `Action::checkForDependency`, whether `q` is among the dependencies of
`p`, directly or through them (fuel bounds the depth). -/
def checkForDependency : Nat → Nat → Nat → Bool
  | 0, _, _ => false
  | fuel + 1, p, q => (actionAt set p).dependencies.any fun d => d == q || checkForDependency fuel d q

/-- `ActionWithArguments::mustBeTreatedAsDistinctArguments` of the action at `p`. -/
def mustBeTreatedAsDistinctArguments (p : Nat) : Bool :=
  let a := actionAt set p
  if !a.doneOverStream then true
  else if a.arguments.length == 1 then !(actionAt set a.actionThatCalculates).isActionAtomistic
  else
    let allvals := (actionAt set (a.arguments.headD default).action).allActionsRequired
    (a.arguments.drop 1).any fun v => (actionAt set v.action).allActionsRequired != allvals

/-- `ActionWithArguments::getFirstNonStream` of the action at `p`, with fuel: `none` when the fuel
runs out. -/
def getFirstNonStream : Nat → Nat → Option Nat
  | 0, _ => none
  | fuel + 1, p =>
    let a := actionAt set p
    let q := (a.arguments.headD default).action
    if !(actionAt set q).isActionWithArguments || mustBeTreatedAsDistinctArguments set q then some p
    else if (a.arguments.drop 1).any (·.action != q) then some p
    else getFirstNonStream fuel q

/-- The action that applies the forces of argument `v`: its own action, or the first action of its
chain that is not a stream. -/
def forcesAction (v : Value) : Nat :=
  if !(actionAt set v.action).isActionWithArguments || mustBeTreatedAsDistinctArguments set v.action then
    v.action
  else (getFirstNonStream set set.length v.action).getD v.action

/-! ## `requestArguments` -/

/-- The loop deciding whether a dependency on `action` is added: the set is walked from its start,
and the walk stops at the caller. -/
def addDepend (self : Option Nat) (action : Nat) : Bool :=
  match (List.range set.length).find? (fun p => self == some p || p == action) with
  | some p => !(self == some p)
  | none => false

/-- The first loop, over the arguments from `argstart` on: whether all of them must be stored
(`storing`), and the constant or setup arguments that store their data on the way. -/
def storingLoop (allowStreams : Bool) : List Value → Bool → List String → Bool × List String
  | [], allconstant, built => (allconstant, built)
  | v :: rest, allconstant, built =>
    if !allowStreams then (true, built)
    else if v.alwaysstore then
      if v.isConstant || (actionAt set v.action).isActionSetup then
        storingLoop allowStreams rest (allconstant && v.isConstant) (built ++ [v.name])
      else (true, built)
    else
      storingLoop allowStreams rest (allconstant && v.isConstant) (if v.isConstant then built ++ [v.name] else built)

/-- The state of the main loop: the dependencies, the values built, `f_actions`. -/
abbrev LoopState := List Nat × List String × List Nat

/-- One pass of the main loop, on argument `i`. -/
def argumentStep (c : Caller) (argstart : Nat) (storing : Bool) (args : List Value) (st : LoopState)
    (i : Nat) : Except String LoopState :=
  let v := args.getD i default
  let built := if (actionAt set v.action).isAverageBase then st.2.1 ++ [v.name] else st.2.1
  match selectWithLabel set (labelOf v.name) with
  | none => .error ("cannot find action named (in requestArguments - this is weird)" ++ labelOf v.name)
  | some action =>
    if i < argstart then
      .ok (if (actionAt set action).isAverageBase then st.1 else st.1 ++ [action], built, st.2.2)
    else
      let deps := if addDepend set c.self action then st.1 ++ [action] else st.1
      let built := if storing then built ++ [v.name] else built
      if 0 < v.rank then
        let labels := v.storeDataFor.map (·.1) ++ if built.contains v.name then [c.label] else []
        let used := labels.any fun l => args.any fun a =>
          (actionAt set a.action).label == l && (actionAt set a.action).name != "NEIGHBORS"
        let built := if used then built ++ [v.name] else built
        let myact := (actionAt set v.action).actionThatCalculates
        let fActions :=
          if !(actionAt set myact).isActionSetup && !v.isConstant && (actionAt set myact).name != "READ" &&
            !st.2.2.contains myact then st.2.2 ++ [myact] else st.2.2
        .ok (deps, built, fActions)
      else .ok (deps, built ++ [v.name], st.2.2)

/-- The walk over the set that checks a dependency `dep` of a later `f_actions[i]`: found when an
action labelled `dep` comes before the first action labelled `f0`, or is it. -/
def foundBefore (dep f0 : String) : List Action → Bool
  | [] => false
  | a :: rest => if a.label == dep then true else if a.label == f0 then false else foundBefore dep f0 rest

/-- The loop over `f_actions[1..]`: equal task counts, no dependency of `f0` on them, and their
dependencies found before `f0`. -/
def chainCompatible (f0 ntasks : Nat) : List Nat → Bool
  | [] => true
  | fi :: rest =>
    if (actionAt set fi).components.any (·.ntasks != ntasks) then false
    else if checkForDependency set set.length f0 fi then false
    else if (actionAt set fi).dependencies.all fun d =>
        foundBefore (actionAt set d).label (actionAt set f0).label set then chainCompatible f0 ntasks rest
    else false

/-- The decision on `done_over_stream` when nothing must be stored, with the assertion that the
components of `f_actions[0]` agree on their task count. -/
def streamDecision : List Nat → Except String Bool
  | [] => .ok false
  | f0 :: rest =>
    let ntasks := ((actionAt set f0).components.headD default).ntasks
    if (actionAt set f0).components.any (·.ntasks != ntasks) then
      .error "assertion failed ntasks==(f_actions[0]->getPntrToOutput(i))->ntasks"
    else .ok (chainCompatible set f0 ntasks rest)

/-- `distinct_but_stored` of an argument. -/
def distinctButStored (label : String) (built : List String) (v : Value) : Bool :=
  v.rank == 0 || storesFor label built v

/-- One pass of the layout loop over the arguments after `argstart`: a repeated action takes the
start of `arg_deriv_starts[argno]`, a new one opens a block after `nder`. -/
def layoutStep (label : String) (built : List String) (st : List (Nat × Nat) × List Nat × Nat)
    (v : Value) : List (Nat × Nat) × List Nat × Nat :=
  let myval := forcesAction set v
  match st.1.findIdx? (·.1 == myval) with
  | some argno => (st.1, st.2.1 ++ [st.2.1.getD argno 0], st.2.2)
  | none =>
    let starts := st.2.1 ++ [st.2.2]
    let m := actionAt set myval
    if !v.isConstant && !m.isActionSetup && !distinctButStored label built v && !m.isAverageBase then
      (st.1 ++ [(myval, 0)], starts, st.2.2 + m.numberOfDerivatives)
    else if m.isAverageBase then (st.1 ++ [(myval, 2)], starts, st.2.2 + 1)
    else (st.1 ++ [(myval, 1)], starts, st.2.2 + v.numberOfValues)

/-- `distinct_arguments` and `arg_deriv_starts` of a chained caller. -/
def argumentLayout (label : String) (built : List String) (args : List Value) (argstart : Nat) :
    List (Nat × Nat) × List Nat :=
  let v := args.getD argstart default
  let dbs := distinctButStored label built v
  let ab := (actionAt set v.action).isAverageBase
  let first := forcesAction set v
  let kind := if !dbs && !ab then 0 else if ab then 2 else 1
  let nder := if !v.isConstant && !dbs then (actionAt set first).numberOfDerivatives
    else if ab then 1 else v.numberOfValues
  if args.length == 1 then ([(first, kind)], [0, nder])
  else
    let st := (args.drop (argstart + 1)).foldl (layoutStep set label built) ([(first, kind)], [0], nder)
    (st.1, st.2.1)

/-- `buildDataStore` on every rank > 0 argument from position `start` on. -/
def buildRanked (args : List Value) (start : Nat) (built : List String) : List String :=
  built ++ ((args.drop start).filter (0 < ·.rank)).map (·.name)

/-- What `requestArguments` does after its main loop, from `storing` and the loop state: the return
of a caller that is not an `ActionWithValue`, the stream-or-store decision, and the layout of a
chained caller or the storing of its rank > 0 arguments. -/
def finishRequest (c : Caller) (args : List Value) (argstart : Nat) (storing : Bool) (st : LoopState) :
    Except String Request :=
  if c.firstcall && !c.thisAsActionWithValue && !c.hasSerial then
    .ok ⟨buildRanked args 0 st.2.1, st.1, st.2.2, false, [], c.argDerivStarts⟩
  else if !c.firstcall && !c.thisAsActionWithValue then
    .ok ⟨st.2.1, st.1, st.2.2, false, [], c.argDerivStarts⟩
  else
    match (if storing then .ok false else streamDecision set st.2.2 : Except String Bool) with
    | .error e => .error e
    | .ok done =>
      let built := if !storing && 1 < st.2.2.length && !done then buildRanked args 0 st.2.1 else st.2.1
      if done then
        let layout := argumentLayout set c.label built args argstart
        .ok ⟨built, st.1, st.2.2, true, layout.1, layout.2⟩
      else .ok ⟨buildRanked args argstart built, st.1, st.2.2, false, [], c.argDerivStarts⟩

/-- `ActionWithArguments::requestArguments(arg, allow_streams, argstart)` called by `c`. -/
def requestArguments (c : Caller) (args : List Value) (allowStreams : Bool) (argstart : Nat) :
    Except String Request :=
  if args = [] then .ok ⟨[], [], [], c.doneOverStream, c.distinctArguments, c.argDerivStarts⟩
  else
    let first := storingLoop set allowStreams (args.drop argstart) true []
    (List.range args.length).foldlM (argumentStep set c argstart first.1 args) ([], first.2, []) >>=
      finishRequest set c args argstart first.1

end Request

/-! ## The decision -/

/-- The three conditions under which a caller streams its arguments, over `f_actions`: every
component of every one of them has the task count of the first component of `f_actions[0]`; none of
`f_actions[1..]` is a dependency of `f_actions[0]`; and every dependency of `f_actions[1..]` is found
in the set no later than `f_actions[0]`. -/
structure ChainConditions (set : List Action) (fActions : List Nat) : Prop where
  ntasks : ∀ f ∈ fActions, ∀ v ∈ (actionAt set f).components,
    v.ntasks = ((actionAt set (fActions.headD 0)).components.headD default).ntasks
  independent : ∀ f ∈ fActions.tail, checkForDependency set set.length (fActions.headD 0) f = false
  ordered : ∀ f ∈ fActions.tail, ∀ d ∈ (actionAt set f).dependencies, ∃ q,
    selectWithLabel set (actionAt set d).label = some q ∧
      ∀ m, selectWithLabel set (actionAt set (fActions.headD 0)).label = some m → q ≤ m

section Decision

variable (set : List Action)

theorem selectWithLabel_cons (a : Action) (l : String) :
    selectWithLabel (a :: set) l = if a.label = l then some 0 else (selectWithLabel set l).map (· + 1) := by
  simp [selectWithLabel, List.findIdx?_cons]

theorem requestArguments_cases {c : Caller} {args : List Value} {allowStreams : Bool} {argstart : Nat}
    {r : Request} (h : requestArguments set c args allowStreams argstart = .ok r) :
    (args = [] ∧ r = ⟨[], [], [], c.doneOverStream, c.distinctArguments, c.argDerivStarts⟩) ∨
      args ≠ [] ∧ ∃ st, (List.range args.length).foldlM
          (argumentStep set c argstart (storingLoop set allowStreams (args.drop argstart) true []).1 args)
          ([], (storingLoop set allowStreams (args.drop argstart) true []).2, []) = .ok st ∧
        finishRequest set c args argstart (storingLoop set allowStreams (args.drop argstart) true []).1 st = .ok r := by
  unfold requestArguments at h
  split_ifs at h with he
  · cases h; exact .inl ⟨he, rfl⟩
  · exact .inr ⟨he, except_bind_eq_ok h⟩

theorem storingLoop_built_mono (allowStreams : Bool) : ∀ (l : List Value) (allconstant : Bool) (built : List String),
    ∀ x ∈ built, x ∈ (storingLoop set allowStreams l allconstant built).2
  | [], _, _, _, hx => hx
  | v :: rest, _, _, x, hx => by
    unfold storingLoop
    split_ifs <;> first
      | exact hx
      | exact storingLoop_built_mono allowStreams rest _ _ x (by simp [hx])

/-- When the first loop ends with `storing` false, it ran over all its arguments with
`allow_streams`: none of them always stores unless it is constant or computed by a setup action, and
the constant ones stored their data on the way. -/
theorem storingLoop_false {allowStreams : Bool} : ∀ {l : List Value} {allconstant : Bool} {built : List String},
    (storingLoop set allowStreams l allconstant built).1 = false → ∀ v ∈ l, allowStreams = true ∧
      (v.alwaysstore = true → v.isConstant = true ∨ (actionAt set v.action).isActionSetup = true) ∧
      (v.isConstant = true → v.name ∈ (storingLoop set allowStreams l allconstant built).2)
  | [], _, _, _ => by simp
  | w :: rest, ac, built, h => by
    have hlast : ∀ {ac'}, w.name ∈ (storingLoop set allowStreams rest ac' (built ++ [w.name])).2 :=
      storingLoop_built_mono set allowStreams rest _ _ _ (List.mem_append_right _ (List.mem_singleton_self _))
    rw [storingLoop.eq_2] at h ⊢
    split_ifs at h ⊢ with h1 h2 h3 h4 <;> rintro v (_ | ⟨_, hv⟩)
    · exact ⟨by simpa using h1, fun _ => by simpa using h3, fun _ => hlast⟩
    · exact storingLoop_false h v hv
    · exact ⟨by simpa using h1, fun hal => absurd hal h2, fun _ => hlast⟩
    · exact storingLoop_false h v hv
    · exact ⟨by simpa using h1, fun hal => absurd hal h2, fun hc => absurd hc h4⟩
    · exact storingLoop_false h v hv

theorem foundBefore_iff (dep f0 : String) : ∀ set : List Action,
    foundBefore dep f0 set = true ↔
      ∃ q, selectWithLabel set dep = some q ∧ ∀ m, selectWithLabel set f0 = some m → q ≤ m
  | [] => by simp [foundBefore, selectWithLabel]
  | a :: rest => by
    rw [foundBefore, selectWithLabel_cons, selectWithLabel_cons]
    by_cases hd : a.label = dep
    · simp [hd]
    · by_cases hf : a.label = f0
      · simp [hd, hf]
      · simp only [hd, hf, beq_iff_eq, if_false, foundBefore_iff dep f0 rest, Option.map_eq_some']
        constructor
        · rintro ⟨q, hq, hm⟩
          exact ⟨q + 1, ⟨q, hq, rfl⟩, fun m ⟨m', hm', e⟩ => e ▸ Nat.succ_le_succ (hm m' hm')⟩
        · rintro ⟨_, ⟨q, hq, rfl⟩, hm⟩
          exact ⟨q, hq, fun m' hm' => Nat.le_of_succ_le_succ (hm _ ⟨m', hm', rfl⟩)⟩

theorem chainCompatible_spec (f0 ntasks : Nat) : ∀ rest : List Nat,
    chainCompatible set f0 ntasks rest = true → ∀ f ∈ rest,
      (∀ v ∈ (actionAt set f).components, v.ntasks = ntasks) ∧
      checkForDependency set set.length f0 f = false ∧
      ∀ d ∈ (actionAt set f).dependencies, foundBefore (actionAt set d).label (actionAt set f0).label set = true
  | [], _ => by simp
  | fi :: rest, h => by
    simp only [chainCompatible] at h
    split_ifs at h with h1 h2 h3
    intro f hf
    rcases List.mem_cons.1 hf with rfl | hf
    · simp only [List.any_eq_true, bne_iff_ne, ne_eq, not_exists, not_and, not_not] at h1
      simp only [List.all_eq_true] at h3
      exact ⟨h1, by simpa using h2, h3⟩
    · exact chainCompatible_spec f0 ntasks rest h f hf

theorem streamDecision_spec {fActions : List Nat} (h : streamDecision set fActions = .ok true) :
    ChainConditions set fActions := by
  cases fActions with
  | nil => simp [streamDecision] at h
  | cons f0 rest =>
    simp only [streamDecision] at h
    split_ifs at h with h1
    simp only [Except.ok.injEq] at h
    have hrest := chainCompatible_spec set f0 _ rest h
    simp only [List.any_eq_true, bne_iff_ne, ne_eq, not_exists, not_and, not_not] at h1
    refine ⟨fun f hf v hv => ?_, fun f hf => (hrest f hf).2.1, fun f hf d hd => ?_⟩
    · rcases List.mem_cons.1 hf with rfl | hf
      · exact h1 v hv
      · exact (hrest f hf).1 v hv
    · exact (foundBefore_iff _ _ set).1 ((hrest f hf).2.2 d hd)

theorem getD_mem_drop {args : List Value} {start i : Nat} (hs : start ≤ i) (hi : i < args.length) :
    args.getD i default ∈ args.drop start := by
  have hlt : i - start < (args.drop start).length := by rw [List.length_drop]; omega
  have he : (args.drop start)[i - start] = args.getD i default := by
    rw [List.getElem_drop, List.getD_eq_getElem _ _ hi]; congr 1; omega
  exact he ▸ List.getElem_mem hlt

theorem mem_buildRanked (args : List Value) (start : Nat) (built : List String) {i : Nat}
    (hs : start ≤ i) (hi : i < args.length) (hr : 0 < (args.getD i default).rank) (label : String) :
    storesFor label (buildRanked args start built) (args.getD i default) = true := by
  have hmem := getD_mem_drop hs hi
  simp only [storesFor, buildRanked, Bool.or_eq_true, List.elem_eq_mem, List.contains, decide_eq_true_eq,
    List.mem_append, List.mem_map, List.mem_filter]
  exact .inr (.inr ⟨_, ⟨hmem, by simpa using hr⟩, rfl⟩)

/-- After its main loop, for a caller that is not a later call from a non-`ActionWithValue`: every
rank > 0 argument from `argstart` on stores its data for the caller, or the caller streams them and
is an `ActionWithValue` or has the `SERIAL` keyword; and it streams only under `ChainConditions`. -/
theorem finishRequest_spec (c : Caller) (hc : c.firstcall = true ∨ c.thisAsActionWithValue = true)
    (args : List Value) (argstart : Nat) (storing : Bool) (st : LoopState) {r : Request}
    (h : finishRequest set c args argstart storing st = .ok r) :
    r.fActions = st.2.2 ∧
    (∀ i, argstart ≤ i → i < args.length → 0 < (args.getD i default).rank →
      storesFor c.label r.built (args.getD i default) = true ∨
        (r.doneOverStream = true ∧ (c.thisAsActionWithValue = true ∨ c.hasSerial = true))) ∧
    (r.doneOverStream = true → ChainConditions set r.fActions) := by
  unfold finishRequest at h
  by_cases h1 : (c.firstcall && !c.thisAsActionWithValue && !c.hasSerial) = true
  · rw [if_pos h1] at h
    cases h
    exact ⟨rfl, fun i _ hi hr => .inl (mem_buildRanked args 0 _ (Nat.zero_le i) hi hr _), by simp⟩
  rw [if_neg h1] at h
  by_cases h2 : (!c.firstcall && !c.thisAsActionWithValue) = true
  · exfalso
    revert hc h2; cases c.firstcall <;> cases c.thisAsActionWithValue <;> simp
  rw [if_neg h2] at h
  have hawv : c.thisAsActionWithValue = true ∨ c.hasSerial = true := by
    revert h1 h2; cases c.firstcall <;> cases c.thisAsActionWithValue <;> cases c.hasSerial <;> simp
  generalize hD : (if storing then .ok false else streamDecision set st.2.2 : Except String Bool) = D at h
  cases D with
  | error e => cases h
  | ok done =>
    cases done
    · simp only [Bool.false_eq_true, if_false, Except.ok.injEq] at h
      subst h
      exact ⟨rfl, fun i hs hi hr => .inl (mem_buildRanked args argstart _ hs hi hr _), by simp⟩
    · simp only [if_true, Except.ok.injEq] at h
      subst h
      have hdec : streamDecision set st.2.2 = .ok true := by
        cases storing
        · simpa using hD
        · simp at hD
      exact ⟨rfl, fun _ _ _ _ => .inr ⟨rfl, hawv⟩, fun _ => streamDecision_spec set hdec⟩

/-- Argument `i` makes `f` one of `f_actions`: a rank > 0, non-constant argument from `argstart` on
whose value is calculated by `f`, an action that is neither a setup action nor a `READ`. -/
def StreamedBy (argstart : Nat) (args : List Value) (f i : Nat) : Prop :=
  argstart ≤ i ∧ 0 < (args.getD i default).rank ∧ (args.getD i default).isConstant = false ∧
    f = (actionAt set (args.getD i default).action).actionThatCalculates ∧
    (actionAt set f).isActionSetup = false ∧ (actionAt set f).name ≠ "READ"

theorem argumentStep_fActions {c : Caller} {argstart : Nat} {storing : Bool} {args : List Value}
    {st st' : LoopState} {i : Nat} (h : argumentStep set c argstart storing args st i = .ok st') (f : Nat) :
    f ∈ st'.2.2 ↔ f ∈ st.2.2 ∨ StreamedBy set argstart args f i := by
  cases hsel : selectWithLabel set (labelOf (args.getD i default).name) with
  | none => simp only [argumentStep, hsel] at h; cases h
  | some action =>
    simp only [argumentStep, hsel] at h
    by_cases hi : i < argstart
    · rw [if_pos hi] at h
      cases h
      simp [StreamedBy, Nat.not_le.2 hi]
    · rw [if_neg hi] at h
      by_cases hr : 0 < (args.getD i default).rank
      · rw [if_pos hr] at h
        cases h
        simp only [StreamedBy, Nat.not_lt.1 hi, hr, true_and]
        split_ifs with hc
        · simp only [Bool.and_eq_true, Bool.not_eq_true', bne_iff_ne, ne_eq] at hc
          simp only [List.mem_append, List.mem_singleton]
          constructor
          · rintro (hf | rfl)
            · exact .inl hf
            · exact .inr ⟨hc.1.1.2, rfl, hc.1.1.1, hc.1.2⟩
          · rintro (hf | ⟨-, rfl, -, -⟩)
            · exact .inl hf
            · exact .inr rfl
        · simp only [Bool.and_eq_true, Bool.not_eq_true', bne_iff_ne, ne_eq, not_and, List.contains,
            List.elem_eq_mem, decide_eq_false_iff_not, not_not] at hc
          constructor
          · exact .inl
          · rintro (hf | ⟨hcst, rfl, hs, hn⟩)
            · exact hf
            · by_contra hm
              exact hm (hc ⟨⟨hs, hcst⟩, hn⟩)
      · rw [if_neg hr] at h
        cases h
        simp only [StreamedBy, hr, false_and, and_false, or_false]

theorem foldlM_argumentStep_fActions {c : Caller} {argstart : Nat} {storing : Bool} {args : List Value}
    (f : Nat) : ∀ (L : List Nat) (st st' : LoopState),
      L.foldlM (argumentStep set c argstart storing args) st = .ok st' →
        (f ∈ st'.2.2 ↔ f ∈ st.2.2 ∨ ∃ i ∈ L, StreamedBy set argstart args f i)
  | [], st, st', h => by cases h; simp
  | i :: L, st, st', h => by
    rw [List.foldlM_cons] at h
    cases hs : argumentStep set c argstart storing args st i with
    | error e => rw [hs] at h; cases h
    | ok s =>
      rw [hs] at h
      rw [foldlM_argumentStep_fActions f L s st' h, argumentStep_fActions set hs]
      simp only [List.mem_cons, exists_eq_or_imp, or_assoc]

theorem mem_ite_append {l : List String} {x y : String} {c : Prop} [Decidable c] (hx : x ∈ l) :
    x ∈ (if c then l ++ [y] else l) := by
  split_ifs <;> simp [hx]

theorem argumentStep_built {c : Caller} {argstart : Nat} {storing : Bool} {args : List Value}
    {st st' : LoopState} {i : Nat} (h : argumentStep set c argstart storing args st i = .ok st') :
    (∀ x ∈ st.2.1, x ∈ st'.2.1) ∧ (storing = true → argstart ≤ i → (args.getD i default).name ∈ st'.2.1) := by
  cases hsel : selectWithLabel set (labelOf (args.getD i default).name) with
  | none => simp only [argumentStep, hsel] at h; cases h
  | some action =>
    simp only [argumentStep, hsel] at h
    have hn : ∀ l : List String, (args.getD i default).name ∈ l ++ [(args.getD i default).name] :=
      fun _ => List.mem_append_right _ (List.mem_singleton_self _)
    by_cases hi : i < argstart
    · rw [if_pos hi] at h
      cases h
      exact ⟨fun _ hx => mem_ite_append hx, fun _ hle => absurd hle (Nat.not_le.2 hi)⟩
    · rw [if_neg hi] at h
      split at h <;> cases h
      · refine ⟨fun _ hx => mem_ite_append (mem_ite_append (mem_ite_append hx)), fun hs _ => mem_ite_append ?_⟩
        rw [if_pos hs]
        exact hn _
      · exact ⟨fun _ hx => List.mem_append_left _ (mem_ite_append (mem_ite_append hx)), fun _ _ => hn _⟩

theorem foldlM_argumentStep_built {c : Caller} {argstart : Nat} {storing : Bool} {args : List Value} :
    ∀ (L : List Nat) (st st' : LoopState), L.foldlM (argumentStep set c argstart storing args) st = .ok st' →
      (∀ x ∈ st.2.1, x ∈ st'.2.1) ∧
        (storing = true → ∀ i ∈ L, argstart ≤ i → (args.getD i default).name ∈ st'.2.1)
  | [], st, st', h => by cases h; simp
  | i :: L, st, st', h => by
    rw [List.foldlM_cons] at h
    cases hs : argumentStep set c argstart storing args st i with
    | error e => rw [hs] at h; cases h
    | ok s =>
      rw [hs] at h
      obtain ⟨hm, hi⟩ := argumentStep_built set hs
      obtain ⟨hm', hL⟩ := foldlM_argumentStep_built L s st' h
      refine ⟨fun x hx => hm' x (hm x hx), fun hst j hj hj' => ?_⟩
      rcases List.mem_cons.1 hj with rfl | hj
      · exact hm' _ (hi hst hj')
      · exact hL hst j hj hj'

theorem argumentStep_dependencies_lt {c : Caller} {argstart : Nat} {storing : Bool} {args : List Value}
    {st st' : LoopState} {i : Nat} (hst : ∀ d ∈ st.1, d < set.length)
    (h : argumentStep set c argstart storing args st i = .ok st') : ∀ d ∈ st'.1, d < set.length := by
  cases hsel : selectWithLabel set (labelOf (args.getD i default).name) with
  | none => simp only [argumentStep, hsel] at h; cases h
  | some action =>
    have hext : st'.1 = st.1 ∨ st'.1 = st.1 ++ [action] := by
      simp only [argumentStep, hsel] at h
      by_cases hi : i < argstart
      · rw [if_pos hi] at h
        cases h
        exact ite_eq_or_eq _ _ _
      · rw [if_neg hi] at h
        split at h <;> cases h <;> exact (ite_eq_or_eq _ _ _).symm
    intro d hd
    rcases hext with he | he <;> rw [he] at hd
    · exact hst d hd
    · rcases List.mem_append.1 hd with hd | hd
      · exact hst d hd
      · exact List.mem_singleton.1 hd ▸ selectWithLabel_lt hsel

theorem finishRequest_dependencies (c : Caller) (args : List Value) (argstart : Nat) (storing : Bool)
    (st : LoopState) {r : Request} (h : finishRequest set c args argstart storing st = .ok r) :
    r.dependencies = st.1 := by
  unfold finishRequest at h
  generalize (if storing then .ok false else streamDecision set st.2.2 : Except String Bool) = D at h
  split_ifs at h
  · cases h; rfl
  · cases h; rfl
  · cases D with
    | error e => cases h
    | ok done => cases done <;> cases h <;> rfl

theorem requestArguments_dependencies_lt (c : Caller) (args : List Value) (allowStreams : Bool)
    (argstart : Nat) {r : Request} (h : requestArguments set c args allowStreams argstart = .ok r) :
    ∀ d ∈ r.dependencies, d < set.length := by
  rcases requestArguments_cases set h with ⟨-, rfl⟩ | ⟨-, st, hl, hfin⟩
  · simp
  · rw [finishRequest_dependencies set c args argstart _ st hfin]
    exact foldlM_except_invariant (fun st : LoopState => ∀ d ∈ st.1, d < set.length) _
      (fun _ _ _ hs hstep => argumentStep_dependencies_lt set hs hstep) _ _ _ (by simp) hl

/-- `requestArguments`, for every action set, caller, argument list, `allow_streams` and
`argstart`: `f_actions` are the actions calculating its streamed arguments; afterwards every rank > 0
argument from `argstart` on stores its data for the caller, or `done_over_stream` holds and the
caller is an `ActionWithValue` (or has the `SERIAL` keyword, the code's test for one whose
constructor is running), or the call is a later call from an action that is not an
`ActionWithValue`, with `allow_streams`, on a non-constant argument, and no argument from `argstart`
on always stores unless it is constant or computed by a setup action. Such a later call leaves
`done_over_stream` false, and `done_over_stream` holds only under `ChainConditions`, whose last
condition lets a dependency of `f_actions[1..]` be `f_actions[0]` itself. -/
theorem requestArguments_streamOrStore (c : Caller) (args : List Value) (allowStreams : Bool) (argstart : Nat)
    {r : Request} (h : requestArguments set c args allowStreams argstart = .ok r) :
    (∀ f, f ∈ r.fActions ↔ ∃ i < args.length, StreamedBy set argstart args f i) ∧
    (∀ i, argstart ≤ i → i < args.length → 0 < (args.getD i default).rank →
      storesFor c.label r.built (args.getD i default) = true ∨
        (r.doneOverStream = true ∧ (c.thisAsActionWithValue = true ∨ c.hasSerial = true)) ∨
        (c.firstcall = false ∧ c.thisAsActionWithValue = false ∧ allowStreams = true ∧
          (args.getD i default).isConstant = false ∧ ∀ v ∈ args.drop argstart,
            v.alwaysstore = true → v.isConstant = true ∨ (actionAt set v.action).isActionSetup = true)) ∧
    (c.firstcall = false → c.thisAsActionWithValue = false → args ≠ [] → r.doneOverStream = false) ∧
    (r.doneOverStream = true → ChainConditions set r.fActions) := by
  rcases requestArguments_cases set h with ⟨rfl, rfl⟩ | ⟨-, st, hl, hfin⟩
  · exact ⟨by simp, fun i _ hi => absurd hi (by simp), fun _ _ hne => absurd rfl hne,
      fun _ => ⟨by simp, by simp, by simp⟩⟩
  have hf : ∀ f, f ∈ st.2.2 ↔ ∃ i < args.length, StreamedBy set argstart args f i := fun f => by
    rw [foldlM_argumentStep_fActions set f _ _ _ hl]
    simp
  by_cases hc : c.firstcall = true ∨ c.thisAsActionWithValue = true
  · obtain ⟨hr, hs, hd⟩ := finishRequest_spec set c hc args argstart _ st hfin
    refine ⟨hr ▸ hf, fun i h1 h2 h3 => (hs i h1 h2 h3).imp_right .inl, fun h1 h2 _ => ?_, hd⟩
    simp [h1, h2] at hc
  -- a later call from an action that is not an `ActionWithValue` returns after the main loop
  simp only [not_or, Bool.not_eq_true] at hc
  have hr : r = ⟨st.2.1, st.1, st.2.2, false, [], c.argDerivStarts⟩ := by
    simpa [finishRequest, hc.1, hc.2] using hfin.symm
  subst hr
  obtain ⟨hmono, hstoring⟩ := foldlM_argumentStep_built set _ _ _ hl
  refine ⟨hf, fun i hs hi _ => ?_, fun _ _ _ => rfl, fun h => absurd h Bool.false_ne_true⟩
  cases hsto : (storingLoop set allowStreams (args.drop argstart) true []).1
  · obtain ⟨ha, -, hconst⟩ := storingLoop_false set hsto _ (getD_mem_drop hs hi)
    cases hk : (args.getD i default).isConstant
    · exact .inr (.inr ⟨hc.1, hc.2, ha, rfl, fun v hv => (storingLoop_false set hsto v hv).2.1⟩)
    · exact .inl (storesFor_of_mem (hmono _ (hconst hk)))
  · exact .inl (storesFor_of_mem (hstoring hsto i (List.mem_range.2 hi) hs))

end Decision

/-! ## Arguments read from a stash -/

section Stream

variable {R : Type} [Semiring R]

/-- `ActionWithArguments::getArgumentPositionInStream` for argument `v` of the action labelled
`label`: a value that stores its data for the action seeds the derivative `1` of its stash at the
element the task reads (the task index for a vector or matrix that is not a time series, `0`
otherwise), registers that index if the stash had none, and returns the stash; any other value
returns its own stream position. -/
def getArgumentPositionInStream (label : String) (v : Value) (mv : MultiValue R) : Nat × MultiValue R :=
  match v.storeDataFor.find? (·.1 == label) with
  | some (_, istrn) =>
    let taskIndex := if 0 < v.rank && !v.isTimeSeries then mv.taskIndex else 0
    let mv := mv.addDerivative istrn taskIndex 1
    (istrn, if mv.getNumberActive istrn == 0 then mv.updateIndex istrn taskIndex else mv)
  | none => (v.positionInStream, mv)

end Stream

/-! ## Two actions on the same tasks, the second computed from the first -/

/-- The value of `a`: a vector of five elements over five tasks. -/
def valueA : Value :=
  { name := "a", action := 0, rank := 1, isConstant := false, alwaysstore := false, isTimeSeries := false,
    numberOfValues := 5, ntasks := 5, storeDataFor := [], positionInStream := 0 }

/-- The value of `b`, on the same five tasks. -/
def valueB : Value := { valueA with name := "b", action := 1, positionInStream := 1 }

/-- `a: DISTANCE` at position 0 and `b: CUSTOM ARG=a` at position 1, so that `b` depends on `a`. -/
def dependentPair : List Action :=
  [{ label := "a", name := "DISTANCE", isActionWithValue := true, isActionWithArguments := false,
     isActionAtomistic := true, isActionSetup := false, isAverageBase := false, components := [valueA],
     arguments := [], dependencies := [], doneOverStream := false, actionThatCalculates := 0,
     allActionsRequired := [], numberOfDerivatives := 3 },
   { label := "b", name := "CUSTOM", isActionWithValue := true, isActionWithArguments := true,
     isActionAtomistic := false, isActionSetup := false, isAverageBase := false, components := [valueB],
     arguments := [valueA], dependencies := [0], doneOverStream := false, actionThatCalculates := 1,
     allActionsRequired := [], numberOfDerivatives := 5 }]

/-- The constructor of an `ActionWithValue` labelled `c` requesting its arguments. -/
def pairCaller : Caller :=
  { label := "c", self := none, thisAsActionWithValue := true, hasSerial := true, firstcall := true,
    doneOverStream := false, distinctArguments := [], argDerivStarts := [] }

/-- The constructor of `c` streams `a` and `b`: the conditions hold for `f_actions = [a, b]`. -/
theorem requestArguments_streamOrStore_pair : ChainConditions dependentPair [0, 1] :=
  (requestArguments_streamOrStore dependentPair pairCaller [valueA, valueB] true 0
    (r := ⟨[], [0, 1], [0, 1], true, [(0, 0), (1, 0)], [0, 3]⟩) rfl).2.2.2 rfl

/-- `c` asks for the values of `a` and of `b`. Its constructor streams them, with `f_actions = [a, b]`,
although the dependency `a` of `b` is `f_actions[0]` itself and does not precede it; and a later call
from an action that is not an `ActionWithValue` neither streams them nor stores them for it. -/
theorem requestArguments_dependencyIsFirst :
    (∃ r, requestArguments dependentPair pairCaller [valueA, valueB] true 0 = .ok r ∧
      r.doneOverStream = true ∧ r.fActions = [0, 1] ∧ (actionAt dependentPair 1).dependencies = [0]) ∧
    ∃ r, requestArguments dependentPair { pairCaller with thisAsActionWithValue := false, firstcall := false }
      [valueA, valueB] true 0 = .ok r ∧ r.doneOverStream = false ∧
      storesFor "c" r.built valueA = false :=
  ⟨⟨_, rfl, rfl, rfl, rfl⟩, ⟨_, rfl, rfl, rfl⟩⟩


end Plumed.Core
