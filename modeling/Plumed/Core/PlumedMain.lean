/-
The action set that `PlumedMain::readInputWords` builds, line by line, shortcut expansions
included: every action is appended after the actions it was built from, its arguments are
components of actions already in the set, and its dependencies are positions found in the set. So
every argument and every dependency points to an earlier action (`Ordered`), the dependency
relation is acyclic, `justCalculate` calculates every active action after the active actions it
reads, `backwardPropagate` applies its forces before theirs, and `getFirstNonStream` returns within
as many steps as there are actions before it.

The proof is the invariant `Ordered`, kept by every line read: label resolution returns components
of actions already in the set, `requestArguments` records only positions found in it, and a new
action goes to the end.
-/
import Plumed.Core.ActionWithArguments
import Mathlib.Logic.Relation

namespace Plumed.Core

/-! ## Reading argument labels -/

section Interpret

variable (set : List Action)

/-- The components of every action with values in the set, in order. -/
def allComponents : List Value :=
  (List.range set.length).flatMap fun p =>
    if (actionAt set p).isActionWithValue then (actionAt set p).components else []

/-- The error of a wildcard when no action of the set has values. -/
def noValues : Bool := set.all (!·.isActionWithValue)

/-- The component named `c` of the action labelled `a`, as `selectWithLabel<ActionWithValue*>` and
`copyOutput` find it; the error names `name`. The hints that follow the errors in the code are not
modelled. -/
def componentOf (a c name : String) : Except String (List Value) :=
  match selectWithLabel set a with
  | none => .error ("cannot find action named " ++ a)
  | some p =>
    if !(actionAt set p).isActionWithValue then .error ("cannot find action named " ++ a)
    else match (actionAt set p).components.find? (·.name == c) with
      | none => .error ("action " ++ a ++ " has no component named " ++ name)
      | some v => .ok [v]

/-- The text after the first `.` of a name. -/
def componentPart (c : String) : String := String.mk ((c.toList.dropWhile (· ≠ '.')).drop 1)

/-- `*` and `*.*`: the components of every action with values. The filtering of interface actions
and of the actions a shortcut made is not modelled. -/
def everyComponent : Except String (List Value) :=
  if noValues set then .error "your input file is not telling plumed to calculate anything"
  else .ok (allComponents set)

/-- `a.*`: every component of the action labelled `a`. -/
def componentsOf (a : String) : Except String (List Value) :=
  match selectWithLabel set a with
  | none => .error ("cannot find action named " ++ a)
  | some p =>
    if !(actionAt set p).isActionWithValue then .error ("cannot find action named " ++ a)
    else if (actionAt set p).components = [] then
      .error ("found " ++ a ++ ".* indicating use all components calculated by action with label " ++ a ++
        " but this action has no components")
    else .ok (actionAt set p).components

/-- `*.name`: the component `label.name` of every action with values that has one. -/
def componentsNamed (name : String) : List Value :=
  (List.range set.length).flatMap fun p =>
    if (actionAt set p).isActionWithValue then
      ((actionAt set p).components.find? (·.name == (actionAt set p).label ++ "." ++ name)).toList
    else []

/-- A label with a dot, `a.name`. -/
def interpretDotted (c : String) : Except String (List Value) :=
  let a := labelOf c
  let name := componentPart c
  if a == "*" && name == "*" then everyComponent set
  else if name == "*" then componentsOf set a
  else if a == "*" then
    if noValues set then .error "your input file is not telling plumed to calculate anything"
    else if componentsNamed set name = [] then .error ("found no actions with a component called " ++ name)
    else .ok (componentsNamed set name)
  else componentOf set a c name

/-- The label names an `ActionSetup` with values but no components, and the reader is a `PRINT`:
the label is skipped. -/
def skipsSetup (actionName c : String) : Bool :=
  match selectWithLabel set c with
  | some p => (actionAt set p).isActionSetup && (actionAt set p).isActionWithValue &&
      (actionAt set p).components.isEmpty && actionName == "PRINT"
  | none => false

/-- `ActionWithArguments::interpretArgumentList` on one argument label `c` of an action named
`actionName`, for a build without regular expressions. Shortcut labels (`interpretDataLabel`) are
not modelled: they too select values of actions in the set. -/
def interpretName (actionName c : String) : Except String (List Value) :=
  if skipsSetup set actionName c then .ok []
  else if c.toList.head? == some '(' then
    if c.toList.getLast? == some ')' then .error "Regexp support not compiled!"
    else .error ("did you want to use regexp to input arguments? enclose it between two round braces (...) " ++
      "with no spaces!")
  else if '.' ∈ c.toList then interpretDotted set c
  else if c == "*" then everyComponent set
  else componentOf set c c c

/-- `interpretArgumentList`: the values of every label, in order. -/
def interpretArgumentList (actionName : String) (names : List String) : Except String (List Value) :=
  names.foldlM (fun arg c => (interpretName set actionName c).map (arg ++ ·)) []

end Interpret

/-! ## `readInputWords` -/

/-- Modelled from the spec: what the action register makes of an input line (the register and the
keyword parsing are not among the sources): a shortcut, with the lines it expands to, or an action,
with everything it is apart from its place in the set, the labels of its `ARG` keyword and the
`allow_streams` and `argstart` of the `requestArguments` call of its constructor. -/
inductive Directive where
  | shortcut (label : String) (lines : List (List String))
  | action (proto : Action) (argNames : List String) (allowStreams : Bool) (argstart : Nat)

/-- A shortcut as it stands in the set: a label, no values, no arguments, no dependencies. -/
def shortcutAction (label : String) : Action := { (default : Action) with label := label }

/-- The action built from `proto` at the end of `set`: its components are owned by their new
position; its constructor, running while the action is not yet in the set and before its
`ActionWithValue` part exists, requests the arguments. -/
def construct (set : List Action) (proto : Action) (argNames : List String) (allowStreams : Bool)
    (argstart : Nat) : Except String Action := do
  let args ← interpretArgumentList set proto.name argNames
  let r ← requestArguments set
    ⟨proto.label, none, false, proto.isActionWithValue, true, false, [], []⟩ args allowStreams argstart
  pure { proto with components := proto.components.map ({ · with action := set.length }),
                    arguments := args, dependencies := r.dependencies, doneOverStream := r.doneOverStream }

/-- `PlumedMain::readInputWords` with the action register `register` (which receives the words after
`Tools::interpretLabel`); `fuel` bounds the depth of shortcut expansion, which reads its lines
through `readInputWords` before the shortcut is added. The suffix that `_SET_SUFFIX` sets is not
modelled. -/
def readInputWords (register : List String → Option Directive) : Nat → List Action → List String →
    Except String (List Action)
  | 0, _, _ => .error "shortcut expansion too deep"
  | _ + 1, set, [] => .ok set
  | fuel + 1, set, w :: rest =>
    if w == "_SET_SUFFIX" then
      if rest.length == 1 then .ok set else .error "assertion failed words.size()==2"
    else match register (w :: rest) with
      | none => .error ("ERROR\nI cannot understand line: " ++ " ".intercalate (w :: rest) ++
          "\nMaybe a missing space or a typo?")
      | some (.shortcut label lines) => do
        let set ← lines.foldlM (readInputWords register fuel) set
        pure (set ++ [shortcutAction label])
      | some (.action proto argNames allowStreams argstart) => do
        let a ← construct set proto argNames allowStreams argstart
        pure (set ++ [a])

/-- The loop of `PlumedMain::justCalculate` over the action set, `iaction` counting the positions:
the positions of the active actions it calculates, in order. -/
def calculateLoop (isActive : Nat → Bool) : Nat → List Action → List Nat
  | _, [] => []
  | iaction, _ :: rest => (if isActive iaction then [iaction] else []) ++ calculateLoop isActive (iaction + 1) rest

/-- `PlumedMain::justCalculate`: the actions it calculates, in order; none when PLUMED is not active. -/
def justCalculate (set : List Action) (active : Bool) (isActive : Nat → Bool) : List Nat :=
  if active then calculateLoop isActive 0 set else []

/-- The loop of `PlumedMain::backwardPropagate` from `actionSet.rbegin()` to `actionSet.rend()`, over
the reversed set: `pos` is the position of the action the reverse iterator points to. -/
def applyLoop (isActive : Nat → Bool) : Nat → List Action → List Nat
  | _, [] => []
  | pos, _ :: rest => (if isActive pos then [pos] else []) ++ applyLoop isActive (pos - 1) rest

/-- `PlumedMain::backwardPropagate`: the actions it applies, in order; none when PLUMED is not
active. -/
def backwardPropagate (set : List Action) (active : Bool) (isActive : Nat → Bool) : List Nat :=
  if active then applyLoop isActive (set.length - 1) set.reverse else []

theorem calculateLoop_eq (isActive : Nat → Bool) :
    ∀ (iaction : Nat) (l : List Action), calculateLoop isActive iaction l = (List.range' iaction l.length).filter isActive
  | _, [] => rfl
  | i, _ :: rest => by
    rw [calculateLoop, calculateLoop_eq isActive (i + 1) rest, List.length_cons, List.range'_succ, List.filter_cons]
    cases isActive i <;> rfl

theorem applyLoop_append (isActive : Nat → Bool) (a : Action) :
    ∀ (pos : Nat) (l : List Action), applyLoop isActive pos (l ++ [a]) =
      applyLoop isActive pos l ++ if isActive (pos - l.length) then [pos - l.length] else []
  | pos, [] => by simp [applyLoop]
  | pos, _ :: l => by
    rw [List.cons_append, applyLoop, applyLoop, applyLoop_append isActive a (pos - 1) l, List.append_assoc,
      List.length_cons, Nat.sub_sub, Nat.add_comm 1]

/-- The reverse-iterator loop over a set visits the positions the forward loop visits, backwards. -/
theorem applyLoop_reverse (isActive : Nat → Bool) :
    ∀ (l : List Action) (p : Nat), applyLoop isActive (p + l.length - 1) l.reverse = (calculateLoop isActive p l).reverse
  | [], _ => rfl
  | a :: l, p => by
    have hpos : p + (l.length + 1) - 1 = p + 1 + l.length - 1 := by omega
    have hlast : p + 1 + l.length - 1 - l.length = p := by omega
    rw [List.reverse_cons, applyLoop_append, List.length_reverse, List.length_cons, hpos, hlast,
      applyLoop_reverse isActive l (p + 1), calculateLoop, List.reverse_append]
    cases isActive p <;> rfl

theorem justCalculate_eq (set : List Action) (active : Bool) (isActive : Nat → Bool) :
    justCalculate set active isActive = if active then (List.range set.length).filter isActive else [] := by
  rw [justCalculate, calculateLoop_eq, List.range_eq_range']

theorem backwardPropagate_eq (set : List Action) (active : Bool) (isActive : Nat → Bool) :
    backwardPropagate set active isActive = if active then (List.range set.length).reverse.filter isActive else [] := by
  have h := applyLoop_reverse isActive set 0
  rw [Nat.zero_add, calculateLoop_eq, ← List.range_eq_range', ← List.filter_reverse] at h
  rw [backwardPropagate, h]

/-- The backward loop applies exactly the actions the forward loop calculates, in the reverse order:
the reverse iterator visits the positions the forward loop counts, backwards. -/
theorem backwardPropagate_eq_reverse (set : List Action) (active : Bool) (isActive : Nat → Bool) :
    backwardPropagate set active isActive = (justCalculate set active isActive).reverse := by
  unfold backwardPropagate justCalculate
  split
  · simpa using applyLoop_reverse isActive set 0
  · rfl

/-! ## The ordering invariant -/

/-- The positions whose values an action reads: the owners of its arguments, and its
dependencies. -/
def Action.refs (a : Action) : List Nat := a.arguments.map (·.action) ++ a.dependencies

/-- The action at `p` reads the values of, or depends on, the action at `q`. -/
def DependsOn (set : List Action) (p q : Nat) : Prop := q ∈ (actionAt set p).refs

instance (set : List Action) (p q : Nat) : Decidable (DependsOn set p q) :=
  inferInstanceAs (Decidable (q ∈ _))

/-- The invariant of the action set: every action owns its components, reads only values of earlier
actions, depends only on earlier actions, and streams only when it has arguments. -/
structure Ordered (set : List Action) : Prop where
  owners : ∀ p < set.length, ∀ v ∈ (actionAt set p).components, v.action = p
  arguments : ∀ p < set.length, ∀ v ∈ (actionAt set p).arguments, v.action < p
  dependencies : ∀ p < set.length, ∀ d ∈ (actionAt set p).dependencies, d < p
  streams : ∀ p < set.length, (actionAt set p).doneOverStream = true → (actionAt set p).arguments ≠ []

theorem ordered_nil : Ordered [] := ⟨nofun, nofun, nofun, nofun⟩

theorem actionAt_append_lt {set : List Action} {p : Nat} (a : Action) (h : p < set.length) :
    actionAt (set ++ [a]) p = actionAt set p := List.getD_append _ _ _ _ h

@[simp] theorem actionAt_append_length (set : List Action) (a : Action) :
    actionAt (set ++ [a]) set.length = a := by
  simp [actionAt, List.getD_append_right]

theorem forall_actionAt_append {set : List Action} {a : Action} {P : Nat → Action → Prop}
    (hs : ∀ p < set.length, P p (actionAt set p)) (ha : P set.length a) :
    ∀ p < (set ++ [a]).length, P p (actionAt (set ++ [a]) p) := by
  intro p hp
  rw [List.length_append, List.length_singleton] at hp
  rcases Nat.lt_succ_iff_lt_or_eq.1 hp with hp | rfl
  · rw [actionAt_append_lt a hp]; exact hs p hp
  · rw [actionAt_append_length]; exact ha

theorem Ordered.append {set : List Action} {a : Action} (hs : Ordered set)
    (hown : ∀ v ∈ a.components, v.action = set.length) (hargs : ∀ v ∈ a.arguments, v.action < set.length)
    (hdeps : ∀ d ∈ a.dependencies, d < set.length) (hstr : a.doneOverStream = true → a.arguments ≠ []) :
    Ordered (set ++ [a]) :=
  ⟨forall_actionAt_append (P := fun p a => ∀ v ∈ a.components, v.action = p) hs.owners hown,
    forall_actionAt_append (P := fun p a => ∀ v ∈ a.arguments, v.action < p) hs.arguments hargs,
    forall_actionAt_append (P := fun p a => ∀ d ∈ a.dependencies, d < p) hs.dependencies hdeps,
    forall_actionAt_append (P := fun _ a => a.doneOverStream = true → a.arguments ≠ []) hs.streams hstr⟩

/-! ## Each line keeps the invariant -/

section Step

variable {set : List Action}

/-- `v` is a component of an action of the set. -/
def IsComponent (set : List Action) (v : Value) : Prop := ∃ p < set.length, v ∈ (actionAt set p).components

theorem isComponent_allComponents {v : Value} (h : v ∈ allComponents set) : IsComponent set v := by
  simp only [allComponents, List.mem_flatMap, List.mem_range] at h
  obtain ⟨p, hp, hv⟩ := h
  split at hv
  · exact ⟨p, hp, hv⟩
  · cases hv

theorem isComponent_componentOf {a c name : String} {vs : List Value} (h : componentOf set a c name = .ok vs) :
    ∀ v ∈ vs, IsComponent set v := by
  unfold componentOf at h
  split at h
  · cases h
  · rename_i p hp
    split_ifs at h
    split at h
    · cases h
    · rename_i w hw
      cases h
      intro v hv
      rw [List.mem_singleton.1 hv]
      exact ⟨p, selectWithLabel_lt hp, List.mem_of_find?_eq_some hw⟩

theorem isComponent_everyComponent {vs : List Value} (h : everyComponent set = .ok vs) :
    ∀ v ∈ vs, IsComponent set v := by
  unfold everyComponent at h
  split_ifs at h
  cases h
  exact fun v => isComponent_allComponents

theorem isComponent_componentsOf {a : String} {vs : List Value} (h : componentsOf set a = .ok vs) :
    ∀ v ∈ vs, IsComponent set v := by
  unfold componentsOf at h
  split at h
  · cases h
  · rename_i p hp
    split_ifs at h
    cases h
    exact fun v hv => ⟨p, selectWithLabel_lt hp, hv⟩

theorem isComponent_componentsNamed {name : String} {v : Value} (h : v ∈ componentsNamed set name) :
    IsComponent set v := by
  simp only [componentsNamed, List.mem_flatMap, List.mem_range] at h
  obtain ⟨p, hp, hv⟩ := h
  split at hv
  · exact ⟨p, hp, List.mem_of_find?_eq_some (Option.mem_toList.1 hv)⟩
  · cases hv

theorem isComponent_interpretDotted {c : String} {vs : List Value} (h : interpretDotted set c = .ok vs) :
    ∀ v ∈ vs, IsComponent set v := by
  unfold interpretDotted at h
  dsimp only at h
  split_ifs at h
  · exact isComponent_everyComponent h
  · exact isComponent_componentsOf h
  · cases h; exact fun v => isComponent_componentsNamed
  · exact isComponent_componentOf h

theorem isComponent_interpretName {actionName c : String} {vs : List Value}
    (h : interpretName set actionName c = .ok vs) : ∀ v ∈ vs, IsComponent set v := by
  unfold interpretName at h
  split_ifs at h
  · cases h; nofun
  · exact isComponent_interpretDotted h
  · exact isComponent_everyComponent h
  · exact isComponent_componentOf h

theorem isComponent_interpretArgumentList {actionName : String} {names : List String} {vs : List Value}
    (h : interpretArgumentList set actionName names = .ok vs) : ∀ v ∈ vs, IsComponent set v := by
  refine foldlM_except_invariant (fun vs => ∀ v ∈ vs, IsComponent set v) _ ?_ names [] vs (by simp) h
  intro arg c arg' harg hc
  cases hn : interpretName set actionName c with
  | error e => rw [hn] at hc; cases hc
  | ok vs =>
    rw [hn] at hc
    cases hc
    intro v hv
    rcases List.mem_append.1 hv with hv | hv
    · exact harg v hv
    · exact isComponent_interpretName hn v hv

/-- An action built at the end of an ordered set owns its components, reads values of the set,
depends on actions of the set, and streams only when it has arguments. -/
theorem construct_ordered (hs : Ordered set) {proto : Action} {argNames : List String} {allowStreams : Bool}
    {argstart : Nat} {a : Action} (h : construct set proto argNames allowStreams argstart = .ok a) :
    Ordered (set ++ [a]) := by
  obtain ⟨args, hargs, h⟩ := except_bind_eq_ok h
  obtain ⟨r, hr, h⟩ := except_bind_eq_ok h
  cases h
  refine hs.append (by simp) (fun v hv => ?_) (requestArguments_dependencies_lt set _ args _ _ hr)
    (fun hd hnil => ?_)
  · obtain ⟨p, hp, hvp⟩ := isComponent_interpretArgumentList hargs v hv
    exact hs.owners p hp v hvp ▸ hp
  · rcases requestArguments_cases set hr with ⟨-, rfl⟩ | ⟨hne, -⟩
    · cases hd
    · exact hne hnil

end Step

/-! ## Whole runs -/

/-- Every line `readInputWords` reads, shortcut expansions included, leaves an ordered set
ordered. -/
theorem readInputWords_ordered (register : List String → Option Directive) :
    ∀ (fuel : Nat) (set set' : List Action) (words : List String), Ordered set →
      readInputWords register fuel set words = .ok set' → Ordered set'
  | 0, _, _, _, _, h => by cases h
  | _ + 1, _, _, [], hs, h => by cases h; exact hs
  | fuel + 1, set, set', w :: rest, hs, h => by
    simp only [readInputWords] at h
    split_ifs at h
    · cases h; exact hs
    · split at h
      · cases h
      · obtain ⟨mid, hmid, h⟩ := except_bind_eq_ok h
        cases h
        exact (foldlM_except_invariant Ordered _ (fun s w s' => readInputWords_ordered register fuel s s' w)
          _ _ _ hs hmid).append nofun nofun nofun nofun
      · obtain ⟨a, ha, h⟩ := except_bind_eq_ok h
        cases h
        exact construct_ordered hs ha

theorem doneOverStream_of_mustBeTreatedAsDistinctArguments {set : List Action} {p : Nat}
    (h : mustBeTreatedAsDistinctArguments set p = false) : (actionAt set p).doneOverStream = true := by
  unfold mustBeTreatedAsDistinctArguments at h
  cases hd : (actionAt set p).doneOverStream
  · simp [hd] at h
  · rfl

theorem pair_sublist_range {q p n : Nat} (hqp : q < p) (hp : p < n) : [q, p].Sublist (List.range n) := by
  have h : [q, p].Sublist (List.range (p + 1)) := by
    rw [List.range_succ]
    exact (List.singleton_sublist.2 (List.mem_range.2 hqp)).append (List.Sublist.refl [p])
  exact h.trans (List.range_sublist.2 hp)

theorem pair_sublist_filter {a b : Nat} {l : List Nat} {f : Nat → Bool} (h : [a, b].Sublist l) (ha : f a = true)
    (hb : f b = true) : [a, b].Sublist (l.filter f) := by
  simpa [ha, hb] using h.filter f

section Order

variable {set : List Action} (hs : Ordered set)
include hs

theorem Ordered.dependsOn_lt {p q : Nat} (h : DependsOn set p q) : q < p := by
  by_cases hp : p < set.length
  · rcases List.mem_append.1 h with h | h
    · obtain ⟨v, hv, rfl⟩ := List.mem_map.1 h
      exact hs.arguments p hp v hv
    · exact hs.dependencies p hp q h
  · have hnil : (actionAt set p).refs = [] := by
      rw [actionAt, List.getD_eq_default _ _ (Nat.not_lt.1 hp)]; rfl
    rw [DependsOn, hnil] at h
    cases h

theorem Ordered.transGen_lt {p q : Nat} (h : Relation.TransGen (DependsOn set) p q) : q < p := by
  induction h with
  | single h => exact hs.dependsOn_lt h
  | tail _ h ih => exact lt_trans (hs.dependsOn_lt h) ih

/-- `justCalculate` calculates an action after every active action whose values it reads or on
which it depends, and `backwardPropagate` applies it before them. -/
theorem Ordered.calculationOrder {active : Bool} {isActive : Nat → Bool} {p q : Nat}
    (hp : p ∈ justCalculate set active isActive) (hq : isActive q = true) (hd : DependsOn set p q) :
    [q, p].Sublist (justCalculate set active isActive) ∧ [p, q].Sublist (backwardPropagate set active isActive) := by
  cases active
  · simp [justCalculate_eq] at hp
  · simp only [justCalculate_eq, backwardPropagate_eq, if_true, List.mem_filter, List.mem_range] at hp ⊢
    have hr := pair_sublist_range (hs.dependsOn_lt hd) hp.1
    exact ⟨pair_sublist_filter hr hq hp.2, pair_sublist_filter (List.reverse_sublist.2 hr) hp.2 hq⟩

/-- `getFirstNonStream` returns from every action that streams, with fuel one more than its
position: each step moves to the action of the first argument, which comes earlier and streams. -/
theorem Ordered.getFirstNonStream_isSome : ∀ (fuel p : Nat), p < set.length → p < fuel →
    (actionAt set p).doneOverStream = true → (getFirstNonStream set fuel p).isSome
  | 0, p, _, hf, _ => absurd hf (Nat.not_lt_zero p)
  | fuel + 1, p, hp, hf, hd => by
    obtain ⟨v, rest, heq⟩ := List.exists_cons_of_ne_nil (hs.streams p hp hd)
    have hq : v.action < p := hs.arguments p hp v (heq ▸ List.mem_cons_self v rest)
    simp only [getFirstNonStream, heq, List.headD_cons]
    split_ifs with h1 h2
    · rfl
    · rfl
    · simp only [Bool.or_eq_true, Bool.not_eq_true', not_or, Bool.not_eq_true] at h1
      exact Ordered.getFirstNonStream_isSome fuel v.action (by omega) (by omega)
        (doneOverStream_of_mustBeTreatedAsDistinctArguments h1.2)

end Order

/-- `readInputWords`, for every action register, every ordered starting set (the empty one
included) and every sequence of input lines, shortcut expansions included: every argument and every
dependency of an action points to an earlier action; so the dependency relation is acyclic,
`justCalculate` calculates every action after the active actions it reads, `backwardPropagate`
applies it before them, and `getFirstNonStream` returns, within the fuel `forcesAction` gives it,
from every action that streams (`mustBeTreatedAsDistinctArguments` does not recurse). -/
theorem readInputWords_dependencyOrder (register : List String → Option Directive) (fuel : Nat)
    (lines : List (List String)) {set₀ set : List Action} (h0 : Ordered set₀)
    (h : lines.foldlM (readInputWords register fuel) set₀ = .ok set) :
    (∀ p q, DependsOn set p q → q < p) ∧
    (∀ p, ¬ Relation.TransGen (DependsOn set) p p) ∧
    (∀ active isActive p q, p ∈ justCalculate set active isActive → isActive q = true → DependsOn set p q →
      [q, p].Sublist (justCalculate set active isActive) ∧ [p, q].Sublist (backwardPropagate set active isActive)) ∧
    (∀ p < set.length, (actionAt set p).doneOverStream = true → (getFirstNonStream set set.length p).isSome) := by
  have hs : Ordered set := foldlM_except_invariant Ordered _
    (fun s w s' => readInputWords_ordered register fuel s s' w) lines set₀ set h0 h
  exact ⟨fun _ _ => hs.dependsOn_lt, fun p hp => lt_irrefl p (hs.transGen_lt hp),
    fun _ _ _ _ => hs.calculationOrder, fun p hp => hs.getFirstNonStream_isSome set.length p hp hp⟩

/-! ## A shortcut expanding to two actions -/

/-- A register that knows `a: DISTANCE`, `b: CUSTOM ARG=a`, and the shortcut `p: PAIR`, which
expands to these two lines. -/
def pairRegister : List String → Option Directive
  | ["a:", "DISTANCE"] => some (.action (actionAt dependentPair 0) [] false 0)
  | ["b:", "CUSTOM", "ARG=a"] => some (.action (actionAt dependentPair 1) ["a"] true 0)
  | ["p:", "PAIR"] => some (.shortcut "p" [["a:", "DISTANCE"], ["b:", "CUSTOM", "ARG=a"]])
  | _ => none

/-- The set that reading `p: PAIR` leaves: `a`, then `b`, which streams `a`, then the shortcut. -/
def pairSet : List Action :=
  [actionAt dependentPair 0, { actionAt dependentPair 1 with doneOverStream := true }, shortcutAction "p"]

/-- Reading `p: PAIR`, `b` is calculated after `a` and has its forces applied before. -/
theorem readInputWords_dependencyOrder_pair :
    [0, 1].Sublist (justCalculate pairSet true (fun _ => true)) ∧
      [1, 0].Sublist (backwardPropagate pairSet true (fun _ => true)) :=
  (readInputWords_dependencyOrder pairRegister 2 [["p:", "PAIR"]] ordered_nil
    (show _ = Except.ok pairSet from rfl)).2.2.1 true (fun _ => true) 1 0
    (by decide) rfl (by decide)

end Plumed.Core
