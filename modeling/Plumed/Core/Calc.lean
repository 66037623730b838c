/-
One step of the calculation as `PlumedMain::calc` runs it: `prepareDependencies` switches every
action off and activates the pilots on step, `Action::activate` activating first, recursively, the
actions an action depends on; `justCalculate` then calculates the active actions in the order of
the set, and `backwardPropagate` applies their forces in the reverse order.

On every ordered set (`Ordered`, which `readInputWords` keeps) the activation leaves active exactly
the actions reachable through the dependencies from the pilots on step, so every dependency of an
active action is active (`prepareDependencies_active_iff`). When the calculation of each action
reads only the values of the actions it depends on, the forward loop leaves the values of the set
the unique solution of the dataflow equations of the step: each active action holds what it
computes from the values its dependencies hold at the end of the loop, every other action its old
value (`justCalculate_values`). When the `apply` of each action adds forces only to the actions it
depends on, no force reaches an action after it has applied its own
(`backwardPropagate_forcesFinal`). When each action applies by the chain rule, the forces the
backward loop leaves on the actions that depend on none do, along any displacement linearised
through the actions, the work the forces first put on the actions do (`backwardPropagate_adjoint`):
the proof is that this work, counted over the actions that have not yet passed their forces on, is
the same after every `apply`. Put together over the actions a step activates, the two loops are a
tangent and an adjoint pass: the forward loop run to first order and the backward loop run by the
chain rule satisfy the force round trip with no assumption on the displacement (`calc_roundTrip`).
-/
import Plumed.Core.PlumedMain
import Mathlib.Algebra.BigOperators.Group.Finset
import Mathlib.Algebra.BigOperators.Ring.List
import Mathlib.Algebra.Ring.Defs
import Mathlib.Tactic.Ring

namespace Plumed.Core

/-! ## Activation -/

/-- `d` is a dependency of the action at `p`: an edge along which activation spreads. -/
def DependencyOf (set : List Action) (p d : Nat) : Prop := d ∈ (actionAt set p).dependencies

instance (set : List Action) (p d : Nat) : Decidable (DependencyOf set p d) :=
  inferInstanceAs (Decidable (d ∈ _))

/-- Modelled from the spec (Action.cpp is not among the sources): `Action::activate` of the action
at `p` on the activity flags `act` of the set. An action that is not active activates the actions it
depends on, then itself; `fuel` bounds the depth of the recursion. -/
def activate (set : List Action) : Nat → List Bool → Nat → List Bool
  | 0, act, _ => act
  | fuel + 1, act, p =>
    if act.getD p false then act
    else ((actionAt set p).dependencies.foldl (activate set fuel) act).set p true

/-- What `PlumedMain::prepareDependencies` leaves: the activity flags of the actions, `active`,
whether `*stopFlag` is set to 1, and the actions given the `GRADIENTS` option. -/
structure Prepared where
  act : List Bool
  active : Bool
  stop : Bool
  gradients : List Nat

/-- `PlumedMain::prepareDependencies`. `pilots` are the positions of the pilots
(`actionSet.select<ActionPilot*>()`), `onStep` their `onStep()`, `inputsOnStep` the result of
`inputsAreActive()` and `needsGradients` the `checkNeedsGradients()` of each action. -/
def prepareDependencies (set : List Action) (pilots : List Nat) (onStep : Nat → Bool) (inputsOnStep : Bool)
    (needsGradients : Nat → Bool) : Prepared :=
  let act := pilots.foldl (fun act p => if onStep p then activate set set.length act p else act)
    (List.replicate set.length false)
  let active := pilots.any onStep
  ⟨act, active, !active && !inputsOnStep,
    (List.range set.length).filter fun p => act.getD p false && needsGradients p⟩

/-- Flags closed under the dependencies: every dependency of an active action is active. -/
def Closed (set : List Action) (act : List Bool) : Prop :=
  ∀ p d, act.getD p false = true → DependencyOf set p d → act.getD d false = true

theorem getD_set_true {act : List Bool} {p q : Nat} (hp : p < act.length) :
    (act.set p true).getD q false = true ↔ q = p ∨ act.getD q false = true := by
  simp only [List.getD_eq_getElem?_getD, List.getElem?_set]
  by_cases h : p = q
  · subst h; simp [hp]
  · simp [h, Ne.symm h]

theorem closed_reach {set : List Action} {act : List Bool} (hc : Closed set act) {p q : Nat}
    (hp : act.getD p false = true) (h : Relation.ReflTransGen (DependencyOf set) p q) :
    act.getD q false = true := by
  induction h with
  | refl => exact hp
  | tail _ hd ih => exact hc _ _ ih hd

theorem length_foldl {σ α : Type} {f : List σ → α → List σ} (hf : ∀ s a, (f s a).length = s.length) :
    ∀ (l : List α) (s : List σ), (l.foldl f s).length = s.length
  | [], _ => rfl
  | a :: l, s => (length_foldl hf l (f s a)).trans (hf s a)

theorem activate_length (set : List Action) :
    ∀ (fuel : Nat) (act : List Bool) (p : Nat), (activate set fuel act p).length = act.length
  | 0, _, _ => rfl
  | fuel + 1, act, p => by
    unfold activate
    split
    · rfl
    · rw [List.length_set, length_foldl (activate_length set fuel)]

theorem prepareDependencies_length (set : List Action) (pilots : List Nat) (onStep : Nat → Bool)
    (inputsOnStep : Bool) (needsGradients : Nat → Bool) :
    (prepareDependencies set pilots onStep inputsOnStep needsGradients).act.length = set.length := by
  refine (length_foldl (fun act p => ?_) pilots _).trans (List.length_replicate _ _)
  split
  · exact activate_length set _ act p
  · rfl

section Activation

variable {set : List Action}

/-- The loop of `Action::activate` over the dependencies, each activated from closed flags: the flags
of the actions reachable from any of them are raised, and the flags stay closed. -/
theorem foldl_activate {fuel : Nat}
    (ih : ∀ act d, Closed set act → act.length = set.length → d < set.length → d < fuel →
      Closed set (activate set fuel act d) ∧ ∀ q, (activate set fuel act d).getD q false = true ↔
        act.getD q false = true ∨ Relation.ReflTransGen (DependencyOf set) d q) :
    ∀ (l : List Nat) (act : List Bool), Closed set act → act.length = set.length →
      (∀ d ∈ l, d < set.length ∧ d < fuel) →
      Closed set (l.foldl (activate set fuel) act) ∧ ∀ q, (l.foldl (activate set fuel) act).getD q false = true ↔
        act.getD q false = true ∨ ∃ d ∈ l, Relation.ReflTransGen (DependencyOf set) d q
  | [], act, hc, _, _ => ⟨hc, fun q => by simp⟩
  | d :: l, act, hc, hlen, hl => by
    obtain ⟨hd, hdf⟩ := hl d (List.mem_cons_self d l)
    obtain ⟨hc1, hiff1⟩ := ih act d hc hlen hd hdf
    obtain ⟨hc2, hiff2⟩ := foldl_activate ih l _ hc1 ((activate_length set fuel act d).trans hlen)
      fun d' hd' => hl d' (List.mem_cons_of_mem d hd')
    refine ⟨hc2, fun q => ?_⟩
    rw [List.foldl_cons, hiff2, hiff1]
    simp only [List.mem_cons, or_and_right, exists_or, exists_eq_left, or_assoc]

variable (hs : Ordered set)
include hs

/-- `Action::activate` from closed flags, with fuel beyond the position: it raises the flags of the
actions reachable from `p` through the dependencies, and the flags stay closed. -/
theorem activate_spec : ∀ (fuel : Nat) (act : List Bool) (p : Nat), Closed set act → act.length = set.length →
    p < set.length → p < fuel →
    Closed set (activate set fuel act p) ∧ ∀ q, (activate set fuel act p).getD q false = true ↔
      act.getD q false = true ∨ Relation.ReflTransGen (DependencyOf set) p q
  | 0, _, p, _, _, _, hf => absurd hf (Nat.not_lt_zero p)
  | fuel + 1, act, p, hc, hlen, hp, hf => by
    unfold activate
    split_ifs with hact
    · exact ⟨hc, fun q => ⟨Or.inl, fun h => h.elim id (closed_reach hc hact)⟩⟩
    have hdeps : ∀ d ∈ (actionAt set p).dependencies, d < set.length ∧ d < fuel := fun d hd => by
      have := hs.dependencies p hp d hd
      omega
    obtain ⟨hc1, hiff1⟩ := foldl_activate (fun act d => activate_spec fuel act d) _ act hc hlen hdeps
    have hp1 : p < ((actionAt set p).dependencies.foldl (activate set fuel) act).length := by
      rw [length_foldl (activate_length set fuel), hlen]; exact hp
    refine ⟨fun r d hr hd => ?_, fun q => ?_⟩
    · rw [getD_set_true hp1] at hr ⊢
      rcases hr with rfl | hr
      · exact .inr ((hiff1 d).2 (.inr ⟨d, hd, .refl⟩))
      · exact .inr (hc1 r d hr hd)
    · rw [getD_set_true hp1, hiff1, Relation.ReflTransGen.cases_head_iff]
      simp only [DependencyOf, eq_comm (a := p)]
      tauto

/-- The loop of `prepareDependencies` over the pilots: it raises the flags of the actions reachable
from the pilots on step, and the flags stay closed. -/
theorem foldl_activatePilots (onStep : Nat → Bool) :
    ∀ (l : List Nat) (act : List Bool), (∀ r ∈ l, r < set.length) → Closed set act → act.length = set.length →
      let act' := l.foldl (fun act p => if onStep p then activate set set.length act p else act) act
      Closed set act' ∧ act'.length = set.length ∧ ∀ q, act'.getD q false = true ↔
        act.getD q false = true ∨ ∃ r ∈ l, onStep r = true ∧ Relation.ReflTransGen (DependencyOf set) r q
  | [], act, _, hc, hlen => ⟨hc, hlen, fun q => by simp⟩
  | r :: l, act, hl, hc, hlen => by
    have hr := hl r (List.mem_cons_self r l)
    obtain ⟨hc1, hlen1, hiff1⟩ : Closed set (if onStep r then activate set set.length act r else act) ∧
        (if onStep r then activate set set.length act r else act).length = set.length ∧
        ∀ q, (if onStep r then activate set set.length act r else act).getD q false = true ↔
          act.getD q false = true ∨ (onStep r = true ∧ Relation.ReflTransGen (DependencyOf set) r q) := by
      cases hon : onStep r
      · exact ⟨hc, hlen, fun q => by simp⟩
      · obtain ⟨hc1, hiff1⟩ := activate_spec hs set.length act r hc hlen hr hr
        exact ⟨hc1, (activate_length set _ act r).trans hlen, fun q => by simpa using hiff1 q⟩
    obtain ⟨hc2, hlen2, hiff2⟩ := foldl_activatePilots onStep l _ (fun r' h => hl r' (List.mem_cons_of_mem r h))
      hc1 hlen1
    refine ⟨hc2, hlen2, fun q => ?_⟩
    simp only [List.foldl_cons, hiff2, hiff1, List.mem_cons, or_and_right, exists_or, exists_eq_left, or_assoc]

theorem prepareDependencies_closed_iff (pilots : List Nat) (hpilots : ∀ r ∈ pilots, r < set.length)
    (onStep : Nat → Bool) (inputsOnStep : Bool) (needsGradients : Nat → Bool) :
    let act := (prepareDependencies set pilots onStep inputsOnStep needsGradients).act
    Closed set act ∧
      ∀ q, act.getD q false = true ↔ ∃ r ∈ pilots, onStep r = true ∧ Relation.ReflTransGen (DependencyOf set) r q := by
  have h0 : ∀ q, (List.replicate set.length false).getD q false = false := fun q => by
    rw [List.getD_eq_getElem?_getD, List.getElem?_replicate]; split <;> rfl
  obtain ⟨hc, -, hiff⟩ := foldl_activatePilots hs onStep pilots _ hpilots (fun p _ hp => by rw [h0] at hp; cases hp)
    (List.length_replicate _ _)
  exact ⟨hc, fun q => by simpa [h0] using hiff q⟩

/-- `prepareDependencies`, on every ordered set: the active actions are exactly those reachable
through the dependencies from a pilot on step, and every dependency of an active action is active. -/
theorem prepareDependencies_active_iff (pilots : List Nat) (hpilots : ∀ r ∈ pilots, r < set.length)
    (onStep : Nat → Bool) (inputsOnStep : Bool) (needsGradients : Nat → Bool) :
    (∀ q, (prepareDependencies set pilots onStep inputsOnStep needsGradients).act.getD q false = true ↔
      ∃ r ∈ pilots, onStep r = true ∧ Relation.ReflTransGen (DependencyOf set) r q) ∧
    ∀ p d, (prepareDependencies set pilots onStep inputsOnStep needsGradients).act.getD p false = true →
      DependencyOf set p d → (prepareDependencies set pilots onStep inputsOnStep needsGradients).act.getD d false = true :=
  (prepareDependencies_closed_iff hs pilots hpilots onStep inputsOnStep needsGradients).symm

end Activation

theorem ordered_dependentPair : Ordered dependentPair := ⟨by decide, by decide, by decide, by decide⟩

/-- With `b` a pilot on step, both `b` and `a` are activated. -/
theorem prepareDependencies_active_iff_pair :
    (∀ q, (prepareDependencies dependentPair [1] (fun _ => true) false fun _ => false).act.getD q false = true ↔
      ∃ r ∈ [1], (fun _ => true) r = true ∧ Relation.ReflTransGen (DependencyOf dependentPair) r q) ∧
    ∀ p d, (prepareDependencies dependentPair [1] (fun _ => true) false fun _ => false).act.getD p false = true →
      DependencyOf dependentPair p d →
        (prepareDependencies dependentPair [1] (fun _ => true) false fun _ => false).act.getD d false = true :=
  prepareDependencies_active_iff ordered_dependentPair [1] (by decide) _ false _

/-- The forward loop runs over the actions the activation raised: `justCalculate` skips every action
when no pilot is on step, and then no action is active. -/
theorem justCalculate_prepared {set : List Action} (hs : Ordered set) (pilots : List Nat)
    (hpilots : ∀ r ∈ pilots, r < set.length) (onStep : Nat → Bool) (inputsOnStep : Bool) (needsGradients : Nat → Bool) :
    let pr := prepareDependencies set pilots onStep inputsOnStep needsGradients
    justCalculate set pr.active (pr.act.getD · false) = (List.range set.length).filter (pr.act.getD · false) := by
  intro pr
  rw [justCalculate_eq]
  split
  · rfl
  · rename_i hact
    refine (List.filter_eq_nil_iff.2 fun q _ hq => hact ?_).symm
    obtain ⟨r, hr, hon, -⟩ := ((prepareDependencies_closed_iff hs pilots hpilots onStep inputsOnStep needsGradients).2 q).1
      (by simpa using hq)
    exact List.any_eq_true.2 ⟨r, hr, hon⟩

/-- The backward loop runs over the same actions, in the reverse order, whether or not a pilot is
on step. -/
theorem backwardPropagate_prepared {set : List Action} (hs : Ordered set) (pilots : List Nat)
    (hpilots : ∀ r ∈ pilots, r < set.length) (onStep : Nat → Bool) (inputsOnStep : Bool) (needsGradients : Nat → Bool) :
    let pr := prepareDependencies set pilots onStep inputsOnStep needsGradients
    backwardPropagate set pr.active (pr.act.getD · false) = backwardPropagate set true (pr.act.getD · false) := by
  intro pr
  have h : justCalculate set pr.active (pr.act.getD · false) = (List.range set.length).filter (pr.act.getD · false) :=
    justCalculate_prepared hs pilots hpilots onStep inputsOnStep needsGradients
  rw [justCalculate_eq] at h
  rw [backwardPropagate_eq, backwardPropagate_eq]
  split
  · rfl
  · rename_i hact
    rw [if_neg hact] at h
    rw [if_pos rfl, List.filter_reverse, ← h, List.reverse_nil]

/-! ## The forward loop on values -/

section Forward

variable {V : Type} (calculate : Nat → (Nat → V) → V)

/-- The forward loop of `PlumedMain::justCalculate` on the values of the set: each action of `order`
stores at its position what its `calculate` computes from the values of the set as they stand. -/
def forwardLoop (order : List Nat) (vals : Nat → V) : Nat → V :=
  order.foldl (fun vals p => Function.update vals p (calculate p vals)) vals

/-- The calculation of each action reads only the values of the actions it depends on. -/
def ReadsDependencies (set : List Action) : Prop :=
  ∀ p (vals vals' : Nat → V), (∀ d, DependencyOf set p d → vals d = vals' d) → calculate p vals = calculate p vals'

variable {set : List Action} (hs : Ordered set) {calculate} (hread : ReadsDependencies calculate set)
include hs hread

theorem calculate_update_of_lt {p k : Nat} (hp : p < set.length) (hk : p ≤ k) (vals : Nat → V) (v : V) :
    calculate p (Function.update vals k v) = calculate p vals :=
  hread p _ _ fun d hd => Function.update_noteq (by have := hs.dependencies p hp d hd; omega) v vals

/-- The forward loop over the active actions before `k`: each of them holds what it computes from
the values of the set, every other action its old value. -/
theorem forwardLoop_range (isActive : Nat → Bool) (old : Nat → V) :
    ∀ k ≤ set.length, let vals := forwardLoop calculate ((List.range k).filter isActive) old
      (∀ p < k, isActive p = true → vals p = calculate p vals) ∧ ∀ p, (k ≤ p ∨ isActive p = false) → vals p = old p
  | 0, _ => ⟨fun p hp => absurd hp (Nat.not_lt_zero p), fun _ _ => rfl⟩
  | k + 1, hk => by
    obtain ⟨hdone, hold⟩ := forwardLoop_range isActive old k (by omega)
    simp only [forwardLoop, List.range_succ, List.filter_append, List.foldl_append] at hdone hold ⊢
    generalize List.foldl _ old (List.filter isActive (List.range k)) = vals at hdone hold
    cases hact : isActive k
    · simp only [List.filter_cons, hact, List.filter_nil, List.foldl_nil, Bool.false_eq_true, ↓reduceIte]
      refine ⟨fun p hp hpa => hdone p (Nat.lt_of_le_of_ne (Nat.lt_succ_iff.1 hp) ?_) hpa,
        fun p hp => hold p (hp.imp_left fun h => by omega)⟩
      rintro rfl; rw [hact] at hpa; cases hpa
    · simp only [List.filter_cons_of_pos hact, List.filter_nil, List.foldl_cons, List.foldl_nil]
      refine ⟨fun p hp hpa => ?_, fun p hp => ?_⟩
      · rw [calculate_update_of_lt hs hread (by omega) (by omega)]
        rcases Nat.lt_succ_iff_lt_or_eq.1 hp with h | rfl
        · rw [Function.update_noteq (by omega)]; exact hdone p h hpa
        · exact Function.update_same _ _ _
      · have hpk : p ≠ k := by
          rintro rfl
          rcases hp with h | h
          · omega
          · rw [hact] at h; cases h
        rw [Function.update_noteq hpk]; exact hold p (hp.imp_left fun h => by omega)

/-- The dataflow equations of a step have one solution: two value maps in which every active action
holds what it computes from them and every other action its old value are equal. -/
theorem eq_of_dataflow {isActive : Nat → Bool} (hout : ∀ p, set.length ≤ p → isActive p = false) {old : Nat → V}
    {v w : Nat → V} (hv : ∀ p, isActive p = true → v p = calculate p v) (hv' : ∀ p, isActive p = false → v p = old p)
    (hw : ∀ p, isActive p = true → w p = calculate p w) (hw' : ∀ p, isActive p = false → w p = old p) : v = w := by
  funext p
  induction p using Nat.strong_induction_on with
  | _ p ih =>
    cases hp : isActive p
    · rw [hv' p hp, hw' p hp]
    · have hlt : p < set.length := Nat.lt_of_not_le fun h => by rw [hout p h] at hp; cases hp
      rw [hv p hp, hw p hp]
      exact hread p v w fun d hd => ih d (hs.dependencies p hlt d hd)

end Forward

/-- The forward loop of a step over the actions `prepareDependencies` activates: every active action
holds what it computes from the values at the end of the loop, every other action its old value. -/
theorem forwardLoop_prepared {V : Type} {set : List Action} (hs : Ordered set) {calculate : Nat → (Nat → V) → V}
    (hread : ReadsDependencies calculate set) (pilots : List Nat) (hpilots : ∀ r ∈ pilots, r < set.length)
    (onStep : Nat → Bool) (inputsOnStep : Bool) (needsGradients : Nat → Bool) (old : Nat → V) :
    let pr := prepareDependencies set pilots onStep inputsOnStep needsGradients
    let vals := forwardLoop calculate (justCalculate set pr.active (pr.act.getD · false)) old
    (∀ p, pr.act.getD p false = true → vals p = calculate p vals) ∧ (∀ p, pr.act.getD p false = false → vals p = old p) := by
  intro pr vals
  have hvals : vals = forwardLoop calculate ((List.range set.length).filter (pr.act.getD · false)) old :=
    congrArg (forwardLoop calculate · old) (justCalculate_prepared hs pilots hpilots onStep inputsOnStep needsGradients)
  obtain ⟨hdone, hold⟩ := forwardLoop_range hs hread (pr.act.getD · false) old set.length le_rfl
  rw [← hvals] at hdone hold
  refine ⟨fun p hp => hdone p (Nat.lt_of_not_le fun h => ?_) hp, fun p hp => hold p (.inr hp)⟩
  rw [List.getD_eq_default _ _ (by rw [prepareDependencies_length]; exact h)] at hp
  cases hp

/-- One step of `PlumedMain::calc` on the values of the set, for every ordered set, every list of
pilots and every calculation that reads only the values of the dependencies: after
`prepareDependencies` and the forward loop of `justCalculate`, every active action holds what it
computes from the values its dependencies hold at the end of the loop, and these dependencies are
active themselves; every other action keeps its old value; and these equations determine the
values of the set. -/
theorem justCalculate_values {V : Type} {set : List Action} (hs : Ordered set) {calculate : Nat → (Nat → V) → V}
    (hread : ReadsDependencies calculate set) (pilots : List Nat) (hpilots : ∀ r ∈ pilots, r < set.length)
    (onStep : Nat → Bool) (inputsOnStep : Bool) (needsGradients : Nat → Bool) (old : Nat → V) :
    let pr := prepareDependencies set pilots onStep inputsOnStep needsGradients
    let vals := forwardLoop calculate (justCalculate set pr.active (pr.act.getD · false)) old
    (∀ p, pr.act.getD p false = true →
      vals p = calculate p vals ∧ ∀ d, DependencyOf set p d → pr.act.getD d false = true) ∧
    (∀ p, pr.act.getD p false = false → vals p = old p) ∧
    ∀ w : Nat → V, (∀ p, pr.act.getD p false = true → w p = calculate p w) →
      (∀ p, pr.act.getD p false = false → w p = old p) → w = vals := by
  intro pr vals
  have hout : ∀ p, set.length ≤ p → pr.act.getD p false = false := fun p hp =>
    List.getD_eq_default _ _ (by rw [prepareDependencies_length]; exact hp)
  obtain ⟨hactive, hinactive⟩ := forwardLoop_prepared hs hread pilots hpilots onStep inputsOnStep needsGradients old
  exact ⟨fun p hp => ⟨hactive p hp, fun d hd =>
      (prepareDependencies_closed_iff hs pilots hpilots onStep inputsOnStep needsGradients).1 p d hp hd⟩,
    hinactive, fun w hw hw' => eq_of_dataflow hs hread hout hw hw' hactive hinactive⟩

/-- `b` adds one to the value of `a`, which is two. -/
def pairCalculate (p : Nat) (vals : Nat → Int) : Int := if p = 1 then vals 0 + 1 else 2

theorem pairCalculate_reads : ReadsDependencies pairCalculate dependentPair := fun p vals vals' h => by
  unfold pairCalculate
  split_ifs with hp
  · subst hp; rw [h 0 (by decide)]
  · rfl

/-- With `b` a pilot on step, `a` and `b` are calculated, `b` from the value of `a`. -/
theorem justCalculate_values_pair :
    let pr := prepareDependencies dependentPair [1] (fun _ => true) false fun _ => false
    let vals := forwardLoop pairCalculate (justCalculate dependentPair pr.active (pr.act.getD · false)) fun _ => 0
    (∀ p, pr.act.getD p false = true →
      vals p = pairCalculate p vals ∧ ∀ d, DependencyOf dependentPair p d → pr.act.getD d false = true) ∧
    (∀ p, pr.act.getD p false = false → vals p = 0) ∧
    ∀ w : Nat → Int, (∀ p, pr.act.getD p false = true → w p = pairCalculate p w) →
      (∀ p, pr.act.getD p false = false → w p = 0) → w = vals :=
  justCalculate_values ordered_dependentPair pairCalculate_reads [1] (by decide) _ false _ _

/-! ## The backward loop on forces -/

section Backward

variable {F : Type} (apply : Nat → (Nat → F) → Nat → F)

/-- The backward loop of `PlumedMain::backwardPropagate` on the forces of the set: each action of
`order` applies its forces, `apply p` changing the forces the set holds. -/
def backwardLoop (order : List Nat) (frc : Nat → F) : Nat → F :=
  order.foldl (fun frc p => apply p frc) frc

/-- The `apply` of each action changes only the forces on the actions it depends on. -/
def AppliesToDependencies (set : List Action) : Prop :=
  ∀ p (frc : Nat → F) q, ¬ DependencyOf set p q → apply p frc q = frc q

theorem backwardLoop_append_cons (pre post : List Nat) (p : Nat) (frc : Nat → F) :
    backwardLoop apply (pre ++ p :: post) frc = backwardLoop apply post (apply p (backwardLoop apply pre frc)) := by
  simp only [backwardLoop, List.foldl_append, List.foldl_cons]

theorem backwardPropagate_pairwise (set : List Action) (active : Bool) (isActive : Nat → Bool) :
    (backwardPropagate set active isActive).Pairwise (· > ·) := by
  rw [backwardPropagate_eq]
  split
  · exact (List.pairwise_reverse.2 (List.pairwise_lt_range _)).filter _
  · exact List.Pairwise.nil

theorem lt_of_mem_backwardPropagate {set : List Action} {active : Bool} {isActive : Nat → Bool} {p : Nat}
    (h : p ∈ backwardPropagate set active isActive) : p < set.length := by
  rw [backwardPropagate_eq] at h
  split at h
  · simpa using (List.mem_filter.1 h).1
  · cases h

variable {set : List Action} (hs : Ordered set) {apply} (happly : AppliesToDependencies apply set)
include hs happly

theorem backwardLoop_frame {p : Nat} (hp : p < set.length) :
    ∀ (l : List Nat) (frc : Nat → F), (∀ q ∈ l, q < p) → backwardLoop apply l frc p = frc p
  | [], _, _ => rfl
  | q :: l, frc, hl => by
    have hq := hl q (List.mem_cons_self q l)
    rw [← List.nil_append (q :: l), backwardLoop_append_cons,
      backwardLoop_frame hp l _ fun q' h => hl q' (List.mem_cons_of_mem q h)]
    exact happly q frc p fun hd => by have := hs.dependencies q (by omega) p hd; omega

/-- `backwardPropagate`, for every ordered set and every `apply` that changes only the forces on the
dependencies: the forces an action holds when it applies its own are those it holds at the end of
the loop; no force reaches it afterwards. -/
theorem backwardPropagate_forcesFinal (active : Bool) (isActive : Nat → Bool) (frc : Nat → F)
    {pre post : List Nat} {p : Nat} (h : backwardPropagate set active isActive = pre ++ p :: post) :
    backwardLoop apply pre frc p = backwardLoop apply (backwardPropagate set active isActive) frc p := by
  have hp : p < set.length := lt_of_mem_backwardPropagate (h ▸ List.mem_append_right pre (List.mem_cons_self p post))
  have hpost : ∀ q ∈ post, q < p := by
    have hpw := backwardPropagate_pairwise set active isActive
    rw [h, List.pairwise_append, List.pairwise_cons] at hpw
    exact hpw.2.1.1
  rw [h, backwardLoop_append_cons, backwardLoop_frame hs happly hp post _ hpost]
  exact (happly p _ p fun hd => by have := hs.dependencies p hp p hd; omega).symm

end Backward

/-- `b` passes its force on to `a`. -/
def pairApply (p : Nat) (frc : Nat → Int) : Nat → Int := if p = 1 then Function.update frc 0 (frc 0 + frc 1) else frc

theorem pairApply_dependencies : AppliesToDependencies pairApply dependentPair := fun p frc q hq => by
  unfold pairApply
  split_ifs with hp
  · subst hp
    exact Function.update_noteq (fun h => hq (by subst h; decide)) _ _
  · rfl

/-- `b` applies its force before `a`, and the force on `b` does not change afterwards. -/
theorem backwardPropagate_forcesFinal_pair :
    backwardLoop pairApply [] (fun _ => 1) 1 =
      backwardLoop pairApply (backwardPropagate dependentPair true fun _ => true) (fun _ => 1) 1 :=
  backwardPropagate_forcesFinal ordered_dependentPair pairApply_dependencies true _ _ 
    (show backwardPropagate dependentPair true (fun _ => true) = [] ++ 1 :: [0] from rfl)

/-! ## Forces against displacements -/

section Adjoint

open Finset

variable {R : Type} [CommRing R]

/-- The `apply` of the action at `p` as the chain rule: the force on its value times its derivative
`D p d` with respect to the value of each action `d` it depends on is added to the force on `d`. -/
def chainRuleApply (set : List Action) (D : Nat → Nat → R) (p : Nat) (frc : Nat → R) : Nat → R :=
  (actionAt set p).dependencies.foldl (fun f d => Function.update f d (f d + D p d * frc p)) frc

/-- The work of the forces `frc` along the displacement `δ`, leaving out the actions of `P` that
depend on others: they have passed their forces on. -/
def boundaryWork (set : List Action) (δ : Nat → R) (P : Finset Nat) (frc : Nat → R) : R :=
  ∑ q ∈ range set.length, (if q ∈ P ∧ (actionAt set q).dependencies ≠ [] then 0 else δ q) * frc q

theorem sum_foldl_addAt (n : Nat) (g c : Nat → R) :
    ∀ (L : List Nat) (F : Nat → R), (∀ d ∈ L, d < n) →
      ∑ q ∈ range n, g q * (L.foldl (fun f d => Function.update f d (f d + c d)) F) q =
        ∑ q ∈ range n, g q * F q + (L.map fun d => g d * c d).sum
  | [], F, _ => by simp
  | d :: L, F, hL => by
    rw [List.foldl_cons, sum_foldl_addAt n g c L _ fun d' h => hL d' (List.mem_cons_of_mem d h)]
    have hupd : ∀ q, g q * Function.update F d (F d + c d) q = g q * F q + if q = d then g d * c d else 0 := by
      intro q
      by_cases hq : q = d
      · subst hq; simp [mul_add]
      · simp [hq]
    simp only [hupd, sum_add_distrib, sum_ite_eq', mem_range, hL d (List.mem_cons_self d L), ↓reduceIte,
      List.map_cons, List.sum_cons]
    ring

theorem foldl_addAt_of_not_mem (c : Nat → R) {q : Nat} :
    ∀ (L : List Nat) (F : Nat → R), q ∉ L → (L.foldl (fun f d => Function.update f d (f d + c d)) F) q = F q
  | [], _, _ => rfl
  | d :: L, F, hq => by
    rw [List.foldl_cons, foldl_addAt_of_not_mem c L _ fun h => hq (List.mem_cons_of_mem d h),
      Function.update_noteq fun h => hq (by rw [h]; exact List.mem_cons_self d L)]

theorem chainRuleApply_dependencies (set : List Action) (D : Nat → Nat → R) :
    AppliesToDependencies (chainRuleApply set D) set := fun p frc _ hq =>
  foldl_addAt_of_not_mem (fun d => D p d * frc p) _ frc hq

theorem backwardLoop_of_not_dependency {F : Type} {set : List Action} {apply : Nat → (Nat → F) → Nat → F}
    (happly : AppliesToDependencies apply set) {q : Nat} :
    ∀ (L : List Nat) (frc : Nat → F), (∀ p ∈ L, ¬ DependencyOf set p q) → backwardLoop apply L frc q = frc q
  | [], _, _ => rfl
  | p :: L, frc, hL => by
    rw [← List.nil_append (p :: L), backwardLoop_append_cons,
      backwardLoop_of_not_dependency happly L _ fun p' h => hL p' (List.mem_cons_of_mem p h)]
    exact happly p frc q (hL p (List.mem_cons_self p L))

theorem boundaryWork_empty (set : List Action) (δ frc : Nat → R) :
    boundaryWork set δ ∅ frc = ∑ q ∈ range set.length, frc q * δ q := by
  simp [boundaryWork, mul_comm]

/-- With the active actions counted as having passed their forces on, the work is that of the forces
on the active actions that depend on none and on the inactive actions. -/
theorem boundaryWork_active (set : List Action) (δ : Nat → R) (isActive : Nat → Bool) (frc : Nat → R) :
    boundaryWork set δ ((range set.length).filter fun q => isActive q = true) frc =
      ∑ q ∈ (range set.length).filter (fun q => (isActive q && (actionAt set q).dependencies.isEmpty) = true),
          frc q * δ q +
        ∑ q ∈ (range set.length).filter (fun q => ¬ isActive q = true), frc q * δ q := by
  simp only [boundaryWork, sum_filter, ← sum_add_distrib]
  refine sum_congr rfl fun q hq => ?_
  cases hact : isActive q <;> by_cases hdep : (actionAt set q).dependencies = [] <;>
    simp [mem_range.1 hq, hact, hdep, mul_comm]

variable {set : List Action} (hs : Ordered set) (D : Nat → Nat → R) (δ : Nat → R)
include hs

/-- One action applying by the chain rule, where the displacement is linearised, leaves the work
unchanged once the action is counted among those that have passed their forces on. -/
theorem boundaryWork_apply {P : Finset Nat} {p : Nat} (hp : p < set.length) (hpP : p ∉ P)
    (hdeps : ∀ d ∈ (actionAt set p).dependencies, d ∉ P)
    (hlin : (actionAt set p).dependencies ≠ [] → δ p = ((actionAt set p).dependencies.map fun d => D p d * δ d).sum)
    (frc : Nat → R) :
    boundaryWork set δ (insert p P) (chainRuleApply set D p frc) = boundaryWork set δ P frc := by
  by_cases hleaf : (actionAt set p).dependencies = []
  · unfold boundaryWork chainRuleApply
    rw [hleaf, List.foldl_nil]
    refine sum_congr rfl fun q _ => ?_
    by_cases hq : q = p
    · subst hq; simp [hleaf]
    · simp [Finset.mem_insert, hq]
  · have hlt : ∀ d ∈ (actionAt set p).dependencies, d < p := hs.dependencies p hp
    have hweight : ∀ q, (if q ∈ P ∧ (actionAt set q).dependencies ≠ [] then 0 else δ q) =
        (if q ∈ insert p P ∧ (actionAt set q).dependencies ≠ [] then 0 else δ q) + if q = p then δ p else 0 := by
      intro q
      by_cases hq : q = p
      · subst hq; simp [hpP, hleaf]
      · simp [Finset.mem_insert, hq]
    have hdep : ((actionAt set p).dependencies.map fun d =>
        (if d ∈ insert p P ∧ (actionAt set d).dependencies ≠ [] then 0 else δ d) * (D p d * frc p)) =
        (actionAt set p).dependencies.map fun d => frc p * (D p d * δ d) := by
      refine List.map_congr_left fun d hd => ?_
      have hdp : d ≠ p := Nat.ne_of_lt (hlt d hd)
      simp only [Finset.mem_insert, hdp, hdeps d hd, or_self, false_and, ↓reduceIte]
      ring
    unfold boundaryWork chainRuleApply
    rw [sum_foldl_addAt _ _ _ _ _ fun d hd => (hlt d hd).trans hp, hdep, List.sum_map_mul_left, ← hlin hleaf]
    simp only [hweight, add_mul, sum_add_distrib, ite_mul, zero_mul, sum_ite_eq', mem_range, hp, ↓reduceIte]
    ring

/-- The backward loop over actions taken in decreasing order, each after those in `P` and applying by
the chain rule where the displacement is linearised: the work is the same before and after. -/
theorem boundaryWork_backwardLoop {isActive : Nat → Bool}
    (hlin : ∀ p < set.length, isActive p = true → (actionAt set p).dependencies ≠ [] →
      δ p = ((actionAt set p).dependencies.map fun d => D p d * δ d).sum) :
    ∀ (L : List Nat) (P : Finset Nat) (frc : Nat → R), L.Pairwise (· > ·) →
      (∀ p ∈ L, p < set.length ∧ isActive p = true) → (∀ p ∈ L, ∀ q ∈ P, p < q) →
      boundaryWork set δ (P ∪ L.toFinset) (backwardLoop (chainRuleApply set D) L frc) = boundaryWork set δ P frc
  | [], P, frc, _, _, _ => by simp [backwardLoop]
  | p :: L, P, frc, hpw, hL, hP => by
    obtain ⟨hpL, hpw⟩ := List.pairwise_cons.1 hpw
    obtain ⟨hp, hact⟩ := hL p (List.mem_cons_self p L)
    have hrest := boundaryWork_backwardLoop hlin L (insert p P) (chainRuleApply set D p frc) hpw
      (fun p' h => hL p' (List.mem_cons_of_mem p h)) fun p' h q hq => by
        rcases Finset.mem_insert.1 hq with rfl | hq
        · exact hpL p' h
        · exact hP p' (List.mem_cons_of_mem p h) q hq
    rw [← List.nil_append (p :: L), backwardLoop_append_cons, List.nil_append,
      show P ∪ (p :: L).toFinset = insert p P ∪ L.toFinset by ext q; simp [or_left_comm]]
    refine hrest.trans (boundaryWork_apply hs D δ hp (fun h => lt_irrefl p (hP p (List.mem_cons_self p L) p h))
      (fun d hd h => ?_) (hlin p hp hact) frc)
    have := hs.dependencies p hp d hd
    have := hP p (List.mem_cons_self p L) d h
    omega

/-- The backward loop over the active actions, each applying by the chain rule: the work of the forces
left on the active actions that depend on none is the work of the forces first put on the active
actions, along every displacement linearised through them. -/
theorem backwardLoop_adjoint (isActive : Nat → Bool)
    (hclosed : ∀ p d, isActive p = true → DependencyOf set p d → isActive d = true) (F0 : Nat → R)
    (hlin : ∀ p < set.length, isActive p = true → (actionAt set p).dependencies ≠ [] →
      δ p = ((actionAt set p).dependencies.map fun d => D p d * δ d).sum) :
    ∑ q ∈ (range set.length).filter (fun q => (isActive q && (actionAt set q).dependencies.isEmpty) = true),
        backwardLoop (chainRuleApply set D) (backwardPropagate set true isActive) F0 q * δ q =
      ∑ q ∈ (range set.length).filter (fun q => isActive q = true), F0 q * δ q := by
  set L := backwardPropagate set true isActive
  have hmem : ∀ p, p ∈ L ↔ p < set.length ∧ isActive p = true := fun p => by
    simp [L, backwardPropagate_eq]
  have hrun := boundaryWork_backwardLoop hs D δ hlin L ∅ F0 (backwardPropagate_pairwise set true isActive)
    (fun p h => (hmem p).1 h) (fun _ _ _ h => absurd h (Finset.not_mem_empty _))
  have hfinal : ∀ q, ¬ isActive q = true → backwardLoop (chainRuleApply set D) L F0 q = F0 q := fun q hq =>
    backwardLoop_of_not_dependency (chainRuleApply_dependencies set D) L F0 fun p hp hd =>
      hq (hclosed p q ((hmem p).1 hp).2 hd)
  have hP : (∅ : Finset Nat) ∪ L.toFinset = (range set.length).filter (fun q => isActive q = true) := by
    ext q; simp [hmem]
  have hinactive : ∑ q ∈ (range set.length).filter (fun q => ¬ isActive q = true),
      backwardLoop (chainRuleApply set D) L F0 q * δ q =
        ∑ q ∈ (range set.length).filter (fun q => ¬ isActive q = true), F0 q * δ q :=
    sum_congr rfl fun q hq => by rw [hfinal q (mem_filter.1 hq).2]
  rw [hP, boundaryWork_active, boundaryWork_empty, hinactive,
    ← sum_filter_add_sum_filter_not (range set.length) (fun q => isActive q = true) (fun q => F0 q * δ q)] at hrun
  exact add_right_cancel hrun

/-- `backwardPropagate` with each action applying by the chain rule, for every ordered set, every set
of active actions closed under the dependencies, every derivative `D` and every displacement `δ`
linearised through the active actions (`δ p = Σ D p d · δ d` over the dependencies of each active
action that has some): the work of the forces on the active actions that depend on none, along `δ`,
at the end of the loop, is the work of the forces first put on the active actions. A unit force on
one value gives the leaves the forces whose work along every displacement is the first-order change
of that value. -/
theorem backwardPropagate_adjoint (isActive : Nat → Bool)
    (hclosed : ∀ p d, isActive p = true → DependencyOf set p d → isActive d = true) (F0 : Nat → R)
    (hlin : ∀ p < set.length, isActive p = true → (actionAt set p).dependencies ≠ [] →
      δ p = ((actionAt set p).dependencies.map fun d => D p d * δ d).sum) :
    ∑ q ∈ (range set.length).filter (fun q => (isActive q && (actionAt set q).dependencies.isEmpty) = true),
        backwardLoop (chainRuleApply set D) (backwardPropagate set true isActive) F0 q * δ q =
      ∑ q ∈ (range set.length).filter (fun q => isActive q = true), F0 q * δ q :=
  backwardLoop_adjoint hs D δ isActive hclosed F0 hlin

end Adjoint

/-- `b` is three times `a`: a unit force on `b` passes to `a` a force whose work along a displacement
of `a` by two is the change of `b`, six. -/
theorem backwardPropagate_adjoint_pair :
    ∑ q ∈ (Finset.range dependentPair.length).filter
        (fun q => ((fun _ => true) q && (actionAt dependentPair q).dependencies.isEmpty) = true),
        backwardLoop (chainRuleApply dependentPair fun _ _ => (3 : Int)) (backwardPropagate dependentPair true fun _ => true)
          (fun p => if p = 1 then 1 else 0) q * (fun p => if p = 1 then 6 else 2) q =
      ∑ q ∈ (Finset.range dependentPair.length).filter (fun q => (fun _ => true) q = true),
        (fun p => if p = 1 then 1 else 0) q * (fun p => if p = 1 then 6 else 2) q :=
  backwardPropagate_adjoint ordered_dependentPair (fun _ _ => 3) (fun p => if p = 1 then 6 else 2) (fun _ => true)
    (fun _ _ _ _ => rfl) _ (by decide)

/-! ## A step as a tangent pass and an adjoint pass -/

section RoundTrip

open Finset

variable {R : Type} [CommRing R]

/-- The calculation of each action to first order: an action that depends on no other moves by
`δ0`, the displacement of what it reads from outside the set (atoms, box); any other by the moves of
its dependencies times its derivatives `D`. -/
def tangentCalculate (set : List Action) (D : Nat → Nat → R) (δ0 : Nat → R) (p : Nat) (vals : Nat → R) : R :=
  if (actionAt set p).dependencies = [] then δ0 p else ((actionAt set p).dependencies.map fun d => D p d * vals d).sum

theorem tangentCalculate_reads (set : List Action) (D : Nat → Nat → R) (δ0 : Nat → R) :
    ReadsDependencies (tangentCalculate set D δ0) set := fun p vals vals' h => by
  unfold tangentCalculate
  split_ifs
  · rfl
  · exact congrArg List.sum (List.map_congr_left fun d hd => by rw [h d hd])

/-- One step of `PlumedMain::calc` as the MD code sees it, for every ordered set, every list of
pilots, every derivative `D`, every displacement `δ0` of what the actions that depend on no other read
and every force `F0` put on the values. Run as a tangent pass, the forward loop of `justCalculate`
carries `δ0` to the first-order change of every active value; run by the chain rule, the backward
loop of `backwardPropagate` passes the forces down to the active actions that depend on no other.
The work of those forces along `δ0` is the work of `F0` along the changes: a unit force on one value
gives forces whose work along any displacement is that value's first-order change. -/
theorem calc_roundTrip {set : List Action} (hs : Ordered set) (pilots : List Nat)
    (hpilots : ∀ r ∈ pilots, r < set.length) (onStep : Nat → Bool) (inputsOnStep : Bool) (needsGradients : Nat → Bool)
    (D : Nat → Nat → R) (δ0 F0 old : Nat → R) :
    let pr := prepareDependencies set pilots onStep inputsOnStep needsGradients
    ∑ q ∈ (range set.length).filter (fun q => (pr.act.getD q false && (actionAt set q).dependencies.isEmpty) = true),
        backwardLoop (chainRuleApply set D) (backwardPropagate set pr.active (pr.act.getD · false)) F0 q * δ0 q =
      ∑ q ∈ (range set.length).filter (fun q => pr.act.getD q false = true),
        F0 q * forwardLoop (tangentCalculate set D δ0) (justCalculate set pr.active (pr.act.getD · false)) old q := by
  intro pr
  obtain ⟨hactive, -⟩ :=
    forwardLoop_prepared hs (tangentCalculate_reads set D δ0) pilots hpilots onStep inputsOnStep needsGradients old
  generalize forwardLoop (tangentCalculate set D δ0) (justCalculate set pr.active (pr.act.getD · false)) old = δ
    at hactive ⊢
  have hlin : ∀ p < set.length, pr.act.getD p false = true → (actionAt set p).dependencies ≠ [] →
      δ p = ((actionAt set p).dependencies.map fun d => D p d * δ d).sum := fun p _ hp hdeps => by
    rw [hactive p hp, tangentCalculate, if_neg hdeps]
  have hclosed : ∀ p d, pr.act.getD p false = true → DependencyOf set p d → pr.act.getD d false = true :=
    (prepareDependencies_closed_iff hs pilots hpilots onStep inputsOnStep needsGradients).1
  rw [backwardPropagate_prepared hs pilots hpilots onStep inputsOnStep needsGradients,
    ← backwardLoop_adjoint hs D δ (pr.act.getD · false) hclosed F0 hlin]
  refine sum_congr rfl fun q hq => ?_
  obtain ⟨hq, hleaf⟩ := Bool.and_eq_true_iff.1 (mem_filter.1 hq).2
  rw [hactive q hq, tangentCalculate, if_pos (List.isEmpty_iff.1 hleaf)]

end RoundTrip

/-- `b` is three times `a`: with a unit force on `b` and `a` moved by two, the force passed to `a`
does the work six, the change of `b`. -/
theorem calc_roundTrip_pair :
    let pr := prepareDependencies dependentPair [1] (fun _ => true) false fun _ => false
    ∑ q ∈ (Finset.range dependentPair.length).filter
        (fun q => (pr.act.getD q false && (actionAt dependentPair q).dependencies.isEmpty) = true),
        backwardLoop (chainRuleApply dependentPair fun _ _ => (3 : Int))
          (backwardPropagate dependentPair pr.active (pr.act.getD · false)) (fun p => if p = 1 then 1 else 0) q * 2 =
      ∑ q ∈ (Finset.range dependentPair.length).filter (fun q => pr.act.getD q false = true),
        (fun p => if p = 1 then 1 else 0) q * forwardLoop (tangentCalculate dependentPair (fun _ _ => 3) fun _ => 2)
          (justCalculate dependentPair pr.active (pr.act.getD · false)) (fun _ => 0) q :=
  calc_roundTrip ordered_dependentPair [1] (by decide) _ false _ (fun _ _ => 3) (fun _ => 2) _ _

end Plumed.Core
