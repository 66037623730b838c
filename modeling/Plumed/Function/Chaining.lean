/-
Chaining equivalence for `FunctionOfVector::performTask`. When every argument is a vector that the
action reads from a stash of its own, the chained task leaves in the record exactly what the task
outside a chain leaves, plus one seed per stash: the derivative `1` on the task index and that
index registered, which `getArgumentPositionInStream` writes before it reads the stash
(`performTask_chained_eq`). The outputs' values, derivatives and active indices are therefore the
same in both modes. The proof is a simulation over the loop on the arguments: each chained step is
the component loop of the step outside a chain, applied after the seed (`chainStep_fresh`), and
seeds commute with the component loops, which never touch a stash row.

`getNumberOfStashedInputArguments` numbers the stashes: the arguments that store their data for
the action get `nquants`, `nquants + 1`, … in order, so arguments with distinct values get
distinct stashes above every position below `nquants` (`getNumberOfStashedInputArguments_distinct`).
The arguments are pointers: a value given twice is renumbered at its second occurrence, and both
read the one stash, the case in which the seeds add up and chaining changes the derivatives.
-/
import Plumed.Function.FunctionOfVector
import Plumed.Core.ForceLayout

namespace Plumed.Function

open Plumed.Core

/-! ## The stash of an argument -/

/-- The stash a value keeps for the action labelled `label`: the number of its first
`store_data_for` entry with that label, as `getArgumentPositionInStream` finds it. -/
def stashOf (label : String) (v : Value) : Option Nat := (v.storeDataFor.find? (·.1 == label)).map (·.2)

/-- The inner loop of `getNumberOfStashedInputArguments`: the first `store_data_for` entry with the
label gets the number `n`. -/
def setStash (label : String) (n : Nat) : List (String × Nat) → List (String × Nat)
  | [] => []
  | p :: rest => if p.1 == label then (p.1, n) :: rest else p :: setStash label n rest

/-- One argument of `getNumberOfStashedInputArguments`: an argument that stores its data for the
action gets the number `nquants`, which then goes up by one. The arguments are pointers: every
argument that is the same value (has its name) is renumbered with it. -/
def stashedStep (label : String) (st : List Value × Nat) (i : Nat) : List Value × Nat :=
  let v := st.1.getD i default
  if v.storeDataFor.any (·.1 == label) then
    (st.1.map fun w => if w.name == v.name then { w with storeDataFor := setStash label st.2 w.storeDataFor } else w,
      st.2 + 1)
  else st

/-- `ActionWithArguments::getNumberOfStashedInputArguments(nquants)` of the action labelled `label`,
with its assertion that the action is an `ActionWithValue`: the arguments with their new stash
numbers, and the final `nquants`. -/
def getNumberOfStashedInputArguments (isActionWithValue : Bool) (label : String) (args : List Value)
    (nquants : Nat) : Except String (List Value × Nat) :=
  if isActionWithValue then .ok ((List.range args.length).foldl (stashedStep label) (args, nquants))
  else .error "assertion failed: av"

theorem find?_setStash (label : String) (n : Nat) :
    ∀ l : List (String × Nat), l.any (·.1 == label) = true →
      ((setStash label n l).find? (·.1 == label)).map (·.2) = some n := by
  intro l; induction l with
  | nil => simp
  | cons p rest ih =>
    intro h
    by_cases hp : p.1 = label
    · simp [setStash, hp]
    · simp only [List.any_cons, Bool.or_eq_true, beq_iff_eq, hp, false_or] at h
      simpa [setStash, hp] using ih h

/-- The arguments after the first `n` passes of the loop, when no two of them are the same value:
argument `i < n` has the stash number `nquants + i`. -/
def renumbered (label : String) (nquants n : Nat) (args : List Value) : List Value :=
  args.mapIdx fun i w => if i < n then { w with storeDataFor := setStash label (nquants + i) w.storeDataFor } else w

/-- One pass of the loop on arguments that are distinct values and all store their data for the
action renumbers argument `n` alone. -/
theorem stashedStep_renumbered {label : String} {args : List Value} {nquants n : Nat}
    (hnames : (args.map (·.name)).Nodup) (hstore : ∀ v ∈ args, v.storeDataFor.any (·.1 == label) = true)
    (hn : n < args.length) :
    stashedStep label (renumbered label nquants n args, nquants + n) n = (renumbered label nquants (n + 1) args, nquants + (n + 1)) := by
  have hlen : (renumbered label nquants n args).length = args.length := List.length_mapIdx
  have hv : (renumbered label nquants n args).getD n default = args[n] := by
    rw [List.getD_eq_getElem _ _ (hlen ▸ hn)]
    simp [renumbered]
  have hname : ∀ i (hi : i < args.length), args[i].name = args[n].name → i = n := fun i hi h =>
    (@List.Nodup.getElem_inj_iff _ _ hnames i (by simpa using hi) n (by simpa using hn)).mp
      (by simpa using h)
  simp only [stashedStep, hv, hstore _ (List.getElem_mem hn), ↓reduceIte, Prod.mk.injEq, Nat.add_assoc, and_true]
  refine List.ext_getElem (by simp [renumbered]) fun i h1 h2 => ?_
  have hi : i < args.length := by simpa [renumbered] using h2
  simp only [List.getElem_map, renumbered, List.getElem_mapIdx, beq_iff_eq]
  by_cases hin : i = n
  · subst hin; simp
  · have hne : args[i].name ≠ args[n].name := fun h => hin (hname i hi h)
    by_cases hlt : i < n
    · simp [hlt, hne, show i < n + 1 by omega]
    · simp [hlt, hne, show ¬ i < n + 1 by omega]

/-- `getNumberOfStashedInputArguments` on arguments that are distinct values and all store their
data for the action: argument `i` gets the stash `nquants + i`, nothing else changes, and the count
ends at `nquants` plus the number of arguments. -/
theorem getNumberOfStashedInputArguments_distinct (label : String) (args : List Value) (nquants : Nat)
    (hnames : (args.map (·.name)).Nodup) (hstore : ∀ v ∈ args, v.storeDataFor.any (·.1 == label) = true) :
    getNumberOfStashedInputArguments true label args nquants =
        .ok (args.mapIdx fun i w => { w with storeDataFor := setStash label (nquants + i) w.storeDataFor },
          nquants + args.length) ∧
      (args.mapIdx fun i w => { w with storeDataFor := setStash label (nquants + i) w.storeDataFor }).map (stashOf label) =
        (List.range args.length).map fun i => some (nquants + i) := by
  have hrun : ∀ n ≤ args.length, (List.range n).foldl (stashedStep label) (args, nquants) =
      (renumbered label nquants n args, nquants + n) := by
    intro n hn
    induction n with
    | zero =>
      refine Prod.ext (List.ext_getElem (by simp [renumbered]) fun i _ _ => ?_) rfl
      simp [renumbered]
    | succ n ih =>
      rw [List.range_succ, List.foldl_append, ih (by omega), List.foldl_cons, List.foldl_nil,
        stashedStep_renumbered hnames hstore (by omega)]
  have hall : renumbered label nquants args.length args =
      args.mapIdx fun i w => { w with storeDataFor := setStash label (nquants + i) w.storeDataFor } :=
    List.ext_getElem (by simp [renumbered]) fun i h1 _ => by
      simp only [renumbered, List.getElem_mapIdx, if_pos (show i < args.length by simpa [renumbered] using h1)]
  refine ⟨by rw [getNumberOfStashedInputArguments, if_pos rfl, hrun _ le_rfl, hall], ?_⟩
  refine List.ext_getElem (by simp) fun i h1 h2 => ?_
  have hi : i < args.length := by simpa using h2
  simp only [List.getElem_map, List.getElem_mapIdx, List.getElem_range, stashOf]
  exact find?_setStash label _ _ (hstore _ (List.getElem_mem hi))

/-- The vector `v` and a vector `w` whose entry for `f` comes after one for `g`. -/
def storedPair : List Value :=
  [storedVector, { storedVector with name := "w", storeDataFor := [("g", 1), ("f", 0)] }]

/-- Numbered from `3`, `v` gets stash `3` and `w` stash `4`, the entry of `w` for `g` untouched. -/
theorem getNumberOfStashedInputArguments_storedPair :
    getNumberOfStashedInputArguments true "f" storedPair 3 =
        .ok (storedPair.mapIdx fun i w => { w with storeDataFor := setStash "f" (3 + i) w.storeDataFor },
          3 + storedPair.length) ∧
      (storedPair.mapIdx fun i w => { w with storeDataFor := setStash "f" (3 + i) w.storeDataFor }).map (stashOf "f") =
        (List.range storedPair.length).map fun i => some (3 + i) :=
  getNumberOfStashedInputArguments_distinct "f" storedPair 3 (by decide) (by decide)

section Seeds

variable {R : Type} [Semiring R]

/-- The seed `getArgumentPositionInStream` writes in the stash `s` on task `t`: the derivative `1`
on index `t`, and `t` registered. -/
def seedStash (t : Nat) (mv : MultiValue R) (s : Nat) : MultiValue R :=
  (mv.addDerivative s t 1).updateIndex s t

variable (t s o : Nat) (mv : MultiValue R)

@[simp] theorem seedStash_taskIndex : (seedStash t mv s).taskIndex = mv.taskIndex := rfl

@[simp] theorem seedStash_values : (seedStash t mv s).values = mv.values := rfl

theorem seedStash_derivatives_of_ne (h : o ≠ s) : (seedStash t mv s).derivatives o = mv.derivatives o := by
  funext d; simp [seedStash, h]

theorem seedStash_active_of_ne (h : o ≠ s) : (seedStash t mv s).active o = mv.active o := by
  simp [seedStash, h]

/-- On a stash with no active index, `getArgumentPositionInStream` of a vector that is not a time
series returns the stash and seeds it on the task index. -/
theorem getArgumentPositionInStream_fresh {label : String} {v : Value} {mv : MultiValue R} {s : Nat}
    (hs : stashOf label v = some s) (hrank : 0 < v.rank) (hts : v.isTimeSeries = false)
    (hact : mv.active s = []) :
    getArgumentPositionInStream label v mv = (s, seedStash mv.taskIndex mv s) := by
  obtain ⟨⟨l, s'⟩, hfind, rfl⟩ := Option.map_eq_some'.mp hs
  simp [getArgumentPositionInStream, hfind, hrank, hts, MultiValue.getNumberActive, hact, seedStash]

end Seeds

/-! ## One argument of the chained loop -/

section Step

variable {R : Type} [Semiring R]

/-- The chained derivative pass reads the stash's derivative on `k` at every output; while no
output sits at the stash, that read stays the seed `1`. -/
theorem foldl_chainDerivative {outputs : List Nat} {derivatives : Nat → Nat → R} {j d s k : Nat} :
    ∀ (L : List Nat) (mv : MultiValue R), (∀ i ∈ L, outputs.getD i 0 ≠ s) → mv.derivatives s k = 1 →
      L.foldl (fun mv i => mv.addDerivative (outputs.getD i 0) d (derivatives i j * mv.derivatives s k)) mv =
        L.foldl (fun mv i => mv.addDerivative (outputs.getD i 0) d (derivatives i j)) mv
  | [], _, _, _ => rfl
  | i :: L, mv, hL, h1 => by
    rw [List.foldl_cons, List.foldl_cons, h1, mul_one]
    exact foldl_chainDerivative L _ (fun i' hi' => hL i' (List.mem_cons_of_mem i hi'))
      (by rw [MultiValue.addDerivative_derivatives, if_neg fun h => hL i (List.mem_cons_self i L) h.1.symm, h1])

theorem foldl_updateIndex_after_addDerivative (f : Nat → Nat) (der : Nat → R) (d : Nat) :
    ∀ (L : List Nat) (mv : MultiValue R),
      L.foldl (fun mv i => mv.updateIndex (f i) d) (L.foldl (fun mv i => mv.addDerivative (f i) d (der i)) mv) =
        L.foldl (fun mv i => (mv.addDerivative (f i) d (der i)).updateIndex (f i) d) mv
  | [], _ => rfl
  | i :: L, mv => by
    have hcomm : ∀ (L' : List Nat) (m : MultiValue R),
        (L'.foldl (fun mv i => mv.addDerivative (f i) d (der i)) m).updateIndex (f i) d =
          L'.foldl (fun mv i => mv.addDerivative (f i) d (der i)) (m.updateIndex (f i) d) := by
      intro L'; induction L' with
      | nil => intro m; rfl
      | cons i' L' ih => intro m; exact ih _
    rw [List.foldl_cons, List.foldl_cons, List.foldl_cons, hcomm]
    exact foldl_updateIndex_after_addDerivative f der d L _

/-- One chained step on an argument read from a fresh stash `s`, whose start no earlier argument
shares: the component loop outside a chain, on index `start + t`, after the seed. -/
theorem chainStep_fresh {label : String} {argDerivStarts outputs : List Nat} {derivatives : Nat → Nat → R}
    {args : List Value} {mv : MultiValue R} {j s : Nat} (hs : stashOf label (args.getD j default) = some s)
    (hrank : 0 < (args.getD j default).rank) (hts : (args.getD j default).isTimeSeries = false)
    (hact : mv.active s = []) (hder : mv.derivatives s mv.taskIndex = 0) (hout : s ∉ outputs)
    (hstart : ∀ k < j, argDerivStarts.getD k 0 ≠ argDerivStarts.getD j 0) :
    chainStep label argDerivStarts outputs derivatives args mv j =
      componentLoop outputs derivatives j (argDerivStarts.getD j 0 + mv.taskIndex) (seedStash mv.taskIndex mv s) := by
  have hne : ∀ i ∈ List.range outputs.length, outputs.getD i 0 ≠ s := fun i hi h =>
    hout (h ▸ List.getD_eq_getElem outputs 0 (List.mem_range.mp hi) ▸ List.getElem_mem _)
  have hany : ((List.range j).any fun k => argDerivStarts.getD k 0 == argDerivStarts.getD j 0) = false := by
    simpa using fun k hk => hstart k hk
  have hseed : (seedStash mv.taskIndex mv s).active s = [mv.taskIndex] := by simp [seedStash, hact]
  simp only [chainStep, getArgumentPositionInStream_fresh hs hrank hts hact, hany, Bool.false_eq_true, ↓reduceIte,
    MultiValue.getNumberActive_eq, MultiValue.getActiveIndex_eq, hseed, seedStash_taskIndex, List.length_singleton,
    List.range_succ, List.range_zero, List.nil_append, List.map_singleton, List.getD_cons_zero, List.foldl_cons,
    List.foldl_nil]
  rw [foldl_chainDerivative _ _ hne (by simp [seedStash, hder]), foldl_updateIndex_after_addDerivative]
  rfl

end Step

/-! ## Seeds and the component loop -/

section Commute

variable {R : Type} [Semiring R] {outputs : List Nat} {derivatives : Nat → Nat → R} {j d t : Nat}

theorem mem_of_getD_range {outputs : List Nat} {i : Nat} (hi : i ∈ List.range outputs.length) :
    outputs.getD i 0 ∈ outputs :=
  List.getD_eq_getElem outputs 0 (List.mem_range.mp hi) ▸ List.getElem_mem _

theorem seedStash_componentStep {o s : Nat} (mv : MultiValue R) (x : R) (h : o ≠ s) :
    ((seedStash t mv s).addDerivative o d x).updateIndex o d =
      seedStash t ((mv.addDerivative o d x).updateIndex o d) s := by
  ext i k
  all_goals simp only [seedStash, MultiValue.updateIndex_taskIndex, MultiValue.addDerivative_taskIndex,
    MultiValue.updateIndex_values, MultiValue.addDerivative_values, MultiValue.updateIndex_derivatives,
    MultiValue.addDerivative_derivatives, MultiValue.updateIndex_active, MultiValue.addDerivative_active,
    MultiValue.updateIndex_matrixIndices, MultiValue.addDerivative_matrixIndices]
  · split_ifs <;> first | rfl | exact add_right_comm _ _ _
  · split_ifs with h1 h2 <;> first | rfl | exact absurd (h1.symm.trans h2) h

theorem componentLoop_seedStash {s : Nat} (hs : s ∉ outputs) (mv : MultiValue R) :
    componentLoop outputs derivatives j d (seedStash t mv s) = seedStash t (componentLoop outputs derivatives j d mv) s := by
  have key : ∀ (L : List Nat) (m : MultiValue R), (∀ i ∈ L, outputs.getD i 0 ≠ s) →
      L.foldl (fun mv i => (mv.addDerivative (outputs.getD i 0) d (derivatives i j)).updateIndex (outputs.getD i 0) d)
        (seedStash t m s) =
      seedStash t (L.foldl (fun mv i =>
        (mv.addDerivative (outputs.getD i 0) d (derivatives i j)).updateIndex (outputs.getD i 0) d) m) s := by
    intro L; induction L with
    | nil => intro m _; rfl
    | cons i L ih =>
      intro m hL
      rw [List.foldl_cons, List.foldl_cons, seedStash_componentStep m _ (hL i (List.mem_cons_self i L))]
      exact ih _ fun i' hi' => hL i' (List.mem_cons_of_mem i hi')
  exact key _ mv fun i hi h => hs (h ▸ mem_of_getD_range hi)

theorem componentLoop_foldl_seedStash {L : List Nat} (hL : ∀ s ∈ L, s ∉ outputs) (mv : MultiValue R) :
    componentLoop outputs derivatives j d (L.foldl (seedStash t) mv) =
      L.foldl (seedStash t) (componentLoop outputs derivatives j d mv) := by
  induction L generalizing mv with
  | nil => rfl
  | cons s L ih =>
    rw [List.foldl_cons, List.foldl_cons, ih (fun s' hs' => hL s' (List.mem_cons_of_mem s hs')),
      componentLoop_seedStash (hL s (List.mem_cons_self s L))]

/-! ### Rows the loops do not touch -/

theorem componentLoop_taskIndex (mv : MultiValue R) :
    (componentLoop outputs derivatives j d mv).taskIndex = mv.taskIndex := by
  rw [componentLoop]
  induction List.range outputs.length generalizing mv with
  | nil => rfl
  | cons i L ih => exact ih _

theorem componentLoop_derivatives_of_not_mem {o : Nat} (ho : o ∉ outputs) (mv : MultiValue R) :
    (componentLoop outputs derivatives j d mv).derivatives o = mv.derivatives o := by
  have key : ∀ (L : List Nat) (m : MultiValue R), (∀ i ∈ L, outputs.getD i 0 ≠ o) →
      (L.foldl (fun mv i => (mv.addDerivative (outputs.getD i 0) d (derivatives i j)).updateIndex
        (outputs.getD i 0) d) m).derivatives o = m.derivatives o := by
    intro L; induction L with
    | nil => intro m _; rfl
    | cons i L ih =>
      intro m hL
      rw [List.foldl_cons, ih _ fun i' hi' => hL i' (List.mem_cons_of_mem i hi')]
      funext k
      rw [MultiValue.updateIndex_derivatives, MultiValue.addDerivative_derivatives,
        if_neg fun h => hL i (List.mem_cons_self i L) h.1.symm]
  exact key _ mv fun i hi h => ho (h ▸ mem_of_getD_range hi)

theorem componentLoop_active_of_not_mem {o : Nat} (ho : o ∉ outputs) (mv : MultiValue R) :
    (componentLoop outputs derivatives j d mv).active o = mv.active o := by
  rw [componentLoop_active, List.count_eq_zero.mpr ho, List.replicate_zero, List.append_nil]

theorem foldl_seedStash_taskIndex (L : List Nat) (mv : MultiValue R) :
    (L.foldl (seedStash t) mv).taskIndex = mv.taskIndex := by
  induction L generalizing mv with
  | nil => rfl
  | cons s L ih => exact ih _

theorem foldl_seedStash_of_not_mem {L : List Nat} {o : Nat} (ho : o ∉ L) (mv : MultiValue R) :
    (L.foldl (seedStash t) mv).derivatives o = mv.derivatives o ∧ (L.foldl (seedStash t) mv).active o = mv.active o := by
  induction L generalizing mv with
  | nil => exact ⟨rfl, rfl⟩
  | cons s L ih =>
    obtain ⟨hder, hact⟩ := ih (fun h => ho (List.mem_cons_of_mem s h)) (seedStash t mv s)
    have hne : o ≠ s := fun h => ho (h ▸ List.mem_cons_self s L)
    exact ⟨hder.trans (seedStash_derivatives_of_ne t s o mv hne), hact.trans (seedStash_active_of_ne t s o mv hne)⟩

end Commute

/-! ## The loop over the arguments -/

section Run

variable {R : Type} [Semiring R] {outputs : List Nat} {derivatives : Nat → Nat → R} {current : Nat}

theorem foldl_noChainStep_taskIndex :
    ∀ (L : List Value) (st : MultiValue R × Nat × Nat),
      (L.foldl (noChainStep outputs derivatives current) st).1.taskIndex = st.1.taskIndex
  | [], _ => rfl
  | _ :: L, st => (foldl_noChainStep_taskIndex L _).trans (componentLoop_taskIndex st.1)

theorem foldl_noChainStep_of_not_mem {o : Nat} (ho : o ∉ outputs) :
    ∀ (L : List Value) (st : MultiValue R × Nat × Nat),
      (L.foldl (noChainStep outputs derivatives current) st).1.derivatives o = st.1.derivatives o ∧
        (L.foldl (noChainStep outputs derivatives current) st).1.active o = st.1.active o
  | [], _ => ⟨rfl, rfl⟩
  | _ :: L, st => by
    obtain ⟨hder, hact⟩ := foldl_noChainStep_of_not_mem ho L (noChainStep outputs derivatives current st _)
    exact ⟨hder.trans (componentLoop_derivatives_of_not_mem ho st.1), hact.trans (componentLoop_active_of_not_mem ho st.1)⟩

theorem getElem_not_mem_take {stashes : List Nat} (hnodup : stashes.Nodup) {n : Nat} (hn : n < stashes.length) :
    stashes[n] ∉ stashes.take n := fun hmem => by
  obtain ⟨k, hk, hkn⟩ := List.getElem_of_mem hmem
  rw [List.getElem_take] at hkn
  have hk' : k < n := by rw [List.length_take] at hk; omega
  exact absurd ((List.Nodup.getElem_inj_iff hnodup).mp hkn) (by omega)

/-- The chained loop over the first `n` arguments, each a vector read from a fresh stash of its own
with its block at the running count of values: the loop outside a chain, then the seeds of their
stashes. The loop outside a chain has reached the count `valuePrefix vs n` of its values. -/
theorem chainRun {label : String} {argDerivStarts : List Nat} {vs : List Value} {stashes : List Nat}
    {mv : MultiValue R} (hstash : vs.map (stashOf label) = stashes.map some)
    (hvec : ∀ v ∈ vs, v.rank = 1 ∧ v.isTimeSeries = false ∧ 0 < v.numberOfValues)
    (hnodup : stashes.Nodup) (hout : ∀ s ∈ stashes, s ∉ outputs)
    (hfresh : ∀ s ∈ stashes, mv.active s = [] ∧ mv.derivatives s mv.taskIndex = 0)
    (hstarts : ∀ j < vs.length, argDerivStarts.getD j 0 = valuePrefix vs j) :
    ∀ n, n ≤ vs.length →
      (List.range n).foldl (chainStep label argDerivStarts outputs derivatives vs) mv =
        (stashes.take n).foldl (seedStash mv.taskIndex)
          ((vs.take n).foldl (noChainStep outputs derivatives mv.taskIndex) (mv, 0, 0)).1 ∧
      ((vs.take n).foldl (noChainStep outputs derivatives mv.taskIndex) (mv, 0, 0)).2 = (valuePrefix vs n, n)
  | 0, _ => ⟨rfl, rfl⟩
  | n + 1, hn => by
    obtain ⟨ih, hst⟩ := chainRun hstash hvec hnodup hout hfresh hstarts n (by omega)
    have hlen : stashes.length = vs.length := by simpa using (congrArg List.length hstash).symm
    have hnv : n < vs.length := by omega
    have hns : n < stashes.length := by omega
    have hget : vs.getD n default = vs[n] := List.getD_eq_getElem _ _ hnv
    obtain ⟨hrank, hts, -⟩ := hvec _ (show vs.getD n default ∈ vs from hget ▸ List.getElem_mem hnv)
    have hsn : stashOf label (vs.getD n default) = some stashes[n] := by
      have h := congrArg (·[n]?) hstash
      simpa [List.getElem?_eq_getElem hnv, List.getElem?_eq_getElem hns, hget] using h
    set N := (vs.take n).foldl (noChainStep outputs derivatives mv.taskIndex) (mv, 0, 0) with hN
    have hout_n := hout _ (List.getElem_mem hns)
    obtain ⟨hfa, hfd⟩ := hfresh _ (List.getElem_mem hns)
    obtain ⟨hsd, hsa⟩ := foldl_seedStash_of_not_mem (t := mv.taskIndex) (getElem_not_mem_take hnodup hns) N.1
    obtain ⟨hnd, hna⟩ := @foldl_noChainStep_of_not_mem R _ outputs derivatives mv.taskIndex _ hout_n
      (vs.take n) (mv, 0, 0)
    have htask : ((stashes.take n).foldl (seedStash mv.taskIndex) N.1).taskIndex = mv.taskIndex :=
      (foldl_seedStash_taskIndex _ _).trans (foldl_noChainStep_taskIndex _ _)
    have hstart : ∀ k < n, argDerivStarts.getD k 0 ≠ argDerivStarts.getD n 0 := fun k hk => by
      rw [hstarts k (by omega), hstarts n hnv]
      have hk1 := @valuePrefix_succ vs k (by omega)
      have hkn := valuePrefix_mono vs (show k + 1 ≤ n by omega)
      have hkpos := (hvec _ (List.getElem_mem (show k < vs.length by omega))).2.2
      rw [List.getD_eq_getElem _ _ (show k < vs.length by omega)] at hk1
      omega
    rw [List.range_succ, List.foldl_append, List.foldl_cons, List.foldl_nil, ih,
      chainStep_fresh hsn (by omega) hts (by rw [hsa, hna, hfa]) (by rw [htask, hsd, hnd, hfd]) hout_n hstart,
      htask, List.take_succ, List.take_succ, List.getElem?_eq_getElem hns, List.getElem?_eq_getElem hnv,
      Option.toList_some, Option.toList_some, List.foldl_append, List.foldl_append, ← hN, List.foldl_cons,
      List.foldl_nil, List.foldl_cons, List.foldl_nil, componentLoop_seedStash hout_n,
      componentLoop_foldl_seedStash fun s hs => hout s (List.mem_of_mem_take hs)]
    have hrank' : vs[n].rank = 1 := hget ▸ hrank
    refine ⟨?_, ?_⟩ <;> simp only [noChainStep, hst, hrank', beq_self_eq_true, ↓reduceIte, hstarts n hnv]
    rw [valuePrefix_succ hnv, hget]

end Run

/-! ## Chaining equivalence -/

section Equivalence

variable {R : Type} [Semiring R]

/-- In a chain, `FunctionOfVector::performTask` on vectors that it reads from stashes of their own,
fresh in the record, with `arg_deriv_starts` the blocks outside a chain: the record outside a chain,
plus the seed of each stash. -/
theorem performTask_chained_eq (myfunc : List R → List R × (Nat → Nat → R)) (label : String) (argstart : Nat)
    (args : List (Argument R)) (argDerivStarts outputs : List Nat) (current : Nat) (mv : MultiValue R)
    (stashes : List Nat)
    (hvec : ∀ a ∈ args.drop argstart, a.value.rank = 1 ∧ a.value.isTimeSeries = false ∧
      a.valueHasBeenSet = true ∧ current < a.value.numberOfValues)
    (hstash : (args.drop argstart).map (stashOf label ·.value) = stashes.map some)
    (hnodup : stashes.Nodup) (hout : ∀ s ∈ stashes, s ∉ outputs) (htask : mv.taskIndex = current)
    (hfresh : ∀ s ∈ stashes, mv.active s = [] ∧ mv.derivatives s current = 0) (hne : argDerivStarts ≠ [])
    (hstarts : ∀ j < (args.drop argstart).length,
      argDerivStarts.getD j 0 = valuePrefix ((args.drop argstart).map (·.value)) j) :
    performTask myfunc label true false argstart args argDerivStarts outputs current mv =
      stashes.foldl (seedStash current) (performTask myfunc label false false argstart args argDerivStarts outputs current mv) := by
  have hxs : (args.drop argstart).map (fun a => if a.value.rank == 0 then a.get 0
        else if !a.valueHasBeenSet then mv.values a.value.positionInStream else a.get mv.taskIndex) =
      (args.drop argstart).map (fun a => if a.value.rank == 1 then a.get current else a.get 0) :=
    List.map_congr_left fun a ha => by
      obtain ⟨hr, -, hset, -⟩ := hvec a ha
      simp [hr, hset, htask]
  have hemp : argDerivStarts.isEmpty = false := List.isEmpty_eq_false_iff_exists_mem.mpr (List.exists_mem_of_ne_nil _ hne)
  simp only [performTask, ↓reduceIte, Bool.true_and, Bool.false_and, Bool.false_eq_true, hxs, hemp, Bool.not_false]
  generalize myfunc _ = p
  obtain ⟨vals, ders⟩ := p
  set vs := (args.drop argstart).map (·.value)
  have hlen : (args.drop argstart).length = vs.length := (List.length_map _ _).symm
  have hrun := @chainRun R _ outputs ders label argDerivStarts vs stashes (addValues outputs vals mv)
    (by rw [List.map_map]; exact hstash)
    (fun v hv => by
      obtain ⟨a, ha, rfl⟩ := List.mem_map.mp hv
      obtain ⟨hr, hts, -, hc⟩ := hvec a ha
      exact ⟨hr, hts, by omega⟩)
    hnodup hout (fun s hs => by simpa [htask] using hfresh s hs) (hlen ▸ hstarts) vs.length le_rfl
  have hslen : stashes.length = vs.length := by simpa [vs] using (congrArg List.length hstash).symm
  rw [hlen, hrun.1, List.take_length, ← hslen, List.take_length, addValues_taskIndex, htask]

/-- `f: CUSTOM ARG=v FUNC=x` on task 2 of the five-element `v` stored in stash `7`, with the layout
`arg_deriv_starts = [0, 5]` of one argument: chained, the record is the one outside a chain with
the seed of stash `7`. -/
theorem performTask_chained_eq_storedVector :
    performTask (fun xs => ([xs.sum], fun _ _ => (1 : Int))) "f" true false 0 [⟨storedVector, true, fun k => k⟩]
        [0, 5] [0] 2 (MultiValue.clear 2) =
      [7].foldl (seedStash 2) (performTask (fun xs => ([xs.sum], fun _ _ => (1 : Int))) "f" false false 0
        [⟨storedVector, true, fun k => k⟩] [0, 5] [0] 2 (MultiValue.clear 2)) :=
  performTask_chained_eq _ "f" 0 _ [0, 5] [0] 2 _ [7] (by decide) (by decide) (by decide) (by decide) rfl
    (by decide) (by decide) (by decide)

end Equivalence

end Plumed.Function
