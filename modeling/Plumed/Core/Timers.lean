/-
The names of the detailed timers of `PlumedMain::justCalculate` and `PlumedMain::backwardPropagate`:
the stage (`4A` forward, `5A` backward), the number the loop gives the action, padded with blanks
to the width of the numbers of the set, and the action's label. The forward loop numbers the
actions from the start of the set, the backward loop from its end. For every set of at most 10⁹
actions and every choice of active actions, the names of the timers each loop starts, in the order
it starts them, are strictly increasing in the order of `std::string` (`timerNames_increasing`): sorted by name, the
timers list the actions as they were run.

The proof: every number below the set's size has at most the padded width of digits, a padded
number of fewer digits starts with more blanks, and numbers with as many digits print in their
order (`decimalDigits_lt`).
-/
import Plumed.Core.PlumedMain
import Plumed.Tools.Convert

namespace Plumed.Core

open Plumed.Tools

/-- `unsigned k=0; unsigned n=1; while(n<m) { n*=10; k++; }` on `fuel` passes, `n` an `unsigned`. -/
def padWidthLoop (m : Nat) : Nat → Nat → Nat → Nat
  | 0, _, k => k
  | fuel + 1, n, k => if n < m then padWidthLoop m fuel (n * 10 % 2 ^ 32) (k + 1) else k

/-- The width the action numbers are padded to, for `m = actionSet.size()` (an `unsigned`); the
loop makes at most `m` passes. -/
def padWidth (size : Nat) : Nat := padWidthLoop (size % 2 ^ 32) (size % 2 ^ 32) 1 0

/-- `for(int i=0; i<pad; i++) actionNumberLabel=" "+actionNumberLabel;` with `pad = k - length`:
nothing when the number is as wide as `k` or wider. -/
def padLabel (k : Nat) (label : String) : String := Nat.repeat (" " ++ ·) (k - label.length) label

/-- The name of the timer of the action numbered `iaction` and labelled `label`, in a set of `size`
actions; `stage` is `"4A "` in the forward loop and `"5A "` in the backward one. -/
def timerName (stage : String) (size iaction : Nat) (label : String) : String :=
  stage ++ padLabel (padWidth size) (toString iaction) ++ " " ++ label

/-- `std::string`'s `operator<`, the order of the timers' names: the lexicographic order of the
characters. -/
def textLt (a b : String) : Prop := List.lt a.data b.data

instance : DecidableRel textLt := fun a b => List.hasDecidableLt a.data b.data

/-- The timers `justCalculate` starts, in order: the action at position `p` is numbered `p`. -/
def calculateTimers (set : List Action) (active : Bool) (isActive : Nat → Bool) : List String :=
  (justCalculate set active isActive).map fun p => timerName "4A " set.length p (actionAt set p).label

/-- The timers `backwardPropagate` starts, in order: the loop runs from the end of the set, so the
action at position `p` is numbered `set.length - 1 - p`. -/
def applyTimers (set : List Action) (active : Bool) (isActive : Nat → Bool) : List String :=
  (backwardPropagate set active isActive).map fun p =>
    timerName "5A " set.length (set.length - 1 - p) (actionAt set p).label

/-! ## The padded width -/

/-- Without overflow, the loop stops at the first power of ten that is at least `m`. -/
theorem padWidthLoop_spec {m : Nat} (hm : m ≤ 10 ^ 9) : ∀ (fuel k : Nat), m ≤ 10 ^ (k + fuel) →
    m ≤ 10 ^ padWidthLoop m fuel (10 ^ k) k ∧ k ≤ padWidthLoop m fuel (10 ^ k) k ∧
      (10 ^ k < m → k < padWidthLoop m fuel (10 ^ k) k)
  | 0, k, hfuel => ⟨hfuel, le_rfl, fun h => absurd hfuel (Nat.not_le.2 h)⟩
  | fuel + 1, k, hfuel => by
    rw [padWidthLoop]
    split
    · rename_i hlt
      have hk : k < 9 := (Nat.pow_lt_pow_iff_right (by omega)).1 (lt_of_lt_of_le hlt hm)
      have hpow : 10 ^ k * 10 % 2 ^ 32 = 10 ^ (k + 1) := by
        rw [← Nat.pow_succ, Nat.mod_eq_of_lt (lt_of_le_of_lt (Nat.pow_le_pow_right (by omega) hk) (by norm_num))]
      rw [hpow]
      obtain ⟨h1, h2, -⟩ := padWidthLoop_spec hm fuel (k + 1) (by rwa [Nat.add_right_comm])
      exact ⟨h1, by omega, fun _ => by omega⟩
    · rename_i hge
      exact ⟨Nat.le_of_not_lt hge, le_rfl, fun h => absurd h hge⟩

theorem padWidth_spec {size : Nat} (hsize : size ≤ 10 ^ 9) :
    size ≤ 10 ^ padWidth size ∧ (1 < size → 1 ≤ padWidth size) := by
  have hmod : size % 2 ^ 32 = size := Nat.mod_eq_of_lt (lt_of_le_of_lt hsize (by norm_num))
  have h := padWidthLoop_spec hsize size 0 (by simpa using (Nat.lt_pow_self (by omega : 1 < 10) size).le)
  rw [padWidth, hmod]
  exact ⟨h.1, fun h1 => h.2.2 (by simpa using h1)⟩

/-! ## Padded numbers -/

theorem padLabel_data (k : Nat) (label : String) :
    (padLabel k label).data = List.replicate (k - label.length) ' ' ++ label.data := by
  unfold padLabel
  induction k - label.length with
  | zero => rfl
  | succ r ih => simp only [Nat.repeat, String.data_append, ih, List.replicate_succ]; rfl

theorem length_decimalDigits_le {i k : Nat} (hk : 1 ≤ k) (hi : i < 10 ^ k) : (decimalDigits i).length ≤ k := by
  rw [← toString_data]
  exact Nat.repr_length i k hk hi

theorem padLabel_lt {i j k : Nat} (hij : i < j) (hj : (decimalDigits j).length ≤ k) :
    List.lt (padLabel k (toString i)).data (padLabel k (toString j)).data ∧
      (padLabel k (toString i)).data.length = (padLabel k (toString j)).data.length := by
  have hlen : ∀ n, (toString n).length = (decimalDigits n).length := fun n => congrArg List.length (toString_data n)
  have hle := length_decimalDigits_mono hij.le
  rw [padLabel_data, padLabel_data, toString_data, toString_data, hlen, hlen]
  refine ⟨?_, by simp only [List.length_append, List.length_replicate]; omega⟩
  rcases Nat.lt_or_eq_of_le hle with hlt | heq
  · obtain ⟨d, rest, hd⟩ := List.exists_cons_of_ne_nil (decimalDigits_ne_nil j)
    have hsplit : k - (decimalDigits i).length = (k - (decimalDigits j).length) +
        ((decimalDigits j).length - (decimalDigits i).length - 1 + 1) := by omega
    rw [hsplit, List.replicate_add, List.replicate_succ, List.append_assoc]
    refine append_lt_append_left _ ?_
    rw [hd]
    exact List.lt.head _ _ (blank_lt_digit (hd ▸ List.mem_cons_self d rest))
  · rw [heq]
    exact append_lt_append_left _ (decimalDigits_lt hij heq)

/-- In a set of at most 10⁹ actions, the timer of a smaller number comes first, whatever the labels. -/
theorem timerName_lt (stage : String) {size i j : Nat} (hsize : size ≤ 10 ^ 9) (hij : i < j) (hj : j < size)
    (label label' : String) : textLt (timerName stage size i label) (timerName stage size j label') := by
  obtain ⟨hfit, hpos⟩ := padWidth_spec hsize
  obtain ⟨hlt, hlen⟩ := padLabel_lt (k := padWidth size) hij
    (length_decimalDigits_le (hpos (by omega)) (lt_of_lt_of_le hj hfit))
  simp only [textLt, timerName, String.data_append, List.append_assoc]
  exact append_lt_append_left _ (lt_append_of_lt _ _ hlt hlen)

/-- In a set of twelve actions the ninth is `4A  9`, before `4A 10`. -/
example : timerName "4A " 12 9 "d" = "4A  9 d" ∧ textLt (timerName "4A " 12 9 "d") (timerName "4A " 12 10 "c") := by
  decide

/-- `justCalculate` and `backwardPropagate` with detailed timers, for every set of at most 10⁹
actions, every flag `active` and every choice of active actions: the names of the timers each loop
starts, in the order it starts them, are strictly increasing. -/
theorem timerNames_increasing (set : List Action) (active : Bool) (isActive : Nat → Bool)
    (hsize : set.length ≤ 10 ^ 9) :
    (calculateTimers set active isActive).Pairwise textLt ∧ (applyTimers set active isActive).Pairwise textLt := by
  unfold calculateTimers applyTimers
  rw [justCalculate_eq, backwardPropagate_eq]
  cases active with
  | false => exact ⟨List.Pairwise.nil, List.Pairwise.nil⟩
  | true =>
    simp only [if_true, List.pairwise_map]
    constructor
    · refine ((List.pairwise_lt_range _).filter _).imp_of_mem fun hp hq hpq => ?_
      exact timerName_lt _ hsize hpq (List.mem_range.1 (List.mem_filter.1 hq).1) _ _
    · refine (List.pairwise_reverse.2 (List.pairwise_lt_range _) |>.filter _).imp_of_mem fun hp hq hpq => ?_
      have hp' := List.mem_range.1 (List.mem_reverse.1 (List.mem_filter.1 hp).1)
      exact timerName_lt _ hsize (by omega) (by omega) _ _

/-- Twelve actions, all active: the numbers `0` to `11` padded to two places. -/
theorem timerNames_increasing_twelve :
    (calculateTimers (List.replicate 12 default) true fun _ => true).Pairwise textLt ∧
      (applyTimers (List.replicate 12 default) true fun _ => true).Pairwise textLt :=
  timerNames_increasing (List.replicate 12 default) true (fun _ => true) (by simp)

end Plumed.Core
