/-
`Tools::convert` of an `unsigned`, as the numbered loops of the shortcuts use it to build the
keywords and labels `KEY1, KEY2, …`: the decimal text of the number. Distinct numbers print
differently (`toString_injective`), so a loop over `j = 1, 2, …` asks for a different keyword or
label at every pass.

`std::string::find`, as the shortcuts use it to look for a keyword or a component in a text.
-/
import Mathlib.Data.Nat.Defs
import Mathlib.Data.Nat.Digits
import Mathlib.Algebra.Order.Ring.Nat
import Mathlib.Tactic.Ring
import Mathlib.Tactic.IntervalCases

namespace Plumed.Tools

/-- The number a decimal text stands for, digit by digit from the left. -/
def decimalValue (cs : List Char) : Nat := cs.foldl (fun acc c => 10 * acc + (c.toNat - 48)) 0

theorem foldl_decimal (cs : List Char) : ∀ acc : Nat,
    cs.foldl (fun acc c => 10 * acc + (c.toNat - 48)) acc = acc * 10 ^ cs.length + decimalValue cs := by
  induction cs with
  | nil => simp [decimalValue]
  | cons c cs ih =>
    intro acc
    simp only [List.foldl_cons, decimalValue, List.length_cons]
    rw [ih, ih (10 * 0 + _)]
    ring

theorem decimalValue_cons (c : Char) (cs : List Char) :
    decimalValue (c :: cs) = (c.toNat - 48) * 10 ^ cs.length + decimalValue cs := by
  rw [decimalValue, List.foldl_cons, foldl_decimal]
  simp

theorem digitChar_value {d : Nat} (hd : d < 10) : (Nat.digitChar d).toNat - 48 = d := by
  interval_cases d <;> rfl

theorem decimalValue_toDigitsCore : ∀ (fuel n : Nat) (ds : List Char), n < fuel →
    decimalValue (Nat.toDigitsCore 10 fuel n ds) = n * 10 ^ ds.length + decimalValue ds
  | 0, _, _, h => absurd h (Nat.not_lt_zero _)
  | fuel + 1, n, ds, h => by
    have hd := digitChar_value (Nat.mod_lt n (by omega : 10 > 0))
    simp only [Nat.toDigitsCore]
    split
    · rename_i h0
      rw [decimalValue_cons, hd]
      have : n % 10 = n := Nat.mod_eq_of_lt (by omega)
      rw [this]
    · rename_i h0
      rw [decimalValue_toDigitsCore fuel (n / 10) _ (by omega), decimalValue_cons, hd, List.length_cons]
      have := Nat.div_add_mod n 10
      calc n / 10 * 10 ^ (ds.length + 1) + (n % 10 * 10 ^ ds.length + decimalValue ds)
          = (10 * (n / 10) + n % 10) * 10 ^ ds.length + decimalValue ds := by ring
        _ = n * 10 ^ ds.length + decimalValue ds := by rw [this]

theorem decimalValue_toString (n : Nat) : decimalValue (toString n).toList = n := by
  show decimalValue (Nat.toDigits 10 n) = n
  rw [Nat.toDigits, decimalValue_toDigitsCore _ _ _ (Nat.lt_succ_self n)]
  simp [decimalValue]

theorem toString_injective : Function.Injective (toString : Nat → String) := fun a b h => by
  rw [← decimalValue_toString a, ← decimalValue_toString b, h]

/-- A label or keyword followed by a number names the number. -/
theorem append_toString_inj {s : String} {a b : Nat} (h : s ++ toString a = s ++ toString b) : a = b := by
  apply toString_injective
  have := congrArg String.data h
  rw [String.data_append, String.data_append] at this
  exact String.ext_iff.2 (List.append_cancel_left this)

/-! ## The digits in order -/

/-- The decimal digits of `n`, most significant first. -/
def decimalDigits (n : Nat) : List Char :=
  if n < 10 then [Nat.digitChar n] else decimalDigits (n / 10) ++ [Nat.digitChar (n % 10)]
termination_by n
decreasing_by omega

theorem toDigitsCore_eq : ∀ (fuel n : Nat) (ds : List Char), n < fuel →
    Nat.toDigitsCore 10 fuel n ds = decimalDigits n ++ ds
  | 0, _, _, h => absurd h (Nat.not_lt_zero _)
  | fuel + 1, n, ds, h => by
    rw [decimalDigits]
    simp only [Nat.toDigitsCore]
    split
    · rw [if_pos (by omega), Nat.mod_eq_of_lt (by omega : n < 10)]; rfl
    · rw [toDigitsCore_eq fuel (n / 10) _ (by omega), if_neg (by omega), List.append_assoc, List.singleton_append]

theorem toString_data (n : Nat) : (toString n).data = decimalDigits n :=
  (toDigitsCore_eq (n + 1) n [] (Nat.lt_succ_self n)).trans (List.append_nil _)

theorem digitChar_lt {a b : Nat} (h : a < b) (hb : b < 10) : Nat.digitChar a < Nat.digitChar b := by
  interval_cases b <;> interval_cases a <;> decide

theorem mem_decimalDigits {c : Char} : c ∈ decimalDigits n → ∃ d < 10, c = Nat.digitChar d := by
  induction n using Nat.strong_induction_on with
  | _ n ih =>
    intro hc
    rw [decimalDigits] at hc
    split at hc
    · exact ⟨n, by omega, List.mem_singleton.1 hc⟩
    · rcases List.mem_append.1 hc with h | h
      · exact ih (n / 10) (by omega) h
      · exact ⟨n % 10, Nat.mod_lt n (by omega), List.mem_singleton.1 h⟩

theorem toString_digits (n : Nat) : ∀ c ∈ (toString n).data, c ∈ "0123456789".data := fun c hc => by
  obtain ⟨d, hd, rfl⟩ := mem_decimalDigits (toString_data n ▸ hc)
  interval_cases d <;> decide

theorem blank_lt_digit {c : Char} (hc : c ∈ decimalDigits n) : ' ' < c := by
  obtain ⟨d, hd, rfl⟩ := mem_decimalDigits hc
  interval_cases d <;> decide

theorem length_decimalDigits (n : Nat) :
    (decimalDigits n).length = if n < 10 then 1 else (decimalDigits (n / 10)).length + 1 := by
  rw [decimalDigits]; split <;> simp

theorem decimalDigits_ne_nil (n : Nat) : decimalDigits n ≠ [] := by
  rw [decimalDigits]; split <;> simp

theorem length_decimalDigits_mono {i j : Nat} (h : i ≤ j) : (decimalDigits i).length ≤ (decimalDigits j).length := by
  induction j using Nat.strong_induction_on generalizing i with
  | _ j ih =>
    rw [length_decimalDigits i, length_decimalDigits j]
    split <;> split
    · exact le_rfl
    · omega
    · omega
    · exact Nat.succ_le_succ (ih (j / 10) (by omega) (Nat.div_le_div_right h))

theorem lt_append_of_lt {x y : List Char} (s t : List Char) (h : List.lt x y) (hlen : x.length = y.length) :
    List.lt (x ++ s) (y ++ t) := by
  induction h with
  | nil b bs => exact absurd hlen (by simp)
  | head as bs hab => exact List.lt.head _ _ hab
  | tail h₁ h₂ _ ih => exact List.lt.tail h₁ h₂ (ih (by simpa using hlen))

theorem append_lt_append_left (p : List Char) {x y : List Char} (h : List.lt x y) : List.lt (p ++ x) (p ++ y) := by
  induction p with
  | nil => exact h
  | cons c p ih => exact List.lt.tail (Char.lt_irrefl c) (Char.lt_irrefl c) ih

/-- Numbers with as many digits print in their order. -/
theorem decimalDigits_lt {i j : Nat} (h : i < j) (hlen : (decimalDigits i).length = (decimalDigits j).length) :
    List.lt (decimalDigits i) (decimalDigits j) := by
  induction j using Nat.strong_induction_on generalizing i with
  | _ j ih =>
    have hli := length_decimalDigits i
    have hlj := length_decimalDigits j
    rw [decimalDigits.eq_1 i, decimalDigits.eq_1 j]
    split <;> split
    · exact List.lt.head _ _ (digitChar_lt h (by omega))
    · have := decimalDigits_ne_nil (j / 10)
      have : (decimalDigits (j / 10)).length ≠ 0 := by simpa using this
      rw [if_pos (by omega)] at hli; rw [if_neg (by omega)] at hlj; omega
    · omega
    · rename_i hi hj
      rw [if_neg hi] at hli; rw [if_neg hj] at hlj
      have hq : i / 10 ≤ j / 10 := Nat.div_le_div_right h.le
      rcases Nat.lt_or_eq_of_le hq with hq | hq
      · exact lt_append_of_lt _ _ (ih (j / 10) (by omega) hq (by omega)) (by omega)
      · rw [hq]
        exact append_lt_append_left _ (List.lt.head _ _ (digitChar_lt (by omega) (Nat.mod_lt j (by omega))))

/-- `std::string::find` of `pat` in the text from position `i`: the first position where it
starts. -/
def findFrom (pat : List Char) : List Char → Nat → Option Nat
  | [], i => if pat.isEmpty then some i else none
  | c :: cs, i => if pat.isPrefixOf (c :: cs) then some i else findFrom pat cs (i + 1)

/-- `std::string::npos`, the largest `size_t`. -/
def npos : Nat := 2 ^ 64 - 1

/-- `std::string::find_first_of(c)`: the position of the first `c`, or `npos`. -/
def findFirstOf (c : Char) (s : List Char) : Nat := (findFrom [c] s 0).getD npos

/-- `std::string::substr(pos, n)`: the at most `n` characters from `pos`. -/
def substr (s : List Char) (pos n : Nat) : List Char := (s.drop pos).take n

theorem findFrom_single_none {c : Char} : ∀ {s : List Char} (i : Nat), c ∉ s → findFrom [c] s i = none
  | [], _, _ => rfl
  | d :: s, i, h => by
    rw [List.mem_cons, not_or] at h
    rw [findFrom, if_neg (by simp [List.isPrefixOf, h.1]), findFrom_single_none (i + 1) h.2]

/-- A character of the text is found at the end of the run of other characters before it. -/
theorem findFrom_single_some {c : Char} : ∀ {s : List Char} (i : Nat), c ∈ s →
    ∃ k < s.length, findFrom [c] s i = some (i + k) ∧ s.take k = s.takeWhile (· ≠ c) ∧
      s.drop (k + 1) = (s.dropWhile (· ≠ c)).drop 1
  | d :: s, i, h => by
    by_cases hd : d = c
    · subst hd
      exact ⟨0, by simp, by simp [findFrom, List.isPrefixOf], by simp, by simp⟩
    · obtain ⟨k, hk, hf, ht, hdr⟩ := findFrom_single_some (i + 1) ((List.mem_cons.1 h).resolve_left (Ne.symm hd))
      refine ⟨k + 1, by simp [hk], ?_, by simp [List.takeWhile_cons, hd, ht], by simp [List.dropWhile_cons, hd, hdr]⟩
      rw [findFrom, if_neg (by simp [List.isPrefixOf, Ne.symm hd]), hf, Nat.add_assoc, Nat.add_comm 1 k]

end Plumed.Tools
