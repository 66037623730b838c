/-
`cholesky` and `chol_elsolve` of Matrix.h.

`chol_elsolve` solves `M·y = b` by forward substitution for a lower-triangular `M`; before it, its
assertion reads `M(0,1)`, element `1` of the store, which a `1 × 1` matrix does not have.

`cholesky` runs the `LDLᵀ` recurrence with a zero column below a zero pivot, then scales the
columns of `L` by `√D`. On a symmetric positive-semidefinite matrix it returns a lower-triangular
`B` with `B·Bᵀ = A`. The proof follows the residual matrices
`S m a b = A a b − Σ_{k<m} L a k · L b k · D k`: each is positive semidefinite on the indices
`≥ m` (`residualPSD_all`), so the pivot `D m = S m m m` is not negative, and a zero pivot has a zero
column below it, which the code's zero branch then writes.
-/
import Mathlib.Algebra.Ring.Defs
import Plumed.Tools.Matrix
import Mathlib.Algebra.BigOperators.Group.Finset
import Mathlib.Algebra.BigOperators.Ring
import Mathlib.Algebra.EuclideanDomain.Field
import Mathlib.Algebra.Order.Field.Basic
import Mathlib.Data.Real.Sqrt

namespace Plumed.Tools

open Finset

theorem foldl_sub_range {T : Type} [AddCommGroup T] (f : Nat → T) (n : Nat) (a : T) :
    (List.range n).foldl (fun v k => v - f k) a = a - ∑ k ∈ range n, f k := by
  induction n with
  | zero => simp
  | succ n ih =>
    rw [List.range_succ, List.foldl_append, ih, List.foldl_cons, List.foldl_nil, sum_range_succ, sub_sub]

theorem sum_range_lower {T : Type} [AddCommMonoid T] {f : Nat → T} {i n : Nat} (hi : i < n)
    (h : ∀ j, i < j → j < n → f j = 0) : ∑ j ∈ range n, f j = ∑ j ∈ range (i + 1), f j :=
  (sum_subset (range_subset.mpr hi) fun j hjn hji =>
    h j (by simpa using hji) (mem_range.mp hjn)).symm

/-! ## `chol_elsolve` -/

section Elsolve

variable {T : Type} [Field T]

/-- Pass `i` of `chol_elsolve`'s loop: `y[i] = b[i]`, `y[i] -= M(i,j)·y[j]` for `j < i`, then
`y[i] *= 1.0/M(i,i)`. The model builds `y` element by element, as each `y[i]` is written before it
is read. -/
def elsolveStep (M : Matrix T) (b y : List T) (i : Nat) : List T :=
  y ++ [(List.range i).foldl (fun yi j => yi - M.entry i j * y.getD j 0) (b.getD i 0) * (1 / M.entry i i)]

/-- `chol_elsolve(M, b, y)`: the assertion `M.rw==M.cl && M(0,1)==0.0 && b.size()==M.rw`, whose
read of `M(0,1)` is checked against the store, then forward substitution. -/
def cholElsolve [DecidableEq T] (M : Matrix T) (b : List T) : Except String (List T) :=
  if M.rw ≠ M.cl then .error "assertion failed: M.rw==M.cl && M(0,1)==0.0 && b.size()==M.rw"
  else match M.read? 0 1 with
    | none => .error "M(0,1) reads past the end of the matrix"
    | some m01 =>
      if m01 ≠ 0 ∨ b.length ≠ M.rw then .error "assertion failed: M.rw==M.cl && M(0,1)==0.0 && b.size()==M.rw"
      else .ok ((List.range M.rw).foldl (elsolveStep M b) [])

/-- After `k` passes, `y` has `k` elements and solves the first `k` rows of the triangular system. -/
theorem elsolve_run (M : Matrix T) (b : List T) (hdiag : ∀ i < M.rw, M.entry i i ≠ 0) :
    ∀ k ≤ M.rw, ((List.range k).foldl (elsolveStep M b) []).length = k ∧
      ∀ i < k, ∑ j ∈ range (i + 1), M.entry i j * ((List.range k).foldl (elsolveStep M b) []).getD j 0 =
        b.getD i 0
  | 0, _ => ⟨rfl, fun _ h => absurd h (Nat.not_lt_zero _)⟩
  | k + 1, hk => by
    obtain ⟨hlen, hrows⟩ := elsolve_run M b hdiag k (by omega)
    rw [List.range_succ, List.foldl_append, List.foldl_cons, List.foldl_nil]
    set y := (List.range k).foldl (elsolveStep M b) []
    have hget : ∀ j < k, (elsolveStep M b y k).getD j 0 = y.getD j 0 := fun j hj => by
      rw [elsolveStep, List.getD_append _ _ _ _ (by omega)]
    refine ⟨by simp [elsolveStep, hlen], fun i hi => ?_⟩
    rcases Nat.lt_or_ge i k with hik | hik
    · rw [← hrows i hik]
      exact sum_congr rfl fun j hj => by rw [hget j (by simp at hj; omega)]
    · obtain rfl : i = k := by omega
      have hkk : (elsolveStep M b y i).getD i 0 =
          (b.getD i 0 - ∑ j ∈ range i, M.entry i j * y.getD j 0) * (1 / M.entry i i) := by
        rw [elsolveStep, List.getD_append_right _ _ _ _ (by omega), hlen, Nat.sub_self,
          foldl_sub_range]; rfl
      rw [sum_range_succ, hkk, sum_congr rfl fun j hj => by rw [hget j (mem_range.mp hj)], mul_one_div,
        mul_div_cancel₀ _ (hdiag i (by omega)), add_sub_cancel]

/-- For `n ≥ 2`, on a lower-triangular `M` with a non-zero diagonal, `chol_elsolve` passes its
assertion and returns the `y` with `M·y = b`. -/
theorem cholElsolve_solves [DecidableEq T] (M : Matrix T) (b : List T) (hn : 2 ≤ M.rw) (hsq : M.rw = M.cl)
    (hlow : ∀ i j, i < j → j < M.rw → M.entry i j = 0) (hdiag : ∀ i < M.rw, M.entry i i ≠ 0)
    (hb : b.length = M.rw) :
    ∃ y, cholElsolve M b = .ok y ∧ y.length = M.rw ∧
      ∀ i < M.rw, ∑ j ∈ range M.rw, M.entry i j * y.getD j 0 = b.getD i 0 := by
  have h01 : M.read? 0 1 = some (M.entry 0 1) := by
    rw [Matrix.read?, Matrix.entry, List.get?_eq_getElem?, List.getElem?_eq_getElem (by
      rw [M.length_data]; exact Matrix.index_lt (by omega) (by omega)), List.getD_eq_getElem]
  obtain ⟨hlen, hrows⟩ := elsolve_run M b hdiag M.rw le_rfl
  refine ⟨_, ?_, hlen, fun i hi => ?_⟩
  · rw [cholElsolve, if_neg (by omega), h01]
    exact if_neg (by simp [hlow 0 1 (by omega) (by omega), hb])
  · rw [sum_range_lower hi fun j hij hj => by rw [hlow i j hij hj, zero_mul]]
    exact hrows i hi

/-- The `1 × 1` matrix `[2]`: the assertion reads `M(0,1)`, at index `1` of a store of one
element. -/
theorem cholElsolve_oneByOne :
    (⟨1, 1, [2], rfl⟩ : Matrix ℝ).read? 0 1 = none ∧
      cholElsolve (⟨1, 1, [2], rfl⟩ : Matrix ℝ) [4] = .error "M(0,1) reads past the end of the matrix" :=
  ⟨rfl, rfl⟩

end Elsolve

/-! ## `cholesky` -/

section Cholesky

variable {T : Type} [LinearOrderedField T]

/-- `L(i,j) = v` on the dense `L`. -/
def setEntry (L : Nat → Nat → T) (i j : Nat) (v : T) : Nat → Nat → T :=
  fun a b => if a = i ∧ b = j then v else L a b

/-- Column `j` of row `i`: `L(i,j) = A(i,j) − Σ_{k<j} L(i,k)·L(j,k)·D[k]`, then divided by `D[j]`, or
`0` when `D[j]` is zero. The code subtracts in place in `L(i,j)`, which no read of the loop sees. -/
def cholColumn (A : Matrix T) (i : Nat) (D : Nat → T) (L : Nat → Nat → T) (j : Nat) : Nat → Nat → T :=
  let v := (List.range j).foldl (fun v k => v - L i k * L j k * D k) (A.entry i j)
  setEntry L i j (if D j ≠ 0 then v / D j else 0)

/-- Row `i`: `L(i,i) = 1`, the columns `j < i`, then `D[i] = A(i,i) − Σ_{k<i} L(i,k)·L(i,k)·D[k]`. -/
def cholRow (A : Matrix T) (st : (Nat → Nat → T) × (Nat → T)) (i : Nat) : (Nat → Nat → T) × (Nat → T) :=
  let L := (List.range i).foldl (cholColumn A i st.2) (setEntry st.1 i i 1)
  (L, Function.update st.2 i ((List.range i).foldl (fun d k => d - L i k * L i k * st.2 k) (A.entry i i)))

/-- `cholesky(A, B)`: the assertion `A.rw==A.cl && A.isSymmetric()`; `L = 0` and `D = 0`, the rows;
then `D[i] = D[i] > 0 ? sqrt(D[i]) : 0`, and `B = 0` with `B(i,j) += L(i,j)·D[j]` for `j ≤ i`.
`sqrt` is the square root of the element type. -/
def cholesky (sqrt : T → T) (A : Matrix T) : Except String (Matrix T) :=
  if A.rw = A.cl ∧ A.isSymmetric then
    let st := (List.range A.rw).foldl (cholRow A) (fun _ _ => 0, fun _ => 0)
    let D := fun i => if 0 < st.2 i then sqrt (st.2 i) else 0
    .ok (Matrix.ofFn A.rw A.cl fun i j => if j ≤ i then st.1 i j * D j else 0)
  else .error "assertion failed: A.rw==A.cl && A.isSymmetric()"

/-! ### What the loops compute -/

/-- The residual after `m` columns: `S m a b = A(a,b) − Σ_{k<m} L(a,k)·L(b,k)·D[k]`. -/
def residual (A : Matrix T) (L : Nat → Nat → T) (D : Nat → T) (m a b : Nat) : T :=
  A.entry a b - ∑ k ∈ range m, L a k * L b k * D k

/-- Row `a` as `cholesky` leaves it: each column is its residual over the pivot (zero below a zero
pivot), a unit diagonal, the pivot the diagonal residual, and zeros above the diagonal. -/
structure RowSpec (A : Matrix T) (L : Nat → Nat → T) (D : Nat → T) (a : Nat) : Prop where
  column : ∀ k < a, L a k = if D k ≠ 0 then residual A L D k a k / D k else 0
  diag : L a a = 1
  pivot : D a = residual A L D a a a
  upper : ∀ b, a < b → L a b = 0

/-- The rows `< m` are done and the others still zero. -/
def RowsDone (A : Matrix T) (m : Nat) (st : (Nat → Nat → T) × (Nat → T)) : Prop :=
  (∀ a < m, RowSpec A st.1 st.2 a) ∧ ∀ a, m ≤ a → ∀ b, st.1 a b = 0

theorem residual_congr {A : Matrix T} {L L' : Nat → Nat → T} {D D' : Nat → T} {m a b : Nat}
    (ha : ∀ k < m, L a k = L' a k) (hb : ∀ k < m, L b k = L' b k) (hD : ∀ k < m, D k = D' k) :
    residual A L D m a b = residual A L' D' m a b := by
  unfold residual
  exact congrArg _ (sum_congr rfl fun k hk => by
    rw [ha k (mem_range.mp hk), hb k (mem_range.mp hk), hD k (mem_range.mp hk)])

theorem RowSpec.congr {A : Matrix T} {L L' : Nat → Nat → T} {D D' : Nat → T} {a : Nat}
    (h : RowSpec A L D a) (hL : ∀ c ≤ a, ∀ b, L c b = L' c b) (hD : ∀ c ≤ a, D c = D' c) :
    RowSpec A L' D' a where
  column k hk := by
    rw [← hL a le_rfl, h.column k hk, hD k (by omega),
      residual_congr (fun _ _ => hL a le_rfl _) (fun _ _ => hL k (by omega) _) fun c _ => hD c (by omega)]
  diag := by rw [← hL a le_rfl, h.diag]
  pivot := by
    rw [← hD a le_rfl, h.pivot,
      residual_congr (fun _ _ => hL a le_rfl _) (fun _ _ => hL a le_rfl _) fun c _ => hD c (by omega)]
  upper b hb := by rw [← hL a le_rfl, h.upper b hb]

/-- The column loop of row `m`, after `j ≤ m` passes: the entries it has not reached are as before,
and the columns `k < j` of row `m` are their residuals over the pivots. -/
theorem cholColumns_spec (A : Matrix T) (D : Nat → T) (L : Nat → Nat → T) (m : Nat) :
    ∀ j ≤ m, (∀ a b, a ≠ m ∨ j ≤ b → (List.range j).foldl (cholColumn A m D) L a b = L a b) ∧
      ∀ k < j, (List.range j).foldl (cholColumn A m D) L m k =
        if D k ≠ 0 then residual A ((List.range j).foldl (cholColumn A m D) L) D k m k / D k else 0
  | 0, _ => ⟨fun _ _ _ => rfl, fun _ hk => absurd hk (Nat.not_lt_zero _)⟩
  | j + 1, hj => by
    obtain ⟨hframe, hcol⟩ := cholColumns_spec A D L m j (by omega)
    rw [List.range_succ, List.foldl_append, List.foldl_cons, List.foldl_nil]
    set Lj := (List.range j).foldl (cholColumn A m D) L
    have hnew : ∀ a b, ¬(a = m ∧ b = j) → cholColumn A m D Lj j a b = Lj a b := fun a b hab => by
      simp only [cholColumn, setEntry, if_neg hab]
    have hres : ∀ k ≤ j, residual A (cholColumn A m D Lj j) D k m k = residual A Lj D k m k := fun k hk =>
      residual_congr (fun c hc => hnew m c (by omega)) (fun c _ => hnew k c (by omega)) fun _ _ => rfl
    refine ⟨fun a b hab => (hnew a b (by omega)).trans (hframe a b (by omega)), fun k hk => ?_⟩
    rw [hres k (by omega)]
    rcases Nat.lt_or_ge k j with hkj | hkj
    · rw [hnew m k (by omega), hcol k hkj]
    · obtain rfl : k = j := by omega
      simp only [cholColumn, setEntry, and_self, if_true, foldl_sub_range]
      rfl

/-- One row keeps the rows done: row `m` meets its specification and no other row changes. -/
theorem cholRow_rowsDone (A : Matrix T) {m : Nat} {st : (Nat → Nat → T) × (Nat → T)}
    (h : RowsDone A m st) : RowsDone A (m + 1) (cholRow A st m) := by
  obtain ⟨hframe, hcol⟩ := cholColumns_spec A st.2 (setEntry st.1 m m 1) m m le_rfl
  set Lm := (List.range m).foldl (cholColumn A m st.2) (setEntry st.1 m m 1)
  have hrow : ∀ a b, a ≠ m → Lm a b = st.1 a b := fun a b ha => by
    rw [hframe a b (.inl ha), setEntry, if_neg (by omega)]
  have hD : ∀ c < m, (cholRow A st m).2 c = st.2 c := fun c hc =>
    Function.update_noteq (by omega) _ _
  have hpiv : residual A Lm (cholRow A st m).2 m m m = residual A Lm st.2 m m m :=
    residual_congr (fun _ _ => rfl) (fun _ _ => rfl) hD
  have hL : (cholRow A st m).1 = Lm := rfl
  rw [RowsDone, hL]
  refine ⟨fun a ha => ?_, fun a ha b => ?_⟩
  · rcases Nat.lt_or_ge a m with ham | ham
    · exact (h.1 a ham).congr (fun c hc b => (hrow c b (by omega)).symm) fun c hc => (hD c (by omega)).symm
    · obtain rfl : a = m := by omega
      refine ⟨fun k hk => ?_, ?_, ?_, fun b hb => ?_⟩
      · rw [hcol k hk, hD k hk, residual_congr (fun _ _ => rfl) (fun _ _ => rfl) fun c hc => (hD c (by omega)).symm]
      · rw [hframe a a (.inr le_rfl), setEntry, if_pos ⟨rfl, rfl⟩]
      · rw [hpiv]
        exact (Function.update_same _ _ _).trans (foldl_sub_range _ _ _)
      · rw [hframe a b (.inr (by omega)), setEntry, if_neg (by omega), h.2 a le_rfl b]
  · exact (hrow a b (by omega)).trans (h.2 a (by omega) b)

/-- The rows loop leaves every row done. -/
theorem cholRows_rowsDone (A : Matrix T) (n : Nat) :
    RowsDone A n ((List.range n).foldl (cholRow A) (fun _ _ => 0, fun _ => 0)) := by
  induction n with
  | zero => exact ⟨fun a ha => absurd ha (Nat.not_lt_zero _), fun _ _ _ => rfl⟩
  | succ n ih =>
    rw [List.range_succ, List.foldl_append, List.foldl_cons, List.foldl_nil]
    exact cholRow_rowsDone A ih

/-! ### The residuals of a positive-semidefinite matrix -/

/-- The quadratic form of the residual after `m` columns, over the indices `< n`. -/
def residualForm (A : Matrix T) (L : Nat → Nat → T) (D : Nat → T) (n m : Nat) (z : Nat → T) : T :=
  ∑ a ∈ range n, ∑ b ∈ range n, z a * residual A L D m a b * z b

section Residuals

variable {A : Matrix T} {L : Nat → Nat → T} {D : Nat → T} {n : Nat}

@[simp] theorem residual_zero (a b : Nat) : residual A L D 0 a b = A.entry a b := by
  simp [residual]

theorem residual_succ (m a b : Nat) :
    residual A L D (m + 1) a b = residual A L D m a b - L a m * L b m * D m := by
  rw [residual, residual, sum_range_succ, sub_add_eq_sub_sub]

theorem residual_symm (hsymm : ∀ a b, a < n → b < n → A.entry a b = A.entry b a) {a b : Nat}
    (ha : a < n) (hb : b < n) (m : Nat) : residual A L D m a b = residual A L D m b a := by
  rw [residual, residual, hsymm a b ha hb]
  exact congrArg _ (sum_congr rfl fun k _ => by ring)

theorem residualForm_add_single {m p : Nat} (hp : p < n)
    (hsym : ∀ a < n, residual A L D m a p = residual A L D m p a) (z : Nat → T) (c : T) :
    residualForm A L D n m (fun a => z a + if a = p then c else 0) =
      residualForm A L D n m z + 2 * c * ∑ a ∈ range n, z a * residual A L D m a p +
        c * c * residual A L D m p p := by
  have hrow : ∑ b ∈ range n, c * residual A L D m p b * z b = c * ∑ a ∈ range n, z a * residual A L D m a p := by
    rw [mul_sum]; exact sum_congr rfl fun b hb => by rw [← hsym b (mem_range.mp hb)]; ring
  simp only [residualForm, add_mul, mul_add, sum_add_distrib, mul_ite, ite_mul, mul_zero, zero_mul,
    sum_ite_irrel, sum_const_zero, sum_ite_eq', mem_range, hp, if_true, hrow, ← sum_mul]
  ring

/-- One column off the residual takes `D m · (Σ z a·L a m)²` off the form. -/
theorem residualForm_succ (m : Nat) (z : Nat → T) :
    residualForm A L D n (m + 1) z = residualForm A L D n m z - D m * (∑ a ∈ range n, z a * L a m) ^ 2 := by
  simp only [residualForm, residual_succ, mul_sub, sub_mul, sum_sub_distrib]
  rw [sq, sum_mul_sum, mul_sum]
  exact congrArg _ (sum_congr rfl fun a _ => by rw [mul_sum]; exact sum_congr rfl fun b _ => by ring)

/-- The residual after `m` columns is positive semidefinite on the indices `≥ m`. -/
def ResidualPSD (A : Matrix T) (L : Nat → Nat → T) (D : Nat → T) (n m : Nat) : Prop :=
  ∀ z : Nat → T, (∀ a < m, z a = 0) → 0 ≤ residualForm A L D n m z

variable (hsymm : ∀ a b, a < n → b < n → A.entry a b = A.entry b a)
include hsymm

theorem residualForm_single {m p : Nat} (hp : p < n) (c : T) :
    residualForm A L D n m (fun a => 0 + if a = p then c else 0) = c * c * residual A L D m p p := by
  rw [residualForm_add_single hp (fun a ha => residual_symm hsymm ha hp m)]
  simp [residualForm]

/-- A pivot of a positive-semidefinite residual is not negative. -/
theorem residual_diag_nonneg {m p : Nat} (hpsd : ResidualPSD A L D n m) (hm : m ≤ p) (hp : p < n) :
    0 ≤ residual A L D m p p := by
  have h := hpsd (fun a => 0 + if a = p then 1 else 0) fun a ha => by simp [show a ≠ p by omega]
  rwa [residualForm_single hsymm hp 1, one_mul, one_mul] at h

/-- Below a zero pivot of a positive-semidefinite residual, the column is zero. -/
theorem residual_column_zero {m p a : Nat} (hpsd : ResidualPSD A L D n m) (hm : m ≤ p) (hpa : p < a)
    (ha : a < n) (hzero : residual A L D m p p = 0) : residual A L D m a p = 0 := by
  by_contra hr
  set r := residual A L D m a p
  set c := -(residual A L D m a a + 1) / (2 * r)
  have h := hpsd (fun x => (0 + if x = a then 1 else 0) + if x = p then c else 0) fun x hx => by
    simp [show x ≠ a by omega, show x ≠ p by omega]
  rw [residualForm_add_single (by omega) (fun b hb => residual_symm hsymm hb (by omega) m),
    residualForm_single hsymm ha, hzero] at h
  have hsum : ∑ x ∈ range n, (0 + if x = a then (1 : T) else 0) * residual A L D m x p = r := by
    simp [ha]
  rw [hsum] at h
  have hc : 2 * c * r = -(residual A L D m a a + 1) := by
    rw [show 2 * c * r = c * (2 * r) by ring]
    exact div_mul_cancel₀ _ (mul_ne_zero two_ne_zero hr)
  rw [hc, mul_zero, add_zero, one_mul, one_mul] at h
  linarith

variable (hrows : ∀ a < n, RowSpec A L D a)
include hrows

/-- Below the diagonal, the residual of column `m` is `L a m · D m`. -/
theorem residual_column {m a : Nat} (hpsd : ResidualPSD A L D n m) (hma : m < a) (ha : a < n) :
    residual A L D m a m = L a m * D m := by
  rw [(hrows a ha).column m hma]
  by_cases hD : D m = 0
  · rw [if_neg (not_not.mpr hD), zero_mul]
    exact residual_column_zero hsymm hpsd le_rfl hma ha ((hrows m (by omega)).pivot ▸ hD)
  · rw [if_pos hD, div_mul_cancel₀ _ hD]

/-- One more column keeps the residual positive semidefinite. -/
theorem residualPSD_succ {m : Nat} (hpsd : ResidualPSD A L D n m) (hm : m < n) :
    ResidualPSD A L D n (m + 1) := by
  intro z hz
  set w := ∑ a ∈ range n, z a * L a m
  rw [residualForm_succ]
  have hpiv : D m = residual A L D m m m := (hrows m hm).pivot
  by_cases hD : D m = 0
  · rw [hD, zero_mul, sub_zero]; exact hpsd z fun a ha => hz a (by omega)
  · have hcol : ∑ a ∈ range n, z a * residual A L D m a m = D m * w := by
      rw [mul_sum]
      refine sum_congr rfl fun a ha => ?_
      rcases Nat.lt_or_ge m a with hma | hma
      · rw [residual_column hsymm hrows hpsd hma (mem_range.mp ha)]; ring
      · rw [hz a (by omega)]; ring
    have h := hpsd (fun a => z a + if a = m then -w else 0) fun a ha => by
      simp [hz a (by omega), show a ≠ m by omega]
    rw [residualForm_add_single hm (fun a ha => residual_symm hsymm ha hm m), hcol, ← hpiv] at h
    linarith

/-- Every residual of a positive-semidefinite matrix is positive semidefinite. -/
theorem residualPSD_all (hpsd : ∀ x : Nat → T, 0 ≤ ∑ a ∈ range n, ∑ b ∈ range n, x a * A.entry a b * x b) :
    ∀ m ≤ n, ResidualPSD A L D n m
  | 0, _ => fun z _ => by simpa [residualForm] using hpsd z
  | m + 1, hm => residualPSD_succ hsymm hrows (residualPSD_all hpsd m (by omega)) (by omega)

/-- Each column is taken off for good: after all `n` columns, the residual of column `m` is zero
from the diagonal down. -/
theorem residual_final_zero {m a : Nat} (hpsd : ResidualPSD A L D n m) (hm : m ≤ a) (ha : a < n) :
    ∀ k, m < k → k ≤ n → residual A L D k a m = 0
  | k + 1, hk, hkn => by
    rw [residual_succ]
    by_cases hmk : m < k
    · rw [residual_final_zero hpsd hm ha k hmk (by omega), (hrows m (by omega)).upper k hmk]; ring
    · obtain rfl : k = m := by omega
      by_cases hka : k = a
      · subst hka; rw [(hrows k ha).diag, ← (hrows k ha).pivot]; ring
      · rw [residual_column hsymm hrows hpsd (by omega) ha, (hrows k (by omega)).diag]; ring

/-- On a symmetric positive-semidefinite matrix, the pivots are not negative and
`Σ_k L a k · L b k · D k = A a b`. -/
theorem ldl_of_psd (hpsd : ∀ x : Nat → T, 0 ≤ ∑ a ∈ range n, ∑ b ∈ range n, x a * A.entry a b * x b) :
    (∀ m < n, 0 ≤ D m) ∧ ∀ a b, a < n → b < n → ∑ k ∈ range n, L a k * L b k * D k = A.entry a b := by
  have hall := residualPSD_all hsymm hrows hpsd
  have hlow : ∀ a b, b ≤ a → a < n → ∑ k ∈ range n, L a k * L b k * D k = A.entry a b := fun a b hba ha => by
    have h := residual_final_zero hsymm hrows (hall b (by omega)) hba ha n (by omega) le_rfl
    rw [residual, sub_eq_zero] at h
    exact h.symm
  refine ⟨fun m hm => (hrows m hm).pivot ▸ residual_diag_nonneg hsymm (hall m hm.le) le_rfl hm,
    fun a b ha hb => ?_⟩
  rcases Nat.le_total b a with hba | hab
  · exact hlow a b hba ha
  · rw [hsymm a b ha hb, ← hlow b a hab hb]
    exact sum_congr rfl fun k _ => by ring

end Residuals

theorem isSymmetric_of_symm {A : Matrix T} (hsq : A.rw = A.cl)
    (hsymm : ∀ a b, a < A.rw → b < A.rw → A.entry a b = A.entry b a) : A.isSymmetric = true := by
  simp only [Matrix.isSymmetric, Bool.and_eq_true, beq_iff_eq, List.all_eq_true, List.mem_range]
  exact ⟨hsq, fun i hi j hj => hsymm j i (by omega) hi⟩

/-- `cholesky`, with a square root that squares back every positive value, factors a symmetric
positive-semidefinite matrix as `B·Bᵀ` with `B` lower triangular. -/
theorem cholesky_factor (sqrt : T → T) (hsqrt : ∀ x, 0 < x → sqrt x * sqrt x = x) (A : Matrix T)
    (hsq : A.rw = A.cl) (hsymm : ∀ a b, a < A.rw → b < A.rw → A.entry a b = A.entry b a)
    (hpsd : ∀ x : Nat → T, 0 ≤ ∑ a ∈ range A.rw, ∑ b ∈ range A.rw, x a * A.entry a b * x b) :
    ∃ B, cholesky sqrt A = .ok B ∧ B.rw = A.rw ∧ B.cl = A.rw ∧
      (∀ i j, i < j → j < A.rw → B.entry i j = 0) ∧
      ∀ i j, i < A.rw → j < A.rw → ∑ k ∈ range A.rw, B.entry i k * B.entry j k = A.entry i j := by
  set st := (List.range A.rw).foldl (cholRow A) (fun _ _ => 0, fun _ => 0)
  have hrows := (cholRows_rowsDone A A.rw).1
  obtain ⟨hD, hldl⟩ := ldl_of_psd hsymm hrows hpsd
  set Ds := fun i => if 0 < st.2 i then sqrt (st.2 i) else 0
  have hDs : ∀ k < A.rw, Ds k * Ds k = st.2 k := fun k hk => by
    by_cases hpos : 0 < st.2 k
    · simp only [Ds, if_pos hpos, hsqrt _ hpos]
    · simp only [Ds, if_neg hpos, mul_zero]; exact (le_antisymm (not_lt.mp hpos) (hD k hk)).symm
  have hB : ∀ i j, i < A.rw → j < A.rw →
      (Matrix.ofFn A.rw A.cl fun i j => if j ≤ i then st.1 i j * Ds j else 0).entry i j = st.1 i j * Ds j :=
    fun i j hi hj => by
      rw [Matrix.entry_ofFn _ _ _ hi (hsq ▸ hj)]
      split_ifs with hji
      · rfl
      · rw [(hrows i hi).upper j (by omega), zero_mul]
  refine ⟨Matrix.ofFn A.rw A.cl fun i j => if j ≤ i then st.1 i j * Ds j else 0,
    by rw [cholesky, if_pos ⟨hsq, isSymmetric_of_symm hsq hsymm⟩], rfl, hsq.symm,
    fun i j hij hj => ?_, fun i j hi hj => ?_⟩
  · rw [Matrix.entry_ofFn _ _ _ (by omega) (hsq ▸ hj), if_neg (by omega)]
  · rw [← hldl i j hi hj]
    exact sum_congr rfl fun k hk => by
      rw [hB i k hi (mem_range.mp hk), hB j k hj (mem_range.mp hk), ← hDs k (mem_range.mp hk)]; ring

end Cholesky

/-- In exact real arithmetic, `cholesky` of a symmetric positive-semidefinite matrix returns a
lower-triangular `B` with `B·Bᵀ = A`. -/
theorem cholesky_psd (A : Matrix ℝ) (hsq : A.rw = A.cl)
    (hsymm : ∀ a b, a < A.rw → b < A.rw → A.entry a b = A.entry b a)
    (hpsd : ∀ x : Nat → ℝ, 0 ≤ ∑ a ∈ range A.rw, ∑ b ∈ range A.rw, x a * A.entry a b * x b) :
    ∃ B, cholesky Real.sqrt A = .ok B ∧ B.rw = A.rw ∧ B.cl = A.rw ∧
      (∀ i j, i < j → j < A.rw → B.entry i j = 0) ∧
      ∀ i j, i < A.rw → j < A.rw → ∑ k ∈ range A.rw, B.entry i k * B.entry j k = A.entry i j :=
  cholesky_factor Real.sqrt (fun _ hx => Real.mul_self_sqrt hx.le) A hsq hsymm hpsd

/-- The `2 × 2` matrix of ones: semidefinite and singular, so its second pivot is zero. -/
def onesTwo : Matrix ℝ := Matrix.ofFn 2 2 fun _ _ => 1

theorem onesTwo_entry {a b : Nat} (ha : a < 2) (hb : b < 2) : onesTwo.entry a b = 1 :=
  Matrix.entry_ofFn _ _ _ ha hb

theorem cholesky_psd_onesTwo :
    ∃ B, cholesky Real.sqrt onesTwo = .ok B ∧ B.rw = 2 ∧ B.cl = 2 ∧
      (∀ i j, i < j → j < 2 → B.entry i j = 0) ∧
      ∀ i j, i < 2 → j < 2 → ∑ k ∈ range 2, B.entry i k * B.entry j k = onesTwo.entry i j :=
  cholesky_psd onesTwo rfl
    (fun a b ha hb => (onesTwo_entry ha hb).trans (onesTwo_entry hb ha).symm) fun x => by
    simp only [show onesTwo.rw = 2 from rfl, sum_range_succ, sum_range_zero, zero_add]
    rw [onesTwo_entry (a := 0) (b := 0) (by omega) (by omega), onesTwo_entry (a := 0) (b := 1) (by omega) (by omega),
      onesTwo_entry (a := 1) (b := 0) (by omega) (by omega), onesTwo_entry (a := 1) (b := 1) (by omega) (by omega)]
    nlinarith [sq_nonneg (x 0 + x 1)]

end Plumed.Tools
