/-
The LAPACK boundary of Matrix.h, and what `Invert` computes through it. `diagMat` and the general
path of `Invert` copy the matrix into LAPACK's column-major array (`da[k++] = A(j,i)`) and read
LAPACK's arrays back: `diagMat` stores the eigenvectors row-wise (`eigenvecs(i,j) = evecs[k++]`),
`Invert` reads the inverse back transposed (`inverse(j,i) = da[k++]`). Element `(r, c)` of the copy
sits at `c·n + r` (`getD_columnMajor`), where both reads look for it, so LAPACK's contracts on the
arrays become statements on the matrices: `dsyevr`'s orthonormal eigenvectors give a correct
`Eigendecomposition` (`diagMat_eigendecomposition`), and `dgetri`'s array an inverse
(`invertGeneral_inverse`).

With them, `Invert` of a nonsingular square matrix, when it returns `0`, returns its inverse on
both sides (`invert_nonsingular`): a symmetric nonsingular matrix has no zero eigenvalue, so
`Vᵀ·diag(1/λ)·V` undoes it. The LAPACK routines are not among the sources; they are parameters
with the contract each meets.
-/
import Plumed.Tools.Invert
import Plumed.Core.ActionSet
import Mathlib.LinearAlgebra.Matrix.NonsingularInverse
import Mathlib.Algebra.BigOperators.Fin

namespace Plumed

open Finset

/-- A left inverse of a square matrix, given by its elements over `n × n` indices, is a right
inverse too. -/
theorem sum_mul_eq_delta_comm {T : Type} [Field T] {n : Nat} {f g : Nat → Nat → T}
    (h : ∀ i j, i < n → j < n → ∑ k ∈ range n, f i k * g k j = if i = j then 1 else 0) :
    ∀ i j, i < n → j < n → ∑ k ∈ range n, g i k * f k j = if i = j then 1 else 0 := by
  have hM : Matrix.of (fun i j : Fin n => f i j) * Matrix.of (fun i j : Fin n => g i j) = 1 := by
    ext i j
    rw [Matrix.mul_apply, Matrix.one_apply]
    simp only [Matrix.of_apply]
    rw [Fin.sum_univ_eq_sum_range (fun k => f i k * g k j) n, h i j i.isLt j.isLt]
    simp [Fin.ext_iff]
  intro i j hi hj
  have hN := congrFun (congrFun (Matrix.mul_eq_one_comm.mp hM) ⟨i, hi⟩) ⟨j, hj⟩
  rw [Matrix.mul_apply, Matrix.one_apply] at hN
  simp only [Matrix.of_apply] at hN
  rw [Fin.sum_univ_eq_sum_range (fun k => g i k * f k j) n] at hN
  simpa using hN

end Plumed

namespace Plumed.Tools

open Finset

variable {T : Type}

/-! ## The column-major copy -/

namespace Matrix

/-- The copy of `A` into LAPACK's column-major array that `diagMat` and `Invert` make:
`for i < A.cl, for j < A.rw: da[k++] = A(j,i)`. -/
def columnMajor [Zero T] (A : Matrix T) : List T :=
  (List.range A.cl).flatMap fun i => (List.range A.rw).map fun j => A.entry j i

theorem getD_columnMajor [Zero T] (A : Matrix T) {i j : Nat} (hi : i < A.cl) (hj : j < A.rw) :
    (columnMajor A).getD (i * A.rw + j) 0 = A.entry j i := by
  rw [columnMajor, Core.getD_flatMap_range (by simp) 0 _ _ _ hi hj, List.getD_eq_getElem _ _ (by simpa using hj)]
  simp

end Matrix

theorem sum_map_range [AddCommMonoid T] (g : Nat → T) (n : Nat) : ((List.range n).map g).sum = ∑ k ∈ range n, g k := by
  induction n with
  | zero => rfl
  | succ n ih => rw [List.range_succ, List.map_append, List.sum_append, ih, sum_range_succ]; simp

/-! ## `diagMat` and `dsyevr` -/

/-- Element `(r, c)` of the symmetric matrix whose upper triangle the column-major `n × n` array `da`
holds: what `dsyevr` reads with `uplo = "U"`. -/
def upper [Zero T] (n : Nat) (da : List T) (r c : Nat) : T :=
  if r ≤ c then da.getD (c * n + r) 0 else da.getD (r * n + c) 0

/-- What `diagMat` takes from `dsyevr` on the `n × n` array `da`: the column-major array `z` has
orthonormal columns, and column `i` is an eigenvector of `upper n da` for the eigenvalue `w[i]`. -/
structure DsyevrSpec [Field T] (n : Nat) (da w z : List T) : Prop where
  orthonormal : ∀ i j, i < n → j < n →
    ∑ k ∈ range n, z.getD (i * n + k) 0 * z.getD (j * n + k) 0 = if i = j then 1 else 0
  eigen : ∀ i r, i < n → r < n →
    ∑ k ∈ range n, upper n da r k * z.getD (i * n + k) 0 = w.getD i 0 * z.getD (i * n + r) 0

/-- `diagMat(A, eigenvals, eigenvecs)`: the column-major copy of `A` goes to `dsyevr` (`jobz = "V"`,
`range = "I"` from `1` to `n = A.cl`, `uplo = "U"`), whose non-zero `info` it returns; the workspace
query and the computation are the one parameter `dsyevr`, returning the eigenvalues `evals` and the
column-major array `evecs` of the eigenvectors. Then `eigenvals[i] = evals[i]` and
`eigenvecs(i,j) = evecs[k++]`: the eigenvectors row-wise. The assertions that `A` is square and
symmetric are not modelled: `Invert` calls `diagMat` on symmetric matrices only. -/
def diagMat [Zero T] (dsyevr : Nat → List T → Except Int (List T × List T)) (A : Matrix T) :
    Except Int (List T × Matrix T) := do
  let (evals, evecs) ← dsyevr A.cl (Matrix.columnMajor A)
  pure ((List.range A.cl).map (evals.getD · 0), Matrix.ofFn A.rw A.cl fun i j => evecs.getD (i * A.rw + j) 0)

/-- The upper triangle of the copy of a symmetric matrix is the matrix. -/
theorem upper_columnMajor [Zero T] {A : Matrix T} (hsq : A.rw = A.cl)
    (hsymm : ∀ i j, i < A.rw → j < A.rw → A.entry i j = A.entry j i) {r c : Nat} (hr : r < A.rw) (hc : c < A.rw) :
    upper A.rw (Matrix.columnMajor A) r c = A.entry r c := by
  unfold upper
  split_ifs
  · exact Matrix.getD_columnMajor A (hsq ▸ hc) hr
  · rw [Matrix.getD_columnMajor A (hsq ▸ hr) hc, hsymm c r hc hr]

/-- On a symmetric matrix, `diagMat` returns a correct eigendecomposition whenever `dsyevr` meets
its contract. -/
theorem diagMat_eigendecomposition [Field T] [DecidableEq T] {dsyevr : Nat → List T → Except Int (List T × List T)}
    {A : Matrix T} {eval : List T} {evec : Matrix T} (hsym : A.isSymmetric = true)
    (hspec : ∀ da w z, dsyevr A.rw da = .ok (w, z) → DsyevrSpec A.rw da w z)
    (hd : diagMat dsyevr A = .ok (eval, evec)) : Eigendecomposition A eval evec := by
  obtain ⟨hsq, hsymm⟩ := (Matrix.isSymmetric_iff_entry A).mp hsym
  cases hds : dsyevr A.cl (Matrix.columnMajor A) with
  | error e => rw [diagMat, hds] at hd; cases hd
  | ok p =>
    obtain ⟨w, z⟩ := p
    rw [diagMat, hds] at hd
    obtain ⟨rfl, rfl⟩ := Prod.mk.inj (Except.ok.inj hd)
    have spec := hspec _ w z (hsq ▸ hds)
    have hev : ∀ i k, i < A.rw → k < A.rw →
        (Matrix.ofFn A.rw A.cl fun i j => z.getD (i * A.rw + j) 0).entry i k = z.getD (i * A.rw + k) 0 :=
      fun i k hi hk => Matrix.entry_ofFn _ _ _ hi (hsq ▸ hk)
    refine ⟨by simp [hsq], rfl, hsq.symm, fun i j hi hj => ?_, fun i j hi hj => ?_⟩
    · rw [← spec.orthonormal i j hi hj]
      exact sum_congr rfl fun k hk => by rw [hev i k hi (mem_range.mp hk), hev j k hj (mem_range.mp hk)]
    · rw [hev i j hi hj, List.getD_eq_getElem _ _ (by simpa [hsq] using hi), List.getElem_map, List.getElem_range,
        ← spec.eigen i j hi hj]
      exact sum_congr rfl fun k hk => by
        rw [hev i k hi (mem_range.mp hk), upper_columnMajor hsq hsymm hj (mem_range.mp hk)]

/-! ## The general path of `Invert` -/

/-- What `Invert` takes from `dgetrf` then `dgetri` on the `n × n` array `da`: the column-major
array `inv` of its inverse. -/
def DgetriSpec [Field T] (n : Nat) (da inv : List T) : Prop :=
  ∀ r c, r < n → c < n → ∑ k ∈ range n, inv.getD (k * n + r) 0 * da.getD (c * n + k) 0 = if r = c then 1 else 0

/-- The general path of `Invert(A, inverse)`: the column-major copy of `A` goes to `dgetrf` (the LU
factors and the pivots) and then to `dgetri` (its workspace query and the inversion, one parameter),
returning the first non-zero `info`; `inverse(j,i) = da[k++]` reads the result back. -/
def invertGeneral [Zero T] (dgetrf : Nat → List T → Except Int (List T × List Int))
    (dgetri : Nat → List T → List Int → Except Int (List T)) (A : Matrix T) : Except Int (Matrix T) := do
  let (lu, ipiv) ← dgetrf A.rw (Matrix.columnMajor A)
  let da ← dgetri A.rw lu ipiv
  pure (Matrix.ofFn A.rw A.cl fun r c => da.getD (c * A.cl + r) 0)

/-- When `dgetrf` and `dgetri` meet their contract, the general path returns a left inverse. -/
theorem invertGeneral_inverse [Field T] {dgetrf : Nat → List T → Except Int (List T × List Int)}
    {dgetri : Nat → List T → List Int → Except Int (List T)} {A inv : Matrix T} (hsq : A.rw = A.cl)
    (hspec : ∀ da lu ipiv out, dgetrf A.rw da = .ok (lu, ipiv) → dgetri A.rw lu ipiv = .ok out → DgetriSpec A.rw da out)
    (h : invertGeneral dgetrf dgetri A = .ok inv) :
    inv.rw = A.rw ∧ inv.cl = A.rw ∧
      ∀ i j, i < A.rw → j < A.rw → ∑ k ∈ range A.rw, inv.entry i k * A.entry k j = if i = j then 1 else 0 := by
  cases hf : dgetrf A.rw (Matrix.columnMajor A) with
  | error e => rw [invertGeneral, hf] at h; cases h
  | ok p =>
    obtain ⟨lu, ipiv⟩ := p
    cases hi : dgetri A.rw lu ipiv with
    | error e => rw [invertGeneral, hf] at h; simp only [bind, Except.bind, hi] at h; cases h
    | ok out =>
      rw [invertGeneral, hf] at h
      simp only [bind, Except.bind, hi, pure, Except.pure, Except.ok.injEq] at h
      subst h
      refine ⟨rfl, hsq.symm, fun i j hi' hj => ?_⟩
      rw [← hspec _ lu ipiv out hf hi i j hi' hj]
      exact sum_congr rfl fun k hk => by
        rw [Matrix.entry_ofFn _ _ _ hi' (hsq ▸ mem_range.mp hk), ← hsq,
          Matrix.getD_columnMajor A (hsq ▸ hj) (mem_range.mp hk)]

/-! ## `Invert` of a nonsingular matrix -/

section Inverse

variable [Field T]

/-- The symmetric path with every eigenvalue non-zero returns a left inverse: `Vᵀ·diag(1/λ)·V·A`
is `Vᵀ·V`, the identity. -/
theorem invert_symmetric_inverse [DecidableEq T] {diagMat : Matrix T → Except Int (List T × Matrix T)}
    (lapackInverse : Matrix T → Except Int (Matrix T)) {A : Matrix T} {eval : List T} {evec : Matrix T}
    (hsym : A.isSymmetric = true) (hd : diagMat A = .ok (eval, evec)) (he : Eigendecomposition A eval evec)
    (hnz : ∀ i < A.rw, eval.getD i 0 ≠ 0) :
    ∃ inv, invert diagMat lapackInverse A = .ok inv ∧ inv.rw = A.rw ∧ inv.cl = A.rw ∧
      ∀ i j, i < A.rw → j < A.rw → ∑ k ∈ range A.rw, inv.entry i k * A.entry k j = if i = j then 1 else 0 := by
  obtain ⟨hsq, hsymm⟩ := (Matrix.isSymmetric_iff_entry A).mp hsym
  have hV : ∀ i j, i < A.rw → j < A.rw → ∑ k ∈ range A.rw, evec.entry k i * evec.entry k j = if i = j then 1 else 0 :=
    sum_mul_eq_delta_comm (f := fun i k => evec.entry i k) (g := fun k j => evec.entry j k) he.orthonormal
  have hinv : ∀ i k, i < A.rw → k < A.rw →
      (Matrix.mult (Matrix.ofFn A.rw A.cl fun i j => evec.entry j i / eval.getD j 0) evec).entry i k =
        ∑ m ∈ range A.rw, evec.entry m i / eval.getD m 0 * evec.entry m k := fun i k hi hk => by
    rw [Matrix.entry_mult (Matrix.ofFn A.rw A.cl fun i j => evec.entry j i / eval.getD j 0) evec hi
      (by rw [he.cl_evec]; exact hk), sum_map_range, Matrix.ofFn_cl]
    exact sum_congr (by rw [hsq]) fun m hm => by rw [Matrix.entry_ofFn _ _ _ hi ((mem_range.mp hm).trans_eq hsq)]
  refine ⟨_, invert_symmetric hsym hd, rfl, he.cl_evec, fun i j hi hj => ?_⟩
  calc ∑ k ∈ range A.rw, (Matrix.mult (Matrix.ofFn A.rw A.cl fun i j => evec.entry j i / eval.getD j 0) evec).entry i k *
        A.entry k j
      = ∑ k ∈ range A.rw, ∑ m ∈ range A.rw, evec.entry m i / eval.getD m 0 * (evec.entry m k * A.entry k j) :=
        sum_congr rfl fun k hk => by
          rw [hinv i k hi (mem_range.mp hk), sum_mul]
          exact sum_congr rfl fun m _ => mul_assoc _ _ _
    _ = ∑ m ∈ range A.rw, evec.entry m i / eval.getD m 0 * ∑ k ∈ range A.rw, A.entry j k * evec.entry m k := by
        rw [sum_comm]
        exact sum_congr rfl fun m _ => by
          rw [mul_sum]
          exact sum_congr rfl fun k hk => by rw [hsymm k j (mem_range.mp hk) hj, mul_comm (evec.entry m k)]
    _ = ∑ m ∈ range A.rw, evec.entry m i * evec.entry m j :=
        sum_congr rfl fun m hm => by
          rw [he.eigen m j (mem_range.mp hm) hj, ← mul_assoc, div_mul_cancel₀ _ (hnz m (mem_range.mp hm))]
    _ = if i = j then 1 else 0 := hV i j hi hj

/-- A matrix with a left inverse has no zero eigenvalue: its eigenvector would be sent to zero. -/
theorem eval_ne_zero_of_leftInverse {A : Matrix T} {eval : List T} {evec : Matrix T}
    (he : Eigendecomposition A eval evec) {B : Nat → Nat → T}
    (hB : ∀ i j, i < A.rw → j < A.rw → ∑ k ∈ range A.rw, B i k * A.entry k j = if i = j then 1 else 0) :
    ∀ i < A.rw, eval.getD i 0 ≠ 0 := by
  intro i hi h0
  have hAv : ∀ j < A.rw, ∑ k ∈ range A.rw, A.entry j k * evec.entry i k = 0 := fun j hj => by
    rw [he.eigen i j hi hj, h0, zero_mul]
  have hv : ∀ m < A.rw, evec.entry i m = 0 := fun m hm => by
    calc evec.entry i m = ∑ k ∈ range A.rw, (if m = k then 1 else 0) * evec.entry i k := by simp [hm]
      _ = ∑ k ∈ range A.rw, ∑ j ∈ range A.rw, B m j * A.entry j k * evec.entry i k :=
          sum_congr rfl fun k hk => by rw [← hB m k hm (mem_range.mp hk), sum_mul]
      _ = ∑ j ∈ range A.rw, B m j * ∑ k ∈ range A.rw, A.entry j k * evec.entry i k := by
          rw [sum_comm]
          exact sum_congr rfl fun j _ => by rw [mul_sum]; exact sum_congr rfl fun k _ => mul_assoc _ _ _
      _ = 0 := sum_eq_zero fun j hj => by rw [hAv j (mem_range.mp hj), mul_zero]
  have hunit := he.orthonormal i i hi hi
  rw [if_pos rfl, sum_eq_zero fun k hk => by rw [hv k (mem_range.mp hk), zero_mul]] at hunit
  exact zero_ne_one hunit

/-- `Invert` of a nonsingular square matrix, when it returns `0`, returns its inverse, on both
sides: through `diagMat` for a symmetric matrix, whose eigenvalues are then non-zero, and through
`dgetrf` and `dgetri` otherwise, when the LAPACK routines meet their contracts. -/
theorem invert_nonsingular [DecidableEq T] (dsyevr : Nat → List T → Except Int (List T × List T))
    (dgetrf : Nat → List T → Except Int (List T × List Int)) (dgetri : Nat → List T → List Int → Except Int (List T))
    {A inv : Matrix T} (hsq : A.rw = A.cl)
    (hB : ∃ B : Nat → Nat → T,
      ∀ i j, i < A.rw → j < A.rw → ∑ k ∈ range A.rw, B i k * A.entry k j = if i = j then 1 else 0)
    (hdsyevr : ∀ da w z, dsyevr A.rw da = .ok (w, z) → DsyevrSpec A.rw da w z)
    (hdgetri : ∀ da lu ipiv out, dgetrf A.rw da = .ok (lu, ipiv) → dgetri A.rw lu ipiv = .ok out →
      DgetriSpec A.rw da out)
    (h : invert (diagMat dsyevr) (invertGeneral dgetrf dgetri) A = .ok inv) :
    inv.rw = A.rw ∧ inv.cl = A.rw ∧
      (∀ i j, i < A.rw → j < A.rw → ∑ k ∈ range A.rw, inv.entry i k * A.entry k j = if i = j then 1 else 0) ∧
      ∀ i j, i < A.rw → j < A.rw → ∑ k ∈ range A.rw, A.entry i k * inv.entry k j = if i = j then 1 else 0 := by
  have hleft : inv.rw = A.rw ∧ inv.cl = A.rw ∧
      ∀ i j, i < A.rw → j < A.rw → ∑ k ∈ range A.rw, inv.entry i k * A.entry k j = if i = j then 1 else 0 := by
    by_cases hsym : A.isSymmetric = true
    · cases hdm : diagMat dsyevr A with
      | error e => rw [invert, if_pos hsym, hdm] at h; cases h
      | ok p =>
        obtain ⟨eval, evec⟩ := p
        have he := diagMat_eigendecomposition hsym hdsyevr hdm
        obtain ⟨B, hB⟩ := hB
        obtain ⟨inv', h', hinv'⟩ := invert_symmetric_inverse (invertGeneral dgetrf dgetri)
          hsym hdm he (eval_ne_zero_of_leftInverse he hB)
        rw [h] at h'
        cases h'
        exact hinv'
    · rw [invert, if_neg hsym] at h
      exact invertGeneral_inverse hsq hdgetri h
  obtain ⟨hr, hc, hl⟩ := hleft
  exact ⟨hr, hc, hl, sum_mul_eq_delta_comm (f := fun i k => inv.entry i k) (g := fun k j => A.entry k j) hl⟩

end Inverse

/-- The `1 × 1` matrix `[2]`. -/
def twoOne : Matrix ℚ := Matrix.ofFn 1 1 fun _ _ => 2

/-- `dsyevr` of a `1 × 1` array: its element, with the eigenvector `[1]`. -/
def dsyevrOne (_ : Nat) (da : List ℚ) : Except Int (List ℚ × List ℚ) := .ok ([da.getD 0 0], [1])

theorem invert_nonsingular_twoOne :
    ∃ inv, invert (diagMat dsyevrOne) (invertGeneral (fun _ _ => .error 1) fun _ _ _ => .error 1) twoOne = .ok inv ∧
      inv.rw = 1 ∧ inv.cl = 1 ∧
      (∀ i j, i < 1 → j < 1 → ∑ k ∈ range 1, inv.entry i k * twoOne.entry k j = if i = j then 1 else 0) ∧
      ∀ i j, i < 1 → j < 1 → ∑ k ∈ range 1, twoOne.entry i k * inv.entry k j = if i = j then 1 else 0 :=
  ⟨_, rfl, invert_nonsingular dsyevrOne (fun _ _ => .error 1) (fun _ _ _ => .error 1) (A := twoOne) rfl
    ⟨fun _ _ => 1 / 2, fun i j (hi : i < 1) (hj : j < 1) => by
      obtain rfl : i = 0 := by omega
      obtain rfl : j = 0 := by omega
      norm_num [twoOne, Matrix.entry_ofFn]⟩
    (fun da w z (h : Except.ok _ = _) => by
      obtain ⟨rfl, rfl⟩ := Prod.mk.inj (Except.ok.inj h).symm
      refine ⟨fun i j (hi : i < 1) (hj : j < 1) => ?_, fun i r (hi : i < 1) (hr : r < 1) => ?_⟩
      · obtain rfl : i = 0 := by omega
        obtain rfl : j = 0 := by omega
        simp [show twoOne.rw = 1 from rfl]
      · obtain rfl : i = 0 := by omega
        obtain rfl : r = 0 := by omega
        simp [upper, show twoOne.rw = 1 from rfl])
    (fun _ _ _ _ (h : Except.error 1 = _) => by cases h) rfl⟩

end Plumed.Tools
