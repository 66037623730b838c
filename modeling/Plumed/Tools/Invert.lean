/-
`Invert` of Matrix.h. A symmetric matrix is inverted through its eigendecomposition from
`diagMat`, as `Vᵀ·diag(1/λ)·V`; any other matrix through LAPACK's `dgetrf` and `dgetri`. The
symmetric path divides by every eigenvalue without testing it: a singular symmetric matrix, with a
zero eigenvalue, is "inverted" and `Invert` returns `0`.
-/
import Plumed.Tools.Matrix
import Mathlib.Algebra.BigOperators.Group.Finset
import Mathlib.Algebra.EuclideanDomain.Field

namespace Plumed.Tools

open Finset

variable {T : Type} [Field T]

/-- A correct eigendecomposition of the `n × n` matrix `A`, as `diagMat` returns it (LAPACK's
`dsyevr` behind it is not among the sources): `n` eigenvalues, and `n` orthonormal eigenvectors
stored row-wise (`evec(i, ·)` is the eigenvector of `eval[i]`). -/
structure Eigendecomposition (A : Matrix T) (eval : List T) (evec : Matrix T) : Prop where
  length_eval : eval.length = A.rw
  rw_evec : evec.rw = A.rw
  cl_evec : evec.cl = A.rw
  orthonormal : ∀ i j, i < A.rw → j < A.rw →
    ∑ k ∈ range A.rw, evec.entry i k * evec.entry j k = if i = j then 1 else 0
  eigen : ∀ i j, i < A.rw → j < A.rw →
    ∑ k ∈ range A.rw, A.entry j k * evec.entry i k = eval.getD i 0 * evec.entry i j

/-- `Invert(A, inverse)`. A symmetric `A` goes through `diagMat`, whose non-zero code it returns,
then `tevec(i,j) = evec(j,i)/eval[j]` and `mult(tevec, evec, inverse)`. Any other `A` goes through
`dgetrf` and `dgetri` on its column-major copy, read back transposed; `lapackInverse` stands for
that path, with its non-zero `info`. The inverse comes with the code `0`. -/
def invert [DecidableEq T] (diagMat : Matrix T → Except Int (List T × Matrix T))
    (lapackInverse : Matrix T → Except Int (Matrix T)) (A : Matrix T) : Except Int (Matrix T) :=
  if A.isSymmetric then do
    let (eval, evec) ← diagMat A
    pure (Matrix.mult (Matrix.ofFn A.rw A.cl fun i j => evec.entry j i / eval.getD j 0) evec)
  else lapackInverse A

/-- A symmetric matrix whose decomposition succeeds is inverted as `Vᵀ·diag(1/λ)·V`, whatever the
eigenvalues. -/
theorem invert_symmetric [DecidableEq T] {diagMat : Matrix T → Except Int (List T × Matrix T)}
    {lapackInverse : Matrix T → Except Int (Matrix T)} {A : Matrix T} {eval : List T} {evec : Matrix T}
    (hs : A.isSymmetric = true) (hd : diagMat A = .ok (eval, evec)) :
    invert diagMat lapackInverse A =
      .ok (Matrix.mult (Matrix.ofFn A.rw A.cl fun i j => evec.entry j i / eval.getD j 0) evec) := by
  rw [invert, if_pos hs, hd]; rfl

/-- The `1 × 1` zero matrix of doubles. -/
def zeroOne : Matrix ℝ := Matrix.new 1 1

theorem zeroOne_entry (a b : Nat) : zeroOne.entry a b = 0 := by
  simp [zeroOne, Matrix.new, Matrix.entry, List.getD_eq_getElem?_getD]

theorem mult_zeroOne_entry (inv : Matrix ℝ) (h : 0 < inv.rw) : (Matrix.mult inv zeroOne).entry 0 0 = 0 := by
  rw [Matrix.mult, Matrix.entry_ofFn inv.rw zeroOne.cl _ h Nat.one_pos]
  exact List.foldl_fixed' (fun k => by rw [zeroOne_entry, mul_zero, add_zero]) _

theorem eval_zeroOne {eval : List ℝ} {evec : Matrix ℝ} (he : Eigendecomposition zeroOne eval evec) :
    eval.getD 0 0 = 0 := by
  have hunit := he.orthonormal 0 0 (by decide) (by decide)
  have heig := he.eigen 0 0 (by decide) (by decide)
  simp only [show zeroOne.rw = 1 from rfl, sum_range_one, if_pos rfl] at hunit heig
  have hA : zeroOne.entry 0 0 = 0 := rfl
  rw [hA, zero_mul] at heig
  rcases mul_eq_zero.mp heig.symm with h | h
  · exact h
  · rw [h, zero_mul] at hunit; exact absurd hunit zero_ne_one

/-- Under every correct decomposition, `Invert` of the `1 × 1` zero matrix divides by its zero
eigenvalue, returns `0`, and gives an `inverse` with `inverse · A = 0`, not the identity. -/
theorem invert_zeroOne (diagMat : Matrix ℝ → Except Int (List ℝ × Matrix ℝ))
    (lapackInverse : Matrix ℝ → Except Int (Matrix ℝ)) {eval : List ℝ} {evec : Matrix ℝ}
    (hd : diagMat zeroOne = .ok (eval, evec)) (he : Eigendecomposition zeroOne eval evec) :
    ∃ inv, invert diagMat lapackInverse zeroOne = .ok inv ∧ eval.getD 0 0 = 0 ∧
      (Matrix.mult inv zeroOne).entry 0 0 = 0 :=
  ⟨_, invert_symmetric rfl hd, eval_zeroOne he, mult_zeroOne_entry _ (show 0 < 1 by decide)⟩

/-- `diagMat` returning the eigenvalue `0` and the eigenvector `[1]` for the `1 × 1` zero matrix. -/
def zeroOneDiagMat (_ : Matrix ℝ) : Except Int (List ℝ × Matrix ℝ) := .ok ([0], Matrix.ofFn 1 1 fun _ _ => 1)

theorem invert_zeroOne_dsyevr :
    ∃ inv, invert zeroOneDiagMat (fun _ => .error 1) zeroOne = .ok inv ∧ ([0] : List ℝ).getD 0 0 = 0 ∧
      (Matrix.mult inv zeroOne).entry 0 0 = 0 :=
  invert_zeroOne zeroOneDiagMat (fun _ => .error 1) rfl
    ⟨rfl, rfl, rfl, fun i j (hi : i < 1) (hj : j < 1) => by
      obtain rfl : i = 0 := by omega
      obtain rfl : j = 0 := by omega
      simp [show zeroOne.rw = 1 from rfl, Matrix.entry_ofFn],
    fun i j (hi : i < 1) (hj : j < 1) => by
      obtain rfl : i = 0 := by omega
      obtain rfl : j = 0 := by omega
      simp [show zeroOne.rw = 1 from rfl, zeroOne_entry]⟩

end Plumed.Tools
