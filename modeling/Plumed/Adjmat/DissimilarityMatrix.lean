/-
`DissimilarityMatrix::computeVectorProduct` with its divisions checked: the model returns `none`
where the code divides by zero. With `SQUARED` off it divides by zero exactly when the frames
have at least one component and every component's difference is zero, in particular whenever a
frame is compared with itself; the square root enters as the hypothesis `SqrtLaws`, which
`Real.sqrt` satisfies.
-/
import Mathlib.Algebra.Order.Field.Defs
import Mathlib.Algebra.BigOperators.Group.List
import Mathlib.Data.Real.Sqrt
import Mathlib.Algebra.EuclideanDomain.Field

namespace Plumed.Adjmat

/-- What the dissimilarity needs of the square root. -/
structure SqrtLaws {R : Type} [LinearOrderedField R] (sqrt : R → R) : Prop where
  eq_zero_iff : ∀ x, 0 ≤ x → (sqrt x = 0 ↔ x = 0)

theorem sqrtLaws_real : SqrtLaws Real.sqrt := ⟨fun _ hx => Real.sqrt_eq_zero hx⟩

section Product

variable {R : Type} [LinearOrderedField R]

/-- Division as the model observes it: `none` where the code divides by zero. -/
def divChecked (x y : R) : Option R := if y = 0 then none else some (x / y)

/-- `DissimilarityMatrix::computeVectorProduct` on `vec1` and `vec2`, with `difference` the first
argument's `Value::difference` and `sqrt` the square root: the dissimilarity with `dvec1` and
`dvec2`, or `none` when one of its divisions has a zero denominator. -/
def computeVectorProduct (squared : Bool) (difference : R → R → R) (sqrt : R → R)
    (vec1 vec2 : List R) : Option (R × List R × List R) :=
  let tmp := (List.range vec1.length).map fun i => difference (vec2.getD i 0) (vec1.getD i 0)
  let dist := tmp.foldl (fun dist t => dist + t * t) 0
  let dvec1 := tmp.map (2 * ·)
  let dvec2 := tmp.map (-2 * ·)
  if squared then some (dist, dvec1, dvec2)
  else
    let dist := sqrt dist
    do
      let dvec1 ← dvec1.mapM (divChecked · (2 * dist))
      let dvec2 ← dvec2.mapM (divChecked · (2 * dist))
      pure (dist, dvec1, dvec2)

/-! ## The divisions -/

theorem mapM_divChecked (y : R) :
    ∀ l : List R, l.mapM (divChecked · y) = if l = [] ∨ y ≠ 0 then some (l.map (· / y)) else none
  | [] => by rw [List.mapM_nil]; simp
  | x :: l => by
    rw [List.mapM_cons, mapM_divChecked y l]
    by_cases hy : y = 0 <;> simp [divChecked, hy]

theorem foldl_sq_eq_zero_iff :
    ∀ (l : List R) (a : R), 0 ≤ a → (l.foldl (fun dist t => dist + t * t) a = 0 ↔ a = 0 ∧ ∀ t ∈ l, t = 0)
  | [], _, _ => by simp
  | t :: l, a, ha => by
    have ht := mul_self_nonneg t
    rw [List.foldl_cons, foldl_sq_eq_zero_iff l _ (add_nonneg ha ht), add_eq_zero_iff_of_nonneg ha ht,
      mul_self_eq_zero]
    simp [and_assoc]

theorem foldl_sq_nonneg : ∀ (l : List R) (a : R), 0 ≤ a → 0 ≤ l.foldl (fun dist t => dist + t * t) a
  | [], _, ha => ha
  | t :: l, _, ha => foldl_sq_nonneg l _ (add_nonneg ha (mul_self_nonneg t))

theorem computeVectorProduct_squared (difference : R → R → R) (sqrt : R → R) (vec1 vec2 : List R) :
    (computeVectorProduct true difference sqrt vec1 vec2).isSome := by
  simp [computeVectorProduct]

/-- With `SQUARED` off, for every pair of vectors: a division by zero happens exactly when `vec1`
has a component and every component's difference is zero. -/
theorem computeVectorProduct_eq_none_iff {sqrt : R → R} (hs : SqrtLaws sqrt) (difference : R → R → R)
    (vec1 vec2 : List R) :
    computeVectorProduct false difference sqrt vec1 vec2 = none ↔
      vec1 ≠ [] ∧ ∀ i < vec1.length, difference (vec2.getD i 0) (vec1.getD i 0) = 0 := by
  generalize htmp : (List.range vec1.length).map
    (fun i => difference (vec2.getD i 0) (vec1.getD i 0)) = tmp
  have hlen : tmp.length = vec1.length := by rw [← htmp, List.length_map, List.length_range]
  have hdist : sqrt (tmp.foldl (fun dist t => dist + t * t) 0) = 0 ↔ ∀ t ∈ tmp, t = 0 := by
    rw [hs.eq_zero_iff _ (foldl_sq_nonneg tmp 0 le_rfl), foldl_sq_eq_zero_iff tmp 0 le_rfl]
    simp
  have hall : (∀ t ∈ tmp, t = 0) ↔ ∀ i < vec1.length, difference (vec2.getD i 0) (vec1.getD i 0) = 0 := by
    simp [← htmp]
  have hne : tmp = [] ↔ vec1 = [] := by rw [← List.length_eq_zero, hlen, List.length_eq_zero]
  simp only [computeVectorProduct, htmp, Bool.false_eq_true, ite_false, mapM_divChecked,
    List.map_eq_nil_iff, ne_eq, mul_eq_zero, two_ne_zero, false_or]
  rw [← hall, ← hne, ← hdist]
  by_cases h1 : tmp = [] <;> by_cases h2 : sqrt (tmp.foldl (fun dist t => dist + t * t) 0) = 0 <;>
    simp [h1, h2]

end Product

/-- The frame `[0]` compared with itself under `Real.sqrt`: `computeVectorProduct` divides by
zero. -/
theorem computeVectorProduct_sameFrame :
    computeVectorProduct false (fun d1 d2 : ℝ => d2 - d1) Real.sqrt [0] [0] = none :=
  (computeVectorProduct_eq_none_iff sqrtLaws_real _ [0] [0]).2
    ⟨List.cons_ne_nil 0 [], fun i hi => by simp [List.getD_eq_getElem?_getD]⟩

end Plumed.Adjmat
