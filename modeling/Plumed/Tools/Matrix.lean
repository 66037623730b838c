/-
`Matrix<T>` of Matrix.h: `rw × cl` elements stored row by row, element `(i, j)` at `j + i·cl`;
the scalar operator `+=`, `dotProduct` and `norm`, `isSymmetric` and the matrix product `mult`.

The scalar `+=` adds `v` to every element once. The scalar `-=` is not modelled: its loop body
`data -= v` subtracts a `T` from a `std::vector<T>`, for which no operator is declared.
`dotProduct` and `norm` accumulate into `T val;`, which a scalar `T` such as `double` leaves
uninitialised: both return that starting value plus the sum.
-/
import Mathlib.Algebra.BigOperators.Group.List
import Mathlib.Algebra.Order.Ring.Nat
import Mathlib.Data.List.GetD
import Mathlib.Data.List.OfFn
import Mathlib.Data.Real.Basic
import Mathlib.Tactic.NormNum.Basic

namespace Plumed.Tools

/-- `Matrix<T>`: `rw` rows, `cl` columns and the `sz = rw · cl` elements in row-major order. Every
constructor and `resize` keep the store at `sz` elements, and so does every operation below. -/
structure Matrix (T : Type) where
  rw : Nat
  cl : Nat
  data : List T
  length_data : data.length = rw * cl

namespace Matrix

variable {T : Type}

/-- `sz`, the number of elements. -/
def sz (m : Matrix T) : Nat := m.rw * m.cl

/-- `Matrix<T>(nr, nc)`: `nr × nc` value-initialised (zero) elements. -/
def new [Zero T] (nr nc : Nat) : Matrix T := ⟨nr, nc, List.replicate (nr * nc) 0, by simp⟩

/-- `operator()(i, j)` on an index inside the store. -/
def entry [Zero T] (m : Matrix T) (i j : Nat) : T := m.data.getD (j + i * m.cl) 0

/-- `operator()(i, j)` checked against the store: `none` when `j + i·cl` is past its end. -/
def read? (m : Matrix T) (i j : Nat) : Option T := m.data.get? (j + i * m.cl)

/-- The `rw × cl` matrix with element `(i, j)` equal to `f i j`. -/
def ofFn (rw cl : Nat) (f : Nat → Nat → T) : Matrix T :=
  ⟨rw, cl, List.ofFn (n := rw * cl) fun k => f (k / cl) (k % cl), List.length_ofFn _⟩

@[simp] theorem ofFn_rw (rw cl : Nat) (f : Nat → Nat → T) : (ofFn rw cl f).rw = rw := rfl

@[simp] theorem ofFn_cl (rw cl : Nat) (f : Nat → Nat → T) : (ofFn rw cl f).cl = cl := rfl

theorem index_lt {rw cl i j : Nat} (hi : i < rw) (hj : j < cl) : j + i * cl < rw * cl :=
  calc j + i * cl < cl + i * cl := by omega
    _ = (i + 1) * cl := by rw [Nat.add_mul, Nat.one_mul, Nat.add_comm]
    _ ≤ rw * cl := Nat.mul_le_mul_right cl hi

@[simp] theorem entry_ofFn [Zero T] (rw cl : Nat) (f : Nat → Nat → T) {i j : Nat} (hi : i < rw)
    (hj : j < cl) : (ofFn rw cl f).entry i j = f i j := by
  have hk := index_lt hi hj
  rw [entry, ofFn, List.getD_eq_getElem _ _ (by rw [List.length_ofFn]; exact hk), List.getElem_ofFn]
  simp only
  rw [Nat.add_mul_div_right _ _ (by omega), Nat.div_eq_of_lt hj, Nat.zero_add,
    Nat.add_mul_mod_self_right, Nat.mod_eq_of_lt hj]

/-- `isSymmetric()`: a square matrix whose element `(j, i)` equals element `(i, j)` for every
`j < i` (the code's `1`). -/
def isSymmetric [Zero T] [DecidableEq T] (m : Matrix T) : Bool :=
  m.rw == m.cl && (List.range m.rw).all fun i => (List.range i).all fun j =>
    m.data.getD (i + j * m.cl) 0 == m.data.getD (j + i * m.cl) 0

/-- `mult(A, B, C)`: `C` resized to `A.rw × B.cl`, zeroed, and `C(i,j) += A(i,k)·B(k,j)` over
`k < A.cl`. The assertion `A.cl == B.rw` is not modelled: the callers below multiply square
matrices of one size. -/
def mult [Zero T] [Add T] [Mul T] (A B : Matrix T) : Matrix T :=
  ofFn A.rw B.cl fun i j => (List.range A.cl).foldl (fun c k => c + A.entry i k * B.entry k j) 0

/-- `transpose(A, AT)`: `AT` resized to `A.cl × A.rw`, then `AT(i,j) = A(j,i)` for every element. -/
def transpose [Zero T] (A : Matrix T) : Matrix T := ofFn A.cl A.rw fun i j => A.entry j i

/-- `mult(A, B, C)` of a matrix and a vector: `C` resized to `A.rw`, zeroed, and
`C[i] += A(i,k)·B[k]` over `k < A.cl`; the `assert` on the sizes is an error. -/
def multVec [Zero T] [Add T] [Mul T] (A : Matrix T) (B : List T) : Except String (List T) :=
  if A.cl = B.length then
    .ok ((List.range A.rw).map fun i => (List.range A.cl).foldl (fun c k => c + A.entry i k * B.getD k 0) 0)
  else .error "assertion failed: A.cl==B.size()"

/-- `mult(A, B, C)` of a vector and a matrix: `C` resized to `B.cl`, zeroed, and
`C[i] += A[k]·B(k,i)` over `k < B.rw`; the `assert` on the sizes is an error. -/
def vecMult [Zero T] [Add T] [Mul T] (A : List T) (B : Matrix T) : Except String (List T) :=
  if B.rw = A.length then
    .ok ((List.range B.cl).map fun i => (List.range B.rw).foldl (fun c k => c + A.getD k 0 * B.entry k i) 0)
  else .error "assertion failed: B.rw==A.size()"

/-! ## Elements -/

theorem ext_data {A B : Matrix T} (hr : A.rw = B.rw) (hc : A.cl = B.cl) (hd : A.data = B.data) : A = B := by
  cases A; cases B; simp_all

theorem getElem_data [Zero T] (A : Matrix T) {k : Nat} (hk : k < A.data.length) :
    A.data[k] = A.entry (k / A.cl) (k % A.cl) := by
  rw [entry, Nat.mod_add_div' k A.cl, List.getD_eq_getElem _ _ hk]

theorem eq_of_entry [Zero T] {A B : Matrix T} (hr : A.rw = B.rw) (hc : A.cl = B.cl)
    (h : ∀ i j, i < A.rw → j < A.cl → A.entry i j = B.entry i j) : A = B := by
  refine ext_data hr hc (List.ext_getElem (by rw [A.length_data, B.length_data, hr, hc]) fun k h1 h2 => ?_)
  have hcpos : 0 < A.cl := Nat.pos_of_ne_zero fun h0 => by rw [A.length_data, h0, Nat.mul_zero] at h1; omega
  have hk : k < A.rw * A.cl := A.length_data ▸ h1
  rw [getElem_data, getElem_data, ← hc, h _ _ ((Nat.div_lt_iff_lt_mul hcpos).mpr hk) (Nat.mod_lt _ hcpos)]

@[simp] theorem transpose_rw [Zero T] (A : Matrix T) : (transpose A).rw = A.cl := rfl

@[simp] theorem transpose_cl [Zero T] (A : Matrix T) : (transpose A).cl = A.rw := rfl

theorem entry_transpose [Zero T] (A : Matrix T) {i j : Nat} (hi : i < A.cl) (hj : j < A.rw) :
    (transpose A).entry i j = A.entry j i :=
  entry_ofFn _ _ _ hi hj

/-- Transposing twice gives the matrix back. -/
theorem transpose_transpose [Zero T] (A : Matrix T) : transpose (transpose A) = A :=
  eq_of_entry rfl rfl fun i j hi hj => by
    rw [entry_transpose (transpose A) (i := i) (j := j) hi hj, entry_transpose A hj hi]

/-- `isSymmetric` tests every pair below the diagonal, which is every pair. -/
theorem isSymmetric_iff_entry [Zero T] [DecidableEq T] (A : Matrix T) :
    A.isSymmetric = true ↔ A.rw = A.cl ∧ ∀ i j, i < A.rw → j < A.rw → A.entry i j = A.entry j i := by
  simp only [isSymmetric, Bool.and_eq_true, beq_iff_eq, List.all_eq_true, List.mem_range]
  refine and_congr_right fun _ => ⟨fun h i j hi hj => ?_, fun h i hi j hj => h j i (by omega) hi⟩
  rcases Nat.lt_trichotomy i j with hij | rfl | hij
  · exact h j hj i hij
  · rfl
  · exact (h i hi j hij).symm

/-- `isSymmetric` decides whether the matrix is its own transpose. -/
theorem isSymmetric_iff_transpose [Zero T] [DecidableEq T] (A : Matrix T) :
    A.isSymmetric = true ↔ transpose A = A := by
  rw [isSymmetric_iff_entry]
  refine ⟨fun ⟨hsq, h⟩ => eq_of_entry hsq.symm hsq fun i j (hi : i < A.cl) (hj : j < A.rw) => ?_, fun h => ?_⟩
  · rw [entry_transpose A hi hj]
    exact h j i hj (hsq ▸ hi)
  · have hsq : A.cl = A.rw := congrArg Matrix.rw h
    refine ⟨hsq.symm, fun i j hi hj => ?_⟩
    rw [← entry_transpose A (hsq ▸ hj) hi, h]

/-! ## The scalar operators -/

theorem length_foldl_modify (f : T → T) (is : List Nat) (l : List T) :
    (is.foldl (fun d i => d.modify f i) l).length = l.length := by
  induction is generalizing l with
  | nil => rfl
  | cons i is ih => rw [List.foldl_cons, ih, List.length_modify]

/-- `operator+=(const T& v)`: `data[i] += v` for every `i < sz`. -/
def plusEq [Add T] (m : Matrix T) (v : T) : Matrix T :=
  ⟨m.rw, m.cl, (List.range m.sz).foldl (fun d i => d.modify (· + v) i) m.data,
    (length_foldl_modify _ _ _).trans m.length_data⟩

theorem getElem?_foldl_modify_range (f : T → T) (n : Nat) (l : List T) (k : Nat) :
    ((List.range n).foldl (fun d i => d.modify f i) l)[k]? = if k < n then l[k]?.map f else l[k]? := by
  induction n with
  | zero => simp
  | succ n ih =>
    rw [List.range_succ, List.foldl_append, List.foldl_cons, List.foldl_nil, List.getElem?_modify, ih]
    rcases Nat.lt_trichotomy k n with h | rfl | h
    · simp [h, Nat.ne_of_gt h, Nat.lt_succ_of_lt h]
    · simp
    · simp [Nat.not_lt_of_gt h, Nat.ne_of_lt h, Nat.not_lt_of_ge h]

/-- The scalar `+=` adds `v` to every element, once. -/
@[simp] theorem plusEq_data [Add T] (m : Matrix T) (v : T) : (m.plusEq v).data = m.data.map (· + v) := by
  refine List.ext_getElem? fun k => ?_
  rw [plusEq, getElem?_foldl_modify_range, List.getElem?_map]
  split_ifs with h
  · rfl
  · rw [List.getElem?_eq_none (by rw [m.length_data]; exact Nat.le_of_not_lt h)]; rfl

/-! ## Dot products -/

/-- `dotProduct(A, B)`: `T val;` then `val += A[i]·B[i]` for every `i`. `T val;` is zero for a
class type such as `Vector` and indeterminate for a scalar such as `double`: the model takes its
value as the parameter `val`. The `assert` on the sizes is an error. -/
def dotProduct [Zero T] [Add T] [Mul T] (val : T) (A B : List T) : Except String T :=
  if A.length = B.length then
    .ok ((List.range A.length).foldl (fun val i => val + A.getD i 0 * B.getD i 0) val)
  else .error "assertion failed: A.size()==B.size()"

/-- `norm(A)`: `T val;` then `val += A[i]·A[i]` for every `i`, from the starting value `val`. -/
def norm [Zero T] [Add T] [Mul T] (val : T) (A : List T) : T :=
  (List.range A.length).foldl (fun val i => val + A.getD i 0 * A.getD i 0) val

theorem foldl_add_range [AddCommMonoid T] (g : Nat → T) (n : Nat) (val : T) :
    (List.range n).foldl (fun val i => val + g i) val = val + ((List.range n).map g).sum := by
  induction n with
  | zero => simp
  | succ n ih =>
    rw [List.range_succ, List.foldl_append, ih, List.foldl_cons, List.foldl_nil, List.map_append,
      List.sum_append, List.map_singleton, List.sum_singleton, add_assoc]

theorem map_range_getD (f : T → T → T) [Zero T] {A B : List T} (h : A.length = B.length) :
    (List.range A.length).map (fun i => f (A.getD i 0) (B.getD i 0)) = List.zipWith f A B := by
  refine List.ext_getElem (by simp [h]) fun i h1 h2 => ?_
  have hi : i < A.length := by simpa using h1
  rw [List.getElem_map, List.getElem_range, List.getElem_zipWith, List.getD_eq_getElem _ _ hi,
    List.getD_eq_getElem _ _ (h ▸ hi)]

/-- `dotProduct` returns its starting value plus `Σ A_i·B_i`. -/
theorem dotProduct_eq [NonUnitalNonAssocSemiring T] (val : T) {A B : List T}
    (h : A.length = B.length) : dotProduct val A B = .ok (val + (List.zipWith (· * ·) A B).sum) := by
  rw [dotProduct, if_pos h, foldl_add_range, map_range_getD _ h]

/-- `norm` returns its starting value plus `Σ A_i²`. -/
theorem norm_eq [NonUnitalNonAssocSemiring T] (val : T) (A : List T) :
    norm val A = val + (A.map fun a => a * a).sum := by
  rw [norm, foldl_add_range, map_range_getD _ rfl, List.zipWith_same]

/-- With the accumulator of a `double` holding `1` before the loop, `dotProduct([2], [2])` and
`norm([2])` return `5`, not `4`. -/
theorem dotProduct_norm_uninitialised :
    dotProduct (1 : ℝ) [2] [2] = .ok 5 ∧ norm (1 : ℝ) [2] = 5 := by
  rw [dotProduct_eq _ rfl, norm_eq]
  norm_num

/-! ## Products and transposes -/

/-- Element `(i, j)` of `mult(A, B, C)` is `Σ_{k < A.cl} A(i,k)·B(k,j)`. -/
theorem entry_mult [AddCommMonoid T] [Mul T] (A B : Matrix T) {i j : Nat} (hi : i < A.rw) (hj : j < B.cl) :
    (mult A B).entry i j = ((List.range A.cl).map fun k => A.entry i k * B.entry k j).sum := by
  rw [mult, entry_ofFn _ _ _ hi hj, foldl_add_range, zero_add]

/-- On sizes that pass its assertion, the vector-times-matrix `mult` is the matrix-times-vector
`mult` of the transpose. -/
theorem vecMult_eq_multVec_transpose [CommSemiring T] (A : List T) (B : Matrix T) (h : B.rw = A.length) :
    vecMult A B = multVec (transpose B) A := by
  rw [vecMult, multVec, transpose_cl, transpose_rw, if_pos h, if_pos h]
  refine congrArg Except.ok (List.map_congr_left fun i hi => ?_)
  rw [foldl_add_range, foldl_add_range]
  exact congrArg _ (congrArg List.sum (List.map_congr_left fun k hk => by
    rw [entry_transpose B (List.mem_range.mp hi) (List.mem_range.mp hk), mul_comm]))

/-- The row `[1, 2]` times the `2 × 3` matrix with `B(i,j) = i + j`. -/
theorem vecMult_eq_multVec_transpose_twoByThree :
    vecMult [1, 2] (ofFn 2 3 fun i j => (i + j : ℤ)) = multVec (transpose (ofFn 2 3 fun i j => (i + j : ℤ))) [1, 2] :=
  vecMult_eq_multVec_transpose _ _ rfl

/-- The transpose of a product is the product of the transposes, in the other order. -/
theorem transpose_mult [CommSemiring T] (A B : Matrix T) (h : A.cl = B.rw) :
    transpose (mult A B) = mult (transpose B) (transpose A) :=
  eq_of_entry rfl rfl fun i j (hi : i < B.cl) (hj : j < A.rw) => by
    rw [entry_transpose (mult A B) hi hj, entry_mult _ _ hj hi, entry_mult _ _ hi hj, transpose_cl, ← h]
    exact congrArg List.sum (List.map_congr_left fun k hk => by
      rw [entry_transpose B hi (h ▸ List.mem_range.mp hk), entry_transpose A (List.mem_range.mp hk) hj, mul_comm])

/-- A `2 × 3` times a `3 × 2` matrix of integers. -/
theorem transpose_mult_twoByThree :
    transpose (mult (ofFn 2 3 fun i j => (i + j : ℤ)) (ofFn 3 2 fun i j => (i * j : ℤ))) =
      mult (transpose (ofFn 3 2 fun i j => (i * j : ℤ))) (transpose (ofFn 2 3 fun i j => (i + j : ℤ))) :=
  transpose_mult _ _ rfl

end Matrix

end Plumed.Tools
