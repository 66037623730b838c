/-
Three-vectors and 3×3 tensors as the colvars use them: the difference `delta`, the squared length,
the outer product `Tensor(u, v)`, the matrix-vector product, and the bilinearity of the outer
product on which the virial computations rest.
-/
import Mathlib.Algebra.Ring.Pi
import Mathlib.Algebra.Group.Action.Pi
import Mathlib.Data.Fin.VecNotation
import Mathlib.Algebra.Algebra.Defs

namespace Plumed.Tools

/-- Modelled from the spec: `Vector` (tools/Vector.h is not among the sources), the three
components of a position, a separation or an atom's derivative. -/
abbrev Vec (R : Type) := Fin 3 → R

/-- Modelled from the spec: `Tensor` (tools/Tensor.h is not among the sources), a 3×3 matrix
indexed (row, column), such as the box derivative. -/
abbrev Tensor (R : Type) := Fin 3 → Fin 3 → R

variable {R : Type} [CommRing R]

/-- `Vector(x, y, z)`. -/
def vec (x y z : R) : Vec R := ![x, y, z]

/-- `delta(v1, v2)`: the difference `v2 - v1`. -/
def delta (v1 v2 : Vec R) : Vec R := v2 - v1

/-- The constructor `Tensor(u, v)`: the outer product, with entry `(a, b)` equal to `u a * v b`. -/
def outer (u v : Vec R) : Tensor R := fun a b => u a * v b

/-- `Vector::modulo2`: the squared length. -/
def modulo2 (v : Vec R) : R := v 0 * v 0 + v 1 * v 1 + v 2 * v 2

/-- `matmul(m, v)`. -/
def matmul (m : Tensor R) (v : Vec R) : Vec R := fun a => m a 0 * v 0 + m a 1 * v 1 + m a 2 * v 2

@[simp] theorem delta_apply (v1 v2 : Vec R) (a : Fin 3) : delta v1 v2 a = v2 a - v1 a := rfl
@[simp] theorem outer_apply (u v : Vec R) (a b : Fin 3) : outer u v a b = u a * v b := rfl

theorem outer_add_left (u u' v : Vec R) : outer (u + u') v = outer u v + outer u' v := by
  funext a b; simp [add_mul]

@[simp] theorem outer_zero_left (v : Vec R) : outer 0 v = 0 := by
  funext a b; simp

theorem outer_sum_left {ι : Type} (l : List ι) (u : ι → Vec R) (v : Vec R) :
    outer (l.map u).sum v = (l.map fun x => outer (u x) v).sum := by
  induction l with
  | nil => simp
  | cons x l ih => simp [outer_add_left, ih]

theorem outer_neg_right (u v : Vec R) : outer u (-v) = -outer u v := by
  funext a b; simp

theorem outer_smul_right (u v : Vec R) (c : R) : outer u (c • v) = c • outer u v := by
  funext a b; simp [mul_left_comm]

end Plumed.Tools
