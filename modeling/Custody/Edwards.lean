import Mathlib.Algebra.Field.Basic
import Mathlib.Algebra.Group.Even
import Mathlib.Tactic.FieldSimp
import Mathlib.Tactic.LinearCombination
import Mathlib.Tactic.Ring

/-!
# Twisted Edwards curves

The curve `y² - x² = 1 + d x² y²` over a field in which `-1` is a square and `d` is
not. Its addition law has no exceptional cases, and its points form a group. In
extended coordinates the law needs no division.
-/

namespace TwistedEdwards

universe u

section Identities

variable {F : Type u} [Field F] {d x1 y1 x2 y2 x3 y3 : F}

/-- The numerators of a sum lie on the curve of its denominators. The factors are the
quotients of a division by the two curve equations. -/
theorem closed_identity (on1 : y1 ^ 2 - x1 ^ 2 = 1 + d * x1 ^ 2 * y1 ^ 2)
    (on2 : y2 ^ 2 - x2 ^ 2 = 1 + d * x2 ^ 2 * y2 ^ 2) :
    ((y1 * y2 + x1 * x2) * (1 + d * x1 * x2 * y1 * y2)) ^ 2 -
      ((x1 * y2 + y1 * x2) * (1 - d * x1 * x2 * y1 * y2)) ^ 2 =
    ((1 + d * x1 * x2 * y1 * y2) * (1 - d * x1 * x2 * y1 * y2)) ^ 2 +
      d * (x1 * y2 + y1 * x2) ^ 2 * (y1 * y2 + x1 * x2) ^ 2 := by
  linear_combination
      (x1 ^ 2 * y1 ^ 2 * x2 ^ 4 * y2 ^ 4 * d ^ 3 - x1 ^ 2 * x2 ^ 4 * y2 ^ 4 * d ^ 2 -
        x1 ^ 2 * x2 ^ 4 * y2 ^ 2 * d + x1 ^ 2 * x2 ^ 2 * y2 ^ 4 * d +
        y1 ^ 2 * x2 ^ 4 * y2 ^ 4 * d ^ 2 + y1 ^ 2 * x2 ^ 4 * y2 ^ 2 * d -
        y1 ^ 2 * x2 ^ 2 * y2 ^ 4 * d - x2 ^ 4 * y2 ^ 4 * d ^ 2 - 2 * x2 ^ 4 * y2 ^ 4 * d -
        2 * x2 ^ 4 * y2 ^ 2 + x2 ^ 4 + 2 * x2 ^ 2 * y2 ^ 4 - 2 * x2 ^ 2 * y2 ^ 2 * d -
        4 * x2 ^ 2 * y2 ^ 2 + y2 ^ 4) * on1 +
      (x1 ^ 4 * x2 ^ 2 * y2 ^ 2 * d + 2 * x1 ^ 2 * x2 ^ 2 * y2 ^ 2 * d +
        2 * x1 ^ 2 * x2 ^ 2 * y2 ^ 2 - x1 ^ 2 * x2 ^ 2 + x1 ^ 2 * y2 ^ 2 +
        y1 ^ 4 * x2 ^ 2 * y2 ^ 2 * d - 2 * y1 ^ 2 * x2 ^ 2 * y2 ^ 2 * d -
        2 * y1 ^ 2 * x2 ^ 2 * y2 ^ 2 + y1 ^ 2 * x2 ^ 2 - y1 ^ 2 * y2 ^ 2 + x2 ^ 2 * y2 ^ 2 * d +
        2 * x2 ^ 2 * y2 ^ 2 - x2 ^ 2 + y2 ^ 2 + 1) * on2

/-- The two ways to add three points have proportional first coordinates. Again the
factors come from dividing by the curve equations. -/
theorem assoc_identity (on1 : y1 ^ 2 - x1 ^ 2 = 1 + d * x1 ^ 2 * y1 ^ 2)
    (on2 : y2 ^ 2 - x2 ^ 2 = 1 + d * x2 ^ 2 * y2 ^ 2)
    (on3 : y3 ^ 2 - x3 ^ 2 = 1 + d * x3 ^ 2 * y3 ^ 2) :
    ((x1 * y2 + y1 * x2) * (1 - d * x1 * x2 * y1 * y2) * y3 +
        (y1 * y2 + x1 * x2) * (1 + d * x1 * x2 * y1 * y2) * x3) *
      (1 - (d * x2 * x3 * y2 * y3) ^ 2 +
        d * (x2 * y3 + y2 * x3) * (y2 * y3 + x2 * x3) * x1 * y1) =
    (x1 * (y2 * y3 + x2 * x3) * (1 + d * x2 * x3 * y2 * y3) +
        y1 * (x2 * y3 + y2 * x3) * (1 - d * x2 * x3 * y2 * y3)) *
      (1 - (d * x1 * x2 * y1 * y2) ^ 2 +
        d * (x1 * y2 + y1 * x2) * (y1 * y2 + x1 * x2) * x3 * y3) := by
  linear_combination
      x2 * y2 * d * (-x1 * x2 ^ 3 * y2 ^ 2 * x3 ^ 2 * y3 * d - x1 * x2 ^ 3 * x3 ^ 2 * y3 -
        x1 * x2 ^ 2 * y2 ^ 3 * x3 * y3 ^ 2 * d - x1 * x2 ^ 2 * y2 * x3 ^ 3 -
        x1 * x2 ^ 2 * y2 * x3 + x1 * x2 * y2 ^ 2 * y3 ^ 3 - x1 * x2 * y2 ^ 2 * y3 +
        x1 * y2 ^ 3 * x3 * y3 ^ 2 + y1 * x2 ^ 3 * y2 ^ 2 * x3 * y3 ^ 2 * d +
        y1 * x2 ^ 3 * x3 * y3 ^ 2 + y1 * x2 ^ 2 * y2 ^ 3 * x3 ^ 2 * y3 * d +
        y1 * x2 ^ 2 * y2 * y3 ^ 3 - y1 * x2 ^ 2 * y2 * y3 - y1 * x2 * y2 ^ 2 * x3 ^ 3 -
        y1 * x2 * y2 ^ 2 * x3 - y1 * y2 ^ 3 * x3 ^ 2 * y3) * on1 +
      x2 * y2 * d * (x1 ^ 3 * x2 * x3 ^ 2 * y3 + x1 ^ 3 * y2 * x3 * y3 ^ 2 -
        x1 ^ 2 * y1 * x2 * x3 ^ 3 - x1 ^ 2 * y1 * x2 * x3 - x1 ^ 2 * y1 * y2 * y3 ^ 3 +
        x1 ^ 2 * y1 * y2 * y3 - x1 * y1 ^ 2 * x2 * y3 ^ 3 + x1 * y1 ^ 2 * x2 * y3 -
        x1 * y1 ^ 2 * y2 * x3 ^ 3 - x1 * y1 ^ 2 * y2 * x3 + x1 * x2 * x3 ^ 2 * y3 +
        x1 * y2 * x3 * y3 ^ 2 + y1 ^ 3 * x2 * x3 * y3 ^ 2 + y1 ^ 3 * y2 * x3 ^ 2 * y3 -
        y1 * x2 * x3 * y3 ^ 2 - y1 * y2 * x3 ^ 2 * y3) * on2 +
      x2 * y2 * d * (x1 ^ 3 * x2 ^ 2 * y2 * x3 + x1 ^ 3 * x2 * y2 ^ 2 * y3 +
        x1 ^ 2 * y1 * x2 ^ 3 * y2 ^ 2 * x3 * d + x1 ^ 2 * y1 * x2 ^ 3 * x3 -
        x1 ^ 2 * y1 * x2 ^ 2 * y2 ^ 3 * y3 * d + x1 ^ 2 * y1 * y2 ^ 3 * y3 -
        x1 * y1 ^ 2 * x2 ^ 3 * y2 ^ 2 * y3 * d - x1 * y1 ^ 2 * x2 ^ 3 * y3 +
        x1 * y1 ^ 2 * x2 ^ 2 * y2 ^ 3 * x3 * d - x1 * y1 ^ 2 * y2 ^ 3 * x3 +
        x1 * x2 ^ 2 * y2 * x3 + x1 * x2 * y2 ^ 2 * y3 - y1 ^ 3 * x2 ^ 2 * y2 * y3 -
        y1 ^ 3 * x2 * y2 ^ 2 * x3 + y1 * x2 ^ 2 * y2 * y3 + y1 * x2 * y2 ^ 2 * x3) * on3

end Identities

/-- The constant of a curve on which the addition law is complete. -/
structure Curve (F : Type u) [Field F] where
  d : F
  root : F
  root_sq : root ^ 2 = -1
  nonsquare : ¬ IsSquare d
  two_ne : (2 : F) ≠ 0

variable {F : Type u} [Field F]

@[ext] structure Point (C : Curve F) where
  x : F
  y : F
  on : y ^ 2 - x ^ 2 = 1 + C.d * x ^ 2 * y ^ 2

namespace Point

variable {C : Curve F}

/-- The product that the denominators of a sum contain. -/
def cross (P Q : Point C) : F := C.d * P.x * Q.x * P.y * Q.y

theorem cross_comm (P Q : Point C) : cross P Q = cross Q P := by
  rw [cross, cross]
  ring

/-- A product whose square is one would make `d` a square, up to a factor. -/
theorem square_of_cross {P Q : Point C} (unit : cross P Q ^ 2 = 1) (s : F) (sign : s ^ 2 = 1) :
    C.d * (P.x * P.y * (C.root * Q.x + s * Q.y)) ^ 2 =
      (C.root * P.x + s * cross P Q * P.y) ^ 2 := by
  have onP := P.on
  have onQ := Q.on
  have root := C.root_sq
  rw [cross] at unit ⊢
  linear_combination (C.d * P.x ^ 2 * P.y ^ 2) * onQ - onP +
    (C.d * P.x ^ 2 * P.y ^ 2 * Q.x ^ 2 - P.x ^ 2) * root + (1 - P.y ^ 2) * unit +
    (C.d * P.x ^ 2 * P.y ^ 2 * Q.y ^ 2 -
      (C.d * P.x * Q.x * P.y * Q.y) ^ 2 * P.y ^ 2) * sign

theorem cross_sq_ne (P Q : Point C) : cross P Q ^ 2 ≠ 1 := by
  intro unit
  have nonzero : cross P Q ≠ 0 := by
    intro zero
    rw [zero] at unit
    simp at unit
  have parts : P.x * P.y ≠ 0 ∧ Q.y ≠ 0 := by
    rw [cross] at nonzero
    constructor
    · intro zero
      refine nonzero ?_
      linear_combination (C.d * Q.x * Q.y) * zero
    · intro zero
      refine nonzero ?_
      linear_combination (C.d * P.x * Q.x * P.y) * zero
  -- a factor that does not vanish would exhibit `d` as a square
  have vanishes : ∀ s : F, s ^ 2 = 1 → C.root * Q.x + s * Q.y = 0 := by
    intro s sign
    by_contra there
    have factor : P.x * P.y * (C.root * Q.x + s * Q.y) ≠ 0 := mul_ne_zero parts.1 there
    refine C.nonsquare ⟨(C.root * P.x + s * cross P Q * P.y) /
      (P.x * P.y * (C.root * Q.x + s * Q.y)), ?_⟩
    rw [← sq, div_pow, eq_div_iff (pow_ne_zero 2 factor)]
    exact square_of_cross unit s sign
  have plus := vanishes 1 (by ring)
  have minus := vanishes (-1) (by ring)
  have twice : 2 * Q.y = 0 := by linear_combination plus - minus
  rcases mul_eq_zero.mp twice with two | zero
  · exact C.two_ne two
  · exact parts.2 zero

theorem plus_ne (P Q : Point C) : 1 + cross P Q ≠ 0 := by
  intro zero
  refine cross_sq_ne P Q ?_
  linear_combination (cross P Q - 1) * zero

theorem minus_ne (P Q : Point C) : 1 - cross P Q ≠ 0 := by
  intro zero
  refine cross_sq_ne P Q ?_
  linear_combination (-cross P Q - 1) * zero

instance : Zero (Point C) := ⟨{ x := 0, y := 1, on := by ring }⟩

instance : Neg (Point C) := ⟨fun P => {
  x := -P.x
  y := P.y
  on := by linear_combination P.on }⟩

theorem sum_on (P Q : Point C) :
    ((P.y * Q.y + P.x * Q.x) / (1 - cross P Q)) ^ 2 -
      ((P.x * Q.y + P.y * Q.x) / (1 + cross P Q)) ^ 2 =
    1 + C.d * ((P.x * Q.y + P.y * Q.x) / (1 + cross P Q)) ^ 2 *
      ((P.y * Q.y + P.x * Q.x) / (1 - cross P Q)) ^ 2 := by
  have plus := plus_ne P Q
  have minus := minus_ne P Q
  have identity := closed_identity P.on Q.on
  field_simp
  rw [cross]
  linear_combination identity

instance : Add (Point C) := ⟨fun P Q => {
  x := (P.x * Q.y + P.y * Q.x) / (1 + cross P Q)
  y := (P.y * Q.y + P.x * Q.x) / (1 - cross P Q)
  on := sum_on P Q }⟩

@[simp] theorem zero_x : (0 : Point C).x = 0 := rfl

@[simp] theorem zero_y : (0 : Point C).y = 1 := rfl

@[simp] theorem neg_x (P : Point C) : (-P).x = -P.x := rfl

@[simp] theorem neg_y (P : Point C) : (-P).y = P.y := rfl

theorem add_x (P Q : Point C) : (P + Q).x * (1 + cross P Q) = P.x * Q.y + P.y * Q.x :=
  div_mul_cancel₀ _ (plus_ne P Q)

theorem add_y (P Q : Point C) : (P + Q).y * (1 - cross P Q) = P.y * Q.y + P.x * Q.x :=
  div_mul_cancel₀ _ (minus_ne P Q)

protected theorem add_comm (P Q : Point C) : P + Q = Q + P := by
  ext
  · refine mul_right_cancel₀ (plus_ne P Q) ?_
    rw [add_x, cross_comm, add_x]
    ring
  · refine mul_right_cancel₀ (minus_ne P Q) ?_
    rw [add_y, cross_comm, add_y]
    ring

protected theorem zero_add (P : Point C) : 0 + P = P := by
  have apart : cross 0 P = 0 := by
    rw [cross, zero_x]
    ring
  have x := add_x 0 P
  have y := add_y 0 P
  rw [apart, zero_x, zero_y] at x y
  ext
  · linear_combination x
  · linear_combination y

protected theorem neg_add (P : Point C) : -P + P = 0 := by
  ext
  · refine mul_right_cancel₀ (plus_ne (-P) P) ?_
    rw [add_x, neg_x, neg_y, zero_x]
    ring
  · refine mul_right_cancel₀ (minus_ne (-P) P) ?_
    rw [add_y, neg_x, neg_y, zero_y, cross, neg_x, neg_y]
    linear_combination P.on

/-- The denominator of the first coordinate of a sum of three, cleared of fractions. -/
def cleared (P Q R : Point C) : F :=
  1 - cross P Q ^ 2 + C.d * (P.x * Q.y + P.y * Q.x) * (P.y * Q.y + P.x * Q.x) * R.x * R.y

theorem cleared_eq (P Q R : Point C) :
    cleared P Q R = (1 + cross P Q) * (1 - cross P Q) * (1 + cross (P + Q) R) := by
  have shape : cross (P + Q) R = C.d * (P + Q).x * R.x * (P + Q).y * R.y := rfl
  rw [cleared, shape, ← add_x, ← add_y]
  ring

theorem cleared_ne (P Q R : Point C) : cleared P Q R ≠ 0 := by
  rw [cleared_eq]
  exact mul_ne_zero (mul_ne_zero (plus_ne P Q) (minus_ne P Q)) (plus_ne (P + Q) R)

theorem add_add_x (P Q R : Point C) : (P + Q + R).x * cleared P Q R =
    (P.x * Q.y + P.y * Q.x) * (1 - cross P Q) * R.y +
      (P.y * Q.y + P.x * Q.x) * (1 + cross P Q) * R.x := by
  have sum := add_x (P + Q) R
  rw [cleared_eq, ← add_x, ← add_y]
  linear_combination (1 + cross P Q) * (1 - cross P Q) * sum

theorem assoc_x (P Q R : Point C) : (P + Q + R).x = (P + (Q + R)).x := by
  have left := add_add_x P Q R
  have right := add_add_x Q R P
  rw [Point.add_comm (Q + R) P] at right
  refine mul_right_cancel₀ (mul_ne_zero (cleared_ne P Q R) (cleared_ne Q R P)) ?_
  have identity := assoc_identity P.on Q.on R.on
  calc (P + Q + R).x * (cleared P Q R * cleared Q R P)
      = ((P + Q + R).x * cleared P Q R) * cleared Q R P := by ring
    _ = ((P + (Q + R)).x * cleared Q R P) * cleared P Q R := by
        rw [left, right, cleared, cleared, cross, cross]
        linear_combination identity
    _ = (P + (Q + R)).x * (cleared P Q R * cleared Q R P) := by ring

/-- Turning a point by a quarter exchanges its coordinates. -/
def turn (P : Point C) : Point C where
  x := -C.root * P.y
  y := -C.root * P.x
  on := by
    linear_combination P.on + (P.x ^ 2 - P.y ^ 2 -
      C.d * P.x ^ 2 * P.y ^ 2 * (C.root ^ 2 - 1)) * C.root_sq

theorem cross_turn (P Q : Point C) : cross P (turn Q) = -cross P Q := by
  rw [cross, cross, turn]
  linear_combination (C.d * P.x * Q.x * P.y * Q.y) * C.root_sq

theorem add_turn (P Q : Point C) : P + turn Q = turn (P + Q) := by
  have x := add_x P Q
  have y := add_y P Q
  ext
  · refine mul_right_cancel₀ (plus_ne P (turn Q)) ?_
    rw [add_x, cross_turn, turn, turn]
    linear_combination C.root * y
  · refine mul_right_cancel₀ (minus_ne P (turn Q)) ?_
    rw [add_y, cross_turn, turn, turn]
    linear_combination C.root * x

theorem assoc_y (P Q R : Point C) : (P + Q + R).y = (P + (Q + R)).y := by
  have root : -C.root ≠ 0 := by
    intro zero
    have one : (1 : F) = 0 := by linear_combination C.root_sq + C.root * zero
    exact one_ne_zero one
  -- the second coordinates are the first ones after a turn
  have x := assoc_x P Q (turn R)
  rw [add_turn, add_turn, add_turn] at x
  exact mul_left_cancel₀ root x

instance : AddCommGroup (Point C) where
  add_assoc P Q R := Point.ext (assoc_x P Q R) (assoc_y P Q R)
  zero_add := Point.zero_add
  add_zero P := (Point.add_comm P 0).trans (Point.zero_add P)
  add_comm := Point.add_comm
  neg_add_cancel := Point.neg_add
  nsmul := nsmulRec
  zsmul := zsmulRec

end Point

@[ext] structure Extended (F : Type u) where
  X : F
  Y : F
  Z : F
  T : F

namespace Extended

variable {C : Curve F}

/-- `e` are extended coordinates of `P`. -/
structure Represents (e : Extended F) (P : Point C) : Prop where
  Z_ne : e.Z ≠ 0
  X_eq : e.X = P.x * e.Z
  Y_eq : e.Y = P.y * e.Z
  T_eq : e.T = P.x * P.y * e.Z

/-- Coordinates that are extended coordinates of some point. -/
structure Valid (C : Curve F) (e : Extended F) : Prop where
  Z_ne : e.Z ≠ 0
  product : e.X * e.Y = e.Z * e.T
  on : (e.Y ^ 2 - e.X ^ 2) * e.Z ^ 2 = e.Z ^ 4 + C.d * e.X ^ 2 * e.Y ^ 2

theorem Represents.valid {e : Extended F} {P : Point C} (h : e.Represents P) : Valid C e := by
  refine ⟨h.Z_ne, ?_, ?_⟩
  · rw [h.X_eq, h.Y_eq, h.T_eq]
    ring
  · rw [h.X_eq, h.Y_eq]
    linear_combination e.Z ^ 4 * P.on

theorem Valid.represents {e : Extended F} (valid : Valid C e) : ∃ P : Point C, e.Represents P := by
  have Z_ne := valid.Z_ne
  have on : (e.Y / e.Z) ^ 2 - (e.X / e.Z) ^ 2 =
      1 + C.d * (e.X / e.Z) ^ 2 * (e.Y / e.Z) ^ 2 := by
    have identity := valid.on
    field_simp
    linear_combination identity
  refine ⟨⟨_, _, on⟩, Z_ne, (div_mul_cancel₀ _ Z_ne).symm, (div_mul_cancel₀ _ Z_ne).symm, ?_⟩
  have product := valid.product
  field_simp
  linear_combination -product

/-- The point of given coordinates is their only one. -/
theorem Represents.unique {e : Extended F} {P Q : Point C} (first : e.Represents P)
    (second : e.Represents Q) : P = Q := by
  ext
  · exact mul_right_cancel₀ first.Z_ne (first.X_eq.symm.trans second.X_eq)
  · exact mul_right_cancel₀ first.Z_ne (first.Y_eq.symm.trans second.Y_eq)

/-- Two sets of coordinates are projectively equal when they are of one point. -/
theorem Represents.same_iff {e f : Extended F} {P Q : Point C} (first : e.Represents P)
    (second : f.Represents Q) :
    e.X * f.Z - f.X * e.Z = 0 ∧ e.Y * f.Z - f.Y * e.Z = 0 ↔ P = Q := by
  have factor : e.Z * f.Z ≠ 0 := mul_ne_zero first.Z_ne second.Z_ne
  rw [first.X_eq, first.Y_eq, second.X_eq, second.Y_eq]
  constructor
  · rintro ⟨x, y⟩
    ext
    · refine mul_right_cancel₀ factor ?_
      linear_combination x
    · refine mul_right_cancel₀ factor ?_
      linear_combination y
  · rintro rfl
    constructor
    · ring
    · ring

/-- Addition without division. -/
def add (d : F) (e f : Extended F) : Extended F :=
  let A := (e.Y - e.X) * (f.Y - f.X)
  let B := (e.Y + e.X) * (f.Y + f.X)
  let C := 2 * e.T * f.T * d
  let D := 2 * e.Z * f.Z
  { X := (B - A) * (D - C), Y := (D + C) * (B + A), Z := (D - C) * (D + C), T := (B - A) * (B + A) }

theorem add_represents {e f : Extended F} {P Q : Point C} (first : e.Represents P)
    (second : f.Represents Q) : (add C.d e f).Represents (P + Q) := by
  have x := Point.add_x P Q
  have y := Point.add_y P Q
  have two := C.two_ne
  have plus := Point.plus_ne P Q
  have minus := Point.minus_ne P Q
  have difference : 2 * e.Z * f.Z - 2 * e.T * f.T * C.d =
      2 * e.Z * f.Z * (1 - Point.cross P Q) := by
    rw [first.T_eq, second.T_eq, Point.cross]
    ring
  have total : 2 * e.Z * f.Z + 2 * e.T * f.T * C.d =
      2 * e.Z * f.Z * (1 + Point.cross P Q) := by
    rw [first.T_eq, second.T_eq, Point.cross]
    ring
  have less : (e.Y + e.X) * (f.Y + f.X) - (e.Y - e.X) * (f.Y - f.X) =
      2 * e.Z * f.Z * (1 + Point.cross P Q) * (P + Q).x := by
    rw [first.X_eq, first.Y_eq, second.X_eq, second.Y_eq]
    linear_combination (-2 * e.Z * f.Z) * x
  have more : (e.Y + e.X) * (f.Y + f.X) + (e.Y - e.X) * (f.Y - f.X) =
      2 * e.Z * f.Z * (1 - Point.cross P Q) * (P + Q).y := by
    rw [first.X_eq, first.Y_eq, second.X_eq, second.Y_eq]
    linear_combination (-2 * e.Z * f.Z) * y
  have scale : 2 * e.Z * f.Z ≠ 0 := mul_ne_zero (mul_ne_zero two first.Z_ne) second.Z_ne
  refine ⟨?_, ?_, ?_, ?_⟩
  · rw [add, difference, total]
    exact mul_ne_zero (mul_ne_zero scale minus) (mul_ne_zero scale plus)
  · rw [add, less, difference, total]
    ring
  · rw [add, more, difference, total]
    ring
  · rw [add, less, more, difference, total]
    ring

end Extended

end TwistedEdwards
