import Custody.PointCompression

/-!
# Sums and multiples of points

Adding in extended coordinates is the Edwards addition law, whose denominators do not
vanish on the curve. Doubling and adding computes the multiple of a point.
-/

namespace ScalarMultiplication

open TwistedEdwards Ed25519 PrimeField PointCompression

theorem residues_add (p q : Extended ℤ) :
    residues (add p q) = Extended.add curve.d (residues p) (residues q) := by
  simp only [residues, add, Extended.add, curve]
  ext
  · push_cast [ZMod.intCast_mod]
    ring
  · push_cast [ZMod.intCast_mod]
    ring
  · push_cast [ZMod.intCast_mod]
    ring
  · push_cast [ZMod.intCast_mod]
    ring

theorem add_represents {p q : Extended ℤ} {A C : Point curve}
    (first : (residues p).Represents A) (second : (residues q).Represents C) :
    (residues (add p q)).Represents (A + C) := by
  rw [residues_add]
  exact Extended.add_represents first second

theorem ident_represents : (residues ident).Represents (0 : Point curve) := by
  refine ⟨?_, ?_, ?_, ?_⟩
  · simp [residues, ident]
  · simp [residues, ident]
  · simp [residues, ident]
  · simp [residues, ident]

/-- The loop adds the remaining multiple to the sum so far. -/
theorem mulLoop_represents (n : ℕ) : ∀ {q p : Extended ℤ} {S A : Point curve},
    (residues q).Represents S → (residues p).Represents A →
    (residues (mulLoop q p n)).Represents (S + n • A) := by
  induction n using Nat.strongRecOn with
  | ind n ih =>
    intro q p S A sum multiple
    rw [mulLoop]
    by_cases zero : n = 0
    · rw [if_pos zero, zero, zero_smul, add_zero]
      exact sum
    · have less : n >>> 1 < n := by
        rw [Nat.shiftRight_one]
        omega
      have halves : n = n >>> 1 * 2 + n % 2 := by
        rw [Nat.shiftRight_one]
        omega
      have later := fun {q} {S} (h : (residues q).Represents S) =>
        ih (n >>> 1) less h (add_represents multiple multiple)
      rw [if_neg zero, Nat.and_one_is_mod]
      have total : n • A = (n >>> 1) • (A + A) + (n % 2) • A := by
        conv_lhs => rw [halves]
        rw [add_smul, mul_smul, two_smul]
      rw [total]
      split
      next odd =>
        rw [odd, one_smul, add_comm ((n >>> 1) • (A + A)) A, ← add_assoc]
        exact later (add_represents sum multiple)
      next even =>
        have none_ : n % 2 = 0 := by omega
        rw [none_, zero_smul, add_zero]
        exact later sum

theorem mul_represents {p : Extended ℤ} {A : Point curve} (h : (residues p).Represents A)
    (n : ℕ) : (residues (mul p n)).Represents (n • A) := by
  have whole := mulLoop_represents n ident_represents h
  rwa [zero_add] at whole

/-- The coordinates `X / Z` and `Y / Z`. -/
def affine (p : Extended ℤ) : Residue × Residue := (p.X / p.Z, p.Y / p.Z)

/-- The product in the denominators of the addition law. -/
def crossTerm (a b : Residue × Residue) : Residue := D * a.1 * b.1 * a.2 * b.2

/-- The Edwards addition law. -/
def edwardsSum (a b : Residue × Residue) : Residue × Residue :=
  ((a.1 * b.2 + a.2 * b.1) / (1 + crossTerm a b), (a.2 * b.2 + a.1 * b.1) / (1 - crossTerm a b))

/-- The sum of so many copies of one point. -/
def foldSum (a : Residue × Residue) : ℕ → Residue × Residue
  | 0 => (0, 1)
  | n + 1 => edwardsSum (foldSum a n) a

def coordinatePair (A : Point curve) : Residue × Residue := (A.x, A.y)

theorem affine_of_represents {p : Extended ℤ} {A : Point curve}
    (h : (residues p).Represents A) : affine p = coordinatePair A := by
  have x : (p.X : Residue) = A.x * p.Z := h.X_eq
  have y : (p.Y : Residue) = A.y * p.Z := h.Y_eq
  have z : (p.Z : Residue) ≠ 0 := h.Z_ne
  rw [affine, coordinatePair, x, y, mul_div_cancel_right₀ _ z, mul_div_cancel_right₀ _ z]

theorem foldSum_pair (A : Point curve) (n : ℕ) :
    foldSum (coordinatePair A) n = coordinatePair (n • A) := by
  induction n with
  | zero =>
    rw [zero_smul]
    rfl
  | succ n ih =>
    rw [foldSum, ih, succ_nsmul]
    rfl

/-- Points of equal affine coordinates are the ones that compare as equal. -/
theorem equal_iff_affine {p q : Extended ℤ} (first : OnCurve p) (second : OnCurve q) :
    equal p q = true ↔ affine p = affine q := by
  obtain ⟨A, ofP⟩ := onCurve_iff.mp first
  obtain ⟨C, ofQ⟩ := onCurve_iff.mp second
  rw [equal_iff ofP ofQ, affine_of_represents ofP, affine_of_represents ofQ]
  exact ⟨fun same => by rw [same], fun same => Point.ext (Prod.mk.inj same).1 (Prod.mk.inj same).2⟩

/-- Multiples of a point on the curve are its sums under the addition law, and the sum of two
points is a point on the curve, where the law has no exceptions. -/
theorem multiples_and_sums_correct :
    (∀ p, OnCurve p → ∀ n, OnCurve (mul p n) ∧ affine (mul p n) = foldSum (affine p) n) ∧
    (∀ p q, OnCurve p → OnCurve q → OnCurve (add p q) ∧
      1 + crossTerm (affine p) (affine q) ≠ 0 ∧ 1 - crossTerm (affine p) (affine q) ≠ 0 ∧
      affine (add p q) = edwardsSum (affine p) (affine q)) := by
  constructor
  · intro p valid n
    obtain ⟨A, represents⟩ := onCurve_iff.mp valid
    have multiple := mul_represents represents n
    refine ⟨onCurve_iff.mpr ⟨_, multiple⟩, ?_⟩
    rw [affine_of_represents multiple, affine_of_represents represents, foldSum_pair]
  · intro p q validP validQ
    obtain ⟨A, ofP⟩ := onCurve_iff.mp validP
    obtain ⟨C, ofQ⟩ := onCurve_iff.mp validQ
    have sum := add_represents ofP ofQ
    rw [affine_of_represents sum, affine_of_represents ofP, affine_of_represents ofQ]
    exact ⟨onCurve_iff.mpr ⟨_, sum⟩, Point.plus_ne A C, Point.minus_ne A C, rfl⟩

end ScalarMultiplication
