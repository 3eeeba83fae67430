import Custody.PrimeField

/-!
# Points as 32 bytes

A point is written as its second coordinate and the parity of the first. Reading
takes a root and the parity back, so each point has one encoding and each accepted
string is the encoding of one point.
-/

namespace PointCompression

open HexBytes CborItems ModularPowers TwistedEdwards Ed25519 PrimeField

/-- An integer in range is the value of its residue. -/
theorem val_cast {n : ℤ} (low : 0 ≤ n) (high : n < P) : ((n : Residue).val : ℤ) = n := by
  rw [ZMod.val_intCast, Int.emod_eq_of_lt low high]

theorem cast_val (r : Residue) : ((r.val : ℤ) : Residue) = r := by
  rw [Int.cast_natCast, ZMod.natCast_zmod_val]

theorem emod_zero_iff (n : ℤ) : n % P = 0 ↔ (n : Residue) = 0 := by
  rw [ZMod.intCast_zmod_eq_zero_iff_dvd, Int.dvd_iff_emod_eq_zero]

theorem emod_range (n : ℤ) : 0 ≤ n % P ∧ n % P < P := by
  have positive := one_lt_P
  exact ⟨Int.emod_nonneg _ (by omega), Int.emod_lt_of_pos _ (by omega)⟩

theorem powMod_range (b : ℤ) (e : ℕ) : 0 ≤ powMod b e P ∧ powMod b e P < P := by
  rw [powMod_eq]
  exact emod_range _

/-- The residues of the coordinates. -/
def residues (p : Extended ℤ) : Extended Residue :=
  { X := p.X, Y := p.Y, Z := p.Z, T := p.T }

/-- The denominator of the root never vanishes. -/
theorem den_ne (y : Residue) : curve.d * y * y + 1 ≠ 0 := by
  intro zero
  have nonzero : y ≠ 0 := by
    rintro rfl
    simp at zero
  refine curve.nonsquare ⟨curve.root / y, ?_⟩
  rw [div_mul_div_comm, ← sq, curve.root_sq, eq_div_iff (mul_ne_zero nonzero nonzero)]
  linear_combination zero

/-- `y` has the first coordinate `x` on the curve. -/
def Over (x y : Residue) : Prop := x * x * (curve.d * y * y + 1) = y * y - 1

theorem over_iff {x y : Residue} : Over x y ↔ y ^ 2 - x ^ 2 = 1 + curve.d * x ^ 2 * y ^ 2 := by
  rw [Over]
  constructor
  · intro h
    linear_combination -h
  · intro h
    linear_combination -h

/-- The number whose root is taken. -/
def target (y : ℤ) : ℤ := (y * y - 1) * inv (D * y * y + 1) % P

/-- The square that `xrecover` looks for, in the field. -/
theorem target_cast (y : ℤ) : ((target y : ℤ) : Residue) =
    ((y : Residue) * y - 1) / (curve.d * y * y + 1) := by
  rw [target, ZMod.intCast_mod]
  push_cast
  rw [inv_cast, div_eq_mul_inv]
  push_cast
  rfl

/-- A point lies over `y` exactly if its `x` squares to the target. -/
theorem over_target {x : Residue} {y : ℤ} : Over x (y : Residue) ↔
    x * x = (target y : Residue) := by
  rw [Over, target_cast, eq_div_iff (den_ne _)]

/-- Of a candidate and its multiple by the root of `-1`, the one that squares to `xx`. -/
def pick (xx root : ℤ) : Option ℤ :=
  let x := if (root * root - xx) % P ≠ 0 then root * I % P else root
  if (x * x - xx) % P ≠ 0 then none else some x

theorem xrecover_eq (y : ℤ) :
    xrecover y = pick (target y) (powMod (target y) ((P + 3) / 8) P) := rfl

theorem square_iff (x xx : ℤ) :
    (x * x - xx) % P = 0 ↔ (x : Residue) * x = (xx : Residue) := by
  rw [emod_zero_iff, Int.cast_sub, Int.cast_mul, sub_eq_zero]

/-- A root that was picked squares to the target. -/
theorem pick_square {xx root x : ℤ} (low : 0 ≤ root) (high : root < P)
    (h : pick xx root = some x) : 0 ≤ x ∧ x < P ∧ (x : Residue) * x = (xx : Residue) := by
  rw [pick] at h
  generalize chosen : (if (root * root - xx) % P ≠ 0 then root * I % P else root) = c at h
  have range : 0 ≤ c ∧ c < P := by
    rw [← chosen]
    split
    · exact emod_range _
    · exact ⟨low, high⟩
  by_cases square : (c * c - xx) % P = 0
  · rw [if_neg (not_not.mpr square), Option.some.injEq] at h
    subst h
    exact ⟨range.1, range.2, (square_iff c xx).mp square⟩
  · rw [if_pos square] at h
    cases h

/-- If a root or its multiple by the root of minus one fits, one is picked. -/
theorem pick_returns {xx root : ℤ} (h : (root : Residue) * root = (xx : Residue) ∨
    (root : Residue) * root = -(xx : Residue)) : ∃ x, pick xx root = some x := by
  rw [pick]
  generalize chosen : (if (root * root - xx) % P ≠ 0 then root * I % P else root) = c
  have square : (c * c - xx) % P = 0 := by
    rw [square_iff, ← chosen]
    by_cases same : (root * root - xx) % P = 0
    · rw [if_neg (not_not.mpr same)]
      exact (square_iff root xx).mp same
    · rw [if_pos same, ZMod.intCast_mod, Int.cast_mul]
      rw [square_iff] at same
      linear_combination (root : Residue) ^ 2 * I_sq - h.resolve_left same
  exact ⟨c, if_neg (not_not.mpr square)⟩

/-- A recovered coordinate is in range and over `y`. -/
theorem xrecover_over {y x : ℤ} (h : xrecover y = some x) :
    0 ≤ x ∧ x < P ∧ Over (x : Residue) (y : Residue) := by
  rw [xrecover_eq] at h
  obtain ⟨low, high⟩ := powMod_range (target y) ((P + 3) / 8)
  obtain ⟨low, high, square⟩ := pick_square low high h
  exact ⟨low, high, over_target.mpr square⟩

/-- A coordinate is recovered when there is one. -/
theorem xrecover_returns {y : ℤ} {x : Residue} (above : Over x (y : Residue)) :
    ∃ root, xrecover y = some root := by
  rw [xrecover_eq]
  have square : IsSquare (target y : Residue) := ⟨x, (over_target.mp above).symm⟩
  refine pick_returns ?_
  rw [powMod_cast, ← sq]
  exact root_pow square

/-- Two residues that agree up to the sign and in parity agree. -/
theorem same_of_parity {a b : Residue} (up : a = b ∨ a = -b) (parity : a.val % 2 = b.val % 2) :
    a = b := by
  rcases up with same | rfl
  · exact same
  · by_cases zero : b = 0
    · rw [zero, neg_zero]
    · have odd := P_eq
      have small := ZMod.val_lt b
      rw [ZMod.neg_val, if_neg zero] at parity
      omega

def withSign (root : ℤ) (sign : ℕ) : ℤ := if root.toNat &&& 1 ≠ sign then P - root else root

/-- Choosing a sign keeps the coordinate up to its sign and gives it that parity. -/
theorem withSign_ok {root : ℤ} {sign : ℕ} (low : 0 ≤ root) (high : root < P) (bit : sign < 2)
    (allowed : ¬ (root = 0 ∧ sign = 1)) :
    0 ≤ withSign root sign ∧ withSign root sign < P ∧ (withSign root sign).toNat % 2 = sign ∧
      ((withSign root sign : Residue) = root ∨ (withSign root sign : Residue) = -root) := by
  have odd := P_eq
  rw [withSign, Nat.and_one_is_mod]
  split
  next other =>
    refine ⟨by omega, ?_, ?_, .inr ?_⟩
    · by_contra
      have zero : root = 0 := by omega
      rw [zero] at other allowed
      simp only [Int.toNat_zero, Nat.zero_mod, true_and] at other allowed
      omega
    · omega
    · rw [Int.cast_sub, Int.cast_natCast, ZMod.natCast_self, zero_sub]
  next same =>
    exact ⟨low, high, not_not.mp same, .inl rfl⟩

theorem toNat_cast_val {n : ℤ} (low : 0 ≤ n) (high : n < P) : (n : Residue).val = n.toNat := by
  have same := val_cast low high
  omega

/-- The coordinate of that sign is the only one. -/
theorem withSign_unique {root : ℤ} {sign : ℕ} (low : 0 ≤ root) (high : root < P)
    {x : Residue} (up : (root : Residue) = x ∨ (root : Residue) = -x) (parity : x.val % 2 = sign) :
    ¬ (root = 0 ∧ sign = 1) ∧ withSign root sign = x.val := by
  have allowed : ¬ (root = 0 ∧ sign = 1) := by
    rintro ⟨rfl, rfl⟩
    have zero : x = 0 := by
      rcases up with same | same
      · rw [← same, Int.cast_zero]
      · rw [← neg_eq_zero, ← same, Int.cast_zero]
    rw [zero, ZMod.val_zero] at parity
    cases parity
  have bit : sign < 2 := by omega
  obtain ⟨low', high', parity', up'⟩ := withSign_ok low high bit allowed
  refine ⟨allowed, ?_⟩
  have same : (withSign root sign : Residue) = x := by
    refine same_of_parity ?_ ?_
    · rcases up' with plus | minus
      · rwa [plus]
      · rw [minus, neg_inj, neg_eq_iff_eq_neg]
        exact up.symm
    · rw [toNat_cast_val low' high', parity', parity]
  rw [← same, val_cast low' high']

/-- The number a point is written as. -/
def wordOf (Q : Point curve) : ℕ := Q.y.val + Q.x.val % 2 * 2 ^ 255

theorem P_lt : P < 2 ^ 255 := by decide

theorem wordOf_lt (Q : Point curve) : wordOf Q < 256 ^ 32 := by
  have small := ZMod.val_lt Q.y
  have size := P_lt
  rw [wordOf]
  omega

/-- The low bits of the word are the ordinate. -/
theorem wordOf_low (Q : Point curve) : wordOf Q % 2 ^ 255 = Q.y.val := by
  have small := ZMod.val_lt Q.y
  have size := P_lt
  rw [wordOf]
  omega

/-- The top bit of the word is the parity of the abscissa. -/
theorem wordOf_high (Q : Point curve) : wordOf Q / 2 ^ 255 = Q.x.val % 2 := by
  have small := ZMod.val_lt Q.y
  have size := P_lt
  rw [wordOf]
  omega

/-- A point's coordinates as they are read. -/
def coordinates (Q : Point curve) : Extended ℤ :=
  { X := Q.x.val, Y := Q.y.val, Z := 1, T := (Q.x * Q.y).val }

theorem coordinates_represent (Q : Point curve) : (residues (coordinates Q)).Represents Q := by
  have one : (residues (coordinates Q)).Z = 1 := Int.cast_one
  have x : (residues (coordinates Q)).X = Q.x := cast_val Q.x
  have y : (residues (coordinates Q)).Y = Q.y := cast_val Q.y
  have t : (residues (coordinates Q)).T = Q.x * Q.y := cast_val (Q.x * Q.y)
  refine ⟨?_, ?_, ?_, ?_⟩
  · rw [one]
    exact one_ne_zero
  · rw [x, one, mul_one]
  · rw [y, one, mul_one]
  · rw [t, one, mul_one]

/-- A quotient of coordinates is the value of the point's coordinate. -/
theorem quotient_val {n z : ℤ} {r : Residue} (nonzero : (z : Residue) ≠ 0)
    (eq : (n : Residue) = r * z) : n * inv z % P = r.val := by
  have cast : ((n * inv z % P : ℤ) : Residue) = r := by
    rw [ZMod.intCast_mod, Int.cast_mul, inv_cast, eq, mul_inv_cancel_right₀ nonzero]
  obtain ⟨low, high⟩ := emod_range (n * inv z)
  rw [← val_cast low high, cast]

/-- Whatever its coordinates, a point is written as its word. -/
theorem encode_point {p : Extended ℤ} {Q : Point curve} (h : (residues p).Represents Q) :
    encode p = .ok (bigEndian 32 (wordOf Q)).reverse := by
  have small := ZMod.val_lt Q.y
  have size := P_lt
  have word : Q.y.val ||| (Q.x.val &&& 1) <<< 255 = wordOf Q := by
    have below : Q.y.val < 2 ^ 255 := by omega
    rw [Nat.and_one_is_mod, Nat.shiftLeft_eq, Nat.or_comm, Nat.mul_comm,
      ← Nat.two_pow_add_eq_or_of_lt below, wordOf]
    omega
  have shape : encode p = toBytes 32 ((p.Y * inv p.Z % P).toNat |||
      ((p.X * inv p.Z % P).toNat &&& 1) <<< 255) := rfl
  rw [shape, quotient_val h.Z_ne h.X_eq, quotient_val h.Z_ne h.Y_eq, Int.toNat_natCast,
    Int.toNat_natCast, word, toBytes, if_pos (wordOf_lt Q)]

/-- What `decode` does with the sign and the second coordinate that it read. -/
def readParts (sign y : ℕ) : Option (Extended ℤ) :=
  if P ≤ y then none
  else match xrecover y with
    | none => none
    | some root =>
      if root = 0 ∧ sign = 1 then none
      else some { X := withSign root sign, Y := y, Z := 1, T := withSign root sign * y % P }

def readWord (word : ℕ) : Option (Extended ℤ) := readParts (word / 2 ^ 255) (word % 2 ^ 255)

theorem decode_eq {s : Bytes} (size : s.length = 32) : decode s = readWord (fromBytes s) := by
  have shape : decode s = if s.length ≠ 32 then none
      else readParts (fromBytes s >>> 255) (fromBytes s &&& ((1 <<< 255) - 1)) := by
    cases found : xrecover ((fromBytes s &&& ((1 <<< 255) - 1) : ℕ) : ℤ) with
    | none => simp only [decode, readParts, found]
    | some root => simp only [decode, readParts, found, withSign]
  rw [shape, if_neg (not_not.mpr size), Nat.one_shiftLeft, Nat.and_two_pow_sub_one_eq_mod,
    Nat.shiftRight_eq_div_pow, readWord]

/-- The word of a point is read as that point. -/
theorem readWord_wordOf (Q : Point curve) : readWord (wordOf Q) = some (coordinates Q) := by
  have small := ZMod.val_lt Q.y
  have above : Over Q.x (((Q.y.val : ℕ) : ℤ) : Residue) := by
    rw [cast_val]
    exact over_iff.mpr Q.on
  obtain ⟨root, found⟩ := xrecover_returns above
  obtain ⟨low, high, rootOver⟩ := xrecover_over found
  have up : (root : Residue) = Q.x ∨ (root : Residue) = -Q.x := by
    refine mul_self_eq_mul_self_iff.mp ?_
    rw [over_target.mp above, over_target.mp rootOver]
  obtain ⟨allowed, chosen⟩ := withSign_unique low high up rfl
  have t : (Q.x.val : ℤ) * Q.y.val % P = (Q.x * Q.y).val := by
    rw [← ZMod.val_intCast, Int.cast_mul, cast_val, cast_val]
  rw [readWord, wordOf_low, wordOf_high, readParts, if_neg (by omega), found]
  simp only
  rw [if_neg allowed, chosen, coordinates, t]

/-- What is read is a point, and the word was that point's. -/
theorem readWord_some {word : ℕ} (fits : word < 2 ^ 256) {q : Extended ℤ}
    (h : readWord word = some q) : ∃ Q : Point curve, word = wordOf Q ∧ q = coordinates Q := by
  rw [readWord, readParts] at h
  split at h
  · cases h
  next inRange =>
    split at h
    · cases h
    next root found =>
      split at h
      · cases h
      next allowed =>
        obtain ⟨low, high, above⟩ := xrecover_over found
        have bit : word / 2 ^ 255 < 2 := by omega
        obtain ⟨low', high', parity, up⟩ := withSign_ok low high bit allowed
        have above' : Over (withSign root (word / 2 ^ 255) : Residue)
            (((word % 2 ^ 255 : ℕ) : ℤ) : Residue) := by
          rw [over_target] at above ⊢
          rw [← above]
          exact mul_self_eq_mul_self_iff.mpr up
        let Q : Point curve := ⟨_, _, over_iff.mp above'⟩
        have x : Q.x.val = (withSign root (word / 2 ^ 255)).toNat := toNat_cast_val low' high'
        have y : Q.y.val = word % 2 ^ 255 := by
          have range : ((word % 2 ^ 255 : ℕ) : ℤ) < P := by omega
          have same := toNat_cast_val (Int.natCast_nonneg _) range
          rwa [Int.toNat_natCast] at same
        refine ⟨Q, ?_, ?_⟩
        · rw [wordOf, x, y, parity]
          omega
        · obtain rfl := Option.some.inj h
          rw [coordinates]
          have xx : ((Q.x.val : ℕ) : ℤ) = withSign root (word / 2 ^ 255) := by omega
          have t : (((Q.x * Q.y).val : ℕ) : ℤ) =
              withSign root (word / 2 ^ 255) * (word % 2 ^ 255 : ℕ) % P := by
            rw [← ZMod.val_intCast, Int.cast_mul]
          rw [xx, y, t]

theorem fromBytes_lt {s : Bytes} (size : s.length = 32) : fromBytes s < 2 ^ 256 := by
  have below := ofBigEndian_lt s.reverse
  rw [List.length_reverse, size] at below
  exact below

/-- Reading 32 bytes loses nothing. -/
theorem fromBytes_inverse {s : Bytes} (size : s.length = 32) :
    (bigEndian 32 (fromBytes s)).reverse = s := by
  have length : s.reverse.length = 32 := by rw [List.length_reverse, size]
  rw [fromBytes, ← length, bigEndian_ofBigEndian, List.reverse_reverse]

theorem fromBytes_bytes {n : ℕ} (fits : n < 256 ^ 32) :
    fromBytes (bigEndian 32 n).reverse = n := by
  rw [fromBytes, List.reverse_reverse, ofBigEndian_bigEndian fits]

/-- Accepted strings are the encodings of points, each of one. -/
theorem decode_iff {s : Bytes} (size : s.length = 32) {q : Extended ℤ} :
    decode s = some q ↔ ∃ Q : Point curve, fromBytes s = wordOf Q ∧ q = coordinates Q := by
  rw [decode_eq size]
  constructor
  · exact readWord_some (fromBytes_lt size)
  · rintro ⟨Q, word, rfl⟩
    rw [word, readWord_wordOf]

/-- A point on the curve in valid extended coordinates, as the integers state it. -/
structure OnCurve (p : Extended ℤ) : Prop where
  Z_ne : p.Z % P ≠ 0
  product : (p.X * p.Y - p.Z * p.T) % P = 0
  on : ((p.Y ^ 2 - p.X ^ 2) * p.Z ^ 2 - (p.Z ^ 4 + D * p.X ^ 2 * p.Y ^ 2)) % P = 0

/-- The curve equation on coordinates is being a point of the curve. -/
theorem onCurve_iff {p : Extended ℤ} :
    OnCurve p ↔ ∃ Q : Point curve, (residues p).Represents Q := by
  have nonzero : p.Z % P ≠ 0 ↔ (residues p).Z ≠ 0 := not_congr (emod_zero_iff p.Z)
  have product : (p.X * p.Y - p.Z * p.T) % P = 0 ↔
      (residues p).X * (residues p).Y = (residues p).Z * (residues p).T := by
    rw [emod_zero_iff, ← sub_eq_zero (b := (residues p).Z * (residues p).T)]
    push_cast
    rfl
  have on : ((p.Y ^ 2 - p.X ^ 2) * p.Z ^ 2 - (p.Z ^ 4 + D * p.X ^ 2 * p.Y ^ 2)) % P = 0 ↔
      ((residues p).Y ^ 2 - (residues p).X ^ 2) * (residues p).Z ^ 2 =
        (residues p).Z ^ 4 + curve.d * (residues p).X ^ 2 * (residues p).Y ^ 2 := by
    rw [emod_zero_iff, ← sub_eq_zero (b := (residues p).Z ^ 4 + _)]
    push_cast
    rfl
  constructor
  · intro h
    exact Extended.Valid.represents ⟨nonzero.mp h.Z_ne, product.mp h.product, on.mp h.on⟩
  · rintro ⟨Q, represents⟩
    obtain ⟨z, xy, curve_⟩ := represents.valid
    exact ⟨nonzero.mpr z, product.mpr xy, on.mpr curve_⟩

/-- Projective equality is equality of points. -/
theorem equal_iff {p q : Extended ℤ} {A B : Point curve} (first : (residues p).Represents A)
    (second : (residues q).Represents B) : equal p q = true ↔ A = B := by
  rw [equal, Bool.and_eq_true, beq_iff_eq, beq_iff_eq, emod_zero_iff, emod_zero_iff,
    ← first.same_iff second]
  push_cast
  rfl

/-- A point on the curve has an encoding that decodes to it. -/
theorem encode_returns {p : Extended ℤ} {Q : Point curve} (h : (residues p).Represents Q) :
    ∃ s, encode p = .ok s ∧ s.length = 32 ∧ decode s = some (coordinates Q) := by
  refine ⟨_, encode_point h, ?_, ?_⟩
  · rw [List.length_reverse, bigEndian_length]
  · rw [decode_iff (by rw [List.length_reverse, bigEndian_length])]
    exact ⟨Q, fromBytes_bytes (wordOf_lt Q), rfl⟩

/-- Compression is a bijection of the points of the curve onto the accepted strings: a point is
read back from its encoding up to scaling, and an accepted string is the encoding of the point
on the curve that is read from it. -/
theorem compression_exact :
    (∀ p, OnCurve p → ∃ s q, encode p = .ok s ∧ decode s = some q ∧ OnCurve q ∧
      equal q p = true) ∧
    (∀ s q, s.length = 32 → decode s = some q → OnCurve q ∧
      (q.T * q.Z - q.X * q.Y) % P = 0 ∧ encode q = .ok s) := by
  constructor
  · intro p valid
    obtain ⟨Q, represents⟩ := onCurve_iff.mp valid
    obtain ⟨s, encoded, -, decoded⟩ := encode_returns represents
    have same := coordinates_represent Q
    exact ⟨s, _, encoded, decoded, onCurve_iff.mpr ⟨Q, same⟩, (equal_iff same represents).mpr rfl⟩
  · intro s q size decoded
    obtain ⟨Q, word, rfl⟩ := (decode_iff size).mp decoded
    have represents := coordinates_represent Q
    have valid := onCurve_iff.mpr ⟨Q, represents⟩
    refine ⟨valid, ?_, ?_⟩
    · rw [← Int.dvd_iff_emod_eq_zero, ← dvd_neg, Int.dvd_iff_emod_eq_zero, ← valid.product]
      ring_nf
    · rw [encode_point represents, ← word, fromBytes_inverse size]

end PointCompression
