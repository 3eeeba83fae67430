import Mathlib.Data.List.Induction

/-!
# Chains of digests

Each link hashes the digest before it, its own number and its item. Nothing here
depends on what digests, items and links are. Where links can be told apart from one
another and from what the chain starts with, one tip has one list of items, unless
two different things that were hashed collide.
-/

namespace HashChain

universe u v w

variable {P : Type u} {D : Type v} {I : Type w}
variable (hash : P → D) (link : D → Nat → I → P)

/-- The digest after the items, the first of which has the number `n`. -/
def tip : D → Nat → List I → D
  | d, _, [] => d
  | d, n, x :: xs => tip (hash (link d n x)) (n + 1) xs

/-- What is hashed on the way. -/
def hashed : D → Nat → List I → List P
  | _, _, [] => []
  | d, n, x :: xs => link d n x :: hashed (hash (link d n x)) (n + 1) xs

theorem tip_append (d : D) (n : Nat) (xs ys : List I) :
    tip hash link d n (xs ++ ys) = tip hash link (tip hash link d n xs) (n + xs.length) ys := by
  induction xs generalizing d n with
  | nil => rfl
  | cons x xs ih =>
    rw [List.cons_append, tip, tip, ih, List.length_cons]
    congr 1
    omega

theorem hashed_append (d : D) (n : Nat) (xs ys : List I) :
    hashed hash link d n (xs ++ ys) =
      hashed hash link d n xs ++ hashed hash link (tip hash link d n xs) (n + xs.length) ys := by
  induction xs generalizing d n with
  | nil => rfl
  | cons x xs ih =>
    rw [List.cons_append, hashed, hashed, tip, ih, List.length_cons, List.cons_append]
    congr 3
    omega

theorem tip_concat (d : D) (n : Nat) (xs : List I) (x : I) :
    tip hash link d n (xs ++ [x]) = hash (link (tip hash link d n xs) (n + xs.length) x) :=
  tip_append hash link d n xs [x]

theorem mem_hashed_concat (d : D) (n : Nat) (xs : List I) (x : I) :
    link (tip hash link d n xs) (n + xs.length) x ∈ hashed hash link d n (xs ++ [x]) := by
  rw [hashed_append]
  exact List.mem_append_right _ List.mem_cons_self

/-- Every tip is a digest, if what the chain starts with is one. -/
theorem tip_digest {Digest : D → Prop} (digests : ∀ p, Digest (hash p)) {d : D}
    (first : Digest d) (n : Nat) (xs : List I) : Digest (tip hash link d n xs) := by
  induction xs generalizing d n with
  | nil => exact first
  | cons x xs ih => exact ih (digests _) (n + 1)

/-- Links with numbers below the bound differ from each other and from the start. -/
structure Separated (Digest : D → Prop) (start : P) (bound : Nat) : Prop where
  digests : ∀ p, Digest (hash p)
  injective : ∀ {d d' n n' x x'}, Digest d → Digest d' → n < bound → n' < bound →
    link d n x = link d' n' x' → d = d' ∧ n = n' ∧ x = x'
  fresh : ∀ {d n x}, Digest d → n < bound → link d n x ≠ start

variable {hash link}

/-- One tip has one list of items, unless the hash collides on what is hashed. -/
theorem tip_unique {Digest : D → Prop} {start : P} {bound n : Nat}
    (separated : Separated hash link Digest start bound) {xs ys : List I}
    (shortX : n + xs.length ≤ bound) (shortY : n + ys.length ≤ bound)
    (same : tip hash link (hash start) n xs = tip hash link (hash start) n ys) :
    xs = ys ∨ ∃ a ∈ start :: hashed hash link (hash start) n xs,
      ∃ b ∈ start :: hashed hash link (hash start) n ys, a ≠ b ∧ hash a = hash b := by
  have digest : ∀ zs, Digest (tip hash link (hash start) n zs) :=
    fun zs => tip_digest hash link separated.digests (separated.digests start) n zs
  -- from the last link backwards: equal links have equal tips before them
  induction xs using List.reverseRecOn generalizing ys with
  | nil =>
    rcases List.eq_nil_or_concat ys with rfl | ⟨ys, y, rfl⟩
    · exact Or.inl rfl
    · right
      rw [List.concat_eq_append] at shortY same ⊢
      rw [List.length_append, List.length_singleton] at shortY
      rw [tip_concat] at same
      exact ⟨start, List.mem_cons_self, _,
        List.mem_cons_of_mem _ (mem_hashed_concat hash link _ n ys y),
        fun clash => separated.fresh (digest ys) (by omega) clash.symm, same⟩
  | append_singleton xs x ih =>
    rw [List.length_append, List.length_singleton] at shortX
    have mem := List.mem_cons_of_mem start (mem_hashed_concat hash link (hash start) n xs x)
    rw [tip_concat] at same
    rcases List.eq_nil_or_concat ys with rfl | ⟨ys, y, rfl⟩
    · right
      exact ⟨_, mem, start, List.mem_cons_self, separated.fresh (digest xs) (by omega), same⟩
    · rw [List.concat_eq_append] at shortY same ⊢
      rw [List.length_append, List.length_singleton] at shortY
      have mem' := List.mem_cons_of_mem start (mem_hashed_concat hash link (hash start) n ys y)
      rw [tip_concat] at same
      by_cases alike : link (tip hash link (hash start) n xs) (n + xs.length) x =
          link (tip hash link (hash start) n ys) (n + ys.length) y
      · obtain ⟨before, -, rfl⟩ := separated.injective (digest xs) (digest ys) (by omega)
          (by omega) alike
        rcases ih (by omega) (by omega) before with rfl | ⟨a, ha, b, hb, collide⟩
        · exact Or.inl rfl
        · right
          have longer : ∀ (zs : List I) (z : I) {c : P},
              c ∈ start :: hashed hash link (hash start) n zs →
              c ∈ start :: hashed hash link (hash start) n (zs ++ [z]) := by
            intro zs z c member
            rw [hashed_append]
            exact List.mem_append_left _ member
          exact ⟨a, longer xs x ha, b, longer ys x hb, collide⟩
      · exact Or.inr ⟨_, mem, _, mem', alike, same⟩

end HashChain
