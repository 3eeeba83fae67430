import Mathlib.Data.List.Basic

/-!
# Interleavings

A list is rearranged, but two elements that are related keep their order. The new list
is then reached by swaps of neighbours that are not related. A run whose steps respect a
likeness of states, and commute up to it where they are not related, therefore ends alike
on both lists. Nothing here depends on what the elements or the states are.
-/

namespace Interleavings

universe u v w

variable {A : Type u} {related : A → A → Prop}

/-- The elements are numbered in their first order and rearranged. Two of them change places
only when they are not related. -/
def Interleaves (related : A → A → Prop) (xs ys : List A) : Prop :=
  ∃ numbered : List (A × Nat), numbered.Perm xs.zipIdx ∧ numbered.map Prod.fst = ys ∧
    numbered.Pairwise fun p q => q.2 < p.2 → ¬ related q.1 p.1

/-- One list is reached from another by swaps of neighbours that are not related. -/
inductive Swaps (related : A → A → Prop) : List A → List A → Prop where
  | nil : Swaps related [] []
  | cons (a : A) {xs ys : List A} : Swaps related xs ys → Swaps related (a :: xs) (a :: ys)
  | swap (a b : A) (xs : List A) : ¬ related a b →
      Swaps related (a :: b :: xs) (b :: a :: xs)
  | trans {xs ys zs : List A} : Swaps related xs ys → Swaps related ys zs → Swaps related xs zs

theorem Swaps.refl (xs : List A) : Swaps related xs xs := by
  induction xs with
  | nil => exact .nil
  | cons a xs ih => exact .cons a ih

/-- An element passes those it is not related to. -/
theorem Swaps.past {a : A} {before : List A} (after : List A)
    (others : ∀ x ∈ before, ¬ related a x) :
    Swaps related (a :: (before ++ after)) (before ++ a :: after) := by
  induction before with
  | nil => exact .refl _
  | cons x before ih =>
    have first : ¬ related a x := others x List.mem_cons_self
    have rest := ih fun y member => others y (List.mem_cons_of_mem x member)
    exact .trans (.swap a x _ first) (.cons x rest)

/-- On the numbers from `k` on: the first element is moved last, past those that come before
it now. -/
theorem swaps_of_numbered {xs : List A} {k : Nat} {numbered : List (A × Nat)}
    (permuted : numbered.Perm (xs.zipIdx k))
    (kept : numbered.Pairwise fun p q => q.2 < p.2 → ¬ related q.1 p.1) :
    Swaps related xs (numbered.map Prod.fst) := by
  induction xs generalizing k numbered with
  | nil =>
    obtain rfl := permuted.eq_nil
    exact .nil
  | cons a xs ih =>
    rw [List.zipIdx_cons] at permuted
    have listed : (a, k) ∈ numbered := permuted.mem_iff.mpr List.mem_cons_self
    obtain ⟨before, after, rfl⟩ := List.append_of_mem listed
    have others : (before ++ after).Perm (xs.zipIdx (k + 1)) :=
      (List.perm_middle.symm.trans permuted).cons_inv
    have apart : ∀ x ∈ before.map Prod.fst, ¬ related a x := by
      intro x inside
      obtain ⟨p, member, rfl⟩ := List.mem_map.mp inside
      have later : k + 1 ≤ p.2 :=
        List.le_snd_of_mem_zipIdx (others.mem_iff.mp (List.mem_append_left _ member))
      exact (List.pairwise_append.mp kept).2.2 p member (a, k) List.mem_cons_self later
    have rest := ih others (kept.sublist ((List.sublist_cons_self (a, k) after).append_left before))
    rw [List.map_append] at rest
    rw [List.map_append, List.map_cons]
    exact .trans (.cons a rest) (.past (after.map Prod.fst) apart)

theorem Interleaves.swaps {xs ys : List A} (both : Interleaves related xs ys) :
    Swaps related xs ys := by
  obtain ⟨numbered, permuted, rfl, kept⟩ := both
  exact swaps_of_numbered permuted kept

variable {S : Type v} {E : Type w} {step : S → A → Except E S} {Alike : S → S → Prop}

theorem foldlM_cons_ok {a : A} {xs : List A} {s t : S} :
    (a :: xs).foldlM step s = .ok t ↔ ∃ mid, step s a = .ok mid ∧ xs.foldlM step mid = .ok t := by
  rw [List.foldlM_cons]
  cases stepped : step s a with
  | error e => simp [bind, Except.bind]
  | ok mid => simp [bind, Except.bind]

/-- Steps respect the likeness of states, and commute up to it where the elements are not
related. -/
structure Commuting (related : A → A → Prop) (step : S → A → Except E S) (Alike : S → S → Prop) :
    Prop where
  refl : ∀ s, Alike s s
  trans : ∀ {s t u}, Alike s t → Alike t u → Alike s u
  respects : ∀ {s t a s'}, Alike s t → step s a = .ok s' →
    ∃ t', step t a = .ok t' ∧ Alike s' t'
  commutes : ∀ {s a b mid s'}, ¬ related a b → step s a = .ok mid → step mid b = .ok s' →
    ∃ mid' t', step s b = .ok mid' ∧ step mid' a = .ok t' ∧ Alike s' t'

/-- Runs over one list from states that are alike end alike. -/
theorem Commuting.alike (commuting : Commuting related step Alike) {xs : List A} {s t s' : S}
    (start : Alike s t) (ran : xs.foldlM step s = .ok s') :
    ∃ t', xs.foldlM step t = .ok t' ∧ Alike s' t' := by
  induction xs generalizing s t with
  | nil =>
    obtain rfl := Except.ok.inj ran
    exact ⟨t, rfl, start⟩
  | cons a xs ih =>
    obtain ⟨mid, first, rest⟩ := foldlM_cons_ok.mp ran
    obtain ⟨mid', first', between⟩ := commuting.respects start first
    obtain ⟨t', rest', finish⟩ := ih between rest
    exact ⟨t', foldlM_cons_ok.mpr ⟨mid', first', rest'⟩, finish⟩

theorem Commuting.swapped (commuting : Commuting related step Alike) {xs ys : List A}
    (swaps : Swaps related xs ys) {s t s' : S} (start : Alike s t)
    (ran : xs.foldlM step s = .ok s') : ∃ t', ys.foldlM step t = .ok t' ∧ Alike s' t' := by
  induction swaps generalizing s t s' with
  | nil => exact commuting.alike start ran
  | cons a _ ih =>
    obtain ⟨mid, first, rest⟩ := foldlM_cons_ok.mp ran
    obtain ⟨mid', first', between⟩ := commuting.respects start first
    obtain ⟨t', rest', finish⟩ := ih between rest
    exact ⟨t', foldlM_cons_ok.mpr ⟨mid', first', rest'⟩, finish⟩
  | swap a b xs apart =>
    obtain ⟨one, first, ran⟩ := foldlM_cons_ok.mp ran
    obtain ⟨two, second, rest⟩ := foldlM_cons_ok.mp ran
    -- the swap is made at the first state, the other state follows it
    obtain ⟨one', two', first', second', swapped⟩ := commuting.commutes apart first second
    obtain ⟨mid, followed, between⟩ := commuting.respects start first'
    obtain ⟨mid', followed', between'⟩ := commuting.respects between second'
    obtain ⟨t', rest', finish⟩ := commuting.alike (commuting.trans swapped between') rest
    refine ⟨t', ?_, finish⟩
    exact foldlM_cons_ok.mpr ⟨mid, followed, foldlM_cons_ok.mpr ⟨mid', followed', rest'⟩⟩
  | trans _ _ ih ih' =>
    obtain ⟨mid, ran', between⟩ := ih (commuting.refl s) ran
    obtain ⟨t', ran'', finish⟩ := ih' start ran'
    exact ⟨t', ran'', commuting.trans between finish⟩

end Interleavings
