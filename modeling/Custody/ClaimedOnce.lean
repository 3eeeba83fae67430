import Mathlib.Data.Set.Insert
import Mathlib.Logic.Relation

/-!
# Acting once for each key

An action spends its key, and a key that is spent is never spent for a second
action. Keys may also be spent in vain. Whatever happened since the beginning,
no two actions have one key.
-/

namespace ClaimedOnce

structure Ledger (κ α : Type) where
  spent : Set κ
  acts : List α

variable {κ α : Type}

def Ledger.empty : Ledger κ α := { spent := ∅, acts := [] }

inductive Step (key : α → κ) (L : Ledger κ α) : Ledger κ α → Prop where
  /-- A key is spent and nothing follows. -/
  | spend (k : κ) : Step key L { L with spent := insert k L.spent }
  | act (a : α) (fresh : key a ∉ L.spent) :
      Step key L { spent := insert (key a) L.spent, acts := L.acts ++ [a] }

abbrev Steps (key : α → κ) : Ledger κ α → Ledger κ α → Prop :=
  Relation.ReflTransGen (Step key)

/-- Every action's key is spent, and no two actions share one. -/
structure Once (key : α → κ) (L : Ledger κ α) : Prop where
  spent : ∀ a ∈ L.acts, key a ∈ L.spent
  nodup : (L.acts.map key).Nodup

theorem once_empty (key : α → κ) : Once key (Ledger.empty : Ledger κ α) := by
  constructor
  · intro a member
    cases member
  · exact List.nodup_nil

theorem step_once {key : α → κ} {L L' : Ledger κ α} (once : Once key L) (step : Step key L L') :
    Once key L' := by
  cases step with
  | spend k => exact ⟨fun a member => Or.inr (once.spent a member), once.nodup⟩
  | act a fresh =>
    constructor
    · intro b member
      rcases List.mem_append.mp member with old | new
      · exact Or.inr (once.spent b old)
      · obtain rfl := List.mem_singleton.mp new
        exact Or.inl rfl
    · rw [List.map_append, List.map_singleton, List.nodup_append]
      refine ⟨once.nodup, List.pairwise_singleton _ _, ?_⟩
      intro k old k' new same
      obtain ⟨b, member, rfl⟩ := List.mem_map.mp old
      obtain rfl := List.mem_singleton.mp new
      exact fresh (same ▸ once.spent b member)

theorem steps_once {key : α → κ} {L L' : Ledger κ α} (once : Once key L)
    (steps : Steps key L L') : Once key L' := by
  induction steps with
  | refl => exact once
  | tail _ step ih => exact step_once ih step

end ClaimedOnce
