import Mathlib.Init

/-!
# Steps that may raise

A computation reads and writes a state and returns or raises, and what it wrote
before it raised stays written. A condition on its end is a condition on the
result and the state when it returns, and on the state alone when it raises.
-/

namespace Effects

variable {E S A B : Type}

/-- A computation that leaves the state alone. -/
def lift (x : Except E A) : EStateM E S A := fun s =>
  match x with
  | .ok a => .ok a s
  | .error e => .error e s

/-- The state a computation ends in, whichever way. -/
def final : EStateM.Result E S A → S
  | .ok _ s => s
  | .error _ s => s

def Ends (x : EStateM E S A) (s : S) (returned : A → S → Prop) (raised : S → Prop) : Prop :=
  match x s with
  | .ok a s' => returned a s'
  | .error _ s' => raised s'

theorem Ends.returns {x : EStateM E S A} {s : S} {returned : A → S → Prop} {raised : S → Prop}
    (h : Ends x s returned raised) {a : A} {s' : S} (done : x s = .ok a s') : returned a s' := by
  rw [Ends, done] at h
  exact h

theorem Ends.raises {x : EStateM E S A} {s : S} {returned : A → S → Prop} {raised : S → Prop}
    (h : Ends x s returned raised) {e : E} {s' : S} (failed : x s = .error e s') : raised s' := by
  rw [Ends, failed] at h
  exact h

theorem Ends.mono {x : EStateM E S A} {s : S} {returned returned' : A → S → Prop}
    {raised raised' : S → Prop} (h : Ends x s returned raised)
    (more : ∀ a s', returned a s' → returned' a s') (worse : ∀ s', raised s' → raised' s') :
    Ends x s returned' raised' := by
  rw [Ends] at h ⊢
  split
  next a s' done =>
    rw [done] at h
    exact more a s' h
  next e s' failed =>
    rw [failed] at h
    exact worse s' h

/-- A condition on the end may speak of the end itself. -/
theorem Ends.made {x : EStateM E S A} {s : S} {returned : A → S → Prop} {raised : S → Prop}
    (h : Ends x s returned raised) :
    Ends x s (fun a s' => x s = .ok a s' ∧ returned a s') raised := by
  rw [Ends] at h ⊢
  cases done : x s with
  | ok a s' =>
    rw [done] at h
    exact ⟨rfl, h⟩
  | error e s' =>
    rw [done] at h
    exact h

/-- Two conditions on the end of one computation hold together. -/
theorem Ends.and {x : EStateM E S A} {s : S} {returned returned' : A → S → Prop}
    {raised raised' : S → Prop} (h : Ends x s returned raised) (h' : Ends x s returned' raised') :
    Ends x s (fun a s' => returned a s' ∧ returned' a s') fun s' => raised s' ∧ raised' s' := by
  rw [Ends] at h h' ⊢
  cases done : x s with
  | ok a s' =>
    rw [done] at h h'
    exact ⟨h, h'⟩
  | error e s' =>
    rw [done] at h h'
    exact ⟨h, h'⟩

/-- What follows depends only on the end of what comes first. -/
theorem bind_of_eq {x y : EStateM E S A} {f : A → EStateM E S B} {s s' : S} (same : x s = y s') :
    (x >>= f) s = (y >>= f) s' := by
  have shape : ∀ (z : EStateM E S A) (t : S), (z >>= f) t = match z t with
      | .ok a t' => f a t'
      | .error e t' => .error e t' := fun _ _ => rfl
  rw [shape, shape, same]

theorem bind_of_ok {x : EStateM E S A} {f : A → EStateM E S B} {a : A} {s s' : S}
    (done : x s = .ok a s') : (x >>= f) s = f a s' := by
  have shape : (x >>= f) s = match x s with
    | .ok a s' => f a s'
    | .error e s' => .error e s' := by
    rfl
  rw [shape, done]

theorem modify_bind (g : S → S) (f : Unit → EStateM E S B) (s : S) :
    (modify g >>= f) s = f () (g s) := rfl

theorem Ends.bind {x : EStateM E S A} {f : A → EStateM E S B} {s : S} {M : A → S → Prop}
    {returned : B → S → Prop} {raised : S → Prop} (first : Ends x s M raised)
    (rest : ∀ a s', M a s' → Ends (f a) s' returned raised) :
    Ends (x >>= f) s returned raised := by
  rw [Ends] at first ⊢
  have shape : (x >>= f) s = match x s with
    | .ok a s' => f a s'
    | .error e s' => .error e s' := by
    rfl
  rw [shape]
  cases done : x s with
  | ok a s' =>
    rw [done] at first
    exact rest a s' first
  | error e s' =>
    rw [done] at first
    exact first

theorem ends_pure {a : A} {s : S} {returned : A → S → Prop} {raised : S → Prop}
    (h : returned a s) : Ends (pure a : EStateM E S A) s returned raised := h

theorem ends_throw {e : E} {s : S} {returned : A → S → Prop} {raised : S → Prop}
    (h : raised s) : Ends (throw e : EStateM E S A) s returned raised := h

theorem ends_lift {x : Except E A} {s : S} {returned : A → S → Prop} {raised : S → Prop}
    (value : ∀ a, x = .ok a → returned a s) (failure : raised s) :
    Ends (lift x) s returned raised := by
  cases x with
  | ok a => exact value a rfl
  | error e => exact failure

/-- What holds before holds after, whichever way the computation ends. -/
def Keeps (I : S → Prop) (x : EStateM E S A) : Prop := ∀ s, I s → Ends x s (fun _ => I) I

variable {I : S → Prop}

theorem Ends.final {x : EStateM E S A} {s : S} {returned : A → S → Prop} {raised : S → Prop}
    (h : Ends x s returned raised) {P : S → Prop} (more : ∀ a s', returned a s' → P s')
    (worse : ∀ s', raised s' → P s') : P (final (x s)) := by
  rw [Ends] at h
  cases done : x s with
  | ok a s' =>
    rw [done] at h
    exact more a s' h
  | error e s' =>
    rw [done] at h
    exact worse s' h

theorem Keeps.final {x : EStateM E S A} (keeps : Keeps I x) {s : S} (holds : I s) :
    I (final (x s)) := (keeps s holds).final (fun _ _ held => held) fun _ held => held

theorem Keeps.bind {x : EStateM E S A} {f : A → EStateM E S B} (first : Keeps I x)
    (rest : ∀ a, Keeps I (f a)) : Keeps I (x >>= f) :=
  fun s holds => (first s holds).bind fun a s' held => rest a s' held

theorem keeps_pure (a : A) : Keeps I (pure a : EStateM E S A) := fun _ holds => ends_pure holds

theorem keeps_throw (e : E) : Keeps I (throw e : EStateM E S A) := fun _ holds => ends_throw holds

theorem keeps_get : Keeps I (get : EStateM E S S) := fun _ holds => holds

theorem keeps_modify {f : S → S} (same : ∀ s, I s → I (f s)) :
    Keeps I (modify f : EStateM E S Unit) := same

/-- With enough fuel, more of it changes nothing. -/
def Settles (x : Nat → EStateM E S A) (s : S) : Prop :=
  ∃ enough, ∀ fuel, enough ≤ fuel → x fuel s = x enough s

theorem settles_const (x : EStateM E S A) (s : S) : Settles (fun _ => x) s :=
  ⟨0, fun _ _ => rfl⟩

theorem Settles.bind {x : Nat → EStateM E S A} {f : Nat → A → EStateM E S B} {s : S}
    (first : Settles x s) (rest : ∀ a s', Settles (fun fuel => f fuel a) s') :
    Settles (fun fuel => x fuel >>= f fuel) s := by
  obtain ⟨enough, same⟩ := first
  have shape : ∀ fuel, (x fuel >>= f fuel) s = match x fuel s with
      | .ok a s' => f fuel a s'
      | .error e s' => .error e s' := fun _ => rfl
  cases done : x enough s with
  | ok a s' =>
    obtain ⟨more, same'⟩ := rest a s'
    have after : ∀ fuel, max enough more ≤ fuel → (x fuel >>= f fuel) s = f more a s' := by
      intro fuel long
      rw [shape, same fuel (Nat.le_trans (Nat.le_max_left _ _) long), done]
      exact same' fuel (Nat.le_trans (Nat.le_max_right _ _) long)
    exact ⟨max enough more, fun fuel long => (after fuel long).trans (after _ (Nat.le_refl _)).symm⟩
  | error e s' =>
    refine ⟨enough, fun fuel long => ?_⟩
    show (x fuel >>= f fuel) s = (x enough >>= f enough) s
    rw [shape, shape, same fuel long, done]

/-- What comes before the fuel is used may be known to end in certain states. -/
theorem Settles.after {x : EStateM E S A} {f : Nat → A → EStateM E S B} {s : S}
    {M : A → S → Prop} {raised : S → Prop} (first : Ends x s M raised)
    (rest : ∀ a s', M a s' → Settles (fun fuel => f fuel a) s') :
    Settles (fun fuel => x >>= f fuel) s := by
  have shape : ∀ fuel, (x >>= f fuel) s = match x s with
      | .ok a s' => f fuel a s'
      | .error e s' => .error e s' := fun _ => rfl
  rw [Ends] at first
  cases done : x s with
  | ok a s' =>
    rw [done] at first
    obtain ⟨enough, same⟩ := rest a s' first
    refine ⟨enough, fun fuel long => ?_⟩
    show (x >>= f fuel) s = (x >>= f enough) s
    rw [shape, shape, done]
    exact same fuel long
  | error e s' =>
    refine ⟨0, fun fuel _ => ?_⟩
    show (x >>= f fuel) s = (x >>= f 0) s
    rw [shape, shape, done]

theorem Settles.of_succ {x : Nat → EStateM E S A} {s : S}
    (later : Settles (fun fuel => x (fuel + 1)) s) : Settles x s := by
  obtain ⟨enough, same⟩ := later
  refine ⟨enough + 1, fun fuel long => ?_⟩
  cases fuel with
  | zero => cases long
  | succ fuel => exact same fuel (Nat.le_of_succ_le_succ long)

end Effects
