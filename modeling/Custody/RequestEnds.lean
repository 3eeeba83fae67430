import Custody.StoredResponses

/-!
# A request comes to an end

The only loop of a request asks for a verdict until there is one, until it is
cancelled or until the deadline. Every turn takes time, so a clock that goes on
ends it.
-/

namespace RequestEnds

open PyValue Commitments Statements Effects Requests ResponseRelease StoredResponses UserGate

variable {K : Primitives} {A : Setup} {O : Outside}

theorem stable_tick (t : Nat) : Stable fun s => t ≤ s.tick :=
  fun _ _ before _ _ later => before.trans later

/-- The clock passes every deadline. -/
def Patient (O : Outside) : Prop :=
  ∀ deadline : Int, ∃ n, ∀ t, n ≤ t → deadline ≤ (O.moment t).monotonicNs

theorem ends_monotonic (s : Desk) : Ends (monotonic K O) s
    (fun t s' => t = (O.moment s.tick).monotonicNs ∧ s'.tick = s.tick + 1) fun _ => True :=
  ⟨rfl, rfl⟩

theorem ends_isCancelled_tick (s : Desk) :
    Ends (isCancelled K O) s (fun _ s' => s'.tick = s.tick + 1) fun _ => True := rfl

/-- A turn ends the loop when the clock is past the deadline, and moves the clock on otherwise. -/
theorem poll_turn {deadline : Int} {status : Value} {s : Desk}
    (rest : (O.moment (s.tick + 1)).monotonicNs < deadline → ∀ status' s', s.tick < s'.tick →
      Settles (fun fuel => poll K A O fuel deadline status') s') :
    Settles (fun fuel => poll K A O fuel deadline status) s := by
  apply Settles.of_succ
  apply Settles.after (ends_isCancelled_tick s)
  intro cancelled s₁ at₁
  cases cancelled with
  | true => exact settles_const _ _
  | false =>
    apply Settles.after (ends_monotonic s₁)
    rintro t s₂ ⟨read, at₂⟩
    rw [at₁] at read
    change Settles (fun fuel => if t ≥ deadline then _ else _) s₂
    split
    next => exact settles_const _ _
    next early =>
      have before : s.tick < s₂.tick := by omega
      apply Settles.after ((stable_tick (s.tick + 1)).through_attempt status s₂ before)
      rintro ⟨status', done⟩ s₃ at₃
      cases done with
      | true => exact settles_const _ _
      | false =>
        apply Settles.after ((stable_tick (s.tick + 1)).through_moment s₃ at₃)
        intro _ s₄ at₄
        exact rest (by omega) status' s₄ at₄

theorem poll_settles {deadline : Int} {n : Nat}
    (past : ∀ t, n ≤ t → deadline ≤ (O.moment t).monotonicNs) (left : Nat) (status : Value)
    {s : Desk} (enough : n ≤ s.tick + left) :
    Settles (fun fuel => poll K A O fuel deadline status) s := by
  induction left generalizing s status with
  | zero =>
    refine poll_turn fun early => ?_
    have late := past (s.tick + 1) (by omega)
    omega
  | succ left ih => exact poll_turn fun _ status' s' later => ih status' (by omega)

theorem await_settles (patient : Patient O) (q : Call) (s : Desk) :
    Settles (fun fuel => await K A O q fuel) s := by
  apply (settles_const (monotonic K O) s).bind
  intro t s₁
  apply (settles_const (get : Run Desk) s₁).bind
  intro s₂ s₃
  change Settles (fun fuel => if s₂.record.mode = .strict && !anyFailed s₂.record.checks
    then _ else _) s₃
  split
  · apply (settles_const (event K O q.token "T" "유효한 T 판정 대기") s₃).bind
    intro _ s₄
    obtain ⟨n, past⟩ := patient (t + A.strictTimeoutMs * 1000000)
    apply (poll_settles past n .null (Nat.le_add_left _ _)).bind
    exact fun _ _ => settles_const _ _
  · exact settles_const _ _

theorem settles_catching {B : Type} {body : Nat → Run B} {handler : PyErr → Run B} {s : Desk}
    (settles : Settles body s) : Settles (fun fuel => catching (body fuel) handler) s := by
  obtain ⟨enough, same⟩ := settles
  refine ⟨enough, fun fuel long => ?_⟩
  simp only [catching, same fuel long]

/-- With a clock that goes on, a request comes to an end: enough turns of its loop give what any
more would give. -/
theorem request_ends (patient : Patient O) (q : Call) (s : Desk) :
    ∃ enough, ∀ fuel, enough ≤ fuel → request K A O q fuel s = request K A O q enough s := by
  apply (settles_const (modify fun s => { s with written := [], emitted := [], sights := [] } :
    Run Unit) s).bind
  intro _ s₁
  apply (settles_const (admitRequest K O q) s₁).bind
  intro mode s₂
  apply (settles_const (prepare K A O q mode) s₂).bind
  intro _ s₃
  apply Settles.bind (settles_catching ?_)
  · exact fun _ _ => settles_const _ _
  · apply (settles_const (announce K O q) s₃).bind
    intro _ s₄
    apply (settles_const (exchange K A O q) s₄).bind
    intro x s₅
    apply (await_settles patient q s₅).bind
    exact fun _ _ => settles_const _ _

/-- A clock that shows the number of the moment. -/
def ticking : Outside := { moment := fun n => { monotonicNs := n } }

theorem ticking_patient : Patient ticking := by
  intro deadline
  refine ⟨deadline.toNat, fun t long => ?_⟩
  show deadline ≤ (t : Int)
  omega

theorem request_ends_ticking : ∃ enough, ∀ fuel, enough ≤ fuel →
    request toy sampleSetup ticking sampleCall fuel sampleDesk =
      request toy sampleSetup ticking sampleCall enough sampleDesk :=
  request_ends ticking_patient sampleCall sampleDesk

end RequestEnds
