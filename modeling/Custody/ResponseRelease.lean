import Custody.GateAgreement
import Custody.Requests

/-!
# When a response is given away

A request can be left at any step, and the record is written in between. No record
that is written has a response unless the gate accepted it, and outside observe
mode an accepted response is one that the model operator signed for this request.
-/

namespace ResponseRelease

open PyValue HexBytes CanonicalJson Commitments Statements Schemas TransparencyLog
  Identity UserGate Effects GateSoundness GateAgreement
  Requests
open AppendOnly (verifyReceipt)

variable {K : Primitives} {A : Setup} {O : Outside}

/-- A step of the source that is a pure computation leaves the desk as it was. -/
theorem ends_ofPy {B : Type} {x : Py B} {s : Desk} {returned : B → Desk → Prop}
    {raised : Desk → Prop} (value : ∀ b, x = .ok b → returned b s) (failure : raised s) :
    Ends (ofPy x) s returned raised := by
  cases x with
  | ok b => exact value b rfl
  | error e => exact failure

theorem ends_get {s : Desk} {returned : Desk → Desk → Prop} {raised : Desk → Prop}
    (h : returned s s) : Ends (get : Run Desk) s returned raised := h

theorem ends_get_bind {C : Type} {f : Desk → Run C} {s : Desk} {returned : C → Desk → Prop}
    {raised : Desk → Prop} (h : Ends (f s) s returned raised) :
    Ends (get >>= f) s returned raised := h

theorem ends_modify_bind {C : Type} {g : Desk → Desk} {f : Unit → Run C} {s : Desk}
    {returned : C → Desk → Prop} {raised : Desk → Prop}
    (h : Ends (f ()) (g s) returned raised) : Ends (modify g >>= f) s returned raised := h

theorem ends_modify {f : Desk → Desk} {s : Desk} {returned : Unit → Desk → Prop}
    {raised : Desk → Prop} (h : returned () (f s)) :
    Ends (modify f : Run Unit) s returned raised := h

/-- The handler goes on from wherever the body raised. -/
theorem ends_catching {B : Type} {body : Run B} {handler : PyErr → Run B} {s : Desk}
    {returned : B → Desk → Prop} {M raised : Desk → Prop}
    (first : Ends body s returned M)
    (rest : ∀ e s', M s' → Ends (handler e) s' returned raised)
    (cut : ∀ s', M s' → raised s') : Ends (catching body handler) s returned raised := by
  rw [Ends] at first ⊢
  rw [catching]
  cases done : body s with
  | ok b s' =>
    rw [done] at first
    exact first
  | error stop s' =>
    rw [done] at first
    cases stop with
    | raised e => exact rest e s' first
    | ended => exact cut s' first

/-- Nothing of the record changes but its timeline. -/
structure Passes (s s' : Desk) : Prop where
  record : s'.record = { s.record with timeline := s'.record.timeline }
  written : s'.written = s.written
  sights : s'.sights = s.sights

theorem Passes.refl (s : Desk) : Passes s s := ⟨rfl, rfl, rfl⟩

theorem Passes.trans {s s' s'' : Desk} (first : Passes s s') (second : Passes s' s'') :
    Passes s s'' := by
  refine ⟨?_, second.written.trans first.written, second.sights.trans first.sights⟩
  rw [second.record, first.record]

def Steady {B : Type} (x : Run B) : Prop := ∀ s, Ends x s (fun _ => Passes s) (Passes s)

/-- Steady computations one behind the other are steady. -/
theorem Steady.bind {B C : Type} {x : Run B} {f : B → Run C} (first : Steady x)
    (rest : ∀ b, Steady (f b)) : Steady (x >>= f) := by
  intro s
  apply Ends.bind (first s)
  intro b s' passed
  exact (rest b s').mono (fun _ _ next => passed.trans next) fun _ next => passed.trans next

/-- A steady step before one with a condition of its own. -/
theorem Steady.before {B C : Type} {x : Run B} {f : B → Run C} {s : Desk}
    {returned : C → Desk → Prop} {raised : Desk → Prop} (first : Steady x)
    (cut : ∀ s', Passes s s' → raised s')
    (rest : ∀ b s', Passes s s' → Ends (f b) s' returned raised) :
    Ends (x >>= f) s returned raised :=
  Ends.bind ((first s).mono (fun _ _ passed => passed) cut) rest

theorem steady_pure {B : Type} (b : B) : Steady (pure b : Run B) := fun s => ends_pure (.refl s)

theorem steady_throw {B : Type} (stop : Stop) : Steady (throw stop : Run B) :=
  fun s => ends_throw (.refl s)

/-- A pure computation leaves the record alone. -/
theorem steady_ofPy {B : Type} (x : Py B) : Steady (ofPy x) :=
  fun s => ends_ofPy (fun _ _ => .refl s) (.refl s)

theorem steady_get : Steady (get : Run Desk) := fun s => ends_get (.refl s)

theorem steady_moment : Steady (moment K O) := fun _ => ⟨rfl, rfl, rfl⟩

/-- Nothing changes but the store. -/
structure Rests (s s' : Desk) : Prop where
  record : s'.record = s.record
  written : s'.written = s.written
  sights : s'.sights = s.sights

theorem Rests.passes {s s' : Desk} (rested : Rests s s') : Passes s s' := by
  refine ⟨?_, rested.written, rested.sights⟩
  rw [rested.record]

theorem ends_access (s : Desk) : Ends (access K O) s (fun _ => Rests s) (Rests s) := by
  apply Ends.bind (M := fun _ => Rests s)
  · exact ⟨rfl, rfl, rfl⟩
  · intro m s' rested
    cases m.failure with
    | some stop => exact ends_throw rested
    | none => exact ends_pure rested

/-- A write to the agent's store changes only the store, also where it fails. -/
theorem ends_writing (f : Backlog.Agent → Py Backlog.Agent) (s : Desk) :
    Ends (writing K O f) s (fun _ => Rests s) (Rests s) := by
  apply Ends.bind (ends_access s)
  intro m s₁ at₁
  apply ends_get_bind
  apply Ends.bind (ends_ofPy (fun agent _ => at₁) at₁)
  intro agent s₂ at₂
  apply ends_modify_bind
  have at₃ : Rests s { s₂ with agent } := ⟨at₂.record, at₂.written, at₂.sights⟩
  cases m.late with
  | some stop => exact ends_throw at₃
  | none => exact ends_pure at₃

theorem steady_access : Steady (access K O) := fun s =>
  (ends_access s).mono (fun _ _ rested => rested.passes) fun _ rested => rested.passes

theorem steady_nowMs : Steady (nowMs K O) := steady_moment.bind fun _ => steady_pure _

theorem steady_monotonic : Steady (monotonic K O) := steady_moment.bind fun _ => steady_pure _

theorem steady_peer : Steady (peer K O) := steady_access.bind fun _ => steady_ofPy _

/-- No write to the store touches the record or what has been written of it. -/
theorem steady_writing (f : Backlog.Agent → Py Backlog.Agent) : Steady (writing K O f) :=
  fun s => (ends_writing f s).mono (fun _ _ rested => rested.passes) fun _ rested => rested.passes

theorem steady_enqueue (item : Delivery.Item) : Steady (enqueue K O item) := steady_writing _

theorem steady_rememberPrivate : Steady (rememberPrivate K O) :=
  steady_get.bind fun _ => steady_writing _

theorem steady_enqueuePrivate : Steady (enqueuePrivate K O) :=
  steady_get.bind fun _ => steady_enqueue _

theorem steady_event (token actor kind : String) : Steady (event K O token actor kind) := by
  apply steady_monotonic.bind
  intro t
  apply steady_get.bind
  intro s
  apply Steady.bind (x := modifyRecord _)
  · exact fun s => ends_modify ⟨rfl, rfl, rfl⟩
  · intro _
    apply steady_access.bind
    intro _ s
    exact ends_modify ⟨rfl, rfl, rfl⟩

theorem steady_signed (ct sub : String) (payload : Dict) : Steady (signed K A O ct sub payload) :=
  steady_nowMs.bind fun _ => steady_ofPy _

theorem steady_demand (ok : Bool) (e : PyErr) : Steady (demand ok e) := by
  cases ok with
  | true => exact steady_pure ()
  | false => exact steady_throw _

/-- A requirement either holds or raises. -/
theorem ends_demand {ok : Bool} {e : PyErr} {s : Desk} {returned : Unit → Desk → Prop}
    {raised : Desk → Prop} (value : ok = true → returned () s) (failure : raised s) :
    Ends (demand ok e) s returned raised := by
  cases ok with
  | true => exact value rfl
  | false => exact failure

/-- What a verdict that the agent takes is known to be. -/
structure VerdictFor (K : Primitives) (A : Setup) (b : Bound) (stmt : SignedStatement) : Prop where
  authentic : Authentic K A.trust .T (.str ctVerdict) (some b.sub) stmt
  attempt : (getOr stmt.payload "attempt_id").eq b.attemptId = true
  contract : ∃ c hash, SignedStatement.fromDict b.contract = .ok c ∧
    c.statementHash K = .ok hash ∧ getOr stmt.payload "contract_hash" = .str hash
  policy : ∃ hash, policyHash K A = .ok hash ∧ getOr stmt.payload "policy_hash" = .str hash
  checker : getOr stmt.payload "checker_version" = .str checkerVersion
  registered : ∃ rc publicKey why,
    fromHexValue (.str (A.trust.identities .T).publicKey) = .ok publicKey ∧
    verifyReceipt K rc stmt publicKey = .ok (true, why) ∧ rc.logId = .str A.trust.logId

/-- A verdict bound to the request names its attempt, contract and policy. -/
theorem verdictBound_true {b : Bound} {v : Dict} (h : verdictBound K A b v = .ok true) :
    (getOr v "attempt_id").eq b.attemptId = true ∧
    (∃ c hash, SignedStatement.fromDict b.contract = .ok c ∧ c.statementHash K = .ok hash ∧
      getOr v "contract_hash" = .str hash) ∧
    (∃ hash, policyHash K A = .ok hash ∧ getOr v "policy_hash" = .str hash) ∧
    getOr v "checker_version" = .str checkerVersion := by
  obtain ⟨attempt, given, h⟩ := bind_ok.mp h
  obtain rfl := getItem_getOr given
  by_cases same : (getOr v "attempt_id").eq b.attemptId = true
  · simp only [same, Bool.not_true, Bool.false_eq_true, if_false] at h
    obtain ⟨c, read, h⟩ := bind_ok.mp h
    obtain ⟨hash, hashed, h⟩ := bind_ok.mp h
    by_cases bound : (getOr v "contract_hash").eq (.str hash) = true
    · simp only [bound, Bool.not_true, Bool.false_eq_true, if_false] at h
      obtain ⟨policy, stated, h⟩ := bind_ok.mp h
      obtain rfl := getItem_getOr stated
      obtain ⟨pinned, computed, h⟩ := bind_ok.mp h
      by_cases agreed : (getOr v "policy_hash").eq (.str pinned) = true
      · simp only [agreed, Bool.not_true, Bool.false_eq_true, if_false] at h
        obtain ⟨checker, named, h⟩ := bind_ok.mp h
        obtain rfl := getItem_getOr named
        exact ⟨same, ⟨c, hash, read, hashed, (eq_str_right _ _).mp bound⟩,
          ⟨pinned, computed, (eq_str_right _ _).mp agreed⟩,
          (eq_str_right _ _).mp (Except.ok.inj h)⟩
      · simp [agreed] at h
    · simp [bound] at h
  · simp [same] at h

theorem steady_validNow (v : Value) : Steady (validNow K O v) := by
  cases v with
  | int t =>
    apply steady_nowMs.bind
    intro now
    split
    · exact steady_nowMs.bind fun _ => steady_pure _
    · exact steady_pure false
  | _ => exact steady_pure false

/-- The receipt of a verdict is kept only once T's key and log have been checked. -/
theorem ends_keepVerdictReceipt (stmt : SignedStatement) (result : Value) (s : Desk) :
    Ends (keepVerdictReceipt K A O stmt result) s
      (fun _ s' => Passes s s' ∧ ∃ rc publicKey why,
        fromHexValue (.str (A.trust.identities .T).publicKey) = .ok publicKey ∧
        verifyReceipt K rc stmt publicKey = .ok (true, why) ∧ rc.logId = .str A.trust.logId)
      (Passes s) := by
  have here := Passes.refl s
  apply Ends.bind (ends_ofPy (fun given _ => here) here)
  intro given s₁ at₁
  apply Ends.bind (ends_ofPy (fun rc _ => at₁) at₁)
  intro rc s₂ at₂
  apply Ends.bind (M := fun publicKey s' => Passes s s' ∧
    fromHexValue (.str (A.trust.identities .T).publicKey) = .ok publicKey)
    (ends_ofPy (fun publicKey read => ⟨at₂, read⟩) at₂)
  rintro publicKey s₃ ⟨at₃, read⟩
  apply Ends.bind (M := fun checked s' => Passes s s' ∧
    verifyReceipt K rc stmt publicKey = .ok checked)
    (ends_ofPy (fun checked verified => ⟨at₃, verified⟩) at₃)
  rintro ⟨ok, why⟩ s₄ ⟨at₄, verified⟩
  apply Ends.bind (M := fun _ s' => Passes s s' ∧
    (ok && rc.logId.eq (.str A.trust.logId)) = true)
    (ends_demand (fun fine => ⟨at₄, fine⟩) at₄)
  rintro _ s₅ ⟨at₅, fine⟩
  rw [Bool.and_eq_true] at fine
  obtain ⟨rfl, log⟩ := fine
  apply (steady_ofPy _).before (fun _ passed => at₅.trans passed)
  intro hash s₆ at₆
  apply (steady_writing _ s₆).mono
  · intro _ s₇ at₇
    exact ⟨at₅.trans (at₆.trans at₇), rc, publicKey, why, read, verified,
      (eq_str_right _ _).mp log⟩
  · exact fun s₇ at₇ => at₅.trans (at₆.trans at₇)

/-- A verdict that `_verdict` returns is T's and is bound to the request. -/
theorem ends_verdict (b : Bound) (s : Desk) :
    Ends (verdict K A O b) s (fun stmt s' => Passes s s' ∧ VerdictFor K A b stmt) (Passes s) := by
  apply steady_peer.before (fun _ passed => passed)
  intro result s₁ at₁
  apply (steady_ofPy _).before (fun _ passed => at₁.trans passed)
  intro given s₂ at₂
  have at₂ := at₁.trans at₂
  apply Ends.bind (M := fun stmt s' => Passes s s' ∧
    authenticate K A.trust given .T (.str ctVerdict) (some b.sub) = .ok stmt)
    (ends_ofPy (fun stmt accepted => ⟨at₂, accepted⟩) at₂)
  rintro stmt s₃ ⟨at₃, accepted⟩
  apply Ends.bind (M := fun bound s' => Passes s s' ∧
    verdictBound K A b stmt.payload = .ok bound)
    (ends_ofPy (fun bound compared => ⟨at₃, compared⟩) at₃)
  rintro bound s₄ ⟨at₄, compared⟩
  apply Ends.bind (M := fun _ s' => Passes s s' ∧ bound = true)
    (ends_demand (fun fine => ⟨at₄, fine⟩) at₄)
  rintro _ s₅ ⟨at₅, rfl⟩
  apply (steady_validNow _).before (fun _ passed => at₅.trans passed)
  intro valid s₆ at₆
  apply (steady_demand _ _).before (fun _ passed => at₅.trans (at₆.trans passed))
  intro _ s₇ at₇
  have at₇ := at₅.trans (at₆.trans at₇)
  apply steady_nowMs.before (fun _ passed => at₇.trans passed)
  intro now s₈ at₈
  apply (steady_demand _ _).before (fun _ passed => at₇.trans (at₈.trans passed))
  intro _ s₉ at₉
  have at₉ := at₇.trans (at₈.trans at₉)
  apply Ends.bind ((ends_keepVerdictReceipt stmt result s₉).mono (fun _ _ kept => kept)
    fun _ passed => at₉.trans passed)
  rintro _ s' ⟨at', registered⟩
  obtain ⟨attempt, contract, policy, checker⟩ := verdictBound_true compared
  exact ends_pure ⟨at₉.trans at', authentic_of accepted, attempt, contract, policy, checker,
    registered⟩

/-- Of the record only the timeline and what is known of the verdict change. -/
structure Waits (s s' : Desk) : Prop where
  record : s'.record = { s.record with
    timeline := s'.record.timeline, tVerdict := s'.record.tVerdict, tError := s'.record.tError }
  written : s'.written = s.written

theorem Passes.waits {s s' : Desk} (passed : Passes s s') : Waits s s' := by
  refine ⟨?_, passed.written⟩
  rw [passed.record]

theorem Waits.refl (s : Desk) : Waits s s := ⟨rfl, rfl⟩

theorem Waits.trans {s s' s'' : Desk} (first : Waits s s') (second : Waits s' s'') :
    Waits s s'' := by
  refine ⟨?_, second.written.trans first.written⟩
  rw [second.record, first.record]

/-- The verdict of this status is in the record, and it is one on this request. -/
def Heard (K : Primitives) (A : Setup) (s : Desk) (status : Value) : Prop :=
  ∃ stmt, s.record.tVerdict = some stmt.toDict ∧ VerdictFor K A s.record.bound stmt ∧
    getOr stmt.payload "verification_status" = status

/-- What was heard of T stays heard while the record is left alone. -/
theorem Heard.passes {s s' : Desk} {status : Value} (heard : Heard K A s status)
    (passed : Passes s s') : Heard K A s' status := by
  obtain ⟨stmt, stored, fits, stated⟩ := heard
  refine ⟨stmt, ?_, ?_, stated⟩
  · rw [passed.record]
    exact stored
  · rw [passed.record]
    exact fits

/-- One attempt either leaves the matter open or reports a decisive status that T signed. -/
theorem ends_attempt (status : Value) (s : Desk) (open_ : decisive status = false) :
    Ends (attempt K A O status) s
      (fun out s' => Waits s s' ∧ s'.sights = s.sights ∧ out.2 = decisive out.1 ∧
        (decisive out.1 = true → Heard K A s' out.1))
      (fun s' => Waits s s' ∧ s'.sights = s.sights) := by
  apply ends_catching (M := fun s' => Waits s s' ∧ s'.sights = s.sights)
  · apply steady_access.before fun _ passed => ⟨passed.waits, passed.sights⟩
    intro _ s₁ at₁
    apply steady_monotonic.before fun _ passed =>
      ⟨(at₁.trans passed).waits, (at₁.trans passed).sights⟩
    intro _ s₂ at₂
    have at₂ := at₁.trans at₂
    apply ends_get_bind
    apply Ends.bind ((ends_verdict _ s₂).mono (fun _ _ known => known) fun _ passed =>
      ⟨(at₂.trans passed).waits, (at₂.trans passed).sights⟩)
    rintro stmt s₃ ⟨at₃, fits⟩
    have bound : s₃.record.bound = s₂.record.bound := by rw [at₃.record]; rfl
    have at₃ := at₂.trans at₃
    apply ends_modify_bind
    have at₄ : Waits s { s₃ with record := { s₃.record with tVerdict := some stmt.toDict } } :=
      at₃.waits.trans ⟨rfl, rfl⟩
    apply Ends.bind (M := fun status' s' => getOr stmt.payload "verification_status" = status' ∧
      s' = { s₃ with record := { s₃.record with tVerdict := some stmt.toDict } })
    · exact ends_ofPy (fun status' stated => ⟨getItem_getOr stated, rfl⟩)
        ⟨at₄, at₃.sights⟩
    · rintro status' s₄ ⟨stated, rfl⟩
      exact ends_pure ⟨at₄, at₃.sights, rfl, fun _ => ⟨stmt, rfl, bound ▸ fits, stated⟩⟩
  · rintro e s' ⟨waited, unseen⟩
    apply ends_modify_bind
    refine ends_pure ⟨waited.trans ⟨rfl, rfl⟩, unseen, open_.symm, fun decided => ?_⟩
    rw [open_] at decided
    cases decided
  · exact fun _ passed => passed

/-- A sight is added to the list exactly when something was seen. -/
theorem ends_noticing {sight : Sight} {seen : Bool} {s : Desk} {raised : Desk → Prop} :
    Ends (noticing sight seen) s
      (fun out s' => out = seen ∧ s'.record = s.record ∧ s'.written = s.written ∧
        s'.sights = s.sights ++ if seen then [sight] else []) raised := by
  apply ends_modify_bind
  exact ends_pure ⟨rfl, rfl, rfl, rfl⟩

/-- Something is looked for, and noted when it is there. -/
structure Looked (sight : Sight) (s : Desk) (seen : Bool) (s' : Desk) : Prop where
  record : s'.record = { s.record with timeline := s'.record.timeline }
  written : s'.written = s.written
  sights : s'.sights = s.sights ++ if seen then [sight] else []

theorem Looked.waits {sight : Sight} {s s' : Desk} {seen : Bool}
    (looked : Looked sight s seen s') : Waits s s' := by
  refine ⟨?_, looked.written⟩
  rw [looked.record]

theorem Looked.unseen {sight : Sight} {s s' : Desk} (looked : Looked sight s false s') :
    Passes s s' := ⟨looked.record, looked.written, looked.sights.trans (List.append_nil _)⟩

theorem ends_looking {sight : Sight} {seen : Bool} {s s₁ : Desk} (at₁ : Passes s s₁)
    {raised : Desk → Prop} : Ends (noticing sight seen) s₁ (Looked sight s) raised := by
  apply ends_noticing.mono
  · rintro out s' ⟨rfl, record, written, sights⟩
    refine ⟨?_, written.trans at₁.written, ?_⟩
    · rw [record, at₁.record]
    · rw [sights, at₁.sights]
  · exact fun _ h => h

/-- Looking for a cancellation notes it and changes nothing else. -/
theorem ends_isCancelled (s : Desk) :
    Ends (isCancelled K O) s (Looked .cancelled s) (Passes s) :=
  steady_moment.before (fun _ passed => passed) fun _ _ passed => ends_looking passed

/-- A decisive status ends the loop, with nothing noticed before. -/
theorem ends_poll (fuel : Nat) (deadline : Int) (status : Value) (s : Desk)
    (open_ : decisive status = false) :
    Ends (poll K A O fuel deadline status) s
      (fun out s' => Waits s s' ∧
        (decisive out = true → s'.sights = s.sights ∧ Heard K A s' out))
      (Waits s) := by
  induction fuel generalizing status s with
  | zero => exact ends_throw (.refl s)
  | succ fuel ih =>
    have stays : ∀ s', Waits s s' → Ends (pure status : Run Value) s'
        (fun out s' => Waits s s' ∧
          (decisive out = true → s'.sights = s.sights ∧ Heard K A s' out)) (Waits s) := by
      intro s' waited
      refine ends_pure ⟨waited, fun decided => ?_⟩
      rw [open_] at decided
      cases decided
    rw [poll]
    apply Ends.bind ((ends_isCancelled s).mono (fun _ _ looked => looked) fun _ at_ => at_.waits)
    intro seen s₁ looked
    cases seen with
    | true => exact stays s₁ looked.waits
    | false =>
      have at₁ := looked.unseen
      apply steady_monotonic.before fun _ passed => (at₁.trans passed).waits
      intro t s₂ at₂
      have at₂ := at₁.trans at₂
      split
      next => exact stays s₂ at₂.waits
      next =>
        apply Ends.bind ((ends_attempt status s₂ open_).mono (fun _ _ tried => tried)
          fun _ tried => at₂.waits.trans tried.1)
        rintro ⟨status', done⟩ s₃ ⟨waited, unseen, same, heard⟩
        obtain rfl : done = decisive status' := same
        have at₃ := at₂.waits.trans waited
        have unseen := unseen.trans at₂.sights
        cases decided : decisive status' with
        | true =>
          exact ends_pure ⟨at₃, fun _ => ⟨unseen, heard decided⟩⟩
        | false =>
          apply steady_moment.before fun _ passed => at₃.trans passed.waits
          intro _ s₄ at₄
          apply (ih status' s₄ decided).mono
          · rintro out s₅ ⟨waited, known⟩
            refine ⟨at₃.trans (at₄.waits.trans waited), fun decided => ?_⟩
            obtain ⟨same, heard⟩ := known decided
            exact ⟨same.trans (at₄.sights.trans unseen), heard⟩
          · exact fun _ waited => at₃.trans (at₄.waits.trans waited)

/-- Outside strict mode there is no wait; in it, a pass is one that was heard. -/
theorem ends_await (q : Call) (fuel : Nat) (s : Desk) :
    Ends (await K A O q fuel) s
      (fun status s' => Waits s s' ∧ (s.record.mode ≠ .strict → s'.sights = s.sights) ∧
        (status = .str "passed" → s'.sights = s.sights ∧ Heard K A s' status))
      (Waits s) := by
  apply steady_monotonic.before fun _ passed => passed.waits
  intro t s₁ at₁
  apply ends_get_bind
  have mode : s₁.record.mode = s.record.mode := by rw [at₁.record]
  change Ends (if (decide (s₁.record.mode = .strict) && !anyFailed s₁.record.checks) = true
    then _ else _) s₁ _ _
  split
  next waits =>
    rw [Bool.and_eq_true, decide_eq_true_iff, mode] at waits
    apply (steady_event _ _ _).before fun _ passed => (at₁.trans passed).waits
    intro _ s₂ at₂
    have at₂ := at₁.trans at₂
    apply Ends.bind ((ends_poll fuel _ .null s₂ rfl).mono (fun _ _ known => known)
      fun _ waited => at₂.waits.trans waited)
    rintro status s₃ ⟨waited, known⟩
    apply steady_monotonic.before fun _ passed => at₂.waits.trans (waited.trans passed.waits)
    intro t' s₄ at₄
    have at' : Waits s s₄ := at₂.waits.trans (waited.trans at₄.waits)
    split
    next => exact ends_pure ⟨at', fun other => absurd waits.1 other, fun bad => by cases bad⟩
    next =>
      refine ends_pure ⟨at', fun other => absurd waits.1 other, ?_⟩
      rintro rfl
      obtain ⟨unseen, heard⟩ := known rfl
      exact ⟨at₄.sights.trans (unseen.trans at₂.sights), heard.passes at₄⟩
  next => exact ends_pure ⟨at₁.waits, fun _ => at₁.sights, fun bad => by cases bad⟩

theorem mem_put_self (checks : Checks) (name : String) (c : Check) :
    (name, c) ∈ put checks name c := by
  induction checks with
  | nil => exact List.mem_cons_self
  | cons x rest ih =>
    rw [put]
    split
    next same => rw [same]; exact List.mem_cons_self
    next => exact List.mem_cons_of_mem _ ih

theorem mem_put_other {checks : Checks} {name : String} {c : Check} {x : String × Check}
    (member : x ∈ checks) (other : x.1 ≠ name) : x ∈ put checks name c := by
  induction checks with
  | nil => cases member
  | cons y rest ih =>
    rw [put]
    rcases List.mem_cons.mp member with rfl | member
    · rw [if_neg other]
      exact List.mem_cons_self
    · split
      · exact List.mem_cons_of_mem _ member
      · exact List.mem_cons_of_mem _ (ih member)

/-- A check that the later ones do not name survives them. -/
theorem mem_update_old {checks others : Checks} {x : String × Check} (member : x ∈ checks)
    (other : x.1 ∉ others.map Prod.fst) : x ∈ update checks others := by
  induction others generalizing checks with
  | nil => exact member
  | cons y rest ih =>
    rw [List.map_cons, List.mem_cons, not_or] at other
    exact ih (mem_put_other member other.1) other.2

/-- Checks of different names are all there after an update. -/
theorem mem_update_new {checks others : Checks} (different : (others.map Prod.fst).Nodup)
    {x : String × Check} (member : x ∈ others) : x ∈ update checks others := by
  induction others generalizing checks with
  | nil => cases member
  | cons y rest ih =>
    rw [List.map_cons, List.nodup_cons] at different
    rcases List.mem_cons.mp member with rfl | member
    · change x ∈ update (put checks x.1 x.2) rest
      exact mem_update_old (mem_put_self checks x.1 x.2) different.1
    · exact ih different.2 member

theorem routeCheck_name {contract : Dict} {model : Value} {relay : Option SignedStatement}
    {x : String × Check} (made : routeCheck K contract model relay = .ok x) :
    x.1 = "route_allowed" := by
  rw [routeCheck] at made
  split at made
  · cases made
    rfl
  · obtain ⟨requested, -, made⟩ := bind_ok.mp made
    split at made
    · cases made
      rfl
    · obtain ⟨forbidden, -, made⟩ := bind_ok.mp made
      cases forbidden with
      | true => cases made; rfl
      | false => cases made; rfl

theorem modelHashReference_name {gate : Gate} {m : Dict} {x : String × Check}
    (made : modelHashReference gate m = .ok x) : x.1 = "model_hash_reference" := by
  simp only [modelHashReference, bind_ok] at made
  obtain ⟨ref, -, made⟩ := made
  split at made
  · cases made; rfl
  · cases made; rfl

theorem toolPolicy_name {gate : Gate} {body : Value} {x : String × Check}
    (made : toolPolicy K gate body = .ok x) : x.1 = "tool_policy" := by
  obtain ⟨call, -, made⟩ := bind_ok.mp made
  split at made
  · cases made; rfl
  · split at made
    · cases made; rfl
    · cases made; rfl

theorem verifiedChecks_names {gate : Gate} {contract expected : Dict} {commit : Value}
    {receipt : SignedStatement} {relay : Option SignedStatement} {ok : Bool} {rest : Checks}
    (made : verifiedChecks K gate contract expected commit receipt relay ok = .ok rest) :
    rest.map Prod.fst = signedNames := by
  cases ok with
  | false =>
    cases made
    rfl
  | true =>
    obtain ⟨nonce, -, made⟩ := bind_ok.mp made
    obtain ⟨request, hr, made⟩ := bind_ok.mp made
    obtain ⟨attempt, -, made⟩ := bind_ok.mp made
    obtain ⟨model, hm, made⟩ := bind_ok.mp made
    obtain ⟨route, ht, made⟩ := bind_ok.mp made
    cases made
    simp only [List.map_cons, List.map_nil, (requestBinding_ok hr).1, modelHashReference_name hm,
      routeCheck_name ht]
    rfl

/-- The local checks have the same names in the same order, whatever was shown. -/
theorem localChecks_names {gate : Gate} {contract expected : Dict} {commit body : Value}
    {receipt relay : Option SignedStatement} {now : Int} {checks : Checks}
    (made : localChecks K gate contract commit body receipt relay now expected = .ok checks) :
    checks.map Prod.fst = checkNames := by
  obtain ⟨limit, -, made⟩ := bind_ok.mp made
  obtain ⟨fresh, -, made⟩ := bind_ok.mp made
  obtain ⟨ofReceipt, ho, made⟩ := bind_ok.mp made
  obtain ⟨route, ht, made⟩ := bind_ok.mp made
  obtain ⟨tool, hp, made⟩ := bind_ok.mp made
  cases made
  rw [List.map_cons, List.map_append, List.map_append, List.map_singleton, toolPolicy_name hp]
  cases receipt with
  | none =>
    cases ho
    cases relay with
    | none =>
      cases ht
      rfl
    | some r =>
      obtain ⟨x, hx, ht⟩ := bind_ok.mp ht
      cases ht
      rw [List.map_singleton, routeCheck_name hx]
      rfl
  | some receipt =>
    cases ht
    obtain ⟨ok, -, ho⟩ := bind_ok.mp ho
    obtain ⟨rest, hv, ho⟩ := bind_ok.mp ho
    cases ho
    rw [List.map_cons, List.map_cons, verifiedChecks_names hv]
    rfl

/-- A required check that did not fail and is not open has passed. -/
theorem required_passed {checks : Checks} (clean : Clean checks)
    (complete : ∀ name ∈ requiredLocalChecks, name ∈ checks.map Prod.fst) :
    ∀ name ∈ requiredLocalChecks, ∃ c, (name, c) ∈ checks ∧ c.result = .pass := by
  intro name required
  obtain ⟨⟨name', c⟩, member, rfl⟩ := List.mem_map.mp (complete name required)
  refine ⟨c, member, ?_⟩
  cases result : c.result with
  | pass => rfl
  | fail => exact absurd result (clean.unfailed _ member)
  | na => exact absurd result (clean.closed _ member required)

/-- A statement that passes its authority check is signed by the key of its role. -/
theorem authority_ok {wire : Value} {sub attemptId : String} {role : Role} {name ct : String}
    {out : Option SignedStatement × (String × Check)}
    (made : authority K A wire sub attemptId role name ct = .ok out) :
    out.2.1 = roleName role ++ "_authority" ∧ ∀ stmt, out.1 = some stmt →
      Authentic K A.trust role (.str ct) (some (.str sub)) stmt ∧
      getOr stmt.payload "attempt_id" = .str attemptId := by
  obtain ⟨given, -, made⟩ := bind_ok.mp made
  split at made
  · cases made
    exact ⟨rfl, fun stmt bad => by cases bad⟩
  · split at made
    next stmt accepted =>
      cases made
      refine ⟨rfl, ?_⟩
      rintro _ ⟨⟩
      obtain ⟨stmt', authentic, bound⟩ := bind_ok.mp accepted
      obtain ⟨attempt, stated, bound⟩ := bind_ok.mp bound
      split at bound
      next same =>
        cases bound
        rw [getItem_getOr stated]
        exact ⟨authentic_of authentic, (eq_str_right _ _).mp same⟩
      next => cases bound
    next e refused =>
      split at made
      all_goals cases made
      all_goals exact ⟨rfl, fun stmt bad => by cases bad⟩

/-- The model operator's receipt for what was sent and what came back. -/
structure Receipted (K : Primitives) (A : Setup) (r : Record) (commit : String) (x : Examined)
    (response : Value) (receivedAt : Int) (m : SignedStatement) : Prop where
  authentic : Authentic K A.trust .M (.str ctReceipt) (some (.str r.sub)) m
  attempt : getOr m.payload "attempt_id" = .str r.attemptId
  sound : Sound K x.gate r.contract.payload [] (.str commit) response x.r receivedAt m

/-- Nothing failed or open among the checks: there is such a receipt, and the required checks
passed. -/
theorem examine_clean {r : Record} {wire response : Value} {commit : String} {receivedAt : Int}
    {x : Examined} (made : examine K A r wire response commit receivedAt = .ok x)
    (clean : Clean x.checks) :
    (∃ m, x.m = some m ∧ Receipted K A r commit x response receivedAt m) ∧
    ∀ name ∈ requiredLocalChecks, ∃ c, (name, c) ∈ x.checks ∧ c.result = .pass := by
  simp only [examine, bind_ok, pure_ok, Except.ok.injEq] at made
  obtain ⟨ofM, hm, ofR, hr, gate, hg, own, local_, rfl⟩ := made
  have names := localChecks_names local_
  by_cases missing : (ofR.1.isNone && A.requireRelay) = true
  · simp only [missing, if_true] at clean
    exact absurd rfl (clean.unfailed _ (mem_put_self _ _ _))
  · simp only [missing, Bool.false_eq_true, if_false] at clean ⊢
    have kept : ∀ c ∈ own, c ∈ update [ofM.2, ofR.2] own := fun c member =>
      mem_update_new (by rw [names]; decide) member
    have own_ : Clean own :=
      ⟨fun c member => clean.unfailed c (kept c member),
       fun c member => clean.closed c (kept c member)⟩
    obtain ⟨m, shown, sound⟩ := sound_of_clean local_ own_
    obtain ⟨authentic, attempt⟩ := (authority_ok hm).2 m shown
    refine ⟨⟨m, shown, authentic, attempt, sound⟩, fun name required => ?_⟩
    obtain ⟨c, member, passed⟩ := required_passed own_ (by rw [names]; decide) name required
    exact ⟨c, kept _ member, passed⟩

/-- What a request is known by stays as it is. -/
structure SameRequest (r r' : Record) : Prop where
  sub : r'.sub = r.sub
  attempt : r'.attemptId = r.attemptId
  mode : r'.mode = r.mode
  contract : r'.contract = r.contract

theorem SameRequest.refl (r : Record) : SameRequest r r := ⟨rfl, rfl, rfl, rfl⟩

theorem SameRequest.trans {r r' r'' : Record} (first : SameRequest r r')
    (second : SameRequest r' r'') : SameRequest r r'' :=
  ⟨second.sub.trans first.sub, second.attempt.trans first.attempt, second.mode.trans first.mode,
    second.contract.trans first.contract⟩

/-- The record is of this request: its contract commits to the prompt and names the model. -/
structure Prepared (K : Primitives) (A : Setup) (q : Call) (r : Record) : Prop where
  sub : r.sub = q.sub
  attempt : r.attemptId = q.attemptId
  mode : modeOf q.mode = some r.mode
  contract : ∃ reqCommit start, Execution.digest K (requestBody q) (.str q.salt) = .ok reqCommit ∧
    r.contract.payload = contractPayload (contractTerms A q r.mode reqCommit start)

/-- What a request has prepared depends only on its own fields of the record. -/
theorem Prepared.same {q : Call} {r r' : Record} (prepared : Prepared K A q r)
    (request : SameRequest r r') : Prepared K A q r' := by
  refine ⟨request.sub.trans prepared.sub, request.attempt.trans prepared.attempt, ?_, ?_⟩
  · rw [request.mode]
    exact prepared.mode
  · rw [request.contract, request.mode]
    exact prepared.contract

/-- The record is of this request, and no record of it that was written has a response. -/
structure Unwritten (K : Primitives) (A : Setup) (q : Call) (s : Desk) : Prop where
  record : Prepared K A q s.record
  written : ∀ r ∈ s.written, Prepared K A q r ∧ r.response = none

/-- Nor has the record as it stands. -/
structure Silent (K : Primitives) (A : Setup) (q : Call) (s : Desk) : Prop
    extends Unwritten K A q s where
  response : s.record.response = none

/-- Waiting writes no record, so a silent desk stays silent. -/
theorem Waits.silent {q : Call} {s s' : Desk} (waited : Waits s s') (silent : Silent K A q s) :
    Silent K A q s' := by
  refine ⟨⟨?_, ?_⟩, ?_⟩
  · rw [waited.record]
    exact silent.record.same ⟨rfl, rfl, rfl, rfl⟩
  · rw [waited.written]
    exact silent.written
  · rw [waited.record]
    exact silent.response

/-- The request goes on: its checks stand, and what is written has the response so far. -/
structure Goes (s s' : Desk) : Prop where
  request : SameRequest s.record s'.record
  checks : s'.record.checks = s.record.checks
  response : s'.record.response = s.record.response
  written : ∀ r ∈ s'.written, r ∈ s.written ∨
    SameRequest s.record r ∧ r.response = s.record.response
  sights : s'.sights = s.sights

theorem Goes.refl (s : Desk) : Goes s s := ⟨.refl _, rfl, rfl, fun _ member => .inl member, rfl⟩

/-- Rows are only changed by the request's own writes, one after the other. -/
theorem Goes.trans {s s' s'' : Desk} (first : Goes s s') (second : Goes s' s'') : Goes s s'' := by
  refine ⟨first.request.trans second.request, second.checks.trans first.checks,
    second.response.trans first.response, fun r member => ?_, second.sights.trans first.sights⟩
  rcases second.written r member with member | ⟨same, response⟩
  · exact first.written r member
  · exact .inr ⟨first.request.trans same, response.trans first.response⟩

theorem Passes.goes {s s' : Desk} (passed : Passes s s') : Goes s s' := by
  refine ⟨?_, ?_, ?_, fun r member => .inl (passed.written ▸ member), passed.sights⟩
  · rw [passed.record]
    exact ⟨rfl, rfl, rfl, rfl⟩
  · rw [passed.record]
  · rw [passed.record]

theorem Goes.silent {q : Call} {s s' : Desk} (went : Goes s s') (silent : Silent K A q s) :
    Silent K A q s' := by
  refine ⟨⟨silent.record.same went.request, fun r member => ?_⟩,
    went.response.trans silent.response⟩
  rcases went.written r member with member | ⟨same, response⟩
  · exact silent.written r member
  · exact ⟨silent.record.same same, response.trans silent.response⟩

/-- The record as it stands is written once more. -/
structure Puts (s s' : Desk) : Prop where
  record : s'.record = s.record
  written : s'.written = s.written ++ [s.record]
  sights : s'.sights = s.sights

theorem Puts.goes {s s' : Desk} (put : Puts s s') : Goes s s' := by
  refine ⟨?_, ?_, ?_, fun r member => ?_, put.sights⟩
  · rw [put.record]
    exact .refl _
  · rw [put.record]
  · rw [put.record]
  · rw [put.written] at member
    rcases List.mem_append.mp member with member | last
    · exact .inl member
    · obtain rfl := List.mem_singleton.mp last
      exact .inr ⟨.refl _, rfl⟩

theorem ends_putRecord (s : Desk) : Ends (putRecord K O) s (fun _ => Puts s) (Puts s) := by
  apply ends_get_bind
  apply ends_modify_bind
  have put : ∀ s', Rests { s with written := s.written ++ [s.record] } s' → Puts s s' :=
    fun s' rested => ⟨rested.record, rested.written, rested.sights⟩
  exact (ends_writing _ _).mono (fun _ s' rested => put s' rested) put

/-- A step on the way of a request that is silent. -/
theorem Steady.going {B : Type} {x : Run B} (steady : Steady x) {q : Call} {s s₁ : Desk}
    (silent : Silent K A q s) (went : Goes s s₁) :
    Ends x s₁ (fun _ => Goes s) (Unwritten K A q) :=
  (steady s₁).mono (fun _ _ passed => went.trans passed.goes)
    fun _ passed => ((went.trans passed.goes).silent silent).toUnwritten

/-- While nothing has been released, writing the record again releases nothing. -/
theorem putRecord_going {q : Call} {s s₁ : Desk} (silent : Silent K A q s) (went : Goes s s₁) :
    Ends (putRecord K O) s₁ (fun _ => Goes s) (Unwritten K A q) :=
  (ends_putRecord s₁).mono (fun _ _ put => went.trans put.goes)
    fun _ put => ((went.trans put.goes).silent silent).toUnwritten

/-- Announcing the request writes rows without a response. -/
theorem ends_announce (q : Call) {s : Desk} (silent : Silent K A q s) :
    Ends (announce K O q) s (fun _ => Goes s) (Unwritten K A q) := by
  apply Ends.bind (putRecord_going silent (.refl s))
  intro _ s₁ at₁
  apply Ends.bind ((steady_event _ _ _).going silent at₁)
  intro _ s₂ at₂
  apply ends_get_bind
  apply Ends.bind ((steady_enqueue _).going silent at₂)
  intro _ s₃ at₃
  apply Ends.bind (steady_rememberPrivate.going silent at₃)
  intro _ s₄ at₄
  apply Ends.bind (steady_enqueuePrivate.going silent at₄)
  intro _ s₅ at₅
  have silent₅ := at₅.silent silent
  apply Ends.bind ((ends_isCancelled s₅).mono (fun _ _ looked => looked)
    fun _ passed => (passed.goes.silent silent₅).toUnwritten)
  intro seen s₆ looked
  apply Ends.bind (M := fun _ => Goes s)
  · apply ends_demand
    · intro none_
      obtain rfl : seen = false := by simpa using none_
      exact at₅.trans looked.unseen.goes
    · exact (looked.waits.silent silent₅).toUnwritten
  · intro _ s₇ at₇
    exact (steady_event _ _ _).going silent at₇

/-- The examination reads only what the request has prepared. -/
theorem examine_same {r r' : Record} (same : SameRequest r r') (wire response : Value)
    (commit : String) (receivedAt : Int) :
    examine K A r' wire response commit receivedAt =
      examine K A r wire response commit receivedAt := by
  rw [examine, examine, same.sub, same.attempt, same.mode, same.contract]

/-- The response that is held back is the one in the answer, and its checks are in the record. -/
structure Judged (K : Primitives) (A : Setup) (q : Call) (wire : Value) (r : Record)
    (x : Received) : Prop where
  body : wire.item "body" = .ok x.response
  text : responseText x.response = some x.text
  examined : ∃ commit e, Execution.digest K x.response (.str q.salt) = .ok commit ∧
    examine K A r wire x.response commit x.receivedAt = .ok e ∧ r.checks = e.checks ∧
    x.gate = e.gate

/-- A judged record stays judged while its request and its checks are kept. -/
theorem Judged.same {q : Call} {wire : Value} {r r' : Record} {x : Received}
    (judged : Judged K A q wire r x) (same : SameRequest r r') (checks : r'.checks = r.checks) :
    Judged K A q wire r' x := by
  obtain ⟨commit, e, digested, examined, stored, gate⟩ := judged.examined
  exact ⟨judged.body, judged.text, commit, e, digested, (examine_same same ..).trans examined,
    checks.trans stored, gate⟩

/-- What the call of the relay leaves. -/
structure Exchanged (K : Primitives) (A : Setup) (O : Outside) (q : Call) (s : Desk)
    (x : Received) (s' : Desk) : Prop where
  request : SameRequest s.record s'.record
  silent : Silent K A q s'
  sights : s'.sights = s.sights
  judged : ∃ wire, (O.moment s.tick).reply = .ok wire ∧ Judged K A q wire s'.record x

/-- The relay's answer is the reply of the moment at which it was asked for. -/
theorem ends_peer (s : Desk) : Ends (peer K O) s
    (fun wire s' => Passes s s' ∧ (O.moment s.tick).reply = .ok wire) (Passes s) := by
  apply Ends.bind (M := fun m s' => m = O.moment s.tick ∧ Passes s s')
  · apply Ends.bind (M := fun m s' => m = O.moment s.tick ∧ Passes s s')
    · exact ⟨rfl, rfl, rfl, rfl⟩
    · rintro m s' ⟨rfl, passed⟩
      cases (O.moment s.tick).failure with
      | some stop => exact ends_throw passed
      | none => exact ends_pure ⟨rfl, passed⟩
  · rintro m s' ⟨rfl, passed⟩
    exact ends_ofPy (fun wire replied => ⟨passed, replied⟩) passed

/-- The exchange with the relay ends with its answer judged, or with nothing released. -/
theorem ends_exchange (q : Call) {s : Desk} (silent : Silent K A q s) :
    Ends (exchange K A O q) s (Exchanged K A O q s) (Unwritten K A q) := by
  apply Ends.bind ((ends_peer s).mono (fun _ _ answered => answered)
    fun _ passed => (passed.goes.silent silent).toUnwritten)
  rintro wire s₁ ⟨passed, replied⟩
  have at₁ : Goes s s₁ := passed.goes
  apply Ends.bind (steady_nowMs.going silent at₁)
  intro receivedAt s₂ at₂
  apply Ends.bind ((steady_event _ _ _).going silent at₂)
  intro _ s₃ at₃
  apply Ends.bind (M := fun response s' => Goes s s' ∧ wire.item "body" = .ok response)
    (ends_ofPy (fun _ body => ⟨at₃, body⟩) (at₃.silent silent).toUnwritten)
  rintro response s₄ ⟨at₄, body⟩
  cases readable : responseText response with
  | none => exact ends_throw (at₄.silent silent).toUnwritten
  | some text =>
    apply ends_modify_bind
    have at₅ : Goes s { s₄ with record := { s₄.record with quarantined := some response } } :=
      at₄.trans ⟨⟨rfl, rfl, rfl, rfl⟩, rfl, rfl, fun _ member => .inl member, rfl⟩
    apply Ends.bind (M := fun commit s' => Goes s s' ∧
      Execution.digest K response (.str q.salt) = .ok commit)
      (ends_ofPy (fun _ digested => ⟨at₅, digested⟩) (at₅.silent silent).toUnwritten)
    rintro commit s₅ ⟨at₅, digested⟩
    apply ends_get_bind
    apply Ends.bind (M := fun e s' => s' = s₅ ∧
      examine K A s₅.record wire response commit receivedAt = .ok e)
      (ends_ofPy (fun _ examined => ⟨rfl, examined⟩) (at₅.silent silent).toUnwritten)
    rintro e s₅ ⟨rfl, examined⟩
    apply ends_modify_bind
    have silent₅ := at₅.silent silent
    have silent₆ : Silent K A q { s₅ with record := { s₅.record with checks := e.checks } } :=
      ⟨⟨silent₅.record.same ⟨rfl, rfl, rfl, rfl⟩, silent₅.written⟩, silent₅.response⟩
    have judged : Judged K A q wire { s₅.record with checks := e.checks }
        { response, text, receivedAt, gate := e.gate } :=
      ⟨body, readable, commit, e, digested,
        (examine_same ⟨rfl, rfl, rfl, rfl⟩ ..).trans examined, rfl, rfl⟩
    generalize checked : ({ s₅ with record := { s₅.record with checks := e.checks } } : Desk) = s₆
      at silent₆
    have to₀ : SameRequest s₅.record s₆.record := by
      rw [← checked]
      exact ⟨rfl, rfl, rfl, rfl⟩
    apply Ends.bind ((steady_ofPy _).going silent₆ (.refl s₆))
    intro receiptHash s₇ at₇
    apply Ends.bind ((steady_ofPy _).going silent₆ at₇)
    intro relayHash s₈ at₈
    apply Ends.bind ((steady_signed _ _ _).going silent₆ at₈)
    intro observation s₉ at₉
    apply Ends.bind ((steady_ofPy _).going silent₆ at₉)
    intro responseHash t₁ to₁
    apply ends_modify_bind
    have to₂ : Goes s₆ { t₁ with record := { t₁.record with
        private_ := { t₁.record.private_ with responseHash := some responseHash } } } :=
      to₁.trans ⟨⟨rfl, rfl, rfl, rfl⟩, rfl, rfl, fun _ member => .inl member, rfl⟩
    apply Ends.bind (steady_rememberPrivate.going silent₆ to₂)
    intro _ t₃ to₃
    apply ends_modify_bind
    have to₄ : Goes s₆ { t₃ with record := { t₃.record with observation := some observation } } :=
      to₃.trans ⟨⟨rfl, rfl, rfl, rfl⟩, rfl, rfl, fun _ member => .inl member, rfl⟩
    apply Ends.bind (putRecord_going silent₆ to₄)
    intro _ t₅ to₅
    apply Ends.bind ((steady_enqueue _).going silent₆ to₅)
    intro _ t₆ to₆
    apply Ends.bind (steady_enqueuePrivate.going silent₆ to₆)
    intro _ t₇ to₇
    apply Ends.bind ((steady_event _ _ _).going silent₆ to₇)
    intro _ t₈ to₈
    have sights := to₈.sights
    subst checked
    exact ends_pure ⟨at₅.request.trans (to₀.trans to₈.request), to₈.silent silent₆,
      sights.trans at₅.sights, wire, replied, judged.same to₈.request to₈.checks⟩

/-- A response that was given away: the text of the answer, by which decision, and with nothing
noticed before that forbids it. Outside observe mode every check stands and the required ones
passed, and the model operator's receipt in the answer is for what was sent and what came back;
strict mode has a passed verdict. -/
structure Released (K : Primitives) (A : Setup) (q : Call) (wire : Value) (r : Record)
    (sights : List Sight) : Prop where
  answered : ∃ response text, wire.item "body" = .ok response ∧
    responseText response = some text ∧ r.response = some text
  decided : r.state = .decided .accept ∨ r.state = .decided .acceptUnverified
  active : .cancelled ∉ sights ∧ .retired ∉ sights
  enforced : r.mode ≠ .observe → r.state = .decided .accept ∧ .expired ∉ sights ∧
    Clean r.checks ∧ ∀ name ∈ requiredLocalChecks, ∃ c, (name, c) ∈ r.checks ∧ c.result = .pass
  receipted : r.mode ≠ .observe → ∃ response text commit x receivedAt m,
    wire.item "body" = .ok response ∧ r.response = some text ∧
    responseText response = some text ∧
    Execution.digest K response (.str q.salt) = .ok commit ∧
    examine K A r wire response commit receivedAt = .ok x ∧ x.m = some m ∧
    gateFor A r.mode = .ok x.gate ∧ Receipted K A r commit x response receivedAt m
  heard : r.mode = .strict → ∃ stmt, r.tVerdict = some stmt.toDict ∧ VerdictFor K A r.bound stmt ∧
    getOr stmt.payload "verification_status" = .str "passed"

theorem examine_gate {r : Record} {wire response : Value} {commit : String} {receivedAt : Int}
    {x : Examined} (made : examine K A r wire response commit receivedAt = .ok x) :
    gateFor A r.mode = .ok x.gate := by
  simp only [examine, bind_ok, pure_ok, Except.ok.injEq] at made
  obtain ⟨ofM, -, ofR, -, gate, hg, own, -, rfl⟩ := made
  exact hg

/-- The gate decides in the mode it was chosen for. -/
theorem gateFor_mode {mode : Mode} {gate : Gate} (made : gateFor A mode = .ok gate) :
    gate.mode = mode := by
  obtain ⟨key, -, made⟩ := bind_ok.mp made
  cases made
  rfl

/-- A late answer leaves no clean list of checks. -/
theorem lateCheck_unclean (checks : Checks) : ¬ Clean (put checks "not_expired" lateCheck) :=
  fun clean => clean.unfailed _ (mem_put_self _ _ _) rfl

/-- The two actions that hand the text on. -/
theorem released_iff {action : Action} : released action = true ↔
    action = .accept ∨ action = .acceptUnverified := by
  rw [released, decide_eq_true_iff]

/-- What the gate lets through, from the checks of the answer and what was noticed. -/
theorem released_of_decision {q : Call} {wire : Value} {r : Record} {x : Received}
    {status : Value} {late : Bool} {sights : List Sight} (now : Int)
    (judged : Judged K A q wire r x)
    (noticed : (r.mode = .strict → status = .str "passed") →
      sights = if late then [.expired] else [])
    (heard : status = .str "passed" → ∃ stmt, r.tVerdict = some stmt.toDict ∧
      VerdictFor K A r.bound stmt ∧ getOr stmt.payload "verification_status" = status)
    {checks : Checks}
    (checked : checks = if late then put r.checks "not_expired" lateCheck else r.checks)
    {decision : GateDecision}
    (made : decision = decideGate K x.gate checks x.receivedAt now status true)
    (let_ : released decision.action = true) :
    Released K A q wire { r with
      checks, gate := some decision, state := .decided decision.action, response := some x.text }
      sights := by
  obtain ⟨commit, e, digested, examined, stored, gate⟩ := judged.examined
  have mode : x.gate.mode = r.mode := by
    rw [gate]
    exact gateFor_mode (examine_gate examined)
  have action : decision.action = (decideAction K x.gate checks status true).1 := by
    rw [made]
    rfl
  have accepted : r.mode ≠ .observe → decision.action = .accept ∧ Clean checks ∧
      (r.mode = .protect ∨ status = .str "passed") := by
    intro enforcing
    rw [← mode] at enforcing
    have accept : decision.action = .accept := by
      rcases released_iff.mp let_ with accept | unverified
      · exact accept
      · rw [action] at unverified
        exact absurd unverified (never_unverified enforcing checks status true)
    refine ⟨accept, ?_⟩
    rw [← mode]
    exact (accept_iff enforcing checks status true).mp (action ▸ accept)
  have punctual : r.mode ≠ .observe → late = false ∧ Clean e.checks := by
    intro enforcing
    have clean := (accepted enforcing).2.1
    cases late with
    | true =>
      rw [checked] at clean
      exact absurd clean (lateCheck_unclean _)
    | false =>
      rw [checked] at clean
      exact ⟨rfl, stored ▸ clean⟩
  have strictPassed : r.mode = .strict → status = .str "passed" := by
    intro strict
    obtain ⟨-, -, protect | passed⟩ := accepted (by rw [strict]; decide)
    · rw [strict] at protect
      cases protect
    · exact passed
  have seen := noticed strictPassed
  refine ⟨⟨x.response, x.text, judged.body, judged.text, rfl⟩, ?_, ?_, fun enforcing => ?_,
    fun enforcing => ?_, fun strict => ?_⟩
  · exact (released_iff.mp let_).imp (congrArg State.decided) (congrArg State.decided)
  · rw [seen]
    cases late <;> decide
  · obtain ⟨accept, clean, -⟩ := accepted enforcing
    obtain ⟨rfl, own⟩ := punctual enforcing
    refine ⟨congrArg State.decided accept, by rw [seen]; decide, clean, ?_⟩
    have same : checks = e.checks := checked.trans stored
    rw [same]
    exact (examine_clean examined own).2
  · obtain ⟨-, own⟩ := punctual enforcing
    obtain ⟨⟨m, shown, receipted⟩, -⟩ := examine_clean examined own
    exact ⟨x.response, x.text, commit, e, x.receivedAt, m, judged.body, rfl, judged.text, digested,
      (examine_same ⟨rfl, rfl, rfl, rfl⟩ ..).trans examined, shown, examine_gate examined,
      receipted.authentic, receipted.attempt, receipted.sound⟩
  · obtain ⟨stmt, stored, fits, stated⟩ := heard (strictPassed strict)
    exact ⟨stmt, stored, fits, stated.trans (strictPassed strict)⟩

/-- A released record stays released while the fields it rests on are kept. -/
theorem Released.same {q : Call} {wire : Value} {r r' : Record} {sights : List Sight}
    (released : Released K A q wire r sights) (request : SameRequest r r')
    (checks : r'.checks = r.checks) (state : r'.state = r.state)
    (response : r'.response = r.response) (verdict : r'.tVerdict = r.tVerdict) :
    Released K A q wire r' sights := by
  obtain ⟨answered, decided, active, enforced, receipted, heard⟩ := released
  refine ⟨?_, state ▸ decided, active, ?_, ?_, ?_⟩
  · rw [response]
    exact answered
  · rw [request.mode, state, checks]
    exact enforced
  · rw [request.mode, response]
    intro enforcing
    obtain ⟨answer, text, commit, x, receivedAt, m, body, given, readable, digested, examined,
      shown, gate, receipt⟩ := receipted enforcing
    refine ⟨answer, text, commit, x, receivedAt, m, body, given, readable, digested,
      (examine_same request ..).trans examined, shown, gate, ?_, ?_, ?_⟩
    · rw [request.sub]
      exact receipt.authentic
    · rw [request.attempt]
      exact receipt.attempt
    · rw [request.contract]
      exact receipt.sound
  · have bound : r'.bound = r.bound := by
      rw [Record.bound, Record.bound, request.sub, request.attempt, request.contract]
    rw [request.mode, verdict, bound]
    exact heard

theorem ends_assertActive (s : Desk) :
    Ends (assertActive K O) s (fun _ => Passes s) (Waits s) := by
  apply steady_access.before fun _ passed => passed.waits
  intro m s₁ at₁
  apply Ends.bind ((ends_looking at₁).mono (fun _ _ looked => looked) fun _ looked => looked)
  intro seen s₂ looked
  apply ends_demand
  · intro none_
    obtain rfl : seen = false := by simpa using none_
    exact looked.unseen
  · exact looked.waits

theorem ends_expiredNow (s : Desk) :
    Ends (expiredNow K O) s (Looked .expired s) (Waits s) := by
  apply ends_get_bind
  apply steady_nowMs.before fun _ passed => passed.waits
  intro now s₁ at₁
  apply (steady_ofPy _).before fun _ passed => (at₁.trans passed).waits
  intro past s₂ at₂
  have at₂ := at₁.trans at₂
  split
  · exact ends_looking at₂
  · apply steady_nowMs.before fun _ passed => (at₂.trans passed).waits
    intro now' s₃ at₃
    exact ends_looking (at₂.trans at₃)

/-- How the body of the request leaves the record when it comes to its end. -/
structure Settled (K : Primitives) (A : Setup) (q : Call) (wire : Value) (s s' : Desk) :
    Prop where
  request : SameRequest s.record s'.record
  unwritten : Unwritten K A q s'
  released : s'.record.response = none ∨ Released K A q wire s'.record s'.sights

/-- Settling the request gives the record a response only where the gate released it. -/
theorem ends_settle (q : Call) (x : Received) (status : Value) {wire : Value} {s : Desk}
    (silent : Silent K A q s) (judged : Judged K A q wire s.record x)
    (calm : (s.record.mode = .strict → status = .str "passed") → s.sights = [])
    (heard : status = .str "passed" → Heard K A s status) :
    Ends (settle K O q x status) s (fun _ => Settled K A q wire s) (Unwritten K A q) := by
  have mute : ∀ s', Waits s s' → Unwritten K A q s' :=
    fun _ waited => (waited.silent silent).toUnwritten
  have unwritten : ∀ s', SameRequest s.record s'.record → s'.written = s.written →
      Unwritten K A q s' := by
    intro s' same written
    refine ⟨silent.record.same same, ?_⟩
    rw [written]
    exact silent.written
  apply Ends.bind ((ends_isCancelled s).mono (fun _ _ looked => looked)
    fun _ passed => mute _ passed.waits)
  intro cancelled s₁ looked
  apply Ends.bind (M := fun _ => Passes s)
  · apply ends_demand
    · intro none_
      obtain rfl : cancelled = false := by simpa using none_
      exact looked.unseen
    · exact mute _ looked.waits
  intro _ s₁ at₁
  apply Ends.bind ((ends_assertActive s₁).mono (fun _ _ passed => at₁.trans passed)
    fun _ waited => mute _ (at₁.waits.trans waited))
  intro _ s₂ at₂
  apply Ends.bind ((ends_expiredNow s₂).mono (fun _ _ looked => looked)
    fun _ waited => mute _ (at₂.waits.trans waited))
  intro late s₃ looked₃
  apply ends_modify_bind
  have record₃ : s₃.record = { s.record with timeline := s₃.record.timeline } := by
    rw [looked₃.record, at₂.record]
  have written₃ : s₃.written = s.written := looked₃.written.trans at₂.written
  have sights₃ : s₃.sights = s.sights ++ if late then [.expired] else [] := by
    rw [looked₃.sights, at₂.sights]
  apply steady_nowMs.before
  · intro s' passed
    refine unwritten s' ?_ (passed.written.trans written₃)
    rw [passed.record, record₃]
    exact ⟨rfl, rfl, rfl, rfl⟩
  intro now s₄ at₄
  apply ends_get_bind
  have record₄ : s₄.record = { s.record with
      timeline := s₄.record.timeline
      checks := if late then put s.record.checks "not_expired" lateCheck
        else s.record.checks } := by
    rw [at₄.record, record₃]
  have written₄ : s₄.written = s.written := at₄.written.trans written₃
  apply ends_modify_bind
  generalize made : decideGate K x.gate s₄.record.checks x.receivedAt now status true = decision
  split
  next let_ =>
    apply ends_modify_bind
    apply ends_get_bind
    apply (steady_event _ _ _ _).mono
    · intro _ s₅ at₅
      have given := @released_of_decision K A q wire s.record x status late s₃.sights now judged
        (fun passed => by rw [sights₃, calm passed]; rfl) heard s₄.record.checks
        (by rw [record₄]) decision made.symm let_
      have same : SameRequest s.record s₅.record := by
        rw [at₅.record, record₄]
        exact ⟨rfl, rfl, rfl, rfl⟩
      refine ⟨same, unwritten s₅ same (at₅.written.trans written₄), .inr ?_⟩
      · rw [at₅.sights]
        have sights : s₄.sights = s₃.sights := at₄.sights
        rw [sights]
        apply given.same
        · rw [at₅.record, record₄]
          exact ⟨rfl, rfl, rfl, rfl⟩
        all_goals rw [at₅.record, record₄]
    · intro s₅ at₅
      refine unwritten s₅ ?_ (at₅.written.trans written₄)
      rw [at₅.record, record₄]
      exact ⟨rfl, rfl, rfl, rfl⟩
  next =>
    apply (steady_event _ _ _ _).mono
    · intro _ s₅ at₅
      have same : SameRequest s.record s₅.record := by
        rw [at₅.record, record₄]
        exact ⟨rfl, rfl, rfl, rfl⟩
      refine ⟨same, unwritten s₅ same (at₅.written.trans written₄), .inl ?_⟩
      rw [at₅.record, record₄]
      exact silent.response
    · intro s₅ at₅
      refine unwritten s₅ ?_ (at₅.written.trans written₄)
      rw [at₅.record, record₄]
      exact ⟨rfl, rfl, rfl, rfl⟩

/-- The relay is called in the state that the announcement leaves, and what it answers there is
what the end rests on. -/
theorem ends_proceed (q : Call) (fuel : Nat) {s : Desk} (silent : Silent K A q s)
    (fresh : s.sights = []) :
    Ends (proceed K A O q fuel) s
      (fun _ s' => ∃ called wire, announce K O q s = .ok () called ∧
        (O.moment called.tick).reply = .ok wire ∧ Settled K A q wire s s') (Unwritten K A q) := by
  apply Ends.bind (ends_announce q silent).made
  rintro _ s₁ ⟨announced, at₁⟩
  apply Ends.bind (ends_exchange q (at₁.silent silent))
  intro x s₂ at₂
  obtain ⟨wire, replied, judged₂⟩ := at₂.judged
  apply Ends.bind ((ends_await q fuel s₂).mono (fun _ _ waited => waited)
    fun _ waited => (waited.silent at₂.silent).toUnwritten)
  rintro status s₃ ⟨waited, other, passed⟩
  have same : SameRequest s₂.record s₃.record := by
    rw [waited.record]
    exact ⟨rfl, rfl, rfl, rfl⟩
  have none_ : s₂.sights = [] := at₂.sights.trans (at₁.sights.trans fresh)
  have judged : Judged K A q wire s₃.record x := by
    apply judged₂.same same
    rw [waited.record]
  have calm : (s₃.record.mode = .strict → status = .str "passed") → s₃.sights = [] := by
    intro strict
    rw [same.mode] at strict
    by_cases mode : s₂.record.mode = .strict
    · exact (passed (strict mode)).1.trans none_
    · exact (other mode).trans none_
  apply (ends_settle q x status (waited.silent at₂.silent) judged calm
    fun heard => (passed heard).2).mono
  · intro _ s' settled
    exact ⟨s₁, wire, announced, replied,
      at₁.request.trans (at₂.request.trans (same.trans settled.request)), settled.unwritten,
      settled.released⟩
  · exact fun _ unwritten => unwritten

theorem steady_checkBacklog : Steady (checkBacklog K O) := by
  apply steady_get.bind
  intro s
  change Steady (if s.agent.config.policy = .bounded then _ else _)
  split
  · exact steady_access.bind fun _ => steady_get.bind fun _ => steady_demand _ _
  · exact steady_pure ()

/-- An admitted request has one of the modes of the source. -/
theorem ends_admitRequest (q : Call) (s : Desk) :
    Ends (admitRequest K O q) s (fun mode s' => Passes s s' ∧ modeOf q.mode = some mode)
    (Waits s) := by
  apply Ends.bind (ends_assertActive s)
  intro _ s₁ at₁
  apply (steady_demand _ _).before fun _ passed => (at₁.trans passed).waits
  intro _ s₂ at₂
  have at₂ := at₁.trans at₂
  split
  next => exact ends_throw at₂.waits
  next mode known =>
    apply ends_get_bind
    apply (steady_demand _ _).before fun _ passed => (at₂.trans passed).waits
    intro _ s₃ at₃
    have at₃ := at₂.trans at₃
    apply steady_nowMs.before fun _ passed => (at₃.trans passed).waits
    intro now s₄ at₄
    have at₄ := at₃.trans at₄
    apply (steady_demand _ _).before fun _ passed => (at₄.trans passed).waits
    intro _ s₅ at₅
    have at₅ := at₄.trans at₅
    apply steady_access.before fun _ passed => (at₅.trans passed).waits
    intro _ s₆ at₆
    have at₆ := at₅.trans at₆
    apply ends_get_bind
    apply (steady_demand _ _).before fun _ passed => (at₆.trans passed).waits
    intro _ s₇ at₇
    have at₇ := at₆.trans at₇
    apply steady_checkBacklog.before fun _ passed => (at₇.trans passed).waits
    intro _ s₈ at₈
    exact ends_pure ⟨at₇.trans at₈, known⟩

theorem ends_signed (ct sub : String) (payload : Dict) (s : Desk) :
    Ends (signed K A O ct sub payload) s
      (fun stmt s' => Passes s s' ∧ stmt.payload = payload) (Passes s) := by
  apply steady_nowMs.before fun _ passed => passed
  intro issuedAt s₁ at₁
  apply ends_ofPy _ at₁
  intro stmt issued
  obtain ⟨message, -, rfl⟩ := issue_ok issued
  exact ⟨at₁, rfl⟩

/-- Preparing the request fills in its fields and writes no row. -/
theorem ends_prepare (q : Call) (mode : Mode) (known : modeOf q.mode = some mode) (s : Desk) :
    Ends (prepare K A O q mode) s
      (fun _ s' => Prepared K A q s'.record ∧ s'.record.response = none ∧
        s'.written = s.written ∧ s'.sights = s.sights)
      (fun s' => s'.written = s.written) := by
  apply steady_monotonic.before fun _ passed => passed.written
  intro startNs s₁ at₁
  apply steady_nowMs.before fun _ passed => (at₁.trans passed).written
  intro start s₂ at₂
  have at₂ := at₁.trans at₂
  apply Ends.bind (M := fun reqCommit s' => s' = s₂ ∧
    Execution.digest K (requestBody q) (.str q.salt) = .ok reqCommit)
    (ends_ofPy (fun _ digested => ⟨rfl, digested⟩) at₂.written)
  rintro reqCommit s₂ ⟨rfl, digested⟩
  apply Ends.bind ((ends_signed _ _ _ s₂).mono (fun _ _ made => made)
    fun _ passed => (at₂.trans passed).written)
  rintro contract s₃ ⟨at₃, payload⟩
  have at₃ := at₂.trans at₃
  apply (steady_ofPy _).before fun _ passed => (at₃.trans passed).written
  intro requestHash s₄ at₄
  have at₄ := at₃.trans at₄
  apply steady_access.before fun _ passed => (at₄.trans passed).written
  intro _ s₅ at₅
  have at₅ := at₄.trans at₅
  apply (steady_ofPy _).before fun _ passed => (at₅.trans passed).written
  intro _ s₆ at₆
  have at₆ := at₅.trans at₆
  apply ends_get_bind
  exact ends_modify ⟨⟨rfl, rfl, known, reqCommit, start, digested, payload⟩, rfl, at₆.written,
    at₆.sights⟩

/-- A request that fails is written without a response. -/
theorem ends_abandon (q : Call) (e : PyErr) {s : Desk} (unwritten : Unwritten K A q s) :
    Ends (abandon K O q e) s (fun _ => Silent K A q) (Unwritten K A q) := by
  have own : ∀ s', SameRequest s.record s'.record → s'.written = s.written →
      Unwritten K A q s' := by
    intro s' same written
    refine ⟨unwritten.record.same same, ?_⟩
    rw [written]
    exact unwritten.written
  apply ends_modify_bind
  apply (steady_event _ _ _ _).mono
  · intro _ s' passed
    refine ⟨own s' ?_ passed.written, ?_⟩
    · rw [passed.record]
      exact ⟨rfl, rfl, rfl, rfl⟩
    · rw [passed.record]
  · intro s' passed
    refine own s' ?_ passed.written
    rw [passed.record]
    exact ⟨rfl, rfl, rfl, rfl⟩

/-- What is done before the `try` statement. -/
def untilTry (K : Primitives) (A : Setup) (O : Outside) (q : Call) : Run Unit := do
  modify fun s => { s with written := [], emitted := [], sights := [] }
  let mode ← admitRequest K O q
  prepare K A O q mode

/-- What is done behind it. -/
def conclude (K : Primitives) (O : Outside) : Run Dict := do
  let t ← monotonic K O
  let s ← get
  modifyRecord fun r => { r with elapsedMs := some ((t - s.startNs) / 1000000) }
  putRecord K O
  pure (publicOf (← get).record.toDict)

/-- A request is a `try` statement with something before it and something behind it. -/
theorem request_parts (q : Call) (fuel : Nat) : request K A O q fuel =
    untilTry K A O q >>= fun _ =>
      catching (proceed K A O q fuel) (abandon K O q) >>= fun _ => conclude K O := by
  simp only [request, untilTry, bind_assoc]
  rfl

/-- Before the `try` statement nothing is written. -/
theorem ends_untilTry (q : Call) (s : Desk) :
    Ends (untilTry K A O q) s
      (fun _ s' => Silent K A q s' ∧ s'.sights = []) (fun s' => s'.written = []) := by
  apply ends_modify_bind
  apply Ends.bind ((ends_admitRequest q _).mono (fun _ _ known => known)
    fun _ waited => waited.written)
  rintro mode s₁ ⟨at₁, known⟩
  apply (ends_prepare q mode known s₁).mono
  · rintro _ s₂ ⟨prepared, none_, written, sights⟩
    refine ⟨⟨⟨prepared, fun r member => ?_⟩, none_⟩, sights.trans at₁.sights⟩
    rw [written.trans at₁.written] at member
    cases member
  · exact fun _ same => same.trans at₁.written

/-- The record is written once more, with the time that went by. -/
structure Concluded (s s' : Desk) : Prop where
  record : ∃ elapsedMs, s'.record = { s.record with elapsedMs }
  written : s'.written = s.written ++ [s'.record]
  sights : s'.sights = s.sights

theorem ends_conclude (s : Desk) :
    Ends (conclude K O) s
      (fun shown s' => Concluded s s' ∧ shown = publicOf s'.record.toDict) (Concluded s) := by
  apply Ends.bind (M := fun _ => Rests s)
  · exact ⟨rfl, rfl, rfl⟩
  intro t s₁ at₁
  apply ends_get_bind
  apply ends_modify_bind
  have concluded : ∀ s', Puts { s₁ with record :=
      { s₁.record with elapsedMs := some ((t - s₁.startNs) / 1000000) } } s' →
      Concluded s s' := by
    intro s' put
    refine ⟨⟨some ((t - s₁.startNs) / 1000000), ?_⟩, ?_, put.sights.trans at₁.sights⟩
    · rw [put.record, at₁.record]
    · rw [put.written, put.record, at₁.written]
  apply Ends.bind ((ends_putRecord _).mono (fun _ s' put => concluded s' put) concluded)
  exact fun _ s₂ at₂ => ends_get_bind (ends_pure ⟨at₂, rfl⟩)

/-- What is done before the relay is called. -/
def untilCall (K : Primitives) (A : Setup) (O : Outside) (q : Call) : Run Unit := do
  modify fun s => { s with written := [], emitted := [], sights := [] }
  let mode ← admitRequest K O q
  prepare K A O q mode
  announce K O q

/-- What the relay answers to the call of a request. -/
def Replied (K : Primitives) (A : Setup) (O : Outside) (q : Call) (s : Desk) (wire : Value) :
    Prop :=
  ∃ called, untilCall K A O q s = .ok () called ∧ (O.moment called.tick).reply = .ok wire

/-- A record that was written on the way of a request: it is of this request, and has no response
but the one that the relay answered and the gate released. -/
def Accounted (K : Primitives) (A : Setup) (O : Outside) (q : Call) (s : Desk)
    (sights : List Sight) (r : Record) : Prop :=
  Prepared K A q r ∧ (r.response = none ∨
    ∃ wire, Replied K A O q s wire ∧ Released K A q wire r sights)

/-- What was done before the call, if it got that far, was done before the `try` statement or in
its announcement. -/
theorem untilCall_parts (q : Call) :
    untilCall K A O q = untilTry K A O q >>= fun _ => announce K O q := by
  simp only [untilCall, untilTry, bind_assoc]

theorem Accounted.concluded {q : Call} {s s₁ s₂ : Desk}
    (accounted : Accounted K A O q s s₁.sights s₁.record) (concluded : Concluded s₁ s₂) :
    Accounted K A O q s s₂.sights s₂.record := by
  obtain ⟨elapsed, record⟩ := concluded.record
  rw [concluded.sights, record]
  obtain ⟨own, given⟩ := accounted
  refine ⟨own.same ⟨rfl, rfl, rfl, rfl⟩, given.imp_right ?_⟩
  rintro ⟨wire, replied, released⟩
  exact ⟨wire, replied, released.same ⟨rfl, rfl, rfl, rfl⟩ rfl rfl rfl rfl⟩

/-- The `try` statement ends with a record that is accounted for, and has written none with a
response. -/
theorem ends_tried (q : Call) (fuel : Nat) {s s₁ : Desk}
    (tried : untilTry K A O q s = .ok () s₁) (silent : Silent K A q s₁) (fresh : s₁.sights = []) :
    Ends (catching (proceed K A O q fuel) (abandon K O q)) s₁
      (fun _ s' => Unwritten K A q s' ∧ Accounted K A O q s s'.sights s'.record)
      (Unwritten K A q) := by
  have until_ : untilCall K A O q s = announce K O q s₁ := by
    rw [untilCall_parts, bind_of_ok tried]
  apply ends_catching (M := Unwritten K A q)
  · apply (ends_proceed q fuel silent fresh).mono
    · rintro _ s' ⟨called, wire, announced, replied, settled⟩
      refine ⟨settled.unwritten, settled.unwritten.record, settled.released.imp_right ?_⟩
      exact fun released => ⟨wire, ⟨called, until_.trans announced, replied⟩, released⟩
    · exact fun _ unwritten => unwritten
  · intro e s' unwritten
    apply (ends_abandon q e unwritten).mono
    · exact fun _ s'' left => ⟨left.toUnwritten, left.record, .inl left.response⟩
    · exact fun _ left => left
  · exact fun _ unwritten => unwritten

/-- However a request goes and wherever it ends, no record that it writes has a response that
was not released, and what it returns is the public part of a record that it wrote. -/
theorem ends_request (q : Call) (fuel : Nat) (s : Desk) :
    Ends (request K A O q fuel) s
      (fun shown s' => (∃ r ∈ s'.written, shown = publicOf r.toDict) ∧
        ∀ r ∈ s'.written, Accounted K A O q s s'.sights r)
      (fun s' => ∀ r ∈ s'.written, Accounted K A O q s s'.sights r) := by
  rw [request_parts]
  apply Ends.bind ((ends_untilTry q s).made.mono (fun _ _ tried => tried) ?_)
  · rintro _ s₁ ⟨tried, silent, fresh⟩
    apply Ends.bind ((ends_tried q fuel tried silent fresh).mono (fun _ _ ended => ended)
      fun s' unwritten r member => (unwritten.written r member).imp_right .inl)
    rintro _ s₂ ⟨unwritten, accounted⟩
    have fine : ∀ s', Concluded s₂ s' → ∀ r ∈ s'.written, Accounted K A O q s s'.sights r := by
      intro s' concluded r member
      rw [concluded.written] at member
      rcases List.mem_append.mp member with member | last
      · exact (unwritten.written r member).imp_right .inl
      · obtain rfl := List.mem_singleton.mp last
        exact accounted.concluded concluded
    apply (ends_conclude s₂).mono
    · rintro shown s' ⟨concluded, shown_⟩
      refine ⟨⟨s'.record, ?_, shown_⟩, fine s' concluded⟩
      rw [concluded.written]
      exact List.mem_append_right _ List.mem_cons_self
    · exact fine
  · intro s' none_ r member
    rw [none_] at member
    cases member

end ResponseRelease
