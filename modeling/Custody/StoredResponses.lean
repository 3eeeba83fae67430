import Custody.PrivateContent
import Custody.ResponseRelease

/-!
# The responses in the store

What a request writes is followed to the rows of the store, and these through the
rest of the agent's life: other requests, verdicts that are asked for again, the
expiry of content and restarts. A response that is read there at any time was
released by the gate, in the request that wrote the record.
-/

namespace StoredResponses

open PyValue HexBytes CanonicalJson CanonicalForm Commitments Statements Schemas TransparencyLog
  Identity UserGate Effects Requests ResponseRelease PrivateContent
open Backlog (requestKey)
open Retention (requestHead versionHead like)

variable {K : Primitives} {A : Setup} {O : Outside}

/-- Only the rows of requests and what was written matter, and the moments that went by. -/
def Stable (I : Desk → Prop) : Prop :=
  ∀ s s', I s → (∀ key, like requestHead key = true →
    s'.agent.kv.lookup key = s.agent.kv.lookup key) → s'.written = s.written →
    s.tick ≤ s'.tick → I s'

theorem net_rows (agent : Backlog.Agent) (ev : Delivery.Event) :
    (agent.step K (.net ev)).kv = agent.kv := by
  cases ev <;> rfl

theorem nets_rows (events : List Delivery.Event) (agent : Backlog.Agent) :
    (events.foldl (fun agent ev => agent.step K (.net ev)) agent).kv = agent.kv := by
  induction events generalizing agent with
  | nil => rfl
  | cons ev rest ih => exact (ih _).trans (net_rows agent ev)

variable {I : Desk → Prop}

/-- A pure computation preserves any invariant of the desk. -/
theorem keeps_ofPy {B : Type} (x : Py B) : Keeps I (ofPy x) :=
  fun _ holds => ends_ofPy (fun _ _ => holds) holds

theorem keeps_demand (ok : Bool) (e : PyErr) : Keeps I (demand ok e) :=
  fun _ holds => ends_demand (fun _ => holds) holds

theorem keeps_raise {B : Type} (e : PyErr) : Keeps I (raise e : Run B) :=
  keeps_throw _

theorem Stable.through_moment (stable : Stable I) : Keeps I (moment K O) := fun s holds =>
  stable s _ holds (fun key _ => by rw [nets_rows]) rfl (Nat.le_succ _)

/-- Reading the store preserves an invariant that time preserves. -/
theorem keeps_access (steady : Keeps I (moment K O)) :
    Keeps I (access K O) := by
  apply steady.bind
  intro m
  cases m.failure with
  | some stop => exact keeps_throw _
  | none => exact keeps_pure m

/-- A write preserves an invariant that the stored agent does. -/
theorem keeps_writing {f : Backlog.Agent → Py Backlog.Agent}
    (steady : Keeps I (moment K O))
    (stored : ∀ s after, I s → f s.agent = .ok after → I { s with agent := after }) :
    Keeps I (writing K O f) := by
  apply (keeps_access steady).bind
  intro m s holds
  apply ends_get_bind
  apply Ends.bind (M := fun after s' => s' = s ∧ f s.agent = .ok after)
    (ends_ofPy (fun _ done => ⟨rfl, done⟩) holds)
  rintro after s ⟨rfl, done⟩
  apply ends_modify_bind
  have moved := stored _ _ holds done
  cases m.late with
  | some stop => exact ends_throw moved
  | none => exact ends_pure moved

theorem Stable.through_access (stable : Stable I) : Keeps I (access K O) :=
  keeps_access stable.through_moment

theorem Stable.through_nowMs (stable : Stable I) : Keeps I (nowMs K O) :=
  stable.through_moment.bind fun _ => keeps_pure _

theorem Stable.through_monotonic (stable : Stable I) : Keeps I (monotonic K O) :=
  stable.through_moment.bind fun _ => keeps_pure _

/-- Hearing from a peer preserves a stable invariant. -/
theorem Stable.through_peer (stable : Stable I) : Keeps I (peer K O) :=
  stable.through_access.bind fun _ => keeps_ofPy _

/-- The record and what was noticed are no rows. -/
theorem Stable.through_modify (stable : Stable I) {f : Desk → Desk}
    (agent : ∀ s, (f s).agent = s.agent)
    (written : ∀ s, (f s).written = s.written) (tick : ∀ s, (f s).tick = s.tick) :
    Keeps I (modify f : Run Unit) := by
  apply keeps_modify
  exact fun s holds => stable s _ holds (fun key _ => by rw [agent]) (written s) (tick s).ge

theorem Stable.through_modifyRecord (stable : Stable I) (f : Record → Record) :
    Keeps I (modifyRecord f) :=
  stable.through_modify (fun _ => rfl) (fun _ => rfl) fun _ => rfl

theorem Stable.through_noticing (stable : Stable I) (sight : Sight) (seen : Bool) :
    Keeps I (noticing sight seen) := by
  apply Keeps.bind (x := modify _) (stable.through_modify ?_ ?_ ?_)
  · exact fun _ => keeps_pure seen
  · exact fun _ => rfl
  · exact fun _ => rfl
  · exact fun _ => rfl

theorem Stable.through_isCancelled (stable : Stable I) : Keeps I (isCancelled K O) :=
  stable.through_moment.bind fun _ => stable.through_noticing _ _

theorem Stable.through_assertActive (stable : Stable I) : Keeps I (assertActive K O) := by
  apply stable.through_access.bind
  intro m
  exact (stable.through_noticing .retired m.retired).bind fun _ => keeps_demand _ _

/-- A write that leaves the rows of requests alone. -/
theorem Stable.through_writing (stable : Stable I) {f : Backlog.Agent → Py Backlog.Agent}
    (rows : ∀ agent after, f agent = .ok after → ∀ key, like requestHead key = true →
      after.kv.lookup key = agent.kv.lookup key) :
    Keeps I (writing K O f) :=
  keeps_writing stable.through_moment fun s _ holds done =>
    stable s _ holds (rows _ _ done) rfl le_rfl

/-- Writing one key sorts the value and leaves every other row. -/
theorem put_rows {agent after : Backlog.Agent} {key : String} {value : Value}
    (put : agent.put key value none = .ok after) :
    (∃ bytes, canonicalJson value = .ok bytes) ∧ after.net = agent.net ∧
      after.kv = agent.kv.insert key (canon value) := by
  obtain ⟨bytes, written, put⟩ := bind_ok.mp put
  obtain rfl := Except.ok.inj put
  exact ⟨⟨bytes, written⟩, rfl, rfl⟩

theorem Stable.through_enqueue (stable : Stable I) (item : Delivery.Item) :
    Keeps I (enqueue K O item) := by
  apply stable.through_writing
  intro agent after done key request
  rw [(Backlog.enqueue_pending done).2.1]

theorem Stable.through_rememberPrivate (stable : Stable I) : Keeps I (rememberPrivate K O) := by
  apply keeps_get.bind
  intro s
  apply stable.through_writing
  intro agent after done key request
  obtain ⟨hash, -, done⟩ := bind_ok.mp done
  have other : key ≠ Retention.versionHead ++ hash := by
    rintro rfl
    rw [Backlog.like_version] at request
    cases request
  rw [(put_rows done).2.2, AList.lookup_insert_ne other]

theorem Stable.through_enqueuePrivate (stable : Stable I) : Keeps I (enqueuePrivate K O) :=
  keeps_get.bind fun _ => stable.through_enqueue _

theorem Stable.through_event (stable : Stable I) (token actor kind : String) :
    Keeps I (event K O token actor kind) := by
  apply stable.through_monotonic.bind
  intro t
  apply keeps_get.bind
  intro s
  apply (stable.through_modifyRecord _).bind
  intro _
  apply stable.through_access.bind
  exact fun _ => stable.through_modify (fun _ => rfl) (fun _ => rfl) fun _ => rfl

theorem Stable.through_signed (stable : Stable I) (ct sub : String) (payload : Dict) :
    Keeps I (signed K A O ct sub payload) :=
  stable.through_nowMs.bind fun _ => keeps_ofPy _

/-- An invariant of a body and of its handler is one of both. -/
theorem keeps_catching {B : Type} {body : Run B} {handler : PyErr → Run B}
    (inside : Keeps I body) (after : ∀ e, Keeps I (handler e)) :
    Keeps I (catching body handler) :=
  fun s holds => ends_catching (inside s holds) after fun _ held => held

theorem Stable.through_checkBacklog (stable : Stable I) : Keeps I (checkBacklog K O) := by
  apply keeps_get.bind
  intro s
  change Keeps _ (if s.agent.config.policy = .bounded then _ else _)
  split
  · exact stable.through_access.bind fun _ => keeps_get.bind fun _ => keeps_demand _ _
  · exact keeps_pure ()

theorem Stable.through_admitRequest (stable : Stable I) (q : Call) :
    Keeps I (admitRequest K O q) := by
  apply stable.through_assertActive.bind
  intro _
  apply (keeps_demand _ _).bind
  intro _
  split
  next => exact keeps_throw _
  next mode known =>
    apply keeps_get.bind
    intro s
    apply (keeps_demand _ _).bind
    intro _
    apply stable.through_nowMs.bind
    intro now
    apply (keeps_demand _ _).bind
    intro _
    apply stable.through_access.bind
    intro _
    apply keeps_get.bind
    intro s'
    apply (keeps_demand _ _).bind
    intro _
    exact stable.through_checkBacklog.bind fun _ => keeps_pure mode

/-- Preparing the request preserves a stable invariant. -/
theorem Stable.through_prepare (stable : Stable I) (q : Call) (mode : Mode) :
    Keeps I (prepare K A O q mode) := by
  apply stable.through_monotonic.bind
  intro startNs
  apply stable.through_nowMs.bind
  intro start
  apply (keeps_ofPy _).bind
  intro reqCommit
  apply (stable.through_signed _ _ _).bind
  intro contract
  apply (keeps_ofPy _).bind
  intro requestHash
  apply stable.through_access.bind
  intro _
  apply (keeps_ofPy _).bind
  intro _
  apply keeps_get.bind
  intro s
  exact stable.through_modify (fun _ => rfl) (fun _ => rfl) fun _ => rfl

theorem Stable.through_validNow (stable : Stable I) (v : Value) : Keeps I (validNow K O v) := by
  cases v with
  | int t =>
    apply stable.through_nowMs.bind
    intro now
    split
    · exact stable.through_nowMs.bind fun _ => keeps_pure _
    · exact keeps_pure false
  | _ => exact keeps_pure false

theorem Stable.through_keepVerdictReceipt (stable : Stable I) (stmt : SignedStatement)
    (result : Value) : Keeps I (keepVerdictReceipt K A O stmt result) := by
  apply (keeps_ofPy _).bind
  intro given
  apply (keeps_ofPy _).bind
  intro rc
  apply (keeps_ofPy _).bind
  intro publicKey
  apply (keeps_ofPy _).bind
  rintro ⟨ok, why⟩
  apply (keeps_demand _ _).bind
  intro _
  apply (keeps_ofPy _).bind
  intro hash
  apply stable.through_writing
  intro agent after done key request
  obtain ⟨sender, -, done⟩ := bind_ok.mp done
  obtain rfl := Except.ok.inj done
  rfl

/-- Reading a verdict preserves a stable invariant. -/
theorem Stable.through_verdict (stable : Stable I) (b : Bound) : Keeps I (verdict K A O b) := by
  apply stable.through_peer.bind
  intro result
  apply (keeps_ofPy _).bind
  intro given
  apply (keeps_ofPy _).bind
  intro stmt
  apply (keeps_ofPy _).bind
  intro bound
  apply (keeps_demand _ _).bind
  intro _
  apply (stable.through_validNow _).bind
  intro valid
  apply (keeps_demand _ _).bind
  intro _
  apply stable.through_nowMs.bind
  intro now
  apply (keeps_demand _ _).bind
  intro _
  exact (stable.through_keepVerdictReceipt _ _).bind fun _ => keeps_pure stmt

theorem Stable.through_attempt (stable : Stable I) (status : Value) :
    Keeps I (attempt K A O status) := by
  apply keeps_catching
  · apply stable.through_access.bind
    intro _
    apply stable.through_monotonic.bind
    intro _
    apply keeps_get.bind
    intro s
    apply (stable.through_verdict _).bind
    intro stmt
    apply (stable.through_modifyRecord _).bind
    intro _
    exact (keeps_ofPy _).bind fun _ => keeps_pure _
  · exact fun e => (stable.through_modifyRecord _).bind fun _ => keeps_pure _

/-- Polling preserves a stable invariant, whatever the fuel. -/
theorem Stable.through_poll (stable : Stable I) (fuel : Nat) (deadline : Int) (status : Value) :
    Keeps I (poll K A O fuel deadline status) := by
  induction fuel generalizing status with
  | zero => exact keeps_throw _
  | succ fuel ih =>
    apply stable.through_isCancelled.bind
    intro cancelled
    cases cancelled with
    | true => exact keeps_pure status
    | false =>
      apply stable.through_monotonic.bind
      intro t
      change Keeps _ (if t ≥ deadline then _ else _)
      split
      · exact keeps_pure status
      · apply (stable.through_attempt status).bind
        rintro ⟨status', done⟩
        cases done with
        | true => exact keeps_pure status'
        | false => exact stable.through_moment.bind fun _ => ih status'

/-- Waiting for the verdict preserves a stable invariant. -/
theorem Stable.through_await (stable : Stable I) (q : Call) (fuel : Nat) :
    Keeps I (await K A O q fuel) := by
  apply stable.through_monotonic.bind
  intro t
  apply keeps_get.bind
  intro s
  change Keeps _ (if s.record.mode = .strict && !anyFailed s.record.checks then _ else _)
  split
  · apply (stable.through_event _ _ _).bind
    intro _
    apply (stable.through_poll _ _ _).bind
    intro status
    apply stable.through_monotonic.bind
    intro t'
    change Keeps _ (if _ && !status.eq (.str "failed") then _ else _)
    split
    · exact keeps_pure _
    · exact keeps_pure _
  · exact keeps_pure _

theorem Stable.through_expiredNow (stable : Stable I) : Keeps I (expiredNow K O) := by
  apply keeps_get.bind
  intro s
  apply stable.through_nowMs.bind
  intro now
  apply (keeps_ofPy _).bind
  intro past
  cases past with
  | true => exact stable.through_noticing _ _
  | false => exact stable.through_nowMs.bind fun _ => stable.through_noticing _ _

/-- Settling preserves a stable invariant up to the write that ends it. -/
theorem Stable.through_settle (stable : Stable I) (q : Call) (x : Received) (status : Value) :
    Keeps I (settle K O q x status) := by
  apply stable.through_isCancelled.bind
  intro cancelled
  apply (keeps_demand _ _).bind
  intro _
  apply stable.through_assertActive.bind
  intro _
  apply stable.through_expiredNow.bind
  intro late
  apply (stable.through_modifyRecord _).bind
  intro _
  apply stable.through_nowMs.bind
  intro now
  apply keeps_get.bind
  intro s
  apply (stable.through_modifyRecord _).bind
  intro _
  split
  · apply (stable.through_modifyRecord _).bind
    intro _
    apply keeps_get.bind
    exact fun _ => stable.through_event _ _ _
  · exact stable.through_event _ _ _

/-- The rows of requests are what they were before, but for the records that were written. -/
def Traced (before : AList fun _ : String => Value) (s : Desk) : Prop :=
  ∀ key, like requestHead key = true → s.agent.kv.lookup key = before.lookup key ∨
    ∃ r ∈ s.written, key = requestKey r.sub ∧
      s.agent.kv.lookup key = some (canon (.dict r.toDict)) ∧
      ∃ bytes, canonicalJson (.dict r.toDict) = .ok bytes

variable {before : AList fun _ : String => Value}

theorem stable_traced : Stable (Traced before) := by
  intro s s' traced rows written _ key request
  rw [rows key request, written]
  exact traced key request

/-- Writing the record keeps the trace of what has been written. -/
theorem traced_putRecord : Keeps (Traced before) (putRecord K O) := by
  intro s traced
  apply ends_get_bind
  apply ends_modify_bind
  have grown : Traced before { s with written := s.written ++ [s.record] } :=
    fun key request => (traced key request).imp_right fun ⟨r, member, rest⟩ =>
      ⟨r, List.mem_append_left _ member, rest⟩
  have steady : Keeps (fun s' => Traced before s' ∧ s.record ∈ s'.written) (moment K O) :=
    fun s' held => ⟨stable_traced.through_moment s' held.1, held.2⟩
  apply (keeps_writing steady ?_ _ ⟨grown, List.mem_append_right _ List.mem_cons_self⟩).mono
    (fun _ _ held => held.1) fun _ held => held.1
  rintro s' after ⟨traced', listed⟩ done
  refine ⟨fun key request => ?_, listed⟩
  obtain ⟨canonical, -, rows⟩ := put_rows done
  rw [rows]
  by_cases same : key = requestKey s.record.sub
  · subst same
    exact .inr ⟨s.record, listed, rfl, AList.lookup_insert _, canonical⟩
  · rw [AList.lookup_insert_ne same]
    exact traced' key request

theorem traced_announce (q : Call) : Keeps (Traced before) (announce K O q) := by
  apply traced_putRecord.bind
  intro _
  apply (stable_traced.through_event _ _ _).bind
  intro _
  apply keeps_get.bind
  intro s
  apply (stable_traced.through_enqueue _).bind
  intro _
  apply stable_traced.through_rememberPrivate.bind
  intro _
  apply stable_traced.through_enqueuePrivate.bind
  intro _
  apply stable_traced.through_isCancelled.bind
  intro cancelled
  apply (keeps_demand _ _).bind
  exact fun _ => stable_traced.through_event _ _ _

/-- The exchange with the relay keeps the trace. -/
theorem traced_exchange (q : Call) : Keeps (Traced before) (exchange K A O q) := by
  apply stable_traced.through_peer.bind
  intro wire
  apply stable_traced.through_nowMs.bind
  intro receivedAt
  apply (stable_traced.through_event _ _ _).bind
  intro _
  apply (keeps_ofPy _).bind
  intro response
  cases responseText response with
  | none => exact keeps_raise _
  | some text =>
    apply (stable_traced.through_modifyRecord _).bind
    intro _
    apply (keeps_ofPy _).bind
    intro commit
    apply keeps_get.bind
    intro s
    apply (keeps_ofPy _).bind
    intro x
    apply (stable_traced.through_modifyRecord _).bind
    intro _
    apply (keeps_ofPy _).bind
    intro receiptHash
    apply (keeps_ofPy _).bind
    intro relayHash
    apply (stable_traced.through_signed _ _ _).bind
    intro observation
    apply (keeps_ofPy _).bind
    intro responseHash
    apply (stable_traced.through_modifyRecord _).bind
    intro _
    apply stable_traced.through_rememberPrivate.bind
    intro _
    apply (stable_traced.through_modifyRecord _).bind
    intro _
    apply traced_putRecord.bind
    intro _
    apply (stable_traced.through_enqueue _).bind
    intro _
    apply stable_traced.through_enqueuePrivate.bind
    intro _
    exact (stable_traced.through_event _ _ _).bind fun _ => keeps_pure _

/-- So does everything behind the admission of the request. -/
theorem traced_proceed (q : Call) (fuel : Nat) : Keeps (Traced before) (proceed K A O q fuel) := by
  apply (traced_announce q).bind
  intro _
  apply (traced_exchange q).bind
  intro x
  exact (stable_traced.through_await q fuel).bind fun status =>
    stable_traced.through_settle q x status

theorem traced_untilTry (q : Call) (s : Desk) :
    Ends (untilTry K A O q) s (fun _ => Traced s.agent.kv) (Traced s.agent.kv) := by
  apply ends_modify_bind
  refine ((stable_traced.through_admitRequest q).bind fun mode => ?_) _ fun _ _ => .inl rfl
  exact stable_traced.through_prepare q mode

/-- The `try` statement keeps the trace, whether or not its handler runs. -/
theorem traced_tried (q : Call) (fuel : Nat) :
    Keeps (Traced before) (catching (proceed K A O q fuel) (abandon K O q)) := by
  apply keeps_catching (traced_proceed q fuel)
  intro e
  exact (stable_traced.through_modifyRecord _).bind fun _ => stable_traced.through_event _ _ _

theorem traced_conclude : Keeps (Traced before) (conclude K O) := by
  apply stable_traced.through_monotonic.bind
  intro t
  apply keeps_get.bind
  intro s
  apply (stable_traced.through_modifyRecord _).bind
  intro _
  exact traced_putRecord.bind fun _ => keeps_get.bind fun _ => keeps_pure _

/-- The rows of requests that a request leaves are those that it found and what it wrote. -/
theorem traced_request (q : Call) (fuel : Nat) (s : Desk) :
    Traced s.agent.kv (final (request K A O q fuel s)) := by
  have ended : Ends (request K A O q fuel) s (fun _ => Traced s.agent.kv)
      (Traced s.agent.kv) := by
    rw [request_parts]
    apply (traced_untilTry q s).bind
    intro _ s₁ traced
    exact ((traced_tried q fuel).bind fun _ => traced_conclude) s₁ traced
  exact ended.final (fun _ _ traced => traced) fun _ traced => traced

/-- A row of a request is the one from before, or a record of this one that is accounted for. -/
theorem rows_accounted (q : Call) (fuel : Nat) (s : Desk) {key : String}
    (request_ : like requestHead key = true) :
    (final (request K A O q fuel s)).agent.kv.lookup key = s.agent.kv.lookup key ∨
    key = requestKey q.sub ∧ ∃ r ∈ (final (request K A O q fuel s)).written,
      (final (request K A O q fuel s)).agent.kv.lookup key = some (canon (.dict r.toDict)) ∧
      (∃ bytes, canonicalJson (.dict r.toDict) = .ok bytes) ∧
      Accounted K A O q s (final (request K A O q fuel s)).sights r := by
  have accounted := (ends_request (K := K) (A := A) (O := O) q fuel s).final
    (P := fun s' => ∀ r ∈ s'.written, Accounted K A O q s s'.sights r)
    (fun _ _ known => known.2) fun _ known => known
  refine (traced_request q fuel s key request_).imp_right ?_
  rintro ⟨r, member, named, stored, canonical⟩
  have own := accounted r member
  rw [own.1.sub] at named
  exact ⟨named, r, member, stored, canonical, own⟩

/-- Whatever the peers answer, whatever raises and wherever it ends: the rows of other requests
are the ones from before, and so is the row of this one unless it is a record that was written,
whose response, if it has one, is the text that the relay answered and the gate released. What
is returned is the public part of such a record. -/
theorem responses_released (q : Call) (fuel : Nat) (s : Desk) :
    (∀ sub, let s' := final (request K A O q fuel s)
      s'.agent.kv.lookup (requestKey sub) = s.agent.kv.lookup (requestKey sub) ∨
      sub = q.sub ∧ ∃ r ∈ s'.written, Prepared K A q r ∧
        s'.agent.kv.lookup (requestKey sub) = some (canon (.dict r.toDict)) ∧
        (r.response = none ∨
          ∃ wire, Replied K A O q s wire ∧ Released K A q wire r s'.sights)) ∧
    ∀ shown s', request K A O q fuel s = .ok shown s' → ∃ r ∈ s'.written,
      shown = publicOf r.toDict ∧ Prepared K A q r ∧ (r.response = none ∨
        ∃ wire, Replied K A O q s wire ∧ Released K A q wire r s'.sights) := by
  constructor
  · intro sub s'
    refine (rows_accounted q fuel s (Backlog.like_requestKey sub)).imp_right ?_
    rintro ⟨named, r, member, stored, -, prepared, given⟩
    exact ⟨(String.append_right_inj _).mp named, r, member, prepared, stored, given⟩
  · intro shown s' done
    obtain ⟨⟨r, member, public_⟩, accounted⟩ := (ends_request q fuel s).returns done
    exact ⟨r, member, public_, accounted r member⟩

/-- The byte strings that are hashed for a commitment. -/
def hashed (K : Primitives) (body salt : Value) : Py (List Bytes) := do
  let bytes ← canonicalJson body
  pure [(← fromHexValue salt) ++ K.sha256 bytes, bytes]

/-- A digest that was computed is the salted hash of the canonical body. -/
theorem digest_ok {body salt : Value} {c : String} (made : Execution.digest K body salt = .ok c) :
    ∃ s bytes, fromHexValue salt = .ok s ∧ canonicalJson body = .ok bytes ∧ s.length = 32 ∧
      c = hex (K.sha256 (s ++ K.sha256 bytes)) := by
  cases salt with
  | str text =>
    rw [Execution.digest] at made
    split at made
    · cases made
    · obtain ⟨s, read, made⟩ := bind_ok.mp made
      obtain ⟨hash, content, made⟩ := bind_ok.mp made
      obtain ⟨bytes, written, content⟩ := bind_ok.mp content
      obtain rfl := Except.ok.inj content
      obtain ⟨s', x, read', same, long, -, made⟩ := commitHex_ok.mp made
      obtain rfl := Except.ok.inj (read.symm.trans read')
      have opened : fromHexValue (.str (contentHashHex K bytes)) = .ok (K.sha256 bytes) := by
        rw [fromHexValue, contentHashHex, sha256Hex, fromHex_hex]
      obtain rfl := Except.ok.inj (same.symm.trans opened)
      exact ⟨s, bytes, read, written, long, made⟩
  | _ => cases made

/-- The hash collides on what is hashed for two commitments. -/
def Colliding (K : Primitives) (a salt b salt' : Value) : Prop :=
  ∃ xs ys, hashed K a salt = .ok xs ∧ hashed K b salt' = .ok ys ∧ Collision K (xs ++ ys)

/-- One commitment is on one value, whatever the salts, unless the hash collides. -/
theorem digest_binding {a b salt salt' : Value} {c : String}
    (first : Execution.digest K a salt = .ok c) (second : Execution.digest K b salt' = .ok c) :
    canon a = canon b ∨ Colliding K a salt b salt' := by
  obtain ⟨s, bytes, read, written, long, made⟩ := digest_ok first
  obtain ⟨s', bytes', read', written', long', made'⟩ := digest_ok second
  have listed : hashed K a salt = .ok [s ++ K.sha256 bytes, bytes] := by
    rw [hashed, written, ok_bind, read]
    rfl
  have listed' : hashed K b salt' = .ok [s' ++ K.sha256 bytes', bytes'] := by
    rw [hashed, written', ok_bind, read']
    rfl
  have same := hex_injective (made.symm.trans made')
  rcases commit_binding long long' same with ⟨-, content⟩ | collision
  · by_cases equal : bytes = bytes'
    · subst equal
      exact .inl (canonicalJson_injective written written')
    · exact .inr ⟨_, _, listed, listed', bytes, by simp, bytes', by simp, equal, content⟩
  · exact .inr ⟨_, _, listed, listed', collision.mono (by simp)⟩

/-- The model operator's signed receipt for this prompt and this text, in this attempt. -/
structure SignedFor (K : Primitives) (A : Setup) (q : Call) (text : String)
    (m : SignedStatement) : Prop where
  authentic : Authentic K A.trust .M (.str ctReceipt) (some (.str q.sub)) m
  attempt : getOr m.payload "attempt_id" = .str q.attemptId
  nonce : getOr m.payload "eat_nonce" = .str q.nonce
  request : ∃ c, Execution.digest K (requestBody q) (.str q.salt) = .ok c ∧
    getOr m.payload "request_commit" = .str c
  response : ∃ body c, responseText body = some text ∧
    Execution.digest K body (.str q.salt) = .ok c ∧ getOr m.payload "response_commit" = .str c
  model : getOr m.payload "model_id" = .null ∨ getOr m.payload "model_id" = .str A.modelId

/-- What was released outside of observe mode has a signed receipt for its text. -/
theorem signed_of_released {q : Call} {wire : Value} {r : Record} {sights : List Sight}
    (prepared : Prepared K A q r) (released : Released K A q wire r sights)
    (mode : r.mode ≠ .observe) : ∃ text m, r.response = some text ∧ SignedFor K A q text m := by
  obtain ⟨body, text, commit, x, receivedAt, m, -, given, readable, digested, -, -, -, authentic,
    attempt, sound⟩ := released.receipted mode
  obtain ⟨reqCommit, start, asked, terms⟩ := prepared.contract
  have stated : ∀ name v, getOr (contractPayload (contractTerms A q r.mode reqCommit start)) name =
      v → getOr r.contract.payload name = v := by
    intro name v same
    rw [terms, same]
  refine ⟨text, m, given, prepared.sub ▸ authentic, attempt.trans (by rw [prepared.attempt]), ?_,
    ⟨reqCommit, asked, ?_⟩, ⟨body, commit, readable, digested, ?_⟩, ?_⟩
  · have nonce := sound.nonce
    rw [stated "nonce" (.str q.nonce) rfl] at nonce
    exact (eq_str_right _ _).mp nonce
  · rcases sound.request with ⟨-, own⟩ | ⟨_, nowhere, -⟩
    · rw [stated "req_commit" (.str reqCommit) rfl] at own
      exact (eq_str_right _ _).mp own
    · cases nowhere
  · exact (eq_str_right _ _).mp sound.response
  · by_cases named : getOr m.payload "model_id" = .null
    · exact .inl named
    · rcases sound.route named with same | ⟨-, fallback, -⟩
      · rw [stated "requested_model" (.str A.modelId) rfl] at same
        exact .inr ((eq_str_right _ _).mp same)
      · exact absurd (stated "fallback_policy" (.str "none") rfl) fallback

theorem responseText_field {body : Value} {text : String}
    (readable : responseText body = some text) :
    ∃ d, body = .dict d ∧ getOr d "text" = .str text := by
  cases body with
  | dict d =>
    rw [responseText] at readable
    split at readable
    · split at readable
      · rename_i text' _ here short
        exact ⟨d, rfl, here.trans (congrArg Value.str (Option.some.inj readable))⟩
      · cases readable
    · cases readable
  | _ => cases readable

def promptBody (prompt : Value) : Value := .dict (fields [("prompt", prompt)])

def textBody (text : String) : Value := .dict (fields [("text", .str text)])

/-- The receipt is for no other prompt and no other text, unless the hash collides. -/
structure Pinned (K : Primitives) (q : Call) (text : String) (m : SignedStatement) : Prop where
  prompt : ∀ prompt salt c, Execution.digest K (promptBody prompt) salt = .ok c →
    getOr m.payload "request_commit" = .str c →
    canon prompt = canon q.prompt ∨ Colliding K (requestBody q) (.str q.salt)
      (promptBody prompt) salt
  text : ∀ text' salt c, Execution.digest K (textBody text') salt = .ok c →
    getOr m.payload "response_commit" = .str c →
    text' = text ∨ ∃ body, responseText body = some text ∧
      Colliding K body (.str q.salt) (textBody text') salt

/-- A signed receipt pins the prompt and the text, up to a collision. -/
theorem SignedFor.pinned {q : Call} {text : String} {m : SignedStatement}
    (signed : SignedFor K A q text m) : Pinned K q text m := by
  constructor
  · intro prompt salt c other stated
    obtain ⟨c', own, stated'⟩ := signed.request
    obtain rfl := Value.str.inj (stated.symm.trans stated')
    refine (digest_binding own other).imp_left fun same => ?_
    have field := find_of_canon same "prompt"
    exact (Option.some.inj field).symm
  · intro text' salt c other stated
    obtain ⟨body, c', readable, own, stated'⟩ := signed.response
    obtain rfl := Value.str.inj (stated.symm.trans stated')
    rcases digest_binding own other with same | collision
    · left
      obtain ⟨d, rfl, here⟩ := responseText_field readable
      have field := find_of_canon same "text"
      rw [getOr] at here
      cases found : find d (.str "text") with
      | none =>
        rw [found] at here
        cases here
      | some v =>
        rw [found] at here field
        obtain rfl : v = .str text := here
        have both : canon (.str text) = canon (.str text') := Option.some.inj field
        rw [canon_str, canon_str] at both
        exact (Value.str.inj both).symm
    · exact .inr ⟨body, readable, collision⟩

/-- Outside observe mode, the text that a record gives away is the one that the model operator
signed for the prompt that was asked, and the receipt is for no other prompt and no other text
unless the hash collides. -/
theorem released_text_signed (q : Call) (fuel : Nat) (s : Desk) (sub : String) :
    let s' := final (request K A O q fuel s)
    s'.agent.kv.lookup (requestKey sub) = s.agent.kv.lookup (requestKey sub) ∨
    ∃ r : Record, r.sub = sub ∧
      s'.agent.kv.lookup (requestKey sub) = some (canon (.dict r.toDict)) ∧
      (r.response = none ∨ r.mode = .observe ∨ ∃ text m, r.response = some text ∧
        SignedFor K A q text m ∧ Pinned K q text m) := by
  intro s'
  rcases rows_accounted q fuel s (Backlog.like_requestKey sub) with same |
    ⟨named, r, -, stored, -, prepared, given⟩
  · exact .inl same
  · refine .inr ⟨r, ?_, stored, ?_⟩
    · exact prepared.sub.trans ((String.append_right_inj _).mp named).symm
    rcases given with none_ | ⟨wire, -, released⟩
    · exact .inl none_
    · by_cases mode : r.mode = .observe
      · exact .inr (.inl mode)
      · obtain ⟨text, m, given, signed⟩ := signed_of_released prepared released mode
        exact .inr (.inr ⟨text, m, given, signed, signed.pinned⟩)

def sampleSetup : Setup :=
  { trust := Auditing.sampleConfig, key := { kid := "kid-u", seed := [1] }, modelId := "model-A",
    modelKind := "external", governance := "separate" }

def sampleCall : Call :=
  { prompt := .str "hello", mode := .str "strict", sub := "urn:itx:req:1", attemptId := "att-001",
    salt := PassedVerdict.zeros 64, nonce := PassedVerdict.zeros 64 }

def noStatement : SignedStatement :=
  { iss := .null, sub := .null, contentType := .null, kid := .null, issuedAt := 0, payload := [],
    signature := .null }

def sampleThird : Journal.Keeper :=
  { config := Auditing.sampleConfig, key := { kid := "kid-t", seed := [4] }, rows := [],
    log :=
      { tree := {}, entries := [],
        policy :=
          { logId := "log", key := { kid := "kid-t", seed := [4] }, tsIss := .str (issOf .T),
            subRe := subPattern, allowedContentTypes := [], trusted := [],
            issuerContentTypes := [], trustKeysVersion := "", policyStatement := noStatement,
            policyHash := "" } } }

def sampleAgent : Backlog.Agent :=
  Backlog.start { policyExpiresAt := 10 } sampleThird
    { role := .U, logId := "log", tsPublicKey := hex [4] }

/-- Nothing was asked yet; the record is that of no request. -/
def sampleDesk : Desk :=
  { agent := sampleAgent,
    record :=
      { sub := "", attemptId := "", mode := .observe, startedAt := 0, source := "",
        modelKind := "", governance := "", labScenario := none, contract := noStatement,
        private_ := { salt := "", requestHash := "" } } }

end StoredResponses
