import Custody.StoredResponses

/-!
# Requests in which something raises

From its first write on, a request is one `try` statement, and its handler takes the
response back. A record that has a response shows what let it through, and a request
in which something raised leaves no such record behind.
-/

namespace FailedRequests

open PyValue HexBytes CanonicalJson CanonicalForm Commitments Statements Schemas TransparencyLog
  Identity UserGate Effects Requests ResponseRelease StoredResponses
open Backlog (requestKey)
open Retention (requestHead like)

variable {K : Primitives} {A : Setup} {O : Outside}

/-- What stands in a record that has a response: the gate let it through, after nothing that
forbids it was noticed. Outside observe mode no check failed, the required ones passed, and the
answer held the model operator's receipt for this attempt; strict mode has a passed verdict. -/
structure Guarded (K : Primitives) (A : Setup) (q : Call) (wire : Value) (sights : List Sight)
    (r : Record) : Prop where
  decided : r.state = .decided .accept ∨ r.state = .decided .acceptUnverified
  active : .cancelled ∉ sights ∧ .retired ∉ sights ∧ (r.mode ≠ .observe → .expired ∉ sights)
  enforced : r.mode ≠ .observe → r.state = .decided .accept ∧
    (∀ x ∈ r.checks, x.2.result ≠ .fail) ∧
    ∀ name ∈ requiredLocalChecks, ∃ c, (name, c) ∈ r.checks ∧ c.result = .pass
  receipted : r.mode ≠ .observe → ∃ given m, wire.get "receipt" .null = .ok given ∧
    SignedStatement.fromDict given = .ok m ∧
    Authentic K A.trust .M (.str ctReceipt) (some (.str q.sub)) m ∧
    getOr m.payload "attempt_id" = .str q.attemptId
  heard : r.mode = .strict → ∃ stmt, r.tVerdict = some stmt.toDict ∧ VerdictFor K A r.bound stmt ∧
    getOr stmt.payload "verification_status" = .str "passed"

/-- A statement that an authority check accepts was read from the answer. -/
theorem authority_read {wire : Value} {sub attemptId : String} {role : Role} {name ct : String}
    {out : Option SignedStatement × (String × Check)}
    (made : authority K A wire sub attemptId role name ct = .ok out) {stmt : SignedStatement}
    (shown : out.1 = some stmt) :
    ∃ given, wire.get name .null = .ok given ∧ SignedStatement.fromDict given = .ok stmt := by
  obtain ⟨given, enclosed, made⟩ := bind_ok.mp made
  refine ⟨given, enclosed, ?_⟩
  split at made
  · cases made
    cases shown
  · split at made
    next stmt' accepted =>
      cases made
      obtain rfl := Option.some.inj shown
      obtain ⟨stmt, authentic, bound⟩ := bind_ok.mp accepted
      obtain ⟨attempt, -, bound⟩ := bind_ok.mp bound
      split at bound
      · cases bound
        exact authenticate_read authentic
      · cases bound
    next e refused =>
      split at made
      all_goals cases made
      all_goals cases shown

theorem examine_read {r : Record} {wire response : Value} {commit : String} {receivedAt : Int}
    {x : Examined} (made : examine K A r wire response commit receivedAt = .ok x)
    {m : SignedStatement} (shown : x.m = some m) :
    ∃ given, wire.get "receipt" .null = .ok given ∧ SignedStatement.fromDict given = .ok m := by
  simp only [examine, bind_ok, pure_ok, Except.ok.injEq] at made
  obtain ⟨ofM, hm, ofR, -, gate, -, own, -, rfl⟩ := made
  exact authority_read hm shown

/-- What the gate released is guarded. -/
theorem guarded_of_released {q : Call} {wire : Value} {r : Record} {sights : List Sight}
    (prepared : Prepared K A q r) (released : Released K A q wire r sights) :
    Guarded K A q wire sights r := by
  refine ⟨released.decided, ⟨released.active.1, released.active.2, ?_⟩, ?_, ?_, released.heard⟩
  · exact fun mode => (released.enforced mode).2.1
  · intro mode
    obtain ⟨accepted, -, clean, passed⟩ := released.enforced mode
    exact ⟨accepted, clean.unfailed, passed⟩
  · intro mode
    obtain ⟨_, _, _, x, _, m, -, -, -, -, examined, shown, -, receipted⟩ := released.receipted mode
    obtain ⟨given, enclosed, read⟩ := examine_read examined shown
    exact ⟨given, m, enclosed, read, prepared.sub ▸ receipted.authentic,
      receipted.attempt.trans (by rw [prepared.attempt])⟩

/-- The write that comes last was on disk when it raised. -/
def Late (O : Outside) (s : Desk) : Prop := ∃ n, s.tick = n + 1 ∧ (O.moment n).late.isSome = true

/-- What a write stores, and that it stores nothing if it raises before it is on disk. -/
theorem ends_stored (f : Backlog.Agent → Py Backlog.Agent) (s : Desk) :
    Ends (writing K O f) s
      (fun _ s' => ∃ agent, agent.kv = s.agent.kv ∧ f agent = .ok s'.agent)
      (fun s' => s'.agent.kv = s.agent.kv ∨ Late O s') := by
  apply Ends.bind (M := fun m s' => m = O.moment s.tick ∧ s'.tick = s.tick + 1 ∧
    s'.agent.kv = s.agent.kv)
  · apply Ends.bind (M := fun m s' => m = O.moment s.tick ∧ s'.tick = s.tick + 1 ∧
      s'.agent.kv = s.agent.kv)
    · exact ⟨rfl, rfl, nets_rows _ _⟩
    · rintro m s₁ ⟨rfl, ticked, same⟩
      cases (O.moment s.tick).failure with
      | some stop => exact ends_throw (.inl same)
      | none => exact ends_pure ⟨rfl, ticked, same⟩
  rintro m s₁ ⟨rfl, ticked, same⟩
  apply ends_get_bind
  apply Ends.bind (M := fun after s' => s' = s₁ ∧ f s₁.agent = .ok after)
    (ends_ofPy (fun _ done => ⟨rfl, done⟩) (.inl same))
  rintro after s₁ ⟨rfl, done⟩
  apply ends_modify_bind
  cases late : (O.moment s.tick).late with
  | some stop => exact ends_throw (.inr ⟨s.tick, ticked, by rw [late]; rfl⟩)
  | none => exact ends_pure ⟨s₁.agent, same, done⟩

/-- What the last write of a request leaves in the store. -/
theorem conclude_stored (s : Desk) :
    Ends (conclude K O) s
      (fun _ s' => s'.agent.kv.lookup (requestKey s'.record.sub) =
        some (canon (.dict s'.record.toDict)))
      (fun s' => s'.agent.kv = s.agent.kv ∨ Late O s') := by
  apply Ends.bind (M := fun _ s' => s'.agent.kv = s.agent.kv)
  · exact nets_rows _ _
  intro t s₁ same
  apply ends_get_bind
  apply ends_modify_bind
  apply Ends.bind (M := fun _ s' => s'.agent.kv.lookup (requestKey s'.record.sub) =
    some (canon (.dict s'.record.toDict)))
  · apply ends_get_bind
    apply ends_modify_bind
    apply ((ends_stored _ _).and (ends_writing _ _)).mono
    · rintro _ s' ⟨⟨agent, -, put⟩, rested⟩
      rw [rested.record, (put_rows put).2.2]
      exact AList.lookup_insert _
    · rintro s' ⟨left | late, -⟩
      · exact .inl (left.trans same)
      · exact .inr late
  · exact fun _ s₂ stored => ends_get_bind (ends_pure stored)

/-- Each row of a request is the one from before, or a record without a response. -/
def Quiet (before : AList fun _ : String => Value) (s : Desk) : Prop :=
  ∀ key, like requestHead key = true → s.agent.kv.lookup key = before.lookup key ∨
    ∃ r : Record, r.response = none ∧ key = requestKey r.sub ∧
      s.agent.kv.lookup key = some (canon (.dict r.toDict))

variable {before : AList fun _ : String => Value}

/-- Rows that were only written without a response are quiet. -/
theorem quiet_of_traced {s : Desk} (traced : Traced before s)
    (none_ : ∀ r ∈ s.written, r.response = none) : Quiet before s := by
  intro key request
  refine (traced key request).imp_right ?_
  rintro ⟨r, member, named, stored, -⟩
  exact ⟨r, none_ r member, named, stored⟩

theorem Quiet.same {s s' : Desk} (quiet : Quiet before s) (same : s'.agent.kv = s.agent.kv) :
    Quiet before s' := by
  intro key request
  rw [same]
  exact quiet key request

/-- A request that is left by an exception or cut off has given nothing away, unless that was the
last write and the record was on disk. -/
theorem quiet_where_left (q : Call) (fuel : Nat) (s : Desk) :
    Ends (request K A O q fuel) s (fun _ _ => True)
      (fun s' => Quiet s.agent.kv s' ∨ Late O s') := by
  rw [request_parts]
  apply Ends.bind (((ends_untilTry q s).made.and (traced_untilTry q s)).mono
    (fun _ _ tried => tried) ?_)
  · rintro _ s₁ ⟨⟨tried, silent, fresh⟩, traced⟩
    apply Ends.bind (((ends_tried q fuel tried silent fresh).and
      (traced_tried q fuel s₁ traced)).mono (fun _ _ ended => ended) ?_)
    · rintro _ s₂ ⟨⟨unwritten, -⟩, traced⟩
      have quiet := quiet_of_traced traced fun r member => (unwritten.written r member).2
      apply (conclude_stored s₂).mono
      · exact fun _ _ _ => trivial
      · exact fun s' left => left.imp_left quiet.same
    · rintro s' ⟨unwritten, traced⟩
      exact .inl (quiet_of_traced traced fun r member => (unwritten.written r member).2)
  · rintro s' ⟨none_, traced⟩
    refine .inl (quiet_of_traced traced fun r member => ?_)
    rw [none_] at member
    cases member

/-- The body of the `try` statement raised, and its handler was entered. -/
def BodyRaises (K : Primitives) (A : Setup) (O : Outside) (q : Call) (fuel : Nat) (s : Desk)
    (e : PyErr) : Prop :=
  ∃ s₁ s₂, untilTry K A O q s = .ok () s₁ ∧ proceed K A O q fuel s₁ = .error (.raised e) s₂

/-- The handler takes the response back and names the exception. -/
theorem ends_handled (q : Call) (e : PyErr) (s : Desk) :
    Ends (abandon K O q e) s (fun _ s' => s'.record.state = failedState e ∧
      s'.record.error = some (errorText K O e)) (fun _ => True) := by
  apply ends_modify_bind
  apply (steady_event _ _ _ _).mono
  · intro _ s' passed
    rw [passed.record]
    exact ⟨rfl, rfl⟩
  · exact fun _ _ => trivial

/-- How a request ends whose body raised: no record of it was written with a response, and the
last of them names the exception. -/
structure Failed (K : Primitives) (O : Outside) (e : PyErr) (s : Desk) : Prop where
  written : ∀ r ∈ s.written, r.response = none
  response : s.record.response = none
  state : s.record.state = failedState e
  error : s.record.error = some (errorText K O e)

theorem ends_failed {q : Call} {fuel : Nat} {s : Desk} {e : PyErr}
    (raises : BodyRaises K A O q fuel s e) :
    Ends (request K A O q fuel) s (fun _ => Failed K O e)
      (fun s' => ∀ r ∈ s'.written, r.response = none) := by
  obtain ⟨s₁, s₂, tried, raised⟩ := raises
  obtain ⟨silent, fresh⟩ := (ends_untilTry q s).returns tried
  have unwritten := (ends_proceed q fuel silent fresh).raises raised
  have handled : catching (proceed K A O q fuel) (abandon K O q) s₁ = abandon K O q e s₂ := by
    rw [catching, raised]
  have same : request K A O q fuel s = (abandon K O q e >>= fun _ => conclude K O) s₂ := by
    rw [request_parts, bind_of_ok tried]
    exact bind_of_eq handled
  rw [Ends, same, ← Ends]
  apply Ends.bind (((ends_abandon q e unwritten).and (ends_handled q e s₂)).mono
    (fun _ _ left => left) fun s' left r member => (left.1.written r member).2)
  rintro _ s₃ ⟨silent, state, error⟩
  have last : ∀ s', Concluded s₃ s' → s'.record.response = none ∧
      ∀ r ∈ s'.written, r.response = none := by
    intro s' concluded
    obtain ⟨elapsed, record⟩ := concluded.record
    have none_ : s'.record.response = none := by
      rw [record]
      exact silent.response
    refine ⟨none_, fun r member => ?_⟩
    rw [concluded.written] at member
    rcases List.mem_append.mp member with member | member
    · exact (silent.written r member).2
    · rw [List.mem_singleton.mp member]
      exact none_
  apply (ends_conclude s₃).mono
  · rintro _ s' ⟨concluded, -⟩
    obtain ⟨elapsed, record⟩ := concluded.record
    refine ⟨(last s' concluded).2, (last s' concluded).1, ?_, ?_⟩
    · rw [record]
      exact state
    · rw [record]
      exact error
  · exact fun s' concluded => (last s' concluded).2

theorem public_response (r : Record) :
    find (publicOf r.toDict) (.str "response") = some (optionText r.response) := rfl

/-- A request returns the public part of its record, which is also what its row then holds. -/
structure Returned (q : Call) (shown : Dict) (s : Desk) : Prop where
  public_ : shown = publicOf s.record.toDict
  response : find shown (.str "response") = some (optionText s.record.response)
  written : s.record ∈ s.written
  stored : s.agent.kv.lookup (requestKey q.sub) = some (canon (.dict s.record.toDict))

theorem ends_returned (q : Call) (fuel : Nat) (s : Desk) :
    Ends (request K A O q fuel) s (Returned q) (fun _ => True) := by
  rw [request_parts]
  apply Ends.bind ((ends_untilTry q s).made.mono (fun _ _ tried => tried) fun _ _ => trivial)
  rintro _ s₁ ⟨tried, silent, fresh⟩
  apply Ends.bind ((ends_tried q fuel tried silent fresh).mono (fun _ _ ended => ended)
    fun _ _ => trivial)
  rintro _ s₂ ⟨unwritten, -⟩
  apply ((ends_conclude s₂).and (conclude_stored s₂)).mono
  · rintro shown s₃ ⟨⟨concluded, rfl⟩, stored⟩
    obtain ⟨elapsed, record⟩ := concluded.record
    have own : s₃.record.sub = q.sub := by
      rw [record]
      exact unwritten.record.sub
    refine ⟨rfl, public_response _, ?_, own ▸ stored⟩
    rw [concluded.written]
    exact List.mem_append_right _ List.mem_cons_self
  · exact fun _ _ => trivial

/-- In every run of a request: what it writes goes to its row, each record that it writes has no
response or is guarded, and what it returns is such a record. Where the body raises no record
has a response, and the last one says so; where the request itself is left its row has none,
unless it was left by its last write with the record on disk. -/
theorem responses_guarded (q : Call) (fuel : Nat) (s : Desk) :
    let s' := final (request K A O q fuel s)
    Traced s.agent.kv s' ∧
    (∀ r ∈ s'.written, Prepared K A q r ∧ (r.response = none ∨
      ∃ wire, Replied K A O q s wire ∧ Guarded K A q wire s'.sights r)) ∧
    (∀ shown s₁, request K A O q fuel s = .ok shown s₁ → Returned q shown s₁) ∧
    (∀ e, BodyRaises K A O q fuel s e → (∀ r ∈ s'.written, r.response = none) ∧
      ∀ shown s₁, request K A O q fuel s = .ok shown s₁ → Failed K O e s₁) ∧
    ∀ stop s₁, request K A O q fuel s = .error stop s₁ → Quiet s.agent.kv s₁ ∨ Late O s₁ := by
  refine ⟨traced_request q fuel s, ?_, ?_, ?_, ?_⟩
  · intro r member
    have accounted := (ends_request (K := K) (A := A) (O := O) q fuel s).final
      (P := fun s' => ∀ r ∈ s'.written, Accounted K A O q s s'.sights r)
      (fun _ _ known => known.2) fun _ known => known
    obtain ⟨prepared, given⟩ := accounted r member
    refine ⟨prepared, given.imp_right ?_⟩
    rintro ⟨wire, replied, released⟩
    exact ⟨wire, replied, guarded_of_released prepared released⟩
  · exact fun shown s₁ done => (ends_returned q fuel s).returns done
  · intro e raises
    refine ⟨(ends_failed raises).final (fun _ _ failed => failed.written) fun _ left => left, ?_⟩
    exact fun shown s₁ done => (ends_failed raises).returns done
  · exact fun stop s₁ left => (quiet_where_left q fuel s).raises left

end FailedRequests
