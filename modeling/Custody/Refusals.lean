import Custody.AtMostOnce

/-!
# Refused before anything has started

The store answers, and a call of `infer` raises without having started the model or the
call upstream. Up to the claim of the nonce nothing has been written. Three checks stand
behind the two writes, and a request that one of them refuses is never executed.
-/

namespace Refusals

open PyValue HexBytes CanonicalJson CanonicalForm Commitments Statements Schemas Identity Delivery
  Effects Execution ClaimedOnce AtMostOnce

variable {K : Primitives} {O : Operator} {S : Machine} {p : Value} {how : Conditions}

/-- Every access succeeds. The flush loop may still run before it. -/
def Calm (how : Conditions) : Prop :=
  ∀ place, (how.store place).failure = none ∧ (how.store place).late = none

/-- The state once the flush loop has run. -/
def flushed (d : Disturbance) (S : Machine) : Machine := { S with sender := d.flushed S.sender }

theorem touch_calm {A : Type} {d : Disturbance} {operation : Machine → Py (A × Machine)}
    (calm : d.failure = none ∧ d.late = none) {returned : A → Machine → Prop}
    {raised : Machine → Prop}
    (done : ∃ a next, operation (flushed d S) = .ok (a, next) ∧ returned a next) :
    Ends (touch d operation) S returned raised := by
  obtain ⟨a, next, result, good⟩ := done
  rw [flushed] at result
  simpa only [Ends, touch, calm.1, calm.2, result] using good

section accesses

variable {d : Disturbance} (calm : d.failure = none ∧ d.late = none) {raised : Machine → Prop}
include calm

theorem calm_get (key : String) :
    Ends (get d key) S (fun v S' => v = (S.kv.lookup key).getD .null ∧ S' = flushed d S)
      raised :=
  touch_calm calm ⟨_, _, rfl, rfl, rfl⟩

theorem calm_count (head : String) :
    Ends (count d head) S
      (fun n S' => n = (S.kv.keys.filter fun key => startsWith key head).length ∧
        S' = flushed d S) raised :=
  touch_calm calm ⟨_, _, rfl, rfl, rfl⟩

theorem calm_pending :
    Ends (pending d) S
      (fun n S' => n = (d.flushed S.sender).outbox.length ∧ S' = flushed d S) raised :=
  touch_calm calm ⟨_, _, rfl, rfl, rfl⟩

theorem calm_claim (key text : String) :
    Ends (claim d key (.str text)) S
      (fun new S' => (new = false ∧ key ∈ S.kv ∧ S' = flushed d S) ∨
        new = true ∧ key ∉ S.kv ∧
          S' = { flushed d S with kv := S.kv.insert key (canon (.str text)) }) raised := by
  have written : ∃ b, canonicalJson (.str text) = .ok b := ⟨_, rfl⟩
  obtain ⟨b, written⟩ := written
  by_cases known : key ∈ S.kv
  · refine touch_calm calm ⟨false, flushed d S, ?_, .inl ⟨rfl, known, rfl⟩⟩
    have known' : key ∈ (flushed d S).kv := known
    simp only [written, ok_bind, if_pos known', pure_ok]
  · refine touch_calm calm ⟨true, _, ?_, .inr ⟨rfl, known, rfl⟩⟩
    have known' : key ∉ (flushed d S).kv := known
    simp only [written, ok_bind, if_neg known', pure_ok]
    rfl

theorem calm_put {value : Value} (key : String) (written : ∃ b, canonicalJson value = .ok b) :
    Ends (put d key value) S
      (fun _ S' => S' = { flushed d S with kv := S.kv.insert key (canon value) }) raised := by
  obtain ⟨b, written⟩ := written
  refine touch_calm calm ⟨(), _, ?_, rfl⟩
  simp only [written, ok_bind, pure_ok]
  rfl

end accesses

/-- The records that `infer` counts. -/
def executions (S : Machine) : Nat :=
  (S.kv.keys.filter fun key => startsWith key "execution:").length

/-- The store lets the request pass, so that its nonce is claimed and its execution recorded. -/
structure Reserves (O : Operator) (S : Machine) (q : Request) (nonce : String) : Prop where
  room : executions S < O.maxRequests
  named : (getItem q.contract.payload "nonce" >>= textOf) = .ok nonce
  fresh : Fresh S q nonce

/-- The items of evidence in the queue by the time that `infer` counts them. -/
def waiting (how : Conditions) (S : Machine) : Nat :=
  (flushed (how.store .pending) (flushed (how.store .record) (flushed (how.store .claim)
    (flushed (how.store .count) (flushed (how.store .previous) S))))).sender.outbox.length

/-- Where a call with a calm store ends. -/
inductive Outcome (K : Primitives) (O : Operator) (S : Machine) (p : Value) (how : Conditions)
    (S' : Machine) : Prop where
  | stopped (none : ∀ q nonce, accept K O p how.retired how.now = .ok q → ¬ Reserves O S q nonce)
      (at_ : At S.kv S.started S') : Outcome K O S p how S'
  | late (q : Request) (nonce : String) (accepted : accept K O p how.retired how.now = .ok q)
      (reserves : Reserves O S q nonce) (refused : 250 ≤ waiting how S ∨ ¬ Permits O q p)
      (at_ : At (recordedRows K S q nonce) S.started S') : Outcome K O S p how S'
  | executed (q : Request) (nonce : String) (accepted : accept K O p how.retired how.now = .ok q)
      (reserves : Reserves O S q nonce) (room : waiting how S < 250) (permits : Permits O q p)
      (grown : S'.started = S.started ++ [startOf q nonce]) : Outcome K O S p how S'

/-- The request passes everything up to the two writes, and is refused behind them. -/
def LateRefusal (K : Primitives) (O : Operator) (S : Machine) (p : Value) (how : Conditions) :
    Prop :=
  ∃ q nonce, accept K O p how.retired how.now = .ok q ∧ Reserves O S q nonce ∧
    (250 ≤ waiting how S ∨ ¬ Permits O q p)

theorem reserves_unique {q : Request} {nonce nonce' : String} (one : Reserves O S q nonce)
    (other : Reserves O S q nonce') : nonce = nonce' :=
  Except.ok.inj (one.named.symm.trans other.named)

theorem started_written (q : Request) : ∃ b, canonicalJson (startedRecord K q) = .ok b := by
  have checked : check "$" (startedRecord K q) = .ok () := by
    have binding : isAscii "binding" = true := by decide
    have status : isAscii "status" = true := by decide
    simp [startedRecord, fields, check, checkDict, binding, status]
  exact ⟨_, by rw [canonicalJson, checked, ok_bind]; rfl⟩

/-- Reserving fails with nothing written, or with both rows written since the queue is full. -/
theorem calm_reserve {q : Request} (calm : Calm how)
    (unrecorded : ((S.kv.lookup (executionKey q.sub)).getD .null).truthy = false) :
    Ends (reserve K O q how) (flushed (how.store .previous) S)
      (fun nonce S' => Reserves O S q nonce ∧ waiting how S < 250 ∧
        At (recordedRows K S q nonce) S.started S')
      (fun S' => (∀ nonce, ¬ Reserves O S q nonce) ∧ At S.kv S.started S' ∨
        ∃ nonce, Reserves O S q nonce ∧ 250 ≤ waiting how S ∧
          At (recordedRows K S q nonce) S.started S') := by
  rw [reserve]
  apply Ends.bind (calm_count (calm .count) _)
  rintro used S₁ ⟨rfl, rfl⟩
  split
  next full =>
    refine ends_throw (.inl ⟨fun nonce reserves => ?_, rfl, rfl⟩)
    exact absurd reserves.room (Nat.not_lt.mpr full)
  next room =>
  have room : executions S < O.maxRequests := Nat.lt_of_not_le room
  apply @Ends.bind _ _ _ _ _ _ _ fun nonce S' =>
    (getItem q.contract.payload "nonce" >>= textOf) = .ok nonce ∧
      S' = flushed (how.store .count) (flushed (how.store .previous) S)
  · cases named : (getItem q.contract.payload "nonce" >>= textOf) with
    | ok nonce => exact ⟨rfl, rfl⟩
    | error e =>
      refine .inl ⟨fun nonce reserves => ?_, rfl, rfl⟩
      cases named.symm.trans reserves.named
  rintro nonce S₂ ⟨named, rfl⟩
  apply Ends.bind (calm_claim (calm .claim) (nonceKey nonce) q.sub)
  rintro new S₃ (⟨rfl, known, rfl⟩ | ⟨rfl, free, rfl⟩)
  · refine ends_throw (.inl ⟨fun nonce' reserves => ?_, rfl, rfl⟩)
    obtain rfl : nonce = nonce' := Except.ok.inj (named.symm.trans reserves.named)
    exact reserves.fresh.nonce known
  have reserves : Reserves O S q nonce := ⟨room, named, ⟨unrecorded, free⟩⟩
  apply Ends.bind (calm_put (calm .record) (executionKey q.sub) (started_written q))
  rintro _ S₄ rfl
  apply Ends.bind (calm_pending (calm .pending))
  rintro n S₅ ⟨rfl, rfl⟩
  split
  next full => exact ends_throw (.inr ⟨nonce, reserves, full, rfl, rfl⟩)
  next room => exact ends_pure ⟨reserves, Nat.lt_of_not_le room, rfl, rfl⟩

/-- Only a call that is refused late, or has started, leaves the rows other than they were. -/
theorem calm_infer (calm : Calm how) :
    Ends (infer K O p how) S
      (fun _ S' => Outcome K O S p how S' ∧ ¬ LateRefusal K O S p how)
      (Outcome K O S p how) := by
  rw [infer]
  apply @Ends.bind _ _ _ _ _ _ _ fun q S' =>
    accept K O p how.retired how.now = .ok q ∧ S' = S
  · cases accepted : accept K O p how.retired how.now with
    | ok q => exact ⟨rfl, rfl⟩
    | error e =>
      refine .stopped (fun q nonce accepted' => ?_) ⟨rfl, rfl⟩
      cases accepted.symm.trans accepted'
  rintro q S₁ ⟨accepted, rfl⟩
  have stopped : ∀ S', (∀ nonce, ¬ Reserves O S₁ q nonce) → At S₁.kv S₁.started S' →
      Outcome K O S₁ p how S' := by
    intro S' none at_
    refine .stopped (fun q' nonce accepted' => ?_) at_
    obtain rfl : q = q' := Except.ok.inj (accepted.symm.trans accepted')
    exact none nonce
  have onTime : (∀ nonce, Reserves O S₁ q nonce → waiting how S₁ < 250 ∧ Permits O q p) →
      ¬ LateRefusal K O S₁ p how := by
    rintro passes ⟨q', nonce, accepted', reserves, refused⟩
    obtain rfl : q = q' := Except.ok.inj (accepted.symm.trans accepted')
    obtain ⟨room, permits⟩ := passes nonce reserves
    rcases refused with full | refused
    · exact absurd room (Nat.not_lt.mpr full)
    · exact refused permits
  apply Ends.bind (calm_get (calm .previous) (executionKey q.sub))
  rintro previous S₂ ⟨found, rfl⟩
  split
  next truthy =>
    have none : ∀ nonce, ¬ Reserves O S₁ q nonce := by
      intro nonce reserves
      rw [found, reserves.fresh.record] at truthy
      cases truthy
    have known := stopped (flushed (how.store .previous) S₁) none ⟨rfl, rfl⟩
    exact ends_lift (fun _ _ => ⟨known, onTime fun nonce reserves => absurd reserves (none nonce)⟩)
      known
  next untruthy =>
  have unrecorded : ((S₁.kv.lookup (executionKey q.sub)).getD .null).truthy = false := by
    rw [← found]
    simpa using untruthy
  apply Ends.bind ((calm_reserve calm unrecorded).mono (fun _ _ kept => kept) ?_)
  · rintro nonce S₃ ⟨reserves, room, at₃⟩
    have executed : ∀ S' : Machine, Permits O q p →
        S'.started = S₁.started ++ [startOf q nonce] → Outcome K O S₁ p how S' :=
      fun S' permits grown => .executed q nonce accepted reserves room permits grown
    apply Ends.bind ((ends_execute at₃).mono (fun _ _ ended => ended) ?_)
    · rintro r S₄ ⟨permits, at₄⟩
      have storing := ends_put (how.store .finish) (executionKey q.sub) (completedRecord K q r) at₄
      apply Ends.bind (storing.mono (fun _ _ at_ => at_) ?_)
      · intro u S₅ at₅
        exact ends_pure ⟨executed S₅ permits at₅.started, onTime fun _ _ => ⟨room, permits⟩⟩
      · rintro S₅ (at₅ | at₅)
        · exact executed S₅ permits at₅.started
        · exact executed S₅ permits at₅.started
    · rintro S₄ (⟨refused, at₄⟩ | ⟨permits, at₄⟩)
      · exact .late q nonce accepted reserves (.inr refused) at₄
      · exact executed S₄ permits at₄.started
  · rintro S₃ (⟨none, at₃⟩ | ⟨nonce, reserves, full, at₃⟩)
    · exact stopped S₃ none at₃
    · exact .late q nonce accepted reserves (.inl full) at₃

theorem outcome_final (calm : Calm how) :
    Outcome K O S p how (final (infer K O p how S)) := by
  have ends := calm_infer (K := K) (O := O) (S := S) (p := p) calm
  cases done : infer K O p how S with
  | ok r S' => exact (ends.returns done).1
  | error e S' => exact ends.raises done

theorem not_refused {q : Request} (room : waiting how S < 250) (permits : Permits O q p) :
    ¬ (250 ≤ waiting how S ∨ ¬ Permits O q p) := by
  rintro (full | refused)
  · exact absurd room (Nat.not_lt.mpr full)
  · exact refused permits

/-- A call that is refused late has written both rows and started nothing. -/
theorem late_outcome {S' : Machine} (outcome : Outcome K O S p how S')
    (late : LateRefusal K O S p how) :
    ∃ q nonce, accept K O p how.retired how.now = .ok q ∧ Reserves O S q nonce ∧
      At (recordedRows K S q nonce) S.started S' := by
  obtain ⟨q, nonce, accepted, reserves, refused⟩ := late
  cases outcome with
  | stopped none at_ => exact absurd reserves (none q nonce accepted)
  | late q' nonce' accepted' reserves' refused' at_ =>
    exact ⟨q', nonce', accepted', reserves', at_⟩
  | executed q' nonce' accepted' reserves' room permits grown =>
    obtain rfl : q = q' := Except.ok.inj (accepted.symm.trans accepted')
    exact absurd refused (not_refused room permits)

theorem rows_kept {S' : Machine} (outcome : Outcome K O S p how S')
    (unstarted : S'.started = S.started) (onTime : ¬ LateRefusal K O S p how) :
    S'.kv = S.kv := by
  cases outcome with
  | stopped none at_ => exact at_.kv
  | late q nonce accepted reserves refused at_ =>
    exact absurd ⟨q, nonce, accepted, reserves, refused⟩ onTime
  | executed q nonce accepted reserves room permits grown =>
    have lengths := congrArg List.length (grown.symm.trans unstarted)
    simp at lengths

/-- A request that passes every check is executed. -/
theorem executed_of_passing {q : Request} {nonce : String} (calm : Calm how)
    (accepted : accept K O p how.retired how.now = .ok q) (reserves : Reserves O S q nonce)
    (room : waiting how S < 250) (permits : Permits O q p) :
    (final (infer K O p how S)).started = S.started ++ [startOf q nonce] := by
  have ended : Outcome K O S p how (final (infer K O p how S)) := outcome_final calm
  cases ended with
  | stopped none at_ => exact absurd reserves (none q nonce accepted)
  | late q' nonce' accepted' reserves' refused at_ =>
    obtain rfl : q = q' := Except.ok.inj (accepted.symm.trans accepted')
    exact absurd refused (not_refused room permits)
  | executed q' nonce' accepted' reserves' room' permits' grown =>
    obtain rfl : q = q' := Except.ok.inj (accepted.symm.trans accepted')
    obtain rfl := reserves_unique reserves reserves'
    exact grown

/-- `ValueError("execution outcome unknown …")`. -/
def unknownOutcome : PyErr :=
  .valueError "execution outcome unknown after interruption; no automatic re-execution"

theorem nonce_recorded {q : Request} {nonce : String} :
    nonceKey nonce ∈ recordedRows K S q nonce := by
  rw [recordedRows, AList.mem_insert]
  exact .inr (AList.mem_insert _ |>.mpr (.inl rfl))

/-- Nothing was executed, and every later call for the request is told that the outcome of its
execution is unknown. -/
theorem unknown_after_late {q : Request} {nonce : String} {S' : Machine}
    (recorded : S'.kv = recordedRows K S q nonce) (calm : Calm how)
    (accepted : accept K O p how.retired how.now = .ok q) :
    ∃ S'', infer K O p how S' = .error unknownOutcome S'' ∧ At S'.kv S'.started S'' := by
  have found : S'.kv.lookup (executionKey q.sub) = some (canon (startedRecord K q)) := by
    rw [recorded, recordedRows, AList.lookup_insert]
  have canonical : canon (startedRecord K q) = startedRecord K q := by
    have order : keyLt (.str "status") (.str "binding") = false := by decide
    simp [startedRecord, fields, canon, canonDict, sortKeys, insertKey, order]
  have recalled : recallStored K q (startedRecord K q) = .error unknownOutcome := by
    simp [recallStored, startedRecord, fields, Value.item, find, Value.eq, Value.scalarEq,
      unknownOutcome]
  have truthy : (startedRecord K q).truthy = true := rfl
  rw [canonical] at found
  refine ⟨flushed (how.store .previous) S', ?_, ⟨rfl, rfl⟩⟩
  have read : get (how.store .previous) (executionKey q.sub) S' =
      .ok (startedRecord K q) (flushed (how.store .previous) S') := by
    simp only [Execution.get, touch, (calm .previous).1, (calm .previous).2, found,
      Option.getD_some, flushed]
  rw [infer, accepted]
  change EStateM.bind (get (how.store .previous) (executionKey q.sub)) _ S' = _
  rw [EStateM.bind, read]
  simp only [truthy, if_true]
  rw [recalled]
  rfl

/-- What a refusal should leave: the same rows, so that whatever could be executed before can
be executed now. -/
structure Untouched (K : Primitives) (O : Operator) (S S' : Machine) : Prop where
  rows : S'.kv = S.kv
  again : ∀ p how q nonce, Calm how → accept K O p how.retired how.now = .ok q →
    Reserves O S q nonce → waiting how S' < 250 → Permits O q p →
    (final (infer K O p how S')).started = S'.started ++ [startOf q nonce]

def Traceless (K : Primitives) (O : Operator) (S : Machine) (p : Value) (how : Conditions) :
    Prop :=
  ∀ e S', infer K O p how S = .error e S' → S'.started = S.started → Untouched K O S S'

theorem reserves_of_rows {S' : Machine} {q : Request} {nonce : String} (rows : S'.kv = S.kv)
    (reserves : Reserves O S q nonce) : Reserves O S' q nonce := by
  obtain ⟨room, named, record, free⟩ := reserves
  exact ⟨by rwa [executions, rows], named, by rwa [rows], by rwa [rows]⟩

theorem late_traces (calm : Calm how) (late : LateRefusal K O S p how) :
    ∃ e S', infer K O p how S = .error e S' ∧ S'.started = S.started ∧
      ∃ q nonce, accept K O p how.retired how.now = .ok q ∧ nonceKey nonce ∉ S.kv ∧
        S'.kv = recordedRows K S q nonce := by
  have ends := calm_infer (K := K) (O := O) (S := S) (p := p) calm
  cases done : infer K O p how S with
  | ok r S' => exact absurd late (ends.returns done).2
  | error e S' =>
    obtain ⟨q, nonce, accepted, reserves, at_⟩ := late_outcome (ends.raises done) late
    exact ⟨e, S', rfl, at_.started, q, nonce, accepted, reserves.fresh.nonce, at_.kv⟩

theorem late_not_traceless (calm : Calm how) (late : LateRefusal K O S p how) :
    ¬ Traceless K O S p how := by
  intro traceless
  obtain ⟨e, S', done, unstarted, q, nonce, -, free, rows⟩ := late_traces calm late
  apply free
  rw [← (traceless e S' done unstarted).rows, rows]
  exact nonce_recorded

/-- A refusal leaves no trace exactly if it is none of the three behind the claim of the nonce. -/
theorem traceless_iff (O : Operator) (S : Machine) (p : Value) (how : Conditions)
    (calm : Calm how) : Traceless K O S p how ↔ ¬ LateRefusal K O S p how := by
  constructor
  · exact fun traceless late => late_not_traceless calm late traceless
  · intro onTime e S' done unstarted
    have outcome : Outcome K O S p how S' := (calm_infer calm).raises done
    have rows := rows_kept outcome unstarted onTime
    refine ⟨rows, fun p' how' q nonce calm' accepted reserves room permits => ?_⟩
    exact executed_of_passing calm' accepted (reserves_of_rows rows reserves) room permits

def sampleRelay : Operator := { sampleOperator with role := .R }

def tamperPayload : Value :=
  match samplePayload with
  | .dict kvs => .dict (kvs ++ fields [("scenario", .str "response_tamper")])
  | v => v

theorem sampleConditions_calm (now : Int) : Calm (sampleConditions now) :=
  fun _ => ⟨rfl, rfl⟩

/-- An expired contract is refused before anything is written. -/
theorem traceless_expired :
    Traceless toy sampleRelay { sender := sampleSender } samplePayload
      (sampleConditions 6000) := by
  apply (traceless_iff sampleRelay _ _ _ (sampleConditions_calm 6000)).mpr
  rintro ⟨q, nonce, accepted, -⟩
  have facts := shown_facts
  simp only [shown, Prod.mk.injEq, decide_eq_false_iff_not] at facts
  exact facts.2.2.2 ⟨q, accepted⟩

theorem tamper_late : ∃ q, LateRefusal toy sampleRelay { sender := sampleSender } tamperPayload
      (sampleConditions 10) ∧
    accept toy sampleRelay tamperPayload false 10 = .ok q ∧
    accept toy sampleRelay samplePayload false 20 = .ok q := by
  have facts := shown_facts
  simp only [shown, Prod.mk.injEq] at facts
  obtain ⟨once, -, holds, -⟩ := facts
  obtain ⟨q, accepted, valid⟩ := bind_ok.mp holds
  have valid₁ := ((accept_again accepted rfl rfl rfl).mp accepted).2
  have tampered : accept toy sampleOperator tamperPayload false 10 = .ok q :=
    (accept_again accepted rfl rfl rfl).mpr ⟨rfl, valid₁⟩
  have later : accept toy sampleOperator samplePayload false 20 = .ok q :=
    (accept_again accepted rfl rfl rfl).mpr ⟨rfl, valid⟩
  have outcome : Outcome toy sampleOperator { sender := sampleSender } samplePayload
      (sampleConditions 10) (final afterFirst) := outcome_final (sampleConditions_calm 10)
  refine ⟨q, ?_, tampered, later⟩
  cases outcome with
  | stopped none at_ => simp [at_.started] at once
  | late q' nonce accepted' reserves refused at_ => simp [at_.started] at once
  | executed q' nonce accepted' reserves room permits grown =>
    refine ⟨q', nonce, ?_, ⟨reserves.room, reserves.named, reserves.fresh⟩, .inr ?_⟩
    · rw [← Except.ok.inj (accepted.symm.trans accepted')]
      exact tampered
    · rintro ⟨scenario, chosen⟩
      cases chosen

/-- A relay refuses a fault it should inject, and has then spent the request. -/
theorem tamper_refused_for_good :
    ¬ Traceless toy sampleRelay { sender := sampleSender } tamperPayload (sampleConditions 10) ∧
    ∃ e S₁ S₂, infer toy sampleRelay tamperPayload (sampleConditions 10)
        { sender := sampleSender } = .error e S₁ ∧ S₁.started = [] ∧
      infer toy sampleRelay samplePayload (sampleConditions 20) S₁ =
        .error unknownOutcome S₂ := by
  obtain ⟨q, late, accepted, later⟩ := tamper_late
  have calm := sampleConditions_calm 10
  refine ⟨late_not_traceless calm late, ?_⟩
  obtain ⟨e, S₁, refused, unstarted, q', nonce, accepted', -, rows⟩ := late_traces calm late
  obtain rfl : q = q' := Except.ok.inj (accepted.symm.trans accepted')
  obtain ⟨S₂, unknown, -⟩ := unknown_after_late rows (sampleConditions_calm 20) later
  exact ⟨e, S₁, S₂, refused, unstarted, unknown⟩

end Refusals
