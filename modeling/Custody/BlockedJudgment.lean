import Custody.RegisteredEvidence
import Custody.WithoutEvidence

/-!
# Registered statements that block a judgment

Registration looks at presence and a few formats, so a registered field can have
a type the engine cannot use. The engine returns on a reachable log exactly when
the latest statements of the request are judgeable.
-/

namespace BlockedJudgment

open PyValue HexBytes Commitments Statements Schemas Evidence Equations EquationMeaning Engine
  EngineMeaning TransparencyLog LogInvariant Judgeability RegisteredEvidence PassedVerdict
  WithoutEvidence

variable {K : Primitives}

/-- Trusted key, issuer and right all hold. -/
def entitled (K : Primitives) (engine : ReconciliationEngine) (s : SignedStatement) : Bool :=
  (match find engine.trustedKeys s.kid with
    | some (iss, publicKey) => iss.eq s.iss && (match s.verifyWith K publicKey with
      | .ok valid => valid
      | .error _ => false)
    | none => false) &&
  memberOf s.contentType ((find engine.issuerContentTypes s.iss).getD [])

/-- The receipt that stands in for a registered one. -/
def shownReceipt (K : Primitives) (engine : ReconciliationEngine) (presented : Value) :
    Option SignedStatement :=
  match SignedStatement.fromDict presented with
  | .error _ => none
  | .ok s => if s.contentType.eq (.str ctReceipt) && entitled K engine s then some s else none

/-- A shown receipt that can be checked without raising. -/
structure ReadableReceipt (K : Primitives) (engine : ReconciliationEngine) (s : SignedStatement) :
    Prop where
  kid : s.kid.hashable = true
  /-- Where the key is one of this issuer's, the signature is empty or text, and a
  hexadecimal one stands on a header that can be written. -/
  signature : ∀ iss publicKey, find engine.trustedKeys s.kid = some (iss, publicKey) →
    iss.eq s.iss = true → s.signature.truthy = true →
    ∃ text, s.signature = .str text ∧ ((fromHex text).isSome = true → Returns s.toBeSigned)
  issuer : ∀ iss publicKey, find engine.trustedKeys s.kid = some (iss, publicKey) →
    iss.eq s.iss = true → s.verifyWith K publicKey = .ok true → s.iss.hashable = true

theorem verifyWith_returns {s : SignedStatement} {publicKey : Bytes} :
    Returns (s.verifyWith K publicKey) ↔ (s.signature.truthy = true →
      ∃ text, s.signature = .str text ∧ ((fromHex text).isSome = true → Returns s.toBeSigned)) := by
  rw [SignedStatement.verifyWith]
  by_cases signed : s.signature.truthy = true
  · simp only [signed, Bool.not_true, Bool.false_eq_true, if_false, forall_true_left]
    cases h : s.signature with
    | str text =>
      simp only [Value.str.injEq]
      cases read : fromHex text with
      | none => simp [read]
      | some sig =>
        rw [returns_bind]
        constructor
        · rintro ⟨message, hm, -⟩
          exact ⟨text, rfl, fun _ => ⟨message, hm⟩⟩
        · rintro ⟨text', rfl, written⟩
          obtain ⟨message, hm⟩ := written (by simp [read])
          exact ⟨message, hm, by simp⟩
    | _ => simp
  · simp [signed]

theorem verifies_known {engine : ReconciliationEngine} {s : SignedStatement}
    (kid : s.kid.hashable = true) : verifies K engine s =
      match find engine.trustedKeys s.kid with
      | none => .ok false
      | some (iss, publicKey) => if iss.eq s.iss then s.verifyWith K publicKey else .ok false := by
  rw [verifies, lookup, if_pos kid, ok_bind]
  cases find engine.trustedKeys s.kid <;> rfl

/-- A shown receipt is taken in, or left out, exactly when it is readable. -/
theorem acceptPresented_returns {engine : ReconciliationEngine} {ev : EvidenceSet}
    {s : SignedStatement} (type : s.contentType = .str ctReceipt) :
    Returns (acceptPresented K engine ev s) ↔ ReadableReceipt K engine s := by
  have typed : s.contentType.eq (.str ctReceipt) = true := (eq_str_right _ _).mpr type
  rw [acceptPresented, typed, Bool.not_true, if_neg Bool.false_ne_true, returns_bind]
  constructor
  · rintro ⟨valid, checked, rest⟩
    have kid : s.kid.hashable = true := by
      rw [verifies] at checked
      obtain ⟨found, hl, -⟩ := bind_ok.mp checked
      exact (lookup_find hl).1
    rw [verifies_known kid] at checked
    refine ⟨kid, fun iss publicKey known bound => ?_, fun iss publicKey known bound verified => ?_⟩
    · rw [known] at checked
      simp only [bound, if_true] at checked
      exact verifyWith_returns.mp ⟨valid, checked⟩
    · rw [known] at checked
      simp only [bound, if_true, verified, Except.ok.injEq] at checked
      subst valid
      simp only [Bool.not_true, Bool.false_eq_true, if_false] at rest
      obtain ⟨permitted, ha, -⟩ := returns_bind.mp rest
      obtain ⟨rights, hl, -⟩ := bind_ok.mp ha
      exact (lookup_find hl).1
  · intro readable
    rw [verifies_known readable.kid]
    cases known : find engine.trustedKeys s.kid with
    | none => exact ⟨false, rfl, by simp⟩
    | some x =>
      obtain ⟨iss, publicKey⟩ := x
      by_cases bound : iss.eq s.iss = true
      · have checked : Returns (s.verifyWith K publicKey) :=
          verifyWith_returns.mpr (readable.signature iss publicKey known bound)
        obtain ⟨valid, verified⟩ := checked
        refine ⟨valid, by simp [bound, verified], ?_⟩
        cases valid with
        | false => simp
        | true =>
          have named := readable.issuer iss publicKey known bound verified
          obtain ⟨hash, hh⟩ := statementHash_returns (K := K) (toBeSigned_of_verified verified)
          simp only [Bool.not_true, Bool.false_eq_true, if_false, authorized, lookup, named,
            if_true, ok_bind, pure_ok]
          split
          · simp
          · simp [refOf, hh]
      · exact ⟨false, by simp [bound], by simp⟩

/-- The evidence with a receipt that was shown and not registered. -/
def withShown (ev : EvidenceSet) (s : SignedStatement) (ref : StatementRef) : EvidenceSet :=
  { ev with receipt := some s, receiptSource := .presentedToUser, refs := ev.refs ++ [ref] }

theorem acceptPresented_ok {engine : ReconciliationEngine} {ev next : EvidenceSet}
    {s : SignedStatement} (type : s.contentType = .str ctReceipt)
    (h : acceptPresented K engine ev s = .ok next) :
    (entitled K engine s = true ∧ Returns s.toBeSigned ∧ ∃ ref, next = withShown ev s ref) ∨
      (entitled K engine s = false ∧ next = ev) := by
  have typed : s.contentType.eq (.str ctReceipt) = true := (eq_str_right _ _).mpr type
  rw [acceptPresented, typed, Bool.not_true, if_neg Bool.false_ne_true] at h
  obtain ⟨valid, checked, h⟩ := bind_ok.mp h
  have kid : s.kid.hashable = true := by
    rw [verifies] at checked
    obtain ⟨found, hl, -⟩ := bind_ok.mp checked
    exact (lookup_find hl).1
  rw [verifies_known kid] at checked
  cases known : find engine.trustedKeys s.kid with
  | none =>
    rw [known] at checked
    obtain rfl := Except.ok.inj checked
    right
    exact ⟨by simp [entitled, known], (Except.ok.inj h).symm⟩
  | some x =>
    obtain ⟨iss, publicKey⟩ := x
    rw [known] at checked
    by_cases bound : iss.eq s.iss = true
    · simp only [bound, if_true] at checked
      cases valid with
      | false =>
        right
        exact ⟨by simp [entitled, known, checked], (Except.ok.inj h).symm⟩
      | true =>
        simp only [Bool.not_true, Bool.false_eq_true, if_false] at h
        obtain ⟨permitted, ha, h⟩ := bind_ok.mp h
        obtain ⟨rights, hl, ha⟩ := bind_ok.mp ha
        obtain ⟨-, rfl⟩ := lookup_find hl
        have same : entitled K engine s = permitted := by
          simp [entitled, known, bound, checked, ← Except.ok.inj ha]
        cases permitted with
        | false =>
          right
          exact ⟨same, (Except.ok.inj h).symm⟩
        | true =>
          left
          simp only [Bool.not_true, Bool.false_eq_true, if_false] at h
          obtain ⟨ref, hr, h⟩ := bind_ok.mp h
          exact ⟨same, toBeSigned_of_verified checked, ref, (Except.ok.inj h).symm⟩
    · simp only [bound, Bool.false_eq_true, if_false, Except.ok.injEq] at checked
      subst valid
      right
      exact ⟨by simp [entitled, known, bound], (Except.ok.inj h).symm⟩

theorem fromDict_falsy {v : Value} (falsy : v.truthy = false) {s : SignedStatement} :
    SignedStatement.fromDict v ≠ .ok s := by
  intro h
  cases v with
  | dict kvs =>
    cases kvs with
    | nil => cases h
    | cons x xs => cases falsy
  | _ => cases h

/-- Gathering the shown receipt, when none was registered, raises on an unreadable one only. -/
theorem addPresented_returns {engine : ReconciliationEngine} {ev : EvidenceSet} :
    Returns (addPresented K engine ev) ↔ (ev.receipt = none → ∀ s,
      SignedStatement.fromDict (field ev.o "presented_receipt") = .ok s →
      s.contentType = .str ctReceipt → ReadableReceipt K engine s) := by
  rw [addPresented]
  cases hr : ev.receipt with
  | some r => simp
  | none =>
    cases truth : (field ev.o "presented_receipt").truthy with
    | false =>
      simp only [Option.isSome_none, Bool.not_false, Bool.or_true, if_true, returns_ok,
        forall_true_left, true_iff]
      intro s read
      exact absurd read (fromDict_falsy truth)
    | true =>
      simp only [Option.isSome_none, Bool.not_true, Bool.or_false, Bool.false_eq_true, if_false,
        forall_true_left]
      cases read : SignedStatement.fromDict (field ev.o "presented_receipt") with
      | error e => simp [tryRead, tame_fromDict _ e read]
      | ok s =>
        simp only [tryRead, ok_bind, Except.ok.injEq, forall_eq']
        by_cases type : s.contentType = .str ctReceipt
        · rw [acceptPresented_returns type]
          simp [type]
        · have other : s.contentType.eq (.str ctReceipt) = false := by
            cases same : s.contentType.eq (.str ctReceipt) with
            | false => rfl
            | true => exact absurd ((eq_str_right _ _).mp same) type
          simp [acceptPresented, other, type]

theorem addPresented_ok {engine : ReconciliationEngine} {ev next : EvidenceSet}
    (h : addPresented K engine ev = .ok next) :
    next = ev ∧ (ev.receipt = none →
        shownReceipt K engine (field ev.o "presented_receipt") = none) ∨
    ∃ s ref, ev.receipt = none ∧ Returns s.toBeSigned ∧ next = withShown ev s ref ∧
      shownReceipt K engine (field ev.o "presented_receipt") = some s := by
  rw [addPresented] at h
  cases hr : ev.receipt with
  | some r =>
    simp only [hr, Option.isSome_some, Bool.true_or, if_true, Except.ok.injEq] at h
    exact .inl ⟨h.symm, by rintro ⟨⟩⟩
  | none =>
    cases truth : (field ev.o "presented_receipt").truthy with
    | false =>
      simp only [hr, truth, Option.isSome_none, Bool.not_false, Bool.or_true, if_true,
        Except.ok.injEq] at h
      refine .inl ⟨h.symm, fun _ => ?_⟩
      rw [shownReceipt]
      cases read : SignedStatement.fromDict (field ev.o "presented_receipt") with
      | error e => rfl
      | ok s => exact absurd read (fromDict_falsy truth)
    | true =>
      simp only [hr, truth, Option.isSome_none, Bool.not_true, Bool.or_false, Bool.false_eq_true,
        if_false] at h
      rw [shownReceipt]
      cases read : SignedStatement.fromDict (field ev.o "presented_receipt") with
      | error e =>
        simp only [read, tryRead, tame_fromDict _ e read, if_true, ok_bind, pure_ok,
          Except.ok.injEq] at h
        exact .inl ⟨h.symm, fun _ => rfl⟩
      | ok s =>
        simp only [read, tryRead, ok_bind] at h
        by_cases type : s.contentType = .str ctReceipt
        · rcases acceptPresented_ok type h with ⟨right_, signed, ref, made⟩ | ⟨wrong, made⟩
          · exact .inr ⟨s, ref, rfl, signed, made, by simp [type, right_]⟩
          · exact .inl ⟨made, fun _ => by simp [wrong]⟩
        · have other : s.contentType.eq (.str ctReceipt) = false := by
            cases same : s.contentType.eq (.str ctReceipt) with
            | false => rfl
            | true => exact absurd ((eq_str_right _ _).mp same) type
          simp only [acceptPresented, other, Bool.not_false, if_true, pure_ok,
            Except.ok.injEq] at h
          exact .inl ⟨h.symm, fun _ => by simp [other]⟩

def payloadIn (entries : List LogEntry) (contentType : String) : Option Dict :=
  (latest entries contentType).map SignedStatement.payload

/-- The registered receipt, or else the one shown to the user. -/
def receiptUsed (K : Primitives) (engine : ReconciliationEngine) (entries : List LogEntry) :
    Option SignedStatement :=
  (latest entries ctReceipt).or
    (shownReceipt K engine (field (payloadIn entries ctObservation) "presented_receipt"))

/-- The latest statements of the request have fields the engine can use. -/
structure JudgeableLog (K : Primitives) (engine : ReconciliationEngine)
    (entries : List LogEntry) : Prop where
  shown : latest entries ctReceipt = none → ∀ s, SignedStatement.fromDict
      (field (payloadIn entries ctObservation) "presented_receipt") = .ok s →
    s.contentType = .str ctReceipt → ReadableReceipt K engine s
  fields : Judgeable engine.referenceModelHashes (payloadIn entries ctContract)
    (payloadIn entries ctRelay) ((receiptUsed K engine entries).map SignedStatement.payload)
    (payloadIn entries ctObservation)

/-- Private evidence the third party accepts: a salt and a request hash of 32 bytes. -/
structure AcceptedPrivate (p : PrivateEvidence) : Prop where
  salt : ∃ salt, fromHexValue p.salt = .ok salt ∧ salt.length = 32
  requestHash : ∃ hash, fromHexValue p.requestHash = .ok hash ∧ hash.length = 32

theorem opens_of_accepted {p : PrivateEvidence} (accepted : AcceptedPrivate p) :
    Returns (commitHex K p.salt p.requestHash) := by
  obtain ⟨salt, hs, ls⟩ := accepted.salt
  obtain ⟨hash, hh, lh⟩ := accepted.requestHash
  exact ⟨_, commitHex_ok.mpr ⟨salt, hash, hs, hh, ls, lh, rfl⟩⟩

/-- An evidence entry of a reachable log passed the registration check. -/
theorem accepted_of_type {log : Log} (kept : Kept K log) {e : LogEntry} (member : e ∈ log.entries)
    {f : Field} (type : e.statement.contentType = .str (typeOf f)) :
    Accepted K log.policy e.statement := by
  obtain ⟨payload, founded⟩ := kept.founded
  obtain ⟨at_, issued⟩ := founded.issued
  obtain ⟨message, -, shape⟩ := issue_ok issued
  rcases kept.mem member with policy | passed
  · have policyType : e.statement.contentType = .str ctPolicy := by rw [policy, shape]; rfl
    rw [policyType, Value.str.injEq] at type
    exact absurd type (policy_untyped f)
  · exact accepted_of_check passed

theorem latest_accepted {log : Log} (kept : Kept K log) {entries : List LogEntry}
    (sub : ∀ e ∈ entries, e ∈ log.entries) {f : Field} {s : SignedStatement}
    (h : latest entries (typeOf f) = some s) :
    Accepted K log.policy s ∧ Complete (typeOf f) s.payload := by
  obtain ⟨e, member, rfl, type⟩ := latest_mem h
  have accepted := accepted_of_type kept (sub e member) type
  refine ⟨accepted, complete_of_valid ?_ (K := K)⟩
  have valid := accepted.valid
  rwa [type] at valid

/-- The evidence collected from a reachable log is complete, whatever receipt is shown. -/
theorem keyed_of_gathered {log : Log} {engine : ReconciliationEngine} {entries : List LogEntry}
    {p : Option PrivateEvidence} {ev : EvidenceSet} (kept : Kept K log)
    (sub : ∀ e ∈ entries, e ∈ log.entries) (opens : ∀ q, p = some q → AcceptedPrivate q)
    (gathered : Gathered engine p entries ev) : Keyed K ev := by
  have complete : ∀ f d, (fieldOf ev f).map SignedStatement.payload = some d →
      Complete (typeOf f) d := by
    intro f d h
    obtain ⟨s, found, rfl⟩ := Option.map_eq_some_iff.mp h
    rw [gathered.fields f] at found
    exact (latest_accepted kept sub found).2
  refine ⟨complete .contract, complete .relay, complete .observation, fun q hq => ?_⟩
  rw [gathered.privateEvidence] at hq
  exact opens_of_accepted (opens q hq)

theorem settled_of_gathered {log : Log} {engine : ReconciliationEngine} {entries : List LogEntry}
    {p : Option PrivateEvidence} {ev : EvidenceSet} (kept : Kept K log)
    (sub : ∀ e ∈ entries, e ∈ log.entries) (gathered : Gathered engine p entries ev) :
    Settled K ev := by
  refine ⟨gathered.unauthorized, fun s hs => ?_, fun there => ?_⟩
  · have found : latest entries (typeOf .receipt) = some s := by
      rw [← gathered.fields .receipt]
      exact hs
    obtain ⟨iss, publicKey, -, -, verified⟩ := (latest_accepted kept sub found).1.key
    exact statementHash_returns (toBeSigned_of_verified verified)
  · refine gathered.dated .contract ?_
    cases hc : ev.contract with
    | none => simp [EvidenceSet.c, hc] at there
    | some s => simp [fieldOf, hc]

/-- Settling the source of a receipt changes nothing else. -/
theorem settleSource_parts (ev : EvidenceSet) :
    (settleSource ev).c = ev.c ∧ (settleSource ev).r = ev.r ∧ (settleSource ev).m = ev.m ∧
    (settleSource ev).o = ev.o ∧ (settleSource ev).receipt = ev.receipt ∧
    (settleSource ev).privateEvidence = ev.privateEvidence ∧
    (settleSource ev).referenceModelHashes = ev.referenceModelHashes ∧
    (settleSource ev).refs = ev.refs ∧
    (settleSource ev).unauthorizedIssuers = ev.unauthorizedIssuers := by
  rw [settleSource]
  split <;> simp [EvidenceSet.c, EvidenceSet.r, EvidenceSet.m, EvidenceSet.o]

theorem keyed_settleSource {ev : EvidenceSet} (keyed : Keyed K ev) : Keyed K (settleSource ev) := by
  obtain ⟨hc, hr, -, ho, -, hp, -⟩ := settleSource_parts ev
  refine ⟨?_, ?_, ?_, ?_⟩
  · rw [hc]; exact keyed.contract
  · rw [hr]; exact keyed.relay
  · rw [ho]; exact keyed.observation
  · rw [hp]; exact keyed.opens

theorem settled_settleSource {ev : EvidenceSet} (settled : Settled K ev) :
    Settled K (settleSource ev) := by
  obtain ⟨hc, -, -, -, hr, -, -, hrefs, hu⟩ := settleSource_parts ev
  refine ⟨?_, ?_, ?_⟩
  · rw [hu]; exact settled.authorized
  · rw [hr]; exact settled.hashed
  · rw [hc, hrefs]; exact settled.dated

/-- What a reachable log offers the judgment of one request: gathering returns when the shown
receipt is readable, and then yields complete evidence of the latest statements. -/
theorem gather_log {log : Log} {engine : ReconciliationEngine} {entries : List LogEntry}
    (kept : Kept K log) (trusted : engine.trustedKeys = log.policy.trusted)
    (rights : engine.issuerContentTypes = log.policy.issuerContentTypes)
    (inLog : ∀ e ∈ entries, e ∈ log.entries) (sub : Value) {p : Option PrivateEvidence}
    (opens : ∀ q, p = some q → AcceptedPrivate q) (now : Int) :
    (Returns (gather K engine sub entries p now) ↔ (latest entries ctReceipt = none → ∀ s,
      SignedStatement.fromDict (field (payloadIn entries ctObservation) "presented_receipt") =
        .ok s → s.contentType = .str ctReceipt → ReadableReceipt K engine s)) ∧
    ∀ ev, gather K engine sub entries p now = .ok ev → Keyed K ev ∧ Settled K ev ∧
      ev.referenceModelHashes = engine.referenceModelHashes ∧
      ev.c = payloadIn entries ctContract ∧ ev.r = payloadIn entries ctRelay ∧
      ev.m = (receiptUsed K engine entries).map SignedStatement.payload ∧
      ev.o = payloadIn entries ctObservation := by
  have gathers := fun e h => gathers_of_kept trusted rights kept e (inLog e h)
  obtain ⟨ev, folded, gathered⟩ := gathered_all gathers sub p now
  have keyed := keyed_of_gathered kept inLog opens gathered
  have settled := settled_of_gathered kept inLog gathered
  have c : ev.c = payloadIn entries ctContract := by
    rw [payloadIn, ← typeOf, ← gathered.fields .contract]; rfl
  have r : ev.r = payloadIn entries ctRelay := by
    rw [payloadIn, ← typeOf, ← gathered.fields .relay]; rfl
  have o : ev.o = payloadIn entries ctObservation := by
    rw [payloadIn, ← typeOf, ← gathered.fields .observation]; rfl
  have receipt : ev.receipt = latest entries ctReceipt := gathered.fields .receipt
  constructor
  · rw [gather, folded, ok_bind, returns_bind, ← o, ← receipt, ← addPresented_returns]
    constructor
    · rintro ⟨next, h, -⟩
      exact ⟨next, h⟩
    · rintro ⟨next, h⟩
      exact ⟨next, h, by simp⟩
  · intro final h
    rw [gather, folded, ok_bind] at h
    obtain ⟨next, added, h⟩ := bind_ok.mp h
    obtain rfl := Except.ok.inj h
    obtain ⟨pc, pr, pm, po, -, -, ph, -, -⟩ := settleSource_parts next
    rw [ph, pc, pr, pm, po]
    rcases addPresented_ok added with ⟨rfl, unshown⟩ | ⟨s, ref, unregistered, signed, rfl, shown⟩
    · refine ⟨keyed_settleSource keyed, settled_settleSource settled, gathered.references, c, r, ?_,
        o⟩
      rw [receiptUsed, ← receipt, ← o]
      cases hr : next.receipt with
      | some s => simp [EvidenceSet.m, hr]
      | none => simp [EvidenceSet.m, hr, unshown hr]
    · refine ⟨keyed_settleSource ⟨keyed.contract, keyed.relay, keyed.observation, keyed.opens⟩,
        settled_settleSource ⟨settled.authorized, ?_, fun there => ?_⟩, gathered.references, c, r,
        ?_, o⟩
      · intro t ht
        obtain rfl := Option.some.inj ht
        exact statementHash_returns signed
      · obtain ⟨stamped, inside, at_⟩ := settled.dated there
        exact ⟨stamped, List.mem_append_left _ inside, at_⟩
      · rw [receiptUsed, ← receipt, ← o, unregistered, shown]
        rfl

/-- On a reachable log the third party reaches a verdict on a request exactly when the
latest statements of the request are judgeable. -/
theorem judge_returns_iff {log : Log} (reached : Reachable K log) (referenceModelHashes : Dict)
    (sub : Value) (visible : Option Int) {p : Option PrivateEvidence}
    (opens : ∀ q, p = some q → AcceptedPrivate q) (now : Int) {parties : List String}
    (known : ∀ x ∈ parties, x ∈ ["U", "R", "M"]) :
    Returns (judge K (engineOf log referenceModelHashes) sub (log.statementsFor sub visible) p now
      parties) ↔
    JudgeableLog K (engineOf log referenceModelHashes) (log.statementsFor sub visible) := by
  have inLog : ∀ e ∈ log.statementsFor sub visible, e ∈ log.entries := fun e h =>
    (List.mem_filter.mp h).1
  have trusted : (engineOf log referenceModelHashes).trustedKeys = log.policy.trusted := rfl
  obtain ⟨gathering, gathered⟩ := gather_log (reachable_kept reached) trusted rfl inLog sub opens
    now
  have judged : ∀ ev, gather K (engineOf log referenceModelHashes) sub
      (log.statementsFor sub visible) p now = .ok ev →
      (Returns (reconcile K (engineOf log referenceModelHashes) ev parties) ↔
        Judgeable referenceModelHashes (payloadIn (log.statementsFor sub visible) ctContract)
          (payloadIn (log.statementsFor sub visible) ctRelay)
          ((receiptUsed K (engineOf log referenceModelHashes)
            (log.statementsFor sub visible)).map SignedStatement.payload)
          (payloadIn (log.statementsFor sub visible) ctObservation)) := by
    intro ev h
    obtain ⟨keyed, settled, references, c, r, m, o⟩ := gathered ev h
    rw [reconcile_returns keyed settled known, references, c, r, m, o]
    exact Iff.rfl
  rw [judge, returns_bind]
  constructor
  · rintro ⟨ev, h, reconciled⟩
    exact ⟨gathering.mp ⟨ev, h⟩, (judged ev h).mp reconciled⟩
  · intro judgeable
    obtain ⟨ev, h⟩ := gathering.mpr judgeable.shown
    exact ⟨ev, h, (judged ev h).mpr judgeable.fields⟩

def relayKey : KeyPair := { kid := "kid-r", seed := [3] }
def logKey : KeyPair := { kid := "kid-t", seed := [4] }

def keyInfo (iss : String) (key : KeyPair) : Value :=
  .dict (fields [("iss", .str iss), ("public_key", .str (key.publicHex toy))])

/-- A policy that trusts the user, the relay and the model for their own statements. -/
def plainPolicy : Dict :=
  fields [("profile", .str (profileVersion ++ "/policy")), ("version", .int 1),
    ("ts_id", .str "log"), ("ts_iss", .str "t"),
    ("allowed_content_types", .ofStrings allContentTypes), ("sub_pattern", .str "urn"),
    ("trusted_keys", .dict (fields [("kid-u", keyInfo "u" userKey),
      ("kid-r", keyInfo "r" relayKey), ("kid-m", keyInfo "m" modelKey)])),
    ("issuer_content_types", .dict (fields [("u", .ofStrings [ctContract, ctObservation]),
      ("r", .ofStrings [ctRelay]), ("m", .ofStrings [ctReceipt])]))]

def plainLog : Py Log := openLog toy "log" logKey subPattern plainPolicy 0

def registerAll : Log → List (SignedStatement × Int) → Py Log
  | log, [] => .ok log
  | log, (s, at_) :: rest => do
    let (next, _) ← log.register toy s at_
    registerAll next rest

theorem registerAll_reachable {log next : Log} {xs : List (SignedStatement × Int)}
    (reached : Reachable toy log) (h : registerAll log xs = .ok next) : Reachable toy next := by
  induction xs generalizing log with
  | nil =>
    obtain rfl := Except.ok.inj h
    exact reached
  | cons x xs ih =>
    obtain ⟨s, at_⟩ := x
    obtain ⟨⟨log', receipt⟩, accepted, h⟩ := bind_ok.mp h
    exact ih (.registered reached accepted) h

def plainContract : SignedStatement :=
  signedWith userKey "u" "urn:itx:req:1" ctContract (contractPayload plainTerms) 0

/-- The relay's report with a list for its attempt identifier. -/
def listedReport : SignedStatement :=
  signedWith relayKey "r" "urn:itx:req:1" ctRelay
    (insert (relayPayload plainReport) (.str "attempt_id") (.list [])) 0

def blockedLog : Py Log := do
  registerAll (← plainLog) [(plainContract, 10), (listedReport, 20)]

def plainPrivate : PrivateEvidence := { salt := .str (zeros 64), requestHash := .str (zeros 64) }

theorem plainPrivate_accepted : AcceptedPrivate plainPrivate := by
  constructor
  · exact ⟨List.replicate 32 0, by decide +kernel, by decide⟩
  · exact ⟨List.replicate 32 0, by decide +kernel, by decide⟩

def judgeIn (log : Log) : Py Verdict :=
  judge toy (engineOf log []) (.str "urn:itx:req:1") (log.statementsFor (.str "urn:itx:req:1") none)
    (some plainPrivate) 30 allParties

def judgeBlocked : Py Verdict := do judgeIn (← blockedLog)

/-- The relay's registered report stops every judgment of the request. -/
theorem registered_report_blocks : ∃ log, Reachable toy log ∧ AcceptedPrivate plainPrivate ∧
    judge toy (engineOf log []) (.str "urn:itx:req:1")
      (log.statementsFor (.str "urn:itx:req:1") none) (some plainPrivate) 30 allParties =
      .error .typeError := by
  have built : Returns blockedLog := by decide +kernel
  have blocked : judgeBlocked.map (fun _ => ()) = .error .typeError := by decide +kernel
  obtain ⟨log, made⟩ := built
  obtain ⟨first, opened, registered⟩ := bind_ok.mp made
  refine ⟨log, registerAll_reachable (.opened opened) registered, plainPrivate_accepted, ?_⟩
  rw [judgeBlocked, made, ok_bind] at blocked
  cases h : judgeIn log with
  | ok v => simp [h, Except.map] at blocked
  | error e =>
    rw [h] at blocked
    obtain rfl : e = .typeError := by simpa [Except.map] using blocked
    exact h

theorem judge_returns_iff_plain : ∃ log, Reachable toy log ∧
    (Returns (judge toy (engineOf log []) (.str "urn:itx:req:1")
      (log.statementsFor (.str "urn:itx:req:1") none) (some plainPrivate) 30 allParties) ↔
    JudgeableLog toy (engineOf log []) (log.statementsFor (.str "urn:itx:req:1") none)) := by
  have built : Returns plainLog := by decide +kernel
  obtain ⟨log, made⟩ := built
  refine ⟨log, .opened made, judge_returns_iff (.opened made) [] _ _ ?_ 30 (by decide)⟩
  rintro q ⟨⟩
  exact plainPrivate_accepted

end BlockedJudgment
