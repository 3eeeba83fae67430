import Custody.Equality
import Custody.Judgeability
import Custody.LogInvariant

/-!
# Gathering from a reachable log

Every registered statement verifies and comes from an issuer entitled to its
type, so what is gathered for a request is the latest statement of each type.
-/

namespace RegisteredEvidence

open PyValue Equality HexBytes Commitments Statements Schemas Evidence EquationMeaning Engine
  TransparencyLog LogInvariant Judgeability

variable {K : Primitives}

def typeOf : Field → String
  | .contract => ctContract
  | .relay => ctRelay
  | .receipt => ctReceipt
  | .observation => ctObservation
  | .manifest => ctManifest

theorem typeOf_injective : ∀ f g : Field, typeOf f = typeOf g → f = g := by
  intro f g
  cases f <;> cases g <;> decide

theorem policy_untyped (f : Field) : ctPolicy ≠ typeOf f := by
  cases f <;> decide

def fieldOf (ev : EvidenceSet) : Field → Option SignedStatement
  | .contract => ev.contract
  | .relay => ev.relay
  | .receipt => ev.receipt
  | .observation => ev.observation
  | .manifest => ev.manifest

theorem fieldOf_setField (ev : EvidenceSet) (s : SignedStatement) (f g : Field) :
    fieldOf (setField ev s f) g = if f = g then some s else fieldOf ev g := by
  cases f <;> cases g <;> rfl

theorem find_ctToField {v : Value} {f : Field} :
    find ctToField v = some f ↔ v = .str (typeOf f) := by
  constructor
  · intro found
    obtain ⟨k, listed, same⟩ := find_mem found
    simp only [ctToField, List.mem_cons, Prod.mk.injEq, List.not_mem_nil, or_false] at listed
    rcases listed with ⟨rfl, rfl⟩ | ⟨rfl, rfl⟩ | ⟨rfl, rfl⟩ | ⟨rfl, rfl⟩ | ⟨rfl, rfl⟩
    all_goals exact scalarEq_str_left same
  · rintro rfl
    cases f <;> rfl

/-- The last entry of this type. -/
def latest (entries : List LogEntry) (contentType : String) : Option SignedStatement :=
  (entries.reverse.find? fun e => e.statement.contentType.eq (.str contentType)).map
    LogEntry.statement

theorem latest_append (entries : List LogEntry) (e : LogEntry) (contentType : String) :
    latest (entries ++ [e]) contentType =
      if e.statement.contentType.eq (.str contentType) then some e.statement
      else latest entries contentType := by
  rw [latest, List.reverse_append, List.reverse_singleton, List.singleton_append, List.find?_cons]
  cases e.statement.contentType.eq (.str contentType) with
  | true => rfl
  | false => rfl

theorem latest_mem {entries : List LogEntry} {contentType : String} {s : SignedStatement}
    (h : latest entries contentType = some s) :
    ∃ e ∈ entries, e.statement = s ∧ s.contentType = .str contentType := by
  obtain ⟨e, found, rfl⟩ := Option.map_eq_some_iff.mp h
  refine ⟨e, List.mem_reverse.mp (List.mem_of_find?_eq_some found), rfl, ?_⟩
  exact (eq_str_right _ _).mp (by simpa using List.find?_some found)

/-- What gathering an entry does, whatever was gathered before it. -/
inductive Gathers (K : Primitives) (engine : ReconciliationEngine) (e : LogEntry) : Prop where
  | used (f : Field) (ref : StatementRef) (type : e.statement.contentType = .str (typeOf f))
      (stamped : ref.registeredAt.isSome = true)
      (gathered : ∀ ev, gatherEntry K engine ev e =
        .ok (setField { ev with refs := ev.refs ++ [ref] } e.statement f))
  | passed (type : ∀ f, e.statement.contentType ≠ .str (typeOf f))
      (gathered : ∀ ev, gatherEntry K engine ev e = .ok ev)
  | unsigned (ref : StatementRef) (type : ∀ f, e.statement.contentType ≠ .str (typeOf f))
      (gathered : ∀ ev, gatherEntry K engine ev e =
        .ok { ev with invalidSignatures := ev.invalidSignatures ++ [ref] })

/-- What the registration check establishes of a statement. -/
structure Accepted (K : Primitives) (p : LogPolicy) (s : SignedStatement) : Prop where
  kid : s.kid.hashable = true
  key : ∃ iss publicKey, find p.trusted s.kid = some (iss, publicKey) ∧ iss.eq s.iss = true ∧
    s.verifyWith K publicKey = .ok true
  iss : s.iss.hashable = true
  entitled : memberOf s.contentType ((find p.issuerContentTypes s.iss).getD []) = true
  contentType : s.contentType.hashable = true
  valid : validatePayload K s.contentType s.payload = .ok []

theorem keyErrors_nil {log : Log} {s : SignedStatement} (h : log.keyErrors K s = .ok []) :
    s.kid.hashable = true ∧ ∃ iss publicKey, find log.policy.trusted s.kid = some (iss, publicKey) ∧
      iss.eq s.iss = true ∧ s.verifyWith K publicKey = .ok true := by
  obtain ⟨found, hl, h⟩ := bind_ok.mp h
  obtain ⟨kid, rfl⟩ := lookup_find hl
  refine ⟨kid, ?_⟩
  cases known : find log.policy.trusted s.kid with
  | none => simp [known] at h
  | some x =>
    obtain ⟨iss, publicKey⟩ := x
    refine ⟨iss, publicKey, rfl, ?_⟩
    rw [known] at h
    by_cases bound : iss.eq s.iss = true
    · simp only [bound, Bool.not_true, Bool.false_eq_true, if_false] at h
      obtain ⟨valid, hv, h⟩ := bind_ok.mp h
      have := errorIf_nil (Except.ok.inj h)
      refine ⟨bound, ?_⟩
      rw [hv]
      simpa using this
    · simp [bound] at h

theorem accepted_of_check {log : Log} {s : SignedStatement} (h : log.checkPolicy K s = .ok []) :
    Accepted K log.policy s := by
  simp only [Log.checkPolicy] at h
  obtain ⟨known, hk, h⟩ := bind_ok.mp h
  obtain ⟨matched, -, h⟩ := bind_ok.mp h
  obtain ⟨key, hkey, h⟩ := bind_ok.mp h
  obtain ⟨rights, hr, h⟩ := bind_ok.mp h
  obtain ⟨schema, hs, h⟩ := bind_ok.mp h
  obtain ⟨iss, rfl⟩ := lookup_find hr
  have none_ := Except.ok.inj h
  simp only [List.append_eq_nil_iff] at none_
  obtain ⟨⟨⟨⟨-, -⟩, rfl⟩, entitled⟩, rfl⟩ := none_
  obtain ⟨kid, bound⟩ := keyErrors_nil hkey
  refine ⟨kid, bound, iss, by simpa using errorIf_nil entitled, ?_, hs⟩
  rw [inSet] at hk
  by_cases named : s.contentType.hashable = true
  · exact named
  · simp [named] at hk

theorem toBeSigned_of_verified {s : SignedStatement} {publicKey : Bytes}
    (h : s.verifyWith K publicKey = .ok true) : Returns s.toBeSigned := by
  rw [SignedStatement.verifyWith] at h
  by_cases signed : s.signature.truthy = true
  · simp only [signed, Bool.not_true, Bool.false_eq_true, if_false] at h
    split at h
    · split at h
      · cases h
      · obtain ⟨message, hm, -⟩ := bind_ok.mp h
        exact ⟨message, hm⟩
    · cases h
  · simp [signed] at h

theorem statementHash_returns {s : SignedStatement} (h : Returns s.toBeSigned) :
    Returns (s.statementHash K) := by
  obtain ⟨message, hm⟩ := h
  simp [SignedStatement.statementHash, hm]

theorem verifies_of_accepted {p : LogPolicy} {engine : ReconciliationEngine} {s : SignedStatement}
    (trusted : engine.trustedKeys = p.trusted) (accepted : Accepted K p s) :
    verifies K engine s = .ok true := by
  obtain ⟨iss, publicKey, found, bound, valid⟩ := accepted.key
  rw [verifies, lookup, if_pos accepted.kid, ok_bind, trusted, found]
  simp [bound, valid]

theorem authorized_of_accepted {p : LogPolicy} {engine : ReconciliationEngine}
    {s : SignedStatement} (rights : engine.issuerContentTypes = p.issuerContentTypes)
    (accepted : Accepted K p s) : authorized engine s.iss s.contentType = .ok true := by
  rw [authorized, lookup, if_pos accepted.iss, ok_bind, rights]
  simp [accepted.entitled]

theorem gathers_of_accepted {p : LogPolicy} {engine : ReconciliationEngine} {e : LogEntry}
    (trusted : engine.trustedKeys = p.trusted)
    (rights : engine.issuerContentTypes = p.issuerContentTypes)
    (accepted : Accepted K p e.statement) : Gathers K engine e := by
  obtain ⟨iss, publicKey, -, -, valid⟩ := accepted.key
  obtain ⟨hash, hh⟩ := statementHash_returns (K := K) (toBeSigned_of_verified valid)
  have known := verifies_of_accepted trusted accepted
  have entitled := authorized_of_accepted rights accepted
  cases found : find ctToField e.statement.contentType with
  | none =>
    refine .passed (fun f type => ?_) fun ev => ?_
    · rw [find_ctToField.mpr type] at found
      cases found
    · rw [gatherEntry, known, ok_bind, refOf, hh, ok_bind, pure_ok, ok_bind]
      simp only [Bool.not_true, Bool.false_eq_true, if_false, entitled, ok_bind, lookup,
        accepted.contentType, if_true, found]
      rfl
  | some f =>
    refine .used f
      { contentType := e.statement.contentType, iss := e.statement.iss, kid := e.statement.kid,
        statementHash := hash, logIndex := some e.index, registeredAt := some e.registeredAt,
        signatureValid := true } (find_ctToField.mp found) rfl fun ev => ?_
    rw [gatherEntry, known, ok_bind, refOf, hh, ok_bind, pure_ok, ok_bind]
    simp only [Bool.not_true, Bool.false_eq_true, if_false, entitled, ok_bind, lookup,
      accepted.contentType, if_true, found]
    rfl

theorem eq_self_of_hashable {v : Value} (h : v.hashable = true) :
    v.scalarEq v = true ∧ v.eq v = true := by
  cases v with
  | list xs => cases h
  | dict kvs => cases h
  | null => exact ⟨rfl, rfl⟩
  | bool b => cases b <;> exact ⟨rfl, rfl⟩
  | int n => simp [Value.eq, Value.scalarEq]
  | str s => simp [Value.eq, Value.scalarEq]

/-- Reading back one's own signature never raises, and holds unless it is empty. -/
theorem verifyWith_issued {key : KeyPair} {iss sub contentType : Value} {payload : Dict}
    {issuedAt : Int} {s : SignedStatement}
    (issued : issue K key iss sub contentType payload issuedAt = .ok s) :
    (∃ message, s.verifyWith K (key.publicKey K) =
      .ok (Value.str (hex (key.sign K message))).truthy) ∧ Returns s.toBeSigned := by
  obtain ⟨message, signed, rfl⟩ := issue_ok issued
  refine ⟨⟨message, ?_⟩, message, signed⟩
  have same : SignedStatement.toBeSigned { draft key iss sub contentType payload issuedAt with
      signature := .str (hex (key.sign K message)) } = .ok message := signed
  have genuine : K.verify (key.publicKey K) message (key.sign K message) = true :=
    K.verify_sign _ _
  simp only [SignedStatement.verifyWith]
  cases (Value.str (hex (key.sign K message))).truthy with
  | false => rfl
  | true => simp [fromHex_hex, same, genuine]

/-- The log's own policy is judged by the signature that the log made for it. -/
theorem policy_judged {p : LogPolicy} {payload : Dict} {engine : ReconciliationEngine}
    (trusted : engine.trustedKeys = p.trusted)
    (rights : engine.issuerContentTypes = p.issuerContentTypes) (founded : Founded K p payload) :
    verifies K engine p.policyStatement = p.policyStatement.verifyWith K (p.key.publicKey K) ∧
    authorized engine p.policyStatement.iss p.policyStatement.contentType = .ok true ∧
    p.policyStatement.contentType = .str ctPolicy := by
  obtain ⟨at_, issued⟩ := founded.issued
  obtain ⟨keys, -, hkeys⟩ := founded.keys
  obtain ⟨types, -, htypes⟩ := founded.rights
  obtain ⟨message, -, shape⟩ := issue_ok issued
  have kid : p.policyStatement.kid = .str p.key.kid := by rw [shape]; rfl
  have iss : p.policyStatement.iss = p.tsIss := by rw [shape]; rfl
  have type : p.policyStatement.contentType = .str ctPolicy := by rw [shape]; rfl
  obtain ⟨selfKey, selfIss⟩ := eq_self_of_hashable founded.issuer
  have known : find p.trusted (.str p.key.kid) = some (p.tsIss, p.key.publicKey K) := by
    rw [hkeys]
    exact find_insert_self _ (by simp) _
  refine ⟨?_, ?_, type⟩
  · have hashable : (Value.str p.key.kid).hashable = true := rfl
    rw [verifies, kid, lookup, if_pos hashable, ok_bind, trusted, known]
    simp [iss, selfIss]
  · rw [iss, type, authorized, lookup, if_pos founded.issuer, ok_bind, rights, htypes,
      find_insert_self _ selfKey]
    rfl

theorem gathers_policy {p : LogPolicy} {payload : Dict} {engine : ReconciliationEngine}
    {e : LogEntry} (trusted : engine.trustedKeys = p.trusted)
    (rights : engine.issuerContentTypes = p.issuerContentTypes) (founded : Founded K p payload)
    (first : e.statement = p.policyStatement) : Gathers K engine e := by
  obtain ⟨at_, issued⟩ := founded.issued
  obtain ⟨⟨message, verified⟩, signed⟩ := verifyWith_issued issued
  generalize (Value.str (hex (p.key.sign K message))).truthy = valid at verified
  obtain ⟨hash, hh⟩ := statementHash_returns (K := K) signed
  obtain ⟨judged, entitled, type⟩ := policy_judged trusted rights founded
  rw [verified] at judged
  have other : ∀ f, e.statement.contentType ≠ .str (typeOf f) := by
    intro f same
    rw [first, type, Value.str.injEq] at same
    exact policy_untyped f same
  have step : ∀ ev, gatherEntry K engine ev e = if valid then .ok ev else
      .ok { ev with invalidSignatures := ev.invalidSignatures ++
        [{ contentType := p.policyStatement.contentType, iss := p.policyStatement.iss,
           kid := p.policyStatement.kid, statementHash := hash, logIndex := some e.index,
           registeredAt := some e.registeredAt, signatureValid := valid }] } := by
    intro ev
    rw [gatherEntry, first, judged, ok_bind, refOf, hh, ok_bind, pure_ok, ok_bind]
    cases valid with
    | false => rfl
    | true =>
      simp only [Bool.not_true, Bool.false_eq_true, if_false, entitled, ok_bind, if_true]
      rw [type]
      rfl
  cases valid with
  | true => exact .passed other fun ev => by rw [step, if_pos rfl]
  | false => exact .unsigned _ other fun ev => by rw [step, if_neg Bool.false_ne_true]

/-- Every entry of a reachable log can be gathered. -/
theorem gathers_of_kept {log : Log} {engine : ReconciliationEngine}
    (trusted : engine.trustedKeys = log.policy.trusted)
    (rights : engine.issuerContentTypes = log.policy.issuerContentTypes) (kept : Kept K log) :
    ∀ e ∈ log.entries, Gathers K engine e := by
  obtain ⟨payload, founded⟩ := kept.founded
  intro e member
  rcases kept.mem member with policy | passed
  · exact gathers_policy trusted rights founded policy
  · exact gathers_of_accepted trusted rights (accepted_of_check passed)

/-- What gathering the entries one by one has collected. -/
structure Gathered (engine : ReconciliationEngine) (p : Option PrivateEvidence)
    (entries : List LogEntry) (ev : EvidenceSet) : Prop where
  fields : ∀ f, fieldOf ev f = latest entries (typeOf f)
  unauthorized : ev.unauthorizedIssuers = []
  privateEvidence : ev.privateEvidence = p
  references : ev.referenceModelHashes = engine.referenceModelHashes
  source : ev.receiptSource = .registered
  dated : ∀ f, (fieldOf ev f).isSome = true → ∃ ref ∈ ev.refs, ref.registeredAt.isSome = true

theorem gathered_step {engine : ReconciliationEngine} {p : Option PrivateEvidence}
    {entries : List LogEntry} {ev : EvidenceSet} {e : LogEntry}
    (before : Gathered engine p entries ev) (gathers : Gathers K engine e) :
    ∃ next, gatherEntry K engine ev e = .ok next ∧ Gathered engine p (entries ++ [e]) next := by
  cases gathers with
  | used f ref type stamped gathered =>
    refine ⟨_, gathered ev, ?_, ?_, ?_, ?_, ?_, ?_⟩
    · intro g
      have same : e.statement.contentType.eq (.str (typeOf g)) = true ↔ f = g := by
        rw [type, eq_str_right, Value.str.injEq]
        exact ⟨fun h => typeOf_injective f g h, fun h => by rw [h]⟩
      rw [fieldOf_setField, latest_append]
      by_cases h : f = g
      · rw [if_pos h, if_pos (same.mpr h)]
      · rw [if_neg h, if_neg fun h' => h (same.mp h'), ← before.fields g]
        cases g <;> rfl
    · cases f <;> exact before.unauthorized
    · cases f <;> exact before.privateEvidence
    · cases f <;> exact before.references
    · cases f <;> exact before.source
    · intro g _
      refine ⟨ref, ?_, stamped⟩
      cases f <;> exact List.mem_append_right _ List.mem_cons_self
  | passed type gathered =>
    refine ⟨_, gathered ev, fun g => ?_, before.unauthorized, before.privateEvidence,
      before.references, before.source, before.dated⟩
    rw [latest_append, if_neg fun h => type g ((eq_str_right _ _).mp h)]
    exact before.fields g
  | unsigned ref type gathered =>
    refine ⟨_, gathered ev, fun g => ?_, before.unauthorized, before.privateEvidence,
      before.references, before.source, fun g h => ?_⟩
    · rw [latest_append, if_neg fun h => type g ((eq_str_right _ _).mp h), ← before.fields g]
      cases g <;> rfl
    · refine before.dated g ?_
      rw [← h]
      cases g <;> rfl

theorem gathered_all {engine : ReconciliationEngine} {entries : List LogEntry}
    (gathers : ∀ e ∈ entries, Gathers K engine e) (sub : Value) (p : Option PrivateEvidence)
    (now : Int) :
    ∃ ev, entries.foldlM (gatherEntry K engine) (startEvidence engine sub p now) = .ok ev ∧
      Gathered engine p entries ev := by
  induction entries using List.reverseRecOn with
  | nil =>
    refine ⟨startEvidence engine sub p now, rfl, fun f => ?_, rfl, rfl, rfl, rfl, fun f h => ?_⟩
    · cases f <;> rfl
    · cases f <;> cases h
  | append_singleton entries e ih =>
    obtain ⟨ev, folded, before⟩ := ih fun x hx => gathers x (List.mem_append_left _ hx)
    obtain ⟨next, step, after⟩ := gathered_step before
      (gathers e (List.mem_append_right _ List.mem_cons_self))
    refine ⟨next, ?_, after⟩
    rw [List.foldlM_append, folded, ok_bind, List.foldlM_cons, step]
    rfl

end RegisteredEvidence
