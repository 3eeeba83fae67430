import Custody.AppendOnly

/-!
# Registered and counted

The registration check and the collection of evidence both ask whether a key is bound to
the issuer, whether the signature holds and whether the issuer is entitled to the type.
They are written apart. What one lets in, the other counts.
-/

namespace RegistrationAgreement

open PyValue HexBytes Commitments Statements Schemas Evidence Engine TransparencyLog LogInvariant
  RegisteredEvidence BlockedJudgment AppendOnly

variable {K : Primitives} {engine : ReconciliationEngine}

/-- Nothing was set aside between two stages of collecting. -/
structure SameAside (ev next : EvidenceSet) : Prop where
  invalid : next.invalidSignatures = ev.invalidSignatures
  unauthorized : next.unauthorizedIssuers = ev.unauthorizedIssuers

theorem SameAside.trans {a b c : EvidenceSet} (first : SameAside a b) (second : SameAside b c) :
    SameAside a c :=
  ⟨second.invalid.trans first.invalid, second.unauthorized.trans first.unauthorized⟩

/-- What collecting asks of a statement before it counts it. -/
structure Counted (K : Primitives) (engine : ReconciliationEngine) (s : SignedStatement) :
    Prop where
  verified : verifies K engine s = .ok true
  entitled : authorized engine s.iss s.contentType = .ok true

theorem gatherEntry_counted {ev next : EvidenceSet} {e : LogEntry}
    (counted : Counted K engine e.statement) (gathered : gatherEntry K engine ev e = .ok next) :
    SameAside ev next := by
  rw [gatherEntry, counted.verified, ok_bind] at gathered
  obtain ⟨ref, -, gathered⟩ := bind_ok.mp gathered
  rw [if_neg (by simp), counted.entitled, ok_bind, if_neg (by simp)] at gathered
  obtain ⟨type, -, gathered⟩ := bind_ok.mp gathered
  cases type with
  | none =>
    obtain rfl := Except.ok.inj gathered
    exact ⟨rfl, rfl⟩
  | some f =>
    obtain rfl := Except.ok.inj gathered
    cases f <;> exact ⟨rfl, rfl⟩

theorem gatherEntries_counted {entries : List LogEntry} {ev next : EvidenceSet}
    (counted : ∀ e ∈ entries, Counted K engine e.statement)
    (gathered : entries.foldlM (gatherEntry K engine) ev = .ok next) : SameAside ev next := by
  induction entries generalizing ev with
  | nil =>
    obtain rfl := Except.ok.inj gathered
    exact ⟨rfl, rfl⟩
  | cons e entries ih =>
    rw [List.foldlM_cons] at gathered
    obtain ⟨mid, first, rest⟩ := bind_ok.mp gathered
    exact (gatherEntry_counted (counted e List.mem_cons_self) first).trans
      (ih (fun e' later => counted e' (List.mem_cons_of_mem _ later)) rest)

theorem addPresented_aside {ev next : EvidenceSet} (added : addPresented K engine ev = .ok next) :
    SameAside ev next := by
  rcases addPresented_ok added with ⟨rfl, -⟩ | ⟨s, ref, -, -, rfl, -⟩
  · exact ⟨rfl, rfl⟩
  · exact ⟨rfl, rfl⟩

theorem settleSource_aside (ev : EvidenceSet) : SameAside ev (settleSource ev) := by
  rw [settleSource]
  split
  · exact ⟨rfl, rfl⟩
  · exact ⟨rfl, rfl⟩

theorem gather_counted {sub : Value} {entries : List LogEntry} {p : Option PrivateEvidence}
    {now : Int} {ev : EvidenceSet} (counted : ∀ e ∈ entries, Counted K engine e.statement)
    (gathered : gather K engine sub entries p now = .ok ev) :
    ev.invalidSignatures = [] ∧ ev.unauthorizedIssuers = [] := by
  obtain ⟨collected, folded, gathered⟩ := bind_ok.mp gathered
  obtain ⟨shown, added, gathered⟩ := bind_ok.mp gathered
  obtain rfl := Except.ok.inj gathered
  have same := ((gatherEntries_counted counted folded).trans (addPresented_aside added)).trans
    (settleSource_aside shown)
  exact ⟨same.invalid, same.unauthorized⟩

/-- A statement that collecting would set aside. -/
def SetAside (K : Primitives) (engine : ReconciliationEngine) (s : SignedStatement) : Prop :=
  ∃ (ev next : EvidenceSet) (index : Nat) (registeredAt : Int),
    gatherEntry K engine ev { index, registeredAt, statement := s } = .ok next ∧
      ¬ SameAside ev next

theorem not_setAside {s : SignedStatement} (counted : Counted K engine s) :
    ¬ SetAside K engine s := by
  rintro ⟨ev, next, index, registeredAt, gathered, changed⟩
  exact changed (gatherEntry_counted counted gathered)

section log

variable {log : Log} (trusted : engine.trustedKeys = log.policy.trusted)
  (rights : engine.issuerContentTypes = log.policy.issuerContentTypes)
include trusted rights

theorem counted_of_passed {s : SignedStatement} (passed : log.checkPolicy K s = .ok []) :
    Counted K engine s :=
  have accepted := accepted_of_check passed
  ⟨verifies_of_accepted trusted accepted, authorized_of_accepted rights accepted⟩

/-- The policy itself was never checked; the log signed it with its own key. -/
theorem counted_policy (signs : ∀ message, log.policy.key.sign K message ≠ []) (kept : Kept K log) :
    Counted K engine log.policy.policyStatement := by
  obtain ⟨payload, founded⟩ := kept.founded
  obtain ⟨at_, issued⟩ := founded.issued
  obtain ⟨⟨message, verified⟩, -⟩ := verifyWith_issued issued
  obtain ⟨judged, entitled, -⟩ := policy_judged trusted rights founded
  rw [verified, hex_truthy (signs message)] at judged
  exact ⟨judged, entitled⟩

theorem counted_of_kept (signs : ∀ message, log.policy.key.sign K message ≠ [])
    (kept : Kept K log) : ∀ e ∈ log.entries, Counted K engine e.statement := by
  intro e member
  rcases kept.mem member with policy | passed
  · rw [policy]
    exact counted_policy trusted rights signs kept
  · exact counted_of_passed trusted rights passed

/-- What would be set aside is refused, and the log is left as it was. -/
theorem refused_of_setAside {s : SignedStatement} (aside : SetAside K engine s)
    (registeredAt : Int) : ∃ e, registerIn K log s registeredAt = (log, .error e) := by
  cases checked : log.checkPolicy K s with
  | error e => exact ⟨e, by rw [registerIn, checked]⟩
  | ok errors =>
    cases errors with
    | nil => exact absurd aside (not_setAside (counted_of_passed trusted rights checked))
    | cons error errors => exact ⟨_, by rw [registerIn, checked]⟩

end log

/-- Registering and collecting agree on what is evidence. -/
structure Agree (K : Primitives) (log : Log) (engine : ReconciliationEngine) : Prop where
  /-- The entries of a request can be collected, and none of them is set aside. -/
  collected : ∀ sub visible private_ now, ∃ ev,
    (log.statementsFor sub visible).foldlM (gatherEntry K engine)
      (startEvidence engine sub private_ now) = .ok ev ∧
    ev.invalidSignatures = [] ∧ ev.unauthorizedIssuers = []
  gathered : ∀ sub visible private_ now ev,
    gather K engine sub (log.statementsFor sub visible) private_ now = .ok ev →
      ev.invalidSignatures = [] ∧ ev.unauthorizedIssuers = []
  /-- What would be set aside is refused. -/
  refused : ∀ s registeredAt, SetAside K engine s →
    ∃ e, registerIn K log s registeredAt = (log, .error e)

/-- In every log that calls of `register` lead to, accepted or not. -/
theorem registration_agrees {logId : String} {key : KeyPair} {subRe : String → Bool}
    {policy : Dict} {now : Int} {log : Log} (signs : ∀ message, key.sign K message ≠ [])
    (created : openLog K logId key subRe policy now = .ok log) (calls : List Call)
    (modelHashes : Dict) :
    Agree K (after K log calls) (engineOf (after K log calls) modelHashes) := by
  have kept := after_kept (kept_opened created) calls
  have same : (after K log calls).policy.key = key := by
    rw [(after_extends log calls).policy]
    exact (opened_shape created).2.1
  have signs' : ∀ message, (after K log calls).policy.key.sign K message ≠ [] := by
    rw [same]
    exact signs
  have engine : (engineOf (after K log calls) modelHashes).trustedKeys =
      (after K log calls).policy.trusted := rfl
  have counted := counted_of_kept engine rfl signs' kept
  have listed : ∀ sub visible, ∀ e ∈ (after K log calls).statementsFor sub visible,
      e ∈ (after K log calls).entries := fun sub visible e member => List.mem_of_mem_filter member
  refine ⟨fun sub visible p at_ => ?_, fun sub visible p at_ ev collected => ?_, ?_⟩
  · have gathers := gathers_of_kept engine rfl kept
    obtain ⟨ev, folded, -⟩ := gathered_all (fun e member => gathers e (listed sub visible e member))
      sub p at_
    have aside := gatherEntries_counted
      (fun e member => counted e (listed sub visible e member)) folded
    exact ⟨ev, folded, aside.invalid, aside.unauthorized⟩
  · exact gather_counted (fun e member => counted e (listed sub visible e member)) collected
  · exact fun s registeredAt aside => refused_of_setAside engine rfl aside registeredAt

/-- A contract is registered, and a relay's report with a list for its attempt. -/
theorem registration_agrees_plain : ∃ log, plainLog = .ok log ∧
    Agree toy (after toy log [(plainContract, 10), (listedReport, 20)])
      (engineOf (after toy log [(plainContract, 10), (listedReport, 20)]) []) := by
  obtain ⟨rc, made⟩ := issuedReceipt_facts
  obtain ⟨log, opened, -⟩ := bind_ok.mp made
  exact ⟨log, opened, registration_agrees (K := toy)
    (fun message => by simp [KeyPair.sign, toy, logKey]) opened _ []⟩

end RegistrationAgreement
