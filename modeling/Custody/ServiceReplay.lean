import Custody.HonestOperator
import Custody.Service

/-!
# Replaying a network third party

Whatever was submitted and whenever a verdict was asked for, each verdict names
the version of the private evidence it was made with. An auditor who holds all
versions under their hashes replays every verdict of every request.
-/

namespace ServiceReplay

open PyValue Equality HexBytes CanonicalJson Commitments Statements Schemas Evidence Engine
  EngineMeaning TransparencyLog ReplayAudit LogInvariant RegisteredEvidence ReplayMeaning LogExport
  PassedVerdict WithoutEvidence BlockedJudgment HonestReplay HonestOperator Identity Service

variable {K : Primitives}

def boundFields (contractHash privateHash : String) (validUntil : Int) : Dict :=
  fields [("contract_hash", .str contractHash), ("private_evidence_hash", .str privateHash),
    ("valid_until", .int validUntil)]

/-- The entry is a verdict made with a stored version of the private evidence, which it names. -/
def NetworkVerdict (K : Primitives) (V : Value → Prop) (engine : ReconciliationEngine)
    (before : List LogEntry) (e : LogEntry) : Prop :=
  ∃ sub priv p hash contractHash validUntil, e.statement.sub = .str sub ∧ V priv ∧
    readPrivate priv = .ok p ∧ contentHash K priv = .ok hash ∧
    JudgedWith K engine before e sub p Service.parties (boundFields contractHash hash validUntil)

/-- `V` holds of every version of private evidence that is ever stored. -/
structure Upright (K : Primitives) (V : Value → Prop) (hashes : Dict) (S : Service) : Prop where
  kept : Kept K S.log
  models : S.config.modelHashes = hashes
  issuer : S.log.policy.tsIss = .str (issOf .T)
  key : S.log.policy.key = S.key
  own : AllVerdicts S.log fun _ e => Own K S.log.policy e.statement
  judged : AllVerdicts S.log (NetworkVerdict K V S.engine)

theorem upright_grown {V : Value → Prop} {hashes : Dict} {S next : Service} {x : LogEntry}
    (upright : Upright K V hashes S) (kept : Kept K next.log)
    (policy : next.log.policy = S.log.policy)
    (key : next.key = S.key) (models : next.config.modelHashes = S.config.modelHashes)
    (grown : next.log.entries = S.log.entries ++ [x])
    (own : isVerdict x = true → Own K S.log.policy x.statement)
    (judged : isVerdict x = true → NetworkVerdict K V S.engine S.log.entries x) :
    Upright K V hashes next := by
  have engine : next.engine = S.engine := by
    simp only [Service.engine, engineOf, policy, models]
  refine ⟨kept, models.trans upright.models, policy ▸ upright.issuer,
    by rw [policy, key]; exact upright.key, ?_, ?_⟩
  · rw [policy]
    exact allVerdicts_grown upright.own grown own
  · rw [engine]
    exact allVerdicts_grown upright.judged grown judged

/-- What registering does: nothing, or one more entry. -/
theorem register_cases {S next : Service} {stmt : SignedStatement} {now : Int} {receipt : Value}
    (h : S.register K stmt now = .ok (next, receipt)) :
    next = S ∨ ∃ log rc journal, S.log.register K stmt now = .ok (log, rc) ∧
      next = { S with log, journal } := by
  obtain ⟨hash, -, h⟩ := bind_ok.mp h
  split at h
  · obtain ⟨rfl, -⟩ := Prod.mk.inj (Except.ok.inj h)
    exact .inl rfl
  · cases h
  · split at h
    · cases h
    · split at h
      · cases h
      · obtain ⟨⟨log, rc⟩, registered, h⟩ := bind_ok.mp h
        obtain ⟨rfl, -⟩ := Prod.mk.inj (Except.ok.inj h)
        exact .inr ⟨log, rc, _, registered, rfl⟩

theorem upright_register {V : Value → Prop} {hashes : Dict} {S next : Service}
    {stmt : SignedStatement} {now : Int} {receipt : Value} (upright : Upright K V hashes S)
    (h : S.register K stmt now = .ok (next, receipt))
    (own : stmt.contentType = .str ctVerdict → Accepted K S.log.policy stmt →
      Own K S.log.policy stmt)
    (judged : stmt.contentType = .str ctVerdict → ∀ x : LogEntry, x.statement = stmt →
      NetworkVerdict K V S.engine S.log.entries x) : Upright K V hashes next := by
  rcases register_cases h with rfl | ⟨log, rc, journal, registered, rfl⟩
  · exact upright
  · obtain ⟨kept, policy, accepted, x, grown, entry⟩ := registered_entry upright.kept registered
    have typed : isVerdict x = true → stmt.contentType = .str ctVerdict := by
      intro verdict
      rw [isVerdict, entry] at verdict
      exact (eq_str_right _ _).mp verdict
    refine upright_grown upright kept policy ?_ ?_ grown ?_ ?_
    · rfl
    · rfl
    · intro verdict
      rw [entry]
      exact own (typed verdict) accepted
    · intro verdict
      exact judged (typed verdict) x entry

theorem typesOf_unjudged {actor : Role} (other : actor ≠ .T) : ctVerdict ∉ typesOf actor := by
  cases actor with
  | T => exact absurd rfl other
  | _ => decide

theorem upright_submitStatement {V : Value → Prop} {hashes : Dict} {S next : Service} {actor : Role}
    {statement answer : Value} {retired : Bool} {now : Int} (upright : Upright K V hashes S)
    (other : actor ≠ .T)
    (h : S.submitStatement K actor statement retired now = .ok (next, answer)) :
    Upright K V hashes next := by
  obtain ⟨ct, -, h⟩ := bind_ok.mp h
  split at h
  · cases h
  · split at h
    · cases h
    · obtain ⟨stmt, authenticated, h⟩ := bind_ok.mp h
      obtain ⟨⟨grown, receipt⟩, registered, h⟩ := bind_ok.mp h
      obtain ⟨rfl, -⟩ := Prod.mk.inj (Except.ok.inj h)
      obtain ⟨name, listed, -, type⟩ := (authentic_of authenticated).type
      have unjudged : stmt.contentType ≠ .str ctVerdict := by
        intro verdict
        obtain rfl := Value.str.inj (type.symm.trans verdict)
        exact typesOf_unjudged other listed
      exact upright_register upright registered (fun verdict => absurd verdict unjudged)
        fun verdict => absurd verdict unjudged

/-- A private submission stores one version of what was submitted. -/
theorem submitPrivate_ok {S next : Service} {sub value answer : Value}
    (h : S.submitPrivate sub value = .ok (next, answer)) :
    ∃ s ev, PrivateEvidence.fromDict value = .ok ev ∧
      next = { S with private_ := PyValue.insert S.private_ (.str s) (canon ev.toDict) } := by
  have put : ∀ (s : String) (ev : PrivateEvidence), S.putPrivate s ev = .ok (next, answer) →
      next = { S with private_ := PyValue.insert S.private_ (.str s) (canon ev.toDict) } := by
    intro s ev h
    obtain ⟨value, kept, h⟩ := bind_ok.mp h
    obtain ⟨bytes, -, kept⟩ := bind_ok.mp kept
    obtain rfl := Except.ok.inj kept
    obtain ⟨rfl, -⟩ := Prod.mk.inj (Except.ok.inj h)
    rfl
  rw [Service.submitPrivate] at h
  split at h
  · cases h
  · obtain ⟨ev, read, h⟩ := bind_ok.mp h
    obtain ⟨-, -, h⟩ := bind_ok.mp h
    obtain ⟨-, -, h⟩ := bind_ok.mp h
    cases sub with
    | str s =>
      refine ⟨s, ev, read, ?_⟩
      simp only [Service.replacePrivate] at h
      split at h
      · exact put s ev h
      · obtain ⟨changed, -, h⟩ := bind_ok.mp h
        split at h
        · cases h
        · exact put s ev h
    | _ => cases h

theorem upright_submit {V : Value → Prop} {hashes : Dict} {S next : Service} {actor : Role}
    {p : Dict}
    {retired : Bool} {now : Int} {answer : Value} (upright : Upright K V hashes S)
    (other : actor ≠ .T)
    (h : S.submit K actor p retired now = .ok (next, answer)) : Upright K V hashes next := by
  rw [Service.submit] at h
  split at h
  · exact upright_submitStatement upright other h
  · split at h
    · obtain ⟨sub, ev, -, rfl⟩ := submitPrivate_ok h
      exact ⟨upright.kept, upright.models, upright.issuer, upright.key, upright.own, upright.judged⟩
    · cases h

/-- The fields that bind a verdict come after the engine's own. -/
theorem boundVerdict_append (v : Verdict) (contractHash privateHash : String) (validUntil : Int) :
    Service.boundVerdict v contractHash privateHash validUntil =
      v.toDict ++ boundFields contractHash privateHash validUntil := by
  have first : find v.toDict (.str "contract_hash") = none := rfl
  have second : find (v.toDict ++ [(.str "contract_hash", .str contractHash)])
      (.str "private_evidence_hash") = none := rfl
  have third : find (v.toDict ++ [(.str "contract_hash", .str contractHash)] ++
      [(.str "private_evidence_hash", .str privateHash)]) (.str "valid_until") = none := rfl
  rw [Service.boundVerdict, insert_absent first, insert_absent second, insert_absent third,
    List.append_assoc, List.append_assoc]
  rfl

/-- What a verdict operation that answers has read, judged, signed and registered. -/
structure Verdicted (K : Primitives) (S next : Service) (p : Dict) (clock : Service.Readings)
    (s : String) (priv : Value) (q : Option PrivateEvidence) (ev : EvidenceSet) (v : Verdict)
    (contractHash hash : String) (stmt : SignedStatement) : Prop where
  asked : getItem p "sub" = .ok (.str s)
  found : find S.private_ (.str s) = some priv
  readable : readPrivate priv = .ok q
  gathered : gather K S.engine (.str s)
    ((S.log.statementsFor (.str s) none).filter fun e => !isVerdict e) q clock.gathered = .ok ev
  judged : reconcile K S.engine ev Service.parties = .ok v
  hashed : contentHash K priv = .ok hash
  issued : issue K S.key (.str (issOf .T)) (.str s) (.str ctVerdict)
    (Service.boundVerdict v contractHash hash (clock.valid + 30000)) clock.issued = .ok stmt
  registered : ∃ receipt, S.register K stmt clock.registered = .ok (next, receipt)

theorem verdict_ok {S next : Service} {p : Dict} {clock : Service.Readings} {answer : Value}
    (h : S.verdict K p clock = .ok (next, answer)) :
    ∃ s priv q ev v contractHash hash stmt,
      Verdicted K S next p clock s priv q ev v contractHash hash stmt := by
  obtain ⟨sub, asked, h⟩ := bind_ok.mp h
  cases sub with
  | str s =>
    cases found : find S.private_ (.str s) with
    | none => simp [found] at h
    | some priv =>
      simp only [found] at h
      obtain ⟨q, readable, h⟩ := bind_ok.mp h
      obtain ⟨ev, gathered, h⟩ := bind_ok.mp h
      obtain ⟨v, judged, h⟩ := bind_ok.mp h
      cases contract : ev.contract with
      | none => simp [contract] at h
      | some c =>
        simp only [contract] at h
        obtain ⟨contractHash, -, h⟩ := bind_ok.mp h
        obtain ⟨hash, hashed, h⟩ := bind_ok.mp h
        obtain ⟨stmt, issued, h⟩ := bind_ok.mp h
        obtain ⟨⟨grown, receipt⟩, registered, h⟩ := bind_ok.mp h
        obtain ⟨head, -, h⟩ := bind_ok.mp h
        obtain ⟨rfl, -⟩ := Prod.mk.inj (Except.ok.inj h)
        exact ⟨s, priv, q, ev, v, contractHash, hash, stmt, asked, found, readable, gathered,
          judged, hashed, issued, receipt, registered⟩
  | _ => cases h

theorem upright_verdict {V : Value → Prop} {hashes : Dict} {S next : Service} {p : Dict}
    {clock : Service.Readings} {answer : Value} (upright : Upright K V hashes S)
    (held : ∀ x ∈ S.private_, V x.2) (h : S.verdict K p clock = .ok (next, answer)) :
    Upright K V hashes next := by
  obtain ⟨s, priv, q, ev, v, contractHash, hash, stmt, given⟩ := verdict_ok h
  obtain ⟨receipt, registered⟩ := given.registered
  obtain ⟨message, -, shape⟩ := issue_ok given.issued
  have stored : V priv := by
    obtain ⟨k, listed, -⟩ := find_mem given.found
    exact held _ listed
  have all : (S.log.statementsFor (.str s) none).filter (fun e => !isVerdict e) =
      evidenceEntries S.log.entries (.str s) := by
    rw [Log.statementsFor, List.filter_filter, evidenceEntries]
    apply List.filter_congr
    intro e _
    simp [Log.visibleAt, Bool.and_comm]
  have gathered := given.gathered
  rw [all] at gathered
  apply upright_register upright registered
  · intro _ accepted
    have issued := given.issued
    obtain ⟨payload, founded⟩ := upright.kept.founded
    rw [← upright.key, ← upright.issuer] at issued
    exact own_of_accepted founded issued accepted
  · intro _ x entry
    refine ⟨s, priv, q, hash, contractHash, clock.valid + 30000, ?_, stored, given.readable,
      given.hashed, v, clock.gathered, ?_, ?_⟩
    · rw [entry, shape]
      rfl
    · rw [entry, shape, ← boundVerdict_append]
      rfl
    · rw [judge, gathered, ok_bind]
      exact given.judged

theorem upright_step {V : Value → Prop} {hashes : Dict} {S : Service} {op : Operation}
    (upright : Upright K V hashes S) (held : ∀ x ∈ S.private_, V x.2)
    (others : ∀ actor p retired now, op = .submit actor p retired now → actor ≠ .T) :
    Upright K V hashes (step K S op) := by
  rw [step]
  cases done : perform K S op with
  | error e => exact upright
  | ok result =>
    obtain ⟨next, answer⟩ := result
    cases op with
    | submit actor p retired now => exact upright_submit upright (others _ _ _ _ rfl) done
    | verdict p clock => exact upright_verdict upright held done

theorem upright_run {V : Value → Prop} {hashes : Dict} {S : Service} {ops : List Operation}
    (upright : Upright K V hashes S) (held : ∀ v ∈ everStored K S ops, V v)
    (others : ∀ actor p retired now, .submit actor p retired now ∈ ops → actor ≠ .T) :
    Upright K V hashes (run K S ops) := by
  induction ops generalizing S with
  | nil => exact upright
  | cons op ops ih =>
    apply ih
    · apply upright_step upright
      · intro x member
        exact held x.2 (List.mem_append_left _ (List.mem_map_of_mem member))
      · rintro actor p retired now rfl
        exact others actor p retired now List.mem_cons_self
    · intro v member
      exact held v (List.mem_append_right _ member)
    · intro actor p retired now member
      exact others actor p retired now (List.mem_cons_of_mem _ member)

theorem upright_started {config : Config} {seed : Bytes} {S : Service}
    (started : Service.start K config seed = .ok S) (V : Value → Prop) :
    Upright K V config.modelHashes S := by
  obtain ⟨key, -, started⟩ := bind_ok.mp started
  obtain ⟨log, opened, started⟩ := bind_ok.mp started
  obtain rfl := Except.ok.inj started
  obtain ⟨issuer, signer, -⟩ := opened_shape opened
  have named : getItem (policyFor config) "ts_iss" = .ok (.str (issOf .T)) := by
    rw [policyFor]
    cases config.deploymentHash with
    | none => rfl
    | some hash =>
      by_cases empty : hash = ""
      · simp only [empty, if_true]
        rfl
      · simp only [empty, if_false]
        rfl
  rw [named] at issuer
  exact ⟨kept_opened opened, rfl, (Except.ok.inj issuer).symm, signer, allVerdicts_opened opened _,
    allVerdicts_opened opened _⟩

theorem contentHash_nonempty {v : Value} {hash : String} (h : contentHash K v = .ok hash) :
    hash ≠ "" := by
  obtain ⟨bytes, -, written⟩ := bind_ok.mp h
  rintro rfl
  have length := hex_length (K.sha256 bytes)
  have same : hex (K.sha256 bytes) = "" := Except.ok.inj written
  rw [same, K.sha256_length] at length
  cases length

/-- An auditor who holds every version under its hash selects the one the verdict names. -/
theorem selectPrivate_named {auditor : Auditor} {priv : Value} {hash : String}
    {p : Option PrivateEvidence} (sub : String) (v : Verdict) (contractHash : String)
    (validUntil : Int) (hashed : contentHash K priv = .ok hash)
    (held : find auditor.privateByHash (.str hash) = some priv)
    (readable : readPrivate priv = .ok p) :
    ∃ selected, selectPrivate K auditor (.str sub)
      (some (v.toDict ++ boundFields contractHash hash validUntil)) = .ok selected ∧
      readPrivate selected = .ok p := by
  have named : field (some (v.toDict ++ boundFields contractHash hash validUntil))
      "private_evidence_hash" = .str hash := rfl
  have keyed : ∀ s, (Value.str s).hashable = true := fun _ => rfl
  have given : (Value.str hash).truthy = true := by
    rw [Value.truthy, bne_iff_ne]
    exact contentHash_nonempty hashed
  simp only [selectPrivate, lookup, keyed, if_true, named, given, ok_bind, held, Bool.not_true,
    Bool.false_eq_true, if_false, Option.getD_some]
  by_cases empty : priv.truthy = true
  · refine ⟨priv, ?_, readable⟩
    simp [empty, hashed]
  · refine ⟨.null, ?_, ?_⟩
    · simp [empty]
    · rw [readPrivate, if_neg empty] at readable
      exact readable

def Judged (log : Log) (sub : String) : Prop :=
  ∃ e ∈ log.entries, isVerdict e = true ∧ e.statement.sub = .str sub

instance (log : Log) (sub : String) : Decidable (Judged log sub) :=
  decidable_of_iff (log.entries.any fun e => isVerdict e && e.statement.sub.eq (.str sub)) (by
    simp [Judged, eq_str_right])

theorem honest_of_upright {V : Value → Prop} {hashes : Dict} {S : Service} {auditor : Auditor}
    (upright : Upright K V hashes S) (models : auditor.referenceModelHashes = hashes)
    (defaults : ∀ sub, expectedOf auditor sub = Service.parties)
    (holds : ∀ v, V v → ∃ hash, contentHash K v = .ok hash ∧
      find auditor.privateByHash (.str hash) = some v) (sub : String) :
    HonestFor K auditor S.log sub := by
  have engine : engineOf S.log auditor.referenceModelHashes = S.engine := by
    rw [models, Service.engine, upright.models]
  constructor
  · intro e member verdict _
    obtain ⟨-, -, -, own⟩ := upright.own.mem member verdict
    exact own
  · intro before e after whole verdict ofSub
    obtain ⟨sub', priv, p, hash, contractHash, validUntil, named, stored, readable, hashed, v, now,
      payload, judged⟩ := upright.judged before e after whole verdict
    obtain rfl := Value.str.inj (named.symm.trans ofSub)
    obtain ⟨hash', hashed', held⟩ := holds priv stored
    obtain rfl := Except.ok.inj (hashed.symm.trans hashed')
    obtain ⟨selected, chosen, read⟩ := selectPrivate_named sub' v contractHash validUntil
      hashed held readable
    refine ⟨_, selected, p, ⟨v, now, payload, ?_⟩, ?_, read⟩
    · rw [engine, defaults]
      exact judged
    · rw [payload]
      exact chosen

/-- Whatever was submitted, and whenever verdicts were asked for: an auditor who holds every
stored version of the private evidence finds that each verdict matches its replay, and sets
none aside. -/
theorem verdicts_match {config : Config} {seed : Bytes} {S : Service}
    (started : Service.start K config seed = .ok S) {ops : List Operation}
    (others : ∀ actor p retired now, .submit actor p retired now ∈ ops → actor ≠ .T) {now : Int}
    {ex : Export} (exported : (run K S ops).log.exportLog K now = .ok ex) {auditor : Auditor}
    (models : auditor.referenceModelHashes = config.modelHashes)
    (defaults : ∀ sub, expectedOf auditor sub = ["U", "R", "M"])
    (holds : ∀ v ∈ everStored K S ops, ∃ hash, contentHash K v = .ok hash ∧
      find auditor.privateByHash (.str hash) = some v) :
    (∀ report, replayAudit K auditor ex = .ok report → report.unauthenticatedVerdicts = [] ∧
      ∀ record ∈ report.verdictsChecked, Judged (run K S ops).log record.sub →
        record.matched = true ∧ ∀ c ∈ record.historicalVerdicts, c.matched = true) ∧
    ∀ sub, Judged (run K S ops).log sub → ∃ record, auditSub K auditor
      (engineOf (run K S ops).log auditor.referenceModelHashes) ex
      ((run K S ops).log.policy.key.publicKey K) (run K S ops).log.entries
      (headTimeOf ex.head) sub = .ok (record, []) ∧ record.matched = true ∧
        ∀ c ∈ record.historicalVerdicts, c.matched = true := by
  have upright := upright_run (upright_started started fun v => v ∈ everStored K S ops)
    (fun v member => member) others
  have formed := upright.kept.toFormed
  have faithful := faithful_export formed exported
  have honest := honest_of_upright upright models defaults holds
  constructor
  · intro report audited
    constructor
    · apply report_authenticated formed faithful _ audited
      intro e member verdict
      obtain ⟨-, -, -, own⟩ := upright.own.mem member verdict
      exact own
    · intro record listed judged
      exact report_honest formed faithful (honest record.sub) judged audited listed rfl
  · intro sub judged
    obtain ⟨record, made, -, matched, all⟩ := auditSub_honest formed faithful (honest sub) judged
    exact ⟨record, made, matched, all⟩

theorem step_private (S : Service) (op : Operation) : (step K S op).private_ = S.private_ ∨
    ∃ actor p retired now s ev, op = .submit actor p retired now ∧
      PrivateEvidence.fromDict (getOr p "private") = .ok ev ∧
      (step K S op).private_ = PyValue.insert S.private_ (.str s) (canon ev.toDict) := by
  have registered : ∀ {S next : Service} {stmt : SignedStatement} {now : Int} {receipt : Value},
      S.register K stmt now = .ok (next, receipt) → next.private_ = S.private_ := by
    intro S next stmt now receipt h
    rcases register_cases h with rfl | ⟨log, rc, journal, -, rfl⟩ <;> rfl
  rw [step]
  cases done : perform K S op with
  | error e => exact .inl rfl
  | ok result =>
    obtain ⟨next, answer⟩ := result
    cases op with
    | submit actor p retired now =>
      rw [perform, Service.submit] at done
      split at done
      · obtain ⟨ct, -, done⟩ := bind_ok.mp done
        split at done
        · cases done
        · split at done
          · cases done
          · obtain ⟨stmt, -, done⟩ := bind_ok.mp done
            obtain ⟨⟨grown, receipt⟩, accepted, done⟩ := bind_ok.mp done
            obtain ⟨rfl, -⟩ := Prod.mk.inj (Except.ok.inj done)
            exact .inl (registered accepted)
      · split at done
        · obtain ⟨s, ev, read, rfl⟩ := submitPrivate_ok done
          exact .inr ⟨actor, p, retired, now, s, ev, rfl, read, rfl⟩
        · cases done
    | verdict p clock =>
      obtain ⟨s, priv, q, ev, v, contractHash, hash, stmt, given⟩ := verdict_ok done
      obtain ⟨receipt, accepted⟩ := given.registered
      exact .inl (registered accepted)

/-- Every version that is ever stored was there at the start or was submitted in the run. -/
theorem everStored_source {S : Service} {ops : List Operation} {v : Value}
    (member : v ∈ everStored K S ops) : v ∈ S.private_.map Prod.snd ∨
      ∃ actor p retired now ev, .submit actor p retired now ∈ ops ∧
        PrivateEvidence.fromDict (getOr p "private") = .ok ev ∧ v = canon ev.toDict := by
  induction ops generalizing S with
  | nil => exact .inl member
  | cons op ops ih =>
    rcases List.mem_append.mp member with now_ | later
    · exact .inl now_
    · rcases ih later with held | ⟨actor, p, retired, now, ev, inside, facts⟩
      · rcases step_private (K := K) S op with same |
          ⟨actor, p, retired, now, s, ev, rfl, read, grown⟩
        · rw [same] at held
          exact .inl held
        · rw [grown] at held
          obtain ⟨x, inside, rfl⟩ := List.mem_map.mp held
          rcases PassedVerdict.mem_insert inside with new | old
          · exact .inr ⟨actor, p, retired, now, ev, List.mem_cons_self, read, new⟩
          · exact .inl (List.mem_map_of_mem old)
      · exact .inr ⟨actor, p, retired, now, ev, List.mem_cons_of_mem _ inside, facts⟩

def networkConfig : Config :=
  { identities := fun role => match role with
      | .U => { iss := issOf .U, kid := "kid-u", publicKey := userKey.publicHex toy }
      | .R => { iss := issOf .R, kid := "kid-r", publicKey := relayKey.publicHex toy }
      | .M => { iss := issOf .M, kid := "kid-m", publicKey := modelKey.publicHex toy }
      | .T => { iss := issOf .T, kid := "kid-t", publicKey := logKey.publicHex toy }
    logId := "log", createdAt := 0, modelHashes := [] }

def networkContract : SignedStatement :=
  signedWith userKey (issOf .U) "urn:itx:req:1" ctContract (contractPayload plainTerms) 0

/-- A contract, the private evidence for it, and a verdict. -/
def networkOps : List Operation :=
  [.submit .U (fields [("statement", networkContract.toDict)]) false 10,
    .submit .U (fields [("sub", .str "urn:itx:req:1"), ("private", plainPrivate.toDict)]) false 20,
    .verdict (fields [("sub", .str "urn:itx:req:1")])
      { gathered := 30, valid := 30, issued := 30, registered := 31, head := 32 }]

/-- The hash of the evidence, whether none was there before, and whether the request is judged. -/
def networkRun : Py (String × Bool × Bool) := do
  let S ← Service.start brief networkConfig logKey.seed
  let after := run brief S networkOps
  let _ ← after.log.exportLog brief 40
  let hash ← contentHash brief (canon plainPrivate.toDict)
  pure (hash, S.private_.isEmpty, Judged after.log "urn:itx:req:1")

theorem networkRun_facts : networkRun.map Prod.snd = .ok (true, true) := by decide +kernel

theorem submitted_private {actor : Role} {p : Dict} {retired : Bool} {now : Int}
    {ev : PrivateEvidence} (member : .submit actor p retired now ∈ networkOps)
    (read : PrivateEvidence.fromDict (getOr p "private") = .ok ev) : ev = plainPrivate := by
  rcases List.mem_cons.mp member with first | rest
  · obtain ⟨-, rfl, -⟩ := Operation.submit.inj first
    cases read
  · rcases List.mem_cons.mp rest with second | last
    · obtain ⟨-, rfl, -⟩ := Operation.submit.inj second
      have same : getOr (fields [("sub", .str "urn:itx:req:1"),
          ("private", plainPrivate.toDict)]) "private" = plainPrivate.toDict := rfl
      rw [same, PrivateEvidence.fromDict_toDict] at read
      exact (Except.ok.inj read).symm
    · cases List.mem_singleton.mp last

theorem not_by_log {actor : Role} {p : Dict} {retired : Bool} {now : Int}
    (member : .submit actor p retired now ∈ networkOps) : actor ≠ .T := by
  rcases List.mem_cons.mp member with first | rest
  · obtain ⟨rfl, -⟩ := Operation.submit.inj first
    decide
  · rcases List.mem_cons.mp rest with second | last
    · obtain ⟨rfl, -⟩ := Operation.submit.inj second
      decide
    · cases List.mem_singleton.mp last

theorem verdicts_match_network : ∃ (S : Service) (ex : Export) (auditor : Auditor),
    Service.start brief networkConfig logKey.seed = .ok S ∧
    (run brief S networkOps).log.exportLog brief 40 = .ok ex ∧
    Judged (run brief S networkOps).log "urn:itx:req:1" ∧
    (∀ report, replayAudit brief auditor ex = .ok report → report.unauthenticatedVerdicts = [] ∧
      ∀ record ∈ report.verdictsChecked, Judged (run brief S networkOps).log record.sub →
        record.matched = true ∧ ∀ c ∈ record.historicalVerdicts, c.matched = true) ∧
    ∀ sub, Judged (run brief S networkOps).log sub → ∃ record, auditSub brief auditor
      (engineOf (run brief S networkOps).log auditor.referenceModelHashes) ex
      ((run brief S networkOps).log.policy.key.publicKey brief) (run brief S networkOps).log.entries
      (headTimeOf ex.head) sub = .ok (record, []) ∧ record.matched = true ∧
        ∀ c ∈ record.historicalVerdicts, c.matched = true := by
  obtain ⟨⟨hash, flags⟩, made, rfl⟩ := map_ok networkRun_facts
  obtain ⟨S, started, made⟩ := bind_ok.mp made
  obtain ⟨ex, exported, made⟩ := bind_ok.mp made
  obtain ⟨hash', hashed, made⟩ := bind_ok.mp made
  obtain ⟨rfl, flags⟩ := Prod.mk.inj (Except.ok.inj made)
  obtain ⟨empty, judged⟩ := Prod.mk.inj flags
  let auditor : Auditor :=
    { privateBySub := [], expectedPartiesBySub := [], referenceModelHashes := [],
      privateByHash := [(.str hash', canon plainPrivate.toDict)], tsa := fun _ => .error "" }
  have holds : ∀ v ∈ everStored brief S networkOps, ∃ hash, contentHash brief v = .ok hash ∧
      find auditor.privateByHash (.str hash) = some v := by
    intro v member
    rcases everStored_source member with held | ⟨actor, p, retired, now, ev, inside, read, rfl⟩
    · rw [List.isEmpty_iff.mp empty] at held
      cases held
    · rw [submitted_private inside read]
      exact ⟨hash', hashed, by simp [auditor, find]⟩
  have models : auditor.referenceModelHashes = networkConfig.modelHashes := rfl
  exact ⟨S, ex, auditor, started, exported, of_decide_eq_true judged,
    verdicts_match started (fun _ _ _ _ => not_by_log) exported models (fun _ => rfl) holds⟩

end ServiceReplay
