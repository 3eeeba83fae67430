import Custody.AuditCoverage
import Custody.HonestOperator
import Custody.ThirdParty

/-!
# Verdicts under registration delay

The third party judges what is visible by the clock, the auditor what has a
smaller index. The two are the same evidence when nothing registered for the
request is still on its way, and then an honest third party is never accused.
-/

namespace TimelyVerdicts

open PyValue HexBytes Commitments Statements Schemas Evidence Engine EngineMeaning TransparencyLog
  ReplayAudit LogInvariant RegisteredEvidence ReplayMeaning LogExport WithoutEvidence
  HonestReplay HonestOperator ThirdParty VerdictComparison PassedVerdict BlockedJudgment

variable {K : Primitives}

/-- Everything registered for the request is visible. -/
def Visible (log : Log) (sub : String) (now : Int) : Prop :=
  ∀ e ∈ log.entries, e.statement.sub = .str sub → isVerdict e = false → e.registeredAt ≤ now

def Judged (log : Log) (sub : String) : Prop :=
  ∃ e ∈ log.entries, isVerdict e = true ∧ e.statement.sub = .str sub

/-- The statement is already registered, and no evidence on its request came after it. -/
def Restated (log : Log) (stmt : SignedStatement) : Prop :=
  ∃ before e after, log.entries = before ++ e :: after ∧ e.statement = stmt ∧
    evidenceEntries after stmt.sub = []

/-- What a step must heed: a verdict is registered only when all evidence on its request is
visible, the private evidence of a judged request stays as it is, and a submitted verdict
repeats one that no evidence followed. A step that registers nothing is free. -/
def Timely (K : Primitives) (T : ThirdParty) : Operation → Prop
  | .submit stmt now => stmt.contentType = .str ctVerdict →
      (T.submit K stmt now).1.log = T.log ∨ Restated T.log stmt
  | .receivePrivate sub ev => Judged T.log sub →
      T.down = true ∨ find T.private_ (.str sub) = some ev
  | .requestVerdict sub expected now =>
      (T.requestVerdict K sub expected now).1.log = T.log ∨ Visible T.log sub now
  | .finalize sub expected now =>
      (T.finalize K sub expected now).1.log = T.log ∨ Visible T.log sub now
  | .setDown _ => True

def AllTimely (K : Primitives) : ThirdParty → List Operation → Prop
  | _, [] => True
  | T, op :: ops => Timely K T op ∧ AllTimely K (step K T op) ops

/-- The parties a request is to be judged with, if the operation asks for a verdict on it. -/
def asks (sub : String) : Operation → Option (List String)
  | .requestVerdict sub' expected _ => if sub' = sub then some expected else none
  | .finalize sub' expected _ => if sub' = sub then some expected else none
  | _ => none

/-- The invariant for one request that is always judged with the same parties. -/
structure Upright (K : Primitives) (sub : String) (parties : List String) (T : ThirdParty) :
    Prop where
  kept : Kept K T.log
  issuer : T.log.policy.tsIss = .str thirdPartyIss
  honest : T.misjudge = false
  own : AllVerdicts T.log fun _ e => Own K T.log.policy e.statement
  judged : AllVerdicts T.log fun before e => e.statement.sub = .str sub →
    JudgedWith K T.engine before e sub (find T.private_ (.str sub)) parties []
  expected : Judged T.log sub → find T.expectedParties (.str sub) = some parties

/-- One more entry: the invariant holds of the longer log when it holds of that entry. -/
theorem upright_grown {sub : String} {parties : List String} {T : ThirdParty} {log : Log}
    {x : LogEntry} (upright : Upright K sub parties T) (kept : Kept K log)
    (policy : log.policy = T.log.policy) (grown : log.entries = T.log.entries ++ [x])
    (own : isVerdict x = true → Own K T.log.policy x.statement)
    (judged : isVerdict x = true → x.statement.sub = .str sub →
      JudgedWith K T.engine T.log.entries x sub (find T.private_ (.str sub)) parties [])
    (expected : isVerdict x = true → x.statement.sub = .str sub →
      find T.expectedParties (.str sub) = some parties) :
    Upright K sub parties { T with log } := by
  have engine : ThirdParty.engine { T with log } = T.engine := by
    simp only [ThirdParty.engine, engineOf, policy]
  refine ⟨kept, policy ▸ upright.issuer, upright.honest, ?_, ?_, ?_⟩
  · rw [policy]
    exact allVerdicts_grown upright.own grown own
  · rw [engine]
    exact allVerdicts_grown upright.judged grown judged
  · rintro ⟨e, member, verdict, ofSub⟩
    rw [grown] at member
    rcases List.mem_append.mp member with old | new
    · exact upright.expected ⟨e, old, verdict, ofSub⟩
    · obtain rfl := List.mem_singleton.mp new
      exact expected verdict ofSub

/-- What is visible of a request is all the evidence on it. -/
theorem visible_evidence {log : Log} {sub : String} {now : Int} (visible : Visible log sub now) :
    ((log.statementsFor (.str sub) (some now)).filter fun e => !isVerdict e) =
      evidenceEntries log.entries (.str sub) := by
  rw [Log.statementsFor, List.filter_filter, evidenceEntries]
  apply List.filter_congr
  intro e member
  by_cases ofSub : e.statement.sub = .str sub
  · cases verdict : isVerdict e with
    | true => simp
    | false =>
      have seen := visible e member ofSub verdict
      simp [Log.visibleAt, seen]
  · have other : e.statement.sub.eq (.str sub) = false := by
      rw [Bool.eq_false_iff]
      intro same
      exact ofSub ((eq_str_right _ _).mp same)
    simp [other]

/-- An honest verdict is the engine's on all the evidence, when all of it is visible. -/
theorem reconcile_visible {T : ThirdParty} {sub : String} {expected : List String} {now : Int}
    {v : Verdict} (honest : T.misjudge = false) (visible : Visible T.log sub now)
    (h : T.reconcile K sub expected now = .ok v) :
    judge K T.engine (.str sub) (evidenceEntries T.log.entries (.str sub))
      (find T.private_ (.str sub)) now expected = .ok v := by
  rw [ThirdParty.reconcile, visible_evidence visible] at h
  obtain ⟨ev, gathered, h⟩ := bind_ok.mp h
  obtain ⟨v', judged, h⟩ := bind_ok.mp h
  obtain rfl := Except.ok.inj h
  rw [honest, if_neg Bool.false_ne_true, judge, gathered, ok_bind, judged]

/-- Registering an honest verdict keeps the invariant. -/
theorem upright_registerVerdict {sub sub' : String} {parties expected : List String}
    {T next : ThirdParty} {v : Verdict} {stmt : SignedStatement} {now : Int}
    (upright : Upright K sub parties T) (visible : Visible T.log sub' now)
    (made : T.reconcile K sub' expected now = .ok v)
    (same : sub' = sub → expected = parties ∧ find T.expectedParties (.str sub) = some parties)
    (registered : T.registerVerdict K sub' v now = .ok (next, stmt)) :
    Upright K sub parties next := by
  obtain ⟨issued, signed, registered⟩ := bind_ok.mp registered
  obtain ⟨⟨log, receipt⟩, accepted, registered⟩ := bind_ok.mp registered
  obtain ⟨rfl, rfl⟩ := Prod.mk.inj (Except.ok.inj registered)
  obtain ⟨kept, policy, entitled, x, grown, entry⟩ := registered_entry upright.kept accepted
  obtain ⟨payload, founded⟩ := upright.kept.founded
  obtain ⟨message, -, shape⟩ := issue_ok signed
  rw [← upright.issuer] at signed
  have ofSub : x.statement.sub = .str sub' := by
    rw [entry, shape]
    rfl
  refine upright_grown upright kept policy grown ?_ ?_ ?_
  · intro _
    rw [entry]
    exact own_of_accepted founded signed entitled
  · intro _ named
    obtain rfl := Value.str.inj (ofSub.symm.trans named)
    obtain ⟨rfl, -⟩ := same rfl
    refine ⟨v, now, ?_, reconcile_visible upright.honest visible made⟩
    rw [entry, shape, List.append_nil]
    rfl
  · intro _ named
    obtain rfl := Value.str.inj (ofSub.symm.trans named)
    exact (same rfl).2

theorem evidenceEntries_restated {before after : List LogEntry} {e : LogEntry} {sub : Value}
    (verdict : isVerdict e = true) (quiet : evidenceEntries after sub = []) :
    evidenceEntries (before ++ e :: after) sub = evidenceEntries before sub := by
  have own : (!isVerdict e) = false := by
    rw [verdict]
    rfl
  rw [evidenceEntries] at quiet
  rw [evidenceEntries, List.filter_append, List.filter_cons, own, Bool.and_false,
    if_neg Bool.false_ne_true, quiet, List.append_nil, evidenceEntries]

theorem not_grown {log next : Log} {x : LogEntry} (grown : next.entries = log.entries ++ [x]) :
    next ≠ log := by
  rintro rfl
  have lengths := congrArg List.length grown
  simp at lengths

theorem upright_submit {sub : String} {parties : List String} {T : ThirdParty}
    {stmt : SignedStatement} {now : Int} (upright : Upright K sub parties T)
    (timely : Timely K T (.submit stmt now)) : Upright K sub parties (T.submit K stmt now).1 := by
  simp only [Timely] at timely
  rw [ThirdParty.submit] at timely ⊢
  by_cases down : T.down = true
  · rw [if_pos down]
    exact upright
  · rw [if_neg down] at timely ⊢
    cases registered : T.log.register K stmt (now + T.totalDelayMs) with
    | error e =>
      exact ⟨upright.kept, upright.issuer, upright.honest, upright.own, upright.judged,
        upright.expected⟩
    | ok accepted =>
      obtain ⟨log, receipt⟩ := accepted
      rw [registered] at timely
      obtain ⟨kept, policy, entitled, x, grown, entry⟩ := registered_entry upright.kept registered
      have restated : isVerdict x = true → Restated T.log stmt := by
        intro verdict
        rw [isVerdict, entry] at verdict
        rcases timely ((eq_str_right _ _).mp verdict) with unchanged | restated
        · exact absurd unchanged (not_grown grown)
        · exact restated
      have longer : Upright K sub parties { T with log } := by
        refine upright_grown upright kept policy grown ?_ ?_ ?_
        · intro verdict
          obtain ⟨before, e, after, whole, same, -⟩ := restated verdict
          rw [entry, ← same]
          refine upright.own before e after whole ?_
          rw [isVerdict, same, ← entry]
          exact verdict
        · intro verdict ofSub
          obtain ⟨before, e, after, whole, same, quiet⟩ := restated verdict
          have sameEntry : e.statement = x.statement := same.trans entry.symm
          have earlier : isVerdict e = true := by
            rw [isVerdict, sameEntry]
            exact verdict
          obtain ⟨v, at_, payload, judged⟩ := upright.judged before e after whole earlier
            (by rw [sameEntry]; exact ofSub)
          refine ⟨v, at_, by rw [← sameEntry]; exact payload, ?_⟩
          rw [← entry, ofSub] at quiet
          rw [whole, evidenceEntries_restated earlier quiet]
          exact judged
        · intro verdict ofSub
          obtain ⟨before, e, after, whole, same, -⟩ := restated verdict
          refine upright.expected ⟨e, by rw [whole]; simp, ?_, ?_⟩
          · rw [isVerdict, same, ← entry]
            exact verdict
          · rw [same, ← entry]
            exact ofSub
      exact ⟨longer.kept, longer.issuer, longer.honest, longer.own, longer.judged,
        longer.expected⟩

theorem upright_receivePrivate {sub sub' : String} {parties : List String} {T : ThirdParty}
    {ev : PrivateEvidence} (upright : Upright K sub parties T)
    (timely : Timely K T (.receivePrivate sub' ev)) :
    Upright K sub parties (T.receivePrivate sub' ev).1 := by
  simp only [Timely] at timely
  rw [ThirdParty.receivePrivate]
  by_cases down : T.down = true
  · rw [if_pos down]
    exact upright
  · rw [if_neg down]
    have held : Judged T.log sub → find (PyValue.insert T.private_ (.str sub') ev) (.str sub) =
        find T.private_ (.str sub) := by
      intro judged
      by_cases same : sub' = sub
      · subst same
        rw [find_insert_self _ (by simp)]
        rcases timely judged with stopped | kept
        · exact absurd stopped down
        · exact kept.symm
      · exact find_insert_str_ne _ same ev
    refine ⟨upright.kept, upright.issuer, upright.honest, upright.own, ?_, upright.expected⟩
    intro before e after whole verdict ofSub
    have member : e ∈ T.log.entries := by
      have position : T.log.entries = before ++ e :: after := whole
      rw [position]
      simp
    have judged := upright.judged before e after whole verdict ofSub
    rw [← held ⟨e, member, verdict, ofSub⟩] at judged
    exact judged

theorem upright_asked {sub sub' : String} {parties expected : List String} {T : ThirdParty}
    (upright : Upright K sub parties T) (same : sub' = sub → expected = parties) :
    Upright K sub parties (T.asked sub' expected) ∧
      (sub' = sub → find (T.asked sub' expected).expectedParties (.str sub) = some parties) := by
  have asked : sub' = sub →
      find (PyValue.insert T.expectedParties (.str sub') expected) (.str sub) = some parties := by
    intro named
    rw [named, find_insert_self _ (by simp), same named]
  refine ⟨⟨upright.kept, upright.issuer, upright.honest, upright.own, upright.judged, ?_⟩, asked⟩
  intro judged
  by_cases named : sub' = sub
  · exact asked named
  · have kept := find_insert_str_ne T.expectedParties named expected
    exact kept.trans (upright.expected judged)

theorem registerVerdict_grows {T next : ThirdParty} {sub : String} {v : Verdict} {now : Int}
    {stmt : SignedStatement} (h : T.registerVerdict K sub v now = .ok (next, stmt)) :
    next.log ≠ T.log := by
  obtain ⟨issued, signed, h⟩ := bind_ok.mp h
  obtain ⟨⟨log, receipt⟩, accepted, h⟩ := bind_ok.mp h
  obtain ⟨rfl, rfl⟩ := Prod.mk.inj (Except.ok.inj h)
  obtain ⟨-, grown, -⟩ := append_ok (register_ok accepted).2
  exact not_grown grown

theorem upright_finalize {sub sub' : String} {parties expected : List String} {T : ThirdParty}
    {now : Int} (upright : Upright K sub parties T) (same : sub' = sub → expected = parties)
    (timely : Timely K T (.finalize sub' expected now)) :
    Upright K sub parties (T.finalize K sub' expected now).1 := by
  simp only [Timely] at timely
  rw [ThirdParty.finalize] at timely ⊢
  obtain ⟨asked, named⟩ := upright_asked upright same
  cases made : (T.asked sub' expected).reconcile K sub' expected now with
  | error e => exact asked
  | ok v =>
    rw [made, ok_bind] at timely
    rw [ok_bind]
    cases registered : (T.asked sub' expected).registerVerdict K sub' v now with
    | error e => exact asked
    | ok result =>
      obtain ⟨next, stmt⟩ := result
      rw [registered] at timely
      have grows : next.log ≠ (T.asked sub' expected).log := registerVerdict_grows registered
      rcases timely with unchanged | visible
      · exact absurd unchanged grows
      · exact upright_registerVerdict asked visible made (fun h => ⟨same h, named h⟩) registered

theorem upright_requestVerdict {sub sub' : String} {parties expected : List String}
    {T : ThirdParty} {now : Int} (upright : Upright K sub parties T)
    (same : sub' = sub → expected = parties)
    (timely : Timely K T (.requestVerdict sub' expected now)) :
    Upright K sub parties (T.requestVerdict K sub' expected now).1 := by
  simp only [Timely] at timely
  rw [ThirdParty.requestVerdict] at timely ⊢
  by_cases down : T.down = true
  · rw [if_pos down]
    exact upright
  · rw [if_neg down] at timely ⊢
    obtain ⟨asked, named⟩ := upright_asked upright same
    cases made : (T.asked sub' expected).reconcile K sub' expected now with
    | error e =>
      simp only [made, error_bind, ThirdParty.settle]
      exact asked
    | ok v =>
      simp only [made, ok_bind] at timely ⊢
      rw [ThirdParty.registerDecisive] at timely ⊢
      by_cases decided : ThirdParty.decisive v = true
      · rw [if_pos decided] at timely ⊢
        cases registered : (T.asked sub' expected).registerVerdict K sub' v now with
        | error e => exact asked
        | ok result =>
          obtain ⟨next, stmt⟩ := result
          rw [registered] at timely
          have grows : next.log ≠ (T.asked sub' expected).log := registerVerdict_grows registered
          rcases timely with unchanged | visible
          · exact absurd unchanged grows
          · exact upright_registerVerdict asked visible made (fun h => ⟨same h, named h⟩) registered
      · rw [if_neg decided]
        exact asked

theorem upright_step {sub : String} {parties : List String} {T : ThirdParty} {op : Operation}
    (upright : Upright K sub parties T) (timely : Timely K T op)
    (same : ∀ expected, asks sub op = some expected → expected = parties) :
    Upright K sub parties (step K T op) := by
  cases op with
  | submit stmt now => exact upright_submit upright timely
  | receivePrivate sub' ev => exact upright_receivePrivate upright timely
  | requestVerdict sub' expected now =>
    apply upright_requestVerdict upright _ timely
    intro named
    exact same expected (if_pos named)
  | finalize sub' expected now =>
    apply upright_finalize upright _ timely
    intro named
    exact same expected (if_pos named)
  | setDown down =>
    exact ⟨upright.kept, upright.issuer, upright.honest, upright.own, upright.judged,
      upright.expected⟩

theorem upright_run {sub : String} {parties : List String} {T : ThirdParty} {ops : List Operation}
    (upright : Upright K sub parties T) (timely : AllTimely K T ops)
    (same : ∀ op ∈ ops, ∀ expected, asks sub op = some expected → expected = parties) :
    Upright K sub parties (run K T ops) := by
  induction ops generalizing T with
  | nil => exact upright
  | cons op ops ih =>
    apply ih
    · exact upright_step upright timely.1 (same op List.mem_cons_self)
    · exact timely.2
    · intro later member
      exact same later (List.mem_cons_of_mem _ member)

theorem upright_created {key : KeyPair} {parties : List PartyKey} {referenceModelHashes : Dict}
    {down : Bool} {extraDelayMs now : Int} {T : ThirdParty}
    (created : ThirdParty.create K key parties referenceModelHashes false down extraDelayMs now =
      .ok T) (sub : String) (expected : List String) : Upright K sub expected T := by
  obtain ⟨log, opened, created⟩ := bind_ok.mp created
  obtain rfl := Except.ok.inj created
  have kept := kept_opened opened
  obtain ⟨issuer, -⟩ := opened_shape opened
  refine ⟨kept, (Except.ok.inj issuer).symm, rfl, allVerdicts_opened opened _,
    allVerdicts_opened opened _, ?_⟩
  rintro ⟨e, member, verdict, -⟩
  obtain ⟨-, -, -, impossible⟩ := (allVerdicts_opened opened fun _ _ => False).mem member verdict
  exact impossible.elim

theorem find_map {A B : Type} (f : A → B) (d : List (Value × A)) (x : Value) :
    find (d.map fun y => (y.1, f y.2)) x = (find d x).map f := by
  induction d with
  | nil => rfl
  | cons y d ih =>
    obtain ⟨k, a⟩ := y
    rw [List.map_cons, find, find]
    split
    · rfl
    · exact ih

/-- The auditor replays with the third party's own private evidence. -/
theorem selectPrivate_kept (T : ThirdParty) (anchorRecords heldReceipts : List Value)
    (tsa : Value → Except String Value) (sub : String) (v : Verdict) :
    ∃ priv, selectPrivate K (T.auditor anchorRecords heldReceipts tsa) (.str sub)
      (some (v.toDict ++ [])) = .ok priv ∧ readPrivate priv = .ok (find T.private_ (.str sub)) := by
  have unnamed : field (some (v.toDict ++ [])) "private_evidence_hash" = .null := rfl
  have keyed : (Value.str sub).hashable = true := rfl
  have supplied : find (T.auditor anchorRecords heldReceipts tsa).privateBySub (.str sub) =
      (find T.private_ (.str sub)).map PrivateEvidence.toDict := find_map _ _ _
  rw [selectPrivate, lookup, if_pos keyed, ok_bind, unnamed, supplied]
  refine ⟨_, rfl, ?_⟩
  cases find T.private_ (.str sub) with
  | none => rfl
  | some p =>
    have given : p.toDict.truthy = true := rfl
    rw [Option.map_some, Option.getD_some, readPrivate, if_pos given,
      PrivateEvidence.fromDict_toDict]
    rfl

theorem honest_of_upright {sub : String} {parties : List String} {T : ThirdParty}
    (upright : Upright K sub parties T) (anchorRecords heldReceipts : List Value)
    (tsa : Value → Except String Value) :
    HonestFor K (T.auditor anchorRecords heldReceipts tsa) T.log sub := by
  constructor
  · intro e member verdict _
    obtain ⟨-, -, -, own⟩ := upright.own.mem member verdict
    exact own
  · intro before e after whole verdict ofSub
    obtain ⟨v, now, payload, judged⟩ := upright.judged before e after whole verdict ofSub
    obtain ⟨priv, selected, readable⟩ := selectPrivate_kept (K := K) T anchorRecords
      heldReceipts tsa sub v
    have expected : expectedOf (T.auditor anchorRecords heldReceipts tsa) sub = parties := by
      have found := upright.expected ⟨e, by rw [whole]; simp, verdict, ofSub⟩
      rw [expectedOf, ThirdParty.auditor, found]
      rfl
    refine ⟨[], priv, find T.private_ (.str sub), ⟨v, now, payload, ?_⟩, ?_, readable⟩
    · rw [expected]
      exact judged
    · rw [payload]
      exact selected

/-- In a run whose steps are timely, an audit with what the third party keeps finds no mismatch
for a request that was judged, and always with the same parties. -/
theorem never_accused {key : KeyPair} {partyKeys : List PartyKey} {referenceModelHashes : Dict}
    {down : Bool} {extraDelayMs start : Int} {T : ThirdParty}
    (created : ThirdParty.create K key partyKeys referenceModelHashes false down extraDelayMs
      start = .ok T) {ops : List Operation} (timely : AllTimely K T ops) {sub : String}
    {parties : List String}
    (same : ∀ op ∈ ops, ∀ expected, asks sub op = some expected → expected = parties)
    (judged : Judged (run K T ops).log sub) {now : Int} {ex : Export}
    (exported : (run K T ops).log.exportLog K now = .ok ex)
    (anchorRecords heldReceipts : List Value) (tsa : Value → Except String Value) :
    (∃ record, auditSub K ((run K T ops).auditor anchorRecords heldReceipts tsa)
      (run K T ops).engine ex ((run K T ops).log.policy.key.publicKey K) (run K T ops).log.entries
      (headTimeOf ex.head) sub = .ok (record, []) ∧ record.sub = sub ∧ record.matched = true) ∧
    ∀ report, replayAudit K ((run K T ops).auditor anchorRecords heldReceipts tsa) ex =
      .ok report → ∀ record ∈ report.verdictMismatches, record.sub ≠ sub := by
  have upright := upright_run (upright_created created sub parties) timely same
  have formed := upright.kept.toFormed
  have faithful := faithful_export formed exported
  have honest := honest_of_upright upright anchorRecords heldReceipts tsa
  constructor
  · obtain ⟨record, made, named, matched, -⟩ := auditSub_honest formed faithful honest judged
    exact ⟨record, made, named, matched⟩
  · intro report audited record mismatch named
    obtain ⟨listed, unmatched⟩ := List.mem_filter.mp mismatch
    obtain ⟨matched, -⟩ := report_honest formed faithful honest judged audited listed named
    rw [matched] at unmatched
    cases unmatched

def simKeys : List PartyKey :=
  [(.user, "u", userKey), (.relay, "r", relayKey), (.model, "m", modelKey)]

def plainThirdParty : Py ThirdParty := ThirdParty.create toy logKey simKeys [] false false 0 0

/-- The contract takes 15 ms to register; the verdict is asked for after 5. -/
def delayedOps : List Operation :=
  [.submit plainContract 0, .finalize "urn:itx:req:1" allParties 5]

structure DelayedFacts where
  earlier : List Bool
  verdicts : List Bool
  subs : List String
  split : Nat × Nat
  signed : Bool
  refs : Nat
  replayed : Nat
  held : Bool
  expected : Option (List String)
  deriving DecidableEq

def delayedFacts (before after : ThirdParty) (ex : Export) : Py DelayedFacts := do
  let subs ← subsOf after.log.entries
  let signed ← after.log.policy.policyStatement.verifyWith toy (after.log.policy.key.publicKey toy)
  let (good, others) ← splitVerdicts toy ex (after.log.policy.key.publicKey toy)
    (.str "urn:itx:req:1") after.log.entries
  let seen ← before.reconcile toy "urn:itx:req:1" allParties 5
  let whole ← judge toy before.engine (.str "urn:itx:req:1")
    (evidenceEntries before.log.entries (.str "urn:itx:req:1")) none 5 allParties
  pure { earlier := before.log.entries.map isVerdict, subs, signed,
         verdicts := after.log.entries.map isVerdict, split := (good.length, others.length),
         refs := seen.evidenceRefs.length, replayed := whole.evidenceRefs.length,
         held := (find after.private_ (.str "urn:itx:req:1")).isSome,
         expected := find after.expectedParties (.str "urn:itx:req:1") }

def delayedRun : Py DelayedFacts := do
  let T ← plainThirdParty
  let before := run toy T (delayedOps.take 1)
  let after := run toy T delayedOps
  let ex ← after.log.exportLog toy 20
  delayedFacts before after ex

theorem delayedRun_facts : delayedRun = .ok
    { earlier := [false, false], verdicts := [false, false, true], subs := ["urn:itx:req:1"],
      split := (1, 0), signed := true, refs := 0, replayed := 1, held := false,
      expected := some allParties } := by
  decide +kernel

theorem eqList_length {xs ys : List Value} (h : Value.eqList xs ys = true) :
    xs.length = ys.length := by
  induction xs generalizing ys with
  | nil =>
    cases ys with
    | nil => rfl
    | cons y ys => cases h
  | cons x xs ih =>
    cases ys with
    | nil => cases h
    | cons y ys =>
      rw [Value.eqList, Bool.and_eq_true] at h
      rw [List.length_cons, List.length_cons, ih h.2]

/-- Verdicts that rest on different numbers of statements never match. -/
theorem differ_of_refs {v w : Verdict} (ignore : List Equations.EqId)
    (different : v.evidenceRefs.length ≠ w.evidenceRefs.length) :
    ∃ a b, verdictSignature v.toDict ignore = .ok a ∧ verdictSignature w.toDict ignore = .ok b ∧
      a.same b = false := by
  obtain ⟨codesV, evidenceV, -, sortedV, hv⟩ := verdictSignature_toDict v ignore
  obtain ⟨codesW, evidenceW, -, sortedW, hw⟩ := verdictSignature_toDict w ignore
  refine ⟨_, _, hv, hw, ?_⟩
  rw [Bool.eq_false_iff]
  intro same
  simp only [VerdictSignature.same, Bool.and_eq_true] at same
  have lengths := same.2
  rw [Value.eq] at lengths
  have lengths := eqList_length lengths
  have sizeV := (sortedBy_perm sortedV).length_eq
  have sizeW := (sortedBy_perm sortedW).length_eq
  simp only [List.length_map] at sizeV sizeW
  omega

/-- What a finalized verdict leaves in the log. -/
theorem finalize_ok {T : ThirdParty} {sub : String} {expected : List String} {now : Int}
    {v : Verdict} (kept : Kept K T.log)
    (made : T.reconcile K sub expected now = .ok v)
    (judged : (T.finalize K sub expected now).1.log.entries ≠ T.log.entries) :
    ∃ x, (T.finalize K sub expected now).1.log.entries = T.log.entries ++ [x] ∧
      Kept K (T.finalize K sub expected now).1.log ∧
      (T.finalize K sub expected now).1.engine = T.engine ∧
      x.statement.payload = v.toDict ∧ isVerdict x = true := by
  have asked : (T.asked sub expected).reconcile K sub expected now = .ok v := made
  rw [ThirdParty.finalize] at judged ⊢
  simp only [asked, ok_bind] at judged ⊢
  cases registered : (T.asked sub expected).registerVerdict K sub v now with
  | error e =>
    rw [registered] at judged
    exact absurd rfl judged
  | ok result =>
    obtain ⟨next, stmt⟩ := result
    obtain ⟨issued, signed, registered⟩ := bind_ok.mp registered
    obtain ⟨⟨log, receipt⟩, accepted, registered⟩ := bind_ok.mp registered
    obtain ⟨rfl, rfl⟩ := Prod.mk.inj (Except.ok.inj registered)
    have keptAsked : Kept K (T.asked sub expected).log := kept
    obtain ⟨longer, policy, -, x, grown, entry⟩ := registered_entry keptAsked accepted
    obtain ⟨message, -, shape⟩ := issue_ok signed
    refine ⟨x, grown, longer, ?_, ?_, ?_⟩
    · simp only [ThirdParty.settle, ThirdParty.engine, engineOf, policy]
      rfl
    · rw [entry, shape]
      rfl
    · rw [isVerdict, entry, shape]
      exact (eq_str_right _ _).mpr rfl

theorem submitted_timely (T : ThirdParty) (now : Int) :
    Timely toy T (.submit plainContract now) := by
  intro verdict
  obtain ⟨-, type, -⟩ := signedWith_parts userKey "u" "urn:itx:req:1" ctContract
    (contractPayload plainTerms) 0
  have same : Value.str ctContract = .str ctVerdict := type.symm.trans verdict
  exact absurd (Value.str.inj same) (by decide)

/-- An honest third party that judged before the contract was visible is accused. -/
theorem in_flight_accused : ∃ (T : ThirdParty) (ex : Export) (report : AuditReport),
    plainThirdParty = .ok T ∧ T.misjudge = false ∧ 0 ≤ T.totalDelayMs ∧
    (run toy T delayedOps).log.exportLog toy 20 = .ok ex ∧
    replayAudit toy ((run toy T delayedOps).auditor [] [] fun _ => .error "") ex = .ok report ∧
    Judged (run toy T delayedOps).log "urn:itx:req:1" ∧
    ∃ record ∈ report.verdictMismatches, record.sub = "urn:itx:req:1" := by
  obtain ⟨T, created, facts⟩ := bind_ok.mp delayedRun_facts
  obtain ⟨ex, exported, facts⟩ := bind_ok.mp facts
  obtain ⟨subs, listed, facts⟩ := bind_ok.mp facts
  obtain ⟨signed, verified, facts⟩ := bind_ok.mp facts
  obtain ⟨⟨good, others⟩, split, facts⟩ := bind_ok.mp facts
  obtain ⟨seen, made, facts⟩ := bind_ok.mp facts
  obtain ⟨whole, replayed, facts⟩ := bind_ok.mp facts
  simp only [pure_ok, Except.ok.injEq, DelayedFacts.mk.injEq, Prod.mk.injEq] at facts
  obtain ⟨earlier, verdicts, rfl, ⟨one, none_⟩, -, refs, refs', unheld, expected⟩ := facts
  have shape : T.misjudge = false ∧ 0 ≤ T.totalDelayMs := by
    obtain ⟨log, -, built⟩ := bind_ok.mp created
    obtain rfl := Except.ok.inj built
    have delay : (0 : Int) ≤ tsBaseDelayMs + 0 := by decide
    exact ⟨rfl, delay⟩
  have submitted : AllTimely toy T (delayedOps.take 1) := ⟨submitted_timely T 0, trivial⟩
  have same : ∀ op ∈ delayedOps.take 1, ∀ expected', asks "urn:itx:req:1" op = some expected' →
      expected' = allParties := by
    intro op member expected' asked
    obtain rfl := List.mem_singleton.mp member
    cases asked
  have upright := upright_run (upright_created created "urn:itx:req:1" allParties) submitted same
  let before := run toy T (delayedOps.take 1)
  let after := run toy T delayedOps
  have last : after = (before.finalize toy "urn:itx:req:1" allParties 5).1 := rfl
  have grows : (before.finalize toy "urn:itx:req:1" allParties 5).1.log.entries ≠
      before.log.entries := by
    intro same
    rw [← last] at same
    have both : after.log.entries.map isVerdict = before.log.entries.map isVerdict := by rw [same]
    rw [verdicts, earlier] at both
    cases both
  obtain ⟨x, grown, kept, engine, payload, verdict⟩ := finalize_ok upright.kept made grows
  rw [← last] at grown kept engine
  have formed := kept.toFormed
  have faithful := faithful_export formed exported
  have ordered : inOrder 0 (before.log.entries ++ x :: []) = true := by
    rw [← grown]
    exact formed.numbered
  have honest : ∀ e ∈ before.log.entries, isVerdict e = false := by
    have plain : ∀ flag ∈ before.log.entries.map isVerdict, flag = false := by
      rw [earlier]
      decide
    exact List.forall_mem_map.mp plain
  have nonempty : good ≠ [] := by
    rintro rfl
    cases one
  obtain ⟨only, there⟩ := splitVerdicts_last (by rw [← grown]; exact split) honest nonempty
  obtain rfl := List.length_eq_zero_iff.mp none_
  let auditor := after.auditor [] [] fun _ => .error ""
  have parties : expectedOf auditor "urn:itx:req:1" = allParties := by
    have found : find auditor.expectedPartiesBySub (.str "urn:itx:req:1") = some allParties :=
      expected
    rw [expectedOf, found]
    rfl
  have replay : judge toy after.engine (.str "urn:itx:req:1")
      ((evidenceEntries after.log.entries (.str "urn:itx:req:1")).filter fun e =>
        decide (e.index < x.index)) none x.statement.issuedAt allParties = .ok whole := by
    rw [grown, snapshot_before ordered verdict, engine, judge_time _ _ _ _ _ 5]
    exact replayed
  have each : ∀ e ∈ good, ∃ c, compareVerdict toy auditor after.engine after.log.entries
      (headTimeOf ex.head) (.str "urn:itx:req:1") (expectedOf auditor "urn:itx:req:1") (some e) =
        .ok c ∧ c.matched = false := by
    intro e inside
    rw [only e inside, parties]
    obtain ⟨priv, selected, readable⟩ := selectPrivate_kept (K := toy) after [] []
      (fun _ => .error "") "urn:itx:req:1" seen
    have noEvidence : find after.private_ (.str "urn:itx:req:1") = none :=
      Option.isNone_iff_eq_none.mp (Option.isSome_eq_false_iff.mp unheld)
    rw [noEvidence] at readable
    rw [List.append_nil, ← payload] at selected
    have counts : seen.evidenceRefs.length ≠ whole.evidenceRefs.length := by
      rw [refs, refs']
      decide
    obtain ⟨a, b, theirs, mine, differ⟩ := differ_of_refs
      (if priv.truthy then [] else privateOnlyEquations) counts
    rw [← payload] at theirs
    rw [← differ]
    refine compareVerdict_made ?_ selected readable replay theirs mine
    rw [payload]
    rintro ⟨⟩
  obtain ⟨record, audited, named, all, some_, unmatched⟩ := auditSub_each split nonempty each
  have accused : record.matched = false := by
    obtain ⟨c, rest, filed⟩ := List.exists_cons_of_ne_nil some_
    rw [all, filed, List.all_cons, unmatched c (by rw [filed]; exact List.mem_cons_self)]
    rfl
  have mapped : ["urn:itx:req:1"].mapM (auditSub toy auditor
      (engineOf after.log auditor.referenceModelHashes) ex (after.log.policy.key.publicKey toy)
      after.log.entries (headTimeOf ex.head)) = .ok [(record, [])] := by
    have made : auditSub toy auditor (engineOf after.log auditor.referenceModelHashes) ex
      (after.log.policy.key.publicKey toy) after.log.entries (headTimeOf ex.head)
        "urn:itx:req:1" = .ok (record, []) := audited
    rw [List.mapM_cons, made]
    rfl
  have unanchored : auditor.anchorRecords = [] := rfl
  have unreceipted : auditor.heldReceipts = [] := rfl
  obtain ⟨report, reported, checked, -⟩ :=
    (replayAudit_export faithful formed unanchored unreceipted verified listed).2 _ mapped
  obtain ⟨member, ofSub, -⟩ := ((splitVerdicts_ok split).1 x).mp there
  refine ⟨T, ex, report, created, shape.1, shape.2, exported, reported,
    ⟨x, member, verdict, (eq_str_right _ _).mp ofSub⟩, record, ?_, named⟩
  rw [AuditReport.verdictMismatches, checked]
  simp [accused]

/-- The verdict is asked for when the contract is visible. -/
def patientOps : List Operation :=
  [.submit plainContract 0, .finalize "urn:itx:req:1" allParties 20]

def patientRun : Py (Bool × Bool) := do
  let T ← plainThirdParty
  let after := run toy T patientOps
  let _ ← after.log.exportLog toy 30
  pure ((run toy T (patientOps.take 1)).log.entries.all fun e => decide (e.registeredAt ≤ 20),
    after.log.entries.any fun e => isVerdict e && e.statement.sub.eq (.str "urn:itx:req:1"))

theorem patientRun_facts : patientRun = .ok (true, true) := by decide +kernel

theorem never_accused_patient : ∃ (T : ThirdParty) (ex : Export), plainThirdParty = .ok T ∧
    (run toy T patientOps).log.exportLog toy 30 = .ok ex ∧
    (∃ record, auditSub toy ((run toy T patientOps).auditor [] [] fun _ => .error "")
      (run toy T patientOps).engine ex ((run toy T patientOps).log.policy.key.publicKey toy)
      (run toy T patientOps).log.entries (headTimeOf ex.head) "urn:itx:req:1" =
        .ok (record, []) ∧ record.sub = "urn:itx:req:1" ∧ record.matched = true) ∧
    ∀ report, replayAudit toy ((run toy T patientOps).auditor [] [] fun _ => .error "") ex =
      .ok report → ∀ record ∈ report.verdictMismatches, record.sub ≠ "urn:itx:req:1" := by
  obtain ⟨T, created, facts⟩ := bind_ok.mp patientRun_facts
  obtain ⟨ex, exported, facts⟩ := bind_ok.mp facts
  obtain ⟨visible, judged⟩ := Prod.mk.inj (Except.ok.inj facts)
  have timely : AllTimely toy T patientOps := by
    refine ⟨submitted_timely T 0, .inr ?_, trivial⟩
    intro e member _ _
    exact of_decide_eq_true (List.all_eq_true.mp visible e member)
  have same : ∀ op ∈ patientOps, ∀ expected, asks "urn:itx:req:1" op = some expected →
      expected = allParties := by
    intro op member expected asked
    rcases List.mem_cons.mp member with rfl | later
    · cases asked
    · obtain rfl := List.mem_singleton.mp later
      exact (Option.some.inj asked).symm
  have reached : Judged (run toy T patientOps).log "urn:itx:req:1" := by
    obtain ⟨e, member, both⟩ := List.any_eq_true.mp judged
    rw [Bool.and_eq_true] at both
    exact ⟨e, member, both.1, (eq_str_right _ _).mp both.2⟩
  exact ⟨T, ex, created, exported, never_accused created timely same reached exported [] [] _⟩

end TimelyVerdicts
