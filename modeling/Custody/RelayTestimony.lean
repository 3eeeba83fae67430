import Custody.Equality
import Custody.Judgeability
import Custody.PassedVerdict

/-!
# What a relay's statement can change

A relay statement that joins evidence already judged `failed` changes which branches the
equations take, but none of them forgives: what was decided without it and did not hold is
decided with it and does not hold. It can only keep the engine from reaching a verdict.
-/

namespace RelayTestimony

open PyValue Equality Commitments Statements Schemas Evidence Equations EquationMeaning
  Discrepancies Engine EngineMeaning Judgeability PassedVerdict

variable {K : Primitives}

/-- The evidence with a relay statement, and with the references that come with it. -/
def heard (ev : EvidenceSet) (s : SignedStatement) (more : List StatementRef) : EvidenceSet :=
  { ev with relay := some s, refs := ev.refs ++ more }

section

variable {ev : EvidenceSet} {s : SignedStatement} {more : List StatementRef}

@[simp] theorem heard_c : (heard ev s more).c = ev.c := rfl
@[simp] theorem heard_r : (heard ev s more).r = some s.payload := rfl
@[simp] theorem heard_m : (heard ev s more).m = ev.m := rfl
@[simp] theorem heard_o : (heard ev s more).o = ev.o := rfl

theorem r_of_silent (silent : ev.relay = none) : ev.r = none := by
  rw [EvidenceSet.r, silent]
  rfl

/-- Without a relay record the attempts are those of the others. -/
theorem attemptIds_silent (silent : ev.r = none) : (attemptIds ev).map Prod.snd =
    ([ev.c, ev.m, ev.o].filterMap id).map fun d => getOr d "attempt_id" := by
  rw [attemptIds_values, silent]
  cases ev.c <;> rfl

/-- Attempts that agree with a relay's agree without it. -/
theorem sameAttempts_silent (silent : ev.r = none)
    (enough : 2 ≤ (attemptIds ev).length)
    (keyed : ∀ d ∈ [ev.c, ev.m, ev.o].filterMap id, (getOr d "attempt_id").hashable = true)
    (same : SameAttempts (heard ev s more)) : SameAttempts ev := by
  rw [SameAttempts, attemptIds_values] at same
  rw [SameAttempts, attemptIds_silent silent]
  obtain ⟨first, head, tail⟩ := same
  cases hc : ev.c with
  | some c =>
    rw [heard_c, hc] at head tail
    refine ⟨first, head, ?_⟩
    intro x member
    refine tail x ?_
    exact List.mem_cons_of_mem _ member
  | none =>
    have count : 2 ≤ ([ev.c, ev.m, ev.o].filterMap id).length := by
      have length := congrArg List.length (attemptIds_silent silent)
      rw [List.length_map, List.length_map] at length
      omega
    rw [hc] at count keyed
    rw [heard_c, hc] at head tail
    cases hm : ev.m with
    | none =>
      cases ho : ev.o with
      | none => simp [hm, ho] at count
      | some o => simp [hm, ho] at count
    | some m =>
      cases ho : ev.o with
      | none => simp [hm, ho] at count
      | some o =>
        rw [hm, ho] at keyed
        rw [heard_m, heard_o, hm, ho] at tail
        have left := keyed m List.mem_cons_self
        have right := keyed o (List.mem_cons_of_mem _ List.mem_cons_self)
        have ofM := tail (getOr m "attempt_id") List.mem_cons_self
        have ofO := tail (getOr o "attempt_id") (List.mem_cons_of_mem _ List.mem_cons_self)
        refine ⟨getOr m "attempt_id", rfl, ?_⟩
        intro x member
        rw [List.mem_singleton.mp member]
        exact eq_of_common left right ofM ofO

/-- What the evidence decides against stays decided against it. -/
theorem broken_heard (silent : ev.r = none)
    (keyed : 2 ≤ (attemptIds ev).length →
      ∀ d ∈ [ev.c, ev.m, ev.o].filterMap id, (getOr d "attempt_id").hashable = true)
    {k : EqId} (decided : Decided k ev) (fails : ¬ Holds K k ev) :
    Decided k (heard ev s more) ∧ ¬ Holds K k (heard ev s more) := by
  have unsaid : ∀ name, field ev.r name = .null := by
    intro name
    rw [silent]
    rfl
  cases k with
  | e1 => exact ⟨decided, fails⟩
  | e2 =>
    obtain ⟨-, spoken⟩ := decided
    rw [silent] at spoken
    cases spoken
  | e3 =>
    obtain ⟨spoken, -⟩ := decided
    rw [silent] at spoken
    cases spoken
  | e4 =>
    obtain ⟨contract, spoken, decided⟩ := decided
    have declared : RequestDeclared ev := .inl (unsaid _)
    have unapproved : ¬ SeenApproved ev := fun approved => fails ⟨declared, approved⟩
    have byM : (field ev.m "request_commit").isNone = false := by
      cases absent : (field ev.m "request_commit").isNone with
      | false => rfl
      | true =>
        rw [commitSeen, absent, silent] at spoken
        cases spoken
    have same : commitSeen (heard ev s more) = commitSeen ev := by
      rw [commitSeen, commitSeen, heard_m, byM]
      rfl
    have still : ¬ SeenApproved (heard ev s more) := by
      rintro ⟨v, seen, approved⟩
      rw [same] at seen
      exact unapproved ⟨v, seen, approved⟩
    refine ⟨⟨contract, by rw [same]; exact spoken, ?_⟩, fun holds => still holds.2⟩
    rcases decided with undeclared | approved | recomputed
    · exact absurd declared undeclared
    · exact absurd approved unapproved
    · exact .inr (.inr recomputed)
  | e5 =>
    obtain ⟨contract, reported⟩ := decided
    have byM : ev.m.isSome := by
      rcases reported with byM | byR
      · exact byM
      · rw [silent] at byR
        cases byR
    refine ⟨⟨contract, .inl byM⟩, fun holds => fails ⟨holds.1, ?_⟩⟩
    intro byR
    rw [silent] at byR
    cases byR
  | e6 => exact absurd (unsaid _) decided.2
  | e7 => exact absurd (unsaid _) decided.2
  | e8 =>
    obtain ⟨contract, reported, decided⟩ := decided
    have byM : ev.m.isSome := by
      rcases reported with byM | byR
      · exact byM
      · rw [silent] at byR
        cases byR
    have same : modelServed (heard ev s more) = modelServed ev := by
      rw [modelServed, modelServed, heard_m, if_pos byM, if_pos byM]
    have elsewhere : ¬ ServedAsRequested ev := fun asked => fails (.inl asked)
    have still : ¬ ServedAsRequested (heard ev s more) := by
      rw [ServedAsRequested, same]
      exact elsewhere
    refine ⟨⟨contract, .inl byM, .inr (.inr (.inr rfl))⟩, ?_⟩
    rintro (asked | ⟨allowed, permitted, -⟩)
    · exact still asked
    · rw [ServedAllowed, same] at allowed
      rcases decided with asked | outside | forbidden | byR
      · exact elsewhere asked
      · exact outside allowed
      · exact permitted forbidden
      · rw [silent] at byR
        cases byR
  | e9 => exact ⟨decided, fails⟩
  | e10 =>
    obtain ⟨signed, received, decided⟩ := decided
    have declared : ResponseDeclared ev := .inl (unsaid _)
    have only : allowedResponses ev = [.str identity] :=
      decided.resolve_left fun undeclared => undeclared declared
    exact ⟨⟨signed, received, .inr only⟩, fun holds => fails ⟨declared, holds.2⟩⟩
  | e11 =>
    have enough : 2 ≤ (attemptIds ev).length := decided
    refine ⟨?_, fun same => fails (sameAttempts_silent silent enough (keyed enough) same)⟩
    have before := congrArg List.length (attemptIds_silent silent)
    have after := congrArg List.length (attemptIds_values (heard ev s more))
    have grown : ([ev.c, ev.m, ev.o].filterMap id).length ≤
        ([ev.c, some s.payload, ev.m, ev.o].filterMap id).length := by
      cases ev.c with
      | none => exact Nat.le_succ _
      | some c => exact Nat.succ_le_succ (Nat.le_succ _)
    simp only [List.length_map, heard_c, heard_r, heard_m, heard_o] at before after
    rw [Decided]
    omega
  | e12 => exact ⟨decided, fails⟩

theorem outOfPlace_heard : OutOfPlace K (heard ev s more) ↔ OutOfPlace K ev := Iff.rfl

/-- What the equations read once the relay speaks can be read. -/
structure Hearable (ev : EvidenceSet) (r : Dict) (more : List StatementRef) : Prop where
  commit : ∀ c, ev.c = some c → hasKey c "req_commit" = true
  nonce : ∀ c, ev.c = some c → ev.m = none → hasKey c "nonce" = true
  received : ∀ o, ev.o = some o → getOr r "resp_out_commit" ≠ .null →
    hasKey o "resp_commit" = true
  /-- Without a receipt the relay names the model. -/
  route : ∀ c, ev.c = some c → ev.m = none → RouteReadable c (getOr r "upstream_model")
  attempts : [ev.c, ev.m, ev.o].filterMap id ≠ [] →
    ∀ d ∈ r :: [ev.c, ev.m, ev.o].filterMap id, (getOr d "attempt_id").hashable = true
  clock : field ev.c "client_time" = .null ∨ (number (field ev.c "client_time")).isSome = true ∨
    ∀ ref ∈ more, ref.registeredAt = none

variable {engine : ReconciliationEngine} {parties : List String}

theorem listed_of_definitions {c : Dict} (some_ : c ≠ [])
    (defined : Returns (transformDefinitions K (some c))) : Listed c := by
  cases c with
  | nil => exact absurd rfl some_
  | cons x c =>
    rw [transformDefinitions] at defined
    obtain ⟨raw, stated, defined⟩ := returns_bind.mp defined
    obtain ⟨allowed, iterated, defined⟩ := returns_bind.mp defined
    refine ⟨allowed, ?_, (addDefinitions_returns allowed []).mp defined⟩
    rw [getItem_getOr stated]
    exact iterated

/-- A valid relay record has all fields the engine reads. -/
theorem relay_complete (valid : validatePayload K (.str ctRelay) s.payload = .ok []) :
    ∀ r, (heard ev s more).r = some r → Complete ctRelay r := by
  intro r hr
  obtain rfl := Option.some.inj hr
  exact complete_of_valid valid

/-- Hearing the relay does not change whether missing evidence can be listed. -/
theorem missingOf_heard : Returns (missingOf (heard ev s more) parties) ↔
    Returns (missingOf ev parties) := by
  induction parties with
  | nil => exact Iff.rfl
  | cons party parties ih =>
    rw [missingOf, missingOf]
    cases expectedByParty.lookup party with
    | none => exact Iff.rfl
    | some kinds =>
      rw [returns_bind, returns_bind]
      constructor
      · rintro ⟨rest, made, -⟩
        obtain ⟨rest', made'⟩ := ih.mp ⟨rest, made⟩
        exact ⟨rest', made', _, rfl⟩
      · rintro ⟨rest, made, -⟩
        obtain ⟨rest', made'⟩ := ih.mpr ⟨rest, made⟩
        exact ⟨rest', made', _, rfl⟩

theorem assessed_heard (complete : Complete ctRelay s.payload)
    (assessed : Returns (assessCompleteness ev parties)) :
    Returns (assessCompleteness (heard ev s more) parties) := by
  obtain ⟨missing, listed, rest⟩ := returns_bind.mp assessed
  obtain ⟨relayRefused, -, rest⟩ := returns_bind.mp rest
  obtain ⟨modelRefused, byM, -⟩ := returns_bind.mp rest
  obtain ⟨missing', listed'⟩ := missingOf_heard.mpr ⟨missing, listed⟩
  have byR : refused (some s.payload) "policy_decision" =
      .ok ((getOr s.payload "policy_decision").eq (.str "refused")) := by
    rw [refused, complete.item (by decide), ok_bind]
    rfl
  rw [assessCompleteness, listed', ok_bind, heard_r, byR, ok_bind, heard_m, byM]
  exact ⟨_, rfl⟩

theorem lateRef_returns {clock : Value} {ref : StatementRef} :
    Returns (lateRef engine clock ref) ↔
      (number clock).isSome = true ∨ ref.registeredAt = none := by
  rw [lateRef]
  cases ref.registeredAt with
  | none => simp
  | some at_ => cases number clock <;> simp

/-- Hearing the relay adds its registration times, which need a clock to compare with. -/
theorem late_heard (before : Returns (lateRegistrations engine ev)) :
    Returns (lateRegistrations engine (heard ev s more)) ↔
      (field ev.c "client_time" = .null ∨ (number (field ev.c "client_time")).isSome = true ∨
        ∀ ref ∈ more, ref.registeredAt = none) := by
  rw [lateRegistrations] at before
  rw [lateRegistrations, heard_c]
  by_cases silent : (field ev.c "client_time").isNone = true
  · rw [if_pos silent]
    exact iff_of_true ⟨_, rfl⟩ (.inl ((isNone_iff _).mp silent))
  · have spoken := mt (isNone_iff _).mpr silent
    have each : ∀ refs : List StatementRef,
        (∃ a, refs.mapM (lateRef engine (field ev.c "client_time")) = .ok a) ↔
          ∀ ref ∈ refs, (number (field ev.c "client_time")).isSome = true ∨
            ref.registeredAt = none := by
      intro refs
      exact mapM_returns.trans (forall_congr' fun ref => imp_congr_right fun _ => lateRef_returns)
    simp only [silent, Bool.false_eq_true, if_false, returns_bind, pure_ok, returns_ok,
      and_true] at before ⊢
    rw [each] at before ⊢
    constructor
    · intro all
      by_cases clock : (number (field ev.c "client_time")).isSome = true
      · exact .inr (.inl clock)
      · refine .inr (.inr fun ref member => ?_)
        exact (all ref (List.mem_append_right _ member)).resolve_left clock
    · rintro (null | clock | undated) ref member
      · exact absurd null spoken
      · exact .inl clock
      · rcases List.mem_append.mp member with old | new
        · exact before ref old
        · exact .inr (undated ref new)

/-- With the relay's word E2 reads the contract's commitment. -/
theorem evalE2_heard (complete : Complete ctRelay s.payload) :
    Returns (evalE2 (heard ev s more)) ↔ ∀ c, ev.c = some c → hasKey c "req_commit" = true := by
  rw [evalE2, heard_c, heard_r]
  cases ev.c with
  | none => simp
  | some c =>
    simp only [complete.item (k := "in_commit") (by decide), ok_bind, returns_bind, pure_ok,
      returns_ok, and_true, Option.some.injEq, forall_eq']
    exact getItem_returns

/-- With the relay's word E5 reads the contract's nonce. -/
theorem evalE5_heard : Returns (evalE5 (heard ev s more)) ↔
    ∀ c, ev.c = some c → hasKey c "nonce" = true := by
  rw [evalE5, heard_c, heard_r]
  cases ev.c with
  | none => simp
  | some c =>
    simp only [Option.isNone_some, Bool.and_false, Bool.false_eq_true, if_false, returns_bind,
      pure_ok, returns_ok, and_true, Option.some.injEq, forall_eq']
    exact getItem_returns

theorem evalE7_heard : Returns (evalE7 (heard ev s more)) ↔
    ∀ o, ev.o = some o → getOr s.payload "resp_out_commit" ≠ .null →
      hasKey o "resp_commit" = true := by
  rw [evalE7, heard_r, heard_o]
  cases ev.o with
  | none => simp
  | some o =>
    cases sent : (getOr s.payload "resp_out_commit").isNone with
    | true =>
      have unsaid := (isNone_iff _).mp sent
      simp only [unsaid, ne_eq, not_true_eq_false, false_implies, implies_true, iff_true]
      exact ⟨_, rfl⟩
    | false =>
      have spoken := (isNone_false_iff _).mp sent
      simp only [sent, Bool.false_eq_true, if_false, present_of_spoken sent, ok_bind, returns_bind,
        pure_ok, returns_ok, and_true, Option.some.injEq, forall_eq', spoken, ne_eq,
        not_false_eq_true, forall_true_left]
      exact getItem_returns

/-- With the relay's word E8 may judge a route it could not see before. -/
theorem evalE8_heard (silent : ev.r = none) (before : Returns (evalE8 K ev))
    (complete : ∀ r, (heard ev s more).r = some r → Complete ctRelay r) :
    Returns (evalE8 K (heard ev s more)) ↔
      ∀ c, ev.c = some c → ev.m = none → RouteReadable c (getOr s.payload "upstream_model") := by
  have item := (complete s.payload rfl).item (k := "upstream_model") (by decide)
  cases hc : ev.c with
  | none => simp [evalE8, hc]
  | some c =>
    have contract : (heard ev s more).c = some c := hc
    cases hm : ev.m with
    | none =>
      have seen : modelSeen (heard ev s more) = .ok (some (getOr s.payload "upstream_model",
          "R.upstream_model (self-asserted)", .self)) := by
        rw [modelSeen, heard_m, heard_r, hm]
        simp only [item, ok_bind]
        rfl
      rw [evalE8_reads contract seen complete]
      simp
    | some m =>
      have same : modelSeen (heard ev s more) = modelSeen ev := by
        rw [modelSeen, modelSeen, heard_m, hm]
      obtain ⟨actual, source, grade, seen⟩ : ∃ actual source grade,
          modelSeen ev = .ok (some (actual, source, grade)) := by
        rw [evalE8, hc] at before
        obtain ⟨x, seen, -⟩ := returns_bind.mp before
        rcases modelSeen_served seen with ⟨-, none_, -⟩ | ⟨source, grade, rfl, -⟩
        · rw [hm] at none_
          cases none_
        · exact ⟨_, source, grade, seen⟩
      have readable := (evalE8_reads hc seen (by rw [silent]; intro r hr; cases hr)).mp before
      simp only [reduceCtorEq, false_implies, implies_true, iff_true]
      exact (evalE8_reads contract (same.trans seen) complete).mpr readable

/-- Hearing the relay makes E10 raise nowhere new. -/
theorem evalE10_heard (silent : ev.r = none) (before : Returns (evalE10 K ev))
    (complete : Complete ctRelay s.payload) : Returns (evalE10 K (heard ev s more)) := by
  have declared : itemOrNull (some s.payload) "response_transform_id" =
      .ok (getOr s.payload "response_transform_id") := complete.item (by decide)
  rw [evalE10] at before ⊢
  rw [heard_m, heard_o, heard_c, heard_r]
  cases hm : ev.m with
  | none => simp
  | some m =>
    simp only [hm] at before ⊢
    split
    next absent => simp
    next signs =>
      rw [if_neg signs] at before
      cases ho : ev.o with
      | none => simp
      | some o =>
        simp only [ho] at before ⊢
        obtain ⟨allowed, listed, before⟩ := returns_bind.mp before
        obtain ⟨none_, unsaid, before⟩ := returns_bind.mp before
        rw [silent] at unsaid
        obtain rfl : Value.null = none_ := Except.ok.inj unsaid
        simp only [Value.isNone, Bool.not_true, Bool.false_and, Bool.false_eq_true,
          if_false] at before
        simp only [listed, ok_bind, declared]
        split
        next => simp
        next =>
          split
          next => simp
          next recomputed =>
            rw [if_neg recomputed] at before
            obtain ⟨signed, hs, before⟩ := returns_bind.mp before
            obtain ⟨received, hr, -⟩ := returns_bind.mp before
            rw [hs, ok_bind, hr]
            exact ⟨_, rfl⟩

/-- The relay's attempt is compared with the others, so it must be hashable. -/
theorem attempts_heard : Returns (evalE11 (heard ev s more)) ↔
    ([ev.c, ev.m, ev.o].filterMap id ≠ [] →
      ∀ d ∈ s.payload :: [ev.c, ev.m, ev.o].filterMap id,
        (getOr d "attempt_id").hashable = true) := by
  have perm : ([(heard ev s more).c, (heard ev s more).r, (heard ev s more).m,
      (heard ev s more).o].filterMap id).Perm (s.payload :: [ev.c, ev.m, ev.o].filterMap id) := by
    rw [heard_c, heard_r, heard_m, heard_o]
    cases ev.c with
    | none => exact List.Perm.refl _
    | some c => exact List.Perm.swap _ _ _
  have count : 2 ≤ (s.payload :: [ev.c, ev.m, ev.o].filterMap id).length ↔
      [ev.c, ev.m, ev.o].filterMap id ≠ [] := by
    rw [List.length_cons, ← List.length_pos_iff]
    omega
  rw [evalE11_returns, perm.length_eq, count]
  exact imp_congr_right fun _ => forall_congr' fun d => by rw [perm.mem_iff]

theorem attempts_before (silent : ev.r = none) (before : Returns (evalE11 ev))
    (enough : 2 ≤ (attemptIds ev).length) :
    ∀ d ∈ [ev.c, ev.m, ev.o].filterMap id, (getOr d "attempt_id").hashable = true := by
  have same : [ev.c, ev.r, ev.m, ev.o].filterMap id = [ev.c, ev.m, ev.o].filterMap id := by
    rw [silent]
    cases ev.c <;> rfl
  have count := congrArg List.length (attemptIds_silent silent)
  rw [List.length_map, List.length_map] at count
  have keyed := (evalE11_returns ev).mp before
  rw [same, ← count] at keyed
  exact keyed enough

/-- Every equation returns exactly if what is newly read can be read. -/
theorem equations_heard (silent : ev.r = none)
    (valid : validatePayload K (.str ctRelay) s.payload = .ok [])
    (before : ∀ k, Returns (evalEq K k ev)) (defined : Returns (transformDefinitions K ev.c))
    (clock : field ev.c "client_time" = .null ∨ (number (field ev.c "client_time")).isSome = true ∨
      ∀ ref ∈ more, ref.registeredAt = none) :
    (∀ k, Returns (evalEq K k (heard ev s more))) ↔ Hearable ev s.payload more := by
  have complete : ∀ r, (heard ev s more).r = some r → Complete ctRelay r := relay_complete valid
  have relay := complete s.payload rfl
  constructor
  · intro each
    exact {
      commit := (evalE2_heard relay).mp (each .e2)
      nonce := fun c hc _ => evalE5_heard.mp (each .e5) c hc
      received := evalE7_heard.mp (each .e7)
      route := (evalE8_heard silent (before .e8) complete).mp (each .e8)
      attempts := attempts_heard.mp (each .e11)
      clock }
  · intro hearable k
    cases k with
    | e1 => exact before .e1
    | e2 => exact (evalE2_heard relay).mpr hearable.commit
    | e3 =>
      have signed := before .e3
      rw [evalEq, evalE3, heard_r, heard_m]
      cases ev.m with
      | none => simp
      | some m =>
        cases spoken : (getOr m "request_commit").isNone with
        | true => simp [spoken]
        | false =>
          simp [spoken, relay.item (k := "out_commit") (by decide), present_of_spoken spoken]
    | e4 =>
      refine evalE4_listed complete fun c hc => ⟨hearable.commit c hc, ?_⟩
      have hc : ev.c = some c := hc
      have some_ : c ≠ [] := by
        rintro rfl
        have commit := hearable.commit [] hc
        cases commit
      rw [hc] at defined
      exact listed_of_definitions some_ defined
    | e5 =>
      refine evalE5_heard.mpr fun c hc => ?_
      cases hm : ev.m with
      | none => exact hearable.nonce c hc hm
      | some m => exact nonce_of_receipt (before .e5) hc hm
    | e6 => exact evalE6_returns _
    | e7 => exact evalE7_heard.mpr hearable.received
    | e8 => exact (evalE8_heard silent (before .e8) complete).mpr hearable.route
    | e9 => exact before .e9
    | e10 => exact evalE10_heard silent (before .e10) relay
    | e11 => exact attempts_heard.mpr hearable.attempts
    | e12 => exact before .e12

/-- A failed judgment is not cleared by a relay statement: it fails again, provided that the
engine can read what the statement makes it read. -/
theorem failure_stands_iff {v : Verdict} (silent : ev.relay = none)
    (valid : validatePayload K (.str ctRelay) s.payload = .ok [])
    (judged : reconcile K engine ev parties = .ok v) (failed : v.status = .failed) :
    (∃ v', reconcile K engine (heard ev s more) parties = .ok v' ∧ v'.status = .failed) ↔
      Hearable ev s.payload more := by
  have unheard := r_of_silent silent
  have reason := (reconcile_failed judged).mp failed
  obtain ⟨eqs, evaluated, rest⟩ := bind_ok.mp judged
  obtain ⟨completeness, assessed, rest⟩ := bind_ok.mp rest
  obtain ⟨unauthorized, listed, rest⟩ := bind_ok.mp rest
  obtain ⟨differs, compared, rest⟩ := bind_ok.mp rest
  obtain ⟨lateItems, timed, rest⟩ := bind_ok.mp rest
  obtain ⟨definitions, defined, -⟩ := bind_ok.mp rest
  have before := evaluateEquations_returns.mp ⟨eqs, evaluated⟩
  constructor
  · rintro ⟨v', judged', -⟩
    obtain ⟨eqs', evaluated', rest'⟩ := bind_ok.mp judged'
    obtain ⟨_, -, rest'⟩ := bind_ok.mp rest'
    obtain ⟨_, -, rest'⟩ := bind_ok.mp rest'
    obtain ⟨_, -, rest'⟩ := bind_ok.mp rest'
    obtain ⟨lateItems', timed', -⟩ := bind_ok.mp rest'
    have clock := (late_heard ⟨lateItems, timed⟩).mp ⟨lateItems', timed'⟩
    exact (equations_heard unheard valid before ⟨definitions, defined⟩ clock).mp
      (evaluateEquations_returns.mp ⟨eqs', evaluated'⟩)
  · intro hearable
    obtain ⟨eqs', evaluated'⟩ := evaluateEquations_returns.mpr
      ((equations_heard unheard valid before ⟨definitions, defined⟩ hearable.clock).mpr hearable)
    obtain ⟨completeness', assessed'⟩ :
        Returns (assessCompleteness (heard ev s more) parties) :=
      assessed_heard (complete_of_valid valid) ⟨completeness, assessed⟩
    obtain ⟨lateItems', timed'⟩ := (late_heard (s := s) ⟨lateItems, timed⟩).mpr hearable.clock
    obtain ⟨v', judged'⟩ : Returns (reconcile K engine (heard ev s more) parties) := by
      have sources : presentedDiffers K (heard ev s more) = .ok differs := compared
      have issuers : (heard ev s more).unauthorizedIssuers.mapM (issuerUnauthorized engine) =
          .ok unauthorized := listed
      rw [reconcile, evaluated', ok_bind, assessed', ok_bind, issuers, ok_bind, sources, ok_bind,
        timed', ok_bind, heard_c, defined]
      exact ⟨_, rfl⟩
    refine ⟨v', judged', (reconcile_failed judged').mpr ?_⟩
    rcases reason with ⟨k, decided, fails⟩ | out
    · left
      have keyed : 2 ≤ (attemptIds ev).length →
          ∀ d ∈ [ev.c, ev.m, ev.o].filterMap id, (getOr d "attempt_id").hashable = true :=
        attempts_before unheard (before .e11)
      exact ⟨k, broken_heard unheard keyed decided fails⟩
    · exact .inr (outOfPlace_heard.mpr out)

end

/-- The user received another response than the one the model signed. -/
def rewrittenAnswer : EvidenceSet :=
  { sub := .str "urn:itx:req:1",
    contract := some (PassedVerdict.unsigned ctContract (contractPayload plainTerms)),
    receipt := some (PassedVerdict.unsigned ctReceipt (receiptPayload silentReceipt)),
    observation := some (PassedVerdict.unsigned ctObservation (observationPayload
      { attemptId := "att-001", respCommit := zeros 64, receivedAt := 300,
        inlineReceiptHash := none, inlineRelayHash := none })),
    privateEvidence := some { salt := .str (zeros 64), requestHash := .str (zeros 64) } }

def plainStatement : SignedStatement := PassedVerdict.unsigned ctRelay (relayPayload plainReport)

/-- The report with a list for its attempt identifier. -/
def listedStatement : SignedStatement :=
  PassedVerdict.unsigned ctRelay
    (PyValue.insert (relayPayload plainReport) (.str "attempt_id") (.list []))

theorem rewrittenAnswer_failed : ∃ v,
    reconcile toy plainEngine rewrittenAnswer allParties = .ok v ∧ v.status = .failed := by
  have fails : (reconcile toy plainEngine rewrittenAnswer allParties).map Verdict.status =
      .ok .failed := by decide +kernel
  obtain ⟨v, judged, failed⟩ := map_ok fails
  exact ⟨v, judged, failed⟩

theorem failure_stands_iff_rewritten :
    (∃ v', reconcile toy plainEngine (heard rewrittenAnswer plainStatement []) allParties =
        .ok v' ∧ v'.status = .failed) ↔
      Hearable rewrittenAnswer plainStatement.payload [] := by
  obtain ⟨v, judged, failed⟩ := rewrittenAnswer_failed
  exact failure_stands_iff rfl (by decide +kernel) judged failed

/-- A relay clears the failure by naming its attempt with a list: there is no verdict any more. -/
theorem failure_cleared : rewrittenAnswer.relay = none ∧
    validatePayload toy (.str ctRelay) listedStatement.payload = .ok [] ∧
    (∃ v, reconcile toy plainEngine rewrittenAnswer allParties = .ok v ∧ v.status = .failed) ∧
    ¬ ∃ v', reconcile toy plainEngine (heard rewrittenAnswer listedStatement []) allParties =
      .ok v' ∧ v'.status = .failed := by
  refine ⟨rfl, by decide +kernel, rewrittenAnswer_failed, ?_⟩
  have cleared : ¬ Returns (reconcile toy plainEngine (heard rewrittenAnswer listedStatement [])
      allParties) := by decide +kernel
  rintro ⟨v', judged, -⟩
  exact cleared ⟨v', judged⟩

end RelayTestimony
