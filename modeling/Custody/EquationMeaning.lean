import Custody.Equations

/-!
# What the equations mean

For each equation, when the evidence decides it and when it then holds, in terms
of the fields alone. A result that the code returns is exactly this: `na` when
the evidence does not decide, else `pass` or `fail`.
-/

namespace EquationMeaning

open PyValue Commitments Evidence Equations

@[simp] theorem passIf_pass (ok : Bool) : passIf ok = .pass ↔ ok = true := by
  cases ok <;> simp [passIf]

@[simp] theorem passIf_na (ok : Bool) : passIf ok ≠ .na := by
  cases ok <;> simp [passIf]

theorem itemOrNull_field {d : Option Dict} {k : String} {v : Value}
    (h : itemOrNull d k = .ok v) : field d k = v := by
  cases d with
  | none => exact Except.ok.inj h
  | some d => exact getItem_getOr h

/-- Two reported values agree. -/
def Agree (a b : Value) : Prop := a ≠ .null ∧ b ≠ .null ∧ a.eq b = true

/-- A transform that is declared must be one of those allowed. -/
def Declared (declared : Value) (allowed : List Value) : Prop :=
  declared = .null ∨ memberOf declared allowed = true

def elements (v : Value) : List Value :=
  match v.iterate with
  | .ok xs => xs
  | .error _ => []

theorem elements_of_iterate {v : Value} {xs : List Value} (h : v.iterate = .ok xs) :
    elements v = xs := by
  simp [elements, h]

/-- The request commitment that is judged: the model's word, else the relay's. -/
def commitSeen (ev : EvidenceSet) : Option Value :=
  if (field ev.m "request_commit").isNone then ev.r.map fun r => getOr r "out_commit"
  else some (field ev.m "request_commit")

def approvedBase (c : Option Dict) (allowed : List Value) : Dict :=
  if memberOf (.str identity) allowed = true then [(.str identity, field c "req_commit")] else []

def expectedOf : Option PrivateEvidence → Dict
  | some p => p.expectedRequestCommits
  | none => []

def allowedRequests (ev : EvidenceSet) : List Value :=
  elements (field ev.c "allowed_request_transforms")

/-- The approved commitments by transform. -/
def approved (ev : EvidenceSet) : Dict :=
  (expectedOf ev.privateEvidence).foldl (addExpected (allowedRequests ev))
    (approvedBase ev.c (allowedRequests ev))

def Approved (ev : EvidenceSet) (v : Value) : Prop := ∃ x ∈ approved ev, x.2.eq v = true

def SeenApproved (ev : EvidenceSet) : Prop := ∃ v, commitSeen ev = some v ∧ Approved ev v

def Recomputable (t : Value) : Prop := (find requestTransforms t).isSome = true

def OnlyIdentity (allowed : List Value) : Prop := ∀ t ∈ allowed, t = .str identity

def RequestDeclared (ev : EvidenceSet) : Prop :=
  Declared (field ev.r "request_transform_id") (allowedRequests ev)

def modelServed (ev : EvidenceSet) : Value :=
  if ev.m.isSome then field ev.m "model_id" else field ev.r "upstream_model"

def ServedAsRequested (ev : EvidenceSet) : Prop :=
  (modelServed ev).eq (field ev.c "requested_model") = true

def ServedAllowed (ev : EvidenceSet) : Prop :=
  isIn (modelServed ev) (field ev.c "allowed_models") = .ok true

def referenceOf (ev : EvidenceSet) : Value :=
  (find ev.referenceModelHashes (field ev.m "model_id")).getD .null

def allowedResponses (ev : EvidenceSet) : List Value :=
  if ev.c.isSome then elements (field ev.c "allowed_response_transforms") else [.str identity]

def ResponseDeclared (ev : EvidenceSet) : Prop :=
  Declared (field ev.r "response_transform_id") (allowedResponses ev)

def SameAttempts (ev : EvidenceSet) : Prop :=
  ∃ first, ((attemptIds ev).map Prod.snd).head? = some first ∧
    ∀ x ∈ ((attemptIds ev).map Prod.snd).tail, x.eq first = true

variable (K : Primitives)

/-- The evidence decides the equation. -/
def Decided : EqId → EvidenceSet → Prop
  | .e1, ev => ev.c.isSome ∧ ev.privateEvidence.isSome
  | .e2, ev => ev.c.isSome ∧ ev.r.isSome
  | .e3, ev => ev.r.isSome ∧ field ev.m "request_commit" ≠ .null
  | .e4, ev => ev.c.isSome ∧ (commitSeen ev).isSome ∧
      (¬ RequestDeclared ev ∨ SeenApproved ev ∨ (∀ t ∈ allowedRequests ev, Recomputable t) ∧
        (ev.privateEvidence.isSome ∨ OnlyIdentity (allowedRequests ev)))
  | .e5, ev => ev.c.isSome ∧ (ev.m.isSome ∨ ev.r.isSome)
  | .e6, ev => field ev.m "response_commit" ≠ .null ∧ field ev.r "resp_in_commit" ≠ .null
  | .e7, ev => ev.o.isSome ∧ field ev.r "resp_out_commit" ≠ .null
  | .e8, ev => ev.c.isSome ∧ (ev.m.isSome ∨ ev.r.isSome) ∧
      (ServedAsRequested ev ∨ ¬ ServedAllowed ev ∨
        field ev.c "fallback_policy" = .str "none" ∨ ev.r.isSome)
  | .e9, ev => ev.m.isSome ∧ referenceOf ev ≠ .null
  | .e10, ev => field ev.m "response_commit" ≠ .null ∧ ev.o.isSome ∧
      (¬ ResponseDeclared ev ∨ allowedResponses ev = [.str identity])
  | .e11, ev => 2 ≤ (attemptIds ev).length
  | .e12, ev => ev.c.isSome ∧ ev.o.isSome

/-- What a decided equation asserts. -/
def Holds : EqId → EvidenceSet → Prop
  | .e1, ev => ∃ p commitment, ev.privateEvidence = some p ∧
      commitHex K p.salt p.requestHash = .ok commitment ∧
      field ev.c "req_commit" = .str commitment
  | .e2, ev => Agree (field ev.r "in_commit") (field ev.c "req_commit")
  | .e3, ev => Agree (field ev.r "out_commit") (field ev.m "request_commit")
  | .e4, ev => RequestDeclared ev ∧ SeenApproved ev
  | .e5, ev =>
      (ev.m.isSome → (field ev.m "eat_nonce").eq (field ev.c "nonce") = true) ∧
      (ev.r.isSome → (field ev.r "nonce_forwarded").eq (field ev.c "nonce") = true)
  | .e6, ev => Agree (field ev.m "response_commit") (field ev.r "resp_in_commit")
  | .e7, ev => Agree (field ev.r "resp_out_commit") (field ev.o "resp_commit")
  | .e8, ev => ServedAsRequested ev ∨ ServedAllowed ev ∧
      field ev.c "fallback_policy" ≠ .str "none" ∧
      field ev.r "policy_decision" = .str "fallback"
  | .e9, ev => Agree (field ev.m "model_hash") (referenceOf ev)
  | .e10, ev => ResponseDeclared ev ∧
      (field ev.m "response_commit").eq (field ev.o "resp_commit") = true
  | .e11, ev => SameAttempts ev
  | .e12, ev => less true (field ev.o "received_at") (field ev.c "expires_at") = .ok true

/-- The result says what the evidence says. -/
structure Means (k : EqId) (ev : EvidenceSet) (e : EqResult) : Prop where
  undecided : e.result = .na ↔ ¬ Decided k ev
  passed : e.result = .pass ↔ Decided k ev ∧ Holds K k ev

variable {K}

/-- An equation fails exactly if it can be decided and does not hold. -/
theorem Means.failed {k : EqId} {ev : EvidenceSet} {e : EqResult} (means : Means K k ev e) :
    e.result = .fail ↔ Decided k ev ∧ ¬ Holds K k ev := by
  have undecided := means.undecided
  have passed := means.passed
  cases result : e.result with
  | pass => simp_all
  | fail => simp_all
  | na => simp_all

/-- A result whose equation is decided. -/
theorem means_of_decided {k : EqId} {ev : EvidenceSet} {e : EqResult} (ok : Bool)
    (decided : Decided k ev) (result : e.result = passIf ok)
    (holds : ok = true ↔ Holds K k ev) : Means K k ev e := by
  constructor
  · rw [result]
    simp [decided]
  · rw [result, passIf_pass, holds]
    simp [decided]

/-- An equation that cannot be decided is not applicable. -/
theorem means_of_undecided {k : EqId} {ev : EvidenceSet} {e : EqResult}
    (undecided : ¬ Decided k ev) (result : e.result = .na) : Means K k ev e := by
  constructor
  · simp [undecided, result]
  · simp [undecided, result]

@[simp] theorem cmp_result (id : EqId) (a b : Value) (label : String) (grade : Grade)
    (detail : Dict) : (cmp id a b label grade detail).result =
      passIf (!a.isNone && !b.isNone && a.eq b) := rfl

/-- Two fields agree if both are there and equal. -/
theorem agree_iff (a b : Value) :
    (!a.isNone && !b.isNone && a.eq b) = true ↔ Agree a b := by
  simp [Agree, isNone_false_iff, and_assoc]

/-- E1 decides whether the contract commits to the request of the private evidence. -/
theorem evalE1_means {ev : EvidenceSet} {e : EqResult} (h : evalE1 K ev = .ok e) :
    Means K .e1 ev e := by
  unfold evalE1 at h
  cases hc : ev.c with
  | none =>
    simp only [hc, Except.ok.injEq] at h
    subst h
    exact means_of_undecided (by simp [Decided, hc]) rfl
  | some c =>
    cases hp : ev.privateEvidence with
    | none =>
      simp only [hc, hp, Except.ok.injEq] at h
      subst h
      exact means_of_undecided (by simp [Decided, hp]) rfl
    | some p =>
      simp only [hc, hp, bind_ok, pure_ok, Except.ok.injEq] at h
      obtain ⟨commitment, computed, req, stated, rfl⟩ := h
      refine means_of_decided _ (by simp [Decided, hc, hp]) (cmp_result ..) ?_
      have stated := getItem_getOr stated
      simp [Holds, hp, computed, hc, field, stated, Value.isNone]
      rintro rfl
      rfl

theorem evalE2_means {ev : EvidenceSet} {e : EqResult} (h : evalE2 ev = .ok e) :
    Means K .e2 ev e := by
  unfold evalE2 at h
  cases hc : ev.c with
  | none =>
    simp only [hc, Except.ok.injEq] at h
    subst h
    exact means_of_undecided (by simp [Decided, hc]) rfl
  | some c =>
    cases hr : ev.r with
    | none =>
      simp only [hc, hr, Except.ok.injEq] at h
      subst h
      exact means_of_undecided (by simp [Decided, hr]) rfl
    | some r =>
      simp only [hc, hr, bind_ok, pure_ok, Except.ok.injEq] at h
      obtain ⟨a, ha, b, hb, rfl⟩ := h
      refine means_of_decided _ (by simp [Decided, hc, hr]) (cmp_result ..) ?_
      rw [agree_iff, Holds, hc, hr, field, field, getItem_getOr ha, getItem_getOr hb]

theorem evalE3_means {ev : EvidenceSet} {e : EqResult} (h : evalE3 ev = .ok e) :
    Means K .e3 ev e := by
  unfold evalE3 at h
  cases hr : ev.r with
  | none =>
    simp only [hr, Except.ok.injEq] at h
    subst h
    exact means_of_undecided (by simp [Decided, hr]) rfl
  | some r =>
    cases hm : ev.m with
    | none =>
      simp only [hr, hm, Except.ok.injEq] at h
      subst h
      exact means_of_undecided (by simp [Decided, hm, field]) rfl
    | some m =>
      simp only [hr, hm] at h
      split at h
      next null =>
        obtain rfl := Except.ok.inj h
        exact means_of_undecided (by simp [Decided, hm, field, (isNone_iff _).mp null]) rfl
      next present =>
        have present := mt (isNone_iff _).mpr present
        simp only [bind_ok, pure_ok, Except.ok.injEq] at h
        obtain ⟨a, ha, b, hb, rfl⟩ := h
        refine means_of_decided _ (by simp [Decided, hr, hm, field, present]) (cmp_result ..) ?_
        rw [agree_iff, Holds, hr, hm, field, field, getItem_getOr ha, getItem_getOr hb]

/-- What the engine takes for the request M saw is what the evidence tells. -/
theorem requestSeen_commitSeen {ev : EvidenceSet} {x : Option (Value × String × Grade)}
    (h : requestSeen ev = .ok x) : x.map Prod.fst = commitSeen ev := by
  unfold requestSeen at h
  cases hm : ev.m with
  | none =>
    cases hr : ev.r with
    | none =>
      simp only [hm, hr, Except.ok.injEq] at h
      simp [← h, commitSeen, hm, hr, field, Value.isNone]
    | some r =>
      simp only [hm, hr, bind_ok, pure_ok, Except.ok.injEq] at h
      obtain ⟨out, stated, rfl⟩ := h
      simp [commitSeen, hm, hr, field, Value.isNone, getItem_getOr stated]
  | some m =>
    simp only [hm] at h
    split at h
    next null =>
      cases hr : ev.r with
      | none =>
        simp only [hr, Except.ok.injEq] at h
        simp [← h, commitSeen, hm, hr, field, null]
      | some r =>
        simp only [hr, bind_ok, pure_ok, Except.ok.injEq] at h
        obtain ⟨out, stated, rfl⟩ := h
        simp [commitSeen, hm, hr, field, null, getItem_getOr stated]
    next present =>
      simp only [bind_ok, pure_ok, Except.ok.injEq] at h
      obtain ⟨seen, stated, rfl⟩ := h
      rw [getItem_getOr stated] at present
      simp [commitSeen, hm, field, present, getItem_getOr stated]

/-- The approved commitments the engine collects are those of the contract. -/
theorem approvedRequests_approved {ev : EvidenceSet} {c found : Dict} (hc : ev.c = some c)
    (h : approvedRequests c (allowedRequests ev) ev.privateEvidence = .ok found) :
    found = approved ev := by
  unfold approvedRequests at h
  obtain ⟨base, hb, h⟩ := bind_ok.mp h
  have base : base = approvedBase ev.c (allowedRequests ev) := by
    unfold approvedIdentity at hb
    unfold approvedBase
    split at hb
    next allowed =>
      simp only [bind_ok, pure_ok, Except.ok.injEq] at hb
      obtain ⟨req, stated, rfl⟩ := hb
      simp [allowed, hc, field, getItem_getOr stated]
    next allowed => simp [allowed, ← Except.ok.inj hb]
  subst base
  cases hp : ev.privateEvidence with
  | none =>
    simp only [hp, pure_ok, Except.ok.injEq] at h
    simp [approved, hp, expectedOf, h]
  | some p =>
    simp only [hp, pure_ok, Except.ok.injEq] at h
    simp [approved, hp, expectedOf, h]

/-- The engine knows a transform exactly if it can recompute it. -/
theorem isRecomputable_iff {t : Value} {known : Bool}
    (h : isRecomputableRequestTransform t = .ok known) : known = true ↔ Recomputable t := by
  simp only [isRecomputableRequestTransform, lookup, bind_ok, pure_ok, Except.ok.injEq] at h
  obtain ⟨found, hit, rfl⟩ := h
  split at hit
  · obtain rfl := Except.ok.inj hit
    rfl
  · cases hit

/-- No transform is unverifiable if all can be recomputed. -/
theorem unverifiable_empty {ts unknown : List Value} (h : unverifiable ts = .ok unknown) :
    unknown = [] ↔ ∀ t ∈ ts, Recomputable t := by
  induction ts generalizing unknown with
  | nil => simp [← Except.ok.inj h]
  | cons t ts ih =>
    simp only [unverifiable, bind_ok, pure_ok, Except.ok.injEq] at h
    obtain ⟨known, hk, rest, hr, rfl⟩ := h
    have later := ih hr
    have first := isRecomputable_iff hk
    cases known with
    | true => simp [← first, later]
    | false => simp [← first]

/-- The user allowed nothing but the identity. -/
theorem any_not_identity (allowed : List Value) :
    (allowed.any fun t => !t.eq (.str identity)) = false ↔ OnlyIdentity allowed := by
  simp only [List.any_eq_false, OnlyIdentity]
  constructor
  · intro h t member
    have same := h t member
    simpa using same
  · intro h t member
    simp [h t member]

/-- A declared transform is one the contract lists. -/
theorem declared_iff (declared : Value) (allowed : List Value) :
    (!declared.isNone && !memberOf declared allowed) = false ↔ Declared declared allowed := by
  rw [Declared, ← isNone_iff]
  cases declared.isNone <;> cases memberOf declared allowed <;> simp

theorem unmatchedTransform_result {allowed : List Value} {withPrivate : Bool} {source : String}
    {grade : Grade} {detail : Dict} {e : EqResult}
    (h : unmatchedTransform K allowed withPrivate source grade detail = .ok e) :
    ((∀ t ∈ allowed, Recomputable t) ∧ (withPrivate = true ∨ OnlyIdentity allowed) ∧
      e.result = .fail) ∨
    (¬ ((∀ t ∈ allowed, Recomputable t) ∧ (withPrivate = true ∨ OnlyIdentity allowed)) ∧
      e.result = .na) := by
  unfold unmatchedTransform at h
  obtain ⟨unknown, listed, h⟩ := bind_ok.mp h
  have known := unverifiable_empty listed
  have only := any_not_identity allowed
  split at h
  next some_unknown =>
    obtain rfl := Except.ok.inj h
    refine Or.inr ⟨fun both => ?_, rfl⟩
    simp [known.mpr both.1] at some_unknown
  next all_known =>
    have empty : unknown = [] := by simpa using all_known
    split at h
    next missing =>
      obtain rfl := Except.ok.inj h
      refine Or.inr ⟨fun both => ?_, rfl⟩
      simp only [Bool.and_eq_true, Bool.not_eq_true'] at missing
      rcases both.2 with given | identity
      · simp [given] at missing
      · rw [only.mpr identity] at missing
        simp at missing
    next enough =>
      obtain rfl := Except.ok.inj h
      refine Or.inl ⟨known.mp empty, ?_, rfl⟩
      cases withPrivate with
      | true => exact Or.inl rfl
      | false => exact Or.inr (only.mp (by simpa using enough))

/-- E4 decides whether what M received is an approved transform of the request. -/
theorem evalE4_means {ev : EvidenceSet} {e : EqResult} (h : evalE4 K ev = .ok e) :
    Means K .e4 ev e := by
  unfold evalE4 at h
  cases hc : ev.c with
  | none =>
    simp only [hc, Except.ok.injEq] at h
    subst h
    exact means_of_undecided (by simp [Decided, hc]) rfl
  | some c =>
    simp only [hc] at h
    obtain ⟨seen, hs, h⟩ := bind_ok.mp h
    have seenIs := requestSeen_commitSeen hs
    rcases seen with _ | ⟨actual, source, grade⟩
    · obtain rfl := Except.ok.inj h
      exact means_of_undecided (by simp [Decided, ← seenIs]) rfl
    · obtain ⟨raw, stated, h⟩ := bind_ok.mp h
      obtain ⟨allowed, iterated, h⟩ := bind_ok.mp h
      obtain ⟨declared, hd, h⟩ := bind_ok.mp h
      have allowedIs : allowed = allowedRequests ev := by
        rw [allowedRequests, hc, field, getItem_getOr stated, elements_of_iterate iterated]
      subst allowedIs
      obtain rfl := itemOrNull_field hd
      obtain ⟨found, listed, h⟩ := bind_ok.mp h
      obtain rfl := approvedRequests_approved hc listed
      have seen : commitSeen ev = some actual := seenIs.symm
      have matched : SeenApproved ev ↔ Approved ev actual := by simp [SeenApproved, seen]
      by_cases legal : RequestDeclared ev
      · have stated := (declared_iff _ _).mpr legal
        simp only [stated] at h
        cases hits : ((approved ev).filter fun x => x.2.eq actual).map Prod.fst with
        | cons first more =>
          have some_hit : SeenApproved ev := by
            rw [matched, Approved]
            cases kept : (approved ev).filter fun x => x.2.eq actual with
            | nil => simp [kept] at hits
            | cons x xs =>
              have member : x ∈ (approved ev).filter fun x => x.2.eq actual := by simp [kept]
              exact ⟨x, (List.mem_filter.mp member).1, (List.mem_filter.mp member).2⟩
          simp only [hits, Bool.false_eq_true, if_false, pure_ok, Except.ok.injEq] at h
          subst h
          exact means_of_decided true ⟨by simp [hc], by simp [seen],
            Or.inr (Or.inl some_hit)⟩ rfl (by simp [Holds, legal, some_hit])
        | nil =>
          have no_hit : ¬ SeenApproved ev := by
            rw [matched, Approved]
            rintro ⟨x, member, same⟩
            have kept : x ∈ (approved ev).filter fun x => x.2.eq actual :=
              List.mem_filter.mpr ⟨member, same⟩
            rw [List.map_eq_nil_iff.mp hits] at kept
            cases kept
          simp only [hits, Bool.false_eq_true, if_false] at h
          rcases unmatchedTransform_result h with ⟨known, enough, result⟩ | ⟨missing, result⟩
          · exact means_of_decided false
              ⟨by simp [hc], by simp [seen], Or.inr (Or.inr ⟨known, enough⟩)⟩ result
              (by simp [Holds, no_hit])
          · refine means_of_undecided ?_ result
            rintro ⟨-, -, illegal | hit | both⟩
            · exact illegal legal
            · exact no_hit hit
            · exact missing both
      · have stated : (!(field ev.r "request_transform_id").isNone &&
            !memberOf (field ev.r "request_transform_id") (allowedRequests ev)) = true := by
          by_contra other
          exact legal ((declared_iff _ _).mp (by simpa using other))
        simp only [stated, if_true, pure_ok, Except.ok.injEq] at h
        subst h
        exact means_of_decided false ⟨by simp [hc], by simp [seen], Or.inl legal⟩ rfl
          (by simp [Holds, legal])

theorem nonceReport_empty (label objection : String) (reported nonce : Value) :
    (nonceReport label objection reported nonce).2 = [] ↔ reported.eq nonce = true := by
  unfold nonceReport
  split
  next same => simp [same]
  next different => simp [different]

/-- E5 decides whether the nonces agree. -/
theorem evalE5_means {ev : EvidenceSet} {e : EqResult} (h : evalE5 ev = .ok e) :
    Means K .e5 ev e := by
  unfold evalE5 at h
  cases hc : ev.c with
  | none =>
    simp only [hc, Except.ok.injEq] at h
    subst h
    exact means_of_undecided (by simp [Decided, hc]) rfl
  | some c =>
    simp only [hc] at h
    split at h
    next nobody =>
      obtain rfl := Except.ok.inj h
      simp only [Bool.and_eq_true, Option.isNone_iff_eq_none] at nobody
      exact means_of_undecided (by simp [Decided, nobody.1, nobody.2]) rfl
    next someone =>
      simp only [bind_ok, pure_ok, Except.ok.injEq] at h
      obtain ⟨nonce, stated, rfl⟩ := h
      have reported : ev.m.isSome ∨ ev.r.isSome := by
        cases hm : ev.m <;> cases hr : ev.r <;> simp_all
      refine means_of_decided _ ⟨by simp [hc], reported⟩ rfl ?_
      rw [Holds, List.isEmpty_iff, List.flatMap_eq_nil_iff, hc, field, getItem_getOr stated]
      constructor
      · intro quiet
        constructor
        · intro present
          obtain ⟨m, hm⟩ := Option.isSome_iff_exists.mp present
          rw [hm, field]
          exact (nonceReport_empty _ _ _ _).mp (quiet _ (by simp [hm]; exact Or.inl rfl))
        · intro present
          obtain ⟨r, hr⟩ := Option.isSome_iff_exists.mp present
          rw [hr, field]
          exact (nonceReport_empty _ _ _ _).mp (quiet _ (by simp [hr]; exact Or.inr rfl))
      · rintro ⟨byModel, byRelay⟩ x member
        simp only [List.mem_append, List.mem_map, Option.mem_toList] at member
        rcases member with ⟨m, hm, rfl⟩ | ⟨r, hr, rfl⟩
        · rw [nonceReport_empty]
          simpa [hm, field] using byModel (by simp [hm])
        · rw [nonceReport_empty]
          simpa [hr, field] using byRelay (by simp [hr])

theorem evalE6_means {ev : EvidenceSet} {e : EqResult} (h : evalE6 ev = .ok e) :
    Means K .e6 ev e := by
  unfold evalE6 at h
  cases hr : ev.r with
  | none =>
    simp only [hr, Except.ok.injEq] at h
    subst h
    exact means_of_undecided (by simp [Decided, hr, field]) rfl
  | some r =>
    cases hm : ev.m with
    | none =>
      simp only [hr, hm, Except.ok.injEq] at h
      subst h
      exact means_of_undecided (by simp [Decided, hm, field]) rfl
    | some m =>
      simp only [hr, hm] at h
      split at h
      next null =>
        obtain rfl := Except.ok.inj h
        simp only [Bool.or_eq_true, isNone_iff] at null
        refine means_of_undecided ?_ rfl
        rw [Decided, hm, hr, field, field]
        rintro ⟨signed, reported⟩
        rcases null with null | null
        · exact signed null
        · exact reported null
      next present =>
        simp only [Bool.or_eq_true, isNone_iff, not_or] at present
        simp only [bind_ok, pure_ok, Except.ok.injEq] at h
        obtain ⟨a, ha, b, hb, rfl⟩ := h
        refine means_of_decided _ (by simpa [Decided, hm, hr, field] using present)
          (cmp_result ..) ?_
        rw [agree_iff, Holds, hr, hm, field, field, getItem_getOr ha, getItem_getOr hb]

theorem evalE7_means {ev : EvidenceSet} {e : EqResult} (h : evalE7 ev = .ok e) :
    Means K .e7 ev e := by
  unfold evalE7 at h
  cases hr : ev.r with
  | none =>
    simp only [hr, Except.ok.injEq] at h
    subst h
    exact means_of_undecided (by simp [Decided, hr, field]) rfl
  | some r =>
    cases ho : ev.o with
    | none =>
      simp only [hr, ho, Except.ok.injEq] at h
      subst h
      exact means_of_undecided (by simp [Decided, ho]) rfl
    | some o =>
      simp only [hr, ho] at h
      split at h
      next null =>
        obtain rfl := Except.ok.inj h
        exact means_of_undecided (by simp [Decided, hr, field, (isNone_iff _).mp null]) rfl
      next present =>
        have present := mt (isNone_iff _).mpr present
        simp only [bind_ok, pure_ok, Except.ok.injEq] at h
        obtain ⟨a, ha, b, hb, rfl⟩ := h
        refine means_of_decided _ (by simp [Decided, hr, ho, field, present]) (cmp_result ..) ?_
        rw [agree_iff, Holds, hr, ho, field, field, getItem_getOr ha, getItem_getOr hb]

/-- The model the engine takes for served is what the evidence tells. -/
theorem modelSeen_served {ev : EvidenceSet} {x : Option (Value × String × Grade)}
    (h : modelSeen ev = .ok x) :
    (x = none ∧ ev.m = none ∧ ev.r = none) ∨
    ∃ source grade, x = some (modelServed ev, source, grade) ∧ (ev.m.isSome ∨ ev.r.isSome) := by
  unfold modelSeen at h
  cases hm : ev.m with
  | none =>
    cases hr : ev.r with
    | none =>
      simp only [hm, hr, Except.ok.injEq] at h
      exact Or.inl ⟨h.symm, rfl, rfl⟩
    | some r =>
      simp only [hm, hr, bind_ok, pure_ok, Except.ok.injEq] at h
      obtain ⟨model, stated, rfl⟩ := h
      exact Or.inr ⟨"R.upstream_model (self-asserted)", .self,
        by simp [modelServed, hm, hr, field, getItem_getOr stated], by simp⟩
  | some m =>
    simp only [hm, bind_ok, pure_ok, Except.ok.injEq] at h
    obtain ⟨model, stated, rfl⟩ := h
    exact Or.inr ⟨"M.model_id", .ext,
      by simp [modelServed, hm, field, getItem_getOr stated], by simp⟩

theorem eq_none_iff (v : Value) : v.eq (.str "none") = true ↔ v = .str "none" :=
  eq_str_right "none" v

/-- What `judgeRoute` decides, as the code's own cascade. -/
theorem judgeRoute_result {r : Option Dict} {allowed fallback actual : Value} {source : String}
    {grade : Grade} {detail : Dict} {e : EqResult}
    (h : judgeRoute K r allowed fallback actual source grade detail = .ok e) :
    (isIn actual allowed ≠ .ok true ∧ e.result = .fail) ∨
    (isIn actual allowed = .ok true ∧ fallback = .str "none" ∧ e.result = .fail) ∨
    (isIn actual allowed = .ok true ∧ fallback ≠ .str "none" ∧ r = none ∧ e.result = .na) ∨
    (isIn actual allowed = .ok true ∧ fallback ≠ .str "none" ∧ r.isSome ∧
      e.result = passIf ((field r "policy_decision").eq (.str "fallback"))) := by
  unfold judgeRoute at h
  obtain ⟨member, tested, h⟩ := bind_ok.mp h
  cases member with
  | false =>
    obtain ⟨declared, -, h⟩ := bind_ok.mp h
    obtain rfl := Except.ok.inj h
    exact Or.inl ⟨by simp [tested], rfl⟩
  | true =>
    right
    simp only [Bool.not_true, Bool.false_eq_true, if_false] at h
    split at h
    next forbidden =>
      obtain rfl := Except.ok.inj h
      exact Or.inl ⟨tested, (eq_none_iff _).mp forbidden, rfl⟩
    next permitted =>
      right
      have permitted := mt (eq_none_iff fallback).mpr permitted
      cases r with
      | none =>
        obtain rfl := Except.ok.inj h
        exact Or.inl ⟨tested, permitted, rfl, rfl⟩
      | some r =>
        right
        simp only [Option.isNone_some, Bool.false_eq_true, if_false, bind_ok, pure_ok,
          Except.ok.injEq] at h
        obtain ⟨declared, ⟨decision, stated, rfl⟩, h⟩ := h
        refine ⟨tested, permitted, rfl, ?_⟩
        rw [field, getItem_getOr stated]
        split at h
        next yes => simp [← Except.ok.inj h, passIf, yes]
        next no => simp [← Except.ok.inj h, passIf, no]

/-- E8 decides whether the route was allowed and declared. -/
theorem evalE8_means {ev : EvidenceSet} {e : EqResult} (h : evalE8 K ev = .ok e) :
    Means K .e8 ev e := by
  unfold evalE8 at h
  cases hc : ev.c with
  | none =>
    simp only [hc, Except.ok.injEq] at h
    subst h
    exact means_of_undecided (by simp [Decided, hc]) rfl
  | some c =>
    simp only [hc] at h
    obtain ⟨seen, hs, h⟩ := bind_ok.mp h
    rcases modelSeen_served hs with ⟨rfl, hm, hr⟩ | ⟨source, grade, rfl, reported⟩
    · obtain rfl := Except.ok.inj h
      exact means_of_undecided (by simp [Decided, hm, hr]) rfl
    · obtain ⟨requested, hq, h⟩ := bind_ok.mp h
      obtain ⟨allowed, ha, h⟩ := bind_ok.mp h
      obtain ⟨fallback, hf, h⟩ := bind_ok.mp h
      obtain ⟨decision, -, h⟩ := bind_ok.mp h
      obtain rfl : field ev.c "requested_model" = requested := by simp [hc, field, getItem_getOr hq]
      obtain rfl : field ev.c "allowed_models" = allowed := by simp [hc, field, getItem_getOr ha]
      obtain rfl : field ev.c "fallback_policy" = fallback := by
        simp [hc, field, getItem_getOr hf]
      have present : ev.c.isSome = true := by simp [hc]
      split at h
      next same =>
        obtain rfl := Except.ok.inj h
        exact means_of_decided true ⟨present, reported, Or.inl same⟩ rfl
          (by simp [Holds, ServedAsRequested, same])
      next other =>
        have other : ¬ ServedAsRequested ev := other
        rcases judgeRoute_result h with ⟨outside, result⟩ | ⟨inside, none, result⟩ |
          ⟨inside, some, noRelay, result⟩ | ⟨inside, some, relay, result⟩
        · have outside : ¬ ServedAllowed ev := outside
          exact means_of_decided false ⟨present, reported, Or.inr (Or.inl outside)⟩
            result (by simp [Holds, other, outside])
        · exact means_of_decided false
            ⟨present, reported, Or.inr (Or.inr (Or.inl none))⟩ result
            (by simp [Holds, other, none])
        · have inside : ServedAllowed ev := inside
          exact means_of_undecided (by simp [Decided, other, inside, some, noRelay]) result
        · have inside : ServedAllowed ev := inside
          exact means_of_decided _ ⟨present, reported, Or.inr (Or.inr (Or.inr relay))⟩ result
            (by simp [Holds, other, inside, some])

/-- E9 decides whether the model's hash is the reference. -/
theorem evalE9_means {ev : EvidenceSet} {e : EqResult} (h : evalE9 K ev = .ok e) :
    Means K .e9 ev e := by
  unfold evalE9 at h
  cases hm : ev.m with
  | none =>
    simp only [hm, Except.ok.injEq] at h
    subst h
    exact means_of_undecided (by simp [Decided, hm]) rfl
  | some m =>
    simp only [hm] at h
    obtain ⟨model, stated, h⟩ := bind_ok.mp h
    obtain ⟨found, looked, h⟩ := bind_ok.mp h
    obtain ⟨-, rfl⟩ := lookup_find looked
    have reference : referenceOf ev = (find ev.referenceModelHashes model).getD .null := by
      rw [referenceOf, hm, field, getItem_getOr stated]
    rw [← reference] at h
    split at h
    next null =>
      obtain rfl := Except.ok.inj h
      exact means_of_undecided (by simp [Decided, (isNone_iff _).mp null]) rfl
    next known =>
      have known := mt (isNone_iff _).mpr known
      obtain ⟨hash, signed, h⟩ := bind_ok.mp h
      obtain rfl := Except.ok.inj h
      refine means_of_decided _ ⟨by simp [hm], known⟩ (cmp_result ..) ?_
      rw [agree_iff, Holds, hm, field, getItem_getOr signed]

theorem eqList_identity (xs : List Value) :
    Value.eqList xs [.str identity] = true ↔ xs = [.str identity] := by
  cases xs with
  | nil => simp [Value.eqList]
  | cons x xs => cases xs <;> simp [Value.eqList]

/-- E10 decides whether the response reached the user unchanged. -/
theorem evalE10_means {ev : EvidenceSet} {e : EqResult} (h : evalE10 K ev = .ok e) :
    Means K .e10 ev e := by
  unfold evalE10 at h
  cases hm : ev.m with
  | none =>
    simp only [hm, Except.ok.injEq] at h
    subst h
    exact means_of_undecided (by simp [Decided, hm, field]) rfl
  | some m =>
    simp only [hm] at h
    split at h
    next null =>
      obtain rfl := Except.ok.inj h
      exact means_of_undecided (by simp [Decided, hm, field, (isNone_iff _).mp null]) rfl
    next signs =>
      have signs : field ev.m "response_commit" ≠ .null := by
        simpa [hm, field] using mt (isNone_iff _).mpr signs
      cases ho : ev.o with
      | none =>
        simp only [ho, Except.ok.injEq] at h
        subst h
        exact means_of_undecided (by simp [Decided, ho]) rfl
      | some o =>
        simp only [ho] at h
        have received : ev.o.isSome = true := by simp [ho]
        obtain ⟨allowed, listed, h⟩ := bind_ok.mp h
        obtain ⟨declared, hd, h⟩ := bind_ok.mp h
        obtain rfl := itemOrNull_field hd
        have allowedIs : allowed = allowedResponses ev := by
          cases hc : ev.c with
          | none =>
            simp only [hc, responseTransforms, Except.ok.injEq] at listed
            simp [allowedResponses, hc, listed]
          | some c =>
            simp only [hc, responseTransforms, bind_ok] at listed
            obtain ⟨raw, stated, iterated⟩ := listed
            simp [allowedResponses, hc, field, getItem_getOr stated, elements_of_iterate iterated]
        subst allowedIs
        have legal := declared_iff (field ev.r "response_transform_id") (allowedResponses ev)
        split at h
        next illegal =>
          have illegal : ¬ ResponseDeclared ev := fun stated => by
            rw [legal.mpr stated] at illegal
            cases illegal
          obtain rfl := Except.ok.inj h
          exact means_of_decided false ⟨signs, received, Or.inl illegal⟩ rfl
            (by simp [Holds, illegal])
        next stated =>
          have stated : ResponseDeclared ev := legal.mp (by simpa using stated)
          split at h
          next other =>
            have other : allowedResponses ev ≠ [.str identity] := fun same => by
              simp [(eqList_identity _).mpr same] at other
            obtain rfl := Except.ok.inj h
            exact means_of_undecided (by simp [Decided, stated, other]) rfl
          next only =>
            have only : allowedResponses ev = [.str identity] :=
              (eqList_identity _).mp (by simpa using only)
            obtain ⟨a, ha, h⟩ := bind_ok.mp h
            obtain ⟨b, hb, h⟩ := bind_ok.mp h
            obtain rfl := Except.ok.inj h
            refine means_of_decided _ ⟨signs, received, Or.inr only⟩ rfl ?_
            simp [Holds, stated, hm, ho, field, getItem_getOr ha, getItem_getOr hb]

/-- The values seen so far stay the only one while each new value equals it. -/
theorem distinct_grows {xs seen values : List Value}
    (h : xs.foldlM (fun seen x => if x.hashable then .ok (if memberOf x seen then seen else
      seen ++ [x]) else .error .typeError) seen = (.ok values : Py (List Value))) :
    (∀ x ∈ xs, x.hashable = true) ∧ seen.length ≤ values.length ∧
    (∀ first, seen = [first] → (values.length = 1 ↔ ∀ x ∈ xs, x.eq first = true)) := by
  induction xs generalizing seen with
  | nil =>
    obtain rfl := Except.ok.inj h
    exact ⟨by simp, Nat.le_refl _, by simp +contextual⟩
  | cons x xs ih =>
    rw [List.foldlM_cons] at h
    obtain ⟨next, grown, h⟩ := bind_ok.mp h
    split at grown
    next keyed =>
      obtain rfl := Except.ok.inj grown
      obtain ⟨hashed, longer, one⟩ := ih h
      refine ⟨by simpa [keyed] using hashed, ?_, ?_⟩
      · split at longer
        · exact longer
        · simp only [List.length_append, List.length_singleton] at longer
          omega
      · rintro first rfl
        have test : memberOf x [first] = x.eq first := by simp [memberOf]
        by_cases same : x.eq first = true
        · rw [test, same] at one
          have one := one first rfl
          simp [one, same]
        · simp only [Bool.not_eq_true] at same
          rw [test, same] at longer
          simp only [Bool.false_eq_true, if_false, List.length_append,
            List.length_singleton] at longer
          simp only [List.mem_cons, forall_eq_or_imp, same, Bool.false_eq_true, false_and,
            iff_false]
          omega
    next => cases grown

/-- All values agree if they make a set of one. -/
theorem distinct_one {xs values : List Value} (h : distinct xs = .ok values) :
    values.length = 1 ↔ ∃ first, xs.head? = some first ∧ ∀ x ∈ xs.tail, x.eq first = true := by
  unfold distinct at h
  cases xs with
  | nil => simp [← Except.ok.inj h]
  | cons x xs =>
    rw [List.foldlM_cons] at h
    obtain ⟨next, grown, h⟩ := bind_ok.mp h
    split at grown
    next =>
      obtain rfl := Except.ok.inj grown
      have one := (distinct_grows h).2.2 x (by simp [memberOf])
      simpa using one
    next => cases grown

/-- E11 decides whether all parties speak of one attempt. -/
theorem evalE11_means {ev : EvidenceSet} {e : EqResult} (h : evalE11 ev = .ok e) :
    Means K .e11 ev e := by
  unfold evalE11 at h
  simp only at h
  split at h
  next few =>
    obtain rfl := Except.ok.inj h
    have undecided : ¬ Decided .e11 ev := by
      rw [Decided]
      omega
    exact means_of_undecided undecided rfl
  next enough =>
    obtain ⟨values, made, h⟩ := bind_ok.mp h
    obtain rfl := Except.ok.inj h
    have decided : Decided .e11 ev := by
      rw [Decided]
      omega
    refine means_of_decided _ decided rfl ?_
    rw [Holds, SameAttempts, beq_iff_eq, distinct_one made]

/-- E12 decides whether the answer came before the contract expired. -/
theorem evalE12_means {ev : EvidenceSet} {e : EqResult} (h : evalE12 ev = .ok e) :
    Means K .e12 ev e := by
  unfold evalE12 at h
  cases hc : ev.c with
  | none =>
    simp only [hc, Except.ok.injEq] at h
    subst h
    exact means_of_undecided (by simp [Decided, hc]) rfl
  | some c =>
    cases ho : ev.o with
    | none =>
      simp only [hc, ho, Except.ok.injEq] at h
      subst h
      exact means_of_undecided (by simp [Decided, ho]) rfl
    | some o =>
      simp only [hc, ho, bind_ok, pure_ok, Except.ok.injEq] at h
      obtain ⟨a, ha, b, hb, ok, compared, rfl⟩ := h
      refine means_of_decided _ (by simp [Decided, hc, ho]) rfl ?_
      rw [Holds, hc, ho, field, field, getItem_getOr ha, getItem_getOr hb, compared]
      simp

/-- A result the code returns is what the evidence says. -/
theorem evalEq_means {k : EqId} {ev : EvidenceSet} {e : EqResult} (h : evalEq K k ev = .ok e) :
    Means K k ev e := by
  cases k with
  | e1 => exact evalE1_means h
  | e2 => exact evalE2_means h
  | e3 => exact evalE3_means h
  | e4 => exact evalE4_means h
  | e5 => exact evalE5_means h
  | e6 => exact evalE6_means h
  | e7 => exact evalE7_means h
  | e8 => exact evalE8_means h
  | e9 => exact evalE9_means h
  | e10 => exact evalE10_means h
  | e11 => exact evalE11_means h
  | e12 => exact evalE12_means h

/-- All twelve results mean what the equations say. -/
theorem evaluateEquations_means {ev : EvidenceSet} {eqs : Results}
    (h : evaluateEquations K ev = .ok eqs) (k : EqId) : Means K k ev (eqs k) :=
  evalEq_means (evaluateEquations_ok.mp h k)

/-- Only E1 and E4 look at the user's private evidence. -/
theorem evalEq_without_private {k : EqId} (shared : k ≠ .e1 ∧ k ≠ .e4) (ev : EvidenceSet)
    (p : Option PrivateEvidence) :
    evalEq K k { ev with privateEvidence := p } = evalEq K k ev := by
  obtain ⟨not1, not4⟩ := shared
  cases k with
  | e1 => exact absurd rfl not1
  | e4 => exact absurd rfl not4
  | _ => rfl

end EquationMeaning
