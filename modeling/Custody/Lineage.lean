import Custody.Enrollment
import Custody.RegisteredEvidence

/-!
# Deployment lineage

What an accepted bundle says about all the epochs behind it: their number, the links
between neighbours, and who endorsed each of them with which keys.
-/

namespace Lineage

open PyValue Equality HexBytes CanonicalJson CanonicalForm Commitments Statements Schemas
  TransparencyLog ReplayAudit Identity Auditing RegisteredEvidence Enrollment

variable {K : Primitives} {N : Network}

theorem refuseIf_ok {bad : Bool} {message : String} {u : Unit} :
    refuseIf bad message = .ok u ↔ bad = false := by
  cases bad with
  | false => simp [refuseIf]
  | true => simp [refuseIf]

theorem refuseIf_passed {bad : Bool} {message : String} (good : bad = false) :
    refuseIf bad message = .ok () := refuseIf_ok.mpr good

/-- A lifetime that was read begins before it ends. -/
theorem lifetime_ok {message : String} {v : Value} {created expires : Int}
    (read : lifetime message v = .ok (created, expires)) :
    v.item "created_at" = .ok (.int created) ∧ v.item "expires_at" = .ok (.int expires) ∧
      created < expires := by
  obtain ⟨c, first, read⟩ := bind_ok.mp read
  cases c with
  | int c =>
    obtain ⟨e, second, read⟩ := bind_ok.mp read
    cases e with
    | int e =>
      simp only at read
      split at read
      next less =>
        obtain ⟨rfl, rfl⟩ := Prod.mk.inj (Except.ok.inj read)
        exact ⟨first, second, less⟩
      next => cases read
    | _ => cases read
  | _ => cases read

/-- The role is one of the five, as text. -/
theorem role_of_find {role : Value} {r : String}
    (found : (roles.find? fun r => role.eq (.str r)) = some r) : role = .str r ∧ r ∈ roles := by
  have same := List.find?_some found
  exact ⟨(eq_str_right _ _).mp same, List.mem_of_find?_eq_some found⟩

/-- What an accepted card says of its body. -/
structure CardBody (K : Primitives) (N : Network) (card body : Value) : Prop where
  held : card.item "body" = .ok body
  role : ∃ r ∈ roles, body.item "role" = .ok (.str r) ∧ body.item "iss" = .ok (.str (partyOf r)) ∧
    (r ≠ "U" → Returns (body.item "endpoint"))
  signed : ∃ publicKey encoded signature, (body.item "public_key" >>= fromHexValue) =
    .ok publicKey ∧
    canonicalJson body = .ok encoded ∧ (card.item "signature" >>= fromHexValue) = .ok signature ∧
    K.verify publicKey encoded signature = true
  lifetime : ∃ created expires, body.item "created_at" = .ok (.int created) ∧
    body.item "expires_at" = .ok (.int expires) ∧ created < expires

/-- A card that passes carries a signature over its body. -/
theorem checkCardSignature_ok {card body : Value} {u : Unit}
    (passed : checkCardSignature K card body = .ok u) : ∃ publicKey encoded signature,
      (body.item "public_key" >>= fromHexValue) = .ok publicKey ∧
      canonicalJson body = .ok encoded ∧ (card.item "signature" >>= fromHexValue) = .ok signature ∧
      K.verify publicKey encoded signature = true := by
  obtain ⟨keyText, h₁, passed⟩ := bind_ok.mp passed
  obtain ⟨key, h₂, passed⟩ := bind_ok.mp passed
  obtain ⟨encoded, h₃, passed⟩ := bind_ok.mp passed
  obtain ⟨sigText, h₄, passed⟩ := bind_ok.mp passed
  obtain ⟨sig, h₅, passed⟩ := bind_ok.mp passed
  have valid := refuseIf_ok.mp passed
  exact ⟨key, encoded, sig, bind_ok.mpr ⟨keyText, h₁, h₂⟩, h₃, bind_ok.mpr ⟨sigText, h₄, h₅⟩,
    by simpa using valid⟩

theorem checkService_endpoint {body : Value} {created expires : Int} {u : Unit}
    (passed : checkService N body created expires = .ok u) : Returns (body.item "endpoint") := by
  obtain ⟨endpoint, given, -⟩ := bind_ok.mp passed
  exact ⟨endpoint, given⟩

/-- An accepted card has the fields the verification looks at. -/
theorem verifyCard_ok {card body : Value} (accepted : verifyCard K N card = .ok body) :
    CardBody K N card body := by
  obtain ⟨b, hb, accepted⟩ := bind_ok.mp accepted
  obtain ⟨role, hr, accepted⟩ := bind_ok.mp accepted
  obtain ⟨profile, -, accepted⟩ := bind_ok.mp accepted
  obtain ⟨u, -, accepted⟩ := bind_ok.mp accepted
  cases found : roles.find? fun r => role.eq (.str r) with
  | none =>
    rw [found] at accepted
    cases accepted
  | some r =>
    rw [found] at accepted
    obtain ⟨iss, hi, accepted⟩ := bind_ok.mp accepted
    obtain ⟨u, same, accepted⟩ := bind_ok.mp accepted
    obtain ⟨u, signed, accepted⟩ := bind_ok.mp accepted
    obtain ⟨⟨created, expires⟩, dates, accepted⟩ := bind_ok.mp accepted
    obtain ⟨u, service, accepted⟩ := bind_ok.mp accepted
    obtain rfl := Except.ok.inj accepted
    obtain ⟨rfl, listed⟩ := role_of_find found
    have issuer : iss = .str (partyOf r) := by
      have equal := refuseIf_ok.mp same
      rw [Bool.not_eq_false', eq_str_right] at equal
      exact equal
    refine ⟨hb, ⟨r, listed, hr, issuer ▸ hi, ?_⟩, checkCardSignature_ok signed,
      ⟨created, expires, lifetime_ok dates⟩⟩
    intro notU
    rw [checkEndpoint, if_pos notU] at service
    exact checkService_endpoint service

/-- Two sets that were made from values and have the same members. -/
theorem setOf_ok {v : Value} {xs : List Value} (made : setOf v = .ok xs) :
    v.iterate = .ok xs ∧ ∀ x ∈ xs, x.hashable = true := by
  obtain ⟨ys, listed, made⟩ := bind_ok.mp made
  rw [hashed] at made
  split at made
  next all =>
    obtain rfl := Except.ok.inj made
    exact ⟨listed, List.all_eq_true.mp all⟩
  next => cases made

/-- What the checks of a proposal itself establish. -/
structure Proposal (p : Value) (n created expires : Int) (names : List String) : Prop where
  epoch : p.item "epoch" = .ok (.int n)
  positive : 1 ≤ n
  ordered : created < expires
  created : p.item "created_at" = .ok (.int created)
  expires : p.item "expires_at" = .ok (.int expires)
  cards : (p.item "cards" >>= setOf) = .ok (texts names)
  complete : ∀ r ∈ ["U", "R", "M", "T"], r ∈ names
  known : ∀ r ∈ names, r ∈ roles
  limits : ∀ k ∈ ["pre_exec", "strict_timeout_ms", "max_log_entries", "retention_days"],
    Returns (p.item k)
  timeout : ∃ n, p.item "strict_timeout_ms" = .ok (.int n) ∧ 100 ≤ n ∧ n ≤ 10000

/-- A subset of a list of names is one of names. -/
theorem texts_of_subset {xs : List Value} {names : List String}
    (inside : subset xs (texts names) = true) : ∃ ys, xs = texts ys ∧ ∀ y ∈ ys, y ∈ names := by
  induction xs with
  | nil => exact ⟨[], rfl, fun y none_ => nomatch none_⟩
  | cons x xs ih =>
    rw [subset, List.all_cons, Bool.and_eq_true] at inside
    obtain ⟨s, listed, rfl⟩ := memberOf_texts.mp inside.1
    obtain ⟨ys, rfl, all⟩ := ih inside.2
    refine ⟨s :: ys, rfl, ?_⟩
    intro y member
    rcases List.mem_cons.mp member with rfl | member
    · exact listed
    · exact all y member

/-- A Boolean is a number below these bounds. -/
theorem within_int {v : Value} (held : within 100 10000 v = .ok true) :
    ∃ n, v = .int n ∧ 100 ≤ n ∧ n ≤ 10000 := by
  cases v with
  | int n => exact ⟨n, rfl, of_decide_eq_true (Except.ok.inj held)⟩
  | bool b => cases b <;> cases held
  | _ => cases held

/-- A proposal that passes has a number, a lifetime and named cards. -/
theorem checkProposal_ok {p : Value} {u : Unit} (passed : checkProposal p = .ok u) :
    ∃ epoch created expires named, Proposal p epoch created expires named := by
  obtain ⟨profile, -, passed⟩ := bind_ok.mp passed
  obtain ⟨u, -, passed⟩ := bind_ok.mp passed
  obtain ⟨epoch, he, passed⟩ := bind_ok.mp passed
  obtain ⟨u, whole, passed⟩ := bind_ok.mp passed
  obtain ⟨cards, hc, passed⟩ := bind_ok.mp passed
  obtain ⟨xs, hs, passed⟩ := bind_ok.mp passed
  obtain ⟨u, named, passed⟩ := bind_ok.mp passed
  obtain ⟨⟨created, expires⟩, dates, passed⟩ := bind_ok.mp passed
  obtain ⟨preExec, h₁, passed⟩ := bind_ok.mp passed
  obtain ⟨u, -, passed⟩ := bind_ok.mp passed
  obtain ⟨timeout, h₂, passed⟩ := bind_ok.mp passed
  obtain ⟨inRange, compared, passed⟩ := bind_ok.mp passed
  obtain ⟨u, bounded, passed⟩ := bind_ok.mp passed
  obtain ⟨entries, h₃, passed⟩ := bind_ok.mp passed
  obtain ⟨ok, -, passed⟩ := bind_ok.mp passed
  obtain ⟨u, -, passed⟩ := bind_ok.mp passed
  obtain ⟨days, h₄, passed⟩ := bind_ok.mp passed
  have both := refuseIf_ok.mp named
  rw [Bool.not_eq_false', Bool.and_eq_true] at both
  obtain ⟨ys, rfl, known⟩ := texts_of_subset both.2
  obtain ⟨hcr, hex, less⟩ := lifetime_ok dates
  cases epoch with
  | int n =>
    have positive : 1 ≤ n := by
      have := refuseIf_ok.mp whole
      simpa using this
    have inRange_ := refuseIf_ok.mp bounded
    rw [Bool.not_eq_false'] at inRange_
    subst inRange_
    obtain ⟨ms, rfl, low, high⟩ := within_int compared
    refine ⟨n, created, expires, ys, he, positive, less, hcr, hex, bind_ok.mpr ⟨cards, hc, hs⟩, ?_,
      known, ?_, ms, h₂, low, high⟩
    · intro r wanted
      have inside := List.all_eq_true.mp both.1 (.str r) (List.mem_map_of_mem wanted)
      obtain ⟨s, listed, same⟩ := memberOf_texts.mp inside
      obtain rfl := Value.str.inj same
      exact listed
    · intro k listed
      simp only [List.mem_cons, List.not_mem_nil, or_false] at listed
      rcases listed with rfl | rfl | rfl | rfl
      · exact ⟨_, h₁⟩
      · exact ⟨_, h₂⟩
      · exact ⟨_, h₃⟩
      · exact ⟨_, h₄⟩
  | _ => cases whole

/-- A card of a proposal that expires at this time. -/
structure Card (K : Primitives) (N : Network) (expires : Int) (x : Value × Value) (r : String)
    (body : Value) : Prop where
  accepted : CardBody K N x.2 body
  role : x.1 = .str r
  own : body.item "role" = .ok (.str r)
  endpoint : r ≠ "U" → Returns (body.item "endpoint")
  outlasts : ∃ e, body.item "expires_at" = .ok (.int e) ∧ expires ≤ e

theorem checkCard_ok {p : Value} {expires : Int} {x : Value × Value} {u : Unit}
    (dated : p.item "expires_at" = .ok (.int expires)) (passed : checkCard K N p x = .ok u) :
    ∃ r body, Card K N expires x r body := by
  obtain ⟨body, verified, passed⟩ := bind_ok.mp passed
  obtain ⟨role, given, passed⟩ := bind_ok.mp passed
  obtain ⟨u, same, passed⟩ := bind_ok.mp passed
  obtain ⟨mine, h₁, passed⟩ := bind_ok.mp passed
  obtain ⟨again, h₂, passed⟩ := bind_ok.mp passed
  obtain ⟨theirs, h₃, passed⟩ := bind_ok.mp passed
  obtain ⟨outlived, compared, last⟩ := bind_ok.mp passed
  have accepted := verifyCard_ok verified
  obtain ⟨r, -, own, -, endpoint⟩ := accepted.role
  obtain ⟨_, e, -, date, -⟩ := accepted.lifetime
  obtain rfl := Except.ok.inj (h₂.symm.trans accepted.held)
  obtain rfl := Except.ok.inj (h₁.symm.trans dated)
  obtain rfl := Except.ok.inj (h₃.symm.trans date)
  obtain rfl := Except.ok.inj (given.symm.trans own)
  have equal := refuseIf_ok.mp same
  rw [Bool.not_eq_false', eq_str] at equal
  have later := refuseIf_ok.mp last
  subst later
  refine ⟨r, again, accepted, equal, own, endpoint, e, date, ?_⟩
  have less : decide (e < expires) = false := Except.ok.inj compared
  have := of_decide_eq_false less
  omega

/-- What the checks of the cards establish. -/
structure Cards (K : Primitives) (N : Network) (p : Value) (expires : Int)
    (cards : List (Value × Value)) : Prop where
  held : p.item "cards" = .ok (.dict cards)
  each : ∀ x ∈ cards, ∃ r body, Card K N expires x r body
  keys : ∃ keys, (cards.mapM fun x => do (← x.2.item "body").item "public_key") = .ok keys ∧
    distinct keys = .ok true

/-- Every card of an accepted proposal has been checked. -/
theorem checkCards_ok {p : Value} {expires : Int} {u : Unit}
    (dated : p.item "expires_at" = .ok (.int expires)) (passed : checkCards K N p = .ok u) :
    ∃ cards, Cards K N p expires cards := by
  obtain ⟨held, given, passed⟩ := bind_ok.mp passed
  obtain ⟨cards, listed, passed⟩ := bind_ok.mp passed
  obtain ⟨us, each, passed⟩ := bind_ok.mp passed
  obtain ⟨keys, made, passed⟩ := bind_ok.mp passed
  obtain ⟨differ, compared, passed⟩ := bind_ok.mp passed
  obtain ⟨u, ownKeys, passed⟩ := bind_ok.mp passed
  have own := refuseIf_ok.mp ownKeys
  rw [Bool.not_eq_false'] at own
  subst own
  cases held with
  | dict kvs =>
    obtain rfl := Except.ok.inj listed
    refine ⟨kvs, given, ?_, keys, made, compared⟩
    intro x member
    obtain ⟨u, -, checked⟩ := mapM_ok_mem each member
    exact checkCard_ok dated checked
  | _ => cases listed

/-- The fields of a configuration that the next epoch and its checkpoint depend on. -/
structure Configured (K : Primitives) (bundle p cfg : Value) : Prop where
  proposal : bundle.item "proposal" = .ok p
  history : ∃ epochs, history K bundle = .ok epochs ∧
    cfg.item "deployment_history" = .ok (.list epochs)
  logId : ∃ logId, logIdOf K p = .ok logId ∧ cfg.item "log_id" = .ok logId
  identities : ∃ cards identities, (p.item "cards" >>= items) = .ok cards ∧
    (cards.mapM fun x => do pure (x.1, ← identityOf x.2)) = .ok identities ∧
    cfg.item "identities" = .ok (.dict identities)

/-- A configuration is made of the fields of the bundle it is for. -/
theorem configuration_ok {bundle cfg : Value} (made : configuration K bundle = .ok cfg) :
    ∃ p, Configured K bundle p cfg := by
  obtain ⟨p, proposal, made⟩ := bind_ok.mp made
  obtain ⟨epochs, listed, made⟩ := bind_ok.mp made
  obtain ⟨created, -, made⟩ := bind_ok.mp made
  obtain ⟨expires, -, made⟩ := bind_ok.mp made
  obtain ⟨logId, log, made⟩ := bind_ok.mp made
  obtain ⟨epoch, -, made⟩ := bind_ok.mp made
  obtain ⟨hash, -, made⟩ := bind_ok.mp made
  obtain ⟨cardsValue, h₁, made⟩ := bind_ok.mp made
  obtain ⟨cards, h₂, made⟩ := bind_ok.mp made
  obtain ⟨identities, named, made⟩ := bind_ok.mp made
  obtain ⟨endpoints, -, made⟩ := bind_ok.mp made
  obtain ⟨modelId, -, made⟩ := bind_ok.mp made
  obtain ⟨modelHash, -, made⟩ := bind_ok.mp made
  split at made
  next => cases made
  next =>
    obtain ⟨kind, -, made⟩ := bind_ok.mp made
    obtain ⟨name, -, made⟩ := bind_ok.mp made
    obtain ⟨preExec, -, made⟩ := bind_ok.mp made
    obtain ⟨timeout, -, made⟩ := bind_ok.mp made
    obtain ⟨entries, -, made⟩ := bind_ok.mp made
    obtain ⟨days, -, made⟩ := bind_ok.mp made
    obtain rfl := Except.ok.inj made
    exact ⟨p, proposal, ⟨epochs, listed, rfl⟩, ⟨logId, log, rfl⟩, cards, identities,
      bind_ok.mpr ⟨cardsValue, h₁, h₂⟩, named, rfl⟩

/-- A dictionary comprehension over the same keys. -/
theorem find_of_mapM {A B : Type} {f : A → Py B} {xs : List (Value × A)} {ys : List (Value × B)}
    (made : (xs.mapM fun x => do pure (x.1, ← f x.2)) = .ok ys) {k : Value} {b : B}
    (found : find ys k = some b) : ∃ a, find xs k = some a ∧ f a = .ok b := by
  induction xs generalizing ys with
  | nil =>
    obtain rfl := Except.ok.inj made
    cases found
  | cons x xs ih =>
    rw [List.mapM_cons] at made
    obtain ⟨y, first, made⟩ := bind_ok.mp made
    obtain ⟨rest, later, made⟩ := bind_ok.mp made
    obtain rfl := Except.ok.inj made
    obtain ⟨b', here, first⟩ := bind_ok.mp first
    obtain rfl := Except.ok.inj first
    rw [find] at found ⊢
    split at found
    next same =>
      obtain rfl := Option.some.inj found
      exact ⟨x.2, if_pos same, here⟩
    next other =>
      rw [if_neg other]
      exact ih later found

theorem item_dict {kvs : List (Value × Value)} {k : String} {v : Value} :
    (Value.dict kvs).item k = .ok v ↔ find kvs (.str k) = some v := by
  rw [Value.item]
  cases find kvs (.str k) with
  | none => simp
  | some w => simp

/-- An identity is taken from the body of a card. -/
theorem identityOf_ok {card t : Value} (read : identityOf card = .ok t) :
    ∃ body iss kid publicKey, card.item "body" = .ok body ∧ body.item "iss" = .ok iss ∧
      body.item "kid" = .ok kid ∧ body.item "public_key" = .ok publicKey ∧
      t = .dict (fields [("iss", iss), ("kid", kid), ("public_key", publicKey)]) := by
  obtain ⟨body, held, read⟩ := bind_ok.mp read
  obtain ⟨iss, h₁, read⟩ := bind_ok.mp read
  obtain ⟨kid, h₂, read⟩ := bind_ok.mp read
  obtain ⟨publicKey, h₃, read⟩ := bind_ok.mp read
  exact ⟨body, iss, kid, publicKey, held, h₁, h₂, h₃, (Except.ok.inj read).symm⟩

theorem trustOf_ok {cfg trust : Value} (pinned : trustOf K cfg = .ok trust) :
    ∃ logId identities, cfg.item "log_id" = .ok logId ∧ cfg.item "identities" = .ok identities ∧
      trust.item "log_id" = .ok logId ∧ trust.item "identities" = .ok identities := by
  obtain ⟨t, -, pinned⟩ := bind_ok.mp pinned
  obtain ⟨logText, -, pinned⟩ := bind_ok.mp pinned
  obtain ⟨sub, -, pinned⟩ := bind_ok.mp pinned
  obtain ⟨kid, -, pinned⟩ := bind_ok.mp pinned
  obtain ⟨created, -, pinned⟩ := bind_ok.mp pinned
  obtain ⟨policy, -, pinned⟩ := bind_ok.mp pinned
  obtain ⟨logId, log, pinned⟩ := bind_ok.mp pinned
  obtain ⟨identities, names, pinned⟩ := bind_ok.mp pinned
  obtain ⟨policyHash, -, pinned⟩ := bind_ok.mp pinned
  obtain ⟨modelHashes, -, pinned⟩ := bind_ok.mp pinned
  obtain ⟨hash, -, last⟩ := bind_ok.mp pinned
  obtain rfl := Except.ok.inj last
  exact ⟨logId, identities, log, names, rfl, rfl⟩

/-- An accepted checkpoint: its log, its signer and the signature under the signer's key. -/
theorem verifyHeadOf_ok {v trust : Value} {u : Unit} (passed : verifyHeadOf K v trust = .ok u) :
    ∃ head t logId kid key, v = .dict head ∧ identityT trust = .ok t ∧
      trust.item "log_id" = .ok logId ∧ (getOr head "log_id").eq logId = true ∧
      t.item "kid" = .ok kid ∧ (getOr head "ts_kid").eq kid = true ∧
      (t.item "public_key" >>= fromHexValue) = .ok key ∧ verifyTreeHead K head key = .ok true := by
  obtain ⟨t, pinned, passed⟩ := bind_ok.mp passed
  cases v with
  | dict head =>
    obtain ⟨u, -, passed⟩ := bind_ok.mp passed
    obtain ⟨logId, h₁, passed⟩ := bind_ok.mp passed
    obtain ⟨u, sameLog, passed⟩ := bind_ok.mp passed
    obtain ⟨kid, h₂, passed⟩ := bind_ok.mp passed
    obtain ⟨u, sameKid, passed⟩ := bind_ok.mp passed
    obtain ⟨u, -, passed⟩ := bind_ok.mp passed
    obtain ⟨u, -, passed⟩ := bind_ok.mp passed
    obtain ⟨keyText, h₃, passed⟩ := bind_ok.mp passed
    obtain ⟨key, h₄, passed⟩ := bind_ok.mp passed
    obtain ⟨valid, verified, passed⟩ := bind_ok.mp passed
    have signed := refuseIf_ok.mp passed
    rw [Bool.not_eq_false'] at signed
    subst signed
    have log := refuseIf_ok.mp sameLog
    have signer := refuseIf_ok.mp sameKid
    rw [Bool.not_eq_false'] at log signer
    exact ⟨head, t, logId, kid, key, rfl, pinned, h₁, log, h₂, signer,
      bind_ok.mpr ⟨keyText, h₃, h₄⟩, verified⟩
  | _ => cases passed

/-- The checkpoint names the log of the older epoch and is signed with the key of its T. -/
structure SignedHead (K : Primitives) (p q : Value) : Prop where
  signed : ∃ head logId key, p.item "previous_checkpoint" = .ok (.dict head) ∧
    logIdOf K q = .ok logId ∧ getOr head "log_id" = logId ∧ keyOf q (.str "T") = .ok key ∧
    verifyTreeHead K head key = .ok true

theorem logIdOf_text {p logId : Value} (made : logIdOf K p = .ok logId) : ∃ s, logId = .str s := by
  obtain ⟨deployment, -, made⟩ := bind_ok.mp made
  obtain ⟨epoch, -, made⟩ := bind_ok.mp made
  exact ⟨_, (Except.ok.inj made).symm⟩

theorem signedHead_of {p previous q cfg trust checkpoint : Value} {u : Unit}
    (held : previous.item "proposal" = .ok q) (made : configuration K previous = .ok cfg)
    (pinned : trustOf K cfg = .ok trust) (given : p.item "previous_checkpoint" = .ok checkpoint)
    (passed : verifyHeadOf K checkpoint trust = .ok u) : SignedHead K p q := by
  obtain ⟨q', proposal, -, ⟨logId, log, logIn⟩, cards, identities, listed, mapped, idIn⟩ :=
    configuration_ok made
  obtain rfl := Except.ok.inj (proposal.symm.trans held)
  obtain ⟨logId', identities', h₁, h₂, h₃, h₄⟩ := trustOf_ok pinned
  obtain rfl := Except.ok.inj (h₁.symm.trans logIn)
  obtain rfl := Except.ok.inj (h₂.symm.trans idIn)
  obtain ⟨head, t, logId, kid, key, rfl, named, h₅, sameLog, -, -, decoded, signed⟩ :=
    verifyHeadOf_ok passed
  obtain rfl := Except.ok.inj (h₅.symm.trans h₃)
  obtain ⟨s, rfl⟩ := logIdOf_text log
  refine ⟨head, .str s, key, given, log, (eq_str_right _ _).mp sameLog, ?_, signed⟩
  obtain ⟨ids, h₆, found⟩ := bind_ok.mp named
  obtain rfl := Except.ok.inj (h₆.symm.trans h₄)
  obtain ⟨card, inCards, read⟩ := find_of_mapM mapped (item_dict.mp found)
  obtain ⟨body, iss, kid', publicKey, hb, -, -, hk, rfl⟩ := identityOf_ok read
  obtain ⟨cardsValue, h₇, h₈⟩ := bind_ok.mp listed
  cases cardsValue with
  | dict kvs =>
    obtain rfl := Except.ok.inj h₈
    have looked : lookup kvs (.str "T") = .ok (some card) := by
      simp [lookup, Value.hashable, inCards]
    rw [keyOf, h₇, ok_bind]
    simp only [looked, ok_bind, hb, hk]
    exact decoded
  | _ => cases h₈

/-- What ties a proposal `p` to the older proposal `q`. -/
structure Succeeds (K : Primitives) (p q : Value) : Prop where
  hash : ∃ h, fingerprint K q = .ok h ∧ p.item "previous_hash" = .ok (.str h)
  deployment : ∃ d d', p.item "deployment_id" = .ok d ∧ q.item "deployment_id" = .ok d' ∧
    d.eq d' = true
  roles : ∃ xs ys, (p.item "cards" >>= setOf) = .ok xs ∧ (q.item "cards" >>= setOf) = .ok ys ∧
    sameSet xs ys = true
  checkpoint : SignedHead K p q

/-- A successor counts one further and links to the previous bundle by its hash. -/
theorem checkSuccession_ok {p previous q : Value} {n m : Int} {u : Unit}
    (held : previous.item "proposal" = .ok q) (older : q.item "epoch" = .ok (.int n))
    (newer : p.item "epoch" = .ok (.int m)) (passed : checkSuccession K p previous = .ok u) :
    m = n + 1 ∧ Succeeds K p q ∧ Returns (configuration K previous) := by
  obtain ⟨q', h₁, passed⟩ := bind_ok.mp passed
  obtain rfl := Except.ok.inj (h₁.symm.trans held)
  obtain ⟨previousHash, h₂, passed⟩ := bind_ok.mp passed
  obtain ⟨hash, h₃, passed⟩ := bind_ok.mp passed
  obtain ⟨u, sameHash, passed⟩ := bind_ok.mp passed
  obtain ⟨epoch, h₄, passed⟩ := bind_ok.mp passed
  obtain ⟨oldEpoch, h₅, passed⟩ := bind_ok.mp passed
  obtain rfl := Except.ok.inj (h₄.symm.trans newer)
  obtain rfl := Except.ok.inj (h₅.symm.trans older)
  simp only [number] at passed
  obtain ⟨u, next, passed⟩ := bind_ok.mp passed
  obtain ⟨d, h₆, passed⟩ := bind_ok.mp passed
  obtain ⟨d', h₇, passed⟩ := bind_ok.mp passed
  obtain ⟨u, sameDeployment, passed⟩ := bind_ok.mp passed
  obtain ⟨cards, h₈, passed⟩ := bind_ok.mp passed
  obtain ⟨xs, h₉, passed⟩ := bind_ok.mp passed
  obtain ⟨cards', h₁₀, passed⟩ := bind_ok.mp passed
  obtain ⟨ys, h₁₁, passed⟩ := bind_ok.mp passed
  obtain ⟨u, sameRoles, passed⟩ := bind_ok.mp passed
  obtain ⟨checkpoint, h₁₂, passed⟩ := bind_ok.mp passed
  obtain ⟨cfg, h₁₃, passed⟩ := bind_ok.mp passed
  obtain ⟨trust, h₁₄, last⟩ := bind_ok.mp passed
  have hashes := refuseIf_ok.mp sameHash
  have epochs := refuseIf_ok.mp next
  have deployments := refuseIf_ok.mp sameDeployment
  have named := refuseIf_ok.mp sameRoles
  rw [Bool.not_eq_false'] at hashes epochs deployments named
  obtain rfl := (eq_str_right _ _).mp hashes
  refine ⟨?_, ⟨⟨hash, h₃, h₂⟩, ⟨d, d', h₆, h₇, deployments⟩,
    ⟨xs, ys, bind_ok.mpr ⟨cards, h₈, h₉⟩, bind_ok.mpr ⟨cards', h₁₀, h₁₁⟩, named⟩,
    signedHead_of held h₁₃ h₁₄ h₁₂ last⟩, cfg, h₁₃⟩
  simpa [Value.eq, Value.scalarEq] using epochs

/-- The first epoch has number 1 and names no previous one. -/
theorem checkFirst_ok {p : Value} {m : Int} {u : Unit} (first : p.item "epoch" = .ok (.int m))
    (passed : checkFirst p = .ok u) :
    m = 1 ∧ ∃ v, p.item "previous_hash" = .ok v ∧ v.truthy = false := by
  obtain ⟨v, h₁, passed⟩ := bind_ok.mp passed
  obtain ⟨u, falsy, passed⟩ := bind_ok.mp passed
  obtain ⟨epoch, h₂, last⟩ := bind_ok.mp passed
  obtain rfl := Except.ok.inj (h₂.symm.trans first)
  have one := refuseIf_ok.mp last
  rw [Bool.not_eq_false'] at one
  refine ⟨?_, v, h₁, refuseIf_ok.mp falsy⟩
  simpa [Value.eq, Value.scalarEq] using one

/-- One endorsement of a proposal by a role, with its key of this epoch and, after a rotation, its
key of the epoch before. -/
structure Endorsement (K : Primitives) (p : Value) (older : Option Value) (r : String)
    (e : Value) : Prop where
  given : ∃ body hash encoded, e.item "body" = .ok body ∧ fingerprint K p = .ok hash ∧
    body.eq (endorsementBody (.str r) hash) = true ∧
    canonicalJson (endorsementBody (.str r) hash) = .ok encoded ∧
    (∃ key signature, keyOf p (.str r) = .ok key ∧
      (e.item "signature" >>= fromHexValue) = .ok signature ∧
      K.verify key encoded signature = true) ∧
    ∀ q, older = some q → ∃ key signature, keyOf q (.str r) = .ok key ∧
      (previousSignature e >>= fromHexValue) = .ok signature ∧
      K.verify key encoded signature = true

/-- The endorsement is given for this role. -/
def givenFor (r : String) (e : Value) : Bool :=
  match e.item "body" >>= fun body => body.item "role" with
  | .ok role => role.eq (.str r)
  | .error _ => false

/-- The proposal before, when there is one. -/
def olderOf (previous : Value) : Option Value :=
  if previous.truthy then (match previous.item "proposal" with
    | .ok q => some q
    | .error _ => none)
  else none

/-- Over an earlier epoch, the key that a role had there has signed the proposal too. -/
theorem checkOldKey_ok {previous e role q : Value} {encoded : Bytes} {u : Unit}
    (passed : checkOldKey K previous e role encoded = .ok u) (older : olderOf previous = some q) :
    ∃ key signature, keyOf q role = .ok key ∧
      (previousSignature e >>= fromHexValue) = .ok signature ∧
      K.verify key encoded signature = true := by
  rw [olderOf] at older
  rw [checkOldKey] at passed
  split at older
  next there =>
    rw [if_pos there] at passed
    obtain ⟨q', held, passed⟩ := bind_ok.mp passed
    obtain ⟨key, h₁, passed⟩ := bind_ok.mp passed
    obtain ⟨text_, h₂, passed⟩ := bind_ok.mp passed
    obtain ⟨signature, h₃, last⟩ := bind_ok.mp passed
    have valid := refuseIf_ok.mp last
    rw [Bool.not_eq_false'] at valid
    rw [held] at older
    obtain rfl := Option.some.inj older
    exact ⟨key, signature, h₁, bind_ok.mpr ⟨text_, h₂, h₃⟩, valid⟩
  next => cases older

/-- A dictionary with these roles has the role in it. -/
theorem role_of_member {p role : Value} {cards : List (Value × Value)} {names : List String}
    (held : p.item "cards" = .ok (.dict cards)) (named : cards.map Prod.fst = texts names)
    (inside : (p.item "cards" >>= isIn role) = .ok true) : ∃ r ∈ names, role = .str r := by
  rw [held, ok_bind, isIn] at inside
  split at inside
  next hashable =>
    have found := Except.ok.inj inside
    obtain ⟨card, here⟩ := Option.isSome_iff_exists.mp found
    obtain ⟨k, member, same⟩ := find_mem here
    have listed : k ∈ texts names := by
      rw [← named]
      exact List.mem_map_of_mem member
    obtain ⟨r, known, rfl⟩ := List.mem_map.mp listed
    exact ⟨r, known, scalarEq_str_left same⟩
  next => cases inside

/-- A role that was received is found among them. -/
theorem find_received {r : String} : ∀ {received : List Value}, .str r ∈ received →
    (find (received.map fun v => (v, Value.bool true)) (.str r)).isSome = true
  | [], already => nomatch already
  | v :: rest, already => by
    rw [List.map_cons, find]
    rcases List.mem_cons.mp already with rfl | later
    · simp
    · split
      · rfl
      · exact find_received later

theorem receive_ok {p previous e : Value} {received received' : List Value}
    {cards : List (Value × Value)} {names : List String}
    (held : p.item "cards" = .ok (.dict cards)) (named : cards.map Prod.fst = texts names)
    (step : receive K p previous received e = .ok received') :
    ∃ r ∈ names, received' = received ++ [.str r] ∧ .str r ∉ received ∧ givenFor r e = true ∧
      (∀ s, givenFor s e = true → s = r) ∧ Endorsement K p (olderOf previous) r e := by
  obtain ⟨body, h₁, step⟩ := bind_ok.mp step
  obtain ⟨role, h₂, step⟩ := bind_ok.mp step
  obtain ⟨hash, h₃, step⟩ := bind_ok.mp step
  obtain ⟨repeated, h₄, step⟩ := bind_ok.mp step
  obtain ⟨u, fresh, step⟩ := bind_ok.mp step
  obtain ⟨cardsValue, h₅, step⟩ := bind_ok.mp step
  obtain ⟨inside, h₆, step⟩ := bind_ok.mp step
  obtain ⟨u, there, step⟩ := bind_ok.mp step
  obtain ⟨u, expected, step⟩ := bind_ok.mp step
  obtain ⟨encoded, h₇, step⟩ := bind_ok.mp step
  obtain ⟨key, h₈, step⟩ := bind_ok.mp step
  obtain ⟨text_, h₉, step⟩ := bind_ok.mp step
  obtain ⟨signature, h₁₀, step⟩ := bind_ok.mp step
  obtain ⟨u, signed, step⟩ := bind_ok.mp step
  obtain ⟨u, rotated, last⟩ := bind_ok.mp step
  obtain rfl := Except.ok.inj last
  have isNew := refuseIf_ok.mp fresh
  subst isNew
  have isIn_ := refuseIf_ok.mp there
  have equal := refuseIf_ok.mp expected
  have valid := refuseIf_ok.mp signed
  rw [Bool.not_eq_false'] at isIn_ equal valid
  subst isIn_
  obtain ⟨r, known, rfl⟩ := role_of_member held named (bind_ok.mpr ⟨cardsValue, h₅, h₆⟩)
  have given : ∀ s, givenFor s e = true ↔ s = r := by
    intro s
    rw [givenFor, h₁, ok_bind, h₂]
    show (Value.eq (.str r) (.str s)) = true ↔ s = r
    rw [eq_str_str, beq_iff_eq]
    exact eq_comm
  refine ⟨r, known, rfl, ?_, (given r).mpr rfl, fun s => (given s).mp, body, hash, encoded, h₁, h₃,
    equal, h₇, ⟨key, signature, h₈, bind_ok.mpr ⟨text_, h₉, h₁₀⟩, valid⟩,
    fun q older => checkOldKey_ok rotated older⟩
  intro already
  have found := Except.ok.inj h₄
  rw [find_received already] at found
  cases found

/-- Among the endorsements is exactly one for the role. -/
def Endorsed (K : Primitives) (p : Value) (older : Option Value) (endorsements : List Value)
    (r : String) : Prop :=
  ∃ e, endorsements.filter (givenFor r) = [e] ∧ Endorsement K p older r e

theorem received_ok {p previous : Value} {cards : List (Value × Value)} {names : List String}
    (held : p.item "cards" = .ok (.dict cards)) (named : cards.map Prod.fst = texts names)
    {es : List Value} : ∀ {received final : List Value},
      es.foldlM (receive K p previous) received = .ok final →
      ∃ rs, final = received ++ texts rs ∧
        (∀ r ∈ rs, .str r ∉ received ∧ Endorsed K p (olderOf previous) es r) ∧
        ∀ r, r ∉ rs → es.filter (givenFor r) = [] := by
  induction es with
  | nil =>
    intro received final run
    obtain rfl := Except.ok.inj run
    refine ⟨[], by simp [texts], ?_, fun r _ => rfl⟩
    intro r none_
    cases none_
  | cons e es ih =>
    intro received final run
    rw [List.foldlM_cons] at run
    obtain ⟨received', step, run⟩ := bind_ok.mp run
    obtain ⟨r, -, rfl, isNew, mine, only, given⟩ := receive_ok held named step
    obtain ⟨rs, rfl, each, others⟩ := ih run
    have once : r ∉ rs := fun again => (each r again).1 (by simp)
    refine ⟨r :: rs, by simp [texts], ?_, ?_⟩
    · intro s member
      rcases List.mem_cons.mp member with rfl | later
      · refine ⟨isNew, e, ?_, given⟩
        rw [List.filter_cons_of_pos mine, others s once]
      · obtain ⟨fresh, e', alone, given'⟩ := each s later
        have notThis : ¬ givenFor s e = true := fun this => once (only s this ▸ later)
        refine ⟨fun already => fresh (List.mem_append_left _ already), e', ?_, given'⟩
        rw [List.filter_cons_of_neg notThis, alone]
    · intro s absent
      have notThis : ¬ givenFor s e = true :=
        fun this => absent (only s this ▸ List.mem_cons_self)
      rw [List.filter_cons_of_neg notThis]
      exact others s fun later => absent (List.mem_cons_of_mem _ later)

theorem checkEndorsements_ok {bundle p previous : Value} {cards : List (Value × Value)}
    {names : List String} {u : Unit} (held : p.item "cards" = .ok (.dict cards))
    (named : cards.map Prod.fst = texts names)
    (passed : checkEndorsements K bundle p previous = .ok u) :
    ∃ es, (bundle.item "endorsements" >>= Value.iterate) = .ok es ∧
      ∀ r ∈ names, Endorsed K p (olderOf previous) es r := by
  obtain ⟨given, h₁, passed⟩ := bind_ok.mp passed
  obtain ⟨es, h₂, passed⟩ := bind_ok.mp passed
  obtain ⟨received, run, passed⟩ := bind_ok.mp passed
  obtain ⟨cardsValue, h₃, passed⟩ := bind_ok.mp passed
  obtain ⟨xs, h₄, last⟩ := bind_ok.mp passed
  obtain rfl := Except.ok.inj (h₃.symm.trans held)
  obtain ⟨rs, rfl, each, -⟩ := received_ok held named run
  have keys : xs = texts names := by
    obtain ⟨h₅, -⟩ := setOf_ok h₄
    rw [← Except.ok.inj h₅, named]
  subst keys
  have all := refuseIf_ok.mp last
  rw [Bool.not_eq_false', sameSet, Bool.and_eq_true] at all
  refine ⟨es, bind_ok.mpr ⟨given, h₁, h₂⟩, ?_⟩
  intro r known
  have inside := List.all_eq_true.mp all.2 (.str r) (List.mem_map_of_mem known)
  obtain ⟨s, listed, same⟩ := memberOf_texts.mp inside
  obtain rfl := Value.str.inj same
  exact (each r listed).2

end Lineage
