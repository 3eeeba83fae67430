import Custody.Lineage
import Custody.PassedVerdict

/-!
# Sound deployment lineages

The bundles behind an accepted one, newest first, and what holds of all of them. Every
check of one epoch speaks of that epoch and the one before, so the whole history follows
by induction over the nesting. The configuration of a bundle reads four fields that no
check of the bundle itself reads.
-/

namespace LineageSoundness

open PyValue Equality HexBytes CanonicalJson CanonicalForm Commitments Statements Schemas
  TransparencyLog ReplayAudit Identity Auditing RegisteredEvidence PassedVerdict Enrollment Lineage

variable {K : Primitives} {N : Network}

mutual
/-- The bundle and those before it, newest first. -/
def lineage : Value → List Value
  | .dict kvs => .dict kvs :: lineageBefore kvs
  | v => [v]
termination_by structural v => v

/-- The bundles from the one under `"previous"` on. -/
def lineageBefore : List (Value × Value) → List Value
  | [] => []
  | (k, v) :: rest =>
    if k.scalarEq (.str "previous") then (if v.truthy then lineage v else [])
    else lineageBefore rest
termination_by structural kvs => kvs
end

theorem lineageBefore_of_find : ∀ {kvs : List (Value × Value)} {v : Value},
    find kvs (.str "previous") = some v →
    lineageBefore kvs = if v.truthy then lineage v else []
  | [], _, found => nomatch found
  | (k, w) :: rest, v, found => by
    rw [find] at found
    rw [lineageBefore]
    split at found
    next here =>
      obtain rfl := Option.some.inj found
      rw [if_pos here]
    next other =>
      rw [if_neg other]
      exact lineageBefore_of_find found

/-- The lineage of a bundle is the bundle and the lineage of its previous one. -/
theorem lineage_of_previous {bundle previous : Value}
    (held : bundle.item "previous" = .ok previous) :
    lineage bundle = bundle :: if previous.truthy then lineage previous else [] := by
  cases bundle with
  | dict kvs => rw [lineage, lineageBefore_of_find (item_dict.mp held)]
  | _ => cases held

theorem lineage_head (v : Value) : ∃ rest, lineage v = v :: rest := by
  cases v with
  | dict kvs => exact ⟨_, rfl⟩
  | _ => exact ⟨[], rfl⟩

def proposalOf (bundle : Value) : Option Value :=
  match bundle.item "proposal" with
  | .ok p => some p
  | .error _ => none

/-- The entry of a history is about the proposal of this bundle. -/
structure Records (K : Primitives) (entry bundle : Value) : Prop where
  about : ∃ p h, bundle.item "proposal" = .ok p ∧ fingerprint K p = .ok h ∧
    entry.item "deployment_hash" = .ok (.str h) ∧
    ∀ k ∈ ["epoch", "previous_hash", "previous_checkpoint"],
      ∃ v, p.item k = .ok v ∧ entry.item k = .ok v

/-- A history entry records the bundle it was made from. -/
theorem historyEntry_ok {bundle entry : Value} (made : historyEntry K bundle = .ok entry) :
    Records K entry bundle := by
  obtain ⟨p, held, made⟩ := bind_ok.mp made
  obtain ⟨epoch, h₁, made⟩ := bind_ok.mp made
  obtain ⟨hash, h₂, made⟩ := bind_ok.mp made
  obtain ⟨previousHash, h₃, made⟩ := bind_ok.mp made
  obtain ⟨checkpoint, h₄, last⟩ := bind_ok.mp made
  obtain rfl := Except.ok.inj last
  refine ⟨p, hash, held, h₂, rfl, ?_⟩
  intro k listed
  simp only [List.mem_cons, List.not_mem_nil, or_false] at listed
  rcases listed with rfl | rfl | rfl
  · exact ⟨epoch, h₁, rfl⟩
  · exact ⟨previousHash, h₃, rfl⟩
  · exact ⟨checkpoint, h₄, rfl⟩

theorem history_falsy {v : Value} (absent : v.truthy = false) : history K v = .ok [] := by
  cases v with
  | dict kvs =>
    cases kvs with
    | nil => rfl
    | cons x kvs => cases absent
  | _ => simp [history, absent]

mutual
/-- The history of a bundle has an entry for every bundle of its lineage, in the same order. -/
theorem history_entries : ∀ (v : Value) {entries : List Value}, v.truthy = true →
    history K v = .ok entries →
    List.Forall₂ (fun entry b => historyEntry K b = .ok entry) entries (lineage v)
  | .dict [], _, there, _ => nomatch there
  | .dict (x :: kvs), entries, _, made => by
    rw [history] at made
    obtain ⟨entry, first, made⟩ := bind_ok.mp made
    obtain ⟨older, rest, last⟩ := bind_ok.mp made
    obtain rfl := Except.ok.inj last
    rw [lineage]
    exact .cons first (historyBefore_entries (x :: kvs) rest)
  | .null, _, there, made | .bool _, _, there, made | .int _, _, there, made
  | .str _, _, there, made | .list _, _, there, made => by
    simp [history, there] at made
termination_by structural v => v

theorem historyBefore_entries : ∀ (kvs : List (Value × Value)) {entries : List Value},
    historyBefore K kvs = .ok entries →
    List.Forall₂ (fun entry b => historyEntry K b = .ok entry) entries (lineageBefore kvs)
  | [], _, made => nomatch made
  | (k, v) :: rest, entries, made => by
    rw [historyBefore] at made
    rw [lineageBefore]
    split at made
    next here =>
      rw [if_pos here]
      cases there : v.truthy with
      | true =>
        rw [if_pos rfl]
        exact history_entries v there made
      | false =>
        rw [history_falsy there] at made
        obtain rfl := Except.ok.inj made
        exact .nil
    next other =>
      rw [if_neg other]
      exact historyBefore_entries rest made
termination_by structural kvs => kvs
end

/-- The history records the bundles of the lineage, in order. -/
theorem history_ok {v : Value} {entries : List Value} (there : v.truthy = true)
    (made : history K v = .ok entries) : List.Forall₂ (Records K) entries (lineage v) :=
  (history_entries v there made).imp fun _ _ => historyEntry_ok

theorem history_of_previous {bundle previous : Value}
    (held : bundle.item "previous" = .ok previous) :
    history K bundle = (do
      let entry ← historyEntry K bundle
      let older ← history K previous
      pure (entry :: older)) := by
  cases bundle with
  | dict kvs =>
    cases kvs with
    | nil => cases held
    | cons x kvs =>
      have before : ∀ {l : List (Value × Value)}, find l (.str "previous") = some previous →
          historyBefore K l = history K previous := by
        intro l
        induction l with
        | nil =>
          intro found
          cases found
        | cons y l ih =>
          intro found
          obtain ⟨k, w⟩ := y
          rw [find] at found
          rw [historyBefore]
          split at found
          next here =>
            rw [if_pos here]
            obtain rfl := Option.some.inj found
            rfl
          next other =>
            rw [if_neg other]
            exact ih found
      rw [history, before (item_dict.mp held)]
  | _ => cases held

/-- The checks that an accepted bundle passed. -/
structure Accepted (K : Primitives) (N : Network) (levels : Nat) (bundle p previous : Value) :
    Prop where
  proposal : bundle.item "proposal" = .ok p
  nested : bundle.item "previous" = .ok previous
  checked : checkProposal p = .ok ()
  cards : checkCards K N p = .ok ()
  model : checkModel K p = .ok ()
  before : checkPrevious K (verifyLevels K N levels) p previous = .ok ()
  endorsed : checkEndorsements K bundle p previous = .ok ()
  hash : Returns (fingerprint K p)

/-- An accepted bundle has been checked level by level. -/
theorem verifyLevels_ok {levels : Nat} {bundle : Value} {h : String}
    (accepted : verifyLevels K N (levels + 1) bundle = .ok h) :
    ∃ p previous, Accepted K N levels bundle p previous := by
  obtain ⟨p, h₁, accepted⟩ := bind_ok.mp accepted
  obtain ⟨⟨⟩, h₂, accepted⟩ := bind_ok.mp accepted
  obtain ⟨⟨⟩, h₃, accepted⟩ := bind_ok.mp accepted
  obtain ⟨⟨⟩, h₄, accepted⟩ := bind_ok.mp accepted
  obtain ⟨previous, h₅, accepted⟩ := bind_ok.mp accepted
  obtain ⟨⟨⟩, h₆, accepted⟩ := bind_ok.mp accepted
  obtain ⟨⟨⟩, h₇, last⟩ := bind_ok.mp accepted
  exact ⟨p, previous, h₁, h₅, h₂, h₃, h₄, h₆, h₇, h, last⟩

/-- What acceptance establishes of one bundle of epoch `n`; `older` is the proposal before it. -/
structure Epoch (K : Primitives) (N : Network) (n : Int) (bundle : Value) (older : Option Value) :
    Prop where
  accepted : ∃ p created expires names cards endorsements, bundle.item "proposal" = .ok p ∧
    Proposal p n created expires names ∧ Cards K N p expires cards ∧
    (bundle.item "endorsements" >>= Value.iterate) = .ok endorsements ∧
    ∀ r ∈ names, Endorsed K p older endorsements r

theorem cards_named {p : Value} {cards : List (Value × Value)} {names : List String}
    (held : p.item "cards" = .ok (.dict cards))
    (named : (p.item "cards" >>= setOf) = .ok (texts names)) :
    cards.map Prod.fst = texts names := by
  rw [held, ok_bind] at named
  exact Except.ok.inj (setOf_ok named).1

theorem olderOf_eq (previous : Value) :
    olderOf previous = if previous.truthy then proposalOf previous else none := rfl

/-- One accepted level is an epoch over the one before it. -/
theorem epoch_of_accepted {levels : Nat} {bundle p previous : Value}
    (level : Accepted K N levels bundle p previous) :
    ∃ n, p.item "epoch" = .ok (.int n) ∧ Epoch K N n bundle (olderOf previous) := by
  obtain ⟨n, created, expires, names, checked⟩ := checkProposal_ok level.checked
  obtain ⟨cards, each⟩ := checkCards_ok checked.expires level.cards
  obtain ⟨es, given, all⟩ :=
    checkEndorsements_ok each.held (cards_named each.held checked.cards) level.endorsed
  exact ⟨n, checked.epoch, p, created, expires, names, cards, es, level.proposal, checked, each,
    given, all⟩

/-- An accepted bundle has a number. -/
theorem verified_epoch {levels : Nat} {bundle p : Value} {h : String}
    (accepted : verifyLevels K N levels bundle = .ok h) (held : bundle.item "proposal" = .ok p) :
    ∃ n, p.item "epoch" = .ok (.int n) := by
  cases levels with
  | zero => cases accepted
  | succ levels =>
    obtain ⟨p', previous, level⟩ := verifyLevels_ok accepted
    obtain rfl := Except.ok.inj (held.symm.trans level.proposal)
    obtain ⟨n, dated, -⟩ := epoch_of_accepted level
    exact ⟨n, dated⟩

/-- There is an accepted epoch before that this one succeeds, or this is the first one. -/
theorem before_of_accepted {levels : Nat} {bundle p previous : Value} {n : Int}
    (level : Accepted K N levels bundle p previous) (newer : p.item "epoch" = .ok (.int n)) :
    (previous.truthy = true ∧ ∃ q m h, verifyLevels K N levels previous = .ok h ∧
      previous.item "proposal" = .ok q ∧ q.item "epoch" = .ok (.int m) ∧ n = m + 1 ∧
      Succeeds K p q ∧ Returns (configuration K previous)) ∨
    (previous.truthy = false ∧ n = 1 ∧
      ∃ v, p.item "previous_hash" = .ok v ∧ v.truthy = false) := by
  have rest := level.before
  rw [checkPrevious] at rest
  split at rest
  next there =>
    obtain ⟨h, verified, last⟩ := bind_ok.mp rest
    obtain ⟨q, held, -⟩ := bind_ok.mp last
    obtain ⟨m, dated⟩ := verified_epoch verified held
    exact .inl ⟨there, q, m, h, verified, held, dated, checkSuccession_ok held dated newer last⟩
  next absent =>
    exact .inr ⟨by simpa using absent, checkFirst_ok newer rest⟩

/-- Two epochs of one deployment, with the same roles. -/
structure SameDeployment (bundle older : Value) : Prop where
  same : ∃ p q d d' names names', bundle.item "proposal" = .ok p ∧
    older.item "proposal" = .ok q ∧ p.item "deployment_id" = .ok d ∧
    q.item "deployment_id" = .ok d' ∧ d.eq d' = true ∧
    (p.item "cards" >>= setOf) = .ok (texts names) ∧
    (q.item "cards" >>= setOf) = .ok (texts names') ∧ ∀ r, r ∈ names ↔ r ∈ names'

theorem SameDeployment.trans {a b c : Value} (first : SameDeployment a b)
    (second : SameDeployment b c) : SameDeployment a c := by
  obtain ⟨p, q, d, d', names, names', h₁, h₂, h₃, h₄, same, h₅, h₆, alike⟩ := first
  obtain ⟨q', r, e, e', names₂, names₃, k₁, k₂, k₃, k₄, same', k₅, k₆, alike'⟩ := second
  obtain rfl := Except.ok.inj (h₂.symm.trans k₁)
  obtain rfl := Except.ok.inj (h₄.symm.trans k₃)
  have sets : names' = names₂ := by
    have equal := Except.ok.inj (h₆.symm.trans k₅)
    exact List.map_injective_iff.mpr (fun _ _ => Value.str.inj) equal
  subst sets
  exact ⟨p, r, d, e', names, names₃, h₁, k₂, h₃, k₄, eq_trans d same same', h₅, k₆,
    fun r => (alike r).trans (alike' r)⟩

/-- Equal sets of names have the same members. -/
theorem sameSet_texts {names names' : List String}
    (same : sameSet (texts names) (texts names') = true) (r : String) :
    r ∈ names ↔ r ∈ names' := by
  rw [sameSet, Bool.and_eq_true] at same
  have inside : ∀ {xs ys : List String}, subset (texts xs) (texts ys) = true → r ∈ xs → r ∈ ys := by
    intro xs ys all member
    obtain ⟨s, listed, equal⟩ :=
      memberOf_texts.mp (List.all_eq_true.mp all (.str r) (List.mem_map_of_mem member))
    obtain rfl := Value.str.inj equal
    exact listed
  exact ⟨inside same.1, inside same.2⟩

/-- The lineage of a bundle of epoch `n`. -/
structure Sound (K : Primitives) (N : Network) (n : Int) (bundle : Value) : Prop where
  count : ((lineage bundle).length : Int) = n
  epochs : ∀ (i : Nat) b, (lineage bundle)[i]? = some b →
    Epoch K N (n - (i : Int)) b ((lineage bundle)[i + 1]?.bind proposalOf)
  neighbours : ∀ (i : Nat) b b', (lineage bundle)[i]? = some b →
    (lineage bundle)[i + 1]? = some b' →
    ∃ p q, b.item "proposal" = .ok p ∧ b'.item "proposal" = .ok q ∧ Succeeds K p q
  deployment : (lineage bundle).Pairwise SameDeployment
  first : ∀ b, (lineage bundle).getLast? = some b →
    ∃ p v, b.item "proposal" = .ok p ∧ p.item "previous_hash" = .ok v ∧ v.truthy = false

/-- A first epoch is sound by itself. -/
theorem sound_first {bundle previous p v : Value}
    (older : bundle.item "previous" = .ok previous) (absent : previous.truthy = false)
    (held : bundle.item "proposal" = .ok p) (epoch : Epoch K N 1 bundle none)
    (unlinked : p.item "previous_hash" = .ok v) (falsy : v.truthy = false) :
    Sound K N 1 bundle := by
  have alone : lineage bundle = [bundle] := by
    rw [lineage_of_previous older, absent]
    rfl
  constructor
  · rw [alone]
    rfl
  · intro i b here
    rw [alone] at here ⊢
    cases i with
    | zero =>
      obtain rfl := Option.some.inj here
      exact epoch
    | succ i => cases here
  · intro i b b' here next
    rw [alone] at next
    cases next
  · rw [alone]
    exact List.pairwise_singleton _ _
  · intro b last
    rw [alone] at last
    obtain rfl := Option.some.inj last
    exact ⟨p, v, held, unlinked, falsy⟩

/-- A later epoch is sound over a sound one. -/
theorem sound_next {n : Int} {bundle previous p q : Value}
    (older : bundle.item "previous" = .ok previous) (there : previous.truthy = true)
    (held : bundle.item "proposal" = .ok p) (heldBefore : previous.item "proposal" = .ok q)
    (epoch : Epoch K N (n + 1) bundle (some q)) (linked : Succeeds K p q)
    (same : SameDeployment bundle previous) (sound : Sound K N n previous) :
    Sound K N (n + 1) bundle := by
  have grown : lineage bundle = bundle :: lineage previous := by
    rw [lineage_of_previous older, if_pos there]
  obtain ⟨rest, head⟩ := lineage_head previous
  constructor
  · rw [grown, List.length_cons, ← sound.count]
    push_cast
    rfl
  · intro i b here
    rw [grown] at here ⊢
    cases i with
    | zero =>
      obtain rfl := Option.some.inj here
      have before : (lineage previous)[0]?.bind proposalOf = some q := by
        rw [head]
        simp [proposalOf, heldBefore]
      rw [List.getElem?_cons_succ, before]
      simpa using epoch
    | succ i =>
      have shifted : n + 1 - ((i + 1 : Nat) : Int) = n - i := by
        push_cast
        omega
      rw [shifted]
      exact sound.epochs i b here
  · intro i b b' here next
    rw [grown] at here next
    cases i with
    | zero =>
      obtain rfl := Option.some.inj here
      rw [List.getElem?_cons_succ, head] at next
      obtain rfl := Option.some.inj next
      exact ⟨p, q, held, heldBefore, linked⟩
    | succ i => exact sound.neighbours i b b' here next
  · rw [grown, List.pairwise_cons]
    refine ⟨?_, sound.deployment⟩
    have later := sound.deployment
    rw [head] at later ⊢
    intro b member
    rcases List.mem_cons.mp member with rfl | member
    · exact same
    · exact same.trans ((List.pairwise_cons.mp later).1 b member)
  · intro b last
    rw [grown, head, List.getLast?_cons_cons, ← head] at last
    exact sound.first b last

/-- Every accepted bundle has a sound lineage, by induction over the levels. -/
theorem sound_of_levels : ∀ (levels : Nat) {bundle p : Value} {n : Int} {h : String},
    bundle.item "proposal" = .ok p → p.item "epoch" = .ok (.int n) →
    verifyLevels K N levels bundle = .ok h → Sound K N n bundle
  | 0, _, _, _, _, _, _, accepted => nomatch accepted
  | levels + 1, bundle, p, n, h, held, newer, accepted => by
    obtain ⟨p', previous, level⟩ := verifyLevels_ok accepted
    obtain rfl := Except.ok.inj (held.symm.trans level.proposal)
    obtain ⟨n', newer', epoch⟩ := epoch_of_accepted level
    obtain rfl := Value.int.inj (Except.ok.inj (newer.symm.trans newer'))
    rcases before_of_accepted level newer with
      ⟨there, q, m, h', verified, heldBefore, dated, rfl, linked, -⟩ |
      ⟨absent, rfl, v, unlinked, falsy⟩
    · have sound := sound_of_levels levels heldBefore dated verified
      rw [olderOf_eq, if_pos there, proposalOf, heldBefore] at epoch
      refine sound_next level.nested there held heldBefore epoch linked ?_ sound
      obtain ⟨rest, head⟩ := lineage_head previous
      have epochBefore := sound.epochs 0 previous (by rw [head]; rfl)
      obtain ⟨p', _, _, names, _, _, h₁, proposal, -⟩ := epoch.accepted
      obtain ⟨q', _, _, names', _, _, h₂, proposal', -⟩ := epochBefore.accepted
      obtain rfl := Except.ok.inj (h₁.symm.trans held)
      obtain rfl := Except.ok.inj (h₂.symm.trans heldBefore)
      obtain ⟨d, d', h₃, h₄, equal⟩ := linked.deployment
      obtain ⟨xs, ys, h₅, h₆, named⟩ := linked.roles
      obtain rfl := Except.ok.inj (h₅.symm.trans proposal.cards)
      obtain rfl := Except.ok.inj (h₆.symm.trans proposal'.cards)
      exact ⟨p', q', d, d', names, names', h₁, h₂, h₃, h₄, equal, h₅, h₆, sameSet_texts named⟩
    · rw [olderOf_eq, absent] at epoch
      exact sound_first level.nested absent held epoch unlinked falsy

/-- The newest proposal and its cards have the fields that `configuration` reads although
`verify_deployment` may accept a bundle without them. -/
structure Readable (bundle : Value) : Prop where
  fields : ∃ p cards, bundle.item "proposal" = .ok p ∧ p.item "cards" = .ok (.dict cards) ∧
    (∀ k ∈ ["deployment_id", "previous_checkpoint", "model_name"], Returns (p.item k)) ∧
    ∀ x ∈ cards, Returns (x.2.item "body" >>= fun body => body.item "kid")

/-- The lineage is sound and the configuration lists it, newest first. -/
structure LineageSound (K : Primitives) (N : Network) (n : Int) (bundle : Value) : Prop
    extends Sound K N n bundle where
  listed : ∃ cfg entries, configuration K bundle = .ok cfg ∧
    cfg.item "deployment_history" = .ok (.list entries) ∧
    List.Forall₂ (Records K) entries (lineage bundle)

theorem readable_of_configuration {bundle previous p cfg : Value}
    {cards : List (Value × Value)} (older : bundle.item "previous" = .ok previous)
    (held : bundle.item "proposal" = .ok p) (named : p.item "cards" = .ok (.dict cards))
    (made : configuration K bundle = .ok cfg) : Readable bundle := by
  obtain ⟨p', h₁, made⟩ := bind_ok.mp made
  obtain rfl := Except.ok.inj (h₁.symm.trans held)
  obtain ⟨epochs, recorded, made⟩ := bind_ok.mp made
  obtain ⟨created, -, made⟩ := bind_ok.mp made
  obtain ⟨expires, -, made⟩ := bind_ok.mp made
  obtain ⟨logId, log, made⟩ := bind_ok.mp made
  obtain ⟨epoch, -, made⟩ := bind_ok.mp made
  obtain ⟨hash, -, made⟩ := bind_ok.mp made
  obtain ⟨cardsValue, h₂, made⟩ := bind_ok.mp made
  obtain rfl := Except.ok.inj (h₂.symm.trans named)
  obtain ⟨kvs, listed, made⟩ := bind_ok.mp made
  obtain rfl := Except.ok.inj listed
  obtain ⟨identities, mapped, made⟩ := bind_ok.mp made
  obtain ⟨endpoints, -, made⟩ := bind_ok.mp made
  obtain ⟨modelId, -, made⟩ := bind_ok.mp made
  obtain ⟨modelHash, -, made⟩ := bind_ok.mp made
  obtain ⟨deployment, idGiven, -⟩ := bind_ok.mp log
  rw [history_of_previous older] at recorded
  obtain ⟨entry, first, -⟩ := bind_ok.mp recorded
  obtain ⟨q, h, h₃, -, -, each⟩ := (historyEntry_ok first).about
  obtain rfl := Except.ok.inj (h₃.symm.trans held)
  obtain ⟨checkpoint, checkpointGiven, -⟩ := each "previous_checkpoint" (by simp)
  split at made
  next => cases made
  next =>
    obtain ⟨kind, -, made⟩ := bind_ok.mp made
    obtain ⟨name, nameGiven, -⟩ := bind_ok.mp made
    refine ⟨q, cards, held, named, ?_, ?_⟩
    · intro k wanted
      simp only [List.mem_cons, List.not_mem_nil, or_false] at wanted
      rcases wanted with rfl | rfl | rfl
      · exact ⟨deployment, idGiven⟩
      · exact ⟨checkpoint, checkpointGiven⟩
      · exact ⟨name, nameGiven⟩
    · intro x member
      obtain ⟨y, -, read⟩ := mapM_ok_mem mapped member
      obtain ⟨t, identity, -⟩ := bind_ok.mp read
      obtain ⟨body, iss, kid, publicKey, hb, -, hk, -⟩ := identityOf_ok identity
      exact ⟨kid, bind_ok.mpr ⟨body, hb, hk⟩⟩

/-- The agreement on the model is there. -/
structure Model (p : Value) : Prop where
  id : ∃ s, p.item "model_id" = .ok (.str s)
  hash : Returns (p.item "model_hash")
  kind : Returns (p.item "model_kind")

theorem checkModel_ok {p : Value} {u : Unit} (passed : checkModel K p = .ok u) : Model p := by
  obtain ⟨id, h₁, passed⟩ := bind_ok.mp passed
  obtain ⟨_, whole, passed⟩ := bind_ok.mp passed
  obtain ⟨hash, h₂, passed⟩ := bind_ok.mp passed
  obtain ⟨bytes, -, passed⟩ := bind_ok.mp passed
  obtain ⟨_, -, passed⟩ := bind_ok.mp passed
  obtain ⟨kind, h₃, -⟩ := bind_ok.mp passed
  cases id with
  | str s => exact ⟨⟨s, h₁⟩, ⟨hash, h₂⟩, ⟨kind, h₃⟩⟩
  | _ => cases whole

/-- Every accepted bundle has the field for the hash of its previous one. -/
theorem previousHash_given {levels : Nat} {bundle p previous : Value} {n : Int}
    (level : Accepted K N levels bundle p previous) (dated : p.item "epoch" = .ok (.int n)) :
    Returns (p.item "previous_hash") := by
  rcases before_of_accepted level dated with
    ⟨-, q, m, h, -, -, -, -, linked, -⟩ | ⟨-, -, v, given, -⟩
  · obtain ⟨h, -, given⟩ := linked.hash
    exact ⟨.str h, given⟩
  · exact ⟨v, given⟩

/-- The bundles before an accepted one have been read as a configuration already. -/
theorem history_before {levels : Nat} {bundle p previous : Value} {n : Int}
    (level : Accepted K N levels bundle p previous) (dated : p.item "epoch" = .ok (.int n)) :
    Returns (history K previous) := by
  rcases before_of_accepted level dated with
    ⟨-, q, m, h, -, -, -, -, -, cfg, made⟩ | ⟨absent, -⟩
  · obtain ⟨_, -, made⟩ := bind_ok.mp made
    obtain ⟨epochs, recorded, -⟩ := bind_ok.mp made
    exact ⟨epochs, recorded⟩
  · rw [history_falsy absent]
    exact returns_ok _

/-- A readable bundle that was accepted has a configuration. -/
theorem configuration_of_readable {levels : Nat} {bundle p previous : Value}
    (level : Accepted K N levels bundle p previous) (readable : Readable bundle) :
    Returns (configuration K bundle) := by
  obtain ⟨p', cards, held, named, given, kids⟩ := readable.fields
  obtain rfl := Except.ok.inj (held.symm.trans level.proposal)
  obtain ⟨n, dated, -⟩ := epoch_of_accepted level
  obtain ⟨_, created, expires, names, checked⟩ := checkProposal_ok level.checked
  obtain ⟨cards', each⟩ := checkCards_ok checked.expires level.cards
  obtain rfl := Value.dict.inj (Except.ok.inj (named.symm.trans each.held))
  have model := checkModel_ok level.model
  obtain ⟨modelId, h₁⟩ := model.id
  obtain ⟨modelHash, h₂⟩ := model.hash
  obtain ⟨kind, h₃⟩ := model.kind
  obtain ⟨deployment, h₄⟩ := given "deployment_id" (by simp)
  obtain ⟨checkpoint, h₅⟩ := given "previous_checkpoint" (by simp)
  obtain ⟨name, h₆⟩ := given "model_name" (by simp)
  obtain ⟨preExec, h₇⟩ := checked.limits "pre_exec" (by simp)
  obtain ⟨timeout, h₈⟩ := checked.limits "strict_timeout_ms" (by simp)
  obtain ⟨entries, h₉⟩ := checked.limits "max_log_entries" (by simp)
  obtain ⟨days, h₁₀⟩ := checked.limits "retention_days" (by simp)
  obtain ⟨hash, h₁₁⟩ := level.hash
  obtain ⟨previousHash, h₁₂⟩ := previousHash_given level dated
  obtain ⟨older, h₁₃⟩ := history_before level dated
  obtain ⟨identities, h₁₄⟩ :
      Returns (cards.mapM fun x => do pure (x.1, ← identityOf x.2)) := by
    rw [mapM_returns]
    intro x member
    obtain ⟨r, body, card⟩ := each.each x member
    obtain ⟨kid, k₁⟩ := kids x member
    obtain ⟨r', -, -, k₂, -⟩ := card.accepted.role
    obtain ⟨_, _, _, k₃, -⟩ := card.accepted.signed
    obtain ⟨publicKey, k₄, -⟩ := bind_ok.mp k₃
    rw [card.accepted.held, ok_bind] at k₁
    simp [identityOf, card.accepted.held, k₁, k₂, k₄]
  obtain ⟨endpoints, h₁₅⟩ :
      Returns ((cards.filter fun x => !isU x.1).mapM fun x => do pure (x.1, ← endpointOf x.2)) := by
    rw [mapM_returns]
    intro x member
    obtain ⟨listed, notU⟩ := List.mem_filter.mp member
    obtain ⟨r, body, card⟩ := each.each x listed
    obtain ⟨endpoint, k⟩ := card.endpoint (by
      rintro rfl
      simp [isU, card.role] at notU)
    simp [endpointOf, card.accepted.held, k]
  have entry : historyEntry K bundle = .ok (.dict (fields [("epoch", .int n),
      ("deployment_hash", .str hash), ("previous_hash", previousHash),
      ("previous_checkpoint", checkpoint)])) := by
    simp [historyEntry, level.proposal, dated, h₁₁, h₁₂, h₅]
  have recorded := history_of_previous (K := K) level.nested
  rw [entry, h₁₃] at recorded
  simp only [pure_ok] at h₁₄ h₁₅
  simp [configuration, level.proposal, recorded, checked.created, checked.expires, logIdOf, h₄,
    dated, h₁₁, named, items, h₁₄, h₁₅, h₁, h₂, h₃, h₆, h₇, h₈, h₉, h₁₀, Value.hashable]

/-- Whatever its nesting, an accepted bundle has a sound lineage. Its configuration lists that
lineage exactly when the newest proposal and its cards are readable. -/
theorem accepted_lineage_sound_iff {bundle : Value} {h : String}
    (accepted : verifyDeployment K N bundle = .ok h) :
    ∃ p n, bundle.item "proposal" = .ok p ∧ p.item "epoch" = .ok (.int n) ∧
      Sound K N n bundle ∧ (LineageSound K N n bundle ↔ Readable bundle) := by
  obtain ⟨p, previous, level⟩ := verifyLevels_ok accepted
  obtain ⟨n, dated, epoch⟩ := epoch_of_accepted level
  have sound := sound_of_levels 33 level.proposal dated accepted
  refine ⟨p, n, level.proposal, dated, sound, ?_, ?_⟩
  · intro all
    obtain ⟨cfg, entries, made, -, -⟩ := all.listed
    obtain ⟨_, created, expires, names, checked⟩ := checkProposal_ok level.checked
    obtain ⟨cards, each⟩ := checkCards_ok checked.expires level.cards
    exact readable_of_configuration level.nested level.proposal each.held made
  · intro readable
    obtain ⟨cfg, made⟩ := configuration_of_readable level readable
    obtain ⟨p', configured⟩ := configuration_ok made
    obtain ⟨entries, recorded, listed⟩ := configured.history
    have there : bundle.truthy = true := by
      cases bundle with
      | dict kvs =>
        cases kvs with
        | nil => cases level.nested
        | cons x kvs => rfl
      | _ => cases level.nested
    exact ⟨sound, cfg, entries, made, listed, history_ok there recorded⟩

/-- Every endpoint is on one host, and a certificate is its own text: that of an authority starts
with `c`. -/
def sampleNetwork : Network where
  urlsplit := fun _ => .ok ⟨"https", some "h", none, none, "", "", "", .ok (some 1)⟩
  ipAddress := fun _ => none
  lower := id
  Certificate := String
  loadPem := fun s => .ok s
  issuedBy := fun _ _ => .ok ()
  isAuthority := fun c => .ok (c.toList.head? == some 'c')
  alternativeNames := fun _ => .ok ([], ["h"])
  serverAuth := fun _ => .ok true
  notBefore := fun _ => 0
  notAfter := fun _ => 5000

def serviceOf (role : String) : List (String × Value) :=
  if role = "U" then [("endpoint", .null), ("tls_ca", .null), ("tls_certificate", .null)]
  else [("endpoint", .str "https://h:1"), ("tls_ca", .str ("c" ++ role)),
    ("tls_certificate", .str ("l" ++ role))]

/-- A signature names the first byte of its key. -/
def signText (key : String) : String := String.ofList (key.toList.take 2)

/-- The card of a role with these further fields. -/
def sampleCard (more : String → List (String × Value)) (role key : String) : Value :=
  .dict (fields [("body", .dict (fields ([("profile", .str "itx-operator-card/1"),
    ("role", .str role), ("iss", .str (partyOf role)), ("public_key", .str key),
    ("created_at", .int 0), ("expires_at", .int 1000)] ++ serviceOf role ++ more role))),
    ("signature", .str (signText key))])

def sampleRoles (keys : List String) : List (String × String) := ["U", "R", "M", "T"].zip keys

def sampleProposal (epoch : Int) (previousHash checkpoint : Value)
    (more : String → List (String × Value)) (keys : List String) : Value :=
  .dict (fields [("profile", .str "itx-deployment/1"), ("deployment_id", .str "d"),
    ("epoch", .int epoch), ("previous_hash", previousHash), ("previous_checkpoint", checkpoint),
    ("created_at", .int 0), ("expires_at", .int 900),
    ("cards", .dict (fields ((sampleRoles keys).map fun x => (x.1, sampleCard more x.1 x.2)))),
    ("model_id", .str "m"), ("model_hash", .str (zeros 64)),
    ("model_kind", .str "deterministic_mock"), ("model_name", .null), ("pre_exec", .bool false),
    ("strict_timeout_ms", .int 2500), ("max_log_entries", .int 100), ("retention_days", .int 30)])

def hashOf (p : Value) : String :=
  match fingerprint toy p with
  | .ok h => h
  | .error _ => ""

/-- The bundle of a proposal that every role endorses with its key and the key it had before. -/
def sampleBundle (p previous : Value) (keys before : List String) : Value :=
  .dict (fields [("proposal", p), ("previous", previous),
    ("endorsements", .list (((sampleRoles keys).zip before).map fun x =>
      .dict (fields [("body", endorsementBody (.str x.1.1) (hashOf p)),
        ("signature", .str (signText x.1.2)), ("previous_signature", .str (signText x.2))])))])

def kidOf (role : String) : List (String × Value) := [("kid", .str role)]

def firstKeys : List String := ["0a", "0b", "0c", "0d"]

def secondKeys : List String := ["1a", "1b", "1c", "1d"]

def firstProposal (more : String → List (String × Value)) : Value :=
  sampleProposal 1 .null .null more firstKeys

def firstBundle (more : String → List (String × Value)) : Value :=
  sampleBundle (firstProposal more) .null firstKeys firstKeys

/-- A checkpoint of the first epoch, signed with the key of its T. -/
def firstCheckpoint : Value :=
  .dict (fields [("log_id", .str "epoch-d-1"), ("tree_size", .int 1),
    ("root_hash", .str "00"), ("time", .int 5), ("ts_kid", .str "T"),
    ("signature", .str "0d")])

/-- The second epoch, in which every role has a new key. -/
def secondBundle : Value :=
  sampleBundle (sampleProposal 2 (.str (hashOf (firstProposal kidOf))) firstCheckpoint kidOf
    secondKeys) (firstBundle kidOf) secondKeys firstKeys

/-- Without a key identifier in its cards a bundle is accepted and has no configuration. -/
theorem accepted_without_configuration : ∃ h,
    verifyDeployment toy sampleNetwork (firstBundle fun _ => []) = .ok h ∧
    ∀ n, ¬ LineageSound toy sampleNetwork n (firstBundle fun _ => []) := by
  have accepted : Returns (verifyDeployment toy sampleNetwork (firstBundle fun _ => [])) := by
    decide +kernel
  have unreadable : ¬ Returns (configuration toy (firstBundle fun _ => [])) := by
    decide +kernel
  obtain ⟨h, accepted⟩ := accepted
  refine ⟨h, accepted, ?_⟩
  intro n sound
  obtain ⟨cfg, entries, made, -, -⟩ := sound.listed
  exact unreadable ⟨cfg, made⟩

theorem accepted_lineage_sound_iff_sample : ∃ p n, secondBundle.item "proposal" = .ok p ∧
    p.item "epoch" = .ok (.int n) ∧ Sound toy sampleNetwork n secondBundle ∧
    (LineageSound toy sampleNetwork n secondBundle ↔ Readable secondBundle) := by
  have accepted : Returns (verifyDeployment toy sampleNetwork secondBundle) := by
    decide +kernel
  obtain ⟨h, accepted⟩ := accepted
  exact accepted_lineage_sound_iff accepted

end LineageSoundness
