import Custody.Identity
import Custody.Omissions

/-!
# Items handed in by other holders

An auditor adds what the relay and the model operator say they hold. Such an item
may carry any JSON for a receipt. It is counted and changes nothing else, unless
comparing its fields or reading its signature raises an exception.
-/

namespace UntrustedHolders

open PyValue HexBytes CanonicalJson Commitments Statements Engine Merkle TransparencyLog
  HeldReceipts MerkleProofs HeldMeaning AppendOnly GenuineReceipts Identity LogInvariant
  Omissions BlockedJudgment

variable {K : Primitives} {ctx : HeldContext} {tsa : Value → Except String Value}

def roleName : Role → String
  | .U => "U"
  | .R => "R"
  | .M => "M"
  | .T => "T"

/-- What `Agent.collect_receipts` keeps of a record from a role: `dict(record, holder=role)`. -/
def collected (role : Role) : Value → Option Value
  | .dict d =>
    if (getOr d "iss").eq (.str (issOf role)) then
      some (.dict (PyValue.insert d (.str "holder") (.str (roleName role))))
    else none
  | _ => none

/-- A record that came as JSON from a role and was kept. -/
def HandedIn (item : Value) : Prop :=
  ∃ role record, Returns (canonicalJson record) ∧ collected role record = some item

/-- The item has no readable receipt, or one that does not verify. -/
def Unproven (K : Primitives) (ctx : HeldContext) (item : Value) : Prop :=
  ∀ rc, readReceipt item = .ok (some rc) → receiptVerifies K ctx rc ≠ .ok true

/-- A list of receipts that the log signed. -/
def AllGenuine (K : Primitives) (ctx : HeldContext) (held : List Value) : Prop :=
  ∀ item ∈ held, ∃ d rc, Holds item d rc ∧ Genuine K ctx rc

/-- Every item is counted in exactly one way. -/
def CountedOnce (report : HeldReport) : Prop :=
  report.held = report.included + report.missing.length + report.unverifiable.length +
    report.afterSnapshot.length

/-- The second report is the first with one more item that says nothing about the log. -/
structure OneMore (report report' : HeldReport) : Prop where
  ok : report'.ok = report.ok
  included : report'.included = report.included
  missing : report'.missing = report.missing
  checkpoints : report'.receiptCheckpoints = report.receiptCheckpoints
  counted :
    (report'.unverifiable.length = report.unverifiable.length + 1 ∧
      report'.afterSnapshot = report.afterSnapshot) ∨
    (report'.unverifiable = report.unverifiable ∧
      report'.afterSnapshot.length = report.afterSnapshot.length + 1)

/-- Wherever the item is inserted into genuine receipts, it is counted and changes nothing else. -/
def Undisturbed (K : Primitives) (ctx : HeldContext) (tsa : Value → Except String Value)
    (item : Value) : Prop :=
  ∀ before after, AllGenuine K ctx (before ++ after) → ∃ report report',
    verifyHeldReceipts K ctx tsa (before ++ after) = .ok report ∧
    verifyHeldReceipts K ctx tsa (before ++ item :: after) = .ok report' ∧
    OneMore report report' ∧ CountedOnce report ∧ CountedOnce report'

/-- The times can be compared, and the sizes where the receipt is later than the head. -/
def Comparable (ctx : HeldContext) (rc : RegistrationReceipt) : Prop :=
  ∀ head, ctx.headTime = .int head → ∃ t, number rc.registeredAt = some t ∧
    (head < t → ∃ n, number rc.treeSize = some n)

/-- Registered after the head, in a larger tree. -/
def Later (ctx : HeldContext) (rc : RegistrationReceipt) : Prop :=
  ∃ head t n, ctx.headTime = .int head ∧ number rc.registeredAt = some t ∧
    number rc.treeSize = some n ∧ head < t ∧ (ctx.tree.size : Int) < n

/-- There is a signature to check, or none is needed. -/
def SignatureReads (ctx : HeldContext) (rc : RegistrationReceipt) : Prop :=
  rc.logId.eq ctx.logId = false ∨ rc.signature.truthy = false ∨
    ∃ s b, rc.signature = .str s ∧ fromHex s = some b

/-- The receipt is missing or incomplete, or its fields are of the types that are read. -/
def WellTyped (ctx : HeldContext) (item : Value) : Prop :=
  ∀ rc, readReceipt item = .ok (some rc) →
    Comparable ctx rc ∧ (Later ctx rc ∨ SignatureReads ctx rc)

theorem greater_number {a : Value} {n : Int} (m : Int) (numbered : number a = some n) :
    greater a (.int m) = .ok (decide (m < n)) := by
  rw [greater, less_number rfl numbered]
  rfl

/-- The question of the snapshot is answered exactly for comparable receipts. -/
theorem isAfterSnapshot_returns {rc : RegistrationReceipt} (head : HeadTime ctx) :
    (Comparable ctx rc ∧ ((isAfterSnapshot ctx rc = .ok true ∧ Later ctx rc) ∨
      (isAfterSnapshot ctx rc = .ok false ∧ ¬ Later ctx rc))) ∨
    (¬ Comparable ctx rc ∧ ¬ Returns (isAfterSnapshot ctx rc)) := by
  rcases head with none_ | ⟨h, given⟩
  · left
    refine ⟨?_, .inr ⟨?_, ?_⟩⟩
    · intro head same
      rw [none_] at same
      cases same
    · rw [isAfterSnapshot, none_]
      rfl
    · rintro ⟨head, t, n, same, -⟩
      rw [none_] at same
      cases same
  · have asked : isAfterSnapshot ctx rc = (do
        let later ← greater rc.registeredAt (.int h)
        if !later then pure false
        else greater rc.treeSize (.int ctx.tree.size)) := by
      rw [isAfterSnapshot, given]
      rfl
    rw [asked]
    cases timed : number rc.registeredAt with
    | none =>
      right
      constructor
      · intro comparable
        obtain ⟨t, same, -⟩ := comparable h given
        rw [timed] at same
        cases same
      · rw [greater, less_int_none timed]
        rintro ⟨b, bad⟩
        cases bad
    | some t =>
      rw [greater_number h timed, ok_bind]
      by_cases later : h < t
      · simp only [later, decide_true, Bool.not_true, Bool.false_eq_true, if_false]
        cases sized : number rc.treeSize with
        | none =>
          right
          constructor
          · intro comparable
            obtain ⟨t', same, sizes⟩ := comparable h given
            obtain rfl := Option.some.inj (timed.symm.trans same)
            obtain ⟨n, bad⟩ := sizes later
            rw [sized] at bad
            cases bad
          · rw [greater, less_int_none sized]
            rintro ⟨b, bad⟩
            cases bad
        | some n =>
          left
          refine ⟨?_, ?_⟩
          · intro head same
            obtain rfl := Value.int.inj (given.symm.trans same)
            exact ⟨t, timed, fun _ => ⟨n, sized⟩⟩
          · rw [greater_number _ sized]
            by_cases larger : (ctx.tree.size : Int) < n
            · left
              exact ⟨by simp [larger], h, t, n, given, timed, sized, later, larger⟩
            · right
              refine ⟨by simp [larger], ?_⟩
              rintro ⟨head, t', n', -, -, same, -, bad⟩
              obtain rfl := Option.some.inj (sized.symm.trans same)
              exact larger bad
      · left
        refine ⟨?_, .inr ⟨by simp [later], ?_⟩⟩
        · intro head same
          obtain rfl := Value.int.inj (given.symm.trans same)
          exact ⟨t, timed, fun bad => absurd bad later⟩
        · rintro ⟨head, t', n, same, same', -, bad, -⟩
          obtain rfl := Value.int.inj (given.symm.trans same)
          obtain rfl := Option.some.inj (timed.symm.trans same')
          exact later bad

/-- The value can be written as canonical JSON, wherever it stands. -/
def Clean (v : Value) : Prop := ∀ q, check q v = .ok ()

theorem clean_of_json {v : Value} (written : Returns (canonicalJson v)) : Clean v := by
  obtain ⟨b, made⟩ := written
  obtain ⟨u, checked, -⟩ := bind_ok.mp made
  exact fun q => check_anywhere "$" q v checked

theorem item_clean {v w : Value} {k : String} (clean : Clean v) (found : v.item k = .ok w) :
    Clean w := by
  cases v with
  | dict kvs =>
    have checked := clean "$"
    rw [check] at checked
    simp only [Value.item] at found
    cases here : find kvs (.str k) with
    | none => simp [here] at found
    | some w' =>
      simp only [here] at found
      obtain rfl := Except.ok.inj found
      exact checkDict_find checked here
  | _ => cases found

/-- The signed bytes of a receipt that came as JSON can be written. -/
theorem signedBytes_returns {v : Value} {rc : RegistrationReceipt} (clean : Clean v)
    (made : RegistrationReceipt.fromDict v = .ok rc) : Returns rc.signedBytes := by
  obtain ⟨logId, hLog, made⟩ := bind_ok.mp made
  obtain ⟨leafIndex, hIndex, made⟩ := bind_ok.mp made
  obtain ⟨treeSize, hSize, made⟩ := bind_ok.mp made
  obtain ⟨rootHash, hRoot, made⟩ := bind_ok.mp made
  obtain ⟨leafHash, hLeaf, made⟩ := bind_ok.mp made
  obtain ⟨registeredAt, hTime, made⟩ := bind_ok.mp made
  obtain ⟨tsKid, hKid, made⟩ := bind_ok.mp made
  obtain ⟨inclusionProof, -, made⟩ := bind_ok.mp made
  obtain ⟨signature, -, made⟩ := bind_ok.mp made
  obtain rfl := Except.ok.inj made
  have admitted : check "$" (.dict (fields [("log_id", logId), ("leaf_index", leafIndex),
      ("tree_size", treeSize), ("root_hash", rootHash), ("leaf_hash", leafHash),
      ("registered_at", registeredAt), ("ts_kid", tsKid)])) = .ok () := by
    rw [check]
    apply checkDict_fields
    · simp only [List.forall_mem_cons]
      exact ⟨by decide, by decide, by decide, by decide, by decide, by decide, by decide,
        fun x none_ => by cases none_⟩
    · simp only [List.forall_mem_cons]
      exact ⟨item_clean clean hLog, item_clean clean hIndex, item_clean clean hSize,
        item_clean clean hRoot, item_clean clean hLeaf, item_clean clean hTime,
        item_clean clean hKid, fun x none_ => by cases none_⟩
  exact ⟨_, bind_ok.mpr ⟨(), admitted, rfl⟩⟩

theorem receiptVerifies_returns {rc : RegistrationReceipt} (signed : Returns rc.signedBytes) :
    Returns (receiptVerifies K ctx rc) ↔ SignatureReads ctx rc := by
  obtain ⟨message, written⟩ := signed
  rw [receiptVerifies, written]
  unfold SignatureReads
  cases same : rc.logId.eq ctx.logId with
  | false => simp
  | true =>
    simp only [Bool.not_true, Bool.false_eq_true, if_false, ok_bind, Bool.true_eq_false, false_or]
    cases there : rc.signature.truthy with
    | false =>
      have zero : fromHexValue (.str "00") = .ok [0] := by decide
      simp [zero]
    | true =>
      simp only [if_true, Bool.true_eq_false, false_or]
      rw [returns_bind]
      constructor
      · rintro ⟨b, read, -⟩
        cases given : rc.signature with
        | str s =>
          rw [given, fromHexValue] at read
          cases digits : fromHex s with
          | none => simp [digits] at read
          | some b' => exact ⟨s, b', rfl, digits⟩
        | _ =>
          rw [given] at read
          cases read
      · rintro ⟨s, b, given, digits⟩
        refine ⟨b, ?_, _, rfl⟩
        rw [given, fromHexValue, digits]

theorem readReceipt_inner {item : Value} {rc : RegistrationReceipt}
    (read : readReceipt item = .ok (some rc)) :
    ∃ v, item.item "receipt" = .ok v ∧ RegistrationReceipt.fromDict v = .ok rc := by
  rw [readReceipt] at read
  cases inner : (item.item "receipt" >>= fun v => RegistrationReceipt.fromDict v) with
  | ok rc' =>
    rw [inner] at read
    obtain rfl := Option.some.inj (Except.ok.inj read)
    exact bind_ok.mp inner
  | error e =>
    rw [inner] at read
    cases e <;> cases read

/-- An exception that reading the receipt turns into a malformed receipt. -/
def Caught {A : Type} (x : Py A) : Prop := ∀ e, x = .error e → e = .keyError ∨ e = .typeError

theorem caught_bind {A B : Type} {x : Py A} {f : A → Py B} (first : Caught x)
    (rest : ∀ a, Caught (f a)) : Caught (x >>= f) := by
  cases x with
  | error e =>
    intro e' failed
    exact first e' (by rw [Except.error.inj failed])
  | ok a => exact rest a

theorem caught_pure {A : Type} (a : A) : Caught (pure a : Py A) := by
  intro e failed
  cases failed

theorem item_caught (v : Value) (k : String) : Caught (v.item k) := by
  intro e failed
  cases v with
  | dict kvs =>
    simp only [Value.item] at failed
    split at failed
    next => cases failed
    next => exact .inl (Except.error.inj failed).symm
  | _ => exact .inr (Except.error.inj failed).symm

theorem readReceipt_returns (item : Value) : Returns (readReceipt item) := by
  have caught : Caught (item.item "receipt" >>= fun v => RegistrationReceipt.fromDict v) := by
    apply caught_bind (item_caught item "receipt")
    intro v
    unfold RegistrationReceipt.fromDict
    repeat' first
      | exact caught_pure _
      | refine caught_bind (item_caught _ _) fun _ => ?_
  rw [readReceipt]
  cases inner : (item.item "receipt" >>= fun v => RegistrationReceipt.fromDict v) with
  | ok rc => exact ⟨some rc, rfl⟩
  | error e =>
    rcases caught e inner with rfl | rfl
    · exact ⟨none, rfl⟩
    · exact ⟨none, rfl⟩

theorem handed_record {item : Value} (handed : HandedIn item) :
    ∃ d, item = .dict d ∧ (getOr d "holder").hashable = true ∧
      ∀ v, item.item "receipt" = .ok v → Clean v := by
  obtain ⟨role, record, written, kept⟩ := handed
  cases record with
  | dict d =>
    simp only [collected] at kept
    split at kept
    next =>
      obtain rfl := Option.some.inj kept
      refine ⟨_, rfl, ?_, ?_⟩
      · rw [getOr, find_insert_self d rfl]
        rfl
      · intro v found
        have same : (Value.dict (PyValue.insert d (.str "holder") (.str (roleName role)))).item
            "receipt" = (Value.dict d).item "receipt" := by
          rw [Value.item, Value.item, find_insert_str_ne d (by decide)]
        rw [same] at found
        exact item_clean (clean_of_json written) found
    next => cases kept
  | _ => cases kept

/-- An item that proves nothing is unverifiable or after the snapshot, or raises an exception. -/
theorem standing_unproven {item : Value} (handed : HandedIn item) (unproven : Unproven K ctx item)
    (head : HeadTime ctx) :
    (WellTyped ctx item ∧ ∃ x, standing K ctx item = .ok x ∧
      ((∃ record, x.2 = .unverifiable record) ∨ ∃ record, x.2 = .afterSnapshot record)) ∨
    (¬ WellTyped ctx item ∧ ¬ Returns (standing K ctx item)) := by
  obtain ⟨d, record, hashable, clean⟩ := handed_record handed
  have judged := @standing_dict K ctx d hashable
  rw [← record] at judged
  obtain ⟨read, given⟩ := readReceipt_returns item
  rw [given, ok_bind] at judged
  cases read with
  | none =>
    left
    refine ⟨?_, _, judged, .inl ⟨_, rfl⟩⟩
    intro rc bad
    rw [given] at bad
    cases bad
  | some rc =>
    obtain ⟨v, found, made⟩ := readReceipt_inner given
    have signed := signedBytes_returns (clean v found) made
    have only : WellTyped ctx item ↔ Comparable ctx rc ∧
      (Later ctx rc ∨ SignatureReads ctx rc) := by
      constructor
      · exact fun typed => typed rc given
      · intro typed rc' given'
        obtain rfl := Option.some.inj (Except.ok.inj (given.symm.trans given'))
        exact typed
    simp only at judged
    rw [only, judged, standingOf]
    rcases @isAfterSnapshot_returns ctx rc head with
      ⟨comparable, ⟨asked, later⟩ | ⟨asked, early⟩⟩ | ⟨bad, raises⟩
    · left
      rw [asked]
      exact ⟨⟨comparable, .inl later⟩, _, rfl, .inr ⟨_, rfl⟩⟩
    · rw [asked]
      simp only [ok_bind, Bool.false_eq_true, if_false]
      by_cases reads : SignatureReads ctx rc
      · left
        obtain ⟨valid, verified⟩ := (@receiptVerifies_returns K ctx rc signed).mpr reads
        have refused : valid = false := by
          cases valid with
          | false => rfl
          | true => exact absurd verified (unproven rc given)
        rw [verified, refused]
        exact ⟨⟨comparable, .inr reads⟩, _, rfl, .inl ⟨_, rfl⟩⟩
      · right
        constructor
        · rintro ⟨-, later | there⟩
          · exact early later
          · exact reads there
        · intro answers
          obtain ⟨st, stood, -⟩ := returns_bind.mp answers
          obtain ⟨valid, verified, -⟩ := bind_ok.mp stood
          exact reads ((@receiptVerifies_returns K ctx rc signed).mp ⟨valid, verified⟩)
    · right
      constructor
      · exact fun typed => bad typed.1
      · intro answers
        obtain ⟨st, stood, -⟩ := returns_bind.mp answers
        obtain ⟨late, asked, -⟩ := bind_ok.mp stood
        exact raises ⟨late, asked⟩

/-- Every held item is counted in exactly one way. -/
theorem report_total {held : List Value} {xs : List (Value × Standing)}
    (stood : held.mapM (standing K ctx) = .ok xs) (anchors : List AnchorResult) :
    CountedOnce (reportOf held xs anchors) := by
  have total : ∀ xs : List (Value × Standing), xs.length =
      (xs.countP fun x => x.2.isIncluded) + (xs.filterMap fun x => x.2.missingRecord).length +
        (xs.filterMap fun x => x.2.unverifiableRecord).length +
        (xs.filterMap fun x => x.2.afterRecord).length := by
    intro xs
    induction xs with
    | nil => rfl
    | cons x xs ih =>
      obtain ⟨holder, st⟩ := x
      rw [List.length_cons, ih]
      cases st with
      | unverifiable record => simp [Standing.isIncluded, Standing.missingRecord,
          Standing.unverifiableRecord, Standing.afterRecord]; omega
      | afterSnapshot record => simp [Standing.isIncluded, Standing.missingRecord,
          Standing.unverifiableRecord, Standing.afterRecord]; omega
      | included rc => simp [Standing.isIncluded, Standing.missingRecord,
          Standing.unverifiableRecord, Standing.afterRecord]; omega
      | missing rc record => simp [Standing.isIncluded, Standing.missingRecord,
          Standing.unverifiableRecord, Standing.afterRecord]; omega
  have length := mapM_ok_length stood
  have counted := total xs
  rw [CountedOnce]
  simp only [reportOf]
  omega

/-- An item that proves nothing leaves the rest of the report as it is. -/
theorem oneMore_of {before after : List Value} {ys zs : List (Value × Standing)}
    {x : Value × Standing} {item : Value} (anchors : List AnchorResult)
    (proves : (∃ record, x.2 = .unverifiable record) ∨ ∃ record, x.2 = .afterSnapshot record) :
    countedOf (ys ++ x :: zs) = countedOf (ys ++ zs) ∧
    OneMore (reportOf (before ++ after) (ys ++ zs) anchors)
      (reportOf (before ++ item :: after) (ys ++ x :: zs) anchors) := by
  obtain ⟨holder, st⟩ := x
  simp only at proves
  rcases proves with ⟨record, rfl⟩ | ⟨record, rfl⟩
  · refine ⟨by simp [countedOf, Standing.counted], ?_⟩
    constructor
    · simp [reportOf, Standing.missingRecord]
    · simp [reportOf, Standing.isIncluded]
    · simp [reportOf, Standing.missingRecord]
    · rfl
    · left
      simp [reportOf, Standing.unverifiableRecord, Standing.afterRecord]
      omega
  · refine ⟨by simp [countedOf, Standing.counted], ?_⟩
    constructor
    · simp [reportOf, Standing.missingRecord]
    · simp [reportOf, Standing.isIncluded]
    · simp [reportOf, Standing.missingRecord]
    · rfl
    · right
      simp [reportOf, Standing.unverifiableRecord, Standing.afterRecord]
      omega

theorem undisturbed_of_typed {item : Value} (readable : Readable ctx.entries) (head : HeadTime ctx)
    (handed : HandedIn item) (unproven : Unproven K ctx item) (typed : WellTyped ctx item) :
    Undisturbed K ctx tsa item := by
  intro before after genuine
  obtain ⟨x, stood, proves⟩ : ∃ x, standing K ctx item = .ok x ∧
      ((∃ record, x.2 = .unverifiable record) ∨ ∃ record, x.2 = .afterSnapshot record) := by
    rcases standing_unproven handed unproven head with ⟨-, answers⟩ | ⟨bad, -⟩
    · exact answers
    · exact absurd typed bad
  obtain ⟨ys, -, front, -⟩ := @genuine_returns K ctx tsa before readable head
    fun x member => genuine x (List.mem_append_left _ member)
  obtain ⟨zs, -, back, -⟩ := @genuine_returns K ctx tsa after readable head
    fun x member => genuine x (List.mem_append_right _ member)
  obtain ⟨xs, anchors, both, checked, -⟩ := @genuine_returns K ctx tsa _ readable head genuine
  obtain rfl : ys ++ zs = xs := Except.ok.inj ((mapM_append_ok front back).symm.trans both)
  have more : (before ++ item :: after).mapM (standing K ctx) = .ok (ys ++ x :: zs) := by
    apply mapM_append_ok front
    rw [List.mapM_cons, stood, ok_bind, back]
    rfl
  obtain ⟨same, one⟩ := @oneMore_of before after ys zs x item anchors proves
  refine ⟨_, _, verifyHeld_ok.mpr ⟨_, anchors, both, checked, rfl⟩,
    verifyHeld_ok.mpr ⟨_, anchors, more, ?_, rfl⟩, one, report_total both anchors,
    report_total more anchors⟩
  rw [same]
  exact checked

theorem typed_of_undisturbed {item : Value} (head : HeadTime ctx) (handed : HandedIn item)
    (unproven : Unproven K ctx item) (undisturbed : Undisturbed K ctx tsa item) :
    WellTyped ctx item := by
  obtain ⟨report, report', -, run, -⟩ := undisturbed [] [] fun x none_ => by cases none_
  obtain ⟨xs, anchors, stood, -⟩ := verifyHeld_ok.mp run
  rcases standing_unproven handed unproven head with ⟨typed, -⟩ | ⟨-, raises⟩
  · exact typed
  · exact absurd (mapM_returns.mp ⟨xs, stood⟩ item List.mem_cons_self) raises

/-- An item that proves nothing disturbs the audit exactly if its fields are not of the types
that are compared and decoded. -/
theorem undisturbed_iff {item : Value} (tsa : Value → Except String Value)
    (readable : Readable ctx.entries) (head : HeadTime ctx) (handed : HandedIn item)
    (unproven : Unproven K ctx item) : Undisturbed K ctx tsa item ↔ WellTyped ctx item := by
  constructor
  · exact typed_of_undisturbed head handed unproven
  · exact undisturbed_of_typed readable head handed unproven

def forgedReceipt (signature : String) : RegistrationReceipt :=
  { logId := .str "log", leafIndex := .int 0, treeSize := .int 1, rootHash := .str "00",
    leafHash := .str "00", registeredAt := .int 10, tsKid := .str "kid-t",
    inclusionProof := .list [], signature := .str signature }

/-- A record as the model operator hands it in. -/
def forgedRecord (signature : String) : Dict :=
  fields [("receipt", (forgedReceipt signature).toDict), ("iss", .str (issOf .M))]

def forgedItem (signature : String) : Value :=
  .dict (forgedRecord signature ++ fields [("holder", .str "M")])

theorem forged_handed {signature : String}
    (written : Returns (canonicalJson (.dict (forgedRecord signature)))) :
    HandedIn (forgedItem signature) :=
  ⟨.M, .dict (forgedRecord signature), written, by rfl⟩

theorem forged_read (signature : String) :
    readReceipt (forgedItem signature) = .ok (some (forgedReceipt signature)) := by
  have found : (forgedItem signature).item "receipt" = .ok (forgedReceipt signature).toDict := rfl
  rw [readReceipt, found, ok_bind, RegistrationReceipt.fromDict_toDict]

theorem forged_early {log : Log} (signature : String) :
    ¬ Later (contextOf toy log 50) (forgedReceipt signature) := by
  rintro ⟨head, t, n, same, timed, -, later, -⟩
  obtain rfl := Value.int.inj same
  obtain rfl := Option.some.inj timed
  exact absurd later (by decide)

/-- A forged receipt with a signature that is no hexadecimal text makes the audit raise. -/
theorem forged_disturbs : ∃ log, plainLog = .ok log ∧ HandedIn (forgedItem "zz") ∧
    Unproven toy (contextOf toy log 50) (forgedItem "zz") ∧
    ¬ Undisturbed toy (contextOf toy log 50) (fun _ => .error "") (forgedItem "zz") := by
  obtain ⟨rc, made⟩ := issuedReceipt_facts
  obtain ⟨log, opened, -⟩ := bind_ok.mp made
  have handed : HandedIn (forgedItem "zz") := forged_handed (by decide +kernel)
  have logId : log.policy.logId = "log" := (opened_shape opened).2.2.1
  have unreadable : ¬ SignatureReads (contextOf toy log 50) (forgedReceipt "zz") := by
    rintro (different | empty | ⟨s, b, given, digits⟩)
    · simp [contextOf, forgedReceipt, logId] at different
    · cases empty
    · obtain rfl := Value.str.inj given
      exact absurd digits (by simp [show fromHex "zz" = none by decide])
  have unproven : Unproven toy (contextOf toy log 50) (forgedItem "zz") := by
    intro rc given verified
    obtain rfl := Option.some.inj (Except.ok.inj ((forged_read "zz").symm.trans given))
    exact unreadable ((receiptVerifies_returns (by decide +kernel)).mp ⟨true, verified⟩)
  refine ⟨log, opened, handed, unproven, ?_⟩
  intro undisturbed
  have typed := typed_of_undisturbed (.inr ⟨50, rfl⟩) handed unproven undisturbed
  rcases (typed _ (forged_read "zz")).2 with later | reads
  · exact forged_early "zz" later
  · exact unreadable reads

/-- The forged receipt with a signature of zeros is counted and changes nothing else. -/
theorem undisturbed_plain : ∃ log, plainLog = .ok log ∧
    Undisturbed toy (contextOf toy log 50) (fun _ => .error "") (forgedItem "00") := by
  obtain ⟨rc, made⟩ := issuedReceipt_facts
  obtain ⟨log, opened, -⟩ := bind_ok.mp made
  have handed : HandedIn (forgedItem "00") := forged_handed (by decide +kernel)
  have key : log.policy.key = logKey := (opened_shape opened).2.1
  have unproven : Unproven toy (contextOf toy log 50) (forgedItem "00") := by
    intro rc given verified
    obtain rfl := Option.some.inj (Except.ok.inj ((forged_read "00").symm.trans given))
    rw [receiptVerifies] at verified
    split at verified
    next => cases verified
    next =>
      obtain ⟨message, -, verified⟩ := bind_ok.mp verified
      obtain ⟨b, read, verified⟩ := bind_ok.mp verified
      have zero : fromHexValue (.str "00") = .ok [0] := by decide
      obtain rfl := Except.ok.inj (read.symm.trans zero)
      have valid := Except.ok.inj verified
      simp [contextOf, key, KeyPair.publicKey, logKey, toy] at valid
  have readable := readable_of_tree (kept_opened opened).tree
  refine ⟨log, opened, ?_⟩
  apply (undisturbed_iff _ readable (.inr ⟨50, rfl⟩) handed unproven).mpr
  intro rc given
  obtain rfl := Option.some.inj (Except.ok.inj ((forged_read "00").symm.trans given))
  refine ⟨?_, .inr (.inr (.inr ⟨"00", [0], rfl, by decide⟩))⟩
  intro head same
  obtain rfl := Value.int.inj same
  exact ⟨10, rfl, fun late => absurd late (by decide)⟩

end UntrustedHolders
