import Custody.PassedVerdict

/-!
# Commitments of accepted payloads

The schema check counts 64 characters and asks whether they can be read. The reader skips
blanks, so the fields of an accepted payload are 32 bytes exactly when no blank is in them.
-/

namespace AcceptedCommitments

open PyValue HexBytes Commitments Statements Schemas

variable {K : Primitives}

/-- The fields that are checked as hexadecimal text, by content type. -/
def checkedFields (contentType : Value) : List String :=
  if contentType.eq (.str ctContract) then ["nonce", "req_commit"]
  else if contentType.eq (.str ctRelay) then
    ["in_commit", "out_commit", "resp_in_commit", "resp_out_commit", "nonce_forwarded"]
  else if contentType.eq (.str ctReceipt) then
    ["request_commit", "response_commit", "model_hash", "eat_nonce"]
  else if contentType.eq (.str ctObservation) then ["resp_commit"]
  else []

/-- A text of exactly 64 hexadecimal digits that is read as exactly 32 bytes. -/
def IsDigest : Value → Prop
  | .str s => s.toList.length = 64 ∧ (∀ c ∈ s.toList, (charNibble c).isSome = true) ∧
      ∃ b, fromHex s = some b ∧ b.length = 32
  | _ => False

theorem isHex_iff {v : Value} {n : Nat} : isHex v n = true ↔
    ∃ s b, v = .str s ∧ s.toList.length = n ∧ fromHex s = some b := by
  cases v with
  | str s =>
    rw [isHex, Bool.and_eq_true, beq_iff_eq, Option.isSome_iff_exists]
    constructor
    · rintro ⟨size, b, read⟩
      exact ⟨s, b, rfl, size, read⟩
    · rintro ⟨t, b, same, size, read⟩
      obtain rfl := Value.str.inj same
      exact ⟨size, b, read⟩
  | _ => simp [isHex]

/-- A text of 64 characters is read as 32 bytes when there is no blank in it. -/
theorem bytes_iff {s : String} {b : Bytes} (size : s.toList.length = 64)
    (read : fromHex s = some b) : b.length = 32 ↔ ∀ c ∈ s.toList, isBlank c = false := by
  have count := fromHexChars_length read
  have none_ : b.length = 32 ↔ s.toList.countP isBlank = 0 := by omega
  rw [none_, List.countP_eq_zero]
  simp only [Bool.not_eq_true]

theorem isDigest_iff {s : String} (checked : isHex (.str s) hex32 = true) :
    IsDigest (.str s) ↔ ∀ c ∈ s.toList, isBlank c = false := by
  obtain ⟨t, b, same, size, read⟩ := isHex_iff.mp checked
  obtain rfl := Value.str.inj same
  rw [hex32] at size
  constructor
  · rintro ⟨-, -, b', read', bytes⟩
    exact (bytes_iff size read').mp bytes
  · intro plain
    refine ⟨size, fun c inside => ?_, b, read, (bytes_iff size read).mpr plain⟩
    rcases fromHexChars_chars read c inside with blank | digit
    · rw [plain c inside] at blank
      cases blank
    · exact digit

/-- The field is there, and it is null or hexadecimal text of 64 characters. -/
def Checked (payload : Dict) (k : String) : Prop :=
  ∃ v, getItem payload k = .ok v ∧ (v = .null ∨ isHex v hex32 = true)

theorem hexField_nil {payload : Dict} {k : String} (h : hexField payload k = .ok []) :
    Checked payload k := by
  obtain ⟨v, stated, h⟩ := bind_ok.mp h
  have good := errorIf_nil (Except.ok.inj h)
  exact ⟨v, stated, .inr (by simpa using good)⟩

theorem hexFieldOrNull_nil {payload : Dict} {k suffix : String}
    (h : hexFieldOrNull payload k suffix = .ok []) : Checked payload k := by
  obtain ⟨v, stated, h⟩ := bind_ok.mp h
  have good := errorIf_nil (Except.ok.inj h)
  refine ⟨v, stated, ?_⟩
  cases v with
  | null => exact .inl rfl
  | _ => exact .inr (by simpa [Value.isNone] using good)

theorem contractErrors_nil {payload : Dict} (h : contractErrors payload = .ok []) :
    ∀ k ∈ ["nonce", "req_commit"], Checked payload k := by
  obtain ⟨nonce, hNonce, h⟩ := bind_ok.mp h
  obtain ⟨commit, hCommit, h⟩ := bind_ok.mp h
  obtain ⟨fallback, -, h⟩ := bind_ok.mp h
  obtain ⟨mode, -, h⟩ := bind_ok.mp h
  obtain ⟨model, -, h⟩ := bind_ok.mp h
  obtain ⟨models, -, h⟩ := bind_ok.mp h
  obtain ⟨allowed, -, h⟩ := bind_ok.mp h
  have none_ := Except.ok.inj h
  simp only [List.append_eq_nil_iff] at none_
  obtain ⟨⟨⟨⟨rfl, rfl⟩, -⟩, -⟩, -⟩ := none_
  simp only [List.forall_mem_cons, List.not_mem_nil, false_imp_iff, implies_true, and_true]
  exact ⟨hexField_nil hNonce, hexField_nil hCommit⟩

theorem relayErrors_nil {payload : Dict} (h : relayErrors payload = .ok []) :
    ∀ k ∈ ["in_commit", "out_commit", "resp_in_commit", "resp_out_commit", "nonce_forwarded"],
      Checked payload k := by
  obtain ⟨inCommit, hIn, h⟩ := bind_ok.mp h
  obtain ⟨outCommit, hOut, h⟩ := bind_ok.mp h
  obtain ⟨respIn, hRespIn, h⟩ := bind_ok.mp h
  obtain ⟨respOut, hRespOut, h⟩ := bind_ok.mp h
  obtain ⟨nonce, hNonce, h⟩ := bind_ok.mp h
  obtain ⟨decision, -, h⟩ := bind_ok.mp h
  have none_ := Except.ok.inj h
  simp only [List.append_eq_nil_iff] at none_
  obtain ⟨⟨⟨⟨⟨rfl, rfl⟩, rfl⟩, rfl⟩, rfl⟩, -⟩ := none_
  simp only [List.forall_mem_cons, List.not_mem_nil, false_imp_iff, implies_true, and_true]
  exact ⟨hexField_nil hIn, hexField_nil hOut, hexFieldOrNull_nil hRespIn,
    hexFieldOrNull_nil hRespOut, hexFieldOrNull_nil hNonce⟩

theorem receiptErrors_nil {payload : Dict} (h : receiptErrors payload = .ok []) :
    ∀ k ∈ ["request_commit", "response_commit", "model_hash", "eat_nonce"],
      Checked payload k := by
  obtain ⟨mode, -, h⟩ := bind_ok.mp h
  obtain ⟨request, hRequest, h⟩ := bind_ok.mp h
  obtain ⟨response, hResponse, h⟩ := bind_ok.mp h
  obtain ⟨model, hModel, h⟩ := bind_ok.mp h
  obtain ⟨nonce, hNonce, h⟩ := bind_ok.mp h
  obtain ⟨att, -, h⟩ := bind_ok.mp h
  obtain ⟨decision, -, h⟩ := bind_ok.mp h
  have none_ := Except.ok.inj h
  simp only [List.append_eq_nil_iff] at none_
  obtain ⟨⟨⟨⟨⟨⟨-, rfl⟩, rfl⟩, rfl⟩, rfl⟩, -⟩, -⟩ := none_
  simp only [List.forall_mem_cons, List.not_mem_nil, false_imp_iff, implies_true, and_true]
  exact ⟨hexFieldOrNull_nil hRequest, hexFieldOrNull_nil hResponse, hexFieldOrNull_nil hModel,
    hexFieldOrNull_nil hNonce⟩

theorem observationErrors_nil {payload : Dict} (h : observationErrors payload = .ok []) :
    ∀ k ∈ ["resp_commit"], Checked payload k :=
  List.forall_mem_singleton.mpr (hexField_nil h)

theorem checked_of_valid {contentType : Value} {payload : Dict}
    (accepted : validatePayload K contentType payload = .ok []) :
    ∀ k ∈ checkedFields contentType, Checked payload k := by
  obtain ⟨-, -, -, -, -, -, checked⟩ := validatePayload_nil accepted
  rw [contentErrors] at checked
  rw [checkedFields]
  by_cases contract : contentType.eq (.str ctContract) = true
  · rw [if_pos contract] at checked ⊢
    exact contractErrors_nil checked
  rw [if_neg contract] at checked ⊢
  by_cases relay : contentType.eq (.str ctRelay) = true
  · rw [if_pos relay] at checked ⊢
    exact relayErrors_nil checked
  rw [if_neg relay] at checked ⊢
  by_cases receipt : contentType.eq (.str ctReceipt) = true
  · rw [if_pos receipt] at checked ⊢
    exact receiptErrors_nil checked
  rw [if_neg receipt] at checked ⊢
  by_cases observation : contentType.eq (.str ctObservation) = true
  · rw [if_pos observation] at checked ⊢
    exact observationErrors_nil checked
  · rw [if_neg observation]
    intro k listed
    cases listed

/-- The commitments, nonces and hashes of an accepted payload are 32 bytes exactly when no
blank stands in any of them. -/
theorem accepted_digests_iff {contentType : Value} {payload : Dict}
    (accepted : validatePayload K contentType payload = .ok []) :
    (∀ k ∈ checkedFields contentType, ∀ v, getItem payload k = .ok v → v ≠ .null → IsDigest v) ↔
      ∀ k ∈ checkedFields contentType, ∀ s, getItem payload k = .ok (.str s) →
        ∀ c ∈ s.toList, isBlank c = false := by
  have checked := checked_of_valid accepted
  have hexOf : ∀ k ∈ checkedFields contentType, ∀ v, getItem payload k = .ok v → v ≠ .null →
      isHex v hex32 = true := by
    intro k listed v stated some_
    obtain ⟨w, found, null | good⟩ := checked k listed
    · rw [stated, Except.ok.injEq] at found
      exact absurd (found.trans null) some_
    · rw [stated, Except.ok.injEq] at found
      rwa [found]
  constructor
  · intro digests k listed s stated
    have some_ : Value.str s ≠ .null := by
      rintro ⟨⟩
    exact (isDigest_iff (hexOf k listed _ stated some_)).mp (digests k listed _ stated some_)
  · intro plain k listed v stated some_
    have good := hexOf k listed v stated some_
    obtain ⟨s, b, rfl, -⟩ := isHex_iff.mp good
    exact (isDigest_iff good).mpr (plain k listed s stated)

/-- Commitments of 64 digits are accepted and are digests. -/
theorem accepted_digests_iff_plain :
    (∀ k ∈ checkedFields (.str ctContract), ∀ v,
      getItem (contractPayload PassedVerdict.plainTerms) k = .ok v → v ≠ .null → IsDigest v) ↔
    ∀ k ∈ checkedFields (.str ctContract), ∀ s,
      getItem (contractPayload PassedVerdict.plainTerms) k = .ok (.str s) →
        ∀ c ∈ s.toList, isBlank c = false := by
  have accepted : validatePayload toy (.str ctContract) (contractPayload PassedVerdict.plainTerms) =
      .ok [] := by decide +kernel
  exact accepted_digests_iff accepted

def blanks : String := String.ofList (List.replicate 64 ' ')

def blankContract : Dict := contractPayload { PassedVerdict.plainTerms with reqCommit := blanks }

/-- A commitment of 64 blanks is accepted, and it is no byte at all. -/
theorem blank_commitment_accepted :
    validatePayload toy (.str ctContract) blankContract = .ok [] ∧
    "req_commit" ∈ checkedFields (.str ctContract) ∧
    getItem blankContract "req_commit" = .ok (.str blanks) ∧ Value.str blanks ≠ .null ∧
    fromHex blanks = some [] ∧ ¬ IsDigest (.str blanks) := by
  have empty : fromHex blanks = some [] := by decide +kernel
  refine ⟨by decide +kernel, by decide +kernel, rfl, ?_, empty, ?_⟩
  · rintro ⟨⟩
  · rintro ⟨-, -, b, read, size⟩
    obtain rfl := Option.some.inj (empty.symm.trans read)
    cases size

end AcceptedCommitments
