import Custody.Statements

/-!
# Payload schemas

What a payload must contain before it is registered, and the payloads honest
parties write. The check looks at presence and at a few formats only.
-/

namespace Schemas

open PyValue HexBytes Commitments Statements

def hex32 : Nat := 64

def requiredFields : List (Value × List String) :=
  [(.str ctContract,
     ["profile", "attempt_id", "session_id", "session_seq", "nonce", "req_commit",
      "requested_model", "allowed_models", "fallback_policy",
      "allowed_request_transforms", "allowed_response_transforms",
      "relay_id", "expires_at", "client_time", "enforcement_mode"]),
   (.str ctRelay,
     ["profile", "attempt_id", "in_commit", "out_commit", "request_transform_id",
      "upstream_id", "upstream_model", "resp_in_commit", "resp_out_commit",
      "response_transform_id", "policy_version", "policy_decision",
      "nonce_forwarded", "salt_forwarded", "relay_seq"]),
   (.str ctReceipt,
     ["profile", "cti", "attempt_id", "request_commit", "response_commit",
      "model_id", "model_version", "model_hash", "model_hash_scheme", "eat_nonce",
      "security_mode", "attestation", "execution_time_ms", "pre_exec_check", "decision"]),
   (.str ctObservation,
     ["profile", "attempt_id", "resp_commit", "received_at",
      "inline_receipt_hash", "inline_relay_hash"]),
   (.str ctManifest,
     ["profile", "session_id", "attempts", "closed_at", "prev_manifest_hash"]),
   (.str ctVerdict,
     ["profile", "attempt_id", "verification_status", "established_assurance",
      "deployment_mode", "cooperation_set", "completeness", "equations",
      "discrepancies", "evidence_refs", "policy_hash", "checker_version",
      "trust_keys_version", "threat_model"]),
   (.str ctPolicy,
     ["profile", "version", "ts_id", "ts_iss", "allowed_content_types", "sub_pattern",
      "trusted_keys", "issuer_content_types"])]

def texts (xs : List String) : List Value := xs.map .str

theorem memberOf_texts {v : Value} {names : List String} :
    memberOf v (texts names) = true ↔ ∃ s ∈ names, v = .str s := by
  simp [memberOf, texts]

def policyDecisions : List Value := texts ["forwarded", "refused", "fallback", "error"]
def verificationStatuses : List Value := texts ["passed", "failed", "insufficient_evidence"]
def assuranceLevels : List Value := texts ["none", "air-local"]
def completenessLevels : List Value := texts ["complete", "gap", "not_observable"]
def enforcementModes : List Value := texts ["observe", "protect", "strict"]
def fallbackPolicies : List Value := texts ["none", "declared_only"]

/-- `_is_hex(v, n)`. The reader of hexadecimal text skips blanks. -/
def isHex : Value → Nat → Bool
  | .str s, n => s.toList.length == n && (fromHex s).isSome
  | _, _ => false

def errorIf (bad : Bool) (message : String) : List String := if bad then [message] else []

/-- `s.startswith(head)`. -/
def startsWith (s head : String) : Bool := head.toList.isPrefixOf s.toList

def isDict : Value → Bool
  | .dict _ => true
  | _ => false

/-- A field that must be 32 bytes of hexadecimal text. -/
def hexField (payload : Dict) (field : String) : Py (List String) := do
  let v ← getItem payload field
  pure (errorIf (!isHex v hex32) (field ++ " must be 32-byte hex"))

/-- The same for a field that may be null; the receipt's messages do not say so. -/
def hexFieldOrNull (payload : Dict) (field suffix : String) : Py (List String) := do
  let v ← getItem payload field
  pure (errorIf (!v.isNone && !isHex v hex32) (field ++ " must be 32-byte hex" ++ suffix))

/-- A field that must be one of a tuple of texts. -/
def choiceField (payload : Dict) (field : String) (choices : List Value) (message : String) :
    Py (List String) := do
  let v ← getItem payload field
  pure (errorIf (!memberOf v choices) message)

def contractErrors (payload : Dict) : Py (List String) := do
  let nonce ← hexField payload "nonce"
  let reqCommit ← hexField payload "req_commit"
  let fallback ← choiceField payload "fallback_policy" fallbackPolicies "bad fallback_policy"
  let mode ← choiceField payload "enforcement_mode" enforcementModes "bad enforcement_mode"
  let allowed ← isIn (← getItem payload "requested_model") (← getItem payload "allowed_models")
  pure (nonce ++ reqCommit ++ fallback ++ mode ++
    errorIf (!allowed) "requested_model must be in allowed_models")

def relayErrors (payload : Dict) : Py (List String) := do
  let inCommit ← hexField payload "in_commit"
  let outCommit ← hexField payload "out_commit"
  let respIn ← hexFieldOrNull payload "resp_in_commit" " or null"
  let respOut ← hexFieldOrNull payload "resp_out_commit" " or null"
  let nonce ← hexFieldOrNull payload "nonce_forwarded" " or null"
  let decision ← choiceField payload "policy_decision" policyDecisions "bad policy_decision"
  pure (inCommit ++ outCommit ++ respIn ++ respOut ++ nonce ++ decision)

/-- `not isinstance(att, dict) or att.get("kind") != "mock"`. -/
def badAttestation : Value → Bool
  | .dict att => !Value.eq (getOr att "kind") (.str "mock")
  | _ => true

def receiptErrors (payload : Dict) : Py (List String) := do
  let mode ← choiceField payload "security_mode" (texts ["evaluation"])
    "security_mode must be 'evaluation' in this project"
  let request ← hexFieldOrNull payload "request_commit" ""
  let response ← hexFieldOrNull payload "response_commit" ""
  let model ← hexFieldOrNull payload "model_hash" ""
  let nonce ← hexFieldOrNull payload "eat_nonce" " or null"
  let att ← getItem payload "attestation"
  let decision ← choiceField payload "decision" (texts ["served", "refused"]) "bad decision"
  pure (mode ++ request ++ response ++ model ++ nonce ++
    errorIf (badAttestation att)
      "attestation.kind must be 'mock' (no real TEE in this version)" ++ decision)

def observationErrors (payload : Dict) : Py (List String) := hexField payload "resp_commit"

def verdictErrors (payload : Dict) : Py (List String) := do
  let status ← choiceField payload "verification_status" verificationStatuses
    "bad verification_status"
  let assurance ← choiceField payload "established_assurance" assuranceLevels
    "bad established_assurance"
  let mode ← choiceField payload "deployment_mode" (texts ["evaluation"])
    "deployment_mode must be 'evaluation'"
  let completeness ← choiceField payload "completeness" completenessLevels "bad completeness"
  pure (status ++ assurance ++ mode ++ completeness)

variable (K : Primitives)

def badContentTypes : Value → Bool
  | .list cts => cts.any fun c => !memberOf c (texts allContentTypes)
  | _ => true

def policyErrors (payload : Dict) : Py (List String) := do
  let trusted ← getItem payload "trusted_keys"
  let rights ← getItem payload "issuer_content_types"
  let listed := match rights with
    | .dict ict => ict.flatMap fun x => errorIf (badContentTypes x.2)
        ("issuer_content_types[" ++ text K x.1 ++ "] must list known content types")
    | _ => ["issuer_content_types must be a map iss -> [content_type]"]
  pure (errorIf (!isDict trusted) "trusted_keys must be a map kid -> \x7biss, public_key\x7d" ++
    listed)

def contentErrors (contentType : Value) (payload : Dict) : Py (List String) :=
  if contentType.eq (.str ctContract) then contractErrors payload
  else if contentType.eq (.str ctRelay) then relayErrors payload
  else if contentType.eq (.str ctReceipt) then receiptErrors payload
  else if contentType.eq (.str ctObservation) then observationErrors payload
  else if contentType.eq (.str ctVerdict) then verdictErrors payload
  else if contentType.eq (.str ctPolicy) then policyErrors K payload
  else .ok []

/-- `validate_payload(content_type, payload)`: the violations found, none when it passes. -/
def validatePayload (contentType : Value) (payload : Dict) : Py (List String) := do
  match ← lookup requiredFields contentType with
  | none => pure ["unknown content_type " ++ text K contentType]
  | some required =>
    let missing := required.flatMap fun k => errorIf (!hasKey payload k) ("missing field " ++ k)
    if !missing.isEmpty then return missing
    let profile ← getItem payload "profile"
    let later ← contentErrors K contentType payload
    pure (errorIf (!startsWith (text K profile) profileVersion)
      ("profile must start with " ++ profileVersion) ++ later)

theorem errorIf_nil {bad : Bool} {message : String} (h : errorIf bad message = []) :
    bad = false := by
  cases bad with
  | false => rfl
  | true => cases h

/-- What a payload that passes has been checked for. -/
theorem validatePayload_nil {K : Primitives} {contentType : Value} {payload : Dict}
    (valid : validatePayload K contentType payload = .ok []) :
    ∃ required profile, lookup requiredFields contentType = .ok (some required) ∧
      (∀ k ∈ required, hasKey payload k = true) ∧ getItem payload "profile" = .ok profile ∧
      startsWith (text K profile) profileVersion = true ∧
      contentErrors K contentType payload = .ok [] := by
  obtain ⟨found, listed, valid⟩ := bind_ok.mp valid
  cases found with
  | none => cases valid
  | some required =>
    simp only at valid
    split at valid
    next missing =>
      rw [Except.ok.inj valid] at missing
      cases missing
    next complete =>
      obtain ⟨profile, stated, valid⟩ := bind_ok.mp valid
      obtain ⟨later, checked, valid⟩ := bind_ok.mp valid
      obtain ⟨named, rfl⟩ := List.append_eq_nil_iff.mp (Except.ok.inj valid)
      have absent : (required.flatMap fun k =>
          errorIf (!hasKey payload k) ("missing field " ++ k)) = [] := by
        simpa using complete
      refine ⟨required, profile, listed, fun k member => ?_, stated, ?_, checked⟩
      · simpa using errorIf_nil (List.flatMap_eq_nil_iff.mp absent k member)
      · simpa using errorIf_nil named

def optionText : Option String → Value
  | some s => .str s
  | none => .null

structure ContractTerms where
  attemptId : String
  sessionId : String
  sessionSeq : Int
  nonce : String
  reqCommit : String
  requestedModel : String
  allowedModels : List String
  fallbackPolicy : String
  allowedRequestTransforms : List String
  allowedResponseTransforms : List String
  relayId : String
  expiresAt : Int
  clientTime : Int
  enforcementMode : String

def contractPayload (t : ContractTerms) : Dict :=
  fields [("profile", .str (profileVersion ++ "/contract")), ("attempt_id", .str t.attemptId),
    ("session_id", .str t.sessionId), ("session_seq", .int t.sessionSeq),
    ("nonce", .str t.nonce), ("req_commit", .str t.reqCommit),
    ("requested_model", .str t.requestedModel), ("allowed_models", .ofStrings t.allowedModels),
    ("fallback_policy", .str t.fallbackPolicy),
    ("allowed_request_transforms", .ofStrings t.allowedRequestTransforms),
    ("allowed_response_transforms", .ofStrings t.allowedResponseTransforms),
    ("relay_id", .str t.relayId), ("expires_at", .int t.expiresAt),
    ("client_time", .int t.clientTime), ("enforcement_mode", .str t.enforcementMode)]

structure RelayReport where
  attemptId : String
  inCommit : String
  outCommit : String
  requestTransformId : String
  upstreamId : String
  upstreamModel : String
  respInCommit : Option String
  respOutCommit : Option String
  responseTransformId : String
  policyVersion : String
  policyDecision : String
  nonceForwarded : Option String
  saltForwarded : Bool
  relaySeq : Int

def relayPayload (r : RelayReport) : Dict :=
  fields [("profile", .str (profileVersion ++ "/relay")), ("attempt_id", .str r.attemptId),
    ("in_commit", .str r.inCommit), ("out_commit", .str r.outCommit),
    ("request_transform_id", .str r.requestTransformId), ("upstream_id", .str r.upstreamId),
    ("upstream_model", .str r.upstreamModel), ("resp_in_commit", optionText r.respInCommit),
    ("resp_out_commit", optionText r.respOutCommit),
    ("response_transform_id", .str r.responseTransformId),
    ("policy_version", .str r.policyVersion), ("policy_decision", .str r.policyDecision),
    ("nonce_forwarded", optionText r.nonceForwarded), ("salt_forwarded", .bool r.saltForwarded),
    ("relay_seq", .int r.relaySeq)]

/-- What a model operator reports of one execution. The attempt and the nonce are
copied from the wire, so they need not be text. -/
structure ReceiptReport where
  cti : String
  attemptId : Value
  requestCommit : Option String
  responseCommit : Option String
  modelId : Value
  modelVersion : Value
  modelHash : Value
  eatNonce : Value
  executionTimeMs : Int
  preExecCheck : String
  decision : String
  attestationDocHash : String

def receiptPayload (r : ReceiptReport) : Dict :=
  fields [("profile", .str (profileVersion ++ "/receipt (AIR-02-like, evaluation only)")),
    ("cti", .str r.cti), ("attempt_id", r.attemptId),
    ("request_commit", optionText r.requestCommit),
    ("response_commit", optionText r.responseCommit), ("model_id", r.modelId),
    ("model_version", r.modelVersion), ("model_hash", r.modelHash),
    ("model_hash_scheme", .str "sha256-manifest"), ("eat_nonce", r.eatNonce),
    ("security_mode", .str "evaluation"),
    ("attestation", .dict (fields [("kind", .str "mock"), ("doc_hash", .str r.attestationDocHash),
      ("claim_status", .str "mock_result")])),
    ("execution_time_ms", .int r.executionTimeMs), ("pre_exec_check", .str r.preExecCheck),
    ("decision", .str r.decision)]

structure ObservationReport where
  attemptId : String
  respCommit : String
  receivedAt : Int
  inlineReceiptHash : Option String
  inlineRelayHash : Option String
  /-- The copy of a receipt the relay showed, as it came. -/
  presentedReceipt : Value := .null

def observationPayload (o : ObservationReport) : Dict :=
  fields [("profile", .str (profileVersion ++ "/observation")), ("attempt_id", .str o.attemptId),
    ("resp_commit", .str o.respCommit), ("received_at", .int o.receivedAt),
    ("inline_receipt_hash", optionText o.inlineReceiptHash),
    ("inline_relay_hash", optionText o.inlineRelayHash),
    ("presented_receipt", o.presentedReceipt)]

def policyPayload (version : Int) (tsId tsIss : String) (allowedContentTypes : List String)
    (subPattern : String) (trustedKeys issuerContentTypes : Dict) : Dict :=
  fields [("profile", .str (profileVersion ++ "/policy")), ("version", .int version),
    ("ts_id", .str tsId), ("ts_iss", .str tsIss),
    ("allowed_content_types", .ofStrings allowedContentTypes), ("sub_pattern", .str subPattern),
    ("trusted_keys", .dict trustedKeys), ("issuer_content_types", .dict issuerContentTypes)]

end Schemas
