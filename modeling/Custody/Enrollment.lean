import Custody.Auditing

/-!
# Enrollment

Operators publish signed cards, and a deployment is a proposal that every one of
them endorses. A later epoch carries the bundle of the epoch before it, and each
endorsement of it is also signed with the role's key of that epoch. Documents come
as decoded JSON. What the certificate and URL libraries answer is a parameter.
-/

namespace Enrollment

open PyValue HexBytes CanonicalJson Commitments Statements Schemas TransparencyLog ReplayAudit
  Identity Auditing

/-- What `urlsplit` returns; reading an invalid port raises. -/
structure Url where
  scheme : String
  hostname : Option String
  username : Option String
  password : Option String
  path : String
  query : String
  fragment : String
  port : Py (Option Nat)

structure Network where
  urlsplit : Value → Py Url
  /-- `ipaddress.ip_address`, as the text it prints; `none` for a host name. -/
  ipAddress : String → Option String
  lower : String → String
  Certificate : Type
  loadPem : String → Py Certificate
  /-- `cert.verify_directly_issued_by(ca)`. -/
  issuedBy : Certificate → Certificate → Py Unit
  /-- The `ca` flag of the basic constraints. -/
  isAuthority : Certificate → Py Bool
  /-- The alternative names: addresses, then host names. -/
  alternativeNames : Certificate → Py (List String × List String)
  serverAuth : Certificate → Py Bool
  /-- `int(certificate.not_valid_before_utc.timestamp() * 1000)`. -/
  notBefore : Certificate → Int
  notAfter : Certificate → Int

variable (K : Primitives) (N : Network)

def set? (text : Option String) : Bool := text.getD "" ≠ ""

/-- `endpoint_url(endpoint)`, with its port. -/
def endpointUrl (endpoint : Value) : Py (Url × Nat) := do
  let u ← N.urlsplit endpoint
  let refused := PyErr.valueError
    "endpoint must be an HTTPS host and explicit port, without path or credentials"
  if u.scheme ≠ "https" || !set? u.hostname || set? u.username || set? u.password ||
      !(["", "/"].contains u.path) || u.query ≠ "" || u.fragment ≠ "" then throw refused
  else match ← u.port with
    | some (n + 1) => pure (u, n + 1)
    | _ => throw refused

/-- `ROLES`. -/
def roles : List String := ["U", "R", "M", "T", "W"]

/-- `"urn:itx:party:" + role.lower()`. -/
def partyOf (role : String) : String :=
  "urn:itx:party:" ++ String.ofList (role.toList.map Char.toLower)

def refuseIf (bad : Bool) (message : String) : Py Unit :=
  if bad then .error (.valueError message) else .ok ()

/-- `s.encode()`. -/
def textOf : Value → Py String
  | .str s => .ok s
  | _ => .error .attributeError

/-- The identity lifetime, which must be two integers in order. -/
def lifetime (message : String) (v : Value) : Py (Int × Int) := do
  match ← v.item "created_at" with
  | .int created => do
    match ← v.item "expires_at" with
    | .int expires =>
      if created < expires then pure (created, expires) else throw (.valueError message)
    | _ => throw (.valueError message)
  | _ => throw (.valueError message)

/-- The host of the endpoint is among the names that the certificate was issued for. -/
def namesHost (host : String) (addresses names : List String) : Bool :=
  match N.ipAddress host with
  | some address => addresses.contains address
  | none => (names.map N.lower).contains (N.lower host)

/-- What `verify_card` checks of a role that listens. -/
def checkService (body : Value) (created expires : Int) : Py Unit := do
  let (u, _) ← endpointUrl N (← body.item "endpoint")
  let ca ← N.loadPem (← textOf (← body.item "tls_ca"))
  let cert ← N.loadPem (← textOf (← body.item "tls_certificate"))
  N.issuedBy cert ca
  N.issuedBy ca ca
  refuseIf (!(← N.isAuthority ca)) "operator CA lacks CA authority"
  refuseIf (← N.isAuthority cert) "service certificate must be a leaf"
  let (addresses, names) ← N.alternativeNames cert
  let unauthorized := "service certificate does not authorize this endpoint"
  refuseIf (!namesHost N (u.hostname.getD "") addresses names) unauthorized
  refuseIf (!(← N.serverAuth cert)) unauthorized
  refuseIf ([ca, cert].any fun c => N.notBefore c > created || N.notAfter c + 1000 < expires)
    "operator identity outlives its TLS certificate"

/-- The card is signed with the key that it declares. -/
def checkCardSignature (card body : Value) : Py Unit := do
  let publicKey ← fromHexValue (← body.item "public_key")
  let encoded ← canonicalJson body
  let signature ← fromHexValue (← card.item "signature")
  refuseIf (!K.verify publicKey encoded signature) "invalid operator card"

/-- U has no service and declares none. -/
def undeclared (body : Value) : Py Unit := do
  let declared ← ["endpoint", "tls_ca", "tls_certificate"].mapM fun k => body.get k .null
  refuseIf (declared.any fun v => !v.isNone) "U cannot declare a service TLS endpoint"

/-- Every role but U is reached at an endpoint of its own. -/
def checkEndpoint (role : String) (body : Value) (created expires : Int) : Py Unit :=
  if role ≠ "U" then checkService N body created expires else undeclared body

/-- `verify_card(card)`. -/
def verifyCard (card : Value) : Py Value := do
  let body ← card.item "body"
  let role ← body.item "role"
  let profile ← body.item "profile"
  refuseIf (!profile.eq (.str "itx-operator-card/1")) "invalid operator card"
  match roles.find? fun r => role.eq (.str r) with
  | none => throw (.valueError "invalid operator card")
  | some r => do
    refuseIf (!(← body.item "iss").eq (.str (partyOf r))) "invalid operator card"
    checkCardSignature K card body
    let (created, expires) ← lifetime "invalid operator identity lifetime" body
    checkEndpoint N r body created expires
    pure body

/-- What a bundle's `deployment_history` says of one epoch. -/
def historyEntry (bundle : Value) : Py Value := do
  let cp ← bundle.item "proposal"
  pure (.dict (fields [("epoch", ← cp.item "epoch"),
    ("deployment_hash", .str (← fingerprint K cp)),
    ("previous_hash", ← cp.item "previous_hash"),
    ("previous_checkpoint", ← cp.item "previous_checkpoint")]))

mutual
/-- The loop of `configuration` over a bundle and its predecessors. -/
def history : Value → Py (List Value)
  | .dict [] => .ok []
  | .dict (x :: kvs) => do
    let entry ← historyEntry K (.dict (x :: kvs))
    let older ← historyBefore (x :: kvs)
    pure (entry :: older)
  | v => if v.truthy then .error .typeError else .ok []
termination_by structural v => v

/-- The same from `current["previous"]` on. -/
def historyBefore : List (Value × Value) → Py (List Value)
  | [] => .error .keyError
  | (k, v) :: rest => if k.scalarEq (.str "previous") then history v else historyBefore rest
termination_by structural kvs => kvs
end

def logIdOf (p : Value) : Py Value := do
  pure (.str ("epoch-" ++ text K (← p.item "deployment_id") ++ "-" ++ text K (← p.item "epoch")))

/-- `{k: c["body"][k] for k in ("iss", "kid", "public_key")}`. -/
def identityOf (card : Value) : Py Value := do
  let body ← card.item "body"
  pure (.dict (fields [("iss", ← body.item "iss"), ("kid", ← body.item "kid"),
    ("public_key", ← body.item "public_key")]))

def endpointOf (card : Value) : Py Value := do (← card.item "body").item "endpoint"

def isU (role : Value) : Bool := role.eq (.str "U")

/-- `configuration(bundle)`. -/
def configuration (bundle : Value) : Py Value := do
  let p ← bundle.item "proposal"
  let epochs ← history K bundle
  let created ← p.item "created_at"
  let expires ← p.item "expires_at"
  let logId ← logIdOf K p
  let epoch ← p.item "epoch"
  let hash ← fingerprint K p
  let cards ← items (← p.item "cards")
  let identities ← cards.mapM fun x => do pure (x.1, ← identityOf x.2)
  let endpoints ← (cards.filter fun x => !isU x.1).mapM fun x => do pure (x.1, ← endpointOf x.2)
  let modelId ← p.item "model_id"
  let modelHash ← p.item "model_hash"
  if !modelId.hashable then throw .typeError
  else pure (.dict (fields [("version", .int 1), ("lab", .bool false), ("created_at", created),
    ("policy_expires_at", expires), ("log_id", logId), ("epoch", epoch),
    ("deployment_hash", .str hash), ("deployment_history", .list epochs),
    ("identities", .dict identities), ("endpoints", .dict endpoints), ("model_id", modelId),
    ("model_hashes", .dict [(modelId, modelHash)]), ("model_kind", ← p.item "model_kind"),
    ("model_name", ← p.item "model_name"), ("pre_exec", ← p.item "pre_exec"),
    ("strict_timeout_ms", ← p.item "strict_timeout_ms"), ("queue_capacity", .int 256),
    ("max_log_entries", ← p.item "max_log_entries"),
    ("retention_days", ← p.item "retention_days"),
    ("governance", .str "separately_provisioned_keys")]))

/-- `{i["kid"]: {"iss": ..., "public_key": ...} for r, i in identities.items() if r in "URM"}`. -/
def trustedOf (identities : List (Value × Value)) : Py Dict :=
  identities.foldlM (fun trusted x => do
    if ← isIn x.1 (.str "URM") then
      let kid ← x.2.item "kid"
      let iss ← x.2.item "iss"
      let publicKey ← x.2.item "public_key"
      if !kid.hashable then throw .typeError
      pure (insert trusted kid (.dict (fields [("iss", iss), ("public_key", publicKey)])))
    else pure trusted) []

/-- `policy_for(config)` on a configuration that is not checked field by field. -/
def policyOf (config : Value) : Py Value := do
  let identities ← items (← config.item "identities")
  let version ← config.get "epoch" (.int 1)
  let logId ← config.item "log_id"
  let trusted ← trustedOf identities
  let rights := otherRoles.foldl (fun d r => insert d (.str (issOf r)) (.ofStrings (typesOf r))) []
  let policy := fields [("profile", .str (profileVersion ++ "/policy")), ("version", version),
    ("ts_id", logId), ("ts_iss", .str (issOf .T)),
    ("allowed_content_types", .ofStrings allContentTypes), ("sub_pattern", .str subPatternText),
    ("trusted_keys", .dict trusted), ("issuer_content_types", .dict rights)]
  let hash ← config.get "deployment_hash" .null
  pure (.dict (if hash.truthy then insert policy (.str "deployment_hash") hash else policy))

/-- The identity of T in a configuration or in what was pinned from it. -/
def identityT (v : Value) : Py Value := do (← v.item "identities").item "T"

/-- `"urn:itx:policy:" + log_id`. -/
def policySub : Value → Py String
  | .str s => .ok ("urn:itx:policy:" ++ s)
  | _ => .error .typeError

/-- `trust_from_config(config)`. -/
def trustOf (config : Value) : Py Value := do
  let t ← identityT config
  let sub ← policySub (← config.item "log_id")
  let kid ← t.item "kid"
  let created ← config.item "created_at"
  let policy ← policyOf config
  let signed := fields [("iss", .str (issOf .T)), ("sub", .str sub),
    ("content_type", .str ctPolicy), ("kid", kid), ("issued_at", created), ("payload", policy)]
  let logId ← config.item "log_id"
  let identities ← config.item "identities"
  let policyHash ← contentHash K (.dict signed)
  let modelHashes ← config.item "model_hashes"
  let hash ← config.get "deployment_hash" .null
  pure (.dict (fields [("profile", .str "itx-audit-trust/1"), ("log_id", logId),
    ("identities", identities), ("policy_hash", .str policyHash),
    ("checker_version", .str checkerVersion), ("model_hashes", modelHashes),
    ("receipt_profile", .int 1), ("deployment_hash", hash)]))

/-- `verify_head(head, trust)` on trust that was pinned from an unchecked configuration. -/
def verifyHeadOf (head trust : Value) : Py Unit := do
  let t ← identityT trust
  match head with
  | .dict head => do
    let refused := "checkpoint does not match the pinned T identity"
    refuseIf (!hasExactly headKeys head) refused
    refuseIf (!(getOr head "log_id").eq (← trust.item "log_id")) refused
    refuseIf (!(getOr head "ts_kid").eq (← t.item "kid")) refused
    refuseIf (!(match getOr head "tree_size" with
      | .int n => decide (1 ≤ n ∧ n ≤ maxAuditEntries)
      | _ => false)) refused
    refuseIf (!isInt (getOr head "time")) refused
    let publicKey ← fromHexValue (← t.item "public_key")
    refuseIf (!(← verifyTreeHead K head publicKey)) refused
  | .list xs => throw (if xs.all Value.hashable &&
      !((xs.all fun x => memberOf x (texts headKeys)) &&
        headKeys.all fun k => memberOf (.str k) xs) then invalidCheckpoint else .typeError)
  | .str _ => throw invalidCheckpoint
  | _ => throw .typeError

/-- `MODEL_ID`. -/
def modelId : String := "itx-reference-v1"

/-- `MODEL_HASH`. -/
def modelHash : String :=
  contentHashHex K (utf8 "itx deterministic text reference model v1".toList)

/-- `low <= v <= high`. -/
def within (low high : Int) (v : Value) : Py Bool :=
  match number v with
  | some n => .ok (decide (low ≤ n ∧ n ≤ high))
  | none => .error .typeError

def isBool : Value → Bool
  | .bool _ => true
  | _ => false

/-- `set(v)`. -/
def setOf (v : Value) : Py (List Value) := do hashed (← v.iterate)

def subset (xs ys : List Value) : Bool := xs.all fun x => memberOf x ys

def sameSet (xs ys : List Value) : Bool := subset xs ys && subset ys xs

/-- `len(set(xs)) == len(xs)`. -/
def distinct (xs : List Value) : Py Bool := do
  let xs ← hashed xs
  pure (decide (xs.Pairwise fun x y => x.eq y = false))

def checkProposal (p : Value) : Py Unit := do
  let profile ← p.item "profile"
  refuseIf (!profile.eq (.str "itx-deployment/1")) "invalid deployment profile"
  let epoch ← p.item "epoch"
  refuseIf (!(match epoch with
    | .int n => decide (1 ≤ n)
    | _ => false)) "invalid deployment profile"
  let named ← setOf (← p.item "cards")
  refuseIf (!(subset (texts ["U", "R", "M", "T"]) named && subset named (texts roles)))
    "invalid deployment roles"
  let limits := "invalid deployment lifetime or limits"
  let _ ← lifetime limits p
  refuseIf (!isBool (← p.item "pre_exec")) limits
  refuseIf (!(← within 100 10000 (← p.item "strict_timeout_ms"))) limits
  refuseIf (!(← within 1 100000 (← p.item "max_log_entries"))) limits
  refuseIf (!(← within 1 3650 (← p.item "retention_days"))) limits

/-- One card of a proposal: of its own role, and not outlived by the proposal. -/
def checkCard (p : Value) (x : Value × Value) : Py Unit := do
  let body ← verifyCard K N x.2
  refuseIf (!(← body.item "role").eq x.1) "role substitution"
  let expires ← p.item "expires_at"
  let outlived ← greater expires (← (← x.2.item "body").item "expires_at")
  refuseIf outlived "deployment outlives an operator identity"

def checkCards (p : Value) : Py Unit := do
  let cards ← items (← p.item "cards")
  let _ ← cards.mapM (checkCard K N p)
  let keys ← cards.mapM fun x => do (← x.2.item "body").item "public_key"
  refuseIf (!(← distinct keys)) "roles share a signing key"
  let authorities ← (cards.filter fun x => !isU x.1).mapM fun x => do
    (← x.2.item "body").item "tls_ca"
  refuseIf (!(← distinct authorities)) "services must use separately scoped TLS authorities"

def checkModel (p : Value) : Py Unit := do
  let invalid := "invalid endorsed model agreement"
  let id ← p.item "model_id"
  refuseIf (!(match id with
    | .str s => s ≠ ""
    | _ => false)) invalid
  let hash ← p.item "model_hash"
  refuseIf ((← fromHexValue hash).length ≠ 32) invalid
  let kind ← p.item "model_kind"
  refuseIf (!memberOf kind (texts ["deterministic_mock", "ollama"])) invalid
  if kind.eq (.str "ollama") then do
    refuseIf (!(← p.item "model_name").truthy) invalid
    refuseIf (id.eq (.str modelId) || hash.eq (.str (modelHash K))) invalid
  else pure ()

/-- What ties a proposal to the one before it. -/
def checkSuccession (p previous : Value) : Py Unit := do
  let broken := "broken deployment history"
  let old ← previous.item "proposal"
  let previousHash ← p.item "previous_hash"
  refuseIf (!previousHash.eq (.str (← fingerprint K old))) broken
  let epoch ← p.item "epoch"
  match number (← old.item "epoch") with
  | none => throw .typeError
  | some n => do
    refuseIf (!epoch.eq (.int (n + 1))) broken
    let deployment ← p.item "deployment_id"
    refuseIf (!deployment.eq (← old.item "deployment_id")) broken
    let named ← setOf (← p.item "cards")
    refuseIf (!sameSet named (← setOf (← old.item "cards"))) broken
    let checkpoint ← p.item "previous_checkpoint"
    verifyHeadOf K checkpoint (← trustOf K (← configuration K previous))

def checkFirst (p : Value) : Py Unit := do
  refuseIf (← p.item "previous_hash").truthy "missing previous deployment"
  refuseIf (!(← p.item "epoch").eq (.int 1)) "missing previous deployment"

/-- `p["cards"][role]["body"]["public_key"]`, decoded. -/
def keyOf (p role : Value) : Py Bytes := do
  match ← p.item "cards" with
  | .dict cards => match ← lookup cards role with
    | some card => do fromHexValue (← (← card.item "body").item "public_key")
    | none => throw .keyError
  | _ => throw .typeError

def endorsementBody (role : Value) (hash : String) : Value :=
  .dict (fields [("profile", .str "itx-deployment-endorsement/1"), ("role", role),
    ("deployment_hash", .str hash)])

/-- `endorsement["previous_signature"] or "00"`. -/
def previousSignature (endorsement : Value) : Py Value := do
  let given ← endorsement.item "previous_signature"
  pure (if given.truthy then given else .str "00")

/-- A rotation is also signed with the key that the role had before. -/
def checkOldKey (previous endorsement role : Value) (encoded : Bytes) : Py Unit :=
  if previous.truthy then do
    let oldKey ← keyOf (← previous.item "proposal") role
    let signature ← fromHexValue (← previousSignature endorsement)
    refuseIf (!K.verify oldKey encoded signature) "rotation not authorized by the previous key"
  else pure ()

/-- One endorsement, after those of the roles in `received`. -/
def receive (p previous : Value) (received : List Value) (endorsement : Value) :
    Py (List Value) := do
  let body ← endorsement.item "body"
  let role ← body.item "role"
  let expected := endorsementBody role (← fingerprint K p)
  let repeated ← isIn role (.dict (received.map fun r => (r, .bool true)))
  refuseIf repeated "invalid or duplicate endorsement"
  refuseIf (!(← isIn role (← p.item "cards"))) "invalid or duplicate endorsement"
  refuseIf (!body.eq expected) "invalid or duplicate endorsement"
  let encoded ← canonicalJson expected
  let key ← keyOf p role
  let signature ← fromHexValue (← endorsement.item "signature")
  refuseIf (!K.verify key encoded signature) "invalid new-key endorsement"
  checkOldKey K previous endorsement role encoded
  pure (received ++ [role])

def checkEndorsements (bundle p previous : Value) : Py Unit := do
  let endorsements ← (← bundle.item "endorsements").iterate
  let received ← endorsements.foldlM (receive K p previous) []
  refuseIf (!sameSet received (← setOf (← p.item "cards")))
    "every operator must endorse the deployment"

/-- The epoch before is accepted and succeeded, or there is none. -/
def checkPrevious (verify : Value → Py String) (p previous : Value) : Py Unit :=
  if previous.truthy then do
    let _ ← verify previous
    checkSuccession K p previous
  else checkFirst p

/-- `verify_deployment(bundle, depth)`, with the levels that are left. -/
def verifyLevels : Nat → Value → Py String
  | 0, _ => .error (.valueError "deployment history is too deep")
  | levels + 1, bundle => do
    let p ← bundle.item "proposal"
    checkProposal p
    checkCards K N p
    checkModel K p
    let previous ← bundle.item "previous"
    checkPrevious K (verifyLevels levels) p previous
    checkEndorsements K bundle p previous
    fingerprint K p

/-- `verify_deployment(bundle)`: depths 0 to 32 are allowed. -/
def verifyDeployment (bundle : Value) : Py String := verifyLevels K N 33 bundle

end Enrollment
