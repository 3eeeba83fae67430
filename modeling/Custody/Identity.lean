import Custody.TransparencyLog

/-!
# Pinned identities

The roles of a deployment, the statement types each may sign, the registration
policy made from them, and the check a received statement must pass.
-/

namespace Identity

open PyValue HexBytes CanonicalJson Commitments Statements Schemas TransparencyLog

inductive Role where
  | U
  | R
  | M
  | T
  deriving DecidableEq

/-- `ISS`. -/
def issOf : Role → String
  | .U => "urn:itx:party:u"
  | .R => "urn:itx:party:r"
  | .M => "urn:itx:party:m"
  | .T => "urn:itx:party:t"

/-- `TYPES`. -/
def typesOf : Role → List String
  | .U => [ctContract, ctObservation]
  | .R => [ctRelay]
  | .M => [ctReceipt]
  | .T => [ctVerdict]

structure IdentityInfo where
  iss : String
  kid : String
  publicKey : String

/-- What a deployment pins; the fields that only other operations read are left out. -/
structure Config where
  identities : Role → IdentityInfo
  logId : String
  createdAt : Int
  epoch : Int := 1
  deploymentHash : Option String := none
  modelHashes : Dict
  maxLogEntries : Nat := 100000
  policyExpiresAt : Int := 0

variable (K : Primitives)

/-- `key_for`: the local key, when it is the pinned one. -/
def keyFor (config : Config) (role : Role) (seed : Bytes) : Py KeyPair :=
  let key : KeyPair := { kid := (config.identities role).kid, seed }
  if key.publicHex K = (config.identities role).publicKey then .ok key
  else .error (.valueError "local key does not match pinned identity")

def subPatternText : String := "^urn:itx:(req|policy):[0-9a-zA-Z:-]+$"

def otherRoles : List Role := [.U, .R, .M]

/-- `policy_for`. -/
def policyFor (config : Config) : Dict :=
  let trusted := otherRoles.foldl (fun d r =>
    insert d (.str (config.identities r).kid)
      (.dict (fields [("iss", .str (config.identities r).iss),
        ("public_key", .str (config.identities r).publicKey)]))) []
  let rights := otherRoles.foldl (fun d r => insert d (.str (issOf r)) (.ofStrings (typesOf r))) []
  let policy := policyPayload config.epoch config.logId (issOf .T) allContentTypes subPatternText
    trusted rights
  match config.deploymentHash with
  | some hash => if hash = "" then policy else insert policy (.str "deployment_hash") (.str hash)
  | none => policy

def envelopeKeys : List String :=
  ["iss", "sub", "content_type", "kid", "issued_at", "payload", "signature"]

/-- `set(d) == {...}`. -/
def hasExactly (names : List String) (d : Dict) : Bool :=
  d.all (fun x => memberOf x.1 (texts names)) && names.all (hasKey d)

def isInt : Value → Bool
  | .int _ => true
  | _ => false

def isDict : Value → Bool
  | .dict _ => true
  | _ => false

/-- Name, key, type and request are the ones expected of the role. -/
def bound (config : Config) (role : Role) (ct : Value) (sub : Option Value) (s : SignedStatement) :
    Bool :=
  s.iss.eq (.str (config.identities role).iss) && s.kid.eq (.str (config.identities role).kid) &&
  s.contentType.eq ct && memberOf ct (texts (typesOf role)) &&
  (match sub with
    | some v => s.sub.eq v
    | none => true)

def checkSigned (config : Config) (role : Role) (s : SignedStatement) : Py SignedStatement := do
  let publicKey ← fromHexValue (.str (config.identities role).publicKey)
  let valid ← s.verifyWith K publicKey
  if !valid then throw (.valueError "statement signature is invalid")
  else do
    let errors ← validatePayload K s.contentType s.payload
    if !errors.isEmpty then throw (.valueError "statement schema is invalid")
    else pure s

/-- `authenticate(config, data, role, ct, sub)`. -/
def authenticate (config : Config) (data : Value) (role : Role) (ct : Value)
    (sub : Option Value) : Py SignedStatement :=
  match data with
  | .dict d =>
    if !hasExactly envelopeKeys d then .error (.valueError "invalid statement envelope")
    else if !isInt (getOr d "issued_at") || !isDict (getOr d "payload") then
      .error (.valueError "invalid statement types")
    else do
      let s ← SignedStatement.fromDict data
      if !bound config role ct sub s then
        throw (.valueError "statement issuer, role, type or request binding is invalid")
      else checkSigned K config role s
  | _ => .error (.valueError "invalid statement envelope")

variable {K}

theorem checkSigned_ok {config : Config} {role : Role} {s t : SignedStatement}
    (h : checkSigned K config role s = .ok t) : t = s ∧
      validatePayload K s.contentType s.payload = .ok [] ∧
      ∃ publicKey, fromHexValue (.str (config.identities role).publicKey) = .ok publicKey ∧
        s.verifyWith K publicKey = .ok true := by
  obtain ⟨publicKey, key, h⟩ := bind_ok.mp h
  obtain ⟨valid, verified, h⟩ := bind_ok.mp h
  cases valid with
  | false => cases h
  | true =>
    obtain ⟨errors, schema, h⟩ := bind_ok.mp h
    cases errors with
    | nil => exact ⟨(Except.ok.inj h).symm, schema, publicKey, key, verified⟩
    | cons e rest => cases h

/-- What an authenticated statement is known to be. -/
structure Authentic (K : Primitives) (config : Config) (role : Role) (ct : Value)
    (sub : Option Value) (s : SignedStatement) : Prop where
  iss : s.iss = .str (config.identities role).iss
  kid : s.kid = .str (config.identities role).kid
  type : ∃ name ∈ typesOf role, ct = .str name ∧ s.contentType = .str name
  request : ∀ v, sub = some v → s.sub.eq v = true
  valid : validatePayload K s.contentType s.payload = .ok []
  signed : ∃ publicKey, fromHexValue (.str (config.identities role).publicKey) = .ok publicKey ∧
    s.verifyWith K publicKey = .ok true

theorem authenticate_read {config : Config} {data ct : Value} {role : Role} {sub : Option Value}
    {s : SignedStatement} (h : authenticate K config data role ct sub = .ok s) :
    SignedStatement.fromDict data = .ok s := by
  cases data with
  | dict d =>
    rw [authenticate] at h
    split at h
    next => cases h
    next =>
      split at h
      next => cases h
      next =>
        obtain ⟨t, read, h⟩ := bind_ok.mp h
        split at h
        next => cases h
        next =>
          obtain ⟨rfl, -⟩ := checkSigned_ok h
          exact read
  | _ => cases h

theorem authentic_of {config : Config} {data ct : Value} {role : Role} {sub : Option Value}
    {s : SignedStatement} (h : authenticate K config data role ct sub = .ok s) :
    Authentic K config role ct sub s := by
  cases data with
  | dict d =>
    simp only [authenticate] at h
    split at h
    · cases h
    · split at h
      · cases h
      · obtain ⟨t, -, h⟩ := bind_ok.mp h
        by_cases named : bound config role ct sub t = true
        · simp only [named, Bool.not_true, Bool.false_eq_true, if_false] at h
          obtain ⟨rfl, valid, signed⟩ := checkSigned_ok h
          simp only [bound, Bool.and_eq_true] at named
          obtain ⟨⟨⟨⟨iss, kid⟩, type⟩, entitled⟩, request⟩ := named
          have listed : ∃ name ∈ typesOf role, ct = .str name := by
            simpa [memberOf, texts] using entitled
          obtain ⟨name, member, rfl⟩ := listed
          refine ⟨(eq_str_right _ _).mp iss, (eq_str_right _ _).mp kid,
            ⟨name, member, rfl, (eq_str_right _ _).mp type⟩, ?_, valid, signed⟩
          rintro v rfl
          exact request
        · simp [named] at h
  | _ => cases h

end Identity
