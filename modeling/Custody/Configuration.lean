import Custody.Enrollment

/-!
# Loading a configuration

Every process of a role reads its configuration from a file, checks the pinned
identities and, when the file names one, compares itself with the endorsed deployment.
How a path is resolved and what its file holds are parameters.
-/

namespace Configuration

open PyValue HexBytes CanonicalJson Commitments Statements Schemas TransparencyLog ReplayAudit
  Identity Auditing Enrollment

structure Files where
  /-- `str((path.parent / name).resolve())`. -/
  resolve : String → String
  /-- The JSON that the file at a path holds; a repeated key is refused. -/
  document : Value → Py Value

variable (K : Primitives) (N : Network) (files : Files)

/-- `json_loads` after the text is read: what `canonical_json` does not take is refused. -/
def jsonLoads (v : Value) : Py Value := do
  let _ ← canonicalJson v
  pure v

/-- `read_document(path)`. -/
def readDocument (path : Value) : Py Value := do jsonLoads (← files.document path)

def pathFields : List String :=
  ["ca_file", "tls_cert", "tls_key", "tls_password_file", "deployment_file"]

def resolvePath : Value → Py Value
  | .str name => .ok (.str (files.resolve name))
  | _ => .error .typeError

/-- `if field in config: config[field] = ...`. -/
def resolveField (config : Dict) (field : String) : Py Dict :=
  match find config (.str field) with
  | none => .ok config
  | some v => do pure (insert config (.str field) (← resolvePath files v))

/-- `config["ca_files"] = {r: ... for r, p in config.get("ca_files", {}).items()}`. -/
def resolveAuthorities (config : Dict) : Py Dict := do
  let given ← items ((find config (.str "ca_files")).getD (.dict []))
  let resolved ← given.mapM fun x => do pure (x.1, ← resolvePath files x.2)
  pure (insert config (.str "ca_files") (.dict resolved))

/-- `ISS`, by name. -/
def parties : List String := ["U", "R", "M", "T"]

def identityIn (config : Dict) (role : String) : Py Value := do
  (← getItem config "identities").item role

/-- The pinned name and key of one role. -/
def checkPinned (config : Dict) (role : String) : Py Unit := do
  let info ← identityIn config role
  refuseIf (!(← info.item "iss").eq (.str (partyOf role))) "잘못된 신뢰 키 설정입니다."
  refuseIf ((← fromHexValue (← info.item "public_key")).length ≠ 32) "잘못된 신뢰 키 설정입니다."

/-- `len({config["identities"][r][name] for r in ISS}) == 4`. -/
def differ (config : Dict) (name : String) : Py Bool := do
  distinct (← parties.mapM fun r => do (← identityIn config r).item name)

def checkSeparate (config : Dict) : Py Unit := do
  refuseIf (!(← differ config "kid")) "역할별 키는 서로 달라야 합니다."
  refuseIf (!(← differ config "public_key")) "역할별 키는 서로 달라야 합니다."

def checkPeriod (config : Dict) : Py Unit := do
  refuseIf (!(match getOr config "strict_timeout_ms" with
    | .int n => decide (100 ≤ n ∧ n ≤ 10000)
    | _ => false)) "strict 대기 시간은 100~10,000 ms 정수여야 합니다."
  match getOr config "policy_expires_at", getOr config "created_at" with
  | .int expires, .int created =>
    refuseIf (expires ≤ created || !isBool (getOr config "lab"))
      "정책 기간 또는 실험 구분이 잘못되었습니다."
  | _, _ => throw (.valueError "정책 시각은 정수여야 합니다.")

/-- The configuration says of every field what the endorsed deployment says. -/
def checkDeployment (config : Dict) : Py Unit :=
  if (getOr config "deployment_file").truthy then do
    let bundle ← readDocument files (getOr config "deployment_file")
    let _ ← verifyDeployment K N bundle
    let endorsed ← items (← configuration K bundle)
    refuseIf (endorsed.any fun x => !((find config x.1).getD .null).eq x.2)
      "local configuration differs from the endorsed deployment"
  else pure ()

/-- What is checked once the paths are resolved. -/
def checkConfig (config : Dict) : Py Unit := do
  let _ ← parties.mapM (checkPinned config)
  checkSeparate config
  checkPeriod config
  checkDeployment K N files config

/-- `load_config(path)` on what its file holds. -/
def loadConfig (path directory : String) (held : Value) : Py Value := do
  let raw ← jsonLoads held
  let version ← raw.get "version" .null
  let role ← raw.get "role" .null
  refuseIf (!version.eq (.int 1) || !memberOf role (texts roles)) "지원하지 않는 연결 설정입니다."
  let config ← items raw
  let placed := insert (insert config (.str "config_path") (.str path)) (.str "directory")
    (.str directory)
  let resolved ← pathFields.foldlM (resolveField files) placed
  let config ← resolveAuthorities files resolved
  checkConfig K N files config
  pure (.dict config)

end Configuration
