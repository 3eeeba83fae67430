import Custody.Configuration
import Custody.DirectoryTree

/-!
# Activating an epoch

An operator who has reviewed an endorsed deployment writes a directory for the new epoch,
retires the epoch before it and then points `active.json` at the new one. The disk is an
explicit state, and what was written before an error stays written. The parents of a
written file are there already, as a file beside it was read or the directory was made.
-/

namespace Activation

open PyValue HexBytes CanonicalJson Commitments Statements Schemas TransparencyLog ReplayAudit
  Identity Auditing Enrollment Configuration Effects DirectoryTree

/-- A file, by the JSON that it holds or by its bytes. -/
inductive Content where
  | json (v : Value)
  | bytes (b : Bytes)

abbrev Disk := DirectoryTree.Tree Content

/-- An exception of the program, or one of the operating system. -/
inductive Failure where
  | raised (e : PyErr)
  | os

abbrev Act := EStateM Failure Disk

/-- What the disk answers. -/
abbrev Ask (A : Type) := Except Failure A

/-- How the host writes paths and limits documents. -/
structure Host where
  /-- `str(path)`. -/
  text : Path → String
  /-- More bytes than `MAX_AUDIT_BYTES * 2`. -/
  tooLarge : Content → Bool
  /-- Paths in a configuration of a directory, and the documents at them. -/
  files : Disk → Path → Files

/-- A call of `activate`; both times come from `now_ms()`. -/
structure Call where
  directory : Path
  bundle : Value
  expectedFingerprint : String
  bind : String
  modelEndpoint : Option String
  previousConfig : Option Path
  now : Int
  retiredAt : Int

def py {A : Type} (x : Py A) : Ask A := x.mapError .raised

def refuse {A : Type} (message : String) : Ask A := .error (.raised (.valueError message))

def readFile (disk : Disk) (path : Path) : Ask Content :=
  match contentAt disk path with
  | some c => .ok c
  | none => .error .os

/-- `read_document(path)`. -/
def readDocumentAt (host : Host) (disk : Disk) (path : Path) : Ask Value := do
  let held ← readFile disk path
  if host.tooLarge held then refuse "document exceeds the local size limit"
  else match held with
    | .json v => py (jsonLoads v)
    | .bytes _ => refuse "not a JSON document"

/-- `b"POSIX\0"`. -/
def posix : Bytes := [80, 79, 83, 73, 88, 0]

/-- `seal(data)`. -/
def sealData (data : Bytes) : Bytes := posix ++ data

/-- `unseal(data)`; no JSON text starts with the mark. -/
def unsealData : Content → Ask Bytes
  | .bytes b => if posix.isPrefixOf b then .ok (b.drop 6) else
    refuse "secret belongs to another OS account"
  | .json _ => refuse "secret belongs to another OS account"

variable (K : Primitives) (N : Network) (host : Host)

/-- `KeyPair.from_seed`, when its public key is the text expected. -/
def ownKey (kid publicKey : Py Value) (seed : Bytes) (message : String) : Ask Bytes := do
  let _ ← py kid
  if seed.length ≠ 32 then refuse "seed must be 32 bytes"
  else do
    let expected ← py publicKey
    if expected.eq (.str (hex (K.publicKey seed))) then pure seed else refuse message

/-- `operator_key(directory)`: the card and the seed of its key. -/
def operatorKey (disk : Disk) (directory : Path) : Ask (Value × Bytes) := do
  let card ← readDocumentAt host disk (directory ++ ["operator.json"])
  let body ← py (verifyCard K N card)
  let stored ← readFile disk (directory ++ ["operator.key"])
  let seed ← unsealData stored
  let seed ← ownKey K (body.item "kid") (body.item "public_key") seed
    "local operator key does not match public card"
  pure (card, seed)

/-- `load_config(path)`. -/
def loadConfigAt (disk : Disk) (path : Path) : Ask Value := do
  match ← readFile disk path with
  | .json v => py (loadConfig K N (host.files disk path.dropLast) (host.text path)
      (host.text path.dropLast) v)
  | .bytes _ => refuse "not a JSON document"

/-- `key_for(config)` of a configuration in this directory: the seed of the key. -/
def keyForAt (disk : Disk) (directory : Path) (config : Value) : Ask Bytes := do
  let role ← py (config.item "role")
  let stored ← readFile disk (directory ++ ["identity.key"])
  let seed ← unsealData stored
  let info : Py Value := do
    match ← config.item "identities" with
    | .dict identities => match ← lookup identities role with
      | some info => pure info
      | none => throw .keyError
    | _ => throw .typeError
  ownKey K (info >>= (·.item "kid")) (info >>= (·.item "public_key")) seed
    "local key does not match pinned identity"

/-- The new epoch, the operator, and the epoch before with its directory. -/
structure Checked where
  actual : String
  card : Value
  role : Value
  seed : Bytes
  previous : Option (Path × Value)

def activePath (call : Call) : Path := call.directory ++ ["active.json"]

def pointerPath (call : Call) : Path := call.directory ++ ["active.tmp"]

def targetPath (call : Call) (actual : String) : Path := call.directory ++ ["epochs", actual]

def retirementPath (directory : Path) : Path := directory ++ ["retirement.json"]

/-- `bundle["proposal"]["cards"].get(role) == card`. -/
def bindsOperator (p role card : Value) : Py Bool := do
  let cards ← items (← p.item "cards")
  match ← lookup cards role with
  | some given => pure (given.eq card)
  | none => pure false

def usesOllama (role kind : Value) : Bool := role.eq (.str "M") && kind.eq (.str "ollama")

/-- The configuration of the epoch before, which the proposal names. -/
def checkPreviousConfig (disk : Disk) (call : Call) (role previousHash : Value) :
    Ask (Option (Path × Value)) :=
  if previousHash.truthy then
    match call.previousConfig with
    | none => refuse "rotation activation requires the local previous configuration"
    | some path => do
      let old ← loadConfigAt K N host disk path
      let oldRole ← py (old.item "role")
      let oldHash ← py (old.get "deployment_hash" .null)
      if oldRole.eq role && oldHash.eq previousHash then pure (some (path.dropLast, old))
      else refuse "previous local role or deployment does not match"
  else pure none

def check (call : Call) (disk : Disk) : Ask Checked := do
  let actual ← py (verifyDeployment K N call.bundle)
  let _ ← py (refuseIf (actual ≠ call.expectedFingerprint)
    "deployment fingerprint differs from the independently reviewed value")
  let (card, seed) ← operatorKey K N host disk call.directory
  let role ← py (do (← card.item "body").item "role")
  let p ← py (call.bundle.item "proposal")
  let binds ← py (bindsOperator p role card)
  let expired ← py (do less true (← p.item "expires_at") (.int call.now))
  let _ ← py (refuseIf (!binds || expired)
    "deployment is expired or does not bind this local operator")
  let kind ← py (p.item "model_kind")
  let _ ← py (refuseIf (usesOllama role kind && call.modelEndpoint.getD "" = "")
    "M must configure its local Ollama endpoint")
  let previousHash ← py (p.item "previous_hash")
  let previous ← checkPreviousConfig K N host disk call role previousHash
  pure { actual, card, role, seed, previous }

/-- What `active.json` says: the same epoch is left alone, and only the epoch before is replaced. -/
def currentEpoch (call : Call) (actual : String) (disk : Disk) : Ask (Option Value) :=
  match disk (activePath call) with
  | none => .ok none
  | some _ => do
    let active ← readDocumentAt host disk (activePath call)
    let hash ← py (active.item "deployment_hash")
    if hash.eq (.str actual) then pure (some active)
    else do
      let previousHash ← py (do (← call.bundle.item "proposal").item "previous_hash")
      if hash.eq previousHash then pure none
      else refuse "cannot silently replace an established deployment lineage"

def ask {A : Type} (f : Disk → Ask A) : Act A := reading f

def give {A : Type} (x : Ask A) : Act A := reading fun _ => x

/-- `target.mkdir(parents=True)`. -/
def makeTarget (call : Call) (actual : String) : Act Unit := do
  ensureDir .os (call.directory ++ ["epochs"])
  makeDir .os (targetPath call actual)

/-- `endpoint_url(card["body"]["endpoint"]).port if role != "U" else 0`. -/
def localPort (role card : Value) : Py Value :=
  if isU role then pure (.int 0)
  else do
    let (_, port) ← endpointUrl N (← endpointOf card)
    pure (.int port)

/-- The configuration before its local files are named. -/
def localConfig (call : Call) (role card : Value) : Py Dict := do
  let d ← items (← configuration K call.bundle)
  let port ← localPort N role card
  pure ([("role", role), ("bind", .str call.bind), ("port", port), ("ca_file", .str "ca-T.pem"),
    ("ca_files", .dict []), ("deployment_file", .str "deployment.json")].foldl
      (fun d x => insert d (.str x.1) x.2) d)

def authorityName (peer : Value) : String := "ca-" ++ text K peer ++ ".pem"

/-- One step of the loop over the cards: the authority of a service is copied. -/
def writeAuthority (target : Path) (x : Value × Value) : Act Unit :=
  if isU x.1 then pure ()
  else do
    let pem ← give (py (do textOf (← (← x.2.item "body").item "tls_ca")))
    create .os (target ++ [authorityName K x.1]) (.bytes (utf8 pem.toList))

/-- What the loop over the cards puts under `ca_files`. -/
def authorityFiles (cards : Dict) : Dict :=
  (cards.filter fun x => !isU x.1).foldl
    (fun d x => insert d x.1 (.str (authorityName K x.1))) []

def copyFile (directory target : Path) (name : String) : Act Unit := do
  let held ← ask fun disk => readFile disk (directory ++ [name])
  create .os (target ++ [name]) held

def tlsFiles : List String := ["tls.key", "tls.password", "tls.pem"]

/-- The service of a role that listens. -/
def writeService (call : Call) (target : Path) (role : Value) (cfg : Dict) : Act Dict :=
  if isU role then pure cfg
  else do
    tlsFiles.forM (copyFile call.directory target)
    pure ([("tls_cert", "tls.pem"), ("tls_key", "tls.key"),
      ("tls_password_file", "tls.password")].foldl
      (fun d x => insert d (.str x.1) (.str x.2)) cfg)

/-- The endpoint of a model that runs locally. -/
def withModelEndpoint (call : Call) (role : Value) (cfg : Dict) : Dict :=
  if usesOllama role (getOr cfg "model_kind") then
    insert cfg (.str "model_endpoint") (.str (call.modelEndpoint.getD ""))
  else cfg

/-- The directory of the epoch, up to the key of the epoch before. -/
def prepare (call : Call) (c : Checked) : Act (Dict × Option (Path × Value × Bytes)) := do
  let target := targetPath call c.actual
  let there ← ask fun disk => .ok (disk target).isSome
  let _ ← give (py (refuseIf there
    "epoch directory already exists; inspect the interrupted activation"))
  makeTarget call c.actual
  let cfg ← give (py (localConfig K N call c.role c.card))
  let cards ← give (py (do items (← (← call.bundle.item "proposal").item "cards")))
  cards.forM (writeAuthority K target)
  let cfg := insert cfg (.str "ca_files") (.dict (authorityFiles K cards))
  create .os (target ++ ["identity.key"]) (.bytes (sealData c.seed))
  let cfg ← writeService call target c.role cfg
  let cfg := withModelEndpoint call c.role cfg
  create .os (target ++ ["deployment.json"]) (.json call.bundle)
  create .os (target ++ ["config.json"]) (.json (.dict cfg))
  match c.previous with
  | none => pure (cfg, none)
  | some (directory, old) => do
    let seed ← ask fun disk => keyForAt K disk directory old
    pure (cfg, some (directory, old, seed))

def retirementBody (call : Call) (c : Checked) (old : Value) : Py Value := do
  pure (.dict (fields [("profile", .str "itx-retirement/1"),
    ("deployment_hash", ← old.item "deployment_hash"), ("role", c.role),
    ("successor_hash", .str c.actual), ("retired_at", .int call.retiredAt)]))

/-- `read_document(retirement)["body"]["successor_hash"]`. -/
def successorOf (disk : Disk) (directory : Path) : Ask Value := do
  let record ← readDocumentAt host disk (retirementPath directory)
  py (do (← record.item "body").item "successor_hash")

/-- The record of retirement, unless there is one of the same successor. -/
def writeRetirement (call : Call) (c : Checked) (directory : Path) (old : Value) (seed : Bytes) :
    Act Unit := do
  let body ← give (py (retirementBody call c old))
  let there ← ask fun disk => .ok (disk (retirementPath directory)).isSome
  if there then do
    let successor ← ask fun disk => successorOf host disk directory
    let _ ← give (py (refuseIf (!successor.eq (.str c.actual))
      "previous epoch was already retired to another successor"))
  else do
    let encoded ← give (py (canonicalJson body))
    create .os (retirementPath directory) (.json (.dict (fields [("body", body),
      ("signature", .str (hex (K.sign seed encoded)))])))

def retire (call : Call) (c : Checked) (previous : Option (Path × Value × Bytes)) : Act Unit :=
  match previous with
  | none => pure ()
  | some (directory, old, seed) => writeRetirement K host call c directory old seed

/-- What the call returns and `active.json` holds. -/
def activated (call : Call) (c : Checked) (epoch : Value) : Value :=
  .dict (fields [("deployment_hash", .str c.actual),
    ("config_path", .str (host.text (targetPath call c.actual ++ ["config.json"]))),
    ("epoch", epoch)])

/-- The pointer to the new epoch is written beside the old one and renamed. -/
def point (call : Call) (c : Checked) (cfg : Dict) : Act Value := do
  let epoch ← give (py (getItem cfg "epoch"))
  let result := activated host call c epoch
  let there ← ask fun disk => .ok (disk (pointerPath call)).isSome
  let _ ← give (py (refuseIf there "unfinished activation metadata exists"))
  create .os (pointerPath call) (.json result)
  replace .os (pointerPath call) (activePath call)
  pure result

/-- The rest of a call that does not find the epoch active already. -/
def switch (call : Call) (c : Checked) : Act Value := do
  let (cfg, previous) ← prepare K N call c
  retire K host call c previous
  point host call c cfg

/-- `{**active, "unchanged": True}`. -/
def unchanged (active : Value) : Py Value := do
  pure (.dict (insert (← items active) (.str "unchanged") (.bool true)))

/-- `activate(directory, bundle, expected_fingerprint, ...)`. -/
def activate (call : Call) : Act Value := do
  let c ← ask (check K N host call)
  let current ← ask (currentEpoch host call c.actual)
  match current with
  | some active => give (py (unchanged active))
  | none => switch K N host call c

/-- `assert_active(config)` for a configuration of this directory. -/
def assertActive (directory : Path) (disk : Disk) : Ask Unit :=
  py (refuseIf (disk (retirementPath directory)).isSome
    "이전 배포 세대가 폐기되었습니다. 승인된 새 설정으로 전환하세요.")

end Activation
