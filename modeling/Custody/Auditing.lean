import Custody.CanonicalForm
import Custody.Identity
import Custody.ReplayAudit

/-!
# What an auditor pins

An auditor does not learn from an export whom to trust. The identities, the log
and the hash of its policy are pinned beforehand, and a checkpoint counts only
under the pinned key.
-/

namespace Auditing

open PyValue HexBytes CanonicalJson Commitments Statements Schemas Engine TransparencyLog
  ReplayAudit Identity

variable (K : Primitives)

/-- `MAX_AUDIT_ENTRIES`. -/
def maxAuditEntries : Int := 100000

/-- `fingerprint(value)`. -/
def fingerprint (value : Value) : Py String := contentHash K value

structure Trust where
  logId : String
  identities : Role → IdentityInfo
  policyHash : String
  checkerVersion : Value
  modelHashes : Dict
  receiptProfile : Value
  deploymentHash : Value

/-- The policy statement that the configuration determines. -/
def policyStatementOf (config : Config) : SignedStatement :=
  { iss := .str (issOf .T), sub := .str ("urn:itx:policy:" ++ config.logId),
    contentType := .str ctPolicy, kid := .str (config.identities .T).kid,
    issuedAt := config.createdAt, payload := policyFor config, signature := .str "" }

/-- `trust_from_config(config)`. -/
def trustFromConfig (config : Config) : Py Trust := do
  let policyHash ← (policyStatementOf config).statementHash K
  pure { logId := config.logId, identities := config.identities, policyHash,
         checkerVersion := .str checkerVersion, modelHashes := config.modelHashes,
         receiptProfile := .int 1,
         deploymentHash := (config.deploymentHash.map Value.str).getD .null }

def headKeys : List String :=
  ["log_id", "tree_size", "root_hash", "time", "ts_kid", "signature"]

def invalidCheckpoint : PyErr := .valueError "checkpoint does not match the pinned T identity"

/-- The signed fields are those of the pinned log, and in range. -/
def headMatches (trust : Trust) (head : Dict) : Bool :=
  hasExactly headKeys head && (getOr head "log_id").eq (.str trust.logId) &&
  (getOr head "ts_kid").eq (.str (trust.identities .T).kid) &&
  (match getOr head "tree_size" with
    | .int n => decide (1 ≤ n ∧ n ≤ maxAuditEntries)
    | _ => false) &&
  isInt (getOr head "time")

/-- `verify_head(head, trust)`. -/
def verifyHead (trust : Trust) : Value → Py Unit
  | .dict head =>
    if !headMatches trust head then .error invalidCheckpoint
    else do
      let publicKey ← fromHexValue (.str (trust.identities .T).publicKey)
      if ← verifyTreeHead K head publicKey then pure () else throw invalidCheckpoint
  | .str _ => .error invalidCheckpoint
  | .list xs =>
    -- a list of exactly the field names passes for the set of keys and then has no fields
    .error (if xs.all Value.hashable && !((xs.all fun x => memberOf x (texts headKeys)) &&
      headKeys.all fun k => memberOf (.str k) xs) then invalidCheckpoint else .typeError)
  | _ => .error .typeError

variable {K}

/-- The checkpoint of a size and a root text, as its fields say. -/
structure HeadFields (trust : Trust) (head : Dict) (n : Nat) : Prop where
  size : getOr head "tree_size" = .int n
  positive : 0 < n
  log : getOr head "log_id" = .str trust.logId
  kid : getOr head "ts_kid" = .str (trust.identities .T).kid
  time : ∃ t, getOr head "time" = .int t
  complete : ∀ k ∈ headKeys, hasKey head k = true

theorem verifyHead_fields {trust : Trust} {v : Value} (accepted : verifyHead K trust v = .ok ()) :
    ∃ head n, v = .dict head ∧ HeadFields trust head n ∧
      ∃ publicKey, fromHexValue (.str (trust.identities .T).publicKey) = .ok publicKey ∧
        verifyTreeHead K head publicKey = .ok true := by
  cases v with
  | dict head =>
    rw [verifyHead] at accepted
    by_cases fits : headMatches trust head = true
    · simp only [fits, Bool.not_true, Bool.false_eq_true, if_false] at accepted
      obtain ⟨publicKey, decoded, accepted⟩ := bind_ok.mp accepted
      obtain ⟨valid, verified, accepted⟩ := bind_ok.mp accepted
      have signed : valid = true := by
        cases valid with
        | true => rfl
        | false => cases accepted
      simp only [headMatches, Bool.and_eq_true] at fits
      obtain ⟨⟨⟨⟨keys, log⟩, kid⟩, range⟩, timed⟩ := fits
      obtain ⟨n, sized, low⟩ : ∃ n : Int, getOr head "tree_size" = .int n ∧ 1 ≤ n := by
        cases given : getOr head "tree_size" with
        | int n =>
          rw [given] at range
          exact ⟨n, rfl, (of_decide_eq_true range).1⟩
        | _ =>
          rw [given] at range
          cases range
      obtain ⟨t, time⟩ : ∃ t, getOr head "time" = .int t := by
        cases given : getOr head "time" with
        | int t => exact ⟨t, rfl⟩
        | _ =>
          rw [given] at timed
          cases timed
      rw [hasExactly, Bool.and_eq_true, List.all_eq_true, List.all_eq_true] at keys
      refine ⟨head, n.toNat, rfl, ⟨?_, by omega, (eq_str_right _ _).mp log,
        (eq_str_right _ _).mp kid, ⟨t, time⟩, keys.2⟩, publicKey, decoded, signed ▸ verified⟩
      rw [sized]
      congr 1
      omega
    · simp [fits] at accepted
  | str s => cases accepted
  | list xs => cases accepted
  | _ => cases accepted

def sampleIdentity (role : Role) (kid : String) (seed : Bytes) : IdentityInfo :=
  { iss := issOf role, kid, publicKey := hex seed }

def sampleConfig : Config :=
  { identities := fun role => match role with
      | .U => sampleIdentity .U "kid-u" [1]
      | .R => sampleIdentity .R "kid-r" [2]
      | .M => sampleIdentity .M "kid-m" [3]
      | .T => sampleIdentity .T "kid-t" [4]
    logId := "log", createdAt := 0, modelHashes := [] }

end Auditing
