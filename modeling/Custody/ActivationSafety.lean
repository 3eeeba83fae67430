import Custody.Activation
import Custody.LoadableEpochs

/-!
# What an activation leaves behind

Everything up to the key of the epoch before keeps the three paths that matter: the
retirement records, the active pointer and its temporary copy. After that an activation
writes the record first and looks for a leftover temporary pointer second.
-/

namespace ActivationSafety

open PyValue HexBytes CanonicalJson CanonicalForm Commitments Statements Schemas TransparencyLog
  ReplayAudit Identity Auditing RegisteredEvidence PassedVerdict Enrollment Configuration Lineage
  LineageSoundness LoadableEpochs Effects DirectoryTree Activation

variable {K : Primitives} {N : Network} {host : Host}

/-- A question reads the disk and leaves it. -/
theorem ask_bind {A B : Type} (f : Disk → Ask A) (g : A → Act B) (disk : Disk) :
    (ask f >>= g) disk = match f disk with
      | .ok a => g a disk
      | .error e => .error e disk := by
  change EStateM.bind (ask f) g disk = _
  rw [EStateM.bind, ask, reading]
  cases f disk with
  | ok a => rfl
  | error e => rfl

theorem give_bind {A B : Type} (x : Ask A) (g : A → Act B) (disk : Disk) :
    (give x >>= g) disk = match x with
      | .ok a => g a disk
      | .error e => .error e disk :=
  ask_bind (fun _ => x) g disk

/-- A step that raises keeps what the steps before it did to the disk. -/
theorem act_bind {A B : Type} (x : Act A) (g : A → Act B) (disk : Disk) :
    (x >>= g) disk = match x disk with
      | .ok a disk' => g a disk'
      | .error e disk' => .error e disk' := by
  change EStateM.bind x g disk = _
  rw [EStateM.bind]
  cases x disk with
  | ok a disk' => rfl
  | error e disk' => rfl

theorem ask_ok {A B : Type} {x : Ask A} {f : A → Ask B} {b : B} :
    (x >>= f) = .ok b ↔ ∃ a, x = .ok a ∧ f a = .ok b := by
  cases x with
  | error e => simp [bind, Except.bind]
  | ok a => simp [bind, Except.bind]

theorem py_ok {A : Type} {x : Py A} {a : A} : py x = .ok a ↔ x = .ok a := by
  cases x with
  | error e => simp [py, Except.mapError]
  | ok b => simp [py, Except.mapError]

/-- The records of retirement, the pointer and its temporary copy. -/
def Guarded (call : Call) (path : Path) : Prop :=
  path.getLast? = some "retirement.json" ∨ path = activePath call ∨ path = pointerPath call

theorem guarded_retirement (call : Call) (directory : Path) :
    Guarded call (retirementPath directory) := by
  refine Or.inl ?_
  rw [retirementPath, List.getLast?_concat]

theorem not_guarded_epochs (call : Call) : ¬ Guarded call (call.directory ++ ["epochs"]) := by
  rintro (last | same | same)
  · rw [List.getLast?_concat] at last
    exact absurd (Option.some.inj last) (by decide)
  · exact absurd (List.append_cancel_left same) (by decide)
  · exact absurd (List.append_cancel_left same) (by decide)

/-- The directory of the new epoch is not guarded unless it is called `retirement.json`. -/
theorem not_guarded_target (call : Call) {actual : String} (named : actual ≠ "retirement.json") :
    ¬ Guarded call (targetPath call actual) := by
  rintro (last | same | same)
  · have split : targetPath call actual = (call.directory ++ ["epochs"]) ++ [actual] := by
      simp [targetPath]
    rw [split, List.getLast?_concat] at last
    exact named (Option.some.inj last)
  · have lengths := congrArg List.length same
    simp [targetPath, activePath] at lengths
  · have lengths := congrArg List.length same
    simp [targetPath, pointerPath] at lengths

theorem not_guarded_file (call : Call) {actual name : String} (named : name ≠ "retirement.json") :
    ¬ Guarded call (targetPath call actual ++ [name]) := by
  rintro (last | same | same)
  · rw [List.getLast?_concat] at last
    exact named (Option.some.inj last)
  · have lengths := congrArg List.length same
    simp [targetPath, activePath] at lengths
  · have lengths := congrArg List.length same
    simp [targetPath, pointerPath] at lengths

theorem authorityName_other (peer : Value) : authorityName K peer ≠ "retirement.json" := by
  intro same
  have chars := congrArg String.toList same
  simp [authorityName] at chars

/-- Reading the disk changes no path. -/
theorem keeps_ask {A : Type} {P : Path → Prop} (f : Disk → Ask A) : Keeps P (ask f) :=
  keeps_reading f

theorem keeps_give {A : Type} {P : Path → Prop} (x : Ask A) : Keeps P (give x) :=
  keeps_reading fun _ => x

theorem keeps_writeAuthority (call : Call) (actual : String) (x : Value × Value) :
    Keeps (Guarded call) (writeAuthority K (targetPath call actual) x) := by
  rw [writeAuthority]
  split
  next => exact keeps_pure ()
  next =>
    apply keeps_bind (keeps_give _)
    intro pem
    exact keeps_create (not_guarded_file call (authorityName_other x.1))

theorem keeps_copyFile (call : Call) (actual : String) {name : String}
    (named : name ≠ "retirement.json") :
    Keeps (Guarded call) (copyFile call.directory (targetPath call actual) name) := by
  apply keeps_bind (keeps_ask _)
  intro held
  exact keeps_create (not_guarded_file call named)

/-- Writing a service's configuration leaves the guarded paths alone. -/
theorem keeps_writeService (call : Call) (actual : String) (role : Value) (cfg : Dict) :
    Keeps (Guarded call) (writeService call (targetPath call actual) role cfg) := by
  rw [writeService]
  split
  next => exact keeps_pure cfg
  next =>
    refine keeps_bind (keeps_forM ?_) fun _ => keeps_pure _
    intro name listed
    apply keeps_copyFile
    rintro rfl
    exact absurd listed (by decide)

/-- Making the directory of the new epoch leaves the guarded paths alone. -/
theorem keeps_makeTarget (call : Call) {actual : String} (named : actual ≠ "retirement.json") :
    Keeps (Guarded call) (makeTarget call actual) := by
  apply keeps_bind (keeps_ensureDir (not_guarded_epochs call))
  intro _
  exact keeps_makeDir (not_guarded_target call named)

/-- Nothing that `activate` prepares touches the pointer, its temporary copy or a retirement. -/
theorem keeps_prepare (call : Call) {c : Activation.Checked}
    (named : c.actual ≠ "retirement.json") : Keeps (Guarded call) (prepare K N call c) := by
  refine keeps_bind (keeps_ask _) fun there => ?_
  refine keeps_bind (keeps_give _) fun _ => ?_
  refine keeps_bind (keeps_makeTarget call named) fun _ => ?_
  refine keeps_bind (keeps_give _) fun cfg => ?_
  refine keeps_bind (keeps_give _) fun cards => ?_
  refine keeps_bind (keeps_forM fun x _ => keeps_writeAuthority call c.actual x) fun _ => ?_
  refine keeps_bind (keeps_create (not_guarded_file call (by decide))) fun _ => ?_
  refine keeps_bind (keeps_writeService call c.actual c.role _) fun cfg => ?_
  refine keeps_bind (keeps_create (not_guarded_file call (by decide))) fun _ => ?_
  refine keeps_bind (keeps_create (not_guarded_file call (by decide))) fun _ => ?_
  split
  next => exact keeps_pure _
  next =>
    refine keeps_bind (keeps_ask _) fun seed => ?_
    exact keeps_pure _

theorem act_ok {A B : Type} {x : Act A} {g : A → Act B} {disk disk' : Disk} {b : B} :
    (x >>= g) disk = .ok b disk' ↔
      ∃ a middle, x disk = .ok a middle ∧ g a middle = .ok b disk' := by
  rw [act_bind]
  cases x disk with
  | ok a middle => simp
  | error e middle => simp

theorem give_ok {A : Type} {x : Ask A} {disk disk' : Disk} {a : A} :
    give x disk = .ok a disk' ↔ x = .ok a ∧ disk' = disk := by
  change lift x disk = .ok a disk' ↔ _
  cases x with
  | ok b => simp [lift, eq_comm]
  | error e => simp [lift]

/-- A key that is present stays present under an insertion. -/
theorem find_insert_isSome {d : Dict} {k : String} (there : (find d (.str k)).isSome = true)
    (k' : String) (v : Value) : (find (insert d (.str k') v) (.str k)).isSome = true := by
  by_cases same : k' = k
  · subst same
    rw [find_insert_self d (by simp)]
    rfl
  · rw [find_insert_str_ne d same]
    exact there

theorem find_inserts_isSome {k : String} : ∀ (xs : List (String × Value)) {d : Dict},
    (find d (.str k)).isSome = true →
    (find (xs.foldl (fun d x => insert d (.str x.1) x.2) d) (.str k)).isSome = true
  | [], _, there => there
  | x :: xs, d, there => find_inserts_isSome xs (find_insert_isSome there x.1 x.2)

/-- A configuration taken from a bundle states its epoch. -/
theorem configuration_epoch {bundle cfg : Value} (made : configuration K bundle = .ok cfg) :
    ∃ d, cfg = .dict d ∧ (find d (.str "epoch")).isSome = true := by
  obtain ⟨p, h₀, made⟩ := bind_ok.mp made
  obtain ⟨epochs, -, made⟩ := bind_ok.mp made
  obtain ⟨created, -, made⟩ := bind_ok.mp made
  obtain ⟨expires, -, made⟩ := bind_ok.mp made
  obtain ⟨logId, -, made⟩ := bind_ok.mp made
  obtain ⟨epoch, -, made⟩ := bind_ok.mp made
  obtain ⟨hash, -, made⟩ := bind_ok.mp made
  obtain ⟨cardsValue, -, made⟩ := bind_ok.mp made
  obtain ⟨cards, -, made⟩ := bind_ok.mp made
  obtain ⟨identities, -, made⟩ := bind_ok.mp made
  obtain ⟨endpoints, -, made⟩ := bind_ok.mp made
  obtain ⟨modelId, -, made⟩ := bind_ok.mp made
  obtain ⟨modelHash, -, made⟩ := bind_ok.mp made
  split at made
  next => cases made
  next =>
    obtain ⟨kind, -, made⟩ := bind_ok.mp made
    obtain ⟨name, -, made⟩ := bind_ok.mp made
    obtain ⟨preExec, -, made⟩ := bind_ok.mp made
    obtain ⟨timeout, -, made⟩ := bind_ok.mp made
    obtain ⟨entries, -, made⟩ := bind_ok.mp made
    obtain ⟨days, -, last⟩ := bind_ok.mp made
    obtain rfl := Except.ok.inj last
    exact ⟨_, rfl, rfl⟩

theorem localConfig_epoch {call : Call} {role card : Value} {d : Dict}
    (made : localConfig K N call role card = .ok d) : (find d (.str "epoch")).isSome = true := by
  obtain ⟨cfg, configured, made⟩ := bind_ok.mp made
  obtain ⟨d', rfl, there⟩ := configuration_epoch configured
  obtain ⟨d'', listed, made⟩ := bind_ok.mp made
  obtain rfl := Except.ok.inj listed
  obtain ⟨port, -, last⟩ := bind_ok.mp made
  obtain rfl := Except.ok.inj last
  exact find_inserts_isSome _ there

theorem writeService_epoch {call : Call} {target : Path} {role : Value} {cfg cfg' : Dict}
    {disk disk' : Disk} (there : (find cfg (.str "epoch")).isSome = true)
    (made : writeService call target role cfg disk = .ok cfg' disk') :
    (find cfg' (.str "epoch")).isSome = true := by
  rw [writeService] at made
  split at made
  next =>
    obtain ⟨rfl, -⟩ := EStateM.Result.ok.inj made
    exact there
  next =>
    obtain ⟨_, middle, -, made⟩ := act_ok.mp made
    obtain ⟨rfl, -⟩ := EStateM.Result.ok.inj made
    exact find_insert_isSome (find_insert_isSome (find_insert_isSome there _ _) _ _) _ _

/-- The epoch before, with the key that signs its retirement. -/
def SamePrevious : Option (Path × Value) → Option (Path × Value × Bytes) → Prop
  | none, previous => previous = none
  | some (directory, old), previous => ∃ seed, previous = some (directory, old, seed)

/-- What is prepared states its epoch and hands on the previous epoch as it was checked. -/
theorem prepare_ok {call : Call} {c : Activation.Checked} {cfg : Dict}
    {previous : Option (Path × Value × Bytes)} {disk disk' : Disk}
    (made : prepare K N call c disk = .ok (cfg, previous) disk') :
    (find cfg (.str "epoch")).isSome = true ∧ SamePrevious c.previous previous := by
  obtain ⟨there, _, -, made⟩ := act_ok.mp made
  obtain ⟨_, _, -, made⟩ := act_ok.mp made
  obtain ⟨_, _, -, made⟩ := act_ok.mp made
  obtain ⟨first, _, local_, made⟩ := act_ok.mp made
  have epoch := localConfig_epoch (py_ok.mp (give_ok.mp local_).1)
  obtain ⟨cards, _, -, made⟩ := act_ok.mp made
  obtain ⟨_, _, -, made⟩ := act_ok.mp made
  obtain ⟨_, _, -, made⟩ := act_ok.mp made
  obtain ⟨second, _, service, made⟩ := act_ok.mp made
  have epoch := writeService_epoch (find_insert_isSome epoch _ _) service
  have epoch : (find (withModelEndpoint call c.role second) (.str "epoch")).isSome = true := by
    rw [withModelEndpoint]
    split
    next => exact find_insert_isSome epoch _ _
    next => exact epoch
  obtain ⟨_, _, -, made⟩ := act_ok.mp made
  obtain ⟨_, _, -, made⟩ := act_ok.mp made
  cases before : c.previous with
  | none =>
    simp only [before] at made
    obtain ⟨same, -⟩ := EStateM.Result.ok.inj made
    obtain ⟨rfl, rfl⟩ := Prod.mk.inj same
    exact ⟨epoch, rfl⟩
  | some old =>
    simp only [before] at made
    obtain ⟨seed, _, -, made⟩ := act_ok.mp made
    obtain ⟨same, -⟩ := EStateM.Result.ok.inj made
    obtain ⟨rfl, rfl⟩ := Prod.mk.inj same
    exact ⟨epoch, seed, rfl⟩

/-- Resolving one path of a configuration keeps its other fields. -/
theorem resolveField_kept {files : Files} {config config' : Dict} {field k : String}
    (other : field ≠ k) (made : resolveField files config field = .ok config') :
    find config' (.str k) = find config (.str k) := by
  rw [resolveField] at made
  split at made
  next =>
    obtain rfl := Except.ok.inj made
    rfl
  next =>
    obtain ⟨resolved, -, last⟩ := bind_ok.mp made
    obtain rfl := Except.ok.inj last
    exact find_insert_str_ne _ other _

theorem resolveFields_kept {files : Files} {k : String} : ∀ {names : List String}
    {config config' : Dict}, k ∉ names → names.foldlM (resolveField files) config = .ok config' →
    find config' (.str k) = find config (.str k)
  | [], config, config', _, made => by
    obtain rfl := Except.ok.inj made
    rfl
  | field :: names, config, config', absent, made => by
    rw [List.foldlM_cons] at made
    obtain ⟨middle, first, rest⟩ := bind_ok.mp made
    rw [List.mem_cons, not_or] at absent
    rw [resolveFields_kept absent.2 rest, resolveField_kept (Ne.symm absent.1) first]

/-- A loaded configuration has the fields of its file, which canonical JSON takes. -/
theorem loadConfig_kept {files : Files} {path directory : String} {held v : Value}
    (loaded : loadConfig K N files path directory held = .ok v) : ∃ raw d, held = .dict raw ∧
      Admitted (.dict raw) ∧ v = .dict d ∧
      ∀ k ∉ localFields, find d (.str k) = find raw (.str k) := by
  obtain ⟨raw, read, loaded⟩ := bind_ok.mp loaded
  obtain ⟨b, text_, read⟩ := bind_ok.mp read
  obtain rfl := Except.ok.inj read
  obtain ⟨version, got, loaded⟩ := bind_ok.mp loaded
  obtain ⟨role, -, loaded⟩ := bind_ok.mp loaded
  obtain ⟨_, -, loaded⟩ := bind_ok.mp loaded
  obtain ⟨config, listed, loaded⟩ := bind_ok.mp loaded
  obtain ⟨resolved, paths, loaded⟩ := bind_ok.mp loaded
  obtain ⟨final_, authorities, loaded⟩ := bind_ok.mp loaded
  obtain ⟨_, -, last⟩ := bind_ok.mp loaded
  obtain rfl := Except.ok.inj last
  obtain ⟨given, -, authorities⟩ := bind_ok.mp authorities
  obtain ⟨files_, -, authorities⟩ := bind_ok.mp authorities
  obtain rfl := Except.ok.inj authorities
  cases held with
  | dict raw =>
    obtain rfl := Except.ok.inj listed
    refine ⟨raw, _, rfl, admitted_of_written text_, rfl, ?_⟩
    intro k other
    simp only [localFields, List.mem_append, List.mem_cons, List.not_mem_nil, or_false, not_or]
      at other
    obtain ⟨⟨-, h₁, h₂, h₃⟩, h₄⟩ := other
    rw [find_insert_str_ne _ (Ne.symm h₃), resolveFields_kept h₄ paths,
      find_insert_str_ne _ (Ne.symm h₂), find_insert_str_ne _ (Ne.symm h₁)]
  | _ => cases got

/-- The new epoch is the reviewed one, and the epoch before is the one that it names. -/
structure Reviewed (K : Primitives) (N : Network) (host : Host) (call : Call) (disk : Disk)
    (c : Activation.Checked) : Prop where
  accepted : verifyDeployment K N call.bundle = .ok call.expectedFingerprint
  actual : c.actual = call.expectedFingerprint
  role : ∃ r, c.role = .str r
  previous : ∃ p v, call.bundle.item "proposal" = .ok p ∧ p.item "previous_hash" = .ok v ∧
    ((v.truthy = false ∧ c.previous = none) ∨
      (v.truthy = true ∧ ∃ path old h, call.previousConfig = some path ∧
        loadConfigAt K N host disk path = .ok old ∧ c.previous = some (path.dropLast, old) ∧
        old.get "deployment_hash" .null = .ok h ∧ h.eq v = true))

/-- The previous configuration is either none or one that loads. -/
theorem checkPreviousConfig_ok {disk : Disk} {call : Call} {role v : Value}
    {previous : Option (Path × Value)}
    (made : checkPreviousConfig K N host disk call role v = .ok previous) :
    (v.truthy = false ∧ previous = none) ∨
      (v.truthy = true ∧ ∃ path old h, call.previousConfig = some path ∧
        loadConfigAt K N host disk path = .ok old ∧ previous = some (path.dropLast, old) ∧
        old.get "deployment_hash" .null = .ok h ∧ h.eq v = true) := by
  rw [checkPreviousConfig] at made
  split at made
  next there =>
    split at made
    next => cases made
    next path given =>
      obtain ⟨old, loaded, made⟩ := ask_ok.mp made
      obtain ⟨oldRole, -, made⟩ := ask_ok.mp made
      obtain ⟨oldHash, read, made⟩ := ask_ok.mp made
      split at made
      next both =>
        obtain rfl := Except.ok.inj made
        exact Or.inr ⟨there, path, old, oldHash, given, loaded, rfl, py_ok.mp read,
          (Bool.and_eq_true _ _ ▸ both).2⟩
      next => cases made
  next absent =>
    obtain rfl := Except.ok.inj made
    exact Or.inl ⟨by simpa using absent, rfl⟩

/-- A call that passes the checks has been reviewed. -/
theorem check_ok {call : Call} {disk : Disk} {c : Activation.Checked}
    (made : check K N host call disk = .ok c) : Reviewed K N host call disk c := by
  obtain ⟨actual, accepted, made⟩ := ask_ok.mp made
  obtain ⟨_, same, made⟩ := ask_ok.mp made
  obtain ⟨⟨card, seed⟩, operator, made⟩ := ask_ok.mp made
  obtain ⟨role, own, made⟩ := ask_ok.mp made
  obtain ⟨p, proposal, made⟩ := ask_ok.mp made
  obtain ⟨binds, -, made⟩ := ask_ok.mp made
  obtain ⟨expired, -, made⟩ := ask_ok.mp made
  obtain ⟨_, -, made⟩ := ask_ok.mp made
  obtain ⟨kind, -, made⟩ := ask_ok.mp made
  obtain ⟨_, -, made⟩ := ask_ok.mp made
  obtain ⟨v, hash, made⟩ := ask_ok.mp made
  obtain ⟨previous, before, last⟩ := ask_ok.mp made
  obtain rfl := Except.ok.inj last
  have reviewed := refuseIf_ok.mp (py_ok.mp same)
  obtain rfl : actual = call.expectedFingerprint := by simpa using reviewed
  obtain ⟨card', -, operator⟩ := ask_ok.mp operator
  obtain ⟨body, verified, operator⟩ := ask_ok.mp operator
  obtain ⟨stored, -, operator⟩ := ask_ok.mp operator
  obtain ⟨opened, -, operator⟩ := ask_ok.mp operator
  obtain ⟨seed', -, operator⟩ := ask_ok.mp operator
  obtain ⟨rfl, -⟩ := Prod.mk.inj (Except.ok.inj operator)
  have cardBody := verifyCard_ok (py_ok.mp verified)
  obtain ⟨r, -, named, -⟩ := cardBody.role
  have text_ := py_ok.mp own
  rw [cardBody.held, ok_bind, named] at text_
  exact ⟨py_ok.mp accepted, rfl, ⟨r, (Except.ok.inj text_).symm⟩, p, v, py_ok.mp proposal,
    py_ok.mp hash, checkPreviousConfig_ok before⟩

/-- The record of retirement can always be written and signed. -/
theorem record_of_reviewed {call : Call} {disk : Disk} {c : Activation.Checked} {directory : Path}
    {old : Value} (reviewed : Reviewed K N host call disk c)
    (before : c.previous = some (directory, old)) :
    ∃ body encoded, retirementBody call c old = .ok body ∧ canonicalJson body = .ok encoded ∧
      body.item "successor_hash" = .ok (.str c.actual) := by
  obtain ⟨p, v, -, -, ⟨-, absent⟩ | ⟨there, path, old', h, -, loaded, same, read, equal⟩⟩ :=
    reviewed.previous
  · rw [absent] at before
    cases before
  · rw [same] at before
    obtain ⟨-, rfl⟩ := Prod.mk.inj (Option.some.inj before)
    obtain ⟨held, -, loaded⟩ := ask_ok.mp loaded
    cases held with
    | bytes b => cases loaded
    | json held =>
      obtain ⟨raw, d, rfl, admitted, rfl, kept⟩ := loadConfig_kept (py_ok.mp loaded)
      have found : find d (.str "deployment_hash") = some h := by
        have got := Except.ok.inj read
        cases here : find d (.str "deployment_hash") with
        | none =>
          rw [here] at got
          obtain rfl : Value.null = h := got
          rw [(eq_null v).mp equal] at there
          cases there
        | some w =>
          rw [here] at got
          exact congrArg some got
      have inRaw := kept "deployment_hash" (by decide)
      rw [found] at inRaw
      have hash := admitted_item admitted (item_dict.mpr inRaw.symm)
      obtain ⟨r, role⟩ := reviewed.role
      have item : (Value.dict d).item "deployment_hash" = .ok h := item_dict.mpr found
      have scalar : ∀ n, Admitted (.int n) := fun _ _ => rfl
      have body : Admitted (.dict (fields [("profile", .str "itx-retirement/1"),
          ("deployment_hash", h), ("role", c.role), ("successor_hash", .str c.actual),
          ("retired_at", .int call.retiredAt)])) := by
        rw [admitted_fields]
        simp only [List.forall_mem_cons]
        exact ⟨⟨by decide, admitted_str _⟩, ⟨by decide, hash⟩,
          ⟨by decide, role ▸ admitted_str r⟩, ⟨by decide, admitted_str _⟩,
          ⟨by decide, scalar _⟩, by simp⟩
      obtain ⟨encoded, written⟩ := written_of_admitted body
      refine ⟨_, encoded, ?_, written, rfl⟩
      rw [retirementBody, item]
      rfl

/-- The record of retirement in this directory names exactly this successor. -/
def RetiredTo (disk : Disk) (directory : Path) (successor : String) : Prop :=
  ∃ record body, contentAt disk (retirementPath directory) = some (.json record) ∧
    record.item "body" = .ok body ∧ body.item "successor_hash" = .ok (.str successor)

/-- `active.json` names this epoch. -/
def Active (disk : Disk) (call : Call) (hash : String) : Prop :=
  ∃ active, contentAt disk (activePath call) = some (.json active) ∧
    active.item "deployment_hash" = .ok (.str hash)

/-- A document that was read is on the disk. -/
theorem readDocumentAt_ok {disk : Disk} {path : Path} {v : Value}
    (read : readDocumentAt host disk path = .ok v) : contentAt disk path = some (.json v) := by
  obtain ⟨held, there, read⟩ := ask_ok.mp read
  rw [readFile] at there
  split at there
  next c found =>
    obtain rfl := Except.ok.inj there
    split at read
    next => cases read
    next =>
      cases c with
      | json w =>
        obtain ⟨b, -, last⟩ := bind_ok.mp (py_ok.mp read)
        obtain rfl := Except.ok.inj last
        exact found
      | bytes b => cases read
  next => cases there

theorem contentAt_put (disk : Disk) (path : Path) (c : Content) :
    contentAt (disk.put path (some (.file c))) path = some c := by
  rw [contentAt, put_self]

/-- A first record is written and names the successor. -/
theorem writeRetirement_new (host : Host) {call : Call} {c : Activation.Checked} {directory : Path}
    {old body : Value} (seed : Bytes) {encoded : Bytes} {disk : Disk}
    (made : retirementBody call c old = .ok body) (written : canonicalJson body = .ok encoded)
    (named : body.item "successor_hash" = .ok (.str c.actual))
    (absent : disk (retirementPath directory) = none) :
    ∃ disk', writeRetirement K host call c directory old seed disk = .ok () disk' ∧
      RetiredTo disk' directory c.actual ∧ disk' (retirementPath directory) ≠ none ∧
      ∀ path, path ≠ retirementPath directory → disk' path = disk path := by
  refine ⟨disk.put (retirementPath directory) (some (.file (.json (.dict (fields [("body", body),
    ("signature", .str (hex (K.sign seed encoded)))]))))), ?_, ?_, by simp,
    fun path other => put_other disk _ other⟩
  · rw [writeRetirement, give_bind, made]
    change (ask _ >>= _) disk = _
    rw [ask_bind, absent]
    change (give _ >>= _) disk = _
    rw [give_bind, written]
    exact create_new absent
  · exact ⟨_, body, contentAt_put _ _ _, rfl, named⟩

/-- A record that is there stays, and the call goes on only if it names the successor. -/
theorem writeRetirement_old (host : Host) (call : Call) (c : Activation.Checked) {directory : Path}
    (old : Value) (seed : Bytes) {disk : Disk}
    (there : disk (retirementPath directory) ≠ none) :
    (∃ e, writeRetirement K host call c directory old seed disk = .error e disk) ∨
      (writeRetirement K host call c directory old seed disk = .ok () disk ∧
        RetiredTo disk directory c.actual) := by
  rw [writeRetirement, give_bind]
  cases retirementBody call c old with
  | error e => exact Or.inl ⟨_, rfl⟩
  | ok body =>
    change (∃ e, (ask _ >>= _) disk = _) ∨ (ask _ >>= _) disk = _ ∧ _
    rw [ask_bind]
    have present : (disk (retirementPath directory)).isSome = true :=
      Option.isSome_iff_ne_none.mpr there
    simp only [present, if_true]
    rw [ask_bind]
    cases read : successorOf host disk directory with
    | error e => exact Or.inl ⟨_, rfl⟩
    | ok successor =>
      simp only
      rw [give_bind]
      cases same : successor.eq (.str c.actual) with
      | false => exact Or.inl ⟨_, rfl⟩
      | true =>
        refine Or.inr ⟨rfl, ?_⟩
        obtain ⟨record, held, read⟩ := ask_ok.mp read
        obtain ⟨body', inRecord, read⟩ := bind_ok.mp (py_ok.mp read)
        exact ⟨record, body', readDocumentAt_ok held, inRecord,
          (eq_str_right _ _).mp same ▸ read⟩

/-- A temporary pointer that was left behind makes the switch raise and changes nothing. -/
theorem point_blocked (host : Host) {call : Call} (c : Activation.Checked) (cfg : Dict)
    {disk : Disk} (there : disk (pointerPath call) ≠ none) :
    ∃ e, point host call c cfg disk = .error e disk := by
  rw [point, give_bind]
  cases getItem cfg "epoch" with
  | error e => exact ⟨_, rfl⟩
  | ok epoch =>
    change ∃ e, (ask _ >>= _) disk = _
    rw [ask_bind]
    have present : (disk (pointerPath call)).isSome = true := Option.isSome_iff_ne_none.mpr there
    simp only [present]
    rw [give_bind]
    exact ⟨_, rfl⟩

/-- Without one the pointer is written and renamed, and the new epoch is active. -/
theorem point_free (host : Host) {call : Call} (c : Activation.Checked) {cfg : Dict} {disk : Disk}
    (epoch : (find cfg (.str "epoch")).isSome = true) (absent : disk (pointerPath call) = none)
    (isFile : disk (activePath call) ≠ some .dir) :
    ∃ v disk', point host call c cfg disk = .ok v disk' ∧ Active disk' call c.actual ∧
      ∀ path, path ≠ pointerPath call → path ≠ activePath call → disk' path = disk path := by
  obtain ⟨n, here⟩ := Option.isSome_iff_exists.mp epoch
  have read : getItem cfg "epoch" = .ok n := by
    rw [getItem, here]
  have other : activePath call ≠ pointerPath call := by
    intro same
    exact absurd (List.append_cancel_left same) (by decide)
  let result := Node.file (Content.json (activated host call c n))
  let written := disk.put (pointerPath call) (some result)
  have isFile' : written (activePath call) ≠ some .dir := by
    change disk.put (pointerPath call) (some result) (activePath call) ≠ some .dir
    rw [put_other disk _ other]
    exact isFile
  refine ⟨activated host call c n, (written.put (pointerPath call) none).put (activePath call)
    (some result), ?_, ?_, ?_⟩
  · rw [point, give_bind, read]
    change (ask _ >>= _) disk = _
    rw [ask_bind, absent]
    change (give _ >>= _) disk = _
    rw [give_bind]
    change (create _ _ _ >>= _) disk = _
    rw [act_bind, create_new absent]
    change (replace _ _ _ >>= _) written = _
    rw [act_bind, replace_file (put_self disk _ _) isFile']
    rfl
  · exact ⟨activated host call c n, contentAt_put _ _ _, rfl⟩
  · intro path h₁ h₂
    rw [put_other _ _ h₂, put_other _ _ h₁]
    exact put_other disk _ h₁

/-- A call that raises retires nothing and leaves the pointer, one that returns has done both. -/
def Outcome (K : Primitives) (N : Network) (call : Call) (disk : Disk) :
    EStateM.Result Failure Disk Value → Prop
  | .error _ disk' =>
    (∀ directory, disk' (retirementPath directory) = disk (retirementPath directory)) ∧
      disk' (activePath call) = disk (activePath call)
  | .ok _ disk' => verifyDeployment K N call.bundle = .ok call.expectedFingerprint ∧
    Active disk' call call.expectedFingerprint ∧
    ∀ p v, call.bundle.item "proposal" = .ok p → p.item "previous_hash" = .ok v →
      v.truthy = true → ∃ path, call.previousConfig = some path ∧
        RetiredTo disk' path.dropLast call.expectedFingerprint

def AllOrNothing (K : Primitives) (N : Network) (host : Host) (call : Call) (disk : Disk) : Prop :=
  Outcome K N call disk (activate K N host call disk)

/-- Everything is in order up to the retirement of the epoch in this directory. -/
def Reaches (K : Primitives) (N : Network) (host : Host) (call : Call) (disk : Disk)
    (directory : Path) : Prop :=
  ∃ c cfg old seed disk', check K N host call disk = .ok c ∧
    currentEpoch host call c.actual disk = .ok none ∧
    prepare K N call c disk = .ok (cfg, some (directory, old, seed)) disk'

/-- What must be found on the disk. -/
structure Clear (K : Primitives) (N : Network) (host : Host) (call : Call) (disk : Disk) :
    Prop where
  /-- No temporary pointer is left over when a record is about to be written. -/
  pointer : ∀ directory, Reaches K N host call disk directory →
    disk (retirementPath directory) = none → disk (pointerPath call) = none
  /-- An epoch that is active already has retired the epoch before. -/
  recorded : ∀ c active directory old, check K N host call disk = .ok c →
    currentEpoch host call c.actual disk = .ok (some active) →
    c.previous = some (directory, old) → RetiredTo disk directory c.actual

/-- `activate` is its checks, then nothing more for an epoch already active, else the switch. -/
theorem activate_eq (call : Call) (disk : Disk) : activate K N host call disk =
    match check K N host call disk with
    | .error e => .error e disk
    | .ok c => match currentEpoch host call c.actual disk with
      | .error e => .error e disk
      | .ok (some active) => give (py (unchanged active)) disk
      | .ok none => switch K N host call c disk := by
  rw [activate, ask_bind]
  cases check K N host call disk with
  | error e => rfl
  | ok c =>
    simp only
    rw [ask_bind]
    cases currentEpoch host call c.actual disk with
    | error e => rfl
    | ok current => cases current with
      | none => rfl
      | some active => rfl

/-- No deployment's fingerprint is the name of the retirement file. -/
theorem fingerprint_named {bundle : Value} {h : String}
    (accepted : verifyDeployment K N bundle = .ok h) : h ≠ "retirement.json" := by
  obtain ⟨p, -, accepted⟩ := bind_ok.mp accepted
  obtain ⟨_, -, accepted⟩ := bind_ok.mp accepted
  obtain ⟨_, -, accepted⟩ := bind_ok.mp accepted
  obtain ⟨_, -, accepted⟩ := bind_ok.mp accepted
  obtain ⟨previous, -, accepted⟩ := bind_ok.mp accepted
  obtain ⟨_, -, accepted⟩ := bind_ok.mp accepted
  obtain ⟨_, -, last⟩ := bind_ok.mp accepted
  obtain ⟨b, -, last⟩ := bind_ok.mp last
  obtain rfl := Except.ok.inj last
  intro same
  have lengths := congrArg String.length same
  rw [contentHashHex, sha256Hex, hex_length, K.sha256_length] at lengths
  exact absurd lengths (by decide)

/-- A call for the epoch that is active returns it again. -/
theorem unchanged_returns {call : Call} {actual : String} {disk : Disk} {active : Value}
    (current : currentEpoch host call actual disk = .ok (some active)) :
    Active disk call actual ∧ Returns (unchanged active) := by
  rw [currentEpoch] at current
  split at current
  next => cases current
  next =>
    obtain ⟨active', held, current⟩ := ask_ok.mp current
    obtain ⟨hash, read, current⟩ := ask_ok.mp current
    split at current
    next same =>
      obtain rfl := Option.some.inj (Except.ok.inj current)
      have named := py_ok.mp read
      refine ⟨⟨active', readDocumentAt_ok held, (eq_str_right _ _).mp same ▸ named⟩, ?_⟩
      cases active' with
      | dict d => exact returns_ok _
      | _ => cases named
    next =>
      obtain ⟨v, -, current⟩ := ask_ok.mp current
      split at current
      next => cases current
      next => cases current

/-- What `active.json` is replaced by a call that found another epoch, or none. -/
theorem currentEpoch_file {call : Call} {actual : String} {disk : Disk}
    (current : currentEpoch host call actual disk = .ok none) :
    disk (activePath call) ≠ some .dir := by
  intro isDir
  rw [currentEpoch, isDir] at current
  obtain ⟨active, held, -⟩ := ask_ok.mp current
  have there := readDocumentAt_ok held
  rw [contentAt, isDir] at there
  cases there

section Reviewed

variable {call : Call} {disk : Disk} {c : Activation.Checked}

theorem outcome_error {disk' : Disk} (e : Failure)
    (kept : ∀ path, Guarded call path → disk' path = disk path) :
    Outcome K N call disk (.error e disk') :=
  ⟨fun directory => kept _ (guarded_retirement call directory), kept _ (Or.inr (Or.inl rfl))⟩

theorem outcome_first {v : Value} {disk' : Disk} (reviewed : Reviewed K N host call disk c)
    (first : c.previous = none) (active : Active disk' call c.actual) :
    Outcome K N call disk (.ok v disk') := by
  refine ⟨reviewed.accepted, reviewed.actual ▸ active, ?_⟩
  intro p w held hash there
  obtain ⟨p', w', held', hash', ⟨absent, -⟩ | ⟨-, path, old, h, -, -, same, -⟩⟩ := reviewed.previous
  · obtain rfl := Except.ok.inj (held.symm.trans held')
    obtain rfl := Except.ok.inj (hash.symm.trans hash')
    rw [absent] at there
    cases there
  · rw [same] at first
    cases first

/-- A call that ends with the next epoch active keeps its promise if the previous one is retired. -/
theorem outcome_next {v old : Value} {directory : Path} {disk' : Disk}
    (reviewed : Reviewed K N host call disk c) (before : c.previous = some (directory, old))
    (active : Active disk' call c.actual) :
    Outcome K N call disk (.ok v disk') ↔ RetiredTo disk' directory c.actual := by
  obtain ⟨p, w, held, hash, ⟨-, absent⟩ | ⟨there, path, old', h, given, -, same, -⟩⟩ :=
    reviewed.previous
  · rw [absent] at before
    cases before
  · rw [same] at before
    obtain ⟨rfl, rfl⟩ := Prod.mk.inj (Option.some.inj before)
    constructor
    · rintro ⟨-, -, each⟩
      obtain ⟨path', given', retired⟩ := each p w held hash there
      obtain rfl := Option.some.inj (given.symm.trans given')
      exact reviewed.actual ▸ retired
    · intro retired
      refine ⟨reviewed.accepted, reviewed.actual ▸ active, ?_⟩
      intro _ _ _ _ _
      exact ⟨path, given, reviewed.actual ▸ retired⟩

theorem retirement_ne_active (directory : Path) : activePath call ≠ retirementPath directory := by
  intro same
  have last := congrArg List.getLast? same
  rw [activePath, retirementPath, List.getLast?_concat, List.getLast?_concat] at last
  exact absurd (Option.some.inj last) (by decide)

theorem retirement_ne_pointer (directory : Path) : pointerPath call ≠ retirementPath directory := by
  intro same
  have last := congrArg List.getLast? same
  rw [pointerPath, retirementPath, List.getLast?_concat, List.getLast?_concat] at last
  exact absurd (Option.some.inj last) (by decide)

/-- What is recorded of a retirement is not touched by the pointers. -/
theorem retiredTo_kept {disk' : Disk} {directory : Path} {hash : String}
    (kept : ∀ path, path ≠ pointerPath call → path ≠ activePath call → disk' path = disk path)
    (retired : RetiredTo disk directory hash) : RetiredTo disk' directory hash := by
  obtain ⟨record, body, held, inRecord, named⟩ := retired
  refine ⟨record, body, ?_, inRecord, named⟩
  rw [contentAt, kept _ (Ne.symm (retirement_ne_pointer directory))
    (Ne.symm (retirement_ne_active directory))]
  exact held

/-- After the preparation, a first epoch only needs its pointer. -/
theorem switch_first {cfg : Dict} {middle : Disk} (reviewed : Reviewed K N host call disk c)
    (current : currentEpoch host call c.actual disk = .ok none)
    (kept : ∀ path, Guarded call path → middle path = disk path)
    (epoch : (find cfg (.str "epoch")).isSome = true) (first : c.previous = none) :
    Outcome K N call disk (point host call c cfg middle) := by
  by_cases free : middle (pointerPath call) = none
  · have isFile : middle (activePath call) ≠ some .dir := by
      rw [kept _ (Or.inr (Or.inl rfl))]
      exact currentEpoch_file current
    obtain ⟨v, disk', done, active, -⟩ := point_free host c epoch free isFile
    rw [done]
    exact outcome_first reviewed first active
  · obtain ⟨e, failed⟩ := point_blocked host c cfg free
    rw [failed]
    exact outcome_error e kept

/-- When the record of retirement is there already, nothing is at stake. -/
theorem switch_retired {cfg : Dict} {old : Value} {seed : Bytes} {directory : Path} {middle : Disk}
    (reviewed : Reviewed K N host call disk c)
    (current : currentEpoch host call c.actual disk = .ok none)
    (kept : ∀ path, Guarded call path → middle path = disk path)
    (epoch : (find cfg (.str "epoch")).isSome = true)
    (before : c.previous = some (directory, old))
    (there : disk (retirementPath directory) ≠ none) :
    Outcome K N call disk ((writeRetirement K host call c directory old seed >>= fun _ =>
      point host call c cfg) middle) := by
  have there' : middle (retirementPath directory) ≠ none := by
    rw [kept _ (guarded_retirement call directory)]
    exact there
  rw [act_bind]
  rcases writeRetirement_old (K := K) host call c old seed there' with
    ⟨e, failed⟩ | ⟨done, retired⟩
  · rw [failed]
    exact outcome_error e kept
  · rw [done]
    by_cases free : middle (pointerPath call) = none
    · have isFile : middle (activePath call) ≠ some .dir := by
        rw [kept _ (Or.inr (Or.inl rfl))]
        exact currentEpoch_file current
      obtain ⟨v, disk', pointed, active, others⟩ := point_free host c epoch free isFile
      simp only [pointed]
      exact (outcome_next reviewed before active).mpr (retiredTo_kept others retired)
    · obtain ⟨e, failed⟩ := point_blocked host c cfg free
      simp only [failed]
      exact outcome_error e kept

/-- A first record is written before a leftover pointer is found. -/
theorem switch_retires {cfg : Dict} {old : Value} {seed : Bytes} {directory : Path} {middle : Disk}
    (reviewed : Reviewed K N host call disk c)
    (current : currentEpoch host call c.actual disk = .ok none)
    (kept : ∀ path, Guarded call path → middle path = disk path)
    (epoch : (find cfg (.str "epoch")).isSome = true)
    (before : c.previous = some (directory, old))
    (absent : disk (retirementPath directory) = none) :
    Outcome K N call disk ((writeRetirement K host call c directory old seed >>= fun _ =>
      point host call c cfg) middle) ↔ disk (pointerPath call) = none := by
  have absent' : middle (retirementPath directory) = none := by
    rw [kept _ (guarded_retirement call directory)]
    exact absent
  obtain ⟨body, encoded, made, written, named⟩ := record_of_reviewed reviewed before
  obtain ⟨disk', done, retired, new, others⟩ :=
    writeRetirement_new (K := K) host seed made written named absent'
  have pointer : disk' (pointerPath call) = disk (pointerPath call) := by
    rw [others _ (retirement_ne_pointer directory), kept _ (Or.inr (Or.inr rfl))]
  rw [act_bind, done]
  constructor
  · intro outcome
    by_contra left
    rw [← pointer] at left
    obtain ⟨e, failed⟩ := point_blocked host c cfg left
    simp only [failed] at outcome
    exact new ((outcome.1 directory).trans absent)
  · intro free
    have isFile : disk' (activePath call) ≠ some .dir := by
      rw [others _ (retirement_ne_active directory), kept _ (Or.inr (Or.inl rfl))]
      exact currentEpoch_file current
    obtain ⟨v, last, pointed, active, rest⟩ :=
      point_free host c epoch (pointer.trans free) isFile
    simp only [pointed]
    exact (outcome_next reviewed before active).mpr (retiredTo_kept rest retired)

end Reviewed

section Clear

variable {call : Call} {disk : Disk} {c : Activation.Checked}

theorem clear_unchecked {e : Failure} (failed : check K N host call disk = .error e) :
    Clear K N host call disk := by
  constructor
  · rintro directory ⟨c, cfg, old, seed, disk', checked, -⟩
    rw [failed] at checked
    cases checked
  · intro c active directory old checked
    rw [failed] at checked
    cases checked

theorem clear_refused {e : Failure} (checked : check K N host call disk = .ok c)
    (failed : currentEpoch host call c.actual disk = .error e) : Clear K N host call disk := by
  constructor
  · rintro directory ⟨c', cfg, old, seed, disk', checked', current, -⟩
    obtain rfl := Except.ok.inj (checked'.symm.trans checked)
    rw [failed] at current
    cases current
  · intro c' active directory old checked' current
    obtain rfl := Except.ok.inj (checked'.symm.trans checked)
    rw [failed] at current
    cases current

/-- For an epoch that is active already the condition is the retirement of the previous one. -/
theorem clear_active {active : Value} (checked : check K N host call disk = .ok c)
    (found : currentEpoch host call c.actual disk = .ok (some active)) :
    Clear K N host call disk ↔
      ∀ directory old, c.previous = some (directory, old) → RetiredTo disk directory c.actual := by
  constructor
  · intro clear directory old before
    exact clear.recorded c active directory old checked found before
  · intro retired
    constructor
    · rintro directory ⟨c', cfg, old, seed, disk', checked', current, -⟩
      obtain rfl := Except.ok.inj (checked'.symm.trans checked)
      rw [found] at current
      cases current
    · intro c' active' directory old checked' _ before
      obtain rfl := Except.ok.inj (checked'.symm.trans checked)
      exact retired directory old before

/-- For a switch it is the absence of a temporary pointer where a retirement is still to be written.
-/
theorem clear_switch (checked : check K N host call disk = .ok c)
    (other : currentEpoch host call c.actual disk = .ok none) :
    Clear K N host call disk ↔ ∀ cfg directory old seed disk',
      prepare K N call c disk = .ok (cfg, some (directory, old, seed)) disk' →
      disk (retirementPath directory) = none → disk (pointerPath call) = none := by
  constructor
  · intro clear cfg directory old seed disk' prepared
    exact clear.pointer directory ⟨c, cfg, old, seed, disk', checked, other, prepared⟩
  · intro free
    constructor
    · rintro directory ⟨c', cfg, old, seed, disk', checked', -, prepared⟩
      obtain rfl := Except.ok.inj (checked'.symm.trans checked)
      exact free cfg directory old seed disk' prepared
    · intro c' active directory old checked' current
      obtain rfl := Except.ok.inj (checked'.symm.trans checked)
      rw [other] at current
      cases current

/-- The epoch is active already and the call changes nothing. -/
theorem active_iff {active : Value} (checked : check K N host call disk = .ok c)
    (found : currentEpoch host call c.actual disk = .ok (some active)) :
    Outcome K N call disk (give (py (unchanged active)) disk) ↔ Clear K N host call disk := by
  have reviewed := check_ok checked
  obtain ⟨names, v, returned⟩ := unchanged_returns found
  have done : give (py (unchanged active)) disk = .ok v disk :=
    give_ok.mpr ⟨py_ok.mpr returned, rfl⟩
  rw [done, clear_active checked found]
  cases before : c.previous with
  | none => exact iff_of_true (outcome_first reviewed before names) fun _ _ same => nomatch same
  | some pair =>
    obtain ⟨directory, old⟩ := pair
    rw [outcome_next reviewed before names]
    constructor
    · intro retired directory' old' same
      obtain ⟨rfl, rfl⟩ := Prod.mk.inj (Option.some.inj same)
      exact retired
    · exact fun each => each directory old rfl

/-- The epoch is not active yet. -/
theorem switch_iff (checked : check K N host call disk = .ok c)
    (other : currentEpoch host call c.actual disk = .ok none) :
    Outcome K N call disk (switch K N host call c disk) ↔ Clear K N host call disk := by
  have reviewed := check_ok checked
  have named : c.actual ≠ "retirement.json" :=
    reviewed.actual ▸ fingerprint_named reviewed.accepted
  have kept := keeps_prepare (K := K) (N := N) call named disk
  rw [clear_switch checked other, switch, act_bind]
  cases prepared : prepare K N call c disk with
  | error e disk' =>
    rw [prepared] at kept
    refine iff_of_true (outcome_error e kept) ?_
    intro cfg directory old seed disk' same
    cases same
  | ok made middle =>
    obtain ⟨cfg, previous⟩ := made
    rw [prepared] at kept
    obtain ⟨epoch, same⟩ := prepare_ok prepared
    cases before : c.previous with
    | none =>
      rw [before] at same
      obtain rfl : previous = none := same
      refine iff_of_true (switch_first reviewed other kept epoch before) ?_
      intro cfg' directory old seed disk' given
      obtain ⟨given, -⟩ := EStateM.Result.ok.inj given
      cases (Prod.mk.inj given).2
    | some pair =>
      obtain ⟨directory, old⟩ := pair
      rw [before] at same
      obtain ⟨seed, rfl⟩ := same
      have only : (∀ cfg' directory' old' seed' disk',
          EStateM.Result.ok (cfg, some (directory, old, seed)) middle =
            (.ok (cfg', some (directory', old', seed')) disk' :
              EStateM.Result Failure Disk (Dict × Option (Path × Value × Bytes))) →
          disk (retirementPath directory') = none → disk (pointerPath call) = none) ↔
          (disk (retirementPath directory) = none → disk (pointerPath call) = none) := by
        constructor
        · exact fun each => each cfg directory old seed middle rfl
        · intro free cfg' directory' old' seed' disk' given
          obtain ⟨given, -⟩ := EStateM.Result.ok.inj given
          obtain ⟨rfl, -⟩ := Prod.mk.inj (Option.some.inj (Prod.mk.inj given).2)
          exact free
      rw [only]
      by_cases absent : disk (retirementPath directory) = none
      · rw [imp_iff_right absent]
        exact switch_retires reviewed other kept epoch before absent
      · refine iff_of_true (switch_retired reviewed other kept epoch before absent) ?_
        exact fun this => absurd this absent

end Clear

/-- Activation is all or nothing exactly when the disk is clear: no pointer is left over for a
call that is about to retire an epoch, and an epoch that is active already has its predecessor
retired. -/
theorem all_or_nothing_iff (call : Call) (disk : Disk) :
    AllOrNothing K N host call disk ↔ Clear K N host call disk := by
  rw [AllOrNothing, activate_eq]
  cases checked : check K N host call disk with
  | error e => exact iff_of_true (outcome_error e fun _ _ => rfl) (clear_unchecked checked)
  | ok c =>
    cases current : currentEpoch host call c.actual disk with
    | error e =>
      simp only [current]
      exact iff_of_true (outcome_error e fun _ _ => rfl) (clear_refused checked current)
    | ok found => cases found with
      | some active =>
        simp only [current]
        exact active_iff checked current
      | none =>
        simp only [current]
        exact switch_iff checked current

def diskOf (files : List (Path × Content)) : Disk := fun path =>
  (files.find? fun x => x.1 == path).map fun x => .file x.2

def sampleHost : Host where
  text := fun path => "/".intercalate path
  tooLarge := fun _ => false
  files := fun _ _ => sampleFiles

def olderKeys : List String := ["a", "b", "c", "d"].map fun s => longKey '0' (s.toList.headD '0')

def newerKeys : List String := ["a", "b", "c", "d"].map fun s => longKey '1' (s.toList.headD '0')

def olderProposal : Value := sampleProposal 1 .null .null kidOf olderKeys

def olderBundle : Value := sampleBundle olderProposal .null olderKeys olderKeys

/-- Every role has a new key. -/
def newerBundle : Value :=
  sampleBundle (sampleProposal 2 (.str (hashOf olderProposal)) firstCheckpoint kidOf newerKeys)
    olderBundle newerKeys olderKeys

/-- U's configuration of the first epoch. -/
def olderConfig : Value :=
  match configuration lengthChecked olderBundle with
  | .ok (.dict d) => .dict (insert d (.str "role") (.str "U"))
  | _ => .null

/-- U activates the second epoch. -/
def rotationCall : Call where
  directory := ["operator"]
  bundle := newerBundle
  expectedFingerprint := match fingerprint lengthChecked (sampleProposal 2
    (.str (hashOf olderProposal)) firstCheckpoint kidOf newerKeys) with
    | .ok h => h
    | .error _ => ""
  bind := "127.0.0.1"
  modelEndpoint := none
  previousConfig := some ["older", "config.json"]
  now := 500
  retiredAt := 500

/-- The operator's directory with a temporary pointer that an earlier call left. -/
def leftover : Disk :=
  diskOf [(["operator", "operator.json"], .json (sampleCard kidOf "U" (longKey '1' 'a'))),
    (["operator", "operator.key"], .bytes (sealData (List.replicate 32 26))),
    (["operator", "active.tmp"], .json .null),
    (["older", "config.json"], .json olderConfig),
    (["older", "identity.key"], .bytes (sealData (List.replicate 32 10)))]

def retiredByFailure : EStateM.Result Failure Disk Value → Bool
  | .error _ disk => (disk (retirementPath ["older"])).isSome
  | .ok _ _ => false

theorem not_outcome {call : Call} {disk : Disk} {result : EStateM.Result Failure Disk Value}
    (absent : disk (retirementPath ["older"]) = none) (retired : retiredByFailure result = true) :
    ¬ Outcome K N call disk result := by
  cases result with
  | ok v disk' => cases retired
  | error e disk' =>
    intro kept
    rw [retiredByFailure, kept.1 ["older"], absent] at retired
    cases retired

/-- The call raises and the epoch before is retired. -/
theorem not_all_or_nothing :
    ¬ AllOrNothing lengthChecked sampleNetwork sampleHost rotationCall leftover := by
  apply not_outcome
  · decide
  · decide +kernel

end ActivationSafety
