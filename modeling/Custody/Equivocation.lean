import Custody.Omissions

/-!
# Two roots for one size

Only the first receipt of each size is held against the tree. A second receipt
of the same size with another root goes unnoticed behind one that agrees, and is
noticed in front of it.
-/

namespace Equivocation

open PyValue Equality HexBytes CanonicalJson Commitments Statements Engine Merkle TransparencyLog
  HeldReceipts HeldMeaning AppendOnly Omissions BlockedJudgment

variable {K : Primitives} {ctx : HeldContext} {tsa : Value → Except String Value}

/-- The receipt of an item that is neither unverifiable nor after the snapshot. -/
def Counted (K : Primitives) (ctx : HeldContext) (held : List Value) (rc : RegistrationReceipt) :
    Prop :=
  ∃ item ∈ held, ∃ x, standing K ctx item = .ok x ∧ x.2.counted = some rc

/-- In every order of the held list the audit says the same, and says yes only if every counted
receipt has the root of the presented tree at its size. -/
def Trustworthy (K : Primitives) (ctx : HeldContext) (tsa : Value → Except String Value)
    (held : List Value) : Prop :=
  ∀ held₁ held₂ r₁ r₂, held₁.Perm held → held₂.Perm held →
    verifyHeldReceipts K ctx tsa held₁ = .ok r₁ → verifyHeldReceipts K ctx tsa held₂ = .ok r₂ →
    r₁.ok = r₂.ok ∧ (r₁.ok = true → ∀ rc, Counted K ctx held rc → Agrees K ctx.tree rc)

def SameSize (a b : RegistrationReceipt) : Prop := a.treeSize.scalarEq b.treeSize = true

/-- A receipt that disagrees with the tree could stand behind one of its size that agrees, and
nothing else makes the audit fail. -/
structure Masked (K : Primitives) (ctx : HeldContext) (held : List Value) : Prop where
  returns : ∀ item ∈ held, Returns (standing K ctx item)
  present : ∀ item ∈ held, ∀ x, standing K ctx item = .ok x → x.2.missingRecord = none
  covered : ∀ rc, Counted K ctx held rc →
    ∃ other, Counted K ctx held other ∧ SameSize other rc ∧ Agrees K ctx.tree other
  disagrees : ∃ rc, Counted K ctx held rc ∧ ¬ Agrees K ctx.tree rc

theorem placed_hashable {ident : Dict} {rc rc' : RegistrationReceipt} {st : Standing}
    (h : placed K ctx ident rc = .ok st) (counted : st.counted = some rc') :
    rc'.treeSize.hashable = true := by
  rw [placed] at h
  by_cases hashable : rc.treeSize.hashable = true
  · simp only [hashable, Bool.not_true, Bool.false_eq_true, if_false] at h
    obtain ⟨entry, -, h⟩ := bind_ok.mp h
    have ends : st = .included rc ∨ ∃ record, st = .missing rc record := by
      cases entry with
      | none =>
        simp only [pure_ok, ok_bind, Bool.false_eq_true, if_false] at h
        obtain ⟨found, -, h⟩ := bind_ok.mp h
        exact .inr ⟨_, (Except.ok.inj h).symm⟩
      | some e =>
        obtain ⟨there, -, h⟩ := bind_ok.mp h
        cases there with
        | true => exact .inl (Except.ok.inj h).symm
        | false =>
          obtain ⟨found, -, h⟩ := bind_ok.mp h
          exact .inr ⟨_, (Except.ok.inj h).symm⟩
    rcases ends with rfl | ⟨record, rfl⟩
    · obtain rfl := Option.some.inj counted
      exact hashable
    · obtain rfl := Option.some.inj counted
      exact hashable
  · simp [hashable] at h

theorem counted_hashable {held : List Value} {rc : RegistrationReceipt}
    (counted : Counted K ctx held rc) : rc.treeSize.hashable = true := by
  obtain ⟨item, -, x, stood, same⟩ := counted
  rw [standing] at stood
  obtain ⟨named, -, stood⟩ := bind_ok.mp stood
  generalize (if named.truthy then named else .str "U" : Value) = holder at stood
  by_cases hashable : holder.hashable = true
  · simp only [hashable, Bool.not_true, Bool.false_eq_true, if_false] at stood
    obtain ⟨sub, -, stood⟩ := bind_ok.mp stood
    obtain ⟨contentType, -, stood⟩ := bind_ok.mp stood
    obtain ⟨read, -, stood⟩ := bind_ok.mp stood
    cases read with
    | none =>
      obtain rfl := Except.ok.inj stood
      cases same
    | some rc' =>
      obtain ⟨st, judged, stood⟩ := bind_ok.mp stood
      obtain rfl := Except.ok.inj stood
      rw [standingOf] at judged
      obtain ⟨late, -, judged⟩ := bind_ok.mp judged
      cases late with
      | true =>
        obtain rfl := Except.ok.inj judged
        cases same
      | false =>
        simp only [Bool.false_eq_true, if_false] at judged
        obtain ⟨valid, -, judged⟩ := bind_ok.mp judged
        cases valid with
        | true => exact placed_hashable judged same
        | false =>
          obtain rfl := Except.ok.inj judged
          cases same
  · simp [hashable] at stood

/-- The fold that keeps the first receipt of each size. -/
def keepReceipt (acc : List RegistrationReceipt) (rc : RegistrationReceipt) :
    List RegistrationReceipt :=
  if acc.any fun a => a.treeSize.scalarEq rc.treeSize then acc else acc ++ [rc]

theorem firstsOf_fold (rcs : List RegistrationReceipt) :
    firstsOf rcs = rcs.foldl keepReceipt [] := rfl

theorem keepReceipt_mem {acc : List RegistrationReceipt} {rc kept : RegistrationReceipt}
    (member : kept ∈ acc) : kept ∈ keepReceipt acc rc := by
  unfold keepReceipt
  split
  next => exact member
  next => exact List.mem_append_left _ member

theorem fold_mem {rcs acc : List RegistrationReceipt} {kept : RegistrationReceipt}
    (member : kept ∈ acc) : kept ∈ rcs.foldl keepReceipt acc := by
  induction rcs generalizing acc with
  | nil => exact member
  | cons rc rcs ih => exact ih (keepReceipt_mem member)

/-- Every receipt has a first of its size. -/
theorem first_of_size {rcs : List RegistrationReceipt} {rc : RegistrationReceipt}
    (hashable : rc.treeSize.hashable = true) (member : rc ∈ rcs) :
    ∃ first ∈ firstsOf rcs, SameSize first rc := by
  have walk : ∀ acc : List RegistrationReceipt,
      ∃ first ∈ rcs.foldl keepReceipt acc, SameSize first rc := by
    induction rcs with
    | nil => cases member
    | cons x rcs ih =>
      intro acc
      rw [List.foldl_cons]
      rcases List.mem_cons.mp member with rfl | later
      · by_cases known : (acc.any fun a => a.treeSize.scalarEq rc.treeSize) = true
        · obtain ⟨first, inside, same⟩ := List.any_eq_true.mp known
          exact ⟨first, fold_mem (keepReceipt_mem inside), same⟩
        · have kept : keepReceipt acc rc = acc ++ [rc] := if_neg known
          rw [kept]
          exact ⟨rc, fold_mem (List.mem_append_right _ List.mem_cons_self),
            scalarEq_refl hashable⟩
      · exact ih later (keepReceipt acc x)
  exact walk []

/-- Once all sizes have been seen, the rest of the list adds nothing. -/
theorem fold_seen {rcs acc : List RegistrationReceipt}
    (seen : ∀ rc ∈ rcs, ∃ first ∈ acc, SameSize first rc) :
    rcs.foldl keepReceipt acc = acc := by
  induction rcs with
  | nil => rfl
  | cons rc rcs ih =>
    obtain ⟨first, inside, same⟩ := seen rc List.mem_cons_self
    have known : (acc.any fun a => a.treeSize.scalarEq rc.treeSize) = true :=
      List.any_eq_true.mpr ⟨first, inside, same⟩
    have kept : keepReceipt acc rc = acc := if_pos known
    rw [List.foldl_cons, kept]
    exact ih fun x member => seen x (List.mem_cons_of_mem _ member)

theorem counted_listed {held : List Value} {xs : List (Value × Standing)}
    {rc : RegistrationReceipt} (stood : held.mapM (standing K ctx) = .ok xs) :
    rc ∈ countedOf xs ↔ Counted K ctx held rc := by
  constructor
  · intro member
    obtain ⟨x, inside, same⟩ := List.mem_filterMap.mp member
    obtain ⟨item, listed, result⟩ := mem_mapM_ok stood inside
    exact ⟨item, listed, x, result, same⟩
  · rintro ⟨item, listed, x, result, same⟩
    obtain ⟨y, inside, result'⟩ := mapM_ok_mem stood listed
    obtain rfl := Except.ok.inj (result.symm.trans result')
    exact List.mem_filterMap.mpr ⟨x, inside, same⟩

theorem report_ok {held : List Value} {report : HeldReport}
    (run : verifyHeldReceipts K ctx tsa held = .ok report) :
    ∃ xs, held.mapM (standing K ctx) = .ok xs ∧ (report.ok = true ↔
      (∀ x ∈ xs, x.2.missingRecord = none) ∧
        ∀ rc ∈ firstsOf (countedOf xs), Agrees K ctx.tree rc) := by
  obtain ⟨xs, anchors, stood, checked, rfl⟩ := verifyHeld_ok.mp run
  refine ⟨xs, stood, ?_⟩
  rw [← checkFirsts_results checked]
  simp [reportOf]

/-- A yes means that nothing is missing and every size has a receipt that agrees. -/
theorem ok_covered {held : List Value} {report : HeldReport}
    (run : verifyHeldReceipts K ctx tsa held = .ok report) (said : report.ok = true) :
    (∀ item ∈ held, Returns (standing K ctx item)) ∧
    (∀ item ∈ held, ∀ x, standing K ctx item = .ok x → x.2.missingRecord = none) ∧
    ∀ rc, Counted K ctx held rc →
      ∃ other, Counted K ctx held other ∧ SameSize other rc ∧ Agrees K ctx.tree other := by
  obtain ⟨xs, stood, means⟩ := report_ok run
  obtain ⟨present, agree⟩ := means.mp said
  refine ⟨mapM_returns.mp ⟨xs, stood⟩, ?_, ?_⟩
  · intro item listed x result
    obtain ⟨y, inside, result'⟩ := mapM_ok_mem stood listed
    obtain rfl := Except.ok.inj (result.symm.trans result')
    exact present x inside
  · intro rc counted
    have member := (counted_listed stood).mpr counted
    obtain ⟨first, kept, same⟩ := first_of_size (counted_hashable counted) member
    exact ⟨first, (counted_listed stood).mp (firstsOf_mem kept), same, agree first kept⟩

theorem counted_perm {held held' : List Value} {rc : RegistrationReceipt}
    (perm : held'.Perm held) : Counted K ctx held' rc ↔ Counted K ctx held rc := by
  constructor
  · rintro ⟨item, listed, x, result, same⟩
    exact ⟨item, perm.mem_iff.mp listed, x, result, same⟩
  · rintro ⟨item, listed, x, result, same⟩
    exact ⟨item, perm.mem_iff.mpr listed, x, result, same⟩

/-- If one order gets a yes and no receipt disagrees, every order gets a yes. -/
theorem ok_every_order {held held' : List Value} {report report' : HeldReport}
    (perm : held'.Perm held) (run : verifyHeldReceipts K ctx tsa held = .ok report)
    (run' : verifyHeldReceipts K ctx tsa held' = .ok report')
    (agree : ∀ rc, Counted K ctx held rc → Agrees K ctx.tree rc) (said : report.ok = true) :
    report'.ok = true := by
  obtain ⟨-, present, -⟩ := ok_covered run said
  obtain ⟨xs, stood, means⟩ := report_ok run'
  apply means.mpr
  constructor
  · intro x inside
    obtain ⟨item, listed, result⟩ := mem_mapM_ok stood inside
    exact present item (perm.mem_iff.mp listed) x result
  · intro rc kept
    have counted := (counted_listed stood).mp (firstsOf_mem kept)
    exact agree rc ((counted_perm perm).mp counted)

open Classical in
/-- The items whose receipt agrees come first. -/
theorem agreeing_first (held : List Value) : ∃ front back, (front ++ back).Perm held ∧
    (∀ item ∈ front, ∀ x rc, standing K ctx item = .ok x → x.2.counted = some rc →
      Agrees K ctx.tree rc) ∧
    ∀ rc, Counted K ctx held rc → Agrees K ctx.tree rc → Counted K ctx front rc := by
  let agreeing : Value → Bool := fun item => decide (∀ x rc, standing K ctx item = .ok x →
    x.2.counted = some rc → Agrees K ctx.tree rc)
  refine ⟨held.filter agreeing, held.filter fun item => !agreeing item,
    List.filter_append_perm agreeing held, ?_, ?_⟩
  · intro item member
    exact of_decide_eq_true (List.mem_filter.mp member).2
  · rintro rc ⟨item, listed, x, result, same⟩ agree
    refine ⟨item, List.mem_filter.mpr ⟨listed, ?_⟩, x, result, same⟩
    apply decide_eq_true
    intro y rc' result' same'
    obtain rfl := Except.ok.inj (result.symm.trans result')
    obtain rfl := Option.some.inj (same.symm.trans same')
    exact agree

theorem agrees_sized {rc : RegistrationReceipt} (agree : Agrees K ctx.tree rc) :
    ∃ (n : Nat) (root : Bytes), number rc.treeSize = some (n : Int) ∧
      rc.rootHash = .str (hex root) := by
  obtain ⟨n, size, -, root⟩ := agree
  exact ⟨n, _, size, root⟩

/-- With the agreeing receipts in front the audit says yes. -/
theorem masked_accepted {held : List Value} (masked : Masked K ctx held) :
    ∃ held' report, held'.Perm held ∧ verifyHeldReceipts K ctx tsa held' = .ok report ∧
      report.ok = true := by
  obtain ⟨front, back, perm, agreeing, moved⟩ := @agreeing_first K ctx held
  have returns : ∀ item ∈ front ++ back, Returns (standing K ctx item) := fun item member =>
    masked.returns item (perm.mem_iff.mp member)
  obtain ⟨ys, early⟩ := mapM_returns.mpr fun item member =>
    returns item (List.mem_append_left back member)
  obtain ⟨zs, late⟩ := mapM_returns.mpr fun item member =>
    returns item (List.mem_append_right front member)
  have stood := mapM_append_ok early late
  have split : countedOf (ys ++ zs) = countedOf ys ++ countedOf zs := List.filterMap_append
  have firsts : firstsOf (countedOf (ys ++ zs)) = firstsOf (countedOf ys) := by
    rw [split, firstsOf_fold, List.foldl_append, ← firstsOf_fold]
    apply fold_seen
    intro rc member
    have counted : Counted K ctx held rc :=
      (counted_perm perm).mp ((counted_listed stood).mp (by
        rw [split]
        exact List.mem_append_right _ member))
    obtain ⟨other, covers, same, agree⟩ := masked.covered rc counted
    have inFront := moved other covers agree
    obtain ⟨first, kept, size⟩ := first_of_size (counted_hashable inFront)
      ((counted_listed early).mpr inFront)
    exact ⟨first, kept, scalarEq_trans size same⟩
  have agree : ∀ rc ∈ firstsOf (countedOf (ys ++ zs)), Agrees K ctx.tree rc := by
    intro rc kept
    rw [firsts] at kept
    obtain ⟨item, listed, x, result, same⟩ := (counted_listed early).mp (firstsOf_mem kept)
    exact agreeing item listed x rc result same
  obtain ⟨anchors, checked⟩ := @checkFirsts_returns K tsa ctx.tree (countedOf (ys ++ zs))
    fun rc kept => agrees_sized (agree rc kept)
  refine ⟨front ++ back, reportOf (front ++ back) (ys ++ zs) anchors, perm,
    verifyHeld_ok.mpr ⟨_, anchors, stood, checked, rfl⟩, ?_⟩
  have present : ∀ x ∈ ys ++ zs, x.2.missingRecord = none := by
    intro x inside
    obtain ⟨item, listed, result⟩ := mem_mapM_ok stood inside
    exact masked.present item (perm.mem_iff.mp listed) x result
  have all := (checkFirsts_results checked).mpr agree
  simp only [reportOf, all, Bool.and_true, List.isEmpty_iff, List.filterMap_eq_nil_iff]
  exact present

/-- The audit can be trusted exactly when no receipt hides behind another. -/
theorem trustworthy_iff (held : List Value) :
    Trustworthy K ctx tsa held ↔ ¬ Masked K ctx held := by
  constructor
  · intro trusted masked
    obtain ⟨held', report, perm, run, said⟩ := @masked_accepted K ctx tsa held masked
    obtain ⟨rc, counted, disagrees⟩ := masked.disagrees
    exact disagrees ((trusted held' held' report report perm perm run run).2 said rc counted)
  · intro unmasked held₁ held₂ r₁ r₂ perm₁ perm₂ run₁ run₂
    have agree : ∀ held' r, held'.Perm held → verifyHeldReceipts K ctx tsa held' = .ok r →
        r.ok = true → ∀ rc, Counted K ctx held' rc → Agrees K ctx.tree rc := by
      intro held' r perm run said rc counted
      obtain ⟨returns, present, covered⟩ := ok_covered run said
      by_contra disagrees
      apply unmasked
      refine ⟨?_, ?_, ?_, rc, (counted_perm perm).mp counted, disagrees⟩
      · intro item listed
        exact returns item (perm.mem_iff.mpr listed)
      · intro item listed
        exact present item (perm.mem_iff.mpr listed)
      · intro rc' counted'
        obtain ⟨other, covers, rest⟩ := covered rc' ((counted_perm perm).mpr counted')
        exact ⟨other, (counted_perm perm).mp covers, rest⟩
    refine ⟨Bool.eq_iff_iff.mpr ⟨?_, ?_⟩, ?_⟩
    · intro said
      exact ok_every_order (perm₂.trans perm₁.symm) run₁ run₂ (agree held₁ r₁ perm₁ run₁ said) said
    · intro said
      exact ok_every_order (perm₁.trans perm₂.symm) run₂ run₁ (agree held₂ r₂ perm₂ run₂ said) said
    · intro said rc counted
      exact agree held₁ r₁ perm₁ run₁ said rc ((counted_perm perm₁).mpr counted)

def heldReceipt (rc : RegistrationReceipt) : Value :=
  .dict [(.str "receipt", rc.toDict), (.str "sub", plainContract.sub), (.str "holder", .str "U")]

/-- The receipt signed once more with another root. -/
def forked (rc : RegistrationReceipt) : RegistrationReceipt := { rc with rootHash := .str "00" }

/-- What the audit says of the two receipts in both orders. -/
def bothOrders : Py (Bool × Bool) := do
  let log ← plainLog
  let rc ← (registerIn toy log plainContract 10).2
  let ctx := contextOf toy (registerIn toy log plainContract 10).1 50
  let tsa := fun _ => Except.error ""
  let first ← verifyHeldReceipts toy ctx tsa [heldReceipt rc, heldReceipt (forked rc)]
  let second ← verifyHeldReceipts toy ctx tsa [heldReceipt (forked rc), heldReceipt rc]
  pure (first.ok, second.ok)

theorem bothOrders_differ : bothOrders = .ok (true, false) := by
  decide +kernel

/-- The receipt with another root is noticed in front and not behind. -/
theorem second_root_unnoticed : ∃ log rc, plainLog = .ok log ∧
    (registerIn toy log plainContract 10).2 = .ok rc ∧
    ¬ Trustworthy toy (contextOf toy (registerIn toy log plainContract 10).1 50)
      (fun _ => .error "") [heldReceipt rc, heldReceipt (forked rc)] := by
  obtain ⟨log, opened, run⟩ := bind_ok.mp bothOrders_differ
  obtain ⟨rc, issued, run⟩ := bind_ok.mp run
  obtain ⟨first, front, run⟩ := bind_ok.mp run
  obtain ⟨second, behind, run⟩ := bind_ok.mp run
  have answers := Except.ok.inj run
  have yes : first.ok = true := congrArg Prod.fst answers
  have no : second.ok = false := congrArg Prod.snd answers
  refine ⟨log, rc, opened, issued, ?_⟩
  intro trusted
  have same := (trusted _ _ first second (List.Perm.refl _) (List.Perm.swap _ _ _) front behind).1
  rw [yes, no] at same
  cases same

end Equivocation
