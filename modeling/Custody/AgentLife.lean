import Custody.StoredResponses

/-!
# The life of an agent's records

Between two requests verdicts are asked for again, content expires, the third party
and the network go on, and the agent is started anew. None of it gives a response to
a record that the gate did not release.
-/

namespace AgentLife

open PyValue HexBytes CanonicalJson CanonicalForm Commitments Statements Schemas TransparencyLog
  Identity UserGate Effects Requests ResponseRelease StoredResponses PrivateContent Retention
open Backlog (requestKey)

variable {K : Primitives} {A : Setup} {O : Outside}

/-- But for the verdict, the row is what was written of the record. -/
def Copied (d : Dict) (r : Record) : Prop :=
  ∀ f, f ≠ "t_verdict" → find d (.str f) = (find r.toDict (.str f)).map canon

/-- What may happen to an agent, its requests and its store. -/
inductive Event where
  | request (O : Outside) (q : Call) (fuel : Nat) (s : Desk)
  | refresh (O : Outside) (sub : String) (s : Desk)
  | preview (store : Store) (retentionDays now created : Int)
  | expire (store : Store) (token : Value) (clock : Nat → Int)
  | net (ev : Delivery.Event)
  | restart (policy : Backlog.Policy)

/-- The record is one that a request wrote and left in its row, with the text that the relay
answered to it and its gate released. -/
structure ReleasedIn (K : Primitives) (A : Setup) (O : Outside) (q : Call) (fuel : Nat)
    (s : Desk) (r : Record) : Prop where
  prepared : Prepared K A q r
  written : r ∈ (final (request K A O q fuel s)).written
  stored : (final (request K A O q fuel s)).agent.kv.lookup (requestKey q.sub) =
    some (canon (.dict r.toDict))
  released : ∃ wire, Replied K A O q s wire ∧
    Released K A q wire r (final (request K A O q fuel s)).sights

/-- A row without a response, or one that is, but for the verdict, what a request among the
events wrote, with a response that was released in it. -/
def Vouched (K : Primitives) (A : Setup) (events : List Event) (key : String) (v : Value) : Prop :=
  ∃ d, v = .dict d ∧ (find d (.str "response") = some .null ∨
    ∃ O q fuel s r, .request O q fuel s ∈ events ∧ key = requestKey q.sub ∧
      ReleasedIn K A O q fuel s r ∧ Copied d r)

/-- A row as it can be read. -/
structure Sound (K : Primitives) (A : Setup) (events : List Event) (key : String) (v : Value) :
    Prop where
  written : Written v
  vouched : Vouched K A events key v

variable {events : List Event} {key : String}

/-- What vouches for a row goes on to do so. -/
theorem Sound.later {v : Value} (sound : Sound K A events key v) (more : List Event) :
    Sound K A (events ++ more) key v := by
  obtain ⟨d, form, vouched⟩ := sound.vouched
  refine ⟨sound.written, d, form, vouched.imp_right ?_⟩
  rintro ⟨O, q, fuel, s, r, happened, rest⟩
  exact ⟨O, q, fuel, s, r, List.mem_append_left _ happened, rest⟩

theorem find_canon {d e : Dict} (read : canon (.dict d) = .dict e) (f : String) :
    find e (.str f) = (find d (.str f)).map canon := by
  rw [canon] at read
  rw [← Value.dict.inj read, find_sortKeys, find_canonDict]

theorem canon_dict (d : Dict) : ∃ e, canon (.dict d) = .dict e := by
  rw [canon]
  exact ⟨_, rfl⟩

theorem response_field (r : Record) :
    find r.toDict (.str "response") = some (optionText r.response) := by
  simp [Record.toDict, fields, find]

theorem sound_record {q : Call} {fuel : Nat} {s : Desk} {r : Record} {bytes : Bytes}
    (happened : .request O q fuel s ∈ events)
    (member : r ∈ (final (request K A O q fuel s)).written)
    (stored : (final (request K A O q fuel s)).agent.kv.lookup (requestKey q.sub) =
      some (canon (.dict r.toDict)))
    (canonical : canonicalJson (.dict r.toDict) = .ok bytes)
    (accounted : Accounted K A O q s (final (request K A O q fuel s)).sights r) :
    Sound K A events (requestKey q.sub) (canon (.dict r.toDict)) := by
  refine ⟨⟨_, bytes, canonical, rfl⟩, ?_⟩
  obtain ⟨d, read⟩ := canon_dict r.toDict
  refine ⟨d, read, ?_⟩
  obtain ⟨prepared, none_ | released⟩ := accounted
  · left
    rw [find_canon read, response_field, none_]
    simp [optionText, canon]
  · exact .inr ⟨O, q, fuel, s, r, happened, rfl, ⟨prepared, member, stored, released⟩,
      fun f _ => find_canon read f⟩

/-- A new verdict leaves the rest of the row. -/
theorem Sound.verdict {d : Dict} (sound : Sound K A events key (.dict d)) {v : Value}
    {bytes : Bytes}
    (canonical : canonicalJson (.dict (insert d (.str "t_verdict") v)) = .ok bytes) :
    Sound K A events key (canon (.dict (insert d (.str "t_verdict") v))) := by
  refine ⟨⟨_, bytes, canonical, rfl⟩, ?_⟩
  obtain ⟨e, read⟩ := canon_dict (insert d (.str "t_verdict") v)
  have kept : ∀ f, f ≠ "t_verdict" → find e (.str f) = find d (.str f) := by
    intro f other
    rw [find_canon read, find_insert_str_ne _ (Ne.symm other), written_field sound.written]
  obtain ⟨d', same, vouched⟩ := sound.vouched
  obtain rfl := Value.dict.inj same
  refine ⟨e, read, ?_⟩
  rcases vouched with none_ | ⟨O, q, fuel, s, r, happened, named, released, copied⟩
  · exact .inl ((kept _ (by decide)).trans none_)
  · exact .inr ⟨O, q, fuel, s, r, happened, named, released, fun f other =>
      (kept f other).trans (copied f other)⟩

theorem revise_dict {s : Store} {pending : List Value} {item : Value} {now : Int}
    {change : String × Value} {salts : List Value}
    (revised : revise K s pending item now = .ok (change, salts)) :
    ∃ d, s.kv.lookup change.1 = some (.dict d) ∧ change.2 = .dict (withoutContent d now) := by
  obtain ⟨named, -, revised⟩ := bind_ok.mp revised
  obtain ⟨key, -, revised⟩ := bind_ok.mp revised
  obtain ⟨hash, -, revised⟩ := bind_ok.mp revised
  obtain ⟨listed, -, revised⟩ := bind_ok.mp revised
  split at revised
  · cases revised
  · obtain ⟨sub, -, revised⟩ := bind_ok.mp revised
    obtain ⟨used, -, revised⟩ := bind_ok.mp revised
    cases used with
    | true => cases revised
    | false =>
      obtain ⟨own, -, revised⟩ := bind_ok.mp revised
      obtain ⟨d, form, revised⟩ := bind_ok.mp revised
      obtain ⟨rfl, -⟩ := Prod.mk.inj (Except.ok.inj revised)
      refine ⟨d, get_dict ?_, rfl⟩
      cases stored : s.get key with
      | dict d' =>
        rw [stored] at form
        exact congrArg Value.dict (Except.ok.inj form)
      | _ =>
        rw [stored] at form
        cases form

theorem reviseAll_dict {s : Store} {pending : List Value} {clock : Nat → Int} {items : List Value}
    {n : Nat} {changes : List (String × Value)} {salts : List Value}
    (revised : reviseAll K s pending clock items n = .ok (changes, salts)) :
    ∀ change ∈ changes, ∃ d now, s.kv.lookup change.1 = some (.dict d) ∧
      change.2 = .dict (withoutContent d now) := by
  induction items generalizing n changes salts with
  | nil =>
    obtain ⟨rfl, -⟩ := Prod.mk.inj (Except.ok.inj revised)
    exact fun change none_ => by cases none_
  | cons item rest ih =>
    obtain ⟨⟨change, own⟩, first, revised⟩ := bind_ok.mp revised
    obtain ⟨⟨changes', more⟩, later, revised⟩ := bind_ok.mp revised
    obtain ⟨rfl, -⟩ := Prod.mk.inj (Except.ok.inj revised)
    intro other member
    rcases List.mem_cons.mp member with rfl | member
    · obtain ⟨d, stored, value⟩ := revise_dict first
      exact ⟨d, _, stored, value⟩
    · exact ih later other member

/-- A row of a request is left alone or loses its content. -/
theorem apply_rows (s : Store) (token : Value) (clock : Nat → Int) {key : String}
    (request : like requestHead key = true) :
    (Retention.apply K s token clock).1.kv.lookup key = s.kv.lookup key ∨
    ∃ d now, s.kv.lookup key = some (.dict d) ∧
      (Retention.apply K s token clock).1.kv.lookup key =
      some (canon (.dict (withoutContent d now))) := by
  rw [Retention.apply]
  cases done : applied K s token clock with
  | error e => exact .inl rfl
  | ok pair =>
    obtain ⟨next, out⟩ := pair
    obtain ⟨plan, pending, items, records, changes, salts, versions, -, -, -, -, revised, found,
      committed⟩ := applied_parts done
    have each := reviseAll_dict revised
    have present : ∀ change ∈ changes, change.1 ∈ s.kv := by
      intro change inside
      obtain ⟨d, -, record, -⟩ := each change inside
      exact AList.lookup_isSome.mp (Option.isSome_of_eq_some record)
    have after := commit_spec present committed
    obtain ⟨plan_, version⟩ := like_apart request
    have kept : key ∉ versions := by
      intro gone
      rw [mem_versions found, version] at gone
      cases gone.1
    by_cases changed : key ∈ changes.map (·.1)
    · obtain ⟨value, member, stored⟩ := after.changed key changed plan_ kept
      obtain ⟨d, now, record, rfl⟩ := each (key, value) member
      exact .inr ⟨d, now, record, stored⟩
    · exact .inl (after.others key changed plan_ kept)

/-- Without its content a row has no response. -/
theorem vouched_without {d : Dict} (written : Written (.dict d)) (now : Int) :
    Vouched K A events key (canon (.dict (withoutContent d now))) := by
  obtain ⟨left, read⟩ := canon_dict (withoutContent d now)
  exact ⟨left, read, .inl (pruned_of_written written now read).response⟩

theorem checkDict_insert {path s : String} {d : Dict} {v : Value}
    (checked : checkDict path d = .ok ()) (ascii : isAscii s = true)
    (fine : ∀ q, check q v = .ok ()) : checkDict path (insert d (.str s) v) = .ok () := by
  rw [checkDict_iff] at checked ⊢
  induction d with
  | nil =>
    intro p member
    obtain rfl := List.mem_singleton.mp member
    exact ⟨⟨s, rfl, ascii⟩, fine⟩
  | cons x rest ih =>
    obtain ⟨k, w⟩ := x
    have first := checked (k, w) List.mem_cons_self
    have later := ih fun p member => checked p (List.mem_cons_of_mem _ member)
    intro p member
    rw [PyValue.insert] at member
    split at member
    · rcases List.mem_cons.mp member with rfl | member
      · exact ⟨first.1, fine⟩
      · exact checked p (List.mem_cons_of_mem _ member)
    · rcases List.mem_cons.mp member with rfl | member
      · exact first
      · exact later p member

theorem written_check {d : Dict} (written : Written (.dict d)) (path : String) :
    checkDict path d = .ok () := by
  obtain ⟨u, bytes, canonical, same⟩ := written
  obtain ⟨_, checked, -⟩ := bind_ok.mp canonical
  have checked := check_anywhere _ path _ (check_canon _ u checked)
  rw [← same, CanonicalJson.check] at checked
  exact checked

theorem written_canon {d : Dict} (checked : checkDict "$" d = .ok ()) :
    Written (canon (.dict d)) := by
  have canonical : canonicalJson (.dict d) = .ok (utf8 (dump (canon (.dict d)))) := by
    rw [canonicalJson, CanonicalJson.check, checked]
    rfl
  exact ⟨.dict d, _, canonical, rfl⟩

theorem Sound.interrupted {v : Value} (sound : Sound K A events key v) :
    Sound K A events key (canon (Backlog.Agent.interrupted v)) := by
  obtain ⟨d, rfl, vouched⟩ := sound.vouched
  rw [Backlog.Agent.interrupted]
  split
  · generalize "Agent 종료로 중단되었습니다. " ++
      "원격 실행 결과는 불명이며 자동 재실행하지 않습니다." = cause
    obtain ⟨e, read⟩ := canon_dict (insert (insert (insert d (.str "state") (.str "interrupted"))
      (.str "response") .null) (.str "error") (.str cause))
    refine ⟨written_canon ?_, e, read, .inl ?_⟩
    · apply checkDict_insert _ (by decide) fun _ => rfl
      apply checkDict_insert _ (by decide) fun _ => rfl
      exact checkDict_insert (written_check sound.written _) (by decide) fun _ => rfl
    · rw [find_canon read, find_insert_str_ne _ (by decide), find_insert_self _ (by simp)]
      simp [canon]
  · have fixed : canon (.dict d) = .dict d := by
      obtain ⟨u, bytes, canonical, same⟩ := sound.written
      obtain ⟨_, checked, -⟩ := bind_ok.mp canonical
      rw [same]
      exact canon_canon u (check_keyed _ u checked)
    rw [fixed]
    exact sound

theorem recovered {keys : List String} (different : keys.Nodup)
    (kv : AList fun _ : String => Value) (key : String) :
    (keys.foldl (fun kv key => kv.insert key
      (canon (Backlog.Agent.interrupted ((kv.lookup key).getD .null)))) kv).lookup key =
    if key ∈ keys then some (canon (Backlog.Agent.interrupted ((kv.lookup key).getD .null)))
    else kv.lookup key := by
  induction keys generalizing kv with
  | nil => rfl
  | cons first rest ih =>
    rw [List.nodup_cons] at different
    rw [List.foldl_cons, ih different.2]
    by_cases same : key = first
    · subst same
      rw [if_neg different.1, AList.lookup_insert, if_pos List.mem_cons_self]
    · rw [AList.lookup_insert_ne same]
      simp only [List.mem_cons, same, false_or]

/-- The rows of requests are what they were. -/
def Unmoved (before : AList fun _ : String => Value) (s : Desk) : Prop :=
  ∀ key, like requestHead key = true → s.agent.kv.lookup key = before.lookup key

/-- One of them may have been written anew as `record`. -/
def Rewritten (before : AList fun _ : String => Value) (sub : String) (record : Dict) (s : Desk) :
    Prop :=
  ∀ key, like requestHead key = true → s.agent.kv.lookup key = before.lookup key ∨
    key = requestKey sub ∧ s.agent.kv.lookup key = some (canon (.dict record)) ∧
      ∃ bytes, canonicalJson (.dict record) = .ok bytes

/-- What a new verdict may do to the rows of requests. -/
def Refreshed (before : AList fun _ : String => Value) (s : Desk) : Prop :=
  ∀ key, like requestHead key = true → s.agent.kv.lookup key = before.lookup key ∨
    ∃ d v bytes, before.lookup key = some (.dict d) ∧
      canonicalJson (.dict (insert d (.str "t_verdict") v)) = .ok bytes ∧
      s.agent.kv.lookup key = some (canon (.dict (insert d (.str "t_verdict") v)))

variable {before : AList fun _ : String => Value}

theorem stable_unmoved : Stable (Unmoved before) :=
  fun _ _ unmoved rows _ _ key request => (rows key request).trans (unmoved key request)

theorem stable_rewritten {sub : String} {record : Dict} : Stable (Rewritten before sub record) := by
  intro s s' rewritten rows _ _ key request
  rw [rows key request]
  exact rewritten key request

theorem Unmoved.refreshed {s : Desk} (unmoved : Unmoved before s) : Refreshed before s :=
  fun key request => .inl (unmoved key request)

theorem Rewritten.refreshed {sub : String} {d : Dict} {v : Value} {s : Desk}
    (stored : before.lookup (requestKey sub) = some (.dict d))
    (rewritten : Rewritten before sub (insert d (.str "t_verdict") v) s) : Refreshed before s := by
  intro key request
  refine (rewritten key request).imp_right ?_
  rintro ⟨rfl, row, bytes, canonical⟩
  exact ⟨d, v, bytes, stored, canonical, row⟩

theorem ends_refresh (sub : String) (s : Desk) :
    Ends (refresh K A O sub) s (fun _ => Refreshed s.agent.kv) (Refreshed s.agent.kv) := by
  have start : Unmoved s.agent.kv s := fun _ _ => rfl
  have unmoved {B : Type} {x : Run B} (keeps : Keeps (Unmoved s.agent.kv) x) (s' : Desk)
      (held : Unmoved s.agent.kv s') :
      Ends x s' (fun _ => Unmoved s.agent.kv) (Refreshed s.agent.kv) :=
    (keeps s' held).mono (fun _ _ kept => kept) fun _ kept => kept.refreshed
  apply (unmoved stable_unmoved.through_access s start).bind
  intro _ s₁ at₁
  apply ends_get_bind
  cases stored : (s₁.agent.kv.lookup (requestKey sub)).getD .null with
  | dict d =>
    have row : s.agent.kv.lookup (requestKey sub) = some (.dict d) := by
      rw [← at₁ _ (Backlog.like_requestKey sub)]
      cases found : s₁.agent.kv.lookup (requestKey sub) with
      | none =>
        rw [found] at stored
        cases stored
      | some v =>
        rw [found] at stored
        exact congrArg some stored
    apply (unmoved (keeps_ofPy _) s₁ at₁).bind
    intro state s₂ at₂
    apply (unmoved (keeps_demand _ _) s₂ at₂).bind
    intro _ s₃ at₃
    apply (unmoved stable_unmoved.through_access s₃ at₃).bind
    intro _ s₄ at₄
    apply (unmoved (keeps_ofPy _) s₄ at₄).bind
    intro b s₅ at₅
    apply (unmoved (stable_unmoved.through_verdict b) s₅ at₅).bind
    intro stmt s₆ at₆
    have first : Rewritten s.agent.kv sub (insert d (.str "t_verdict") stmt.toDict) s₆ :=
      fun key request => .inl (at₆ key request)
    have write : Keeps (Rewritten s.agent.kv sub (insert d (.str "t_verdict") stmt.toDict))
        (writing K O fun agent => agent.put (requestKey sub)
          (.dict (insert d (.str "t_verdict") stmt.toDict)) none) := by
      apply keeps_writing stable_rewritten.through_moment
      intro s' after rewritten done key request
      obtain ⟨canonical, -, rows⟩ := put_rows done
      rw [rows]
      by_cases same : key = requestKey sub
      · subst same
        exact .inr ⟨rfl, AList.lookup_insert _, canonical⟩
      · rw [AList.lookup_insert_ne same]
        exact rewritten key request
    apply ((write s₆ first).mono (fun _ _ kept => kept) fun _ kept => kept.refreshed row).bind
    exact fun _ s₇ at₇ => ends_pure (at₇.refreshed row)
  | _ => exact ends_throw at₁.refreshed

/-- What an event makes of the agent. -/
inductive Step (K : Primitives) (A : Setup) : Event → Backlog.Agent → Backlog.Agent → Prop where
  | request (O : Outside) (q : Call) (fuel : Nat) (s : Desk) :
      Step K A (.request O q fuel s) s.agent (final (request K A O q fuel s)).agent
  | refresh (O : Outside) (sub : String) (s : Desk) :
      Step K A (.refresh O sub s) s.agent (final (refresh K A O sub s)).agent
  | preview (agent : Backlog.Agent) (store next : Store) (retentionDays now created : Int)
      (shown : Dict) (same : store.kv = agent.kv)
      (made : Retention.preview K store retentionDays now created = .ok (next, shown)) :
      Step K A (.preview store retentionDays now created) agent { agent with kv := next.kv }
  | expire (agent : Backlog.Agent) (store : Store) (token : Value) (clock : Nat → Int)
      (same : store.kv = agent.kv) :
      Step K A (.expire store token clock) agent
        { agent with kv := (Retention.apply K store token clock).1.kv }
  | net (agent : Backlog.Agent) (ev : Delivery.Event) :
      Step K A (.net ev) agent (agent.step K (.net ev))
  | restart (agent : Backlog.Agent) (policy : Backlog.Policy) :
      Step K A (.restart policy) agent (agent.step K (.restart policy))

/-- One event after the other. -/
inductive Life (K : Primitives) (A : Setup) (first : Backlog.Agent) :
    List Event → Backlog.Agent → Prop where
  | start : Life K A first [] first
  | step {events : List Event} {agent after : Backlog.Agent} {ev : Event}
      (life : Life K A first events agent) (step : Step K A ev agent after) :
      Life K A first (events ++ [ev]) after

/-- Every row of a request is sound. -/
def Records (K : Primitives) (A : Setup) (events : List Event) (agent : Backlog.Agent) : Prop :=
  ∀ key v, like requestHead key = true → agent.kv.lookup key = some v → Sound K A events key v

theorem records_step {agent after : Backlog.Agent} {ev : Event} (step : Step K A ev agent after)
    (records : Records K A events agent) : Records K A (events ++ [ev]) after := by
  intro key v request found
  have kept : agent.kv.lookup key = some v → Sound K A (events ++ [ev]) key v :=
    fun same => (records key v request same).later [ev]
  cases step with
  | request O q fuel s =>
    rcases rows_accounted q fuel s request with same |
      ⟨rfl, r, member, stored, ⟨bytes, canonical⟩, fine⟩
    · exact kept (same.symm.trans found)
    · obtain rfl := Option.some.inj (stored.symm.trans found)
      exact sound_record (List.mem_append_right _ List.mem_cons_self) member stored canonical fine
  | refresh O sub s =>
    have refreshed := (ends_refresh (K := K) (A := A) (O := O) sub s).final
      (P := Refreshed s.agent.kv) (fun _ _ held => held) fun _ held => held
    rcases refreshed key request with same | ⟨d, verdict, bytes, stored, canonical, row⟩
    · exact kept (same.symm.trans found)
    · obtain rfl := Option.some.inj (row.symm.trans found)
      exact ((records key _ request stored).verdict canonical).later _
  | preview _ store next days now created shown same made =>
    obtain ⟨pending, -, made⟩ := bind_ok.mp made
    obtain ⟨⟨selected, n⟩, -, made⟩ := bind_ok.mp made
    obtain ⟨token, -, made⟩ := bind_ok.mp made
    obtain ⟨next', put, made⟩ := bind_ok.mp made
    obtain ⟨rfl, -⟩ := Prod.mk.inj (Except.ok.inj made)
    have found : next'.kv.lookup key = some v := found
    rw [(put_spec put).1, AList.lookup_insert_ne (like_apart request).1, same] at found
    exact kept found
  | expire _ store token clock same =>
    rcases apply_rows store token clock request with left | ⟨d, now, stored, row⟩
    · rw [same] at left
      exact kept (left.symm.trans found)
    · have written := store.written key _ stored
      have left := (Retention.apply K store token clock).1.written key v found
      obtain rfl := Option.some.inj (row.symm.trans found)
      exact ⟨left, vouched_without written now⟩
  | net _ ev =>
    rw [net_rows] at found
    exact kept found
  | restart _ policy =>
    have row : (Backlog.Agent.recover agent.kv).lookup key = some v := found
    rw [Backlog.Agent.recover, recovered (agent.kv.keys_nodup.filter _)] at row
    split at row
    next listed =>
      obtain rfl := Option.some.inj row
      obtain ⟨old, stored⟩ := Option.isSome_iff_exists.mp
        (AList.lookup_isSome.mpr (AList.mem_keys.mp (List.mem_filter.mp listed).1))
      rw [stored]
      exact (records key old request stored).interrupted.later _
    next => exact kept row

theorem records_life {first agent : Backlog.Agent} (records : Records K A [] first)
    (life : Life K A first events agent) : Records K A events agent := by
  induction life with
  | start => exact records
  | step _ step ih => exact records_step step ih

/-- In the store of an agent that was set up empty, whatever happened since: a response that is
there was released by the gate in a request among the events, and but for the verdict the record
is still what that request wrote and left in its row. -/
theorem stored_responses_released {config : Backlog.Config} {third : Journal.Keeper}
    {sender : Delivery.Sender} {events : List Event} {agent : Backlog.Agent}
    (life : Life K A (Backlog.start config third sender) events agent) (sub : String) :
    agent.kv.lookup (requestKey sub) = none ∨
    ∃ d, agent.kv.lookup (requestKey sub) = some (.dict d) ∧
      (find d (.str "response") = some .null ∨
        ∃ O q fuel s r, .request O q fuel s ∈ events ∧ q.sub = sub ∧
          ReleasedIn K A O q fuel s r ∧
          ∀ f, f ≠ "t_verdict" → find d (.str f) = (find r.toDict (.str f)).map canon) := by
  have start : Records K A [] (Backlog.start config third sender) := by
    intro key v request found
    cases found
  cases found : agent.kv.lookup (requestKey sub) with
  | none => exact .inl rfl
  | some v =>
    obtain ⟨d, rfl, vouched⟩ :=
      (records_life start life _ v (Backlog.like_requestKey sub) found).vouched
    refine .inr ⟨d, rfl, vouched.imp_right ?_⟩
    rintro ⟨O, q, fuel, s, r, happened, named, released, copied⟩
    exact ⟨O, q, fuel, s, r, happened, ((String.append_right_inj _).mp named).symm, released,
      copied⟩

theorem life_of_request (O : Outside) (q : Call) (fuel : Nat) (s : Desk) :
    Life K A s.agent [.request O q fuel s] (final (request K A O q fuel s)).agent :=
  .step .start (.request O q fuel s)

/-- The text that is in the row of a request. -/
def textAt (agent : Backlog.Agent) (sub : String) : Option String :=
  match agent.kv.lookup (requestKey sub) with
  | some (.dict d) => match find d (.str "response") with
    | some (.str text) => some text
    | _ => none
  | _ => none

theorem textAt_field {agent : Backlog.Agent} {sub text : String} {d : Dict}
    (shown : textAt agent sub = some text)
    (found : agent.kv.lookup (requestKey sub) = some (.dict d)) :
    find d (.str "response") = some (.str text) := by
  rw [textAt, found] at shown
  simp only at shown
  split at shown
  next text' field =>
    rw [field, Option.some.inj shown]
  next => cases shown

/-- A relay that answers with a text and encloses no statement. -/
def answering : Outside :=
  { moment := fun _ => { reply := .ok (.dict (fields [("body", textBody "hi")])) } }

def observedCall : Call := { sampleCall with mode := .str "observe" }

theorem observed_text : textAt (final (request brief sampleSetup answering observedCall 1
    sampleDesk)).agent observedCall.sub = some "hi" := by
  decide +kernel

/-- After a request in observe mode that was answered, the text is in its row. -/
theorem stored_responses_released_answered : ∃ events agent d,
    Life brief sampleSetup sampleAgent events agent ∧
    agent.kv.lookup (requestKey observedCall.sub) = some (.dict d) ∧
    find d (.str "response") = some (.str "hi") ∧
    ∃ O q fuel s r, .request O q fuel s ∈ events ∧ q.sub = observedCall.sub ∧
      ReleasedIn brief sampleSetup O q fuel s r ∧
      ∀ f, f ≠ "t_verdict" → find d (.str f) = (find r.toDict (.str f)).map canon := by
  obtain ⟨events, agent, life, shown⟩ : ∃ events agent,
      Life brief sampleSetup sampleAgent events agent ∧
      textAt agent observedCall.sub = some "hi" :=
    ⟨_, _, life_of_request _ _ _ sampleDesk, observed_text⟩
  rcases stored_responses_released life observedCall.sub with none_ | ⟨d, found, vouched⟩
  · rw [textAt, none_] at shown
    cases shown
  · have field := textAt_field shown found
    rcases vouched with null | released
    · cases field.symm.trans null
    · exact ⟨events, agent, d, life, found, field, released⟩

end AgentLife
