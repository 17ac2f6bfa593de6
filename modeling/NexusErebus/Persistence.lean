import NexusErebus.Async.WriteBehind
import NexusErebus.Records
import NexusErebus.Sample
import NexusErebus.UserStore

/-!
# The stored records catch up

The agent answers from the `users` map and stores the public fields of a user whenever it has
changed them, mostly without waiting.  So the store lags behind the map.  Its Redis client sends
the commands over one connection, and the answers come in order.

After a change, and before it waits, a program of the agent calls `persist`, which reads the
fields and will write what it read.  This is the rule of `Async.WriteBehind`.  So the store
catches up: at any time the writes that are due bring the records of the store to those of the
map, whatever the agent does and in whatever order the chain, the language model and Telegram
answer.

The runs begin after the boot, and no other process writes to the records.  The handle
`undefined` is left out, because a user without a handle has the same key.
-/

namespace Nexus

open Async Text

/-! ## The records -/

/-- The public fields of a record. -/
def recordFields : List String := ["sol", "tierBal", "auto", "risk"]

/-- The record of a handle in the `users` map of the agent. -/
def heldRecord (st : St) (h : String) : Option (List (String × String)) :=
  if h = "undefined" then none else ((st.mem .agent).users.lookup (some h)).map publicFields

/-- The record of a handle in the store. -/
def storedRecord (st : St) (h : String) : Option (List (String × String)) :=
  if h = "undefined" then none
  else recordFields.mapM fun f => ((st.redis.hashes (userKey (some h))).lookup f).map (f, ·)

/-- An event of the agent after its boot. -/
def Ev.ofAgent : Ev → Bool
  | .boot | .request _ => false
  | .call p _ => p = .agent
  | _ => true

section

variable (env : Env)

/-- The agent, after its boot. -/
def agentAlone : Machine sig Err :=
  processes env Ev.pid (Ev.body env) fun ev st => if ev.ofAgent then ev.enter st else none

/-- A command of the Redis client of the agent. -/
def Cmd.ordered : Cmd → Bool
  | .redis _ => true
  | _ => false

/-- The records in the map and in the store. -/
def records : WriteBehind (agentAlone env) where
  Key := String
  Val := List (String × String)
  decKey := inferInstance
  memory := heldRecord
  store := storedRecord
  ordered := Cmd.ordered
  waits c hc := by
    cases c with
    | redis c => rfl
    | _ => cases hc

end

section

variable {env : Env}

theorem step_agent {p : Pid} {c : Cmd} {st st' : St} {a : c.Ans} {r : c.Res}
    (hs : (agentAlone env).step p c st a = some (r, st')) : exec p c st a = (r, st') :=
  Option.some.inj (Option.ite_none_right_eq_some.mp hs).2

theorem heldRecord_congr {st st' : St} {h : String}
    (hu : (st'.mem .agent).users.lookup (some h) = (st.mem .agent).users.lookup (some h)) :
    heldRecord st' h = heldRecord st h := by
  rw [heldRecord, heldRecord, hu]

/-- What the records depend on. -/
theorem keeps_of_eq {st st' : St}
    (hu : ∀ h, h ≠ "undefined" → (st'.mem .agent).users.lookup (some h) =
      (st.mem .agent).users.lookup (some h))
    (hh : ∀ h, h ≠ "undefined" → st'.redis.hashes (userKey (some h)) =
      st.redis.hashes (userKey (some h))) : (records env).Keeps st st' := by
  refine ⟨funext fun h => ?_, funext fun h => ?_⟩
  · by_cases hh : h = "undefined"
    · subst hh
      rfl
    · exact heldRecord_congr (hu h hh)
  · simp only [records, storedRecord]
    split
    · rfl
    next hne => rw [hh h hne]

/-- A command that does not change a user of the map. -/
theorem users_exec {c : Cmd} {k : Str} (hset : ∀ u, c ≠ .usersSet k u)
    (hassign : ∀ a, c ≠ .usersAssign k a) (st : St) (a : c.Ans) :
    ((exec .agent c st a).2.mem .agent).users.lookup k = (st.mem .agent).users.lookup k := by
  cases c with
  | usersSet h u =>
      have hne : k ≠ h := by
        rintro rfl
        exact hset u rfl
      simp [exec, Assoc.lookup_set_ne hne.symm]
  | usersAssign h a' =>
      have hne : h ≠ k := by
        rintro rfl
        exact hassign a' rfl
      simp [exec, Assoc.lookup_modify, hne]
  | watch | decimalsSet | manualAdd | manualDelete | configSet | hpSet | lastIncidentSet | ready =>
      simp [exec]
  | _ => rfl

/-- A command to Redis that leaves a hash alone. -/
theorem hashes_exec {p : Pid} {c : Cmd} {key : String}
    (hc : ∀ c', c = .redis c' ∨ c = .tryRedis c' → c'.writesHash ≠ some key) (st : St)
    (a : c.Ans) : (exec p c st a).2.redis.hashes key = st.redis.hashes key := by
  cases c with
  | redis c' => exact Redis.exec_hashes _ _ _ (hc c' (.inl rfl))
  | tryRedis c' =>
      cases a with
      | none => exact Redis.exec_hashes _ _ _ (hc c' (.inr rfl))
      | some e => rfl
  | _ => rfl

/-- A command that changes neither the user of a handle nor the hash of the user. -/
def Cmd.spares (k : String) (c : Cmd) : Prop :=
  (∀ u, c ≠ .usersSet (some k) u) ∧ (∀ a, c ≠ .usersAssign (some k) a) ∧
    ∀ c', c = .redis c' ∨ c = .tryRedis c' → c'.writesHash ≠ some (userKey (some k))

theorem quiet_of_spares {c : Cmd} (hc : ∀ k, k ≠ "undefined" → c.spares k) :
    (records env).Quiet Pid.agent c := by
  intro st a r st' hs
  cases (Prod.ext_iff.mp (step_agent hs)).2
  refine keeps_of_eq (fun k hk => ?_) fun k hk => ?_
  · exact users_exec (hc k hk).1 (hc k hk).2.1 st a
  · exact hashes_exec (hc k hk).2.2 st a

/-- A command that touches no record. -/
theorem quiet_recordless {c : Cmd} (hc : c.recordless) : (records env).Quiet Pid.agent c := by
  refine quiet_of_spares fun k _ => ⟨?_, ?_, ?_⟩
  · rintro u rfl
    exact hc
  · rintro a rfl
    exact hc
  · intro c' hc' hw
    have hless : recordlessRedis c' := by
      rcases hc' with rfl | rfl
      · exact hc
      · exact hc
    cases c' with
    | hset key fields =>
        cases hw
        exact absurd hless (by simp [recordlessRedis, startsWith, userKey])
    | del key => exact hless
    | _ => cases hw

/-- The commands about a user without a handle. -/
theorem quiet_unnamed {h : Str} (hh : h.text = "undefined") {c : Cmd}
    (hc : c.errand h ∨ ∃ u, c = .usersSet h u) : (records env).Quiet Pid.agent c := by
  refine quiet_of_spares fun k hk => ?_
  have hne : h ≠ some k := by
    rintro rfl
    exact hk hh
  have hkey : userKey h ≠ userKey (some k) := by
    intro he
    rw [show userKey h = userKey (some "undefined") by simp [userKey, hh]] at he
    exact hk (userKey_injective he).symm
  refine ⟨?_, ?_, ?_⟩
  · rintro u rfl
    rcases hc with hc | ⟨u', hc⟩
    · exact hc
    · cases hc
      exact hne rfl
  · rintro a rfl
    rcases hc with hc | ⟨u', hc⟩
    · exact hne hc.symm
    · cases hc
  · intro c' hc' hw
    have hplain : plainRedis h c' := by
      rcases hc' with rfl | rfl
      · rcases hc with hc | ⟨u', hc⟩
        · exact hc
        · cases hc
      · rcases hc with hc | ⟨u', hc⟩
        · exact hc
        · cases hc
    cases c' with
    | hset key fields =>
        cases hw
        rcases hplain.1 with he | he
        · exact hkey he.symm
        · exact absurd he (by simp [startsWith, userKey])
    | del key => exact hplain
    | _ => cases hw

/-! ## The writers follow the rule -/

/-- A program of the agent follows the rule from start to end. -/
abbrev Tidies (env : Env) {α : Type} (q : Prog α) : Prop :=
  (records env).Tidy Pid.agent .clean q

theorem tidies_recordless {α : Type} {q : Prog α} (hq : q.Issues Cmd.recordless) : Tidies env q :=
  WriteBehind.closed_tidy.of_issues (fun _ hc => WriteBehind.tidy_ask (quiet_recordless hc)) hq

theorem tidies_unnamed {α : Type} {h : Str} (hh : h.text = "undefined") {q : Prog α}
    (hq : q.Issues fun c : Cmd => c.recordless ∨ c.errand h ∨ ∃ u, c = .usersSet h u) :
    Tidies env q := by
  refine WriteBehind.closed_tidy.of_issues (fun c hc => WriteBehind.tidy_ask ?_) hq
  rcases hc with hc | hc
  · exact quiet_recordless hc
  · exact quiet_unnamed hh hc

theorem tidies_errand {α : Type} {h : Str} (hh : h.text = "undefined") {q : Prog α}
    (hq : q.Issues (Cmd.errand h)) : Tidies env q :=
  tidies_unnamed hh (Prog.issues_mono (fun _ hc => .inr (.inl hc)) hq)

/-- The record a user has after its fields were written. -/
theorem storedRecord_hset {h : String} (hh : h ≠ "undefined") (u : User) (st : St) :
    storedRecord { st with redis := (Redis.exec st.clock
        (.hset (userKey (some h)) (publicFields u)) st.redis).2 } =
      Function.update (storedRecord st) h (some (publicFields u)) := by
  funext k
  by_cases hk : k = h
  · subst hk
    have hl : ∀ f, (Assoc.setAll (st.redis.hashes (userKey (some k))) (publicFields u)).lookup f =
        ((publicFields u).reverse.lookup f).or
          ((st.redis.hashes (userKey (some k))).lookup f) := fun f => Assoc.lookup_setAll f _ _
    simp only [storedRecord, if_neg hh, Redis.exec_hset_hashes, hl, Function.update_self]
    rfl
  · have hkey : userKey (some k) ≠ userKey (some h) := fun he => hk (userKey_injective he)
    simp only [storedRecord, Redis.exec, Function.update_of_ne hkey, Function.update_of_ne hk]

/-- Where `persist` stands once it has read the user. -/
def afterRead (env : Env) (h : String) : Option User → (records env).Mode
  | none => .clean
  | some u => .announced (h, publicFields u)

theorem memory_usersGet {h : String} (hh : h ≠ "undefined") {p : Pid} (hp : p = .agent)
    {st st' : St} {a : Option User} {r : Option User}
    (hs : (agentAlone env).step p (.usersGet (some h)) st a = some (r, st')) :
    (records env).memory st h = r.map publicFields := by
  subst hp
  cases step_agent hs
  exact if_neg hh

/-- `persist` announces what the map has. -/
theorem tidy_persist {h : String} (hh : h ≠ "undefined") {md : (records env).Mode}
    (hmd : md.within h) : (records env).Tidy Pid.agent md (persist env (some h)) := by
  rw [persist_eq]
  refine WriteBehind.Tidy.look (W := records env) (c := Cmd.usersGet (some h)) h
    (fun r : Option User => r.map publicFields) (afterRead env h) rfl hmd ?_ ?_ ?_ ?_
  · exact quiet_recordless trivial
  · exact fun st a r st' hs => memory_usersGet hh rfl hs
  · intro r
    cases r with
    | none => rfl
    | some u => exact .inl rfl
  · intro r
    cases r with
    | none => exact .throw _
    | some u =>
        refine WriteBehind.Tidy.announce (W := records env)
          (c := Cmd.redis (.sadd usersSetKey h)) rfl (quiet_of_spares ?_) fun _ => ?_
        · refine fun k _ => ⟨by rintro _ ⟨⟩, by rintro _ ⟨⟩, ?_⟩
          rintro c' (⟨⟨⟩⟩ | ⟨⟨⟩⟩)
          rintro ⟨⟩
        · refine WriteBehind.Tidy.send (W := records env)
            (c := Cmd.redis (.hset (userKey (some h)) (publicFields u))) rfl ?_ fun _ => ?_
          · intro st a r st' hs
            cases (Prod.ext_iff.mp (step_agent hs)).2
            exact ⟨rfl, storedRecord_hset hh u st⟩
          · exact WriteBehind.Tidy.wait (W := records env) (c := Cmd.tick) rfl
              (quiet_recordless trivial) fun _ => .ret _

/-- A command that changes the user of a handle and nothing else. -/
theorem tidy_change {α : Type} {h : String} {c : Cmd} {md : (records env).Mode}
    {f : c.Res → Prog α} (hc : (∃ u, c = .usersSet (some h) u) ∨ ∃ a, c = .usersAssign (some h) a)
    (hmd : md.within h) (hf : ∀ r, (records env).Tidy Pid.agent (.dirty h) (f r)) :
    (records env).Tidy Pid.agent md ((ask c).bind f) := by
  have hsync : c.sync = true := by
    rcases hc with ⟨u, rfl⟩ | ⟨a, rfl⟩
    · rfl
    · rfl
  refine WriteBehind.Tidy.touch (W := records env) h hsync hmd ?_ hf
  intro st a r st' hs
  cases (Prod.ext_iff.mp (step_agent hs)).2
  refine ⟨?_, fun y hy => ?_⟩
  · rcases hc with ⟨u, rfl⟩ | ⟨a, rfl⟩
    · rfl
    · rfl
  · have hu : ((exec .agent c st a).2.mem .agent).users.lookup (some y) =
        (St.mem st .agent).users.lookup (some y) := by
      refine users_exec ?_ ?_ st a
      · rintro u rfl
        rcases hc with ⟨u', he⟩ | ⟨a', he⟩
        · cases he
          exact hy rfl
        · cases he
      · rintro a rfl
        rcases hc with ⟨u', he⟩ | ⟨a', he⟩
        · cases he
        · cases he
          exact hy rfl
    exact heldRecord_congr hu

theorem tidies_ask {c : Cmd} (hc : c.recordless) : Tidies env (ask c) :=
  WriteBehind.tidy_ask (quiet_recordless hc)

theorem tidy_await {α : Type} {md : (records env).Mode} {q : Prog α}
    (hq : (records env).Tidy Pid.agent md q) : (records env).Tidy Pid.agent md (await q) :=
  WriteBehind.tidy_bind hq fun a => WriteBehind.tidy_bind (tidies_ask trivial) fun _ => .ret a

theorem tidies_ensure (h : Str) : Tidies env (ensure env h) := by
  by_cases hh : h.text = "undefined"
  · exact tidies_unnamed hh (issues_ensure (fun c hc => .inr (.inl hc)) (.inl trivial)
      fun u => .inr (.inr ⟨u, rfl⟩))
  · cases h with
    | none => exact absurd rfl hh
    | some h =>
        refine WriteBehind.tidy_bind (tidies_ask trivial) fun u => ?_
        cases u with
        | some u => exact .ret _
        | none =>
            refine WriteBehind.tidy_bind (tidies_ask trivial) fun wallet => ?_
            refine tidy_change (.inl ⟨_, rfl⟩) (.inl rfl) fun _ => ?_
            exact WriteBehind.tidy_bind (tidy_await (tidy_persist hh (.inr rfl))) fun _ => .ret _

theorem tidies_updateBalances (h : Str) : Tidies env (updateBalances env h) := by
  refine WriteBehind.tidy_bind (WriteBehind.tidy_bind (tidies_ask trivial) fun u => ?_)
    fun wallet => ?_
  · cases u with
    | some u => exact .ret _
    | none => exact tidy_await (tidies_ensure h)
  · refine WriteBehind.tidy_bind (tidies_recordless (recordless_of_errands fun _ =>
      errand_await (errand_refreshBalances _))) fun b => ?_
    by_cases hh : h.text = "undefined"
    · refine tidies_errand hh ?_
      refine Prog.issues_bind (issues_ask rfl) fun _ => Prog.issues_bind (issues_ask rfl) fun _ => ?_
      exact Prog.issues_bind (errand_await errand_persist) fun _ => .ret _
    · cases h with
      | none => exact absurd rfl hh
      | some h =>
          refine tidy_change (.inr ⟨_, rfl⟩) (.inl rfl) fun _ => ?_
          refine tidy_change (.inr ⟨_, rfl⟩) (.inr rfl) fun _ => ?_
          exact WriteBehind.tidy_bind (tidy_await (tidy_persist hh (.inr rfl))) fun _ => .ret _

/-- A setter changes a field and starts `persist`. -/
theorem tidy_assign_spawn {α : Type} {h : String} (hh : h ≠ "undefined") (a : Assign) (x : α) :
    Tidies env ((ask (.usersAssign (some h) a)).bind fun _ =>
      (Prog.spawn (persist env (some h))).bind fun _ => .ret x) :=
  tidy_change (.inr ⟨_, rfl⟩) (.inl rfl) fun _ => .fork rfl (tidy_persist hh (.inr rfl)) (.ret x)

theorem tidies_toggleAuto (h : Str) (state : Option Bool) : Tidies env (toggleAuto env h state) := by
  by_cases hh : h.text = "undefined"
  · exact tidies_errand hh (errand_toggleAuto state)
  · cases h with
    | none => exact absurd rfl hh
    | some h =>
        refine WriteBehind.tidy_bind (tidies_ask trivial) fun u => ?_
        cases u with
        | none =>
            cases state with
            | some b => exact .throw _
            | none => exact .throw _
        | some u => exact tidy_assign_spawn hh _ _

theorem tidies_setRisk (h level : Str) : Tidies env (setRisk env h level) := by
  by_cases hh : h.text = "undefined"
  · exact tidies_errand hh (errand_setRisk level)
  · cases h with
    | none => exact absurd rfl hh
    | some h =>
        refine WriteBehind.tidy_bind (tidies_ask trivial) fun u => ?_
        cases u with
        | none => exact .throw _
        | some u => exact tidy_assign_spawn hh _ _

/-! ## The watchers -/

/-- Where a watcher stands once it has read the user it has changed. -/
def afterLook (env : Env) (h : String) : Option User → (records env).Mode
  | none => .clean
  | some _ => .dirty h

/-- A watcher sets the user again and stores it. -/
theorem tidy_onUpdate {h : String} (hh : h ≠ "undefined") {md : (records env).Mode}
    (hmd : md.within h) : (records env).Tidy Pid.agent md (onUpdate env (some h)) := by
  refine WriteBehind.Tidy.look (W := records env) (c := Cmd.usersGet (some h)) h
    (fun r : Option User => r.map publicFields) (afterLook env h) rfl hmd ?_ ?_ ?_ ?_
  · exact quiet_recordless trivial
  · exact fun st a r st' hs => memory_usersGet hh rfl hs
  · intro r
    cases r with
    | none => rfl
    | some u => exact .inr rfl
  · intro r
    cases r with
    | none => exact .throw _
    | some u =>
        refine tidy_change (.inl ⟨_, rfl⟩) (.inr rfl) fun _ => ?_
        refine WriteBehind.tidy_bind (tidy_await (tidy_persist hh (.inr rfl))) fun _ => ?_
        refine tidies_recordless (Prog.issues_bind (issues_userObject trivial) fun u => ?_)
        split
        · exact issues_await trivial (issues_ask trivial)
        · exact .ret ()

/-- Without a handle, too, a watcher only sets the user again and stores it. -/
theorem issues_onUpdate (h : Str) : (onUpdate env h).Issues fun c : Cmd =>
    c.recordless ∨ c.errand h ∨ ∃ u, c = .usersSet h u := by
  refine Prog.issues_bind (issues_userObject (.inl trivial)) fun u => ?_
  refine Prog.issues_bind (issues_ask (.inr (.inr ⟨u, rfl⟩))) fun _ => ?_
  refine Prog.issues_bind (issues_await (.inl trivial)
    (Prog.issues_mono (fun _ hc => .inr (.inl hc)) errand_persist)) fun _ => ?_
  refine Prog.issues_bind (issues_userObject (.inl trivial)) fun u => ?_
  split
  · exact issues_await (.inl trivial) (issues_ask (.inl trivial))
  · exact .ret ()

/-- A watcher that has seen a new balance. -/
theorem tidies_watcher (h : Str) (a : Number × Number → Assign) :
    Tidies env ((userObject h).bind fun u =>
      (await (refreshBalances env u.wallet.publicKey)).bind fun b =>
        (ask (.usersAssign h (a b))).bind fun _ => Prog.spawn (onUpdate env h)) := by
  refine WriteBehind.tidy_bind (tidies_recordless (issues_userObject trivial)) fun u => ?_
  refine WriteBehind.tidy_bind (tidies_recordless (recordless_of_errands fun _ =>
    errand_await (errand_refreshBalances _))) fun b => ?_
  by_cases hh : h.text = "undefined"
  · exact tidies_unnamed hh (Prog.issues_bind (issues_ask (.inr (.inl rfl))) fun _ =>
      Prog.issues_spawn (issues_onUpdate h))
  · cases h with
    | none => exact absurd rfl hh
    | some h =>
        exact tidy_change (.inr ⟨_, rfl⟩) (.inl rfl) fun _ =>
          .fork rfl (tidy_onUpdate hh (.inr rfl)) (.ret ())

/-! ## Runs -/

/-- Every program of the agent follows the rule. -/
theorem tidies_body {ev : Ev} (hev : ev.ofAgent = true) : Tidies env (ev.body env) := by
  have hless : ∀ c : Cmd, c.recordless → Tidies env (ask c) := fun _ => tidies_ask
  cases ev with
  | boot => cases hev
  | request r => cases hev
  | call p c =>
      exact built_call WriteBehind.closed_tidy hless tidies_ensure tidies_updateBalances
        tidies_toggleAuto tidies_setRisk c
  | solChanged h => exact tidies_watcher h fun b => .sol b.1
  | tokenChanged h => exact tidies_watcher h fun b => .tierBal b.2
  | telegram u =>
      exact built_update WriteBehind.closed_tidy hless tidies_ensure tidies_updateBalances
        tidies_toggleAuto tidies_setRisk u
  | tweet handle text =>
      exact built_handleMessage WriteBehind.closed_tidy hless tidies_ensure tidies_updateBalances
        tidies_toggleAuto tidies_setRisk (tweetMessage handle text)

/-- The map and the store agree on the users of the map. -/
def Agree (st : St) : Prop := ∀ h r, heldRecord st h = some r → storedRecord st h = some r

theorem Ev.ofAgent.pid {ev : Ev} (hev : ev.ofAgent = true) : ev.pid = .agent := by
  cases ev with
  | call p c => exact of_decide_eq_true hev
  | request r => cases hev
  | _ => rfl

theorem keeps_enter {ev : Ev} {st st' : St} (he : ev.enter st = some st') :
    (records env).Keeps st st' := by
  rcases enter_cases he with rfl | rfl
  · exact ⟨rfl, rfl⟩
  · exact keeps_of_eq (fun h _ => by rw [St.onMem_self]) fun h _ => rfl

/-- At any time the due writes bring the store to the map. -/
theorem behind_reach {w : Lined (agentAlone env)}
    (hw : (agentAlone env).InOrder Cmd.ordered Agree w) :
    ∃ l, WriteBehind.Behind (W := records env) w l := by
  refine WriteBehind.reach_behind (W := records env) (fun _ hst => hst) ?_ ?_ hw
  · exact fun ev st st' he => keeps_enter (Option.ite_none_right_eq_some.mp he).2
  · intro ev st st' he
    have hev := (Option.ite_none_right_eq_some.mp he).1
    show (records env).Tidy ev.pid .clean (ev.body env)
    rw [Ev.ofAgent.pid hev]
    exact tidies_body hev

/-- The fields of a record that is stored. -/
theorem lookup_of_storedRecord {st : St} {h : String} {r : List (String × String)}
    (hr : storedRecord st h = some r) :
    ∀ f ∈ r, (st.redis.hashes (userKey (some h))).lookup f.1 = some f.2 := by
  have hmap : ∀ (fs : List String) (r : List (String × String)),
      (fs.mapM fun f => ((st.redis.hashes (userKey (some h))).lookup f).map (f, ·)) = some r →
        ∀ f ∈ r, (st.redis.hashes (userKey (some h))).lookup f.1 = some f.2 := by
    intro fs
    induction fs with
    | nil =>
        intro r hr
        cases hr
        simp
    | cons f fs ih =>
        intro r hr
        simp only [List.mapM_cons, Option.bind_eq_bind, Option.bind_eq_some_iff,
          Option.map_eq_some_iff] at hr
        obtain ⟨x, ⟨v, hv, rfl⟩, r', hr', hr⟩ := hr
        cases hr
        intro g hg
        cases List.mem_cons.mp hg with
        | inl he => subst he; exact hv
        | inr hg => exact ih r' hr' g hg
  unfold storedRecord at hr
  split at hr
  · cases hr
  · exact hmap _ r hr

/-- Once no program of the agent waits for Redis, the store has every user as the map has it. -/
theorem records_caught_up {w : Lined (agentAlone env)}
    (hw : (agentAlone env).InOrder Cmd.ordered Agree w)
    (hdone : ∀ t ∈ w.line, t.prog.ended = true) {h : String} (hh : h ≠ "undefined") {u : User}
    (hu : (St.mem w.st .agent).users.lookup (some h) = some u) :
    ∀ f ∈ publicFields u,
      ((St.redis w.st).hashes (userKey (some h))).lookup f.1 = some f.2 := by
  obtain ⟨l, hl⟩ := behind_reach hw
  have hheld : heldRecord w.st h = some (publicFields u) := by
    rw [show heldRecord w.st h = _ from if_neg hh]
    exact congrArg (Option.map publicFields) hu
  exact lookup_of_storedRecord (hl.caught_up hdone h _ hheld)

end

namespace Sample

/-- A user who has nothing yet. -/
def newcomer (auto : Bool) : User := ⟨alice, some 0, some 0, auto, some "med"⟩

/-- The agent has booted and has one user, whose record is stored. -/
def booted : St :=
  let st := (St.fresh env 0).onMem .agent fun m =>
    { m with users := [(some "alice", newcomer false)], ready := true }
  { st with redis := (Redis.exec 0 (.hset "user:alice" (publicFields (newcomer false))) st.redis).2 }

theorem agree_booted : Agree booted := by
  intro h r hr
  by_cases hh : h = "alice"
  · subst hh
    rw [← hr]
    decide +kernel
  · have hnone : heldRecord booted h = none := by
      simp [heldRecord, booted, hh]
    rw [hnone] at hr
    cases hr

/-- Auto-trading is switched on, off and on again before Redis answers. -/
def switches : List (agentAlone env).LineChoice :=
  let switch := fun i on => [.start (.call .agent (.toggleAuto (some "alice") (some on))),
    .resume i fun _ => offline]
  let answers := List.replicate 3 (.serve offline) ++ List.replicate 3 (.advance fun _ => offline)
  switch 0 true ++ switch 1 false ++ switch 2 true ++ answers ++ answers

/-- Nothing waits for Redis any more, and the user trades by themselves. -/
def switched (w : Lined (agentAlone env)) : Bool :=
  w.line.all (·.prog.ended) &&
    (St.mem w.st .agent).users.lookup (some "alice") = some (newcomer true)

theorem records_caught_up_switched : ∃ w : Lined (agentAlone env),
    (agentAlone env).InOrder Cmd.ordered Agree w ∧
      ((St.redis w.st).hashes "user:alice").lookup "auto" = some "true" := by
  have hrun : (Machine.lineNexts Cmd.ordered ⟨booted, [], []⟩ switches).any switched = true := by
    decide +kernel
  obtain ⟨w, hw, hends⟩ := Machine.InOrder.of_run (.start agree_booted) hrun
  obtain ⟨hdone, hu⟩ := Bool.and_eq_true_iff.mp hends
  exact ⟨w, hw, records_caught_up hw (List.all_eq_true.mp hdone) (by decide)
    (of_decide_eq_true hu) ("auto", "true") (by decide)⟩

end Sample

end Nexus
