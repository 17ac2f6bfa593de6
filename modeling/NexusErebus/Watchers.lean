import NexusErebus.Async.Startup
import NexusErebus.Deposits
import NexusErebus.Listed
import NexusErebus.Wallets

/-!
# Who is watched

The agent watches the accounts of its users, so that a deposit is noticed.  It subscribes to them
once, at the end of its boot, and to those that are in the map then.  The map is filled from the
store, with the users whose key is there.

So everything hangs on the keys in the store.  `ensure` generates a key and stores the public
fields of the user, but not the key.  Starting from a store without keys no run ever puts one
there, and after every boot the map is empty.  Nobody is ever watched (`nobody_is_watched`),
however often the agent starts again.

What the subscriptions do hold is that none is made twice and none for a stranger
(`watched_once`).
-/

namespace Nexus

open Async Text

/-! ## Commands that neither watch nor write keys -/

/-- A command of a program that serves: it subscribes to nothing and writes no key. -/
def Cmd.serving : Cmd → Prop
  | .redis c | .tryRedis c => keepsWallets c
  | .watch _ | .ready => False
  | _ => True

section

variable {env : Env} {p : Pid}

theorem walletField_exec {c : Cmd} (hc : c.serving) (st : St) (a : c.Ans) (key : String) :
    walletField (exec p c st a).2 key = walletField st key := by
  cases c with
  | redis c => exact (sameKeys_redis c hc).field key
  | tryRedis c =>
      cases a with
      | none => exact (sameKeys_redis c hc).field key
      | some e => rfl
  | _ => rfl

/-- A process leaves the memory of the others alone. -/
theorem mem_exec {q : Pid} (hq : q ≠ p) (c : Cmd) (st : St) (a : c.Ans) :
    (exec p c st a).2.mem q = st.mem q := by
  cases c with
  | usersSet | usersAssign | watch | decimalsSet | manualAdd | manualDelete | configSet | hpSet
  | lastIncidentSet | ready => simp [exec, St.onMem_ne st hq]
  | _ => rfl

/-- What a program that serves leaves of the memory of a process. -/
theorem watched_exec {c : Cmd} (hc : c.serving) (st : St) (a : c.Ans) (q : Pid) :
    ((exec p c st a).2.mem q).watched = (st.mem q).watched ∧
      ((exec p c st a).2.mem q).booting = (st.mem q).booting ∧
      ((exec p c st a).2.mem q).ready = (st.mem q).ready := by
  by_cases hq : q = p
  · subst hq
    cases c with
    | watch | ready => exact hc.elim
    | usersSet | usersAssign | decimalsSet | manualAdd | manualDelete | configSet | hpSet
    | lastIncidentSet => simp [exec]
    | _ => exact ⟨rfl, rfl, rfl⟩
  · rw [mem_exec hq]
    exact ⟨rfl, rfl, rfl⟩

/-- A command that touches no record leaves the map as it is. -/
theorem users_recordless {c : Cmd} (hc : c.recordless) (st : St) (a : c.Ans) (q : Pid) :
    ((exec p c st a).2.mem q).users = (st.mem q).users := by
  by_cases hq : q = p
  · subst hq
    cases c with
    | usersSet | usersAssign => exact hc.elim
    | watch | decimalsSet | manualAdd | manualDelete | configSet | hpSet | lastIncidentSet
    | ready => simp [exec]
    | _ => rfl
  · rw [mem_exec hq]

theorem serving_of_plain {h : Str} {c : Cmd} (hc : c.plain h) : c.serving := by
  cases c with
  | redis c | tryRedis c => exact plain_keepsKeys hc
  | watch | ready => exact hc.elim
  | _ => trivial

theorem serving_errand {α : Type} {h : Str} {q : Prog α} (hq : q.Issues (Cmd.errand h)) :
    q.Issues Cmd.serving :=
  Prog.issues_mono (fun _ hc => serving_of_plain (plain_of_errand hc)) hq

theorem serving_ensure (h : Str) : (ensure env h).Issues Cmd.serving :=
  issues_ensure (fun _ hc => serving_of_plain (plain_of_errand hc)) trivial fun _ => trivial

theorem serving_walletOf (h : Str) : (walletOf env h).Issues Cmd.serving :=
  issues_walletOf (fun _ hc => serving_of_plain (plain_of_errand hc)) trivial (fun _ => trivial)
    fun _ => trivial

theorem serving_onUpdate (h : Str) : (onUpdate env h).Issues Cmd.serving := by
  refine Prog.issues_bind (issues_userObject trivial) fun u => ?_
  refine Prog.issues_bind (issues_ask trivial) fun _ => ?_
  refine Prog.issues_bind (serving_errand (errand_await errand_persist)) fun _ => ?_
  refine Prog.issues_bind (issues_userObject trivial) fun u => ?_
  split
  · exact issues_await trivial (issues_ask trivial)
  · exact .ret ()

theorem serving_watcher (h : Str) (a : Number × Number → Assign) :
    ((userObject h).bind fun u => (await (refreshBalances env u.wallet.publicKey)).bind fun b =>
      (ask (.usersAssign h (a b))).bind fun _ =>
        Prog.spawn (onUpdate env h)).Issues Cmd.serving := by
  refine Prog.issues_bind (issues_userObject trivial) fun u => ?_
  refine Prog.issues_bind (serving_errand (errand_await (errand_refreshBalances (h := h) _)))
    fun b => ?_
  exact Prog.issues_bind (issues_ask trivial) fun _ => Prog.issues_spawn (serving_onUpdate h)

/-- All programs but the boot serve. -/
theorem serving_body {ev : Ev} (hev : ev ≠ .boot) : (ev.body env).Issues Cmd.serving := by
  have hplain : ∀ (h : Str) (c : Cmd), c.plain h → (ask c).Issues Cmd.serving := fun _ _ hc =>
    issues_ask (serving_of_plain hc)
  cases ev with
  | boot => exact absurd rfl hev
  | call q c =>
      exact closed_call (Prog.closed_issues _) hplain serving_ensure serving_walletOf c
  | solChanged h => exact serving_watcher h fun b => .sol b.1
  | tokenChanged h => exact serving_watcher h fun b => .tierBal b.2
  | telegram u =>
      exact closed_update (Prog.closed_issues _) hplain serving_ensure serving_walletOf u
  | tweet handle text =>
      exact closed_message (Prog.closed_issues _) hplain serving_ensure serving_walletOf
        (tweetMessage handle text)
  | request r =>
      exact closed_request (Prog.closed_issues _) hplain serving_ensure serving_walletOf
        (fun _ => issues_ask trivial) r

end

/-! ## A store without keys -/

/-- No user has a key in the store. -/
def NoKeys (st : St) : Prop := ∀ h : Str, walletField st (userKey h) = none

/-- The agent over a store without keys.  It watches nobody, and before it is ready it has no
users. -/
structure Idle (booting ready : Bool) (st : St) : Prop where
  noKeys : NoKeys st
  watched : (st.mem .agent).watched = []
  users : ready = false → (st.mem .agent).users = []
  booting : (st.mem .agent).booting = booting
  ready : (st.mem .agent).ready = ready

/-- The phases of the agent, over a store without keys. -/
def idleStartup (env : Env) : Startup (machine env) where
  proc := Pid.agent
  boots ev := ev = Ev.boot
  down := Idle false false
  loading := Idle true false
  up := Idle true true
  pre _ := Cmd.serving

section

variable {env : Env} {booting ready : Bool} {st : St}

/-- A command of a program that serves.  While the agent has no users, only one that sets none. -/
theorem Idle.exec {p : Pid} {c : Cmd} (hi : Idle booting ready st) (hc : c.serving) (a : c.Ans)
    (hu : p = .agent → ready = true ∨ c.recordless) :
    Idle booting ready (Nexus.exec p c st a).2 := by
  obtain ⟨hw, hb, hr⟩ := watched_exec hc st a .agent
  refine ⟨fun h => ?_, hw.trans hi.watched, fun hready => ?_, hb.trans hi.booting,
    hr.trans hi.ready⟩
  · exact (walletField_exec hc st a _).trans (hi.noKeys h)
  · by_cases hp : Pid.agent = p
    · subst hp
      rcases hu rfl with hu | hu
      · cases hready.symm.trans hu
      · rw [users_recordless hu]
        exact hi.users hready
    · rw [mem_exec hp]
      exact hi.users hready

/-- The boot is over. -/
theorem Idle.ready_exec (hi : Idle true false st) :
    Idle true true (Nexus.exec .agent .ready st ()).2 := by
  refine ⟨hi.noKeys, ?_, fun h => (Bool.noConfusion h), ?_, ?_⟩ <;>
    simp only [Nexus.exec, St.onMem_self]
  · exact hi.watched
  · exact hi.booting

theorem loads_recordless {c : Cmd} (hc : c.recordless) (hs : c.serving)
    {Q : c.Res → Prop} (hQ : ∀ st a, Idle true false st → Q (exec .agent c st a).1) :
    (idleStartup env).Loads (ask c) Q := by
  refine Startup.loads_ask fun st a r st' hi hstep => ?_
  obtain ⟨hr, hst⟩ := Prod.ext_iff.mp (step_machine hstep)
  cases hst
  cases hr
  exact ⟨hi.exec hs a fun _ => .inr hc, hQ st a hi⟩

theorem loads_await {α : Type} {q : Prog α} {Q : α → Prop} (hq : (idleStartup env).Loads q Q) :
    (idleStartup env).Loads (await q) Q :=
  Startup.loads_bind hq fun _ ha => Startup.loads_bind (P := fun _ => True)
    (loads_recordless (c := .tick) trivial trivial fun _ _ _ => trivial) fun _ _ => .ret ha

/-- Nobody has a key to be loaded with. -/
theorem loads_hydrate (handle : String) :
    (idleStartup env).Loads (hydrate env handle) fun _ => True := by
  have hget : (idleStartup env).Loads (getUser (some handle)) fun _ => True := by
    refine Startup.loads_bind (P := fun _ => True)
      (loads_recordless (c := .redis (.hgetall (userKey (some handle)))) trivial trivial
        fun _ _ _ => trivial) fun data _ => ?_
    split
    · exact .ret trivial
    · exact .ret trivial
  have hwallet : (idleStartup env).Loads (getWalletCompat env (some handle)) (· = ⟨none, none⟩) := by
    refine Startup.loads_bind (P := (· = none))
      (loads_recordless (c := .redis (.hget (userKey (some handle)) "wallet")) trivial trivial
        fun st _ hi => hi.noKeys (some handle)) fun enc henc => ?_
    subst henc
    exact .ret rfl
  refine Startup.loads_bind (loads_await hget) fun data _ => ?_
  cases data with
  | none => exact .ret trivial
  | some data =>
      refine Startup.loads_bind (loads_await hwallet) fun w hw => ?_
      subst hw
      exact .ret trivial

theorem loads_watchDeposits : (idleStartup env).Loads watchDeposits fun _ => True := by
  refine Startup.loads_bind (P := (· = []))
    (loads_recordless (c := .usersKeys) trivial trivial fun st _ hi => ?_) fun handles hh => ?_
  · show (st.mem .agent).users.map Prod.fst = []
    rw [hi.users rfl]
    rfl
  · subst hh
    exact .ret trivial

theorem loads_initializeUsers : (idleStartup env).Loads (initializeUsers env) fun _ => True := by
  refine Startup.loads_bind (P := fun _ => True) (loads_await
    (loads_recordless (c := .redis (.smembers usersSetKey)) trivial trivial
      fun _ _ _ => trivial)) fun handles _ => ?_
  exact Startup.loads_bind (Startup.loads_forEach loads_hydrate handles) fun _ _ =>
    loads_watchDeposits

theorem boots_boot : (idleStartup env).Boots (Ev.boot.body env) := by
  refine Startup.boots_bind (P := fun _ => True) (loads_await loads_initializeUsers) fun _ _ => ?_
  show (idleStartup env).Boots (.call Cmd.ready fun r => .ret r)
  refine .last (fun st a r st' hi hstep => ?_) fun r => ?_
  · cases (Prod.ext_iff.mp (step_machine hstep)).2
    exact Idle.ready_exec hi
  · rfl

/-! ## Phases -/

/-- The agent is fresh, and the store has no keys. -/
theorem Idle.fresh (hkeys : NoKeys st) (hmem : st.mem .agent = .fresh env st.clock) :
    Idle false false st := by
  refine ⟨hkeys, ?_, fun _ => ?_, ?_, ?_⟩ <;> rw [hmem] <;> rfl

theorem Idle.of_eq {st' : St} (hi : Idle booting ready st) (hredis : st'.redis = st.redis)
    (hmem : st'.mem .agent = st.mem .agent) : Idle booting ready st' := by
  refine ⟨fun h => ?_, ?_, ?_, ?_, ?_⟩
  · rw [← hi.noKeys h, walletField, walletField, hredis]
  · rw [hmem]
    exact hi.watched
  · rw [hmem]
    exact hi.users
  · rw [hmem]
    exact hi.booting
  · rw [hmem]
    exact hi.ready

/-- The agent starts to boot. -/
theorem Idle.enter_boot {st' : St} (he : Ev.boot.enter st = some st') :
    (st.mem .agent).booting = false ∧ (Idle false false st → Idle true false st') := by
  obtain ⟨hb, rfl⟩ : _ ∧ _ = st' := by
    simpa only [Ev.enter, Option.ite_none_left_eq_some, Option.some.injEq] using he
  refine ⟨Bool.eq_false_iff.mpr hb, fun hi => ?_⟩
  refine ⟨hi.noKeys, ?_, fun _ => ?_, ?_, ?_⟩ <;> rw [St.onMem_self]
  · exact hi.watched
  · exact hi.users rfl
  · exact hi.ready

/-- The other events of the agent wait until it is ready or watches somebody. -/
theorem Idle.enter_own {ev : Ev} {st' : St} (hpid : ev.pid = .agent) (hev : ev ≠ .boot)
    (he : ev.enter st = some st') : st' = st ∧ ∀ booting, ¬ Idle booting false st := by
  have hready : ∀ booting, (st.mem .agent).ready = true → ¬ Idle booting false st :=
    fun _ hr hi => Bool.false_ne_true (hi.ready.symm.trans hr)
  have hwatched : ∀ booting h, h ∈ (st.mem .agent).watched → ¬ Idle booting false st :=
    fun _ h hm hi => List.not_mem_nil (hi.watched ▸ hm)
  cases ev with
  | boot => exact absurd rfl hev
  | request r => cases hpid
  | call q c =>
      cases hpid
      obtain ⟨hr, he⟩ := Option.ite_none_right_eq_some.mp he
      exact ⟨(Option.some.inj he).symm, fun b => hready b hr⟩
  | solChanged h | tokenChanged h =>
      obtain ⟨hm, he⟩ := Option.ite_none_right_eq_some.mp he
      exact ⟨(Option.some.inj he).symm, fun b => hwatched b h hm⟩
  | telegram u =>
      obtain ⟨hr, he⟩ := Option.ite_none_right_eq_some.mp he
      simp only [Bool.and_eq_true] at hr
      exact ⟨(Option.some.inj he).symm, fun b => hready b hr.1.1⟩
  | tweet handle text =>
      obtain ⟨hr, he⟩ := Option.ite_none_right_eq_some.mp he
      exact ⟨(Option.some.inj he).symm, fun b => hready b hr⟩

/-- The events of the other processes leave the state as it is. -/
theorem enter_elsewhere {ev : Ev} {st' : St} (hpid : ev.pid ≠ .agent)
    (he : ev.enter st = some st') : st' = st := by
  cases ev with
  | call q c =>
      cases q with
      | api => exact (Option.some.inj he).symm
      | agent => exact absurd rfl hpid
      | worker | metrics | launcher => cases he
  | request r => exact (Option.some.inj he).symm
  | _ => exact absurd rfl hpid

theorem Idle.stop (hi : Idle booting ready st) : Idle false false (st.stop env .agent) :=
  .fresh hi.noKeys (St.onMem_self ..)

theorem Idle.stop_other {p : Pid} (hp : p ≠ .agent) (hi : Idle booting ready st) :
    Idle booting ready (st.stop env p) :=
  hi.of_eq rfl (St.onMem_ne st hp.symm _)

/-- What the events and the commands of the system do to the phases. -/
theorem kept_idle : (idleStartup env).Kept where
  enter_boot ev st st' hev he := by
    cases hev
    obtain ⟨hb, hd⟩ := Idle.enter_boot he
    exact ⟨fun hi => Bool.false_ne_true (hb.symm.trans (Idle.booting hi)),
      fun hi => Bool.false_ne_true (hb.symm.trans (Idle.booting hi)), hd⟩
  enter_own ev st st' hpid hev he := by
    obtain ⟨hst, hnot⟩ := Idle.enter_own hpid hev he
    cases hst
    exact ⟨hnot false, hnot true, id⟩
  enter_other ev st st' hpid he := by
    cases enter_elsewhere hpid he
    exact .refl st
  body_boot ev hev := by
    subst hev
    exact ⟨rfl, boots_boot⟩
  body ev hev := serving_body hev
  step_own ev c st a r st' hpid hc hi hs := by
    cases (Prod.ext_iff.mp (step_machine hs)).2
    exact Idle.exec hi hc a fun _ => .inl rfl
  step_other ev c st a r st' hpid hc hs := by
    cases (Prod.ext_iff.mp (step_machine hs)).2
    exact ⟨fun hi => Idle.exec hi hc a fun he => absurd he hpid,
      fun hi => Idle.exec hi hc a fun he => absurd he hpid,
      fun hi => Idle.exec hi hc a fun he => absurd he hpid⟩
  crash_own st hi := by
    rcases hi with hi | hi | hi <;> exact Idle.stop hi
  crash_other p st hp := ⟨Idle.stop_other hp, Idle.stop_other hp, Idle.stop_other hp⟩

end

/-- The agent is down, over a store without keys. -/
def Keyless (env : Env) (st : St) : Prop := NoKeys st ∧ st.mem .agent = .fresh env st.clock

/-- From a store without keys no run watches anybody, whatever users come and however often the
agent starts again. -/
theorem nobody_is_watched (env : Env) {w : World (machine env)}
    (hw : (machine env).Reach (Keyless env) w) :
    NoKeys w.st ∧ (St.mem w.st .agent).watched = [] := by
  obtain ⟨hphase, -⟩ := Startup.reach_phase kept_idle
    (fun st (hst : Keyless env st) => Idle.fresh hst.1 hst.2) hw
  rcases hphase.any with hi | hi | hi <;> exact ⟨Idle.noKeys hi, Idle.watched hi⟩

namespace Sample

/-- The agent boots, meets a user, stops and boots again. -/
def metAgain : List (machine env).Choice :=
  session _ (online alice) Ev.boot walletCall 3 ++
    .crash Pid.agent :: serve _ (online bob) Ev.boot 0 7

theorem nobody_is_watched_alice : ∃ w : World (machine env),
    (machine env).Reach (Keyless env) w ∧ (St.redis w.st).sets "users" = ["alice"] ∧
      (St.mem w.st .agent).ready = true ∧ (St.mem w.st .agent).watched = [] := by
  have hfresh : Keyless env (St.fresh env 0) := ⟨fun _ => rfl, rfl⟩
  have hrun : (Machine.nexts ⟨St.fresh env 0, [], []⟩ metAgain).any (fun w =>
      (St.redis w.st).sets "users" = ["alice"] && (St.mem w.st .agent).ready) = true := by
    decide +kernel
  obtain ⟨w, hw, hends⟩ := Machine.Reach.of_run hfresh hrun
  obtain ⟨hlisted, hready⟩ := Bool.and_eq_true_iff.mp hends
  exact ⟨w, hw, of_decide_eq_true hlisted, hready, (nobody_is_watched env hw).2⟩

end Sample

/-! ## The subscriptions -/

/-- Nobody is watched twice, and who is watched is in the map. -/
structure Subscribed (st : St) : Prop where
  once : (st.mem .agent).watched.Nodup
  known : ∀ h ∈ (st.mem .agent).watched, (st.mem .agent).users.lookup h ≠ none

/-- A command that subscribes to nothing. -/
def Cmd.watchless : Cmd → Prop
  | .watch _ => False
  | _ => True

/-- The subscriptions.  The loop that makes them never waits, so it relies on nobody. -/
def subscriptions (env : Env) : Rely (machine env) where
  inv := Subscribed
  rel _ _ _ := True
  rel_refl _ _ := trivial
  rel_trans _ _ := trivial

section

variable {env : Env} {p : Pid} {st : St}

theorem Subscribed.of_mem {st' : St} (hi : Subscribed st)
    (hmem : st'.mem .agent = st.mem .agent) : Subscribed st' :=
  ⟨by rw [hmem]; exact hi.once, by rw [hmem]; exact hi.known⟩

/-- Without `watch` the subscriptions stay, and the map loses nobody. -/
theorem Subscribed.exec {c : Cmd} (hi : Subscribed st) (hc : c.watchless) (a : c.Ans) :
    Subscribed (exec p c st a).2 := by
  by_cases hp : Pid.agent = p
  · subst hp
    cases c with
    | watch h => exact hc.elim
    | usersSet h u =>
        refine ⟨by simpa [Nexus.exec] using hi.once, fun k hk => ?_⟩
        simp only [Nexus.exec, St.onMem_self] at hk ⊢
        rw [Assoc.lookup_set]
        split
        · exact Option.some_ne_none u
        · exact hi.known k hk
    | usersAssign h f =>
        refine ⟨by simpa [Nexus.exec] using hi.once, fun k hk => ?_⟩
        simp only [Nexus.exec, St.onMem_self] at hk ⊢
        rw [Assoc.lookup_modify]
        split
        · exact fun he => hi.known k hk (Option.map_eq_none_iff.mp he)
        · exact hi.known k hk
    | decimalsSet | manualAdd | manualDelete | configSet | hpSet | lastIncidentSet | ready =>
        exact ⟨by simpa [Nexus.exec] using hi.once, by simpa [Nexus.exec] using hi.known⟩
    | _ => exact hi.of_mem rfl
  · exact hi.of_mem (mem_exec hp c st a)

theorem subscriptions_watchless {α : Type} {q : Prog α} (hq : q.Issues Cmd.watchless) :
    (subscriptions env).Tame p q := by
  refine Rely.closed_tame.of_issues (fun c hc => Rely.tame_ask fun st a r st' hi hs => ?_) hq
  cases (Prod.ext_iff.mp (step_machine hs)).2
  exact ⟨Subscribed.exec hi hc a, fun _ => trivial⟩

theorem Subscribed.enter {ev : Ev} {st' : St} (hi : Subscribed st) (he : ev.enter st = some st') :
    Subscribed st' := by
  rcases enter_cases he with rfl | rfl
  · exact hi
  · exact ⟨by simpa using hi.once, by simpa using hi.known⟩

/-- The agent forgets its subscriptions with its map. -/
theorem Subscribed.stop {q : Pid} (hi : Subscribed st) : Subscribed (st.stop env q) := by
  by_cases hq : Pid.agent = q
  · subst hq
    have hmem : ((st.stop env .agent).mem .agent) = .fresh env st.clock := St.onMem_self ..
    exact ⟨hmem ▸ List.nodup_nil, fun h hh => absurd (hmem ▸ hh) List.not_mem_nil⟩
  · exact hi.of_mem (St.onMem_ne st hq _)

/-- A new subscription, to a user of the map. -/
theorem Subscribed.watch {h : Str} (hi : Subscribed st) (hnew : h ∉ (st.mem .agent).watched)
    (hknown : (st.mem .agent).users.lookup h ≠ none) :
    Subscribed (st.onMem .agent fun m => { m with watched := m.watched ++ [h] }) := by
  refine ⟨?_, fun k hk => ?_⟩
  · rw [St.onMem_self]
    exact List.nodup_append.mpr ⟨hi.once, List.nodup_singleton h,
      fun k hk k' hk' he => hnew (List.mem_singleton.mp hk' ▸ he ▸ hk)⟩
  · rw [St.onMem_self] at hk ⊢
    rcases List.mem_append.mp hk with hk | hk
    · exact hi.known k hk
    · exact List.mem_singleton.mp hk ▸ hknown

/-- The loop over handles of the map. -/
theorem safe_subscribe : ∀ (handles : List Str) {st : St}, Subscribed st →
    (∀ h ∈ handles, (st.mem .agent).users.lookup h ≠ none) →
    (subscriptions env).Safe .agent (Prog.forEach (fun h => do
      let known : Bool ← ask (.watched h)
      if known then return () else ask (.watch h)) handles) (fun _ _ => True) st
  | [], _, _, _ => .ret trivial
  | h :: handles, st, hi, hkeys => by
      have hrest : ∀ k ∈ handles, (st.mem .agent).users.lookup k ≠ none := fun k hk =>
        hkeys k (List.mem_cons_of_mem h hk)
      -- the answer to `watched` is about the state in which `watch` is carried out
      refine .sync rfl (fun a r st' hs => ?_) fun a r st' hs => ?_
      · cases (Prod.ext_iff.mp (step_machine hs)).2
        exact ⟨hi, fun _ => trivial⟩
      · obtain ⟨hr, hst⟩ := Prod.ext_iff.mp (step_machine hs)
        cases hst
        by_cases hmem : h ∈ (st.mem .agent).watched
        · have hknown : r = true := hr.symm.trans (decide_eq_true hmem)
          subst hknown
          exact safe_subscribe handles hi hrest
        · have hknown : r = false := hr.symm.trans (decide_eq_false hmem)
          subst hknown
          have hnext := hi.watch hmem (hkeys h List.mem_cons_self)
          refine .sync rfl (fun a r st' hs => ?_) fun a r st' hs => ?_
          · cases (Prod.ext_iff.mp (step_machine hs)).2
            exact ⟨hnext, fun _ => trivial⟩
          · cases (Prod.ext_iff.mp (step_machine hs)).2
            have husers := users_recordless (p := .agent) (c := .watch h) trivial st () .agent
            exact safe_subscribe handles hnext fun k hk =>
              (congrArg (List.lookup k) husers).trans_ne (hrest k hk)

theorem subscriptions_watchDeposits : (subscriptions env).Tame .agent watchDeposits := by
  intro st hi
  refine .sync rfl (fun a r st' hs => ?_) fun a r st' hs => ?_
  · cases (Prod.ext_iff.mp (step_machine hs)).2
    exact ⟨hi, fun _ => trivial⟩
  · obtain ⟨hr, hst⟩ := Prod.ext_iff.mp (step_machine hs)
    cases hst
    cases hr
    exact safe_subscribe _ hi fun _ hk hnone => Assoc.lookup_eq_none.mp hnone hk

theorem watchless_of_serving {c : Cmd} (hc : c.serving) : c.watchless := by
  cases c with
  | watch h => exact hc
  | _ => trivial

theorem watchless_hydrate (handle : String) : (hydrate env handle).Issues Cmd.watchless := by
  refine issues_hydrate trivial trivial trivial (fun array => ?_) fun _ => trivial
  refine Prog.issues_bind (Prog.issues_bind (issues_ask trivial) fun _ => .ret _) fun _ => ?_
  exact Prog.issues_bind (issues_ask trivial) fun _ => issues_ask trivial

theorem subscriptions_event (ev : Ev) : (subscriptions env).Tame ev.pid (ev.body env) := by
  by_cases hev : ev = .boot
  · subst hev
    have hless : ∀ {α : Type} {q : Prog α}, q.Issues Cmd.watchless →
        (subscriptions env).Tame .agent q := subscriptions_watchless
    have htick : (subscriptions env).Tame .agent (ask .tick) := hless (issues_ask trivial)
    refine Rely.closed_tame.bind (Rely.closed_tame.bind ?_ fun _ =>
      Rely.closed_tame.bind htick fun _ => Rely.closed_tame.ret _) fun _ => hless (issues_ask trivial)
    refine Rely.closed_tame.bind (hless (issues_await trivial (issues_ask trivial))) fun handles => ?_
    exact Rely.closed_tame.bind (hless (Prog.issues_forEach fun h _ => watchless_hydrate h))
      fun _ => subscriptions_watchDeposits
  · exact subscriptions_watchless (Prog.issues_mono (fun _ => watchless_of_serving)
      (serving_body hev))

/-- In every run the agent subscribes to nobody twice, and finds everybody it watches in the
map. -/
theorem watched_once (env : Env) {w : World (machine env)}
    (hw : (machine env).Reach Subscribed w) : (St.mem w.st .agent).watched.Nodup ∧
      ∀ h ∈ (St.mem w.st .agent).watched, ∃ u, (St.mem w.st .agent).users.lookup h = some u := by
  have hinv : Subscribed w.st := by
    refine Rely.reach_inv (R := subscriptions env) (fun _ hst => hst) ?_ ?_ ?_ hw
    · intro ev st st' hi he
      exact ⟨Subscribed.enter hi he, fun _ => trivial⟩
    · exact fun ev st st' _ _ st'' _ hi => subscriptions_event ev st'' hi
    · exact fun q st hi => ⟨Subscribed.stop hi, fun _ _ => trivial⟩
  refine ⟨hinv.once, fun h hh => ?_⟩
  exact Option.ne_none_iff_exists'.mp (hinv.known h hh)

end

namespace Sample

theorem watched_once_alice : ∃ w : World (machine env),
    (machine env).Reach Subscribed w ∧ (St.mem w.st .agent).watched = [some "alice"] ∧
      ∃ u, (St.mem w.st .agent).users.lookup (some "alice") = some u := by
  have hinit : Subscribed depositor := ⟨by decide +kernel, by decide +kernel⟩
  have hrun : (Machine.nexts ⟨depositor, [], []⟩
      (serve (machine env) (online alice) Ev.boot 0 3)).any (fun w =>
        (St.mem w.st .agent).watched = [some "alice"]) = true := by decide +kernel
  obtain ⟨w, hw, hends⟩ := Machine.Reach.of_run hinit hrun
  have hwatched := of_decide_eq_true hends
  exact ⟨w, hw, hwatched, (watched_once env hw).2 _ (hwatched ▸ List.mem_singleton_self _)⟩

end Sample

end Nexus
