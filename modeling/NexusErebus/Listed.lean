import NexusErebus.Records
import NexusErebus.Sample
import NexusErebus.UserStore

/-!
# Whoever is stored is listed

The boot of the agent finds its users in the set `users`.  A record that is not listed there
would never be loaded again.  Every writer adds the handle to the set first and waits for the
answer, and nobody takes a handle out.  So in every run of the agent and the API server, with
stops at any time, a handle with a record is in the set.

The handle `undefined` is left out.  A user without a handle is stored under its key and listed
as the empty string.
-/

namespace Nexus

open Async Text

/-- Every record belongs to a handle of the set. -/
def AllListed (st : St) : Prop :=
  ∀ h : String, h ≠ "undefined" → st.redis.hashes (userKey (some h)) ≠ [] →
    h ∈ st.redis.sets usersSetKey

section

variable (env : Env)

/-- The set grows, and while it does the records are listed. -/
def listing : Rely (machine env) where
  inv := AllListed
  rel _ st st' := ∀ h ∈ st.redis.sets usersSetKey, h ∈ st'.redis.sets usersSetKey
  rel_refl _ _ _ h := h
  rel_trans h h' x hx := h' x (h x hx)

end

section

variable {env : Env} {p : Pid}

theorem step_machine {c : Cmd} {st st' : St} {a : c.Ans} {r : c.Res}
    (hs : (machine env).step p c st a = some (r, st')) : exec p c st a = (r, st') :=
  Option.some.inj (Option.ite_none_right_eq_some.mp hs).2

/-- What a command does to the store. -/
theorem redis_exec (c : Cmd) (st : St) (a : c.Ans) :
    (exec p c st a).2.redis = st.redis ∨
      ∃ c', (c = .redis c' ∨ c = .tryRedis c') ∧
        (exec p c st a).2.redis = (Redis.exec st.clock c' st.redis).2 := by
  cases c with
  | redis c' => exact .inr ⟨c', .inl rfl, rfl⟩
  | tryRedis c' =>
      cases a with
      | none => exact .inr ⟨c', .inr rfl, rfl⟩
      | some e => exact .inl rfl
  | _ => exact .inl rfl

theorem lists_of_redis {st st' : St} (hi : AllListed st)
    (hh : ∀ h, h ≠ "undefined" → st'.redis.hashes (userKey (some h)) =
      st.redis.hashes (userKey (some h)))
    (hs : ∀ h ∈ st.redis.sets usersSetKey, h ∈ st'.redis.sets usersSetKey) :
    (listing env).Moves st st' := by
  refine ⟨fun h hne hst => ?_, fun _ => hs⟩
  rw [hh h hne] at hst
  exact hs h (hi h hne hst)

/-- A command that touches no record. -/
theorem lists_recordless {c : Cmd} (hc : c.recordless) {st st' : St} {a : c.Ans} {r : c.Res}
    (hi : AllListed st) (hs : (machine env).step p c st a = some (r, st')) :
    (listing env).Moves st st' := by
  cases (Prod.ext_iff.mp (step_machine hs)).2
  rcases redis_exec c st a with he | ⟨c', hc', he⟩
  · exact lists_of_redis hi (fun _ _ => by rw [he]) (by rw [he]; exact fun _ h => h)
  · have hless : recordlessRedis c' := by
      rcases hc' with rfl | rfl
      · exact hc
      · exact hc
    refine lists_of_redis hi (fun h _ => ?_) ?_
    · rw [he]
      refine Redis.exec_hashes _ _ _ fun hw => ?_
      cases c' with
      | hset key fields =>
          cases hw
          exact absurd hless (by simp [recordlessRedis, startsWith, userKey])
      | del key => exact hless
      | _ => cases hw
    · rw [he]
      cases c' with
      | sadd | del => exact hless.elim
      | _ => exact fun _ h => h

theorem listing_recordless {α : Type} {q : Prog α} (hq : q.Issues Cmd.recordless) :
    (listing env).Tame p q :=
  Rely.closed_tame.of_issues (fun _ hc => Rely.tame_ask fun _ _ _ _ hi hs =>
    lists_recordless hc hi hs) hq

/-- A change of the map. -/
theorem listing_users {c : Cmd} (hc : (∃ h u, c = .usersSet h u) ∨ ∃ h a, c = .usersAssign h a) :
    (listing env).Tame p (ask c) := by
  refine Rely.tame_ask fun st a r st' hi hs => ?_
  cases (Prod.ext_iff.mp (step_machine hs)).2
  rcases hc with ⟨h, u, rfl⟩ | ⟨h, a', rfl⟩
  · exact ⟨hi, fun _ _ h => h⟩
  · exact ⟨hi, fun _ _ h => h⟩

theorem mem_sadd (now : Nat) (x m : String) (s : Redis.Store) :
    x ∈ (Redis.exec now (.sadd usersSetKey m) s).2.sets usersSetKey ↔
      x = m ∨ x ∈ s.sets usersSetKey := by
  by_cases hm : m ∈ s.sets usersSetKey
  · simp only [Redis.exec, Function.update_self, if_pos hm]
    exact ⟨.inr, fun h => h.elim (fun h => h ▸ hm) id⟩
  · simp [Redis.exec, hm, or_comm]

/-- The key of a named user tells the handle. -/
theorem redisArg_of_userKey {h : Str} {k : String} (hk : k ≠ "undefined")
    (he : userKey (some k) = userKey h) : redisArg h = k := by
  cases h with
  | none =>
      have he' : userKey (some k) = userKey (some "undefined") := he
      exact absurd (userKey_injective he') hk
  | some h => exact (userKey_injective he).symm

/-- A record is written for a handle that is listed. -/
theorem lists_hset {h : Str} {fields : List (String × String)} {st : St} (hi : AllListed st)
    (hmem : redisArg h ∈ st.redis.sets usersSetKey) : (listing env).Moves st
      { st with redis := (Redis.exec st.clock (.hset (userKey h) fields) st.redis).2 } := by
  refine ⟨fun k hk hst => ?_, fun _ _ h => h⟩
  by_cases he : userKey (some k) = userKey h
  · exact redisArg_of_userKey hk he ▸ hmem
  · have hother : (Redis.Cmd.hset (userKey h) fields).writesHash ≠ some (userKey (some k)) :=
      fun hw => he (Option.some.inj hw).symm
    have hsame := Redis.exec_hashes st.clock (.hset (userKey h) fields) st.redis hother
    exact hi k hk (hsame ▸ hst)

/-- A handle is added to the set, and then its record is written. -/
theorem listing_stores (h : Str) (fields : List (String × String)) :
    (listing env).Tame p ((redis (.sadd usersSetKey (redisArg h))).bind fun _ =>
      redis (.hset (userKey h) fields)) := by
  intro st hi
  have hadd : (listing env).Safe p (redis (.sadd usersSetKey (redisArg h)))
      (fun _ (st : St) => redisArg h ∈ st.redis.sets usersSetKey) st := by
    refine Rely.safe_wait rfl (fun _ _ _ hrel hmem => hrel _ hmem) fun st₁ _ hi₁ a r st₂ hs => ?_
    cases (Prod.ext_iff.mp (step_machine hs)).2
    refine ⟨lists_of_redis hi₁ (fun _ _ => rfl) fun x hx => ?_, ?_⟩
    · exact (mem_sadd (St.clock st₁) x _ _).mpr (.inr hx)
    · exact (mem_sadd (St.clock st₁) _ _ _).mpr (.inl rfl)
  refine Rely.safe_bind hi hadd fun _ st' hi' hmem => ?_
  refine Rely.safe_wait rfl (fun _ _ _ _ _ => trivial) fun st₁ hrel hi₁ a r st₂ hs => ?_
  cases (Prod.ext_iff.mp (step_machine hs)).2
  exact ⟨lists_hset hi₁ (hrel _ hmem), trivial⟩

/-! ## The writers -/

theorem listing_await {α : Type} {q : Prog α} (hq : (listing env).Tame p q) :
    (listing env).Tame p (await q) :=
  Rely.closed_tame.bind hq fun _ =>
    Rely.closed_tame.bind (listing_recordless (issues_ask trivial)) fun _ => Rely.closed_tame.ret _

theorem listing_persist (h : Str) : (listing env).Tame p (persist env h) := by
  rw [persist_eq]
  exact Rely.closed_tame.bind (listing_recordless (issues_userObject trivial)) fun _ =>
    listing_await (listing_stores h _)

theorem listing_ensure (h : Str) : (listing env).Tame p (ensure env h) := by
  refine Rely.closed_tame.bind (listing_recordless (issues_ask trivial)) fun u => ?_
  cases u with
  | some u => exact Rely.closed_tame.ret _
  | none =>
      refine Rely.closed_tame.bind (listing_recordless (issues_ask trivial)) fun wallet => ?_
      refine Rely.closed_tame.bind (listing_users (.inl ⟨_, _, rfl⟩)) fun _ => ?_
      exact Rely.closed_tame.bind (listing_await (listing_persist h)) fun _ => Rely.closed_tame.ret _

theorem listing_updateBalances (h : Str) : (listing env).Tame p (updateBalances env h) := by
  refine Rely.closed_tame.bind (Rely.closed_tame.bind (listing_recordless (issues_ask trivial))
    fun u => ?_) fun wallet => ?_
  · cases u with
    | some u => exact Rely.closed_tame.ret _
    | none => exact listing_await (listing_ensure h)
  · refine Rely.closed_tame.bind (listing_recordless (recordless_of_errands fun _ =>
      errand_await (errand_refreshBalances _))) fun b => ?_
    refine Rely.closed_tame.bind (listing_users (.inr ⟨_, _, rfl⟩)) fun _ => ?_
    refine Rely.closed_tame.bind (listing_users (.inr ⟨_, _, rfl⟩)) fun _ => ?_
    exact Rely.closed_tame.bind (listing_await (listing_persist h)) fun _ => Rely.closed_tame.ret _

/-- A setter changes a field and starts `persist`. -/
theorem listing_assign {α : Type} (h : Str) (a : Assign) (x : α) :
    (listing env).Tame p ((ask (.usersAssign h a)).bind fun _ =>
      (Prog.spawn (persist env h)).bind fun _ => .ret x) :=
  Rely.closed_tame.bind (listing_users (.inr ⟨_, _, rfl⟩)) fun _ =>
    Rely.closed_tame.bind (Rely.closed_tame.spawn (listing_persist h)) fun _ =>
      Rely.closed_tame.ret x

theorem listing_toggleAuto (h : Str) (state : Option Bool) :
    (listing env).Tame p (toggleAuto env h state) := by
  refine Rely.closed_tame.bind (listing_recordless (issues_ask trivial)) fun u => ?_
  cases u with
  | none =>
      cases state with
      | some b => exact Rely.closed_tame.throw _
      | none => exact Rely.closed_tame.throw _
  | some u => exact listing_assign h _ _

theorem listing_setRisk (h level : Str) : (listing env).Tame p (setRisk env h level) := by
  refine Rely.closed_tame.bind (listing_recordless (issues_ask trivial)) fun u => ?_
  cases u with
  | none => exact Rely.closed_tame.throw _
  | some u => exact listing_assign h _ _

theorem listing_onUpdate (h : Str) : (listing env).Tame p (onUpdate env h) := by
  refine Rely.closed_tame.bind (listing_recordless (issues_userObject trivial)) fun u => ?_
  refine Rely.closed_tame.bind (listing_users (.inl ⟨_, _, rfl⟩)) fun _ => ?_
  refine Rely.closed_tame.bind (listing_await (listing_persist h)) fun _ => ?_
  refine listing_recordless (Prog.issues_bind (issues_userObject trivial) fun u => ?_)
  split
  · exact issues_await trivial (issues_ask trivial)
  · exact .ret ()

/-- A watcher that has seen a new balance. -/
theorem listing_watcher (h : Str) (a : Number × Number → Assign) :
    (listing env).Tame p ((userObject h).bind fun u =>
      (await (refreshBalances env u.wallet.publicKey)).bind fun b =>
        (ask (.usersAssign h (a b))).bind fun _ => Prog.spawn (onUpdate env h)) := by
  refine Rely.closed_tame.bind (listing_recordless (issues_userObject trivial)) fun u => ?_
  refine Rely.closed_tame.bind (listing_recordless (recordless_of_errands fun _ =>
    errand_await (errand_refreshBalances _))) fun b => ?_
  exact Rely.closed_tame.bind (listing_users (.inr ⟨_, _, rfl⟩)) fun _ =>
    Rely.closed_tame.spawn (listing_onUpdate h)

theorem listing_storeSecret (h : Str) (array : Json) :
    (listing env).Tame p (storeSecret env h array) :=
  Rely.closed_tame.bind (listing_recordless (Prog.issues_bind (issues_ask trivial) fun _ => .ret _))
    fun _ => listing_stores h _

theorem listing_hydrate (handle : String) : (listing env).Tame p (hydrate env handle) := by
  refine Rely.closed_tame.bind (listing_recordless (issues_await trivial
    (issues_getUser trivial))) fun data => ?_
  cases data with
  | none => exact Rely.closed_tame.ret _
  | some data =>
      refine Rely.closed_tame.bind (listing_recordless (issues_await trivial
        (issues_getWalletCompat trivial))) fun w => ?_
      have hset : ∀ u, (listing env).Tame p (ask (.usersSet (some handle) u)) := fun u =>
        listing_users (.inl ⟨_, _, rfl⟩)
      dsimp only
      split
      · split
        · refine Rely.closed_tame.bind (Rely.closed_tame.ofExcept _) fun kp => ?_
          split
          · split
            · exact Rely.closed_tame.bind (listing_await (listing_storeSecret _ _)) fun _ => hset _
            · exact hset _
          · exact hset _
        · exact Rely.closed_tame.ret _
      · exact Rely.closed_tame.ret _

/-! ## Runs -/

theorem listing_event (ev : Ev) : (listing env).Tame p (ev.body env) := by
  have hless : ∀ c : Cmd, c.recordless → (listing env).Tame p (ask c) := fun _ hc =>
    listing_recordless (issues_ask hc)
  cases ev with
  | boot =>
      refine Rely.closed_tame.bind (listing_await ?_) fun _ => hless _ trivial
      refine Rely.closed_tame.bind (listing_await (hless _ trivial)) fun handles => ?_
      refine Rely.closed_tame.bind (Rely.closed_tame.forEach fun h _ => listing_hydrate h) fun _ => ?_
      exact listing_recordless (issues_watchDeposits trivial (fun _ => trivial) fun _ => trivial)
  | call q c =>
      exact built_call Rely.closed_tame hless listing_ensure listing_updateBalances
        listing_toggleAuto listing_setRisk c
  | solChanged h => exact listing_watcher h fun b => .sol b.1
  | tokenChanged h => exact listing_watcher h fun b => .tierBal b.2
  | telegram u =>
      exact built_update Rely.closed_tame hless listing_ensure listing_updateBalances
        listing_toggleAuto listing_setRisk u
  | tweet handle text =>
      exact built_handleMessage Rely.closed_tame hless listing_ensure listing_updateBalances
        listing_toggleAuto listing_setRisk (tweetMessage handle text)
  | request r =>
      exact built_onRequest Rely.closed_tame hless listing_ensure listing_updateBalances
        listing_toggleAuto listing_setRisk r

/-- In every run, whoever has a record in the store is in the set the boot reads. -/
theorem stored_users_are_listed (env : Env) {w : World (machine env)}
    (hw : (machine env).Reach AllListed w) {h : String} (hh : h ≠ "undefined")
    (hstored : (St.redis w.st).hashes (userKey (some h)) ≠ []) :
    h ∈ (St.redis w.st).sets usersSetKey := by
  have hinv : AllListed w.st := by
    refine Rely.reach_inv (R := listing env) (fun _ hst => hst) ?_ ?_ ?_ hw
    · intro ev st st' hi he
      rcases enter_cases he with rfl | rfl
      · exact ⟨hi, fun _ _ h => h⟩
      · exact ⟨hi, fun _ _ h => h⟩
    · exact fun ev st st' _ _ st'' _ hi => listing_event ev st'' hi
    · exact fun q st hi => ⟨hi, fun _ _ _ h => h⟩
  exact hinv h hh hstored

end

namespace Sample

/-- The API server meets a user, and nothing has been stored before. -/
def firstVisit : List (machine env).Choice :=
  serve (machine env) (online alice) (.call .api (.ensure (some "alice"))) 0 3

theorem stored_users_are_listed_alice : ∃ w : World (machine env),
    (machine env).Reach AllListed w ∧ (St.redis w.st).hashes "user:alice" ≠ [] ∧
      "alice" ∈ (St.redis w.st).sets "users" := by
  have hempty : AllListed (St.fresh env 0) := fun h _ hst => absurd rfl hst
  have hrun : (Machine.nexts ⟨St.fresh env 0, [], []⟩ firstVisit).any (fun w =>
      (St.redis w.st).hashes "user:alice" ≠ []) = true := by decide +kernel
  obtain ⟨w, hw, hends⟩ := Machine.Reach.of_run hempty hrun
  have hstored := of_decide_eq_true hends
  exact ⟨w, hw, hstored, stored_users_are_listed env hw (by decide) hstored⟩

end Sample

end Nexus
