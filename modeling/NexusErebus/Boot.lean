import NexusErebus.UserStore
import NexusErebus.Wallets

/-!
# The boot of the agent

`initializeUsers` goes through the stored handles and puts those with a usable key into the
map.  This module says what it makes of every store.

`bootAll` is the loop as a function of the store.  The loop writes nothing to the store: the
branch that would encrypt an old wallet needs both results of `getWalletCompat`, which returns
one at most (`initializeUsers_redis`).  So an old wallet is never migrated
(`migrates_iff_no_legacy`).  A marked wallet that cannot be opened throws, and then the boot
stops there.  Otherwise exactly the handles with a usable key are loaded and everybody in the
map is watched (`boots_iff_all_open`).
-/

namespace Nexus

open Async Text

section

variable (env : Env)

/-- The hash of a handle. -/
def userHash (st : St) (h : String) : List (String × String) := st.redis.hashes (userKey (some h))

/-- What the loop makes of a wallet field: the key pair of a handle to be loaded, nothing for a
handle to be skipped, or an error. -/
def bootKey (wallet : Option String) : Except Err (Option Keypair) :=
  match wallet with
  | none => .ok none
  | some w =>
      if startsWith w "enc:" then
        match openWallet env w with
        | .error e => .error e
        | .ok secret => if secret.length = 64 then (env.keypair secret).map some else .ok none
      else .ok none

/-- The user the loop puts into the map. -/
def bootUser (kp : Keypair) (hash : List (String × String)) : User where
  wallet := kp.filled
  sol := (Number.parseFloat ((hash.lookup "sol").getD "0")).held
  tierBal := (Number.parseFloat ((hash.lookup "tierBal").getD "0")).held
  auto := hash.lookup "auto" = some "true"
  risk := some ((hash.lookup "risk").getD "med")

/-- The map gets a user. -/
def St.load (st : St) (p : Pid) (h : String) (u : User) : St :=
  st.onMem p fun m => { m with users := Assoc.set (some h) u m.users }

/-- The loop, up to the first error. -/
def bootAll (p : Pid) : List String → St → Except Err Unit × St
  | [], st => (.ok (), st)
  | h :: hs, st =>
      match bootKey env ((userHash st h).lookup "wallet") with
      | .error e => (.error e, st)
      | .ok none => bootAll p hs st
      | .ok (some kp) => bootAll p hs (st.load p h (bootUser kp (userHash st h)))

end

/-! ## The loop -/

section

variable {τ : Type} {env : Env} {p : Pid} {strat : (c : Cmd) → τ → c.Ans × τ}

variable (env p strat) in
/-- One round of the loop. -/
theorem hydrate_run (h : String) (st : St) (t : τ) : ∃ t',
    (hydrate env h).run (alone p strat) (st, t) =
      match bootKey env ((userHash st h).lookup "wallet") with
      | .error e => (.error e, (st, t'))
      | .ok none => (.ok (), (st, t'))
      | .ok (some kp) => (.ok (), (st.load p h (bootUser kp (userHash st h)), t')) := by
  obtain ⟨t₁, huser⟩ := run_await (getUser_run (p := p) (some h) st t)
  change (await (getUser (some h))).run (alone p strat) (st, t) =
    (.ok (if userHash st h = [] then none else some (Assoc.erase "wallet" (userHash st h))),
      (st, t₁)) at huser
  by_cases he : userHash st h = []
  · rw [if_pos he] at huser
    rw [he]
    exact ⟨t₁, Prog.run_bind_ok huser⟩
  · rw [if_neg he] at huser
    have hcompat := getWalletCompat_run env p strat (some h) st t₁
    obtain ⟨t₃, hwallet⟩ := run_await hcompat
    have hfield : ∀ f, "wallet" ≠ f →
        (Assoc.erase "wallet" (userHash st h)).lookup f = (userHash st h).lookup f := fun f hf => by
      rw [Assoc.lookup_erase, if_neg hf]
    have hdata : ∀ kp : Keypair, (⟨kp.filled,
        (Number.parseFloat (((Assoc.erase "wallet" (userHash st h)).lookup "sol").getD "0")).held,
        (Number.parseFloat (((Assoc.erase "wallet" (userHash st h)).lookup "tierBal").getD "0")).held,
        (Assoc.erase "wallet" (userHash st h)).lookup "auto" = some "true",
        some (((Assoc.erase "wallet" (userHash st h)).lookup "risk").getD "med")⟩ : User) =
          bootUser kp (userHash st h) := fun kp => by
      simp only [hfield _ (by decide : "wallet" ≠ "sol"), hfield _ (by decide : "wallet" ≠ "tierBal"),
        hfield _ (by decide : "wallet" ≠ "auto"), hfield _ (by decide : "wallet" ≠ "risk"), bootUser]
    rw [hydrate, Prog.bind_eq, Prog.run_bind_ok huser]
    dsimp only
    change _ = (match (userHash st h).lookup "wallet" with
      | none => _
      | some w => _, (st, t₃)) at hwallet
    cases hw : (userHash st h).lookup "wallet" with
    | none =>
        rw [hw] at hwallet
        exact ⟨t₃, Prog.run_bind_ok hwallet⟩
    | some w =>
        rw [hw] at hwallet
        by_cases hmark : startsWith w "enc:" = true
        · simp only [bootKey, if_pos hmark] at hwallet ⊢
          cases hopen : openWallet env w with
          | error e =>
              rw [hopen] at hwallet
              exact ⟨t₃, Prog.run_bind_error hwallet⟩
          | ok secret =>
              rw [hopen] at hwallet
              rw [Prog.bind_eq, Prog.run_bind_ok hwallet]
              dsimp only
              by_cases hlen : secret.length = 64
              · rw [if_pos hlen, if_pos hlen]
                cases hkp : env.keypair secret with
                | error e => exact ⟨t₃, Prog.run_bind_error (Prog.run_ofExcept _ _)⟩
                | ok kp =>
                    refine ⟨(strat (.usersSet (some h) (bootUser kp (userHash st h))) t₃).2,
                      (Prog.run_bind_ok (Prog.run_ofExcept _ _)).trans ?_⟩
                    rw [hdata]
                    rfl
              · rw [if_neg hlen, if_neg hlen]
                exact ⟨t₃, rfl⟩
        · simp only [bootKey, if_neg hmark] at hwallet ⊢
          split at hwallet
          · exact ⟨t₃, Prog.run_bind_ok hwallet⟩
          · exact ⟨t₃, Prog.run_bind_ok hwallet⟩

variable (strat) in
/-- The loop. -/
theorem hydrateAll_run : ∀ (hs : List String) (st : St) (t : τ), ∃ t',
    (Prog.forEach (hydrate env) hs).run (alone p strat) (st, t) =
      ((bootAll env p hs st).1, ((bootAll env p hs st).2, t'))
  | [], _, t => ⟨t, rfl⟩
  | h :: hs, st, t => by
      obtain ⟨t₁, hround⟩ := hydrate_run env p strat h st t
      rw [Prog.forEach, bootAll]
      cases hkey : bootKey env ((userHash st h).lookup "wallet") with
      | error e =>
          rw [hkey] at hround
          exact ⟨t₁, Prog.run_bind_error hround⟩
      | ok found =>
          rw [hkey] at hround
          cases found with
          | none =>
              rw [Prog.run_bind_ok hround]
              exact hydrateAll_run hs st t₁
          | some kp =>
              rw [Prog.run_bind_ok hround]
              exact hydrateAll_run hs _ t₁

end

section

variable {env : Env} {p : Pid} {st : St}

@[simp] theorem St.load_redis (h : String) (u : User) : (st.load p h u).redis = st.redis := rfl

@[simp] theorem St.load_users (h : String) (u : User) :
    ((st.load p h u).mem p).users = Assoc.set (some h) u (st.mem p).users := by
  simp [St.load]

variable (env p) in
/-- The loop writes nothing to the store. -/
theorem bootAll_redis : ∀ (hs : List String) (st : St), (bootAll env p hs st).2.redis = st.redis
  | [], _ => rfl
  | h :: hs, st => by
      rw [bootAll]
      split
      · rfl
      · exact bootAll_redis hs st
      · exact bootAll_redis hs _

variable (env p) in
/-- The loop ends exactly if no handle makes it throw. -/
theorem bootAll_ok : ∀ (hs : List String) (st : St), (bootAll env p hs st).1 = .ok () ↔
    ∀ h ∈ hs, ∃ found, bootKey env ((userHash st h).lookup "wallet") = .ok found
  | [], _ => by simp [bootAll]
  | h :: hs, st => by
      rw [bootAll, List.forall_mem_cons]
      cases hkey : bootKey env ((userHash st h).lookup "wallet") with
      | error e => simp
      | ok found =>
          cases found with
          | none =>
              dsimp only
              rw [bootAll_ok hs st, and_iff_right ⟨none, rfl⟩]
          | some kp =>
              dsimp only
              rw [bootAll_ok hs _, and_iff_right ⟨some kp, rfl⟩]
              rfl

variable (env p) in
/-- The map after the loop. -/
theorem bootAll_users : ∀ (hs : List String) (st : St),
    (bootAll env p hs st).1 = .ok () → ∀ h : String,
      ((bootAll env p hs st).2.mem p).users.lookup (some h) =
        match bootKey env ((userHash st h).lookup "wallet") with
        | .ok (some kp) =>
            if h ∈ hs then some (bootUser kp (userHash st h))
            else (st.mem p).users.lookup (some h)
        | _ => (st.mem p).users.lookup (some h)
  | [], st, _, h => by
      split
      · simp [bootAll]
      · rfl
  | h' :: hs, st, hok, h => by
      rw [bootAll] at hok ⊢
      cases hkey' : bootKey env ((userHash st h').lookup "wallet") with
      | error e =>
          rw [hkey'] at hok
          cases hok
      | ok found =>
          rw [hkey'] at hok
          cases found with
          | none =>
              dsimp only at hok ⊢
              rw [bootAll_users hs st hok h]
              cases hkey : bootKey env ((userHash st h).lookup "wallet") with
              | error e => rfl
              | ok found =>
                  cases found with
                  | none => rfl
                  | some kp =>
                      have hne : h ≠ h' := by
                        rintro rfl
                        cases hkey.symm.trans hkey'
                      simp [hne]
          | some kp' =>
              dsimp only at hok ⊢
              have hsame : userHash (st.load p h' (bootUser kp' (userHash st h'))) h =
                  userHash st h := rfl
              rw [bootAll_users hs _ hok h, hsame, St.load_users]
              by_cases hh : h = h'
              · subst hh
                rw [hkey', Assoc.lookup_set_self]
                simp
              · have hne : (some h' : Str) ≠ some h := fun he => hh (Option.some.inj he).symm
                rw [Assoc.lookup_set_ne hne]
                simp [hh]

end

/-! ## The watchers -/

section

variable {τ : Type} {p : Pid} {strat : (c : Cmd) → τ → c.Ans × τ}

variable (p strat) in
/-- Everybody in the map is watched, and nothing else has changed in the map or the store. -/
theorem watchDeposits_run (st : St) (t : τ) : ∃ s',
    watchDeposits.run (alone p strat) (st, t) = (.ok (), s') ∧ s'.1.redis = st.redis ∧
      (s'.1.mem p).users = (st.mem p).users ∧
        ∀ h ∈ Assoc.keys (st.mem p).users, h ∈ (s'.1.mem p).watched := by
  let Watching : St × τ → List Str → Prop := fun s done =>
    s.1.redis = st.redis ∧ (s.1.mem p).users = (st.mem p).users ∧
      ∀ h ∈ done, h ∈ (s.1.mem p).watched
  have hround : ∀ h s done, Watching s done → ∃ s',
      ((ask (.watched h)).bind fun known : Bool =>
        if known then .ret () else ask (.watch h)).run (alone p strat) s = (.ok (), s') ∧
          Watching s' (h :: done) := by
    rintro h ⟨st₁, t₁⟩ done ⟨hredis, husers, hdone⟩
    have hask : (ask (.watched h)).run (alone p strat) (st₁, t₁) =
        (.ok (decide (h ∈ (st₁.mem p).watched)), (st₁, (strat (.watched h) t₁).2)) := rfl
    rw [Prog.run_bind_ok hask]
    by_cases hin : h ∈ (st₁.mem p).watched
    · rw [decide_eq_true hin, if_pos rfl]
      exact ⟨_, rfl, hredis, husers, List.forall_mem_cons.mpr ⟨hin, hdone⟩⟩
    · rw [decide_eq_false hin, if_neg (by decide)]
      let st₂ := st₁.onMem p fun m => { m with watched := m.watched ++ [h] }
      have hmem : (st₂.mem p).watched = (st₁.mem p).watched ++ [h] := by simp [st₂]
      refine ⟨(st₂, _), rfl, hredis, ?_, ?_⟩
      · exact (by simp [st₂] : (st₂.mem p).users = (st₁.mem p).users).trans husers
      · intro h' hh'
        rw [hmem]
        rcases List.mem_cons.mp hh' with rfl | hh'
        · exact List.mem_append_right _ (List.mem_singleton_self _)
        · exact List.mem_append_left _ (hdone h' hh')
  have hkeys : (ask .usersKeys).run (alone p strat) (st, t) =
      (.ok (Assoc.keys (st.mem p).users), (st, (strat .usersKeys t).2)) := rfl
  rw [watchDeposits, Prog.bind_eq, Prog.run_bind_ok hkeys]
  obtain ⟨s', hrun, hredis, husers, hwatched⟩ := Prog.run_forEach_sim (R := Watching)
    (g := fun done h => h :: done) hround (Assoc.keys (st.mem p).users)
    (s := (st, (strat .usersKeys t).2)) (t := []) ⟨rfl, rfl, by simp⟩
  refine ⟨s', hrun, hredis, husers, fun h hh => hwatched h ?_⟩
  rw [List.foldl_flip_cons_eq_append']
  simpa using hh

variable (p strat) in
/-- What `initializeUsers` does, up to the watchers. -/
theorem initializeUsers_run (env : Env) (st : St) (t : τ) : ∃ t',
    (initializeUsers env).run (alone p strat) (st, t) =
      match bootAll env p (st.redis.sets usersSetKey) st with
      | (.ok (), st') => watchDeposits.run (alone p strat) (st', t')
      | (.error e, st') => (.error e, (st', t')) := by
  have hget : getAllUsers.run (alone p strat) (st, t) =
      (.ok (st.redis.sets usersSetKey), (st, (strat (.redis (.smembers usersSetKey)) t).2)) := rfl
  obtain ⟨t₁, hall⟩ := run_await hget
  obtain ⟨t₂, hloop⟩ := hydrateAll_run strat (st.redis.sets usersSetKey) st t₁
  refine ⟨t₂, (Prog.run_bind_ok hall).trans ?_⟩
  cases hboot : bootAll env p (st.redis.sets usersSetKey) st with
  | mk r st' =>
      rw [hboot] at hloop
      cases r with
      | ok => exact Prog.run_bind_ok hloop
      | error e => exact Prog.run_bind_error hloop

/-- The boot writes nothing to the store. -/
theorem initializeUsers_redis (env : Env) (st : St) (t : τ) :
    ((initializeUsers env).run (alone p strat) (st, t)).2.1.redis = st.redis := by
  obtain ⟨t', hrun⟩ := initializeUsers_run p strat env st t
  have hredis := bootAll_redis env p (st.redis.sets usersSetKey) st
  rw [hrun]
  cases hboot : bootAll env p (st.redis.sets usersSetKey) st with
  | mk r st' =>
      rw [hboot] at hredis
      cases r with
      | ok =>
          obtain ⟨s', hwatch, hsame, -⟩ := watchDeposits_run p strat st' t'
          dsimp only
          rw [hwatch]
          exact hsame.trans hredis
      | error e => exact hredis

end

/-! ## Old wallets -/

/-- An old wallet: the plain text of the bytes of a key pair, beside a public profile. -/
structure Legacy (env : Env) (hash : List (String × String)) (secret : Bytes) (kp : Keypair) :
    Prop where
  wallet : ∃ w, hash.lookup "wallet" = some w ∧ Json.parse w = some (bytesJson secret)
  length : secret.length = 64
  valid : env.keypair secret = .ok kp
  profile : ∃ f, f ≠ "wallet" ∧ (hash.lookup f).isSome = true

/-- The wallet is encrypted and read back, and the handle is in the map with its address. -/
structure Migrated {τ : Type} (env : Env) (strat : (c : Cmd) → τ → c.Ans × τ) (s : St × τ)
    (h : String) (secret : Bytes) (kp : Keypair) : Prop where
  marked : ∃ w, (userHash s.1 h).lookup "wallet" = some w ∧ startsWith w "enc:" = true
  secret : ((getWalletSecret env (some h)).run (alone .agent strat) s).1 = .ok (some secret)
  loaded : ∃ u, (s.1.mem .agent).users.lookup (some h) = some u ∧ u.wallet.address = kp.address

theorem Legacy.not_marked {env : Env} {hash : List (String × String)} {secret : Bytes}
    {kp : Keypair} (hl : Legacy env hash secret kp) :
    ¬ ∃ w, hash.lookup "wallet" = some w ∧ startsWith w "enc:" = true := by
  rintro ⟨w, hw, hmark⟩
  obtain ⟨w', hw', hparse⟩ := hl.wallet
  cases hw.symm.trans hw'
  rw [not_startsWith_mark hparse] at hmark
  cases hmark

/-- The boot migrates the old wallets and keeps the others exactly if there is no old one. -/
theorem migrates_iff_no_legacy (env : Env) {τ : Type} (strat : (c : Cmd) → τ → c.Ans × τ) (st : St)
    (t : τ) :
    ((∀ h secret kp, Legacy env (userHash st h) secret kp →
        Migrated env strat ((initializeUsers env).run (alone .agent strat) (st, t)).2 h secret kp) ∧
      ∀ h w, (userHash st h).lookup "wallet" = some w → startsWith w "enc:" = true →
        (userHash ((initializeUsers env).run (alone .agent strat) (st, t)).2.1 h).lookup "wallet" =
          some w) ↔
      ∀ h secret kp, ¬ Legacy env (userHash st h) secret kp := by
  have hsame : ∀ h, userHash ((initializeUsers env).run (alone .agent strat) (st, t)).2.1 h =
      userHash st h := fun h => by rw [userHash, initializeUsers_redis, userHash]
  constructor
  · rintro ⟨hmig, -⟩ h secret kp hl
    obtain ⟨w, hw, hmark⟩ := (hmig h secret kp hl).marked
    exact hl.not_marked ⟨w, hsame h ▸ hw, hmark⟩
  · intro hno
    exact ⟨fun h secret kp hl => absurd hl (hno h secret kp), fun h w hw _ => (hsame h).symm ▸ hw⟩

namespace Sample

/-- A store with the fields of two users. -/
def stored (fields : String → List (String × String)) : St :=
  { St.fresh env 0 with
    redis := { Redis.Store.empty with
      hashes := fun key =>
        if key = "user:alice" then fields "alice" else if key = "user:bob" then fields "bob" else []
      sets := fun key => if key = "users" then ["bob", "alice"] else [] } }

/-- The wallet of `alice` is an old one. -/
def old : St :=
  stored fun h => if h = "alice" then
    [("sol", "1.5"), ("wallet", Json.stringify (bytesJson alice.secretKey))] else []

end Sample

/-- The old wallet of `alice` is not migrated. -/
theorem legacy_not_migrated :
    Legacy Sample.env (userHash Sample.old "alice") Sample.alice.secretKey Sample.alice ∧
      ¬ Migrated Sample.env Sample.unplugged
        ((initializeUsers Sample.env).run (alone .agent Sample.unplugged) (Sample.old, ())).2 "alice"
        Sample.alice.secretKey Sample.alice := by
  have hl : Legacy Sample.env (userHash Sample.old "alice") Sample.alice.secretKey Sample.alice :=
    ⟨⟨_, rfl, parse_bytesJson _⟩, rfl, by rfl, "sol", by decide, rfl⟩
  refine ⟨hl, fun hm => hl.not_marked ?_⟩
  have hmark := hm.marked
  rwa [userHash, initializeUsers_redis] at hmark

/-! ## Bad wallets -/

/-- The wallet is not marked, or it is opened, to the bytes of a key pair if they are 64. -/
def Opens (env : Env) (w : String) : Prop :=
  startsWith w "enc:" = true → ∃ secret, openWallet env w = .ok secret ∧
    (secret.length = 64 → ∃ kp, env.keypair secret = .ok kp)

/-- Exactly the stored handles with a usable key are loaded, with their stored fields, and
everybody in the map is watched. -/
structure Booted (env : Env) (st st' : St) : Prop where
  entries : ∀ h : String, (st'.mem .agent).users.lookup (some h) =
    match storedKey env st (some h) with
    | some kp =>
        if h ∈ st.redis.sets usersSetKey then some (bootUser kp (userHash st h))
        else (st.mem .agent).users.lookup (some h)
    | none => (st.mem .agent).users.lookup (some h)
  watched : ∀ h ∈ Assoc.keys (st'.mem .agent).users, h ∈ (st'.mem .agent).watched

section

variable {env : Env}

theorem bootKey_ok_iff (wallet : Option String) :
    (∃ found, bootKey env wallet = .ok found) ↔ ∀ w, wallet = some w → Opens env w := by
  cases wallet with
  | none => simp [bootKey]
  | some w =>
      simp only [bootKey, Option.some.injEq, forall_eq', Opens]
      by_cases hmark : startsWith w "enc:" = true
      · simp only [hmark, if_true, true_imp_iff]
        cases openWallet env w with
        | error e => simp
        | ok secret =>
            by_cases hlen : secret.length = 64
            · cases hkp : env.keypair secret with
              | error e => simp [hlen, hkp, Except.map]
              | ok kp => simp [hlen, hkp, Except.map]
            · simp [hlen]
      · simp [hmark]

theorem bootKey_eq {wallet : Option String} {found : Option Keypair}
    (h : bootKey env wallet = .ok found) : found = wallet.bind (usableKey env) := by
  cases wallet with
  | none => exact (Except.ok.inj h).symm
  | some w =>
      simp only [bootKey, usableKey, Option.bind_some] at h ⊢
      split at h
      next hmark =>
        rw [if_pos hmark]
        split at h
        next => cases h
        next secret hopen =>
          rw [hopen]
          dsimp only
          split at h
          next hlen =>
            rw [if_pos hlen]
            cases hkp : env.keypair secret with
            | error e =>
                rw [hkp] at h
                cases h
            | ok kp =>
                rw [hkp] at h
                exact (Except.ok.inj h).symm
          next hlen => rw [if_neg hlen, Except.ok.inj h]
      next hmark => rw [if_neg hmark, Except.ok.inj h]

end

/-- The boot completes as it should exactly if every stored wallet opens. -/
theorem boots_iff_all_open (env : Env) {τ : Type} (strat : (c : Cmd) → τ → c.Ans × τ) (st : St)
    (t : τ) :
    (∃ s', (initializeUsers env).run (alone .agent strat) (st, t) = (.ok (), s') ∧
        Booted env st s'.1) ↔
      ∀ h ∈ st.redis.sets usersSetKey, ∀ w, (userHash st h).lookup "wallet" = some w →
        Opens env w := by
  obtain ⟨t', hrun⟩ := initializeUsers_run .agent strat env st t
  have hok := bootAll_ok env .agent (st.redis.sets usersSetKey) st
  have husers := bootAll_users env .agent (st.redis.sets usersSetKey) st
  simp only [← bootKey_ok_iff]
  rw [← hok, hrun]
  cases hboot : bootAll env .agent (st.redis.sets usersSetKey) st with
  | mk r st' =>
      rw [hboot] at husers hok
      cases r with
      | error e => simp
      | ok =>
          simp only [iff_true]
          obtain ⟨s', hwatch, -, hsame, hwatched⟩ := watchDeposits_run .agent strat st' t'
          refine ⟨s', hwatch, ?_, ?_⟩
          · intro h
            rw [hsame, husers rfl h]
            cases hkey : bootKey env ((userHash st h).lookup "wallet") with
            | error e =>
                have hnot : h ∉ st.redis.sets usersSetKey := fun hh => by
                  obtain ⟨found, hfound⟩ := hok.mp rfl h hh
                  cases hkey.symm.trans hfound
                cases storedKey env st (some h) with
                | none => rfl
                | some kp => simp [hnot]
            | ok found =>
                have hfound : storedKey env st (some h) = found := (bootKey_eq hkey).symm
                rw [hfound]
                cases found with
                | none => rfl
                | some kp => rfl
          · rw [hsame]
            exact hwatched

namespace Sample

/-- The wallet of `bob` is cut off, that of `alice` is as it should be. -/
def cutOff : St :=
  stored fun h => if h = "alice" then
    [("wallet", "enc:" ++ sealed env (List.replicate 12 0)
      (Utf8.encode (Json.stringify (bytesJson alice.secretKey))))]
  else [("wallet", "enc:AAAA")]

theorem storedKey_cutOff : storedKey env cutOff (some "alice") = some alice := by
  have hopen : openWallet env ("enc:" ++ sealed env (List.replicate 12 0)
      (Utf8.encode (Json.stringify (bytesJson alice.secretKey)))) = .ok alice.secretKey :=
    openWallet_sealed env rfl (parse_bytesJson _)
  have hfield : walletField cutOff (userKey (some "alice")) = some ("enc:" ++
      sealed env (List.replicate 12 0)
        (Utf8.encode (Json.stringify (bytesJson alice.secretKey)))) := rfl
  rw [storedKey, hfield, Option.bind_some, usableKey, startsWith_mark, if_pos rfl, hopen]
  rfl

end Sample

/-- The wallet of `bob` stops the boot, and `alice`, who has a usable key, is not loaded. -/
theorem boot_stops :
    storedKey Sample.env Sample.cutOff (some "alice") = some Sample.alice ∧
      ∃ e s', (initializeUsers Sample.env).run (alone .agent Sample.unplugged) (Sample.cutOff, ()) =
        (.error e, s') ∧ (s'.1.mem .agent).users.lookup (some "alice") = none := by
  refine ⟨Sample.storedKey_cutOff, ?_⟩
  obtain ⟨t', hrun⟩ := initializeUsers_run .agent Sample.unplugged Sample.env Sample.cutOff ()
  have hboot : bootAll Sample.env .agent (Sample.cutOff.redis.sets usersSetKey) Sample.cutOff =
      (.error (.new "Unsupported state or unable to authenticate data"), Sample.cutOff) := rfl
  rw [hboot] at hrun
  exact ⟨_, _, hrun, rfl⟩

end Nexus
