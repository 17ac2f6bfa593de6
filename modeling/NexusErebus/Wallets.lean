import NexusErebus.Deposits
import NexusErebus.Footprint

/-!
# One user, one wallet

The agent and the API server both keep a map of users, and both may stop and start again.
This module asks whether `walletOf` ever returns two addresses for one handle.

It may: `ensure` generates a key pair and stores only the public fields, so the key is gone
when the process stops, and the other process never sees it (`walletOf_twice`).  In the runs
in which a key is only ever generated for a handle that nothing speaks for yet, `walletOf`
always returns the same address (`walletOf_agrees`).  What speaks for a handle is an entry in
a map, an address that was returned, or a usable key in the store.
-/

namespace Nexus

open Async Text

section

variable (env : Env)

/-! ## What speaks for a handle -/

/-- The address the map of a process has for a handle. -/
def entry (st : St) (p : Pid) (h : Str) : Option String :=
  ((st.mem p).users.lookup h).map fun u => u.wallet.address

/-- The field `wallet` of a hash. -/
def walletField (st : St) (key : String) : Option String := (st.redis.hashes key).lookup "wallet"

/-- The key pair behind a wallet field, if `initializeUsers` can use it. -/
def usableKey (wallet : String) : Option Keypair :=
  if startsWith wallet "enc:" then
    match openWallet env wallet with
    | .ok secret => if secret.length = 64 then (env.keypair secret).toOption else none
    | .error _ => none
  else none

/-- The usable key the store holds for a handle. -/
def storedKey (st : St) (h : Str) : Option Keypair :=
  (walletField st (userKey h)).bind (usableKey env)

/-- Nothing speaks for a handle. -/
def unclaimed (st : St) (h : Str) : Bool :=
  [Pid.agent, .api, .worker, .metrics, .launcher].all (fun p => (entry st p h).isNone) &&
    st.returned.all (fun r => r.1 ≠ h) && (storedKey env st h).isNone

/-- A key is generated for a handle only if nothing speaks for it. -/
def firstKey (_ : Pid) (c : Cmd) (st : St) : Bool :=
  match c with
  | .generate (.wallet h) => unclaimed env st h
  | _ => true

/-- The runs in which keys are only generated for handles nothing speaks for. -/
def guardedMachine : Machine sig Err := (machine env).guarded (fun _ _ => true) (firstKey env)

/-- Something speaks for an address of a handle. -/
inductive Claims (st : St) (h : Str) (a : String) : Prop where
  | entry (p : Pid) : entry st p h = some a → Claims st h a
  | returned : (h, a) ∈ st.returned → Claims st h a
  | stored (kp : Keypair) : storedKey env st h = some kp → kp.address = a → Claims st h a

/-- What the argument is about.  Whatever speaks for a handle agrees.  A process relies on the
entries of its map, which keep their addresses, and on the stored keys, which nobody touches. -/
def rely : Rely (guardedMachine env) where
  inv st := ∀ h a b, Claims env st h a → Claims env st h b → a = b
  rel p st st' := (∀ h a, entry st p h = some a → entry st' p h = some a) ∧
    ∀ key, walletField st' key = walletField st key
  rel_refl _ _ := ⟨fun _ _ h => h, fun _ => rfl⟩
  rel_trans h₁ h₂ := ⟨fun h a he => h₂.1 h a (h₁.1 h a he), fun key => (h₂.2 key).trans (h₁.2 key)⟩

end

section

variable {env : Env} {st st' : St} {p : Pid} {h : Str}

theorem not_claims_of_unclaimed (hu : unclaimed env st h = true) (a : String) :
    ¬ Claims env st h a := by
  simp only [unclaimed, Bool.and_eq_true, List.all_eq_true, Option.isNone_iff_eq_none] at hu
  obtain ⟨⟨hentry, hreturned⟩, hstored⟩ := hu
  intro hc
  cases hc with
  | entry p he =>
      have hp : p ∈ [Pid.agent, .api, .worker, .metrics, .launcher] := by
        cases p with
        | _ => decide
      simp [hentry p hp] at he
  | returned hr => simpa using hreturned _ hr
  | stored kp hk _ => simp [hstored] at hk

/-! ## Steps that leave the keys alone -/

/-- The maps have the same addresses, the store the same keys, and nothing was returned. -/
structure SameKeys (st st' : St) : Prop where
  entry : ∀ p h, entry st' p h = entry st p h
  field : ∀ key, walletField st' key = walletField st key
  returned : st'.returned = st.returned

theorem SameKeys.refl (st : St) : SameKeys st st := ⟨fun _ _ => rfl, fun _ => rfl, rfl⟩

theorem SameKeys.claims (hs : SameKeys st st') {a : String} (hc : Claims env st' h a) :
    Claims env st h a := by
  cases hc with
  | entry p he => exact .entry p (hs.entry p h ▸ he)
  | returned hr => exact .returned (hs.returned ▸ hr)
  | stored kp hk ha => exact .stored kp (by rw [storedKey, hs.field] at hk; exact hk) ha

theorem SameKeys.moves (hi : (rely env).inv st) (hs : SameKeys st st') :
    (rely env).Moves st st' :=
  ⟨fun h a b ha hb => hi h a b (hs.claims ha) (hs.claims hb),
    fun p => ⟨fun h _ he => (hs.entry p h).trans he, hs.field⟩⟩

/-- The addresses of a map do not depend on the rest of the memory. -/
theorem sameKeys_onMem {f : Mem → Mem}
    (hf : ∀ h, (((f (st.mem p)).users.lookup h).map fun u => u.wallet.address) = entry st p h) :
    SameKeys st (st.onMem p f) where
  entry q h := by
    by_cases hq : q = p
    · subst hq
      rw [entry, St.onMem_self]
      exact hf h
    · rw [entry, St.onMem_ne st hq, entry]
  field _ := rfl
  returned := rfl

/-- The commands to Redis that write no key. -/
def keepsWallets : Redis.Cmd → Prop
  | .hset _ fields => ∀ f ∈ fields, f.1 ≠ "wallet"
  | .del _ => False
  | _ => True

/-- The commands that write no address and no key. -/
def Cmd.keepsKeys : Cmd → Prop
  | .redis c | .tryRedis c => keepsWallets c
  | .usersSet _ _ | .note _ _ => False
  | _ => True

theorem sameKeys_redis (c : Redis.Cmd) (hc : keepsWallets c) : SameKeys st (st.onRedis c) where
  entry _ _ := rfl
  field key := by
    refine Redis.exec_lookup _ c st.redis ?_ ?_
    · rintro fields rfl hmem
      obtain ⟨f, hf, hw⟩ := List.mem_map.mp hmem
      exact hc f hf hw
    · rintro rfl
      exact hc
  returned := rfl

theorem sameKeys_exec {c : Cmd} (hc : c.keepsKeys) (st : St) (a : c.Ans) :
    SameKeys st (exec p c st a).2 := by
  cases c with
  | redis c => exact sameKeys_redis c hc
  | tryRedis c =>
      cases a with
      | none => exact sameKeys_redis c hc
      | some e => exact .refl st
  | usersSet h u => exact hc.elim
  | note h a => exact hc.elim
  | usersAssign h' x =>
      simp only [exec]
      refine sameKeys_onMem fun h => ?_
      simp only [Assoc.lookup_modify, entry]
      by_cases hh : h = h'
      · simp [hh, Function.comp_def]
      · simp [Ne.symm hh]
  | watch | decimalsSet | manualAdd | manualDelete | configSet | hpSet | lastIncidentSet | ready =>
      simp only [exec]
      exact sameKeys_onMem fun _ => rfl
  | _ => exact ⟨fun _ _ => rfl, fun _ => rfl, rfl⟩

/-! ## Commands -/

/-- The state after an entry was written. -/
abbrev St.setUser (st : St) (p : Pid) (h : Str) (u : User) : St :=
  st.onMem p fun m => { m with users := Assoc.set h u m.users }

theorem entry_setUser (u : User) (q : Pid) (h' : Str) :
    entry (st.setUser p h u) q h' =
      if q = p ∧ h' = h then some u.wallet.address else entry st q h' := by
  by_cases hq : q = p
  · subst hq
    simp only [entry, St.onMem_self, Assoc.lookup_set]
    by_cases hh : h' = h
    · simp [hh]
    · simp [hh, Ne.symm hh]
  · simp [entry, St.onMem_ne st hq, hq]

/-- An entry may be written if whatever speaks for its handle has its address. -/
theorem moves_setUser {u : User} (hi : (rely env).inv st)
    (hu : ∀ a, Claims env st h a → a = u.wallet.address) :
    (rely env).Moves st (st.setUser p h u) := by
  -- a new claim is on `h`, for the new address
  have hclaims : ∀ h' a, Claims env (st.setUser p h u) h' a →
      Claims env st h' a ∨ h' = h ∧ a = u.wallet.address := by
    intro h' a hc
    cases hc with
    | entry q he =>
        rw [entry_setUser] at he
        split at he
        next hq => exact .inr ⟨hq.2, (Option.some.inj he).symm⟩
        next => exact .inl (.entry q he)
    | returned hr => exact .inl (.returned hr)
    | stored kp hk ha => exact .inl (.stored kp hk ha)
  refine ⟨?_, ?_⟩
  · intro h' a b ha hb
    rcases hclaims h' a ha with ha' | ⟨rfl, rfl⟩
    · rcases hclaims h' b hb with hb' | ⟨rfl, rfl⟩
      · exact hi h' a b ha' hb'
      · exact hu a ha'
    · rcases hclaims h' b hb with hb' | ⟨-, rfl⟩
      · exact (hu b hb').symm
      · rfl
  · intro (q : Pid)
    refine ⟨?_, fun _ => rfl⟩
    intro h' a he
    rw [entry_setUser]
    split
    next hq =>
      obtain ⟨rfl, rfl⟩ := hq
      rw [hu a (.entry q he)]
    next => exact he

/-- What speaks for a handle may be returned. -/
theorem moves_note {a : String} (hi : (rely env).inv st) (ha : Claims env st h a) :
    (rely env).Moves st { st with returned := st.returned ++ [(h, a)] } := by
  have hclaims : ∀ h' b, Claims env { st with returned := st.returned ++ [(h, a)] } h' b →
      Claims env st h' b := by
    intro h' b hc
    cases hc with
    | entry q he => exact .entry q he
    | returned hr =>
        cases List.mem_append.mp hr with
        | inl hr' => exact .returned hr'
        | inr hr' =>
            cases List.mem_singleton.mp hr'
            exact ha
    | stored kp hk hb => exact .stored kp hk hb
  exact ⟨fun h' b c hb hc => hi h' b c (hclaims h' b hb) (hclaims h' c hc),
    fun q => (rely env).rel_refl q st⟩

theorem moves_keepsKeys {c : Cmd} (hc : c.keepsKeys) {a : c.Ans} {r : c.Res}
    (hi : (rely env).inv st) (hs : (guardedMachine env).step p c st a = some (r, st')) :
    (rely env).Moves st st' := by
  have hst : (exec p c st a).2 = st' := by rw [(step_guarded hs).2.2]
  exact hst ▸ (sameKeys_exec hc st a).moves hi

theorem tame_keepsKeys {c : Cmd} (hc : c.keepsKeys) : (rely env).Tame p (ask c) :=
  Rely.tame_ask fun _ _ _ _ hi hs => moves_keepsKeys hc hi hs

theorem plain_keepsKeys {c : Cmd} (hc : c.plain h) : c.keepsKeys := by
  cases c with
  | redis c | tryRedis c =>
      cases c with
      | hset key fields => exact hc.2
      | del => exact hc.elim
      | _ => trivial
  | usersSet => exact hc.elim
  | note => exact hc.elim
  | _ => trivial

theorem tame_plain {α : Type} {q : Prog α} (hq : q.Issues (Cmd.plain h)) : (rely env).Tame p q :=
  Rely.closed_tame.of_issues (fun _ hc => tame_keepsKeys (plain_keepsKeys hc)) hq

/-- A postcondition about the own entries and the stored keys outlasts a wait. -/
theorem safe_await {α : Type} {q : Prog α} {Q : α → St → Prop} (hi : (rely env).inv st)
    (hQ : ∀ a st₁ st₂, (rely env).rel p st₁ st₂ → Q a st₁ → Q a st₂)
    (hq : (rely env).Safe p q Q st) : (rely env).Safe p (await q) Q st :=
  safe_await_tick rfl (fun _ _ _ _ hi₁ hs => moves_keepsKeys (c := .tick) trivial hi₁ hs) hi hQ hq

/-! ## Programs -/

theorem safe_usersGet (hi : (rely env).inv st) :
    (rely env).Safe p (ask (.usersGet h))
      (fun u st' => u.map (fun u => u.wallet.address) = entry st' p h) st := by
  refine Rely.safe_sync rfl fun a r st' hs => ?_
  have hm := moves_keepsKeys (c := .usersGet h) trivial hi hs
  cases (step_guarded hs).2.2
  exact ⟨hm, rfl⟩

/-- `ensure` returns the wallet that the map of its process has for the handle. -/
theorem safe_ensure (hi : (rely env).inv st) :
    (rely env).Safe p (ensure env h) (fun kp st' => entry st' p h = some kp.address) st := by
  refine Rely.safe_bind hi (safe_usersGet hi) fun u st₀ hi₀ hu => ?_
  cases u with
  | some u => exact .ret hu.symm
  | none =>
      -- a new handle: nothing speaks for it, so the new key may
      refine Rely.safe_bind (P := fun _ st₁ => ∀ a, ¬ Claims env st₁ h a) hi₀ ?_ ?_
      · refine Rely.safe_sync rfl fun a r st₁ hs => ?_
        have hm := moves_keepsKeys (c := .generate (.wallet h)) trivial hi₀ hs
        obtain ⟨hg, -, hex⟩ := step_guarded hs
        cases hex
        exact ⟨hm, fun b hb => not_claims_of_unclaimed hg b
          ((sameKeys_exec (p := p) (c := .generate (.wallet h)) trivial _ a).claims hb)⟩
      intro kp st₁ hi₁ hnone
      refine Rely.safe_bind (P := fun _ st₂ => entry st₂ p h = some kp.address) hi₁ ?_ ?_
      · refine Rely.safe_sync rfl fun a r st₂ hs => ?_
        cases (step_guarded hs).2.2
        exact ⟨moves_setUser hi₁ fun b hb => (hnone b hb).elim,
          (entry_setUser _ p h).trans (if_pos ⟨rfl, rfl⟩)⟩
      intro _ st₂ hi₂ hentry
      -- the entry outlasts `persist`
      have hpersist : (rely env).Tame p (await (persist env h)) :=
        tame_plain (plain_errand (errand_await errand_persist))
      exact Rely.safe_bind hi₂ (Rely.safe_rel (hpersist st₂ hi₂)) fun _ _ _ hrel =>
        .ret (hrel.2.1 h _ hentry)

theorem tame_ensure : (rely env).Tame p (ensure env h) :=
  fun _ hi => Rely.safe_mono (safe_ensure hi) fun _ _ _ => trivial

theorem tame_walletOf : (rely env).Tame p (walletOf env h) := by
  intro st hi
  refine Rely.safe_bind hi
    (safe_await hi (fun kp _ _ hrel => hrel.1 h kp.address) (safe_ensure hi)) ?_
  intro kp st₁ hi₁ hentry
  refine Rely.safe_bind (P := fun _ _ => True) hi₁ ?_ fun _ _ _ _ => .ret trivial
  refine Rely.safe_sync rfl fun a r st₂ hs => ?_
  cases (step_guarded hs).2.2
  exact ⟨moves_note hi₁ (.entry p hentry), trivial⟩

/-- A secret that `getWalletCompat` returns is the stored one, and no legacy text comes
with it. -/
theorem safe_getWalletCompat (hi : (rely env).inv st) :
    (rely env).Safe p (getWalletCompat env h)
      (fun w st' => ∀ secret, w.secret = some secret → w.legacyStr = none ∧
        ∃ enc, walletField st' (userKey h) = some enc ∧ startsWith enc "enc:" = true ∧
          openWallet env enc = .ok secret) st := by
  refine Rely.safe_bind (P := fun enc st' => enc = walletField st' (userKey h)) hi ?_ ?_
  · refine Rely.safe_wait rfl (fun _ _ _ hrel he => he.trans (hrel.2 _).symm) ?_
    intro st₁ _ hi₁ a r st₂ hs
    have hm := moves_keepsKeys (c := .redis (.hget (userKey h) "wallet")) trivial hi₁ hs
    cases (step_guarded hs).2.2
    exact ⟨hm, rfl⟩
  intro enc st₁ hi₁ henc
  cases enc with
  | none => exact .ret fun _ h => by cases h
  | some enc =>
      dsimp only
      split
      next hmark =>
        cases hopen : openWallet env enc with
        | error e => exact .throw
        | ok secret =>
            refine .ret fun secret' hs => ?_
            cases hs
            exact ⟨rfl, enc, henc.symm, hmark, hopen⟩
      next =>
        split
        · exact .ret fun _ h => by cases h
        · exact .ret fun _ h => by cases h

/-- What a program of the boot may ask besides. -/
theorem tame_issues {α : Type} {q : Prog α} (hq : q.Issues Cmd.keepsKeys) :
    (rely env).Tame p q :=
  Rely.closed_tame.of_issues (fun _ => tame_keepsKeys) hq

theorem tame_hydrate (handle : String) : (rely env).Tame p (hydrate env handle) := by
  intro st hi
  have huser : (rely env).Tame p (await (getUser (some handle))) :=
    tame_issues (issues_await trivial (issues_getUser trivial))
  refine Rely.safe_bind hi (huser st hi) fun data st₁ hi₁ _ => ?_
  cases data with
  | none => exact .ret trivial
  | some data =>
      refine Rely.safe_bind hi₁ (safe_await hi₁ ?_ (safe_getWalletCompat (h := some handle) hi₁)) ?_
      · intro w st₂ st₃ hrel hw secret hs
        obtain ⟨hl, enc, henc, hrest⟩ := hw secret hs
        exact ⟨hl, enc, (hrel.2 _).trans henc, hrest⟩
      rintro ⟨secret, legacyStr⟩ st₂ hi₂ hw
      cases secret with
      | none => exact .ret trivial
      | some secret =>
          obtain ⟨hl, enc, henc, hmark, hopen⟩ := hw secret rfl
          cases hl
          dsimp only
          split
          next hlen =>
            cases hkp : env.keypair secret with
            | error e => exact .throw
            | ok kp =>
                have hstored : storedKey env st₂ (some handle) = some kp := by
                  simp [storedKey, henc, usableKey, hmark, hopen, hlen, hkp, Except.toOption]
                refine Rely.safe_sync rfl fun a r st₃ hs => ?_
                cases (step_guarded hs).2.2
                exact ⟨moves_setUser hi₂ fun b hb => hi₂ _ _ _ hb (.stored kp hstored rfl), trivial⟩
          next => exact .ret trivial

theorem tame_initializeUsers : (rely env).Tame p (initializeUsers env) := by
  have hT := Rely.closed_tame (R := rely env) (p := p)
  refine hT.bind (tame_issues (issues_await trivial (issues_redis trivial))) fun handles => ?_
  refine hT.bind (hT.forEach fun handle _ => tame_hydrate handle) fun _ => ?_
  exact tame_issues (issues_watchDeposits trivial (fun _ => trivial) fun _ => trivial)

/-- The object of a handle is the one in the map. -/
theorem safe_userObject (hi : (rely env).inv st) :
    (rely env).Safe p (userObject h)
      (fun u st' => entry st' p h = some u.wallet.address) st := by
  refine Rely.safe_bind hi (safe_usersGet hi) fun u st₀ hi₀ hu => ?_
  cases u with
  | some u => exact .ret hu.symm
  | none => exact .throw

theorem tame_onUpdate : (rely env).Tame p (onUpdate env h) := by
  intro st hi
  refine Rely.safe_bind hi (safe_userObject hi) fun u st₁ hi₁ hu => ?_
  refine Rely.safe_bind (P := fun _ _ => True) hi₁ ?_ fun _ st₂ hi₂ _ => ?_
  · refine Rely.safe_sync rfl fun a r st₂ hs => ?_
    cases (step_guarded hs).2.2
    exact ⟨moves_setUser hi₁ fun b hb => hi₁ _ _ _ hb (.entry p hu), trivial⟩
  · refine tame_plain (h := h)
      (Prog.issues_bind (plain_errand (errand_await errand_persist)) fun _ => ?_) st₂ hi₂
    refine Prog.issues_bind (plain_errand errand_userObject) fun u => ?_
    split
    · exact issues_await trivial (issues_ask rfl)
    · exact .ret _

/-- An account that is watched has changed. -/
theorem tame_changed (n : Notice) : (rely env).Tame p (n.body env h) := by
  have hT := Rely.closed_tame (R := rely env) (p := p)
  rw [Notice.body_eq]
  refine hT.bind (tame_plain (h := h) ?_) fun b => ?_
  · exact plain_errand (Prog.issues_bind errand_userObject fun u =>
      errand_await (errand_refreshBalances _))
  · exact hT.bind (tame_keepsKeys trivial) fun _ => hT.spawn tame_onUpdate

theorem tame_event (ev : Ev) : (rely env).Tame p (ev.body env) := by
  have hT := Rely.closed_tame (R := rely env) (p := p)
  have hplain : ∀ (h : Str) (c : Cmd), c.plain h → (rely env).Tame p (ask c) :=
    fun _ _ hc => tame_keepsKeys (plain_keepsKeys hc)
  cases ev with
  | boot =>
      exact hT.bind (closed_await hT (ask_errand (hplain none)) tame_initializeUsers) fun _ =>
        tame_keepsKeys trivial
  | call _ c => exact closed_call hT hplain (fun _ => tame_ensure) (fun _ => tame_walletOf) c
  | solChanged h => exact tame_changed .sol
  | tokenChanged h => exact tame_changed .token
  | telegram u => exact closed_update hT hplain (fun _ => tame_ensure) (fun _ => tame_walletOf) u
  | tweet handle text =>
      exact closed_message hT hplain (fun _ => tame_ensure) (fun _ => tame_walletOf)
        (tweetMessage handle text)
  | request r =>
      exact closed_request hT hplain (fun _ => tame_ensure) (fun _ => tame_walletOf)
        (fun _ => tame_keepsKeys trivial) r

/-! ## Runs -/

/-- Nothing is in memory, and no address was returned. -/
def Started (env : Env) (st : St) : Prop :=
  (∀ p, st.mem p = .fresh env st.clock) ∧ st.returned = []

theorem entry_fresh (hm : st.mem p = .fresh env st.clock) (h : Str) : entry st p h = none := by
  simp [entry, hm, Mem.fresh]

theorem inv_started (hst : Started env st) : (rely env).inv st := by
  have hclaims : ∀ h a, Claims env st h a → ∃ kp, storedKey env st h = some kp ∧ kp.address = a := by
    intro h a hc
    cases hc with
    | entry p he => simp [entry_fresh (hst.1 p)] at he
    | returned hr => simp [hst.2] at hr
    | stored kp hk ha => exact ⟨kp, hk, ha⟩
  intro h a b ha hb
  obtain ⟨kp, hk, rfl⟩ := hclaims h a ha
  obtain ⟨kp', hk', rfl⟩ := hclaims h b hb
  cases hk.symm.trans hk'
  rfl

theorem moves_enter {ev : Ev} (hi : (rely env).inv st)
    (he : (guardedMachine env).enter ev st = some st') : (rely env).Moves st st' := by
  rcases enter_cases he with rfl | rfl
  · exact (SameKeys.refl _).moves hi
  · exact (sameKeys_onMem fun _ => rfl).moves hi

theorem entry_stop (p q : Pid) (h : Str) :
    entry (st.stop env p) q h = if q = p then none else entry st q h := by
  by_cases hq : q = p
  · subst hq
    simp [entry, St.stop, Mem.fresh]
  · simp [entry, St.stop, St.onMem_ne st hq, hq]

/-- When a process stops, fewer things speak for a handle. -/
theorem inv_stop (p : Pid) (hi : (rely env).inv st) :
    (rely env).inv (st.stop env p) ∧ ∀ q, q ≠ p → (rely env).rel q st (st.stop env p) := by
  have hclaims : ∀ h a, Claims env (st.stop env p) h a → Claims env st h a := by
    intro h a hc
    cases hc with
    | entry q he =>
        rw [entry_stop] at he
        split at he
        next => cases he
        next => exact .entry q he
    | returned hr => exact .returned hr
    | stored kp hk ha => exact .stored kp hk ha
  refine ⟨fun h a b ha hb => hi h a b (hclaims h a ha) (hclaims h b hb), ?_⟩
  intro q hq
  exact ⟨fun h a he => ((entry_stop p q h).trans (if_neg hq)).trans he, fun _ => rfl⟩

end

/-- In every run in which a key is only generated for a handle that nothing speaks for,
`walletOf` returns one address for a handle, in either process and across restarts. -/
theorem walletOf_agrees (env : Env) {w : World (guardedMachine env)}
    (hw : (guardedMachine env).Reach (Started env) w) {h : Str} {a b : String}
    (ha : (h, a) ∈ w.st.returned) (hb : (h, b) ∈ w.st.returned) : a = b := by
  have hinv := Rely.reach_inv (R := rely env) (fun _ => inv_started)
    (fun ev st st' hi he => moves_enter hi he)
    (fun ev _ _ _ _ st' _ hi => tame_event ev st' hi)
    (fun p st hi => inv_stop p hi) hw
  exact hinv h a b (.returned ha) (.returned hb)

namespace Sample

/-- A call of `walletOf` in the agent. -/
def walletCall : Ev := .call .agent (.walletOf (some "alice"))

/-- The agent boots with `n` waits, and a first call waits five times. -/
def session (M : Machine sig Err) (ans : (c : Cmd) → M.Ans c) (boot call : M.Ev) (n : Nat) :
    List M.Choice :=
  serve M ans boot 0 n ++ serve M ans call 1 5

/-- Two calls in one life of the agent. -/
def twoCalls : List (guardedMachine env).Choice :=
  session _ (online alice) Ev.boot walletCall 3 ++ serve _ (online alice) walletCall 2 1

/-- A call, a restart of the agent and the same call again. -/
def restart : List (machine env).Choice :=
  session _ (online alice) Ev.boot walletCall 3 ++
    .crash Pid.agent :: session _ (online bob) Ev.boot walletCall 7

-- a fresh system may generate the first key of any handle
example : unclaimed env (St.fresh env 0) (some "alice") = true := by decide +kernel

theorem address_alice_ne_bob : alice.address ≠ bob.address := fun h =>
  absurd (PublicKey.toBase58_injective h) (by decide)

end Sample

section

open Sample

theorem walletOf_agrees_sample :
    ∃ w a b, (guardedMachine env).Reach (Started env) w ∧
      w.st.returned = [(some "alice", a), (some "alice", b)] ∧ a = b := by
  have hrun : (Machine.nexts (M := guardedMachine env) ⟨St.fresh env 0, [], []⟩ twoCalls).any
      (fun w => decide (w.st.returned =
        [(some "alice", alice.address), (some "alice", alice.address)])) = true := by
    decide +kernel
  obtain ⟨w, hreach, hw⟩ := Machine.Reach.of_run (I := Started env) ⟨fun _ => rfl, rfl⟩ hrun
  have hr := of_decide_eq_true hw
  exact ⟨w, _, _, hreach, hr, walletOf_agrees env hreach
    (hr ▸ List.mem_cons_self ..) (hr ▸ List.mem_cons_of_mem _ (List.mem_cons_self ..))⟩

/-- The agent gives out an address, stops and boots again.  The record of the user is in the
store without a key, so the boot skips it, and the same call generates another wallet. -/
theorem walletOf_twice :
    ∃ w, (machine env).Reach (Started env) w ∧ ∃ a b, (some "alice", a) ∈ w.st.returned ∧
      (some "alice", b) ∈ w.st.returned ∧ a ≠ b := by
  have hrun : (Machine.nexts (M := machine env) ⟨St.fresh env 0, [], []⟩ restart).any
      (fun w => decide (w.st.returned =
        [(some "alice", alice.address), (some "alice", bob.address)])) = true := by
    decide +kernel
  obtain ⟨w, hreach, hw⟩ := Machine.Reach.of_run (I := Started env) ⟨fun _ => rfl, rfl⟩ hrun
  refine ⟨w, hreach, alice.address, bob.address, ?_⟩
  rw [of_decide_eq_true hw]
  exact ⟨by simp, by simp, address_alice_ne_bob⟩

end

end Nexus
