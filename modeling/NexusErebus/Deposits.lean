import NexusErebus.Sample
import NexusErebus.System

/-!
# The deposit watcher

Two subscriptions tell the agent that the accounts of a user have changed, one for the SOL
account and one for the account of agent tokens.  Both refresh the balances, keep the one they
are about and call `onUpdate`, which adds a trade to the queue.

A sequence of notifications is handled here one after the other, in the memory of the agent and
with whatever balances the RPC node returns.  `notified_jobs` says when a notification adds a
trade: auto-trading is on and the known SOL balance exceeds 0.05.  Whether it has risen is not
looked at, so a withdrawal, a change of tokens only, and the trade itself are followed by another
trade.
-/

namespace Nexus

open Async Text

/-- A notification, about the SOL account or about the token account. -/
inductive Notice where
  | sol | token
  deriving DecidableEq

/-- The trade that `onUpdate` adds to the queue. -/
def autoTrade (h : Str) : TradeJob := ⟨⟨.sell, some solMint, some (2 / 100)⟩, h⟩

section

variable (env : Env) {τ : Type} (strat : (c : Cmd) → τ → c.Ans × τ) (h : Str)

/-- The handler of a notification. -/
def Notice.body : Notice → Prog Unit
  | .sol => solChanged env h
  | .token => tokenChanged env h

/-- The state after a notification has been handled. -/
def notified (s : St × τ) (n : Notice) : St × τ := ((n.body env h).run (alone .agent strat) s).2

/-- The refresh a notification starts. -/
def refresh : Prog (Number × Number) := do
  let u ← userObject h
  await (refreshBalances env u.wallet.publicKey)

/-- What the refresh returns. -/
def refreshed (s : St × τ) : Except Err (Number × Number) := ((refresh env h).run (alone .agent strat) s).1

/-- The user in the memory of the agent. -/
def knownUser (s : St × τ) : Option User := (s.1.mem .agent).users.lookup h

/-- The refreshed SOL balance is higher than the known one. -/
def rises (s : St × τ) : Bool :=
  match knownUser h s, refreshed env strat h s with
  | some u, .ok b => b.1.gt u.sol
  | _, _ => false

/-- The balance that a notification keeps. -/
def Notice.assign : Notice → Number × Number → Assign
  | .sol, b => .sol b.1
  | .token, b => .tierBal b.2

/-- The user trades by themselves and has more than 0.05 SOL. -/
def tradesAlone (u : User) : Bool := u.auto && u.sol.gt (some (5 / 100))

/-- With the balance a notification keeps, the user trades by themselves. -/
def Notice.fires (n : Notice) (s : St × τ) : Bool :=
  match knownUser h s, refreshed env strat h s with
  | some u, .ok b => tradesAlone ((n.assign b).apply u)
  | _, _ => false

end

/-! ## One notification -/

section

variable {env : Env} {τ : Type} {p : Pid} {strat : (c : Cmd) → τ → c.Ans × τ} {h : Str} {u : User}
  {st : St}

theorem userObject_run (hu : (st.mem p).users.lookup h = some u) (t : τ) :
    (userObject h).run (alone p strat) (st, t) = (.ok u, (st, (strat (.usersGet h) t).2)) := by
  refine (Prog.run_bind_ok (run_ask _ _ _)).trans ?_
  simp only [exec, hu]
  rfl

/-- The state after an assignment to a user. -/
def St.assigned (st : St) (p : Pid) (h : Str) (a : Assign) : St :=
  st.onMem p fun m => { m with users := Assoc.modify h a.apply m.users }

theorem lookup_assigned (hu : (st.mem p).users.lookup h = some u) (a : Assign) :
    ((st.assigned p h a).mem p).users.lookup h = some (a.apply u) := by
  simp [St.assigned, Assoc.lookup_modify, hu]

/-- The state after `persist`. -/
def St.persisted (st : St) (h : Str) (u : User) : St :=
  (st.onRedis (.sadd usersSetKey (redisArg h))).onRedis (.hset (userKey h) (publicFields u))

theorem persist_run (hu : (st.mem p).users.lookup h = some u) (t : τ) :
    ∃ t', (persist env h).run (alone p strat) (st, t) = (.ok (), (st.persisted h u, t')) := by
  rw [persist_eq, Prog.run_bind_ok (userObject_run hu t)]
  exact ⟨_, rfl⟩

/-- The user is written back and stored, and then the trade is added. -/
theorem onUpdate_run (hu : (st.mem p).users.lookup h = some u) (t : τ) :
    ∃ st' t', (onUpdate env h).run (alone p strat) (st, t) = (.ok (), (st', t')) ∧
      st'.jobs = st.jobs ++ if tradesAlone u then [autoTrade h] else [] := by
  let st₁ := st.onMem p fun m => { m with users := Assoc.set h u m.users }
  have hset : (ask (.usersSet h u)).run (alone p strat) (st, (strat (.usersGet h) t).2) =
      (.ok (), (st₁, _)) := rfl
  have hu₁ : (st₁.mem p).users.lookup h = some u := by simp [st₁]
  obtain ⟨t₂, hpersist⟩ : ∃ t₂, (persist env h).run (alone p strat)
      (st₁, (strat (.usersSet h u) (strat (.usersGet h) t).2).2) =
        (.ok (), (st₁.persisted h u, t₂)) := persist_run hu₁ _
  obtain ⟨t₃, hawait⟩ := run_await hpersist
  have hu₃ : ((st₁.persisted h u).mem p).users.lookup h = some u := hu₁
  rw [onUpdate, Prog.bind_eq, Prog.run_bind_ok (userObject_run hu t), Prog.bind_eq,
    Prog.run_bind_ok hset, Prog.bind_eq, Prog.run_bind_ok hawait, Prog.bind_eq,
    Prog.run_bind_ok (userObject_run hu₃ t₃)]
  change ∃ st' t', (if tradesAlone u = true then _ else _ : Prog Unit).run _ _ = _ ∧ _
  cases tradesAlone u with
  | true => exact ⟨_, _, rfl, rfl⟩
  | false => exact ⟨_, _, rfl, (List.append_nil _).symm⟩

/-- Both handlers keep one balance and leave the rest to `onUpdate`. -/
theorem Notice.body_eq (n : Notice) : n.body env h = (refresh env h).bind fun b =>
    (ask (.usersAssign h (n.assign b))).bind fun _ => .spawn (onUpdate env h) := by
  cases n with
  | sol => exact (Prog.bind_assoc' _ _ _).symm
  | token => exact (Prog.bind_assoc' _ _ _).symm

/-- A refresh changes nothing. -/
theorem refresh_run (s : St × τ) :
    ∃ t', (refresh env h).run (alone .agent strat) s = (refreshed env strat h s, (s.1, t')) := by
  have hissues : (refresh env h).Issues fun c => ∀ st a, (exec .agent c st a).2 = st := by
    refine Prog.issues_bind (issues_userObject fun _ _ => rfl) fun u => ?_
    exact issues_await (fun _ _ => rfl) (issues_refreshBalances _ (fun _ _ => rfl) fun _ _ _ => rfl)
  have hsame : ((refresh env h).run (alone .agent strat) s).2.1 = s.1 :=
    Prog.Issues.run_inv (I := fun s' : St × τ => s'.1 = s.1)
      (fun c s' hc hs => (hc _ _).trans hs) hissues rfl
  exact ⟨((refresh env h).run (alone .agent strat) s).2.2, Prod.ext rfl (Prod.ext hsame rfl)⟩

/-- Only the balances of a known user can be refreshed. -/
theorem knownUser_of_refreshed {s : St × τ} {b : Number × Number}
    (hb : refreshed env strat h s = .ok b) : ∃ u, knownUser h s = some u := by
  cases hu : knownUser h s with
  | some u => exact ⟨u, rfl⟩
  | none =>
      have herr : (userObject h).run (alone .agent strat) s =
          (.error ⟨.typeError, "Cannot read properties of undefined (reading 'sol')"⟩,
            (s.1, (strat (.usersGet h) s.2).2)) := by
        refine (Prog.run_bind_ok (run_ask _ _ _)).trans ?_
        simp only [exec, show (s.1.mem .agent).users.lookup h = none from hu]
        rfl
      rw [refreshed, refresh, Prog.bind_eq, Prog.run_bind_error herr] at hb
      cases hb

/-- A notification adds a trade if the user then trades by themselves, and nothing else. -/
theorem notified_jobs (n : Notice) (s : St × τ) : (notified env strat h s n).1.jobs =
    s.1.jobs ++ if n.fires env strat h s then [autoTrade h] else [] := by
  obtain ⟨t₁, hrefresh⟩ : ∃ t₁, (refresh env h).run (alone .agent strat) s =
      (refreshed env strat h s, (s.1, t₁)) := refresh_run s
  unfold notified Notice.fires
  rw [Notice.body_eq]
  cases hb : refreshed env strat h s with
  | error e =>
      rw [hb] at hrefresh
      rw [Prog.run_bind_error hrefresh]
      simp
  | ok b =>
      obtain ⟨u, hu⟩ := knownUser_of_refreshed hb
      rw [hb] at hrefresh
      rw [Prog.run_bind_ok hrefresh, hu]
      let st₁ := s.1.onMem .agent fun m =>
        { m with users := Assoc.modify h (n.assign b).apply m.users }
      have hassign : (ask (.usersAssign h (n.assign b))).run (alone .agent strat) (s.1, t₁) =
          (.ok (), (st₁, _)) := rfl
      have hu₁ : (st₁.mem .agent).users.lookup h = some ((n.assign b).apply u) := by
        simp only [st₁, St.onMem_self, Assoc.lookup_modify, if_true]
        exact congrArg _ hu
      obtain ⟨st', t', hrun, hjobs⟩ : ∃ st' t', (onUpdate env h).run (alone .agent strat) (st₁, _) =
          (.ok (), (st', t')) ∧ st'.jobs = _ := onUpdate_run hu₁ _
      rw [Prog.run_bind_ok hassign, Prog.spawn, Prog.run, hrun]
      exact hjobs

end

/-! ## Sequences of notifications -/

section

variable (env : Env) {τ : Type} (strat : (c : Cmd) → τ → c.Ans × τ) (h : Str)

/-- How many of the notifications come with a higher SOL balance. -/
def countRises : List Notice → St × τ → Nat
  | [], _ => 0
  | n :: ns, s => (rises env strat h s).toNat + countRises ns (notified env strat h s n)

/-- Whenever the user would trade by themselves, the notification comes with a higher SOL
balance. -/
def OnDeposits : List Notice → St × τ → Prop
  | [], _ => True
  | n :: ns, s => (n.fires env strat h s = true → rises env strat h s = true) ∧
      OnDeposits ns (notified env strat h s n)

instance OnDeposits.decidable : ∀ (ns : List Notice) (s : St × τ),
    Decidable (OnDeposits env strat h ns s)
  | [], _ => .isTrue trivial
  | n :: ns, s =>
      have := OnDeposits.decidable ns (notified env strat h s n)
      inferInstanceAs (Decidable (_ ∧ _))

end

section

variable {env : Env} {τ : Type} {strat : (c : Cmd) → τ → c.Ans × τ} {h : Str}

theorem length_jobs_notified {n : Notice} {s : St × τ}
    (hn : n.fires env strat h s = true → rises env strat h s = true) :
    (notified env strat h s n).1.jobs.length ≤ s.1.jobs.length + (rises env strat h s).toNat := by
  rw [notified_jobs, List.length_append]
  cases hf : n.fires env strat h s with
  | false => simp
  | true => simp [hn hf]

theorem length_jobs_le : ∀ {ns : List Notice} {s : St × τ}, OnDeposits env strat h ns s →
    (ns.foldl (notified env strat h) s).1.jobs.length ≤
      s.1.jobs.length + countRises env strat h ns s
  | [], _, _ => Nat.le_refl _
  | n :: ns, s, ⟨hn, hns⟩ => by
      have hstep := length_jobs_notified hn
      have ih := length_jobs_le hns
      simp only [List.foldl_cons, countRises]
      omega

theorem OnDeposits.split : ∀ (ns₁ : List Notice) {n : Notice} {ns₂ : List Notice} {s : St × τ},
    OnDeposits env strat h (ns₁ ++ n :: ns₂) s →
      (n.fires env strat h (ns₁.foldl (notified env strat h) s) = true →
        rises env strat h (ns₁.foldl (notified env strat h) s) = true)
  | [], _, _, _, hd => hd.1
  | _ :: ns₁, _, _, _, hd => OnDeposits.split ns₁ hd.2

end

/-- If every notification that makes the user trade comes with a higher SOL balance, then there
are no more trades than such notifications, and a notification without a higher balance adds
none. -/
theorem autoTrades_le_rises (env : Env) {τ : Type} (strat : (c : Cmd) → τ → c.Ans × τ) (h : Str)
    (notices : List Notice) (s : St × τ) (hd : OnDeposits env strat h notices s) :
    (notices.foldl (notified env strat h) s).1.jobs.length ≤
        s.1.jobs.length + countRises env strat h notices s ∧
      ∀ ns₁ n ns₂, notices = ns₁ ++ n :: ns₂ →
        rises env strat h (ns₁.foldl (notified env strat h) s) = false →
        ((ns₁ ++ [n]).foldl (notified env strat h) s).1.jobs =
          (ns₁.foldl (notified env strat h) s).1.jobs := by
  refine ⟨length_jobs_le hd, ?_⟩
  intro ns₁ n ns₂ hns hrise
  subst hns
  have hfires : n.fires env strat h (ns₁.foldl (notified env strat h) s) = false := by
    cases hf : n.fires env strat h (ns₁.foldl (notified env strat h) s) with
    | false => rfl
    | true => exact absurd (OnDeposits.split ns₁ hd hf) (by simp [hrise])
  rw [List.foldl_append, List.foldl_cons, List.foldl_nil, notified_jobs, hfires]
  exact List.append_nil _

namespace Sample

/-- A node that knows the lamports of an account at several times, and no tokens. -/
def node : (c : Cmd) → List Nat → c.Ans × List Nat
  | .getBalance _, lamports :: later => (.ok lamports, later)
  | .getAccountInfo _, later => (.ok none, later)
  | c, later => (offline c, later)

/-- The agent knows one user, who has 1 SOL and trades by themselves. -/
def depositor : St :=
  (St.fresh env 0).onMem .agent fun m =>
    { m with users := [(some "alice", ⟨alice, some 1, some 0, true, some "med"⟩)] }

/-- A deposit makes the user trade once, and a withdrawal of almost everything does not. -/
theorem autoTrades_alice :
    OnDeposits env node (some "alice") [.sol, .sol] (depositor, [2000000000, 10000000]) ∧
      ([Notice.sol, .sol].foldl (notified env node (some "alice"))
        (depositor, [2000000000, 10000000])).1.jobs.length ≤ 1 := by
  have hd : OnDeposits env node (some "alice") [.sol, .sol]
      (depositor, [2000000000, 10000000]) := by decide +kernel
  have hrises : countRises env node (some "alice") [.sol, .sol]
      (depositor, [2000000000, 10000000]) = 1 := by decide +kernel
  exact ⟨hd, (autoTrades_le_rises env node (some "alice") _ _ hd).1.trans_eq (by rw [hrises]; rfl)⟩

/-- A change of tokens and a withdrawal are both followed by a trade. -/
theorem autoTrades_without_deposit :
    countRises env node (some "alice") [.token, .sol] (depositor, [1000000000, 500000000]) = 0 ∧
      ([Notice.token, .sol].foldl (notified env node (some "alice"))
        (depositor, [1000000000, 500000000])).1.jobs =
          [autoTrade (some "alice"), autoTrade (some "alice")] := by
  decide +kernel

end Sample

end Nexus
