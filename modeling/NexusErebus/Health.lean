import NexusErebus.Firewall
import NexusErebus.Sample
import NexusErebus.System

/-!
# The health of the processes

Every process counts its own health.  Incidents lower it, the timer raises it, and each change is
published on `nexus.events`.  The metrics process keeps one gauge, the health in the event it
received last.

* A record call looks at the health again once its event is published.  If the timer healed the
  process meanwhile, a process whose health was zero goes on.  `popped_stays` says that this is the
  only way: while no tick comes late enough to heal, a process whose health was zero keeps it, and
  every record call in flight ends in an exit.
* The gauge shows the process that spoke last, not the one that is worst off.  `gauge_le_hp` says
  when the two are the same.

An observer notes the processes whose health was zero, those that have exited, and the events that
are still to be published.  The client of a process sends them in the order of the calls
(`publishesInOrder`), and a process that has exited does nothing until it is started again.
-/

namespace Nexus

open Async Text

/-! ## The machine -/

/-- What happens to the health of a process. -/
inductive HealthEv where
  | incident (p : Pid) (type : Incident)
  | tick (p : Pid)

namespace HealthEv

def pid : HealthEv → Pid
  | .incident p _ => p
  | .tick p => p

/-- The program of an event. -/
def body (env : Env) : HealthEv → Prog Unit
  | .incident _ type => record env type
  | .tick _ => heal env

end HealthEv

/-- All processes. -/
def Pid.all : List Pid := [.agent, .api, .worker, .metrics, .launcher]

theorem Pid.mem_all (p : Pid) : p ∈ Pid.all := by
  cases p with
  | _ => decide

/-- The health in an event of the firewall. -/
def eventHp (message : String) : Option ℚ :=
  match Json.parse message with
  | some e =>
      match e.field "event", e.field "hp" with
      | some (.str "firewall"), some (.num hp) => some hp
      | _, _ => none
  | none => none

/-- The gauge `firewall_hp` after a message. -/
def onEvent (gauge : ℚ) (message : String) : ℚ := (eventHp message).getD gauge

/-- What is noted about the processes. -/
structure Health where
  /-- The health was zero at some time since the start. -/
  popped : Pid → Bool
  exited : Pid → Bool
  /-- The values that are still to be published, oldest first. -/
  due : Pid → List ℚ
  /-- How many messages were published before the metrics process subscribed. -/
  missed : Nat

/-- Nothing has been noted. -/
def Health.none : Health := ⟨fun _ => false, fun _ => false, fun _ => [], 0⟩

section

variable (env : Env)

/-- The processes. -/
def healthProcesses : Machine sig Err :=
  processes env HealthEv.pid (HealthEv.body env) fun _ st => some st

/-- The observer of the processes. -/
def healthObserver : Observer (healthProcesses env) where
  Memo := Health
  note (p : Pid) c _ _ m :=
    match c with
    | .hpSet hp =>
        { m with
          popped := Function.update m.popped p (m.popped p || hp = 0)
          due := Function.update m.due p (m.due p ++ [hp]) }
    | .redis (.publish _ _) => { m with due := Function.update m.due p (m.due p).tail }
    | .exit => { m with exited := Function.update m.exited p true }
    | _ => m
  noteCrash (p : Pid) (st : St) m :=
    { popped := Function.update m.popped p false
      exited := Function.update m.exited p false
      due := Function.update m.due p []
      missed := if p = .metrics then st.redis.published.length else m.missed }

/-- The gauge, once all messages have been delivered. -/
def gauge (s : St × Health) : ℚ :=
  ((s.1.redis.published.drop s.2.missed).map Prod.snd).foldl onEvent 0

/-- The events of a process reach the channel in the order of the calls. -/
def publishesInOrder (p : Pid) (c : Cmd) (s : St × Health) : Bool :=
  match c with
  | .redis (.publish _ message) => eventHp message = (s.2.due p).head?
  | _ => true

/-- The runs in which every command meets a condition.  A process that has exited takes no step. -/
def healthMachine (cond : Pid → Cmd → St × Health → Bool) : Machine sig Err :=
  (healthProcesses env).monitored (healthObserver env) (fun ev s => !s.2.exited ev.pid)
    fun p c s => !s.2.exited p && publishesInOrder p c s && cond p c s

end

section

variable {env : Env} {cond : Pid → Cmd → St × Health → Bool} {p : Pid} {s s' : St × Health}

/-- What a command of a run does. -/
theorem step_health {c : Cmd} {a : c.Ans} {r : c.Res}
    (hs : (healthMachine env cond).step p c s a = some (r, s')) :
    s.2.exited p = false ∧ publishesInOrder p c s = true ∧ cond p c s = true ∧
      exec p c s.1 a = (r, s'.1) ∧ s'.2 = (healthObserver env).note p c s.1 r s.2 := by
  obtain ⟨hguard, -, hexec, hnote⟩ := step_monitored hs
  simp only [Bool.and_eq_true, Bool.not_eq_true'] at hguard
  exact ⟨hguard.1.1, hguard.1.2, hguard.2, hexec, hnote⟩

/-- The commands that leave the health and the notes alone. -/
def Cmd.readsHealth : Cmd → Bool
  | .hpGet | .now | .lastIncidentGet | .lastIncidentSet _ => true
  | _ => false

/-- The notes, the health of every process and the messages are the same. -/
def SameHealth (s s' : St × Health) : Prop :=
  s'.2 = s.2 ∧ (∀ q, (s'.1.mem q).hp = (s.1.mem q).hp) ∧
    s'.1.redis.published = s.1.redis.published

theorem step_readsHealth {c : Cmd} (hc : c.readsHealth = true) {a : c.Ans} {r : c.Res}
    (hs : (healthMachine env cond).step p c s a = some (r, s')) : SameHealth s s' := by
  obtain ⟨-, -, -, hexec, hnote⟩ := step_health hs
  have hst : s'.1 = (exec p c s.1 a).2 := by rw [hexec]
  cases c with
  | hpGet | now | lastIncidentGet => exact ⟨hnote, fun q => by rw [hst]; rfl, by rw [hst]; rfl⟩
  | lastIncidentSet t =>
      refine ⟨hnote, fun q => ?_, by rw [hst]; rfl⟩
      rw [hst]
      by_cases hq : q = p
      · subst hq
        simp [exec]
      · simp [exec, St.onMem_ne _ hq]
  | _ => cases hc

/-- The health a process reads is its own. -/
theorem step_hpGet {a r : ℚ} (hs : (healthMachine env cond).step p .hpGet s a = some (r, s')) :
    r = (s.1.mem p).hp := by
  obtain ⟨-, -, -, hexec, -⟩ := step_health hs
  exact (congrArg Prod.fst hexec).symm

/-- The clock shows the time a process reads. -/
theorem step_now {a r : Nat} (hs : (healthMachine env cond).step p .now s a = some (r, s')) :
    r = s'.1.clock := by
  obtain ⟨-, -, -, hexec, -⟩ := step_health hs
  cases congrArg Prod.fst hexec
  exact congrArg (fun x => x.2.clock) hexec

/-- A process sets its health, and owes an event about it. -/
theorem step_hpSet {hp : ℚ} {a r : Unit}
    (hs : (healthMachine env cond).step p (.hpSet hp) s a = some (r, s')) :
    s'.1 = s.1.onMem p (fun m => { m with hp := hp }) ∧
      s'.2.popped = Function.update s.2.popped p (s.2.popped p || hp = 0) ∧
      s'.2.exited = s.2.exited ∧ s'.2.due = Function.update s.2.due p (s.2.due p ++ [hp]) ∧
      s'.2.missed = s.2.missed := by
  obtain ⟨-, -, -, hexec, hnote⟩ := step_health hs
  have hst : s'.1 = (exec p (.hpSet hp) s.1 a).2 := by rw [hexec]
  rw [hnote]
  exact ⟨hst, rfl, rfl, rfl, rfl⟩

/-- A read of the health or of the last incident changes nothing. -/
theorem step_read {c : Cmd} (hc : c = .hpGet ∨ c = .lastIncidentGet) {a : c.Ans} {r : c.Res}
    (hs : (healthMachine env cond).step p c s a = some (r, s')) : s = s' := by
  obtain ⟨-, -, -, hexec, hnote⟩ := step_health hs
  rcases hc with rfl | rfl
  · exact Prod.ext (congrArg Prod.snd hexec) hnote.symm
  · exact Prod.ext (congrArg Prod.snd hexec) hnote.symm

/-! ## Invariants

What `record` and `heal` do to the health, said once.  An invariant has to survive an incident, a
heal that is due, a publish and an exit. -/

/-- An invariant of the runs under a condition. -/
structure Keeps (env : Env) (cond : Pid → Cmd → St × Health → Bool) (I : St × Health → Prop) :
    Prop where
  same : ∀ {s s'}, I s → SameHealth s s' → I s'
  hit : ∀ {p type s s'} {a r : Unit}, I s → (healthMachine env cond).step p
    (.hpSet (max 0 ((s.1.mem p).hp - env.weight type))) s a = some (r, s') → I s'
  /-- The timer has found that a heal is due. -/
  healed : ∀ {p s s'} {a r : Unit}, I s → cond p .lastIncidentGet s = true →
    env.healInterval < (s.1.clock : ℚ) - ((s.1.mem p).lastIncident : ℚ) →
    (healthMachine env cond).step p
      (.hpSet (min env.maxHp ((s.1.mem p).hp + env.healRate))) s a = some (r, s') → I s'
  publish : ∀ {p channel message s s'} {a r : Unit}, I s → (healthMachine env cond).step p
    (.redis (.publish channel message)) s a = some (r, s') → I s'
  exit : ∀ {p s s'} {a r : Unit}, I s →
    (healthMachine env cond).step p .exit s a = some (r, s') → I s'
  stop : ∀ {s}, I s → ∀ p, I (s.1.stop env p, (healthObserver env).noteCrash p s.1 s.2)

namespace Keeps

variable {I : St × Health → Prop} (hI : Keeps env cond I)

/-- The invariant, and nothing to rely on. -/
def rely (env : Env) (cond : Pid → Cmd → St × Health → Bool) (I : St × Health → Prop) :
    Rely (healthMachine env cond) :=
  ⟨I, fun _ _ _ => True, fun _ _ => trivial, fun _ _ => trivial⟩

include hI

theorem safe_exitIfPopped (hi : I s) :
    (rely env cond I).Safe p (exitIfPopped env) (fun _ _ => True) s := by
  refine .sync rfl (fun a r s₁ hs => ⟨hI.same hi (step_readsHealth rfl hs), fun _ => trivial⟩)
    fun a hp s₁ hs => ?_
  have hi₁ := hI.same hi (step_readsHealth rfl hs)
  change (rely env cond I).Safe p (if hp = 0 ∧ env.autoExit = true then ask .exit else .ret ()) _ s₁
  split
  · exact .sync rfl (fun a r s₂ hs => ⟨hI.exit hi₁ hs, fun _ => trivial⟩)
      fun _ _ _ _ => .ret trivial
  · exact .ret trivial

theorem safe_record (type : Incident) (hi : I s) :
    (rely env cond I).Safe p (record env type) (fun _ _ => True) s := by
  refine .sync rfl (fun a r s₁ hs => ⟨hI.same hi (step_readsHealth rfl hs), fun _ => trivial⟩)
    fun a before s₁ hs => ?_
  obtain rfl := step_read (.inl rfl) hs
  obtain rfl := step_hpGet hs
  refine .sync rfl (fun a r s₂ hs => ⟨hI.hit hi hs, fun _ => trivial⟩) fun a r s₂ hs => ?_
  have hi₂ := hI.hit hi hs
  refine .sync rfl (fun a r s₃ hs => ⟨hI.same hi₂ (step_readsHealth rfl hs), fun _ => trivial⟩)
    fun a now s₃ hs => ?_
  have hi₃ := hI.same hi₂ (step_readsHealth rfl hs)
  refine .sync rfl (fun a r s₄ hs => ⟨hI.same hi₃ (step_readsHealth rfl hs), fun _ => trivial⟩)
    fun a r s₄ hs => ?_
  exact .wait rfl (fun s₅ _ hi₅ a r s₆ hs => ⟨hI.publish hi₅ hs, fun _ => trivial⟩)
    fun s₅ _ hi₅ a r s₆ hs s₇ _ hi₇ => hI.safe_exitIfPopped hi₇

theorem safe_heal (hi : I s) : (rely env cond I).Safe p (heal env) (fun _ _ => True) s := by
  refine .sync rfl (fun a r s₁ hs => ⟨hI.same hi (step_readsHealth rfl hs), fun _ => trivial⟩)
    fun a now s₁ hnow => ?_
  have hi₁ := hI.same hi (step_readsHealth rfl hnow)
  refine .sync rfl (fun a r s₂ hs => ⟨hI.same hi₁ (step_readsHealth rfl hs), fun _ => trivial⟩)
    fun a lastIncident s₂ hlast => ?_
  obtain rfl := step_read (.inr rfl) hlast
  refine .sync rfl (fun a r s₃ hs => ⟨hI.same hi₁ (step_readsHealth rfl hs), fun _ => trivial⟩)
    fun a hp s₃ hget => ?_
  obtain rfl := step_read (.inl rfl) hget
  obtain rfl := step_hpGet hget
  obtain ⟨-, -, hcond, hexec, -⟩ := step_health hlast
  obtain rfl : (s₁.1.mem p).lastIncident = lastIncident := congrArg Prod.fst hexec
  change (rely env cond I).Safe p (if env.healInterval < (now : ℚ) -
    ((s₁.1.mem p).lastIncident : ℚ) ∧ (s₁.1.mem p).hp < env.maxHp then _ else .ret ()) _ s₁
  rw [step_now hnow]
  split
  next hdue =>
    refine .sync rfl (fun a r s₄ hs => ⟨hI.healed hi₁ hcond hdue.1 hs, fun _ => trivial⟩)
      fun a r s₄ hs => ?_
    exact .wait rfl (fun s₅ _ hi₅ a r s₆ hs => ⟨hI.publish hi₅ hs, fun _ => trivial⟩)
      fun _ _ _ _ _ _ _ _ _ _ => .ret trivial
  next => exact .ret trivial

/-- The invariant holds in every state of a run. -/
theorem reach {init : St × Health → Prop} (hinit : ∀ s, init s → I s)
    {w : World (healthMachine env cond)} (hw : (healthMachine env cond).Reach init w) : I w.st := by
  refine Rely.reach_inv (R := rely env cond I) hinit ?_ ?_ ?_ hw
  · intro ev s s' hi he
    obtain ⟨-, hst, hm⟩ := enter_monitored he
    have hst' : s.1 = s'.1 := Option.some.inj hst
    exact ⟨hI.same hi ⟨hm, fun q => hst' ▸ rfl, hst' ▸ rfl⟩, fun _ => trivial⟩
  · intro ev s s' _ _ s'' _ hi
    cases ev with
    | incident p type => exact hI.safe_record type hi
    | tick p => exact hI.safe_heal hi
  · exact fun p s hi => ⟨hI.stop hi p, fun _ _ => trivial⟩

end Keeps

/-! ## A popped process -/

variable (env) in
/-- The timer finds a process without health only within the interval after the last incident. -/
def ticksInTime (p : Pid) (c : Cmd) (s : St × Health) : Bool :=
  match c with
  | .lastIncidentGet =>
      (s.1.mem p).hp ≠ 0 || (s.1.clock - (s.1.mem p).lastIncident : ℚ) ≤ env.healInterval
  | _ => true

/-- A process whose health was zero has none. -/
def Popped (s : St × Health) : Prop := ∀ p, s.2.popped p = true → (s.1.mem p).hp = 0

theorem Popped.same (hi : Popped s) (h : SameHealth s s') : Popped s' := by
  intro q hq
  rw [h.2.1]
  exact hi q (h.1 ▸ hq)

/-- Health that is zero is set to zero. -/
theorem Popped.set (hi : Popped s) {hp : ℚ} (hzero : (s.1.mem p).hp = 0 → hp = 0) {a r : Unit}
    (hs : (healthMachine env cond).step p (.hpSet hp) s a = some (r, s')) : Popped s' := by
  obtain ⟨hst, hpopped, -⟩ := step_hpSet hs
  intro q hq
  rw [hpopped] at hq
  rw [hst]
  by_cases hqp : q = p
  · subst hqp
    simp only [Function.update_self, Bool.or_eq_true, decide_eq_true_eq] at hq
    rw [St.onMem_self]
    exact hq.elim (fun h => hzero (hi q h)) id
  · rw [St.onMem_ne _ hqp]
    rw [Function.update_of_ne hqp] at hq
    exact hi q hq

theorem Popped.publish (hi : Popped s) {channel message : String} {a r : Unit}
    (hs : (healthMachine env cond).step p (.redis (.publish channel message)) s a = some (r, s')) :
    Popped s' := by
  obtain ⟨-, -, -, hexec, hnote⟩ := step_health hs
  have hst : s'.1 = (exec p (.redis (.publish channel message)) s.1 a).2 := by rw [hexec]
  intro q hq
  rw [hnote] at hq
  rw [hst]
  exact hi q hq

theorem Popped.exit (hi : Popped s) {a r : Unit}
    (hs : (healthMachine env cond).step p .exit s a = some (r, s')) : Popped s' := by
  obtain ⟨-, -, -, hexec, hnote⟩ := step_health hs
  have hst : s'.1 = (exec p .exit s.1 a).2 := by rw [hexec]
  intro q hq
  rw [hnote] at hq
  rw [hst]
  exact hi q hq

/-- A process that stops is started with full health. -/
theorem Popped.stop (hi : Popped s) (p : Pid) :
    Popped (s.1.stop env p, (healthObserver env).noteCrash p s.1 s.2) := by
  intro q hq
  by_cases hqp : q = p
  · simp [healthObserver, hqp] at hq
  · rw [St.stop, St.onMem_ne _ hqp]
    exact hi q (by simpa [healthObserver, hqp] using hq)

variable (env) in
/-- The machine in which no tick comes late. -/
def inTimeMachine : Machine sig Err := healthMachine env (ticksInTime env)

theorem keeps_popped (hweight : ∀ type, 0 ≤ env.weight type) :
    Keeps env (ticksInTime env) Popped where
  same := Popped.same
  hit := by
    intro p type s s' a r hi hs
    refine hi.set (fun h0 => ?_) hs
    rw [h0]
    exact max_eq_left (by linarith [hweight type])
  healed := by
    intro p s s' a r hi htime hdue hs
    -- a tick that comes in time does not heal a popped process
    have hne : (s.1.mem p).hp ≠ 0 := by
      have htime' : (s.1.mem p).hp ≠ 0 ∨
          (s.1.clock - (s.1.mem p).lastIncident : ℚ) ≤ env.healInterval := by
        simpa [ticksInTime] using htime
      exact htime'.resolve_right (not_le.mpr hdue)
    exact hi.set (fun h0 => absurd h0 hne) hs
  publish hi hs := Popped.publish hi hs
  exit hi hs := Popped.exit hi hs
  stop := Popped.stop

/-! ### Record calls in flight -/

/-- A record call in flight has not begun, waits for its publish, has its publish behind it, or
has ended. -/
def RecordShape (env : Env) (ev : HealthEv) (q : Prog Unit) (ready : Bool) : Prop :=
  ∀ p type, ev = .incident p type →
    (ready = true ∧ (q = record env type ∨ q = exitIfPopped env)) ∨
    (ready = false ∧ ((∃ c, q = (redis c).bind fun _ => exitIfPopped env) ∨ q = .ret ()))

/-- A record call runs up to its publish. -/
theorem seg_record {type : Incident} {ans : Nat → (c : Cmd) → c.Ans}
    {g : (inTimeMachine env).Seg Unit}
    (hg : (inTimeMachine env).seg p ans (record env type) s [] = some g) :
    g.forked = [] ∧ ∃ c, g.rest = (redis c).bind fun _ => exitIfPopped env := by
  obtain ⟨before, s₁, -, hg⟩ := Machine.seg_call_sync rfl hg
  obtain ⟨_, s₂, -, hg⟩ := Machine.seg_call_sync rfl hg
  obtain ⟨now, s₃, -, hg⟩ := Machine.seg_call_sync rfl hg
  obtain ⟨_, s₄, -, hg⟩ := Machine.seg_call_sync rfl hg
  cases (Machine.seg_call_wait rfl).symm.trans hg
  exact ⟨rfl, .publish "nexus.events"
    (Json.stringify (firewallEvent type (max 0 (before - env.weight type)))), rfl⟩

theorem seg_exitIfPopped {ans : Nat → (c : Cmd) → c.Ans} {g : (inTimeMachine env).Seg Unit}
    (hg : (inTimeMachine env).seg p ans (exitIfPopped env) s [] = some g) :
    g.forked = [] ∧ g.rest = .ret () := by
  obtain ⟨hp, s₁, -, hg⟩ := Machine.seg_call_sync rfl hg
  change (inTimeMachine env).seg p ans
    (if hp = 0 ∧ env.autoExit = true then ask .exit else .ret ()) s₁ _ = some g at hg
  split at hg
  · obtain ⟨_, s₂, -, hg⟩ := Machine.seg_call_sync rfl hg
    cases hg
    exact ⟨rfl, rfl⟩
  · cases hg
    exact ⟨rfl, rfl⟩

theorem recordShape_reach {w : World (inTimeMachine env)} {init : St × Health → Prop}
    (hw : (inTimeMachine env).Reach init w) : ∀ t ∈ w.pool, RecordShape env t.ev t.prog t.ready := by
  refine Machine.Reach.pool_shape ?_ ?_ ?_ hw
  · rintro ev p type rfl
    exact .inl ⟨rfl, .inl rfl⟩
  · intro ev q ans s g hq hg
    have hshape : ∀ p type, ev = .incident p type →
        g.forked = [] ∧ ((∃ c, g.rest = (redis c).bind fun _ => exitIfPopped env) ∨
          g.rest = .ret ()) := by
      rintro p type rfl
      rcases hq p type rfl with ⟨-, rfl | rfl⟩ | ⟨hfalse, -⟩
      · exact (seg_record hg).imp id .inl
      · exact (seg_exitIfPopped hg).imp id .inr
      · cases hfalse
    refine ⟨fun p type hev => .inr ⟨rfl, (hshape p type hev).2⟩, fun f hf p type hev => ?_⟩
    rw [(hshape p type hev).1] at hf
    cases hf
  · intro ev c k r hq _ p type hev
    rcases hq p type hev with ⟨hfalse, -⟩ | ⟨-, ⟨c, hc⟩ | hret⟩
    · cases hfalse
    · cases hc
      exact .inl ⟨rfl, .inr rfl⟩
    · cases hret

/-- The last segment of a record call in a process without health. -/
theorem seg_exits (hexit : env.autoExit = true) (hp : (s.1.mem p).hp = 0)
    (hrun : s.2.exited p = false) (ans : Nat → (c : Cmd) → c.Ans) :
    ∃ s', (inTimeMachine env).seg p ans (exitIfPopped env) s [] =
      some ⟨.ret (), s', [], [.hpGet, .exit]⟩ := by
  have hget : ∀ a, (inTimeMachine env).step p .hpGet s a = some ((s.1.mem p).hp, s) := by
    intro a
    change (if (!s.2.exited p && true && true) = true then _ else none) = _
    rw [hrun]
    rfl
  let s₁ : St × Health := (s.1, { s.2 with exited := Function.update s.2.exited p true })
  have hexit' : ∀ a, (inTimeMachine env).step p .exit s a = some ((), s₁) := by
    intro a
    change (if (!s.2.exited p && true && true) = true then _ else none) = _
    rw [hrun]
    rfl
  have hif : (if (s.1.mem p).hp = 0 ∧ env.autoExit = true then ask .exit else .ret () : Prog Unit) =
      (ask .exit).bind .ret := if_pos ⟨hp, hexit⟩
  refine ⟨s₁, (Machine.seg_ask_bind rfl (hget _)).trans ?_⟩
  refine (congrArg (fun q => (inTimeMachine env).seg p ans q s [.hpGet]) hif).trans ?_
  exact Machine.seg_ask_bind rfl (hexit' _)

end

/-- While no tick comes late enough to heal, a process whose health was zero has none, and every
record call in flight that has begun ends in an exit when its publish completes. -/
theorem popped_stays (env : Env) (hexit : env.autoExit = true)
    (hweight : ∀ type, 0 ≤ env.weight type) {w : World (inTimeMachine env)}
    (hw : (inTimeMachine env).Reach (fun s => s.2 = Health.none) w) {p : Pid}
    (hp : w.st.2.popped p = true) :
    (w.st.1.mem p).hp = 0 ∧
      ∀ i type q, w.pool[i]? = some ⟨.incident p type, q, true⟩ →
        q = record env type ∨ q = exitIfPopped env ∧ (w.st.2.exited p = false →
          ∀ ans, ∃ w', Machine.next w (.resume i ans) = some w' ∧
            w'.trace = w.trace ++ [(.incident p type, .hpGet), (.incident p type, .exit)]) := by
  have hzero : (w.st.1.mem p).hp = 0 := by
    refine (keeps_popped hweight).reach (fun s hs q hq => ?_) hw p hp
    rw [hs] at hq
    cases hq
  refine ⟨hzero, fun i type q hq => ?_⟩
  rcases recordShape_reach hw _ (List.mem_of_getElem? hq) p type rfl with ⟨-, h | h⟩ | ⟨hfalse, -⟩
  · exact .inl h
  · refine .inr ⟨h, fun hrun ans => ?_⟩
    obtain ⟨s', hseg⟩ := seg_exits hexit hzero hrun ans
    obtain rfl : q = exitIfPopped env := h
    refine ⟨Machine.afterResume w i (.incident p type) ⟨.ret (), s', [], [.hpGet, .exit]⟩, ?_, rfl⟩
    simp only [Machine.next, hq]
    exact congrArg _ hseg
  · cases hfalse

namespace Sample

/-- The clock shows a time, and nothing can be reached. -/
def atTime (t : Nat) : (c : Cmd) → c.Ans
  | .now => t
  | c => offline c

/-- Two critical incidents.  The second takes the last of the health, and its publish is under
way. -/
def popAgent (M : Machine sig Err) (ev : HealthEv → M.Ev) (ans : (c : Cmd) → M.Ans c) :
    List M.Choice :=
  serve M ans (ev (.incident .agent .critical)) 0 1 ++
    serve M ans (ev (.incident .agent .critical)) 1 0

/-- The program reads the health, and ends if there is some. -/
def onlyReads : Prog Unit → Bool
  | .call .hpGet k => (k 1).ended
  | _ => false

/-- The event is a critical incident in the agent. -/
def agentCritical : HealthEv → Bool
  | .incident .agent .critical => true
  | _ => false

/-- The agent is popped, and the publish of the second incident has completed. -/
def popPublished (w : World (inTimeMachine env)) : Bool :=
  (w.st : St × Health).2.popped .agent && !(w.st : St × Health).2.exited .agent &&
    (w.pool[1]?).any fun t => agentCritical t.ev && t.ready && onlyReads t.prog

theorem of_popPublished {w : World (inTimeMachine env)} (h : popPublished w = true) :
    (w.st.2.popped .agent = true ∧ w.st.2.exited .agent = false) ∧ ∃ q,
      w.pool[1]? = some ⟨.incident .agent .critical, q, true⟩ ∧ onlyReads q = true := by
  simp only [popPublished, Bool.and_eq_true, Bool.not_eq_true', Option.any_eq_true] at h
  obtain ⟨hpopped, ⟨ev, q, ready⟩, hq, ⟨hev, hready⟩, hreads⟩ := h
  refine ⟨hpopped, q, ?_, hreads⟩
  rw [hq, show ready = true from hready]
  cases ev with
  | tick p => cases hev
  | incident p type =>
      cases p with
      | agent =>
          cases type with
          | critical => rfl
          | _ => cases hev
      | _ => cases hev

theorem popped_stays_agent :
    ∃ w w', (inTimeMachine env).Reach (fun s => s.2 = Health.none) w ∧
      (w.st.1.mem .agent).hp = 0 ∧ Machine.next w (.resume 1 fun _ => offline) = some w' ∧
      w'.trace = w.trace ++ [(.incident .agent .critical, .hpGet),
        (.incident .agent .critical, .exit)] := by
  have hrun : (Machine.nexts (M := inTimeMachine env) ⟨(St.fresh env 0, Health.none), [], []⟩
      (popAgent _ id offline ++ [.reply 1 offline])).any popPublished = true := by
    decide +kernel
  obtain ⟨w, hreach, hw⟩ := Machine.Reach.of_run
    (I := fun s : St × Health => s.2 = Health.none) rfl hrun
  obtain ⟨⟨hpopped, hrunning⟩, q, hq, hreads⟩ := of_popPublished hw
  have hweight : ∀ type, 0 ≤ env.weight type := fun type => by
    cases type with
    | _ => decide
  obtain ⟨hzero, hcalls⟩ := popped_stays env rfl hweight hreach hpopped
  rcases hcalls 1 .critical q hq with rfl | ⟨-, hexits⟩
  · cases hreads
  · obtain ⟨w', hnext, htrace⟩ := hexits hrunning fun _ => offline
    exact ⟨w, w', hreach, hzero, hnext, htrace⟩

/-- The health of the agent was zero, is not, and every call has ended. -/
def pulledThrough (w : World (healthMachine env fun _ _ _ => true)) : Bool :=
  (w.st : St × Health).2.popped .agent && !(w.st : St × Health).2.exited .agent &&
    decide (((w.st : St × Health).1.mem .agent).hp = 1) && w.pool.all fun t => t.prog.ended

/-- The timer ticks while the publish of the second incident is under way, ten minutes after it.
The process has health again and does not exit. -/
theorem popped_heals :
    ∃ w, (healthMachine env fun _ _ _ => true).Reach (fun s => s.2 = Health.none) w ∧
      w.st.2.popped .agent = true ∧ (w.st.1.mem .agent).hp = 1 ∧ w.st.2.exited .agent = false ∧
      ∀ t ∈ w.pool, t.prog.ended = true := by
  have hrun : (Machine.nexts (M := healthMachine env fun _ _ _ => true)
      ⟨(St.fresh env 0, Health.none), [], []⟩
      (popAgent _ id offline ++ serve _ (atTime 600000) (HealthEv.tick .agent) 2 0 ++
        [.reply 1 offline, .resume 1 fun _ => offline, .reply 2 offline,
          .resume 2 fun _ => offline])).any pulledThrough = true := by
    decide +kernel
  obtain ⟨w, hreach, hw⟩ := Machine.Reach.of_run
    (I := fun s : St × Health => s.2 = Health.none) rfl hrun
  simp only [pulledThrough, Bool.and_eq_true, Bool.not_eq_true', decide_eq_true_eq,
    List.all_eq_true] at hw
  exact ⟨w, hreach, hw.1.1.1, hw.1.2, hw.1.1.2, hw.2⟩

end Sample

/-! ## The gauge -/

section

variable {env : Env} {cond : Pid → Cmd → St × Health → Bool} {p : Pid} {s s' : St × Health}

/-- The health changes only in a process that is worse off than every other by what a tick heals,
and while the others owe no event. -/
def onlyWorst (env : Env) (p : Pid) (c : Cmd) (s : St × Health) : Bool :=
  match c with
  | .hpSet _ => Pid.all.all fun q => q = p || s.2.exited q ||
      (s.2.due q = [] && min env.maxHp ((s.1.mem p).hp + env.healRate) ≤ (s.1.mem q).hp)
  | _ => true

variable (env) in
/-- The machine in which only the worst process changes. -/
def worstMachine : Machine sig Err := healthMachine env (onlyWorst env)

variable (env) in
/-- What holds between the gauge, the events that are due and the health. -/
structure Gauged (s : St × Health) : Prop where
  hp : ∀ q, 0 ≤ (s.1.mem q).hp ∧ (s.1.mem q).hp ≤ env.maxHp
  missed : s.2.missed ≤ s.1.redis.published.length
  gauge : gauge s ≤ env.maxHp
  due : ∀ q, ∀ x ∈ s.2.due q, x ≤ env.maxHp
  /-- A process that owes no event is as well off as the gauge shows. -/
  quiet : ∀ q, s.2.exited q = false → s.2.due q = [] → Nexus.gauge s ≤ (s.1.mem q).hp
  /-- The last event a process owes has its health. -/
  last : ∀ q, s.2.exited q = false → s.2.due q ≠ [] → (s.2.due q).getLast? = some (s.1.mem q).hp
  /-- Only one process owes events, -/
  one : ∀ q q', q ≠ q' → s.2.exited q = false → s.2.exited q' = false → s.2.due q ≠ [] →
    s.2.due q' = []
  /-- and none of them shows more than the others have. -/
  below : ∀ q q', q ≠ q' → s.2.exited q = false → s.2.exited q' = false → ∀ x ∈ s.2.due q,
    x ≤ (s.1.mem q').hp

theorem Gauged.same (hi : Gauged env s) (h : SameHealth s s') : Gauged env s' := by
  obtain ⟨hm, hhp, hpub⟩ := h
  have hgauge : Nexus.gauge s' = Nexus.gauge s := by rw [Nexus.gauge, Nexus.gauge, hm, hpub]
  constructor
  · simpa only [hhp] using hi.hp
  · simpa only [hm, hpub] using hi.missed
  · simpa only [hgauge] using hi.gauge
  · simpa only [hm] using hi.due
  · simpa only [hm, hhp, hgauge] using hi.quiet
  · simpa only [hm, hhp] using hi.last
  · simpa only [hm] using hi.one
  · simpa only [hm, hhp] using hi.below

theorem onlyWorst_iff {hp : ℚ} : onlyWorst env p (.hpSet hp) s = true ↔
    ∀ q, q ≠ p → s.2.exited q = false → s.2.due q = [] ∧
      min env.maxHp ((s.1.mem p).hp + env.healRate) ≤ (s.1.mem q).hp := by
  simp only [onlyWorst, List.all_eq_true, Pid.mem_all, true_imp_iff, Bool.or_eq_true,
    Bool.and_eq_true, decide_eq_true_eq]
  refine forall_congr' fun q => ?_
  cases s.2.exited q with
  | true => simp
  | false => simp [or_iff_not_imp_left]

/-- The worst process changes, and stays the worst. -/
theorem Gauged.set (hi : Gauged env s) {hp : ℚ} (h0 : 0 ≤ hp)
    (hle : hp ≤ min env.maxHp ((s.1.mem p).hp + env.healRate)) {a r : Unit}
    (hs : (worstMachine env).step p (.hpSet hp) s a = some (r, s')) : Gauged env s' := by
  obtain ⟨hrun, -, hworst, -, -⟩ := step_health hs
  obtain ⟨hst, -, hexited, hdue, hmissed⟩ := step_hpSet hs
  have hothers := onlyWorst_iff.mp hworst
  have hpub : s'.1.redis.published = s.1.redis.published := by rw [hst]; rfl
  have hgauge : Nexus.gauge s' = Nexus.gauge s := by rw [Nexus.gauge, Nexus.gauge, hmissed, hpub]
  have hself : (s'.1.mem p).hp = hp ∧ s'.2.due p = s.2.due p ++ [hp] := by
    rw [hst, hdue, St.onMem_self, Function.update_self]
    exact ⟨rfl, rfl⟩
  have hne : ∀ q, q ≠ p → (s'.1.mem q).hp = (s.1.mem q).hp ∧ s'.2.due q = s.2.due q := by
    intro q hq
    rw [hst, hdue, St.onMem_ne _ hq, Function.update_of_ne hq]
    exact ⟨rfl, rfl⟩
  constructor
  · intro q
    by_cases hq : q = p
    · rw [hq, hself.1]
      exact ⟨h0, hle.trans (min_le_left _ _)⟩
    · rw [(hne q hq).1]
      exact hi.hp q
  · rw [hmissed, hpub]
    exact hi.missed
  · rw [hgauge]
    exact hi.gauge
  · intro q x hx
    by_cases hq : q = p
    · rw [hq, hself.2] at hx
      rcases List.mem_append.mp hx with hx | hx
      · exact hi.due p x hx
      · rw [List.mem_singleton.mp hx]
        exact hle.trans (min_le_left _ _)
    · rw [(hne q hq).2] at hx
      exact hi.due q x hx
  · intro q hq hnil
    by_cases hqp : q = p
    · rw [hqp, hself.2] at hnil
      simp at hnil
    · rw [hgauge, (hne q hqp).1]
      exact hi.quiet q (hexited ▸ hq) ((hne q hqp).2 ▸ hnil)
  · intro q hq hnil
    by_cases hqp : q = p
    · rw [hqp, hself.1, hself.2, List.getLast?_append_of_ne_nil _ (by simp)]
      rfl
    · rw [(hne q hqp).1, (hne q hqp).2]
      exact hi.last q (hexited ▸ hq) ((hne q hqp).2 ▸ hnil)
  · intro q q' hqq hq hq' hnil
    rw [hexited] at hq hq'
    by_cases hq'p : q' = p
    · have hqp : q ≠ p := fun h => hqq (h.trans hq'p.symm)
      exact absurd ((hne q hqp).2.trans (hothers q hqp hq).1) hnil
    · rw [(hne q' hq'p).2]
      exact (hothers q' hq'p hq').1
  · intro q q' hqq hq hq' x hx
    rw [hexited] at hq hq'
    by_cases hqp : q = p
    · have hq'p : q' ≠ p := fun h => hqq (hqp.trans h.symm)
      rw [(hne q' hq'p).1]
      rw [hqp, hself.2] at hx
      rcases List.mem_append.mp hx with hx | hx
      · exact hi.below p q' hq'p.symm hrun hq' x hx
      · rw [List.mem_singleton.mp hx]
        exact hle.trans (hothers q' hq'p hq').2
    · rw [(hne q hqp).2, (hothers q hqp hq).1] at hx
      cases hx

/-- The oldest event that is due is published, and the gauge shows it. -/
theorem Gauged.publish (hi : Gauged env s) {channel message : String} {a r : Unit}
    (hs : (worstMachine env).step p (.redis (.publish channel message)) s a = some (r, s')) :
    Gauged env s' := by
  obtain ⟨hrun, horder, -, hexec, hnote⟩ := step_health hs
  have hst : s'.1 = s.1.onRedis (.publish channel message) := (congrArg Prod.snd hexec).symm
  have hhead : eventHp message = (s.2.due p).head? := by simpa [publishesInOrder] using horder
  have hm : s'.2 = { s.2 with due := Function.update s.2.due p (s.2.due p).tail } := hnote
  have hhp : ∀ q, (s'.1.mem q).hp = (s.1.mem q).hp := fun q => by rw [hst]; rfl
  have hself : s'.2.due p = (s.2.due p).tail := by rw [hm]; exact Function.update_self _ _ _
  have hne : ∀ q, q ≠ p → s'.2.due q = s.2.due q := fun q hq => by
    rw [hm]
    exact Function.update_of_ne hq _ _
  have hexited : s'.2.exited = s.2.exited := by rw [hm]
  have hsub : ∀ q, ∀ x ∈ s'.2.due q, x ∈ s.2.due q := by
    intro q x hx
    by_cases hq : q = p
    · rw [hq, hself] at hx
      exact hq ▸ List.mem_of_mem_tail hx
    · exact hne q hq ▸ hx
  have hgauge : Nexus.gauge s' = ((s.2.due p).head?).getD (Nexus.gauge s) := by
    have hpub : s'.1.redis.published = s.1.redis.published ++ [(channel, message)] := by
      rw [hst]
      rfl
    have hmissed : s'.2.missed = s.2.missed := by rw [hm]
    rw [Nexus.gauge, hpub, hmissed, List.drop_append_of_le_length hi.missed, List.map_append,
      List.foldl_append, ← hhead]
    rfl
  constructor
  · simpa only [hhp] using hi.hp
  · rw [hst, hm]
    exact hi.missed.trans (by simp [St.onRedis, Redis.exec])
  · rw [hgauge]
    cases hdue : s.2.due p with
    | nil => exact hi.gauge
    | cons x xs => exact hi.due p x (by simp [hdue])
  · exact fun q x hx => hi.due q x (hsub q x hx)
  · intro q hq hnil
    rw [hexited] at hq
    rw [hgauge, hhp]
    cases hdue : s.2.due p with
    | nil =>
        refine hi.quiet q hq ?_
        by_cases hqp : q = p
        · exact hqp ▸ hdue
        · exact hne q hqp ▸ hnil
    | cons x xs =>
        by_cases hqp : q = p
        · -- the event was the last one, so it has the health of the process
          rw [hqp, hself, hdue] at hnil
          have hlast := hi.last p hrun (by simp [hdue])
          rw [hdue, show xs = [] from hnil] at hlast
          rw [hqp]
          exact (Option.some.inj hlast).le
        · exact hi.below p q (Ne.symm hqp) hrun hq x (by simp [hdue])
  · intro q hq hnil
    rw [hexited] at hq
    rw [hhp]
    by_cases hqp : q = p
    · rw [hqp, hself] at hnil ⊢
      cases hdue : s.2.due p with
      | nil => simp [hdue] at hnil
      | cons x xs =>
          have hlast := hi.last p hrun (by simp [hdue])
          rw [hdue] at hnil hlast
          rw [List.tail_cons] at hnil ⊢
          rwa [List.getLast?_cons_of_ne_nil hnil] at hlast
    · rw [hne q hqp] at hnil ⊢
      exact hi.last q hq hnil
  · intro q q' hqq hq hq' hnil
    rw [hexited] at hq hq'
    have hold : s.2.due q' = [] := by
      refine hi.one q q' hqq hq hq' fun h => hnil ?_
      exact List.eq_nil_iff_forall_not_mem.mpr fun x hx => by simpa [h] using hsub q x hx
    exact List.eq_nil_iff_forall_not_mem.mpr fun x hx => by simpa [hold] using hsub q' x hx
  · intro q q' hqq hq hq' x hx
    rw [hexited] at hq hq'
    rw [hhp]
    exact hi.below q q' hqq hq hq' x (hsub q x hx)

/-- A process that has exited is not looked at. -/
theorem Gauged.exit (hi : Gauged env s) {a r : Unit}
    (hs : (worstMachine env).step p .exit s a = some (r, s')) : Gauged env s' := by
  obtain ⟨-, -, -, hexec, hnote⟩ := step_health hs
  have hst : s'.1 = s.1 := (congrArg Prod.snd hexec).symm
  have hm : s'.2 = { s.2 with exited := Function.update s.2.exited p true } := hnote
  have hexited : ∀ q, s'.2.exited q = false → s.2.exited q = false := by
    intro q hq
    rw [hm] at hq
    by_cases hqp : q = p
    · simp [hqp] at hq
    · simpa [hqp] using hq
  have hgauge : Nexus.gauge s' = Nexus.gauge s := by rw [Nexus.gauge, Nexus.gauge, hst, hm]
  have hdue : s'.2.due = s.2.due := by rw [hm]
  constructor
  · rw [hst]
    exact hi.hp
  · rw [hst, hm]
    exact hi.missed
  · rw [hgauge]
    exact hi.gauge
  · rw [hdue]
    exact hi.due
  · rw [hst, hdue, hgauge]
    exact fun q hq => hi.quiet q (hexited q hq)
  · rw [hst, hdue]
    exact fun q hq => hi.last q (hexited q hq)
  · rw [hdue]
    exact fun q q' hqq hq hq' => hi.one q q' hqq (hexited q hq) (hexited q' hq')
  · rw [hst, hdue]
    exact fun q q' hqq hq hq' => hi.below q q' hqq (hexited q hq) (hexited q' hq')

/-- A process is started again with full health, and owes nothing. -/
theorem Gauged.stop (hmax : 0 ≤ env.maxHp) (hi : Gauged env s) (p : Pid) :
    Gauged env (s.1.stop env p, (healthObserver env).noteCrash p s.1 s.2) := by
  let s' : St × Health := (s.1.stop env p, (healthObserver env).noteCrash p s.1 s.2)
  change Gauged env s'
  have hself : (s'.1.mem p).hp = env.maxHp ∧ s'.2.due p = [] := by
    simp [s', healthObserver, St.stop, Mem.fresh]
  have hne : ∀ q, q ≠ p → (s'.1.mem q).hp = (s.1.mem q).hp ∧ s'.2.due q = s.2.due q ∧
      s'.2.exited q = s.2.exited q := by
    intro q hq
    simp [s', healthObserver, St.stop, St.onMem_ne _ hq, hq]
  have hmissed : s'.2.missed = if p = .metrics then s.1.redis.published.length else s.2.missed := rfl
  have hgauge : Nexus.gauge s' = if p = .metrics then 0 else Nexus.gauge s := by
    rw [Nexus.gauge, hmissed]
    split
    · simp [s', St.stop, St.onMem]
    · rfl
  have hgauge_le : ∀ x, 0 ≤ x → Nexus.gauge s ≤ x → Nexus.gauge s' ≤ x := by
    intro x h0 hx
    rw [hgauge]
    split
    · exact h0
    · exact hx
  constructor
  · intro q
    by_cases hq : q = p
    · rw [hq, hself.1]
      exact ⟨hmax, le_rfl⟩
    · rw [(hne q hq).1]
      exact hi.hp q
  · rw [hmissed]
    split
    · exact le_rfl
    · exact hi.missed
  · exact hgauge_le _ hmax hi.gauge
  · intro q x hx
    by_cases hq : q = p
    · rw [hq, hself.2] at hx
      cases hx
    · exact hi.due q x ((hne q hq).2.1 ▸ hx)
  · intro q hq hnil
    by_cases hqp : q = p
    · rw [hqp, hself.1]
      exact hgauge_le _ hmax hi.gauge
    · obtain ⟨hhp, hdue, hexited⟩ := hne q hqp
      rw [hhp]
      exact hgauge_le _ (hi.hp q).1 (hi.quiet q (hexited ▸ hq) (hdue ▸ hnil))
  · intro q hq hnil
    by_cases hqp : q = p
    · exact absurd (hqp ▸ hself.2) hnil
    · obtain ⟨hhp, hdue, hexited⟩ := hne q hqp
      rw [hhp, hdue]
      exact hi.last q (hexited ▸ hq) (hdue ▸ hnil)
  · intro q q' hqq hq hq' hnil
    by_cases hq'p : q' = p
    · exact hq'p ▸ hself.2
    · by_cases hqp : q = p
      · exact absurd (hqp ▸ hself.2) hnil
      · obtain ⟨-, hdue, hexited⟩ := hne q hqp
        obtain ⟨-, hdue', hexited'⟩ := hne q' hq'p
        rw [hdue']
        exact hi.one q q' hqq (hexited ▸ hq) (hexited' ▸ hq') (hdue ▸ hnil)
  · intro q q' hqq hq hq' x hx
    by_cases hqp : q = p
    · rw [hqp, hself.2] at hx
      cases hx
    · obtain ⟨-, hdue, hexited⟩ := hne q hqp
      rw [hdue] at hx
      by_cases hq'p : q' = p
      · rw [hq'p, hself.1]
        exact hi.due q x hx
      · obtain ⟨hhp', -, hexited'⟩ := hne q' hq'p
        rw [hhp']
        exact hi.below q q' hqq (hexited ▸ hq) (hexited' ▸ hq') x hx

theorem keeps_gauged (hmax : 0 ≤ env.maxHp) (hweight : ∀ type, 0 ≤ env.weight type)
    (hrate : 0 ≤ env.healRate) : Keeps env (onlyWorst env) (Gauged env) where
  same := Gauged.same
  hit := by
    intro p type s s' a r hi hs
    obtain ⟨h0, hle⟩ := hi.hp p
    have hw := hweight type
    refine hi.set (le_max_left _ _) ?_ hs
    exact max_le (le_min hmax (by linarith)) (le_min (by linarith) (by linarith))
  healed := by
    intro p s s' a r hi _ _ hs
    obtain ⟨h0, -⟩ := hi.hp p
    exact hi.set (le_min hmax (by linarith)) le_rfl hs
  publish hi hs := Gauged.publish hi hs
  exit hi hs := Gauged.exit hi hs
  stop := Gauged.stop hmax

end

/-- If the health changes only in the process that is worse off than the others by what a tick
heals, while these owe no event, then no running process is worse off than the gauge shows once all
events are published and delivered. -/
theorem gauge_le_hp (env : Env) (hmax : 0 ≤ env.maxHp) (hweight : ∀ type, 0 ≤ env.weight type)
    (hrate : 0 ≤ env.healRate) {w : World (worstMachine env)}
    (hw : (worstMachine env).Reach (fun s => ∃ now, s = (St.fresh env now, Health.none)) w)
    {p : Pid} (hrun : w.st.2.exited p = false) (hdue : w.st.2.due p = []) :
    gauge w.st ≤ (w.st.1.mem p).hp := by
  have hi : Gauged env w.st := by
    refine (keeps_gauged hmax hweight hrate).reach ?_ hw
    rintro s ⟨now, rfl⟩
    constructor
    · exact fun q => ⟨hmax, le_rfl⟩
    · exact Nat.zero_le _
    · exact hmax
    · exact fun q x hx => by cases hx
    · exact fun q _ _ => hmax
    · exact fun q _ h => absurd rfl h
    · exact fun q q' _ _ _ _ => rfl
    · exact fun q q' _ _ _ x hx => by cases hx
  exact hi.quiet p hrun hdue

namespace Sample

/-- The process runs, owes no event and has this health, and the gauge shows that. -/
def shows (p : Pid) (hp shown : ℚ) (s : St × Health) : Bool :=
  !s.2.exited p && decide (s.2.due p = []) && decide ((s.1.mem p).hp = hp) &&
    decide (gauge s = shown)

theorem gauge_le_hp_agent :
    ∃ w, (worstMachine env).Reach (fun s => ∃ now, s = (St.fresh env now, Health.none)) w ∧
      gauge w.st = 10 ∧ gauge w.st ≤ (w.st.1.mem .agent).hp := by
  have hrun : (Machine.nexts (M := worstMachine env) ⟨(St.fresh env 0, Health.none), [], []⟩
      (serve _ offline (HealthEv.incident .agent .critical) 0 1)).any
      (fun w => shows .agent 10 10 w.st) = true := by
    decide +kernel
  obtain ⟨w, hreach, hw⟩ := Machine.Reach.of_run
    (I := fun s : St × Health => ∃ now, s = (St.fresh env now, Health.none)) ⟨0, rfl⟩ hrun
  simp only [shows, Bool.and_eq_true, Bool.not_eq_true', decide_eq_true_eq] at hw
  have hweight : ∀ type, 0 ≤ env.weight type := fun type => by
    cases type with
    | _ => decide
  exact ⟨w, hreach, hw.2, gauge_le_hp env (by decide) hweight (by decide) hreach hw.1.1.1 hw.1.1.2⟩

/-- The agent has a critical incident, and then the worker a small one.  The gauge shows the health
of the worker. -/
theorem gauge_hides_agent :
    ∃ w, (healthMachine env fun _ _ _ => true).Reach
        (fun s => ∃ now, s = (St.fresh env now, Health.none)) w ∧
      (∀ p, w.st.2.exited p = false ∧ w.st.2.due p = []) ∧ (w.st.1.mem .agent).hp = 10 ∧
      gauge w.st = 19 := by
  have hrun : (Machine.nexts (M := healthMachine env fun _ _ _ => true)
      ⟨(St.fresh env 0, Health.none), [], []⟩
      (serve _ offline (HealthEv.incident .agent .critical) 0 1 ++
        serve _ offline (HealthEv.incident .worker .spam) 1 1)).any
      (fun w => shows .agent 10 19 w.st && Pid.all.all fun p =>
        !(w.st : St × Health).2.exited p && decide ((w.st : St × Health).2.due p = [])) = true := by
    decide +kernel
  obtain ⟨w, hreach, hw⟩ := Machine.Reach.of_run
    (I := fun s : St × Health => ∃ now, s = (St.fresh env now, Health.none)) ⟨0, rfl⟩ hrun
  simp only [shows, Bool.and_eq_true, Bool.not_eq_true', decide_eq_true_eq, List.all_eq_true] at hw
  exact ⟨w, hreach, fun p => hw.2 p (Pid.mem_all p), hw.1.1.2, hw.1.2⟩

end Sample

end Nexus
