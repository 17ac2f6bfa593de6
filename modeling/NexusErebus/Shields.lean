import NexusErebus.Async.Issued
import NexusErebus.Health
import Mathlib.Data.Rat.Floor
import Mathlib.Tactic.Linarith

/-!
# The health bar

`record` and the timer draw a bar of the health before they publish it.  Drawing repeats a character
as often as the health says, and repeating it a negative number of times throws.  So the bar
depends on the health being in range.

The programs here are those of `Firewall` with the bar in them.  While the health is in range they
do the same (`seg_drawnRecord_eq`, `seg_drawnHeal_eq`).

What an event does to a firewall is a function of what the firewall knows, its health and the time
of the last incident (`Shield.hit`, `Shield.healed`).  `seg_drawnRecord` and `seg_drawnHeal` say
that a segment carries out one such function, and publishes the health it has set before it first
waits.  The client sends what it is given in that order, so the log of a run is what reaches the
channel.  `ShieldEffect` is what a step does, and `firewall_health` is what follows for every run.
-/

namespace Nexus

open Async Text

/-! ## The bar -/

/-- `c.repeat(n)`, for a character. -/
def repeatChar (c : Char) (n : ℚ) : Except Err String :=
  if n ≤ -1 then .error ⟨.rangeError, "Invalid count value: " ++ Number.textOf n⟩
  else .ok (String.ofList (List.replicate n.floor.toNat c))

/-- `Math.round(x)`. -/
def mathRound (x : ℚ) : ℚ := (x + 1 / 2).floor

section

variable (env : Env)

def bar (hp : ℚ) : Except Err String :=
  match repeatChar '█' (mathRound (hp / env.maxHp * env.barLen)) with
  | .error e => .error e
  | .ok filled =>
      match repeatChar ' ' (env.barLen - filled.length) with
      | .error e => .error e
      | .ok empty =>
          .ok ("[" ++ (filled ++ empty) ++ "] " ++ Number.textOf hp ++ "/" ++
            Number.textOf env.maxHp)

/-- The numbers of the configuration are positive, and the length of the bar is a whole one. -/
structure Positive : Prop where
  maxHp : 0 < env.maxHp
  weight : ∀ type, 0 < env.weight type
  healRate : 0 < env.healRate
  healInterval : 0 < env.healInterval
  barLen : ∃ n : ℕ, 0 < n ∧ env.barLen = n

/-- The bar is drawn, and its part between the brackets has the length it should have. -/
def Drawn (hp : ℚ) : Prop :=
  ∃ part : String, bar env hp = .ok ("[" ++ part ++ "] " ++ Number.textOf hp ++ "/" ++
    Number.textOf env.maxHp) ∧ (part.length : ℚ) = env.barLen

end

theorem repeatChar_natCast (c : Char) (n : ℕ) :
    repeatChar c n = .ok (String.ofList (List.replicate n c)) := by
  have hn : ¬ (n : ℚ) ≤ -1 := by
    have := Nat.cast_nonneg (α := ℚ) n
    linarith
  rw [repeatChar, if_neg hn, Number.floor_natCast]
  rfl

/-- A number from zero to a whole one is rounded to a whole one in the same range. -/
theorem mathRound_natCast {x : ℚ} {n : ℕ} (h₀ : 0 ≤ x) (hn : x ≤ n) :
    ∃ k : ℕ, k ≤ n ∧ mathRound x = k := by
  have hfloor₀ : 0 ≤ ⌊x + 1 / 2⌋ := Int.floor_nonneg.mpr (by linarith)
  have hfloor : ⌊x + 1 / 2⌋ ≤ n := by
    have hlt : ⌊x + 1 / 2⌋ < (n : ℤ) + 1 := Int.floor_lt.mpr (by push_cast; linarith)
    omega
  obtain ⟨k, hk⟩ := Int.eq_ofNat_of_zero_le hfloor₀
  refine ⟨k, by omega, ?_⟩
  exact congrArg (Int.cast : ℤ → ℚ) hk

/-- Health in range can be drawn. -/
theorem drawn_of_range {env : Env} (hpos : Positive env) {hp : ℚ} (h₀ : 0 ≤ hp)
    (hmax : hp ≤ env.maxHp) : Drawn env hp := by
  obtain ⟨n, -, hn⟩ := hpos.barLen
  have hmaxHp := hpos.maxHp
  have hratio : hp / env.maxHp ≤ 1 := (div_le_one hmaxHp).mpr hmax
  have hlow : 0 ≤ hp / env.maxHp * n := by positivity
  have hhigh : hp / env.maxHp * n ≤ n := mul_le_of_le_one_left (Nat.cast_nonneg n) hratio
  obtain ⟨k, hk, hround⟩ := mathRound_natCast hlow hhigh
  have hrest : (n : ℚ) - (String.ofList (List.replicate k '█')).length = ((n - k : ℕ) : ℚ) := by
    rw [String.length_ofList, List.length_replicate, Nat.cast_sub hk]
  refine ⟨String.ofList (List.replicate k '█') ++ String.ofList (List.replicate (n - k) ' '),
    ?_, ?_⟩
  · simp only [bar, hn, hround, repeatChar_natCast, hrest]
  · rw [hn]
    simp [hk]

/-! ## The programs -/

section

variable (env : Env)

/-- The end of `record`, once the health is set to a value. -/
def reportHit (type : Incident) (hp : ℚ) : Prog Unit := do
  let _ ← Prog.ofExcept (bar env hp)
  redis (.publish "nexus.events" (Json.stringify (firewallEvent type hp)))
  exitIfPopped env

/-- The function `record`, with the bar. -/
def drawnRecord (type : Incident) : Prog Unit := do
  let before : ℚ ← ask .hpGet
  let hp := max 0 (before - env.weight type)
  ask (.hpSet hp)
  let now : Nat ← ask .now
  ask (.lastIncidentSet now)
  reportHit env type hp

/-- The end of a tick that gives health back. -/
def reportHeal (hp : ℚ) : Prog Unit := do
  let _ ← Prog.ofExcept (bar env hp)
  redis (.publish "nexus.events" (Json.stringify (healEvent hp)))

/-- A tick of the interval, with the bar. -/
def drawnHeal : Prog Unit := do
  let now : Nat ← ask .now
  let lastIncident : Nat ← ask .lastIncidentGet
  let hp : ℚ ← ask .hpGet
  if env.healInterval < now - lastIncident ∧ hp < env.maxHp then do
    let hp := min env.maxHp (hp + env.healRate)
    ask (.hpSet hp)
    reportHeal env hp
  else return ()

/-- The program of an event, with the bar. -/
def HealthEv.drawn : HealthEv → Prog Unit
  | .incident _ type => drawnRecord env type
  | .tick _ => drawnHeal env

/-- The processes. -/
def shieldProcesses : Machine sig Err :=
  processes env HealthEv.pid (HealthEv.drawn env) fun _ st => some st

end

/-! ## What a firewall knows -/

/-- The two variables of the module. -/
@[ext] structure Shield where
  hp : ℚ
  lastIncident : Nat

def Mem.shield (m : Mem) : Shield := ⟨m.hp, m.lastIncident⟩

/-- The firewall of every process. -/
def St.shield (st : St) (p : Pid) : Shield := (st.mem p).shield

theorem shield_onMem (st : St) (p : Pid) (f : Mem → Mem) :
    (st.onMem p f).shield = Function.update st.shield p (f (st.mem p)).shield := by
  funext q
  by_cases hq : q = p
  · subst hq
    rw [Function.update_self, St.shield, St.onMem_self]
  · rw [Function.update_of_ne hq, St.shield, St.onMem_ne _ hq]
    rfl

namespace Shield

section

variable (env : Env)

/-- An incident at a time. -/
def hit (s : Shield) (type : Incident) (now : Nat) : Shield :=
  ⟨max 0 (s.hp - env.weight type), now⟩

/-- The timer finds that health is to be given back. -/
def Due (s : Shield) (now : Nat) : Prop :=
  env.healInterval < (now : ℚ) - s.lastIncident ∧ s.hp < env.maxHp

instance (s : Shield) (now : Nat) : Decidable (s.Due env now) :=
  inferInstanceAs (Decidable (_ ∧ _))

def healed (s : Shield) : Shield := { s with hp := min env.maxHp (s.hp + env.healRate) }

def InRange (s : Shield) : Prop := 0 ≤ s.hp ∧ s.hp ≤ env.maxHp

end

variable {env : Env} (hpos : Positive env) {s : Shield} (hs : s.InRange env)

include hpos hs

theorem InRange.hit (type : Incident) (now : Nat) : (s.hit env type now).InRange env := by
  have hweight := hpos.weight type
  exact ⟨le_max_left .., max_le hpos.maxHp.le (by linarith [hs.2])⟩

theorem InRange.healed : (s.healed env).InRange env := by
  have hrate := hpos.healRate
  exact ⟨le_min hpos.maxHp.le (by linarith [hs.1]), min_le_left ..⟩

/-- An incident takes no health back. -/
theorem hit_le (type : Incident) (now : Nat) : (s.hit env type now).hp ≤ s.hp := by
  have hweight := hpos.weight type
  exact max_le hs.1 (by linarith)

end Shield

/-! ## Segments -/

/-- What the health that an event has set is published as. -/
def HealthEv.message (hp : ℚ) : HealthEv → String
  | .incident _ type => Json.stringify (firewallEvent type hp)
  | .tick _ => Json.stringify (healEvent hp)

section

variable (env : Env)

/-- What comes after the publication. -/
def HealthEv.after : HealthEv → Prog Unit
  | .incident _ _ => exitIfPopped env
  | .tick _ => .ret ()

/-- The publication of a health, and what comes after it. -/
def HealthEv.publication (ev : HealthEv) (hp : ℚ) : Prog Unit :=
  .call (.redis (.publish "nexus.events" (ev.message hp))) fun _ => ev.after env

end

section

variable {env : Env} {p : Pid} {ans : Nat → (c : Cmd) → c.Ans} {st : St} {out : List Cmd}
  {s : (shieldProcesses env).Seg Unit}

theorem step_shield {c : Cmd} {a : c.Ans} {r : c.Res} {st' : St}
    (hs : (shieldProcesses env).step p c st a = some (r, st')) : exec p c st a = (r, st') :=
  Option.some.inj (Option.ite_none_right_eq_some.mp hs).2

theorem read_hp {a r : ℚ} {st' : St}
    (hs : (shieldProcesses env).step p .hpGet st a = some (r, st')) :
    r = (st.shield p).hp ∧ st = st' := by
  cases step_shield hs
  exact ⟨rfl, rfl⟩

theorem read_lastIncident {a r : Nat} {st' : St}
    (hs : (shieldProcesses env).step p .lastIncidentGet st a = some (r, st')) :
    r = (st.shield p).lastIncident ∧ st = st' := by
  cases step_shield hs
  exact ⟨rfl, rfl⟩

theorem read_clock {a r : Nat} {st' : St}
    (hs : (shieldProcesses env).step p .now st a = some (r, st')) :
    r = st'.clock ∧ st.clock ≤ st'.clock ∧ st'.shield = st.shield := by
  cases step_shield hs
  exact ⟨rfl, le_max_left .., rfl⟩

theorem write_hp {hp : ℚ} {a r : Unit} {st' : St}
    (hs : (shieldProcesses env).step p (.hpSet hp) st a = some (r, st')) :
    st'.shield = Function.update st.shield p { st.shield p with hp := hp } ∧
      st'.clock = st.clock := by
  cases step_shield hs
  exact ⟨shield_onMem .., rfl⟩

theorem write_lastIncident {t : Nat} {a r : Unit} {st' : St}
    (hs : (shieldProcesses env).step p (.lastIncidentSet t) st a = some (r, st')) :
    st'.shield = Function.update st.shield p { st.shield p with lastIncident := t } ∧
      st'.clock = st.clock := by
  cases step_shield hs
  exact ⟨shield_onMem .., rfl⟩

theorem redis_same {c : Redis.Cmd} {a : (Cmd.redis c).Ans} {r : c.Res} {st' : St}
    (hs : (shieldProcesses env).step p (.redis c) st a = some (r, st')) :
    st'.shield = st.shield ∧ st'.clock = st.clock := by
  have hst : st' = (exec p (.redis c) st a).2 := by rw [step_shield hs]
  rw [hst]
  exact ⟨rfl, rfl⟩

/-- The end of `record` publishes the health and has nothing else to wait for. -/
theorem reportHit_eq (p : Pid) (type : Incident) {hp : ℚ} (hd : Drawn env hp) :
    reportHit env type hp = (HealthEv.incident p type).publication env hp := by
  obtain ⟨part, hbar, -⟩ := hd
  rw [reportHit, hbar]
  rfl

theorem reportHeal_eq (p : Pid) {hp : ℚ} (hd : Drawn env hp) :
    reportHeal env hp = (HealthEv.tick p).publication env hp := by
  obtain ⟨part, hbar, -⟩ := hd
  rw [reportHeal, hbar]
  rfl

/-- `record` does the same with and without the bar. -/
theorem seg_drawnRecord_eq (hpos : Positive env) (hr : (st.shield p).InRange env)
    (type : Incident) : (shieldProcesses env).seg p ans (drawnRecord env type) st out =
      (shieldProcesses env).seg p ans (record env type) st out := by
  refine Machine.seg_call_congr rfl fun before st₁ h₁ => ?_
  obtain ⟨rfl, rfl⟩ := read_hp h₁
  refine Machine.seg_call_congr rfl fun _ st₂ _ => Machine.seg_call_congr rfl fun now st₃ _ =>
    Machine.seg_call_congr rfl fun _ st₄ _ => ?_
  have hrange := hr.hit hpos type now
  change (shieldProcesses env).seg p ans
    (reportHit env type ((st.shield p).hit env type now).hp) st₄ _ = _
  rw [reportHit_eq p type (drawn_of_range hpos hrange.1 hrange.2)]
  rfl

/-- So does a tick. -/
theorem seg_drawnHeal_eq (hpos : Positive env) (hr : (st.shield p).InRange env) :
    (shieldProcesses env).seg p ans (drawnHeal env) st out =
      (shieldProcesses env).seg p ans (heal env) st out := by
  refine Machine.seg_call_congr rfl fun now st₁ h₁ => ?_
  obtain ⟨rfl, -, hsame⟩ := read_clock h₁
  refine Machine.seg_call_congr rfl fun last st₂ h₂ => ?_
  obtain ⟨rfl, rfl⟩ := read_lastIncident h₂
  refine Machine.seg_call_congr rfl fun hp st₃ h₃ => ?_
  obtain ⟨rfl, rfl⟩ := read_hp h₃
  rw [← hsame] at hr
  have hrange := hr.healed hpos
  change (shieldProcesses env).seg p ans (if (st₁.shield p).Due env st₁.clock then
      (ask (.hpSet ((st₁.shield p).healed env).hp)).bind fun _ =>
        reportHeal env ((st₁.shield p).healed env).hp
      else .ret ()) st₁ _ =
    (shieldProcesses env).seg p ans (if (st₁.shield p).Due env st₁.clock then
      (ask (.hpSet ((st₁.shield p).healed env).hp)).bind fun _ =>
        redis (.publish "nexus.events" (Json.stringify (healEvent ((st₁.shield p).healed env).hp)))
      else .ret ()) st₁ _
  rw [reportHeal_eq p (drawn_of_range hpos hrange.1 hrange.2)]
  rfl

/-- A publication waits. -/
theorem seg_publication {ev : HealthEv} {hp : ℚ}
    (hs : (shieldProcesses env).seg p ans (ev.publication env hp) st out = some s) :
    s.forked = [] ∧ s.st = st ∧ s.rest = ev.publication env hp ∧
      (shieldProcesses env).sent p ans (ev.publication env hp) st out =
        [.redis (.publish "nexus.events" (ev.message hp))] := by
  cases (Machine.seg_call_wait rfl).symm.trans hs
  exact ⟨rfl, rfl, rfl, Machine.sent_call_wait rfl⟩

/-- An incident, up to where its call waits. -/
theorem seg_drawnRecord (hpos : Positive env) (hr : (st.shield p).InRange env) (type : Incident)
    (hs : (shieldProcesses env).seg p ans (drawnRecord env type) st out = some s) :
    s.forked = [] ∧ st.clock ≤ s.st.clock ∧
      s.st.shield = Function.update st.shield p ((st.shield p).hit env type s.st.clock) ∧
      s.rest = (HealthEv.incident p type).publication env (s.st.shield p).hp ∧
      (shieldProcesses env).sent p ans (drawnRecord env type) st out =
        [.hpGet, .hpSet (s.st.shield p).hp, .now, .lastIncidentSet s.st.clock,
          .redis (.publish "nexus.events" ((HealthEv.incident p type).message
            (s.st.shield p).hp))] := by
  obtain ⟨before, st₁, h₁, hs, hsent₁⟩ := Machine.sent_call_sync rfl hs
  obtain ⟨rfl, rfl⟩ := read_hp h₁
  obtain ⟨_, st₂, h₂, hs, hsent₂⟩ := Machine.sent_call_sync rfl hs
  obtain ⟨hset, hclock₂⟩ := write_hp h₂
  obtain ⟨now, st₃, h₃, hs, hsent₃⟩ := Machine.sent_call_sync rfl hs
  obtain ⟨rfl, hclock₃, hsame⟩ := read_clock h₃
  obtain ⟨_, st₄, h₄, hs, hsent₄⟩ := Machine.sent_call_sync rfl hs
  obtain ⟨hlast, hclock₄⟩ := write_lastIncident h₄
  have hshield : st₄.shield =
      Function.update st.shield p ((st.shield p).hit env type st₄.clock) := by
    rw [hlast, hsame, hset, Function.update_idem, Function.update_self, hclock₄]
    rfl
  have hhp : (st₄.shield p).hp = ((st.shield p).hit env type st₄.clock).hp := by
    rw [hshield, Function.update_self]
  have hrange := hr.hit hpos type st₄.clock
  have hreport := reportHit_eq p type (drawn_of_range hpos hrange.1 hrange.2)
  change (shieldProcesses env).seg p ans
    (reportHit env type ((st.shield p).hit env type st₄.clock).hp) st₄ _ = some s at hs
  rw [hreport] at hs
  obtain ⟨hforked, hst, hrest, hsent₅⟩ := seg_publication hs
  rw [← hreport] at hsent₅
  have hsent := hsent₁.trans (congrArg _ (hsent₂.trans (congrArg _ (hsent₃.trans (congrArg _
    (hsent₄.trans (congrArg _ hsent₅)))))))
  rw [hst, hhp]
  refine ⟨hforked, hclock₂ ▸ hclock₄ ▸ hclock₃, hshield, hrest, ?_⟩
  rw [hclock₄]
  exact hsent

/-- A tick that gives health back, from where it sets the health. -/
theorem seg_giveBack (hpos : Positive env) (hr : (st.shield p).InRange env)
    (hs : (shieldProcesses env).seg p ans ((ask (.hpSet ((st.shield p).healed env).hp)).bind fun _ =>
      reportHeal env ((st.shield p).healed env).hp) st out = some s) :
    s.forked = [] ∧ s.st.clock = st.clock ∧
      s.st.shield = Function.update st.shield p ((st.shield p).healed env) ∧
      s.rest = (HealthEv.tick p).publication env (s.st.shield p).hp ∧
      (shieldProcesses env).sent p ans ((ask (.hpSet ((st.shield p).healed env).hp)).bind fun _ =>
        reportHeal env ((st.shield p).healed env).hp) st out =
          [.hpSet (s.st.shield p).hp,
            .redis (.publish "nexus.events" ((HealthEv.tick p).message (s.st.shield p).hp))] := by
  obtain ⟨_, st₁, h₁, hs, hsent₁⟩ := Machine.sent_call_sync rfl hs
  obtain ⟨hset, hclock⟩ := write_hp h₁
  have hrange := hr.healed hpos
  have hreport := reportHeal_eq p (drawn_of_range hpos hrange.1 hrange.2)
  change (shieldProcesses env).seg p ans (reportHeal env ((st.shield p).healed env).hp) st₁ _ =
    some s at hs
  rw [hreport] at hs
  obtain ⟨hforked, hst, hrest, hsent₂⟩ := seg_publication hs
  rw [← hreport] at hsent₂
  have hhp : (st₁.shield p).hp = ((st.shield p).healed env).hp := by
    rw [hset, Function.update_self]
  rw [hst, hhp]
  exact ⟨hforked, hclock, hset, hrest, hsent₁.trans (congrArg _ hsent₂)⟩

/-- A tick that gives no health back, and one that does, up to where its call waits. -/
theorem seg_drawnHeal (hpos : Positive env) (hr : (st.shield p).InRange env)
    (hs : (shieldProcesses env).seg p ans (drawnHeal env) st out = some s) :
    s.forked = [] ∧ st.clock ≤ s.st.clock ∧
      ((s.st.shield = st.shield ∧ s.rest = .ret () ∧
        (shieldProcesses env).sent p ans (drawnHeal env) st out =
          [.now, .lastIncidentGet, .hpGet]) ∨
      ((st.shield p).Due env s.st.clock ∧
        s.st.shield = Function.update st.shield p ((st.shield p).healed env) ∧
        s.rest = (HealthEv.tick p).publication env (s.st.shield p).hp ∧
        (shieldProcesses env).sent p ans (drawnHeal env) st out =
          [.now, .lastIncidentGet, .hpGet, .hpSet (s.st.shield p).hp,
            .redis (.publish "nexus.events" ((HealthEv.tick p).message (s.st.shield p).hp))])) := by
  obtain ⟨now, st₁, h₁, hs, hsent₁⟩ := Machine.sent_call_sync rfl hs
  obtain ⟨rfl, hclock₁, hsame⟩ := read_clock h₁
  obtain ⟨last, st₂, h₂, hs, hsent₂⟩ := Machine.sent_call_sync rfl hs
  obtain ⟨rfl, rfl⟩ := read_lastIncident h₂
  obtain ⟨hp, st₃, h₃, hs, hsent₃⟩ := Machine.sent_call_sync rfl hs
  obtain ⟨rfl, rfl⟩ := read_hp h₃
  have hsent := hsent₁.trans (congrArg _ (hsent₂.trans (congrArg _ hsent₃)))
  rw [← hsame] at hr ⊢
  change (shieldProcesses env).seg p ans (if (st₁.shield p).Due env st₁.clock then
    (ask (.hpSet ((st₁.shield p).healed env).hp)).bind fun _ =>
      reportHeal env ((st₁.shield p).healed env).hp else .ret ()) st₁ _ = some s at hs
  change (shieldProcesses env).sent p ans (drawnHeal env) st out = .now :: .lastIncidentGet ::
    .hpGet :: (shieldProcesses env).sent p ans (if (st₁.shield p).Due env st₁.clock then
      (ask (.hpSet ((st₁.shield p).healed env).hp)).bind fun _ =>
        reportHeal env ((st₁.shield p).healed env).hp else .ret ()) st₁ _ at hsent
  by_cases hdue : (st₁.shield p).Due env st₁.clock
  · rw [if_pos hdue] at hs hsent
    obtain ⟨hforked, hclock, hset, hrest, hsent₄⟩ := seg_giveBack hpos hr hs
    refine ⟨hforked, hclock ▸ hclock₁, .inr ⟨hclock ▸ hdue, hset, hrest, ?_⟩⟩
    rw [hsent, hsent₄]
  · rw [if_neg hdue] at hs hsent
    cases hs
    exact ⟨rfl, hclock₁, .inl ⟨rfl, rfl, hsent⟩⟩

/-- What comes after a publication sets nothing and publishes nothing. -/
theorem sent_exitIfPopped
    (hs : (shieldProcesses env).seg p ans (exitIfPopped env) st out = some s) :
    s.forked = [] ∧ s.st = st ∧ s.rest = .ret () ∧
      ((shieldProcesses env).sent p ans (exitIfPopped env) st out = [.hpGet] ∨
        (shieldProcesses env).sent p ans (exitIfPopped env) st out = [.hpGet, .exit]) := by
  obtain ⟨hp, st₁, h₁, hs, hsent⟩ := Machine.sent_call_sync rfl hs
  obtain ⟨rfl, rfl⟩ := read_hp h₁
  change (shieldProcesses env).seg p ans (if (st.shield p).hp = 0 ∧ env.autoExit = true then
    ask .exit else .ret ()) st _ = some s at hs
  change (shieldProcesses env).sent p ans (exitIfPopped env) st out = .hpGet ::
    (shieldProcesses env).sent p ans (if (st.shield p).hp = 0 ∧ env.autoExit = true then
      ask .exit else .ret ()) st _ at hsent
  split at hs
  next hzero =>
    obtain ⟨_, st₂, h₂, hs, hsent₂⟩ := Machine.sent_call_sync rfl hs
    rw [if_pos hzero] at hsent
    cases step_shield h₂
    cases hs
    exact ⟨rfl, rfl, rfl, .inr (hsent.trans (congrArg _ hsent₂))⟩
  next hzero =>
    rw [if_neg hzero] at hsent
    cases hs
    exact ⟨rfl, rfl, rfl, .inl hsent⟩

end

/-! ## Steps -/

/-- The healths that were set, with the events that set them. -/
def takenHp (log : List (HealthEv × Cmd)) : List (HealthEv × ℚ) :=
  log.filterMap fun x => match x.2 with
    | .hpSet hp => some (x.1, hp)
    | _ => none

/-- The messages that were published, with the events that published them. -/
def publishedHp (log : List (HealthEv × Cmd)) : List (HealthEv × String × String) :=
  log.filterMap fun x => match x.2 with
    | .redis (.publish channel message) => some (x.1, channel, message)
    | _ => none

/-- The times of the incidents of a process. -/
def incidentTimes (p : Pid) (log : List (HealthEv × Cmd)) : List Nat :=
  log.filterMap fun x => match x.2 with
    | .lastIncidentSet t => if x.1.pid = p then some t else none
    | _ => none

theorem mem_incidentTimes {p : Pid} {t : Nat} {log : List (HealthEv × Cmd)}
    (h : t ∈ incidentTimes p log) :
    ∃ ev : HealthEv, (ev, Cmd.lastIncidentSet t) ∈ log ∧ ev.pid = p := by
  obtain ⟨⟨ev, c⟩, hx, hf⟩ := List.mem_filterMap.mp h
  cases c with
  | lastIncidentSet t' =>
      obtain ⟨hp, ht⟩ := Option.ite_none_right_eq_some.mp hf
      cases ht
      exact ⟨ev, hx, hp⟩
  | _ => cases hf

/-- The commands that none of these lists knows. -/
def Cmd.mute : Cmd → Bool
  | .hpSet _ | .lastIncidentSet _ | .redis _ => false
  | _ => true

theorem filterMap_mute {α : Type} {f : HealthEv × Cmd → Option α} {log : List (HealthEv × Cmd)}
    (hf : ∀ x : HealthEv × Cmd, x.2.mute = true → f x = none)
    (hlog : ∀ x ∈ log, x.2.mute = true) : log.filterMap f = [] :=
  List.filterMap_eq_nil_iff.mpr fun x hx => hf x (hlog x hx)

theorem lists_mute {log : List (HealthEv × Cmd)} (hlog : ∀ x ∈ log, x.2.mute = true) :
    takenHp log = [] ∧ publishedHp log = [] ∧ ∀ p, incidentTimes p log = [] := by
  refine ⟨filterMap_mute ?_ hlog, filterMap_mute ?_ hlog, fun p => filterMap_mute ?_ hlog⟩
  all_goals
    rintro ⟨ev, c⟩ hc
    cases c with
    | hpSet _ | lastIncidentSet _ | redis _ => cases hc
    | _ => rfl

theorem taken_append (log log' : List (HealthEv × Cmd)) :
    takenHp (log ++ log') = takenHp log ++ takenHp log' := List.filterMap_append ..

theorem published_append (log log' : List (HealthEv × Cmd)) :
    publishedHp (log ++ log') = publishedHp log ++ publishedHp log' := List.filterMap_append ..

theorem incidentTimes_append (p : Pid) (log log' : List (HealthEv × Cmd)) :
    incidentTimes p (log ++ log') = incidentTimes p log ++ incidentTimes p log' :=
  List.filterMap_append ..

section

variable (env : Env)

/-- The programs in flight. -/
inductive ReportPhase : HealthEv → Bool → Prog Unit → Prop where
  | begun (ev : HealthEv) : ReportPhase ev true (ev.drawn env)
  | reporting (ev : HealthEv) (hp : ℚ) :
      ReportPhase ev false (.call (.redis (.publish "nexus.events" (ev.message hp))) fun _ => ev.after env)
  | reported (ev : HealthEv) : ReportPhase ev true (ev.after env)
  | ended (ev : HealthEv) (ready : Bool) : ReportPhase ev ready (.ret ())

variable {env} in
/-- No call has thrown. -/
theorem ReportPhase.ne_throw {ev : HealthEv} {ready : Bool} {q : Prog Unit} (h : ReportPhase env ev ready q)
    (e : Err) : q ≠ .throw e := by
  cases h with
  | begun | reported =>
      cases ev with
      | incident p type => exact nofun
      | tick p => exact nofun
  | reporting hp => exact nofun
  | ended => exact nofun

/-- What a step does to the firewalls.  `quiet` steps set and publish nothing. -/
inductive ShieldEffect (w w' : World (shieldProcesses env)) : (shieldProcesses env).Choice → Prop where
  | quiet {ch : (shieldProcesses env).Choice} (hshield : St.shield w'.st = St.shield w.st)
      (hclock : St.clock w.st ≤ St.clock w'.st)
      (hmute : ∀ x ∈ Machine.sentBy w ch, Cmd.mute x.2 = true) : ShieldEffect w w' ch
  | hit {i : Nat} {ans : Nat → (c : Cmd) → c.Ans} {p : Pid} {type : Incident}
      (htask : w.pool[i]? = some ⟨.incident p type, drawnRecord env type, true⟩)
      (hshield : St.shield w'.st = Function.update (St.shield w.st) p
        ((St.shield w.st p).hit env type (St.clock w'.st)))
      (hclock : St.clock w.st ≤ St.clock w'.st)
      (hsent : Machine.sentBy w (.resume i ans) =
        [.hpGet, .hpSet (St.shield w'.st p).hp, .now, .lastIncidentSet (St.clock w'.st),
          .redis (.publish "nexus.events" ((HealthEv.incident p type).message
            (St.shield w'.st p).hp))].map (.incident p type, ·)) : ShieldEffect w w' (.resume i ans)
  | healed {i : Nat} {ans : Nat → (c : Cmd) → c.Ans} {p : Pid}
      (htask : w.pool[i]? = some ⟨.tick p, drawnHeal env, true⟩)
      (hdue : (St.shield w.st p).Due env (St.clock w'.st))
      (hshield : St.shield w'.st = Function.update (St.shield w.st) p
        ((St.shield w.st p).healed env))
      (hclock : St.clock w.st ≤ St.clock w'.st)
      (hsent : Machine.sentBy w (.resume i ans) =
        [.now, .lastIncidentGet, .hpGet, .hpSet (St.shield w'.st p).hp,
          .redis (.publish "nexus.events" ((HealthEv.tick p).message
            (St.shield w'.st p).hp))].map (.tick p, ·)) : ShieldEffect w w' (.resume i ans)
  | stopped {p : Pid}
      (hshield : St.shield w'.st = Function.update (St.shield w.st) p
        ⟨env.maxHp, St.clock w.st⟩)
      (hclock : St.clock w'.st = St.clock w.st) : ShieldEffect w w' (.crash p)

end

section

variable {env : Env} {w w' : World (shieldProcesses env)}

/-- Every program in flight is at one of the stages. -/
def InPhase (w : World (shieldProcesses env)) : Prop :=
  ∀ t ∈ w.pool, ReportPhase env t.ev t.ready t.prog

theorem InPhase.set (hpool : InPhase w) {i : Nat} {ev : HealthEv} {q : Prog Unit} {ready : Bool}
    (hq : ReportPhase env ev ready q) :
    ∀ t ∈ w.pool.set i ⟨ev, q, ready⟩, ReportPhase env t.ev t.ready t.prog := by
  intro t ht
  rcases List.mem_or_eq_of_mem_set ht with ht | rfl
  · exact hpool t ht
  · exact hq

theorem InPhase.afterResume (hpool : InPhase w) {i : Nat} {ev : HealthEv}
    {s : (shieldProcesses env).Seg Unit} (hforked : s.forked = [])
    (hrest : ReportPhase env ev false s.rest) : InPhase (Machine.afterResume w i ev s) := by
  intro t ht
  have hnil : s.forked.map (fun q => (⟨ev, q, false⟩ : Task (shieldProcesses env))) = [] := by
    rw [hforked]
    rfl
  have ht' : t ∈ w.pool.set i ⟨ev, s.rest, false⟩ ++
      s.forked.map (fun q => (⟨ev, q, false⟩ : Task (shieldProcesses env))) := ht
  rw [hnil, List.append_nil] at ht'
  exact hpool.set hrest t ht'

theorem mute_sent {ch : (shieldProcesses env).Choice} {ev : HealthEv} {cs : List Cmd}
    (hsent : Machine.sentBy w ch = cs.map (ev, ·)) (hcs : ∀ c ∈ cs, c.mute = true) :
    ∀ x ∈ Machine.sentBy w ch, Cmd.mute x.2 = true := by
  rw [hsent]
  intro x hx
  obtain ⟨c, hc, rfl⟩ := List.mem_map.mp hx
  exact hcs c hc

theorem mute_nil {ch : (shieldProcesses env).Choice} (hsent : Machine.sentBy w ch = []) :
    ∀ x ∈ Machine.sentBy w ch, Cmd.mute x.2 = true := by
  rw [hsent]
  exact fun _ hx => absurd hx List.not_mem_nil

/-- A program that goes on. -/
theorem effect_resume (hpos : Positive env) (hr : ∀ p, (St.shield w.st p).InRange env)
    (hpool : InPhase w) {i : Nat} {ev : HealthEv} {q : Prog Unit}
    {ans : Nat → (c : Cmd) → c.Ans} {s : (shieldProcesses env).Seg Unit}
    (hq : w.pool[i]? = some ⟨ev, q, true⟩)
    (hs : (shieldProcesses env).seg ev.pid ans q w.st [] = some s)
    (hsent : Machine.sentBy w (.resume i ans) =
      ((shieldProcesses env).sent ev.pid ans q w.st []).map (ev, ·)) :
    ShieldEffect env w (Machine.afterResume w i ev s) (.resume i ans) ∧
      InPhase (Machine.afterResume w i ev s) := by
  have hstage : ReportPhase env ev true q := hpool _ (List.mem_of_getElem? hq)
  cases hstage with
  | begun =>
      cases ev with
      | incident p type =>
          obtain ⟨hforked, hclock, hshield, hrest, hsent'⟩ := seg_drawnRecord hpos (hr p) type hs
          refine ⟨.hit hq hshield hclock (hsent.trans (congrArg _ hsent')), hpool.afterResume hforked ?_⟩
          rw [hrest]
          exact .reporting _ _
      | tick p =>
          obtain ⟨hforked, hclock, ⟨hshield, hrest, hsent'⟩ | ⟨hdue, hshield, hrest, hsent'⟩⟩ :=
            seg_drawnHeal hpos (hr p) hs
          · refine ⟨.quiet hshield hclock (mute_sent (hsent.trans (congrArg _ hsent')) ?_),
              hpool.afterResume hforked ?_⟩
            · simp [Cmd.mute]
            · rw [hrest]
              exact .ended _ _
          · refine ⟨.healed hq hdue hshield hclock (hsent.trans (congrArg _ hsent')),
              hpool.afterResume hforked ?_⟩
            rw [hrest]
            exact .reporting _ _
  | reported =>
      cases ev with
      | incident p type =>
          obtain ⟨hforked, hst, hrest, hsent'⟩ := sent_exitIfPopped hs
          refine ⟨.quiet (congrArg _ hst) (congrArg St.clock hst).ge ?_,
            hpool.afterResume hforked ?_⟩
          · rcases hsent' with hsent' | hsent'
            · exact mute_sent (hsent.trans (congrArg _ hsent')) (by simp [Cmd.mute])
            · exact mute_sent (hsent.trans (congrArg _ hsent')) (by simp [Cmd.mute])
          · rw [hrest]
            exact .ended _ _
      | tick p =>
          cases hs
          exact ⟨.quiet rfl le_rfl (mute_sent hsent nofun), hpool.afterResume rfl (.ended _ _)⟩
  | ended =>
      cases hs
      exact ⟨.quiet rfl le_rfl (mute_sent hsent nofun), hpool.afterResume rfl (.ended _ _)⟩

/-- The answer to a command that waits. -/
theorem effect_reply (hpool : InPhase w) {i : Nat} {ev : HealthEv} {c : Cmd}
    {k : c.Res → Prog Unit} {ans : (c : Cmd) → c.Ans} {r : c.Res} {st : St}
    (hq : w.pool[i]? = some ⟨ev, .call c k, false⟩)
    (hstep : (shieldProcesses env).step ev.pid c w.st (ans c) = some (r, st))
    (hsent : Machine.sentBy w (.reply i ans) = []) :
    ShieldEffect env w (Machine.afterReply w i ev c (k r) st) (.reply i ans) ∧
      InPhase (Machine.afterReply w i ev c (k r) st) := by
  have hstage : ReportPhase env ev false (.call c k) := hpool _ (List.mem_of_getElem? hq)
  cases hstage with
  | reporting =>
      obtain ⟨hshield, hclock⟩ := redis_same hstep
      exact ⟨.quiet hshield hclock.ge (mute_nil hsent), hpool.set (.reported ev)⟩

/-- Everything a step can do. -/
theorem effect_of_next (hpos : Positive env) (hr : ∀ p, (St.shield w.st p).InRange env)
    (hpool : InPhase w) {ch : (shieldProcesses env).Choice} (hn : Machine.next w ch = some w') :
    ShieldEffect env w w' ch ∧ InPhase w' := by
  rcases Machine.next_sent hn with ⟨ev, st, rfl, hst, rfl, hsent⟩ |
    ⟨i, ev, q, ans, s, rfl, hq, hs, rfl, hsent⟩ |
    ⟨i, ev, c, k, ans, r, st, rfl, hq, hstep, rfl, hsent⟩ | ⟨p, rfl, rfl, -⟩
  · cases hst
    refine ⟨.quiet rfl le_rfl (mute_nil hsent), fun t ht => ?_⟩
    cases List.mem_append.mp ht with
    | inl ht => exact hpool t ht
    | inr ht => exact List.mem_singleton.mp ht ▸ .begun ev
  · exact effect_resume hpos hr hpool hq hs hsent
  · exact effect_reply hpool hq hstep hsent
  · exact ⟨.stopped (shield_onMem w.st p fun _ => .fresh env (St.clock w.st)) rfl,
      fun t ht => hpool t (List.mem_of_mem_filter ht)⟩

/-! ## Runs -/

/-- What holds of a run and of its log. -/
structure Sound (env : Env) (st : St) (log : List (HealthEv × Cmd)) : Prop where
  range : ∀ p, (st.shield p).InRange env
  takenRange : ∀ x ∈ takenHp log, 0 ≤ x.2 ∧ x.2 ≤ env.maxHp
  published : publishedHp log = (takenHp log).map fun x => (x.1, "nexus.events", x.1.message x.2)
  /-- No incident is later than the one the process knows of. -/
  times : ∀ p, ∀ t ∈ incidentTimes p log, t ≤ (st.shield p).lastIncident
  clock : ∀ p, (st.shield p).lastIncident ≤ st.clock

variable {log : List (HealthEv × Cmd)}

/-- One firewall changes, and publishes the health it has set. -/
theorem Sound.update (hi : Sound env w.st log) {p : Pid} {st : St} {sh : Shield}
    (hshield : st.shield = Function.update (St.shield w.st) p sh) (hrange : sh.InRange env)
    (hclock : St.clock w.st ≤ st.clock)
    (hlast : (St.shield w.st p).lastIncident ≤ sh.lastIncident) (hnow : sh.lastIncident ≤ st.clock)
    {sent : List (HealthEv × Cmd)} (htaken : ∀ x ∈ takenHp sent, x.2 = sh.hp)
    (hpublished : publishedHp sent =
      (takenHp sent).map fun x => (x.1, "nexus.events", x.1.message x.2))
    (htimes : ∀ q, ∀ t ∈ incidentTimes q sent, q = p ∧ t = sh.lastIncident) :
    Sound env st (log ++ sent) := by
  have hself : st.shield p = sh := by rw [hshield, Function.update_self]
  have hother : ∀ q, q ≠ p → st.shield q = St.shield w.st q := fun q hq => by
    rw [hshield, Function.update_of_ne hq]
  have hgrow : ∀ q, (St.shield w.st q).lastIncident ≤ (st.shield q).lastIncident := fun q => by
    by_cases hq : q = p
    · rw [hq, hself]
      exact hlast
    · rw [hother q hq]
  refine ⟨fun q => ?_, fun x hx => ?_, ?_, fun q t ht => ?_, fun q => ?_⟩
  · by_cases hq : q = p
    · rw [hq, hself]
      exact hrange
    · rw [hother q hq]
      exact hi.range q
  · rw [taken_append] at hx
    rcases List.mem_append.mp hx with hx | hx
    · exact hi.takenRange x hx
    · rw [htaken x hx]
      exact hrange
  · rw [published_append, taken_append, hi.published, hpublished, List.map_append]
  · rw [incidentTimes_append] at ht
    rcases List.mem_append.mp ht with ht | ht
    · exact (hi.times q t ht).trans (hgrow q)
    · obtain ⟨rfl, rfl⟩ := htimes q t ht
      rw [hself]
  · by_cases hq : q = p
    · rw [hq, hself]
      exact hnow
    · rw [hother q hq]
      exact (hi.clock q).trans hclock

/-- Nothing is set. -/
theorem Sound.mute (hi : Sound env w.st log) {p : Pid} {st : St} {sh : Shield}
    (hshield : st.shield = Function.update (St.shield w.st) p sh) (hrange : sh.InRange env)
    (hclock : St.clock w.st ≤ st.clock)
    (hlast : (St.shield w.st p).lastIncident ≤ sh.lastIncident) (hnow : sh.lastIncident ≤ st.clock)
    {sent : List (HealthEv × Cmd)} (hmute : ∀ x ∈ sent, x.2.mute = true) :
    Sound env st (log ++ sent) := by
  obtain ⟨htaken, hpublished, htimes⟩ := lists_mute hmute
  refine hi.update hshield hrange hclock hlast hnow ?_ ?_ fun q => ?_
  · rw [htaken]
    exact fun _ hx => absurd hx List.not_mem_nil
  · rw [hpublished, htaken]
    rfl
  · rw [htimes]
    exact fun _ ht => absurd ht List.not_mem_nil

theorem Sound.step (hpos : Positive env) (hi : Sound env w.st log)
    {ch : (shieldProcesses env).Choice} (heff : ShieldEffect env w w' ch)
    {sent : List (HealthEv × Cmd)} (hch : Machine.sentBy w ch = sent) :
    Sound env w'.st (log ++ sent) := by
  subst hch
  cases heff with
  | quiet hshield hclock hmute =>
      exact hi.mute (p := .agent) (hshield.trans (Function.update_eq_self _ _).symm)
        (hi.range .agent) hclock le_rfl ((hi.clock .agent).trans hclock) hmute
  | @hit i ans p type htask hshield hclock hsent =>
      have hhp : (St.shield w'.st p).hp = ((St.shield w.st p).hit env type (St.clock w'.st)).hp := by
        rw [hshield, Function.update_self]
      rw [hsent, hhp]
      refine hi.update hshield ((hi.range p).hit hpos type _) hclock ((hi.clock p).trans hclock)
        le_rfl ?_ rfl fun q t ht => ?_
      · exact fun x hx => congrArg Prod.snd (List.mem_singleton.mp hx)
      · obtain ⟨ev, hmem, hev⟩ := mem_incidentTimes ht
        obtain ⟨c, hc, he⟩ := List.mem_map.mp hmem
        cases he
        simp only [List.mem_cons, List.not_mem_nil, Cmd.lastIncidentSet.injEq, reduceCtorEq,
          false_or, or_false] at hc
        exact ⟨hev.symm, hc⟩
  | @healed i ans p htask hdue hshield hclock hsent =>
      have hhp : (St.shield w'.st p).hp = ((St.shield w.st p).healed env).hp := by
        rw [hshield, Function.update_self]
      rw [hsent, hhp]
      refine hi.update hshield ((hi.range p).healed hpos) hclock le_rfl
        ((hi.clock p).trans hclock) ?_ rfl fun q t ht => ?_
      · exact fun x hx => congrArg Prod.snd (List.mem_singleton.mp hx)
      · cases ht
  | @stopped p hshield hclock =>
      exact hi.mute hshield ⟨hpos.maxHp.le, le_rfl⟩ hclock.ge (hi.clock p) hclock.ge
        (@mute_nil env w (.crash p) rfl)

/-- At the start every firewall has its full health. -/
theorem Sound.fresh (hpos : Positive env) (now : Nat) : Sound env (St.fresh env now) [] :=
  ⟨fun _ => ⟨hpos.maxHp.le, le_rfl⟩, fun _ hx => absurd hx List.not_mem_nil, rfl,
    fun _ _ ht => absurd ht List.not_mem_nil, fun _ => le_rfl⟩

theorem sound_of_logged (hpos : Positive env)
    (hw : (shieldProcesses env).Logged (fun st => ∃ now, st = St.fresh env now) w log) :
    Sound env w.st log ∧ InPhase w := by
  induction hw with
  | start hinit =>
      obtain ⟨now, rfl⟩ := hinit
      exact ⟨.fresh hpos now, fun _ ht => absurd ht List.not_mem_nil⟩
  | step _ hn ih =>
      obtain ⟨heff, hpool⟩ := effect_of_next hpos ih.1.range ih.2 hn
      exact ⟨ih.1.step hpos heff rfl, hpool⟩

/-- Health rises only if a process stops or the timer gives it back. -/
theorem rise_of_effect (hpos : Positive env) (hi : Sound env w.st log)
    {ch : (shieldProcesses env).Choice} (heff : ShieldEffect env w w' ch) {p : Pid}
    (hrise : (St.shield w.st p).hp < (St.shield w'.st p).hp) :
    ch = .crash p ∨ ∃ i ans, ch = .resume i ans ∧
      w.pool[i]? = some ⟨.tick p, drawnHeal env, true⟩ ∧
      (St.shield w.st p).Due env (St.clock w'.st) := by
  have hself : ∀ {q : Pid} {sh : Shield},
      St.shield w'.st = Function.update (St.shield w.st) q sh → p = q := by
    intro q sh hshield
    by_contra hq
    rw [hshield, Function.update_of_ne hq] at hrise
    exact lt_irrefl _ hrise
  cases heff with
  | quiet hshield _ _ =>
      rw [hshield] at hrise
      exact absurd hrise (lt_irrefl _)
  | @hit i ans q type _ hshield _ _ =>
      obtain rfl := hself hshield
      rw [hshield, Function.update_self] at hrise
      exact absurd hrise (not_lt.mpr (Shield.hit_le hpos (hi.range p) type _))
  | @healed i ans q htask hdue hshield _ _ =>
      obtain rfl := hself hshield
      exact .inr ⟨i, ans, rfl, htask, hdue⟩
  | @stopped q hshield _ =>
      obtain rfl := hself hshield
      exact .inl rfl

end

/-- In every run, the health of every process stays in range and can be drawn, and no call fails.
What is published is what was set, in the same order.  Health rises only at a tick that comes late
enough after every incident of the process, or if the process is started again. -/
theorem firewall_health {env : Env} (hpos : Positive env) {w : World (shieldProcesses env)}
    {log : List (HealthEv × Cmd)}
    (hw : (shieldProcesses env).Logged (fun st => ∃ now, st = St.fresh env now) w log) :
    (∀ p, 0 ≤ (St.mem w.st p).hp ∧ (St.mem w.st p).hp ≤ env.maxHp ∧
      Drawn env (St.mem w.st p).hp) ∧
    (∀ x ∈ takenHp log, 0 ≤ x.2 ∧ x.2 ≤ env.maxHp ∧ Drawn env x.2) ∧
    (∀ t ∈ w.pool, ∀ e, t.prog ≠ .throw e) ∧
    publishedHp log = (takenHp log).map (fun x => (x.1, "nexus.events", x.1.message x.2)) ∧
    ∀ ch w', Machine.next w ch = some w' → ∀ p,
      (St.mem w.st p).hp < (St.mem w'.st p).hp → ch = .crash p ∨
        ∃ i ans, ch = .resume i ans ∧ w.pool[i]? = some ⟨.tick p, drawnHeal env, true⟩ ∧
          ∀ t ∈ incidentTimes p log, env.healInterval < (St.clock w'.st : ℚ) - t := by
  obtain ⟨hi, hpool⟩ := sound_of_logged hpos hw
  refine ⟨fun p => ?_, fun x hx => ?_, fun t ht e he => ?_, hi.published, fun ch w' hn p hrise => ?_⟩
  · have hrange := hi.range p
    exact ⟨hrange.1, hrange.2, drawn_of_range hpos hrange.1 hrange.2⟩
  · have hrange := hi.takenRange x hx
    exact ⟨hrange.1, hrange.2, drawn_of_range hpos hrange.1 hrange.2⟩
  · exact (hpool t ht).ne_throw e he
  · obtain ⟨heff, -⟩ := effect_of_next hpos hi.range hpool hn
    refine (rise_of_effect hpos hi heff hrise).imp_right fun ⟨i, ans, hch, htask, hdue⟩ =>
      ⟨i, ans, hch, htask, fun t ht => ?_⟩
    have ht' : (t : ℚ) ≤ (St.shield w.st p).lastIncident := by exact_mod_cast hi.times p t ht
    linarith [hdue.1]

namespace Sample

theorem env_positive : Positive env where
  maxHp := by decide
  weight type := by
    cases type with
    | _ => decide
  healRate := by decide
  healInterval := by decide
  barLen := ⟨20, by decide, rfl⟩

/-- An error, and a tick ten minutes later. -/
def errorThenTick : List (shieldProcesses env).Choice :=
  serve (shieldProcesses env) offline (.incident .agent .error) 0 1 ++
    serve (shieldProcesses env) (atTime 600000) (.tick .agent) 1 1

/-- The health of the agent is 18, then 19, and both are published. -/
theorem agent_recovers : Positive env ∧ ∃ w log,
    (shieldProcesses env).Logged (fun st => ∃ now, st = St.fresh env now) w log ∧
      (St.mem w.st .agent).hp = 19 ∧ Drawn env (St.mem w.st .agent).hp ∧
      (takenHp log).map Prod.snd = [18, 19] ∧
      publishedHp log = (takenHp log).map fun x => (x.1, "nexus.events", x.1.message x.2) := by
  have hrun : (Machine.nexts ⟨St.fresh env 0, [], []⟩ errorThenTick).any
      (fun w => decide ((St.mem w.st .agent).hp = 19)) = true := by
    decide +kernel
  obtain ⟨w, hw, hhp⟩ := (Option.any_eq_true _ _).mp hrun
  have hlog := Machine.Logged.nexts
    (.start ⟨0, rfl⟩ : (shieldProcesses env).Logged (fun st => ∃ now, st = St.fresh env now) _ _) hw
  have htaken : (takenHp (Machine.sentByAll ⟨St.fresh env 0, [], []⟩ errorThenTick)).map Prod.snd =
      [18, 19] := by
    decide +kernel
  obtain ⟨hrange, -, -, hpublished, -⟩ := firewall_health env_positive hlog
  exact ⟨env_positive, w, _, hlog, of_decide_eq_true hhp, (hrange .agent).2.2, htaken, hpublished⟩

end Sample

end Nexus
