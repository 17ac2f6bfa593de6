import NexusErebus.Api
import NexusErebus.Async.Calls
import NexusErebus.Telegram

/-!
# The system

The agent and the API server run side by side over one store.  Each may stop at any time,
which empties its memory, and start again.  The agent boots by `initializeUsers` and then
listens to Telegram and Twitter.  The API server listens at once and never loads users.

What can happen is an event (`Ev`), and its program runs in one of the processes.  Besides the
updates and requests of the front ends there are bare calls of the functions they share
(`Call`), for any handle.
-/

namespace Nexus

open Async Text

/-- A call of a function of commands.js. -/
inductive Call where
  | ensure (h : Str)
  | walletOf (h : Str)
  | balanceOf (h : Str)
  | getPortfolio (h : Str)
  | toggleAuto (h : Str) (state : Option Bool)
  | setRisk (h : Str) (level : Str)
  | handleMessage (m : Message)

/-- What happens in the two processes. -/
inductive Ev where
  /-- The boot of the agent, up to where it listens to its front ends. -/
  | boot
  | call (p : Pid) (c : Call)
  /-- An account of a user that is watched has changed. -/
  | solChanged (h : Str)
  | tokenChanged (h : Str)
  | telegram (u : Update)
  | tweet (handle text : String)
  | request (r : ApiRequest)

/-- Forget what a program returns. -/
def discard {α : Type} (q : Prog α) : Prog Unit := q.bind fun _ => .ret ()

/-- The message of a tweet. -/
def tweetMessage (handle text : String) : Message :=
  ⟨some (toLowerCase handle), some text, none, some .twitter⟩

/-- When an event can happen.  A process boots once.  The agent listens once it has booted, the
API server at once.  Only who is in a chat can write there, and only a button on display can be
pressed. -/
def Ev.enter : Ev → St → Option St
  | .boot, st =>
      if (st.mem .agent).booting then none
      else some (st.onMem .agent fun m => { m with booting := true })
  | .call .agent _, st => if (st.mem .agent).ready then some st else none
  | .call .api _, st => some st
  | .call _ _, _ => none
  | .solChanged h, st => if h ∈ (st.mem .agent).watched then some st else none
  | .tokenChanged h, st => if h ∈ (st.mem .agent).watched then some st else none
  | .telegram u, st =>
      let shown := match u with
        | .press _ chat _ data _ => st.visible.contains (chat.id, data)
        | _ => true
      if (st.mem .agent).ready && u.source.2.admits u.source.1 && shown then some st else none
  | .tweet _ _, st => if (st.mem .agent).ready then some st else none
  | .request _, st => some st

/-- The process of an event. -/
def Ev.pid : Ev → Pid
  | .call p _ => p
  | .request _ => .api
  | _ => .agent

/-- An event leaves the state as it is, but for the mark that the agent boots. -/
theorem enter_cases {ev : Ev} {st st' : St} (h : ev.enter st = some st') :
    st' = st ∨ st' = st.onMem .agent fun m => { m with booting := true } := by
  cases ev with
  | boot =>
      simp only [Ev.enter, Option.ite_none_left_eq_some, Option.some.injEq] at h
      exact .inr h.2.symm
  | call p c =>
      cases p with
      | api => exact .inl (Option.some.inj h).symm
      | agent =>
          simp only [Ev.enter, Option.ite_none_right_eq_some, Option.some.injEq] at h
          exact .inl h.2.symm
      | worker | metrics | launcher => cases h
  | request r => exact .inl (Option.some.inj h).symm
  | solChanged | tokenChanged | telegram | tweet =>
      simp only [Ev.enter, Option.ite_none_right_eq_some, Option.some.injEq] at h
      exact .inl h.2.symm

section

variable (env : Env)

/-- The program of a call. -/
def Call.body : Call → Prog Unit
  | .ensure h => discard (Nexus.ensure env h)
  | .walletOf h => discard (Nexus.walletOf env h)
  | .balanceOf h => discard (Nexus.balanceOf env h)
  | .getPortfolio h => discard (Nexus.getPortfolio env h)
  | .toggleAuto h state => discard (Nexus.toggleAuto env h state)
  | .setRisk h level => discard (Nexus.setRisk env h level)
  | .handleMessage m => Nexus.handleMessage env m

/-- The program of an event. -/
def Ev.body : Ev → Prog Unit
  | .boot => do
      await (initializeUsers env)
      ask .ready
  | .call _ c => c.body env
  | .solChanged h => Nexus.solChanged env h
  | .tokenChanged h => Nexus.tokenChanged env h
  | .telegram u => u.body env
  | .tweet handle text => handleMessage env (tweetMessage handle text)
  | .request r => onRequest env r

/-- A process stops, and forgets what it kept in memory. -/
def St.stop (st : St) (p : Pid) : St := st.onMem p fun _ => .fresh env st.clock

/-- The processes of the repository, with the events that start their programs. -/
def processes {E : Type} (pid : E → Pid) (body : E → Prog Unit) (enter : E → St → Option St) :
    Machine sig Err where
  Pid := Pid
  St := St
  Ev := E
  pid := pid
  body := body
  sync := Cmd.sync
  Ans := Cmd.Ans
  step p c st a := if admits st c a then some (exec p c st a) else none
  enter := enter
  crash p st := st.stop env p
  decPid := inferInstance

/-- The agent and the API server. -/
def machine : Machine sig Err := processes env Ev.pid (Ev.body env) Ev.enter

variable {env} {E : Type} {pid : E → Pid} {body : E → Prog Unit} {enter : E → St → Option St}

/-- What a command of a guarded run does. -/
theorem step_guarded {onEnter : E → St → Bool} {onStep : Pid → Cmd → St → Bool} {p : Pid} {c : Cmd}
    {st st' : St} {a : c.Ans} {r : c.Res}
    (hs : ((processes env pid body enter).guarded onEnter onStep).step p c st a = some (r, st')) :
    onStep p c st = true ∧ admits st c a = true ∧ exec p c st a = (r, st') := by
  obtain ⟨hg, hs⟩ := Option.ite_none_right_eq_some.mp hs
  obtain ⟨ha, hs⟩ := Option.ite_none_right_eq_some.mp hs
  exact ⟨hg, ha, Option.some.inj hs⟩

/-- What a command of a monitored run does. -/
theorem step_monitored {O : Observer (processes env pid body enter)}
    {onEnter : E → St × O.Memo → Bool} {onStep : Pid → Cmd → St × O.Memo → Bool} {p : Pid} {c : Cmd}
    {s s' : St × O.Memo} {a : c.Ans} {r : c.Res}
    (hs : ((processes env pid body enter).monitored O onEnter onStep).step p c s a = some (r, s')) :
    onStep p c s = true ∧ admits s.1 c a = true ∧ exec p c s.1 a = (r, s'.1) ∧
      s'.2 = O.note p c s.1 r s.2 := by
  obtain ⟨hg, hs⟩ := Option.ite_none_right_eq_some.mp hs
  obtain ⟨x, hx, he⟩ := Option.map_eq_some_iff.mp hs
  obtain ⟨ha, hx⟩ := Option.ite_none_right_eq_some.mp hx
  cases hx
  cases he
  exact ⟨hg, ha, rfl, rfl⟩

/-- What a command of a call does, in a monitored run. -/
theorem step_calls {O : Observer (processes env pid body enter).calls}
    {onEnter : Nat × E → (St × List E) × O.Memo → Bool}
    {onStep : Nat → Cmd → (St × List E) × O.Memo → Bool} {n : Nat} {c : Cmd}
    {s s' : (St × List E) × O.Memo} {a : c.Ans} {r : c.Res}
    (hs : ((processes env pid body enter).calls.monitored O onEnter onStep).step n c s a =
      some (r, s')) :
    onStep n c s = true ∧ ∃ ev, s.1.2[n]? = some ev ∧ admits s.1.1 c a = true ∧
      exec (pid ev) c s.1.1 a = (r, s'.1.1) ∧ s'.1.2 = s.1.2 ∧ s'.2 = O.note n c s.1 r s.2 := by
  obtain ⟨hg, hs⟩ := Option.ite_none_right_eq_some.mp hs
  obtain ⟨x, hx, he⟩ := Option.map_eq_some_iff.mp hs
  obtain ⟨ev, hev, hstep, hcalls⟩ := Machine.calls_step hx
  obtain ⟨ha, hstep⟩ := Option.ite_none_right_eq_some.mp hstep
  cases he
  exact ⟨hg, ev, hev, ha, Option.some.inj hstep, hcalls, rfl⟩

/-- What the arrival of a call does, in a monitored run. -/
theorem enter_calls {O : Observer (processes env pid body enter).calls}
    {onEnter : Nat × E → (St × List E) × O.Memo → Bool}
    {onStep : Nat → Cmd → (St × List E) × O.Memo → Bool} {ev : Nat × E}
    {s s' : (St × List E) × O.Memo}
    (he : ((processes env pid body enter).calls.monitored O onEnter onStep).enter ev s = some s') :
    onEnter ev s = true ∧ ev.1 = s.1.2.length ∧ enter ev.2 s.1.1 = some s'.1.1 ∧
      s'.1.2 = s.1.2 ++ [ev.2] ∧ s'.2 = s.2 := by
  obtain ⟨hg, he⟩ := Option.ite_none_right_eq_some.mp he
  obtain ⟨st', hst', hs'⟩ := Option.map_eq_some_iff.mp he
  obtain ⟨hn, hent, hcalls⟩ := Machine.calls_enter hst'
  cases hs'
  exact ⟨hg, hn, hent, hcalls, rfl⟩

/-- An event of a monitored run is noted nowhere. -/
theorem enter_monitored {O : Observer (processes env pid body enter)}
    {onEnter : E → St × O.Memo → Bool} {onStep : Pid → Cmd → St × O.Memo → Bool} {ev : E}
    {s s' : St × O.Memo}
    (he : ((processes env pid body enter).monitored O onEnter onStep).enter ev s = some s') :
    onEnter ev s = true ∧ enter ev s.1 = some s'.1 ∧ s'.2 = s.2 := by
  obtain ⟨hg, he⟩ := Option.ite_none_right_eq_some.mp he
  obtain ⟨st', hst', hs'⟩ := Option.map_eq_some_iff.mp he
  cases hs'
  exact ⟨hg, hst', rfl⟩

end

end Nexus
