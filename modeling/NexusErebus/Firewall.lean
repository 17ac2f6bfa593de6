import NexusErebus.Runtime

/-!
# The firewall (firewall.js)

Every process that imports the module has a health counter of its own.  An incident
takes health away and is published.  A process whose health is zero once the event is
published exits.  A timer gives some health back when there was no incident for a while.  The
messages of incidents are only logged and are left out.
-/

namespace Nexus

variable (env : Env)

/-- The event an incident publishes. -/
def firewallEvent (type : Incident) (hp : ℚ) : Json :=
  .obj [("event", .str "firewall"), ("type", .str type.name), ("hp", .num hp)]

/-- The event a heal publishes. -/
def healEvent (hp : ℚ) : Json :=
  .obj [("event", .str "firewall"), ("type", .str "heal"), ("hp", .num hp)]

/-- Exit if the health is zero. -/
def exitIfPopped : Prog Unit := do
  let hp : ℚ ← ask .hpGet
  if hp = 0 ∧ env.autoExit = true then ask .exit else return ()

def record (type : Incident) : Prog Unit := do
  let before : ℚ ← ask .hpGet
  let hp := max 0 (before - env.weight type)
  ask (.hpSet hp)
  let now : Nat ← ask .now
  ask (.lastIncidentSet now)
  redis (.publish "nexus.events" (Json.stringify (firewallEvent type hp)))
  -- other incidents may have come in between
  exitIfPopped env

/-- A tick of the auto-heal interval. -/
def heal : Prog Unit := do
  let now : Nat ← ask .now
  let lastIncident : Nat ← ask .lastIncidentGet
  let hp : ℚ ← ask .hpGet
  if env.healInterval < now - lastIncident ∧ hp < env.maxHp then do
    let hp := min env.maxHp (hp + env.healRate)
    ask (.hpSet hp)
    redis (.publish "nexus.events" (Json.stringify (healEvent hp)))
  else return ()

/-- The commands of the firewall. -/
def Cmd.firewall : Cmd → Bool
  | .hpGet | .hpSet _ | .now | .lastIncidentSet _ | .redis (.publish _ _) | .exit => true
  | _ => false

/-- `firewall.onError`, whose promise nobody waits for. -/
def onError : Prog Unit := .spawn (record env .error)

/-- `firewall.onRpcFail`, whose promise nobody waits for. -/
def onRpcFail : Prog Unit := .spawn (record env .rpcFail)

/-- `firewall.onSpam`, whose promise nobody waits for. -/
def onSpam : Prog Unit := .spawn (record env .spam)

/-! ## Contract -/

variable {env} {pre : Cmd → Prop} (hpre : ∀ c : Cmd, c.firewall = true → pre c)

include hpre in
theorem issues_record (type : Incident) : (record env type).Issues pre := by
  refine .call (hpre _ rfl) fun hp => .call (hpre _ rfl) fun _ => .call (hpre _ rfl) fun now =>
    .call (hpre _ rfl) fun _ => .call (hpre _ rfl) fun _ => .call (hpre _ rfl) fun after => ?_
  simp only [Async.Prog.ret_bind]
  split
  · exact issues_ask (hpre _ rfl)
  · exact .ret ()

include hpre in
theorem issues_onError : (onError env).Issues pre :=
  Async.Prog.issues_spawn (issues_record hpre .error)

include hpre in
theorem issues_onRpcFail : (onRpcFail env).Issues pre :=
  Async.Prog.issues_spawn (issues_record hpre .rpcFail)

end Nexus
