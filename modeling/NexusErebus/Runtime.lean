import NexusErebus.Async.Rely
import NexusErebus.Data.Redis
import NexusErebus.Env
import NexusErebus.Text.Json

/-!
# The runtime

The commands a program of the repository can issue, the state they act on, and their
meaning.  A command is one of three kinds.

* A command on memory acts on what the process keeps in its module variables.  It is
  answered on the spot.
* A command to Redis or to the trade queue is carried out by the server.  The program
  waits.  The launchers have a client of their own, whose commands may fail.
* A command to the outside world, an HTTP request, an RPC call or a Telegram call, is
  answered by the environment, which may answer anything, an error included.

`exec` carries out a command, given what the environment would answer.  `admits` says
which answers the environment may give: a clock that does not go back, and a key pair
or a mint that was not generated before.  `Nexus.alone` runs a program by itself.

Some things have no counterpart in the source.  `note` records what `walletOf` returned,
`apiNote` what the API server did, and the argument of `generate` what the key is for.
None of them changes what a program does.
-/

namespace Nexus

open Text (Str)

/-! ## Data -/

/-- A user, as the `users` map holds it. -/
structure User where
  wallet : Keypair
  sol : Number
  tierBal : Number
  auto : Bool
  risk : Str
  deriving DecidableEq

/-- An assignment to a field of a user object.  `wallet` is never assigned. -/
inductive Assign where
  | sol (x : Number)
  | tierBal (x : Number)
  | auto (b : Bool)
  | risk (level : Str)
  deriving DecidableEq

/-- Carry out an assignment. -/
def Assign.apply : Assign → User → User
  | .sol x, u => { u with sol := x }
  | .tierBal x, u => { u with tierBal := x }
  | .auto b, u => { u with auto := b }
  | .risk level, u => { u with risk := level }

@[simp] theorem Assign.apply_wallet (a : Assign) (u : User) : (a.apply u).wallet = u.wallet := by
  cases a with
  | _ => rfl

/-- The side of a trade. -/
inductive Side where
  | buy | sell
  deriving DecidableEq, Repr

/-- The text of a side. -/
def Side.text : Side → String
  | .buy => "buy"
  | .sell => "sell"

/-- A trade command, as it is queued. -/
structure TradeCmd where
  t : Side
  mint : Str
  sol : Number
  deriving DecidableEq

/-- The data of a job of the queue `trades`. -/
structure TradeJob where
  cmd : TradeCmd
  handle : Str
  deriving DecidableEq

/-- The body of an HTTP request. -/
inductive Body where
  | none
  | text (s : String)
  | form (fields : List (String × String))
  deriving DecidableEq

/-- An HTTP request. -/
structure Request where
  url : String
  method : String
  body : Body
  deriving DecidableEq

/-- An HTTP response with its body. -/
structure Response where
  ok : Bool
  statusText : String
  body : String

/-- An inline button. -/
structure Button where
  label : String
  data : String
  deriving DecidableEq

/-- The calls to the Telegram API.  A menu is the list of its buttons. -/
inductive TgCmd where
  | answerCbQuery
  | editMessageText (chat : String) (msgId : Nat) (text : String) (menu : List Button)
  | reply (chat text : String) (menu : List Button)
  | replyWithPhoto (chat : String) (photo : Str) (caption : String) (menu : List Button)
  | sendMessage (chat text : String)
  deriving DecidableEq

/-- The chat and the buttons of a message. -/
def TgCmd.shows : TgCmd → List (String × String)
  | .answerCbQuery => []
  | .editMessageText chat _ _ menu => menu.map fun b => (chat, b.data)
  | .reply chat _ menu => menu.map fun b => (chat, b.data)
  | .replyWithPhoto chat _ _ menu => menu.map fun b => (chat, b.data)
  | .sendMessage _ _ => []

/-- What a key pair is generated for. -/
inductive KeyUse where
  | wallet (h : Str)
  | mint
  deriving DecidableEq

/-- What is noted about the API server. -/
inductive ApiNote where
  /-- `signToken` was called, and the clock was read for its three times. -/
  | signed (handle : String) (expTime iatTime dayTime : Nat)
  /-- A tag was found to be right for a payload, under the key of a day. -/
  | verified (day : Number) (payload : String)
  /-- A handler behind `auth` runs for a user, who was authenticated at a time. -/
  | handled (user : Json) (time : Nat)

/-- The processes that import the modules of the repository. -/
inductive Pid where
  | agent | api | worker | metrics | launcher
  deriving DecidableEq, Repr

/-! ## Commands -/

/-- The commands. -/
inductive Cmd where
  /-- Wait for a promise that needs nothing from outside. -/
  | tick
  /-- `setTimeout`. -/
  | sleep (ms : Number)
  /-- `Date.now()`. -/
  | now
  | randomBytes (n : Nat)
  | generate (use : KeyUse)
  | redis (c : Redis.Cmd)
  /-- A command of the client of the launchers, which may fail. -/
  | tryRedis (c : Redis.Cmd)
  /-- `tradeQueue.add`. -/
  | addJob (job : TradeJob)
  | usersGet (h : Str)
  | usersSet (h : Str) (u : User)
  /-- Assign to a field of the object under a handle. -/
  | usersAssign (h : Str) (a : Assign)
  | usersKeys
  /-- `subscribed.has`. -/
  | watched (h : Str)
  /-- `subscribed.add` and the two `conn.onAccountChange`. -/
  | watch (h : Str)
  /-- Read and write `decimalsCache`. -/
  | decimalsGet (mint : String)
  | decimalsSet (mint : String) (d : Number)
  /-- The set `awaitingManual`. -/
  | manualHas (h : Str)
  | manualAdd (h : Str)
  | manualDelete (h : Str)
  /-- The object `lastConfigs`. -/
  | configGet (h : Str)
  | configSet (h : Str) (cfg : Json)
  /-- The health of the firewall. -/
  | hpGet
  | hpSet (hp : ℚ)
  /-- When the last incident was. -/
  | lastIncidentGet
  | lastIncidentSet (t : Nat)
  /-- `trade_jobs_total` is counted up, for a job that succeeded or failed. -/
  | jobCounted (success : Bool)
  /-- `process.exit(1)`. -/
  | exit
  /-- The boot of the process is over. -/
  | ready
  | fetch (r : Request)
  | getBalance (pk : PublicKey)
  | getAccountInfo (pk : PublicKey)
  | getParsedAccountInfo (pk : PublicKey)
  | getLatestBlockhash
  | getParsedTokenAccountsByOwner (pk : PublicKey) (program : TokenProgram)
  | sendAndConfirmRawTransaction (tx : SignedTx) (skipPreflight : Bool)
  | createMint (payer : Keypair) (decimals : Option Json)
  | getOrCreateAssociatedTokenAccount (payer : Keypair) (mint owner : PublicKey)
  | mintTo (payer : Keypair) (mint account : PublicKey) (amount : Number)
  | createLaunchpadPool (wallet : Keypair) (poolParams : List (String × Option Json))
      (platformConfig : List (String × Json)) (programId : PublicKey)
  | buyLaunchpadToken (wallet : Keypair) (poolId : PublicKey) (amountB : Option Json)
      (tokenAAccount programId : PublicKey)
  | sellLaunchpadToken (wallet : Keypair) (poolId : PublicKey) (amountA : Option Json)
      (tokenAAccount programId : PublicKey)
  | sendAndConfirmTransaction (tx : String) (signer : Keypair)
  | telegram (c : TgCmd)
  /-- Answer a message of another platform. -/
  | twitterReply (text : String)
  /-- Send the response of the API server. -/
  | respond (status : Nat) (body : Json)
  /-- `walletOf` returned an address for a handle. -/
  | note (h : Str) (address : String)
  | apiNote (n : ApiNote)

/-- The answer of a command. -/
@[reducible] def Cmd.Res : Cmd → Type
  | .now => Nat
  | .randomBytes _ => Bytes
  | .generate _ => Keypair
  | .redis c => c.Res
  | .tryRedis c => Except Err c.Res
  | .usersGet _ => Option User
  | .usersKeys => List Str
  | .watched _ => Bool
  | .decimalsGet _ => Option Number
  | .manualHas _ => Bool
  | .configGet _ => Option Json
  | .hpGet => ℚ
  | .lastIncidentGet => Nat
  | .fetch _ => Except Err Response
  | .getBalance _ => Except Err Nat
  | .getAccountInfo _ => Except Err (Option Bytes)
  | .getParsedAccountInfo _ => Except Err (Option Number)
  | .getLatestBlockhash => Except Err String
  | .getParsedTokenAccountsByOwner _ _ => Except Err (List (String × String))
  | .sendAndConfirmRawTransaction _ _ => Except Err String
  | .createMint _ _ => Except Err PublicKey
  | .getOrCreateAssociatedTokenAccount _ _ _ => Except Err PublicKey
  | .mintTo _ _ _ _ => Except Err Unit
  | .createLaunchpadPool _ _ _ _ => Except Err String
  | .buyLaunchpadToken _ _ _ _ _ => Except Err String
  | .sellLaunchpadToken _ _ _ _ _ => Except Err String
  | .sendAndConfirmTransaction _ _ => Except Err String
  | .telegram _ => Except Err Unit
  | .twitterReply _ => Except Err Unit
  | _ => Unit

/-- What the environment decides about a command: its answer, of a transaction also whether
it lands, and of a command to Redis that may fail the error. -/
@[reducible] def Cmd.Ans : Cmd → Type
  | .sendAndConfirmRawTransaction _ _ => Except Err String × Bool
  | .tryRedis _ => Option Err
  | c => c.Res

/-- The signature of the runtime. -/
@[reducible] def sig : Async.Sig := ⟨Cmd, Cmd.Res⟩

/-- A program of the repository. -/
abbrev Prog := Async.Prog sig Err

/-- The commands that are answered on the spot. -/
def Cmd.sync : Cmd → Bool
  | .tick | .sleep _ | .redis _ | .tryRedis _ | .addJob _ | .fetch _ | .getBalance _ | .getAccountInfo _
  | .getParsedAccountInfo _ | .getLatestBlockhash | .getParsedTokenAccountsByOwner _ _
  | .sendAndConfirmRawTransaction _ _ | .createMint _ _
  | .getOrCreateAssociatedTokenAccount _ _ _ | .mintTo _ _ _ _ | .createLaunchpadPool _ _ _ _
  | .buyLaunchpadToken _ _ _ _ _ | .sellLaunchpadToken _ _ _ _ _
  | .sendAndConfirmTransaction _ _ | .telegram _ | .twitterReply _ => false
  | _ => true

/-! ## State -/

/-- What a process keeps in memory. -/
structure Mem where
  users : List (Str × User)
  /-- The handles of `subscribed`. -/
  watched : List Str
  decimals : List (String × Number)
  awaitingManual : List Str
  lastConfigs : List (String × Json)
  hp : ℚ
  lastIncident : Nat
  /-- The boot of the process has begun. -/
  booting : Bool
  /-- The boot of the process is over. -/
  ready : Bool

/-- The memory of a process that has just started. -/
def Mem.fresh (env : Env) (now : Nat) : Mem where
  users := []
  watched := []
  decimals := []
  awaitingManual := []
  lastConfigs := []
  hp := env.maxHp
  lastIncident := now
  booting := false
  ready := false

/-- The state of the system. -/
structure St where
  redis : Redis.Store
  mem : Pid → Mem
  /-- Milliseconds. -/
  clock : Nat
  /-- The public keys generated so far, the mints included. -/
  keys : List PublicKey
  /-- The jobs added to the queue `trades`, oldest first. -/
  jobs : List TradeJob
  chain : Ledger
  /-- The chats and the data of the buttons on display. -/
  visible : List (String × String)
  /-- What `walletOf` has returned, oldest first. -/
  returned : List (Str × String)
  /-- What was noted about the API server, oldest first. -/
  apiLog : List ApiNote

/-- The state of a system that has just started. -/
def St.fresh (env : Env) (now : Nat) : St where
  redis := .empty
  mem _ := .fresh env now
  clock := now
  keys := []
  jobs := []
  chain := []
  visible := []
  returned := []
  apiLog := []

/-- Change the memory of a process. -/
def St.onMem (st : St) (p : Pid) (f : Mem → Mem) : St :=
  { st with mem := Function.update st.mem p (f (st.mem p)) }

@[simp] theorem St.onMem_self (st : St) (p : Pid) (f : Mem → Mem) :
    (st.onMem p f).mem p = f (st.mem p) := by
  simp [St.onMem]

theorem St.onMem_ne (st : St) {p q : Pid} (h : q ≠ p) (f : Mem → Mem) :
    (st.onMem p f).mem q = st.mem q := by
  simp [St.onMem, h]

/-- The properties every plain object has without being given them. -/
def objectPrototype : List String :=
  ["constructor", "__defineGetter__", "__defineSetter__", "hasOwnProperty",
    "__lookupGetter__", "__lookupSetter__", "isPrototypeOf", "propertyIsEnumerable",
    "toString", "valueOf", "__proto__", "toLocaleString"]

/-- `lastConfigs[key]`.  An inherited property is an object without fields of a
config. -/
def Mem.config (m : Mem) (key : String) : Option Json :=
  match m.lastConfigs.lookup key with
  | some cfg => some cfg
  | none => if key ∈ objectPrototype then some (.obj []) else none

/-- Carry out a command, given the decision of the environment. -/
def exec (p : Pid) : (c : Cmd) → St → c.Ans → c.Res × St
  | .sleep ms, st, _ => ((), { st with clock := st.clock + (ms.getD 0).floor.toNat })
  | .now, st, (t : Nat) => ((max st.clock t : Nat), { st with clock := max st.clock t })
  | .randomBytes n, st, (bs : Bytes) => ((bs ++ List.replicate n 0).take n, st)
  | .generate _, st, kp => (kp, { st with keys := kp.publicKey :: st.keys })
  | .redis c, st, _ =>
      ((Redis.exec st.clock c st.redis).1,
        { st with redis := (Redis.exec st.clock c st.redis).2 })
  | .tryRedis c, st, failure =>
      let (r, redis) := match failure with
        | none => (.ok (Redis.exec st.clock c st.redis).1, (Redis.exec st.clock c st.redis).2)
        | some e => (.error e, st.redis)
      (r, { st with redis := redis })
  | .addJob job, st, _ => ((), { st with jobs := st.jobs ++ [job] })
  | .usersGet h, st, _ => ((st.mem p).users.lookup h, st)
  | .usersSet h u, st, _ => ((), st.onMem p fun m => { m with users := Assoc.set h u m.users })
  | .usersAssign h a, st, _ =>
      ((), st.onMem p fun m => { m with users := Assoc.modify h a.apply m.users })
  | .usersKeys, st, _ => ((st.mem p).users.map Prod.fst, st)
  | .watched h, st, _ => (decide (h ∈ (st.mem p).watched), st)
  | .watch h, st, _ => ((), st.onMem p fun m => { m with watched := m.watched ++ [h] })
  | .decimalsGet mint, st, _ => ((st.mem p).decimals.lookup mint, st)
  | .decimalsSet mint d, st, _ =>
      ((), st.onMem p fun m => { m with decimals := Assoc.set mint d m.decimals })
  | .manualHas h, st, _ => (decide (h ∈ (st.mem p).awaitingManual), st)
  | .manualAdd h, st, _ =>
      ((), st.onMem p fun m => { m with awaitingManual := h :: m.awaitingManual })
  | .manualDelete h, st, _ =>
      ((), st.onMem p fun m => { m with awaitingManual := m.awaitingManual.filter (· ≠ h) })
  | .configGet h, st, _ => ((st.mem p).config h.text, st)
  | .configSet h cfg, st, _ =>
      ((), st.onMem p fun m => { m with lastConfigs := Assoc.set h.text cfg m.lastConfigs })
  | .hpGet, st, _ => ((st.mem p).hp, st)
  | .hpSet hp, st, _ => ((), st.onMem p fun m => { m with hp := hp })
  | .lastIncidentGet, st, _ => ((st.mem p).lastIncident, st)
  | .lastIncidentSet t, st, _ => ((), st.onMem p fun m => { m with lastIncident := t })
  | .jobCounted _, st, _ => ((), st)
  | .ready, st, _ => ((), st.onMem p fun m => { m with ready := true })
  | .sendAndConfirmRawTransaction tx _, st, (r, lands) =>
      (r, { st with chain := st.chain ++ [⟨tx, lands, r⟩] })
  | .telegram c, st, r =>
      -- the buttons are on display even if the call is reported to have failed
      (r, { st with visible := st.visible ++ c.shows })
  | .note h address, st, _ => ((), { st with returned := st.returned ++ [(h, address)] })
  | .apiNote n, st, _ => ((), { st with apiLog := st.apiLog ++ [n] })
  | .respond _ _, st, _ => ((), st)
  | .tick, st, _ => ((), st)
  | .exit, st, _ => ((), st)
  | .fetch _, st, r => (r, st)
  | .getBalance _, st, r => (r, st)
  | .getAccountInfo _, st, r => (r, st)
  | .getParsedAccountInfo _, st, r => (r, st)
  | .getLatestBlockhash, st, r => (r, st)
  | .getParsedTokenAccountsByOwner _ _, st, r => (r, st)
  | .createMint _ _, st, r => (r, { st with keys := r.toOption.toList ++ st.keys })
  | .getOrCreateAssociatedTokenAccount _ _ _, st, r => (r, st)
  | .mintTo _ _ _ _, st, r => (r, st)
  | .createLaunchpadPool _ _ _ _, st, r => (r, st)
  | .buyLaunchpadToken _ _ _ _ _, st, r => (r, st)
  | .sellLaunchpadToken _ _ _ _ _, st, r => (r, st)
  | .sendAndConfirmTransaction _ _, st, r => (r, st)
  | .twitterReply _, st, r => (r, st)

/-- The answers the environment may give. -/
def admits (st : St) : (c : Cmd) → c.Ans → Bool
  | .now, (t : Nat) => decide (st.clock ≤ t)
  | .generate _, kp => decide (kp.publicKey ∉ st.keys)
  | .createMint _ _, .ok mint => decide (mint ∉ st.keys)
  | _, _ => true

/-! ## Programs -/

section Programs

variable {α : Type}

/-- Issue a command. -/
def ask (c : Cmd) : Prog c.Res := Async.Prog.ask (S := sig) c

/-- Throw the error of a command that failed. -/
def attempt (p : Prog (Except Err α)) : Prog α := p.bind .ofExcept

/-- Wait for the promise of an asynchronous function. -/
def await (p : Prog α) : Prog α := p.bind fun a => (ask .tick).bind fun _ => .ret a

/-- A command to Redis. -/
def redis (c : Redis.Cmd) : Prog c.Res := ask (.redis c)

/-- A command to Redis that may fail. -/
def tryRedis (c : Redis.Cmd) : Prog c.Res := attempt (ask (.tryRedis c))

/-- `throw new TypeError(message)`. -/
def typeError (message : String) : Prog α := .throw ⟨.typeError, message⟩

/-- `JSON.parse(s)`. -/
def parseJson (s : Str) : Except Err Json :=
  match Json.parse s.text with
  | some v => .ok v
  | none => .error ⟨.syntaxError, "\"" ++ s.text ++ "\" is not valid JSON"⟩

theorem toOption_parseJson (s : String) : (parseJson (some s)).toOption = Json.parse s := by
  simp only [parseJson, Str.text_some]
  cases Json.parse s with
  | none => rfl
  | some v => rfl

/-- `JSON.parse(s)`, in a program. -/
def jsonParse (s : Str) : Prog Json := .ofExcept (parseJson s)

/-- `x.key`, where `x` may be `undefined` or `null`. -/
def prop (x : Option Json) (key : String) : Prog (Option Json) :=
  match x with
  | none => typeError ("Cannot read properties of undefined (reading '" ++ key ++ "')")
  | some .null => typeError ("Cannot read properties of null (reading '" ++ key ++ "')")
  | some v => .ret (v.field key)

/-- `fetch(r)` and `res.json()`. -/
def fetchJson (r : Request) : Prog Json :=
  (attempt (ask (.fetch r))).bind fun res => jsonParse (some res.body)

end Programs

/-! ## Contracts of the small programs -/

section Contracts

variable {α : Type} {pre : Cmd → Prop}

theorem issues_ask {c : Cmd} (hc : pre c) : (ask c).Issues pre :=
  Async.Prog.issues_ask (S := sig) hc

theorem issues_redis {c : Redis.Cmd} (hc : pre (.redis c)) : (redis c).Issues pre :=
  issues_ask hc

theorem issues_await {p : Prog α} (htick : pre .tick) (h : p.Issues pre) :
    (await p).Issues pre :=
  Async.Prog.issues_bind h fun a => .call htick fun _ => .ret a

theorem issues_attempt {p : Prog (Except Err α)} (h : p.Issues pre) : (attempt p).Issues pre :=
  Async.Prog.issues_bind h Async.Prog.issues_ofExcept

theorem issues_typeError (message : String) : (typeError message : Prog α).Issues pre :=
  .throw _

theorem issues_jsonParse (s : Str) : (jsonParse s).Issues pre :=
  Async.Prog.issues_ofExcept _

theorem issues_prop (x : Option Json) (key : String) : (prop x key).Issues pre := by
  unfold prop
  split
  · exact issues_typeError _
  · exact issues_typeError _
  · exact .ret _

theorem issues_fetchJson {r : Request} (h : pre (.fetch r)) : (fetchJson r).Issues pre :=
  Async.Prog.issues_bind (issues_attempt (issues_ask h)) fun _ => issues_jsonParse _

end Contracts

/-- A postcondition that the process can rely on outlasts the wait for a promise. -/
theorem safe_await_tick {M : Async.Machine sig Err} {R : Async.Rely M} {E : Err → Prop} {p : M.Pid}
    {α : Type} {q : Prog α} {Q : α → M.St → Prop} {st : M.St} (hsync : M.sync .tick = false)
    (htick : ∀ st₁ a r st₂, R.inv st₁ → M.step p .tick st₁ a = some (r, st₂) → R.Moves st₁ st₂)
    (hi : R.inv st) (hQ : ∀ a st₁ st₂, R.rel p st₁ st₂ → Q a st₁ → Q a st₂)
    (hq : R.SafeUpTo E p q Q st) : R.SafeUpTo E p (await q) Q st := by
  refine Async.Rely.safe_bind hi hq fun a st₁ hi₁ ha => ?_
  refine Async.Rely.safe_bind (P := fun _ st₂ => Q a st₂) hi₁ ?_ fun _ _ _ ha' => .ret ha'
  refine Async.Rely.safe_wait hsync (fun _ _ _ => hQ a _ _) fun st₂ h₂ hi₂ x r st₃ hs => ?_
  have hm := htick st₂ x r st₃ hi₂ hs
  exact ⟨hm, hQ a _ _ (hm.2 p) (hQ a _ _ h₂ ha)⟩

/-! ## Running alone -/

/-- Answer the commands of a program that runs by itself.  The environment follows a
strategy, which has a state of its own. -/
def alone {τ : Type} (p : Pid) (strat : (c : Cmd) → τ → c.Ans × τ) (c : Cmd) (s : St × τ) :
    c.Res × (St × τ) :=
  ((exec p c s.1 (strat c s.2).1).1, ((exec p c s.1 (strat c s.2).1).2, (strat c s.2).2))

section Alone

variable {τ : Type} {p : Pid} {strat : (c : Cmd) → τ → c.Ans × τ}

/-- The time a program reads. -/
def timeOf (strat : (c : Cmd) → τ → c.Ans × τ) (s : St × τ) : Nat :=
  max s.1.clock (strat .now s.2).1

variable (p) in
theorem run_now (s : St × τ) : (ask .now).run (alone p strat) s =
    (.ok (timeOf strat s), ({ s.1 with clock := timeOf strat s }, (strat .now s.2).2)) := rfl

/-- The state after a command to Redis. -/
def St.onRedis (st : St) (c : Redis.Cmd) : St :=
  { st with redis := (Redis.exec st.clock c st.redis).2 }

@[simp] theorem run_ask (c : Cmd) (st : St) (t : τ) :
    (ask c).run (alone p strat) (st, t) =
      (.ok (exec p c st (strat c t).1).1, ((exec p c st (strat c t).1).2, (strat c t).2)) := rfl

variable (p strat) in
@[simp] theorem run_redis (c : Redis.Cmd) (st : St) (t : τ) :
    (redis c).run (alone p strat) (st, t) =
      (.ok (Redis.exec st.clock c st.redis).1, (st.onRedis c, (strat (.redis c) t).2)) := rfl

variable (p) in
theorem run_tryRedis_ok {c : Redis.Cmd} (st : St) {t : τ} (h : (strat (.tryRedis c) t).1 = none) :
    (tryRedis c).run (alone p strat) (st, t) =
      (.ok (Redis.exec st.clock c st.redis).1, (st.onRedis c, (strat (.tryRedis c) t).2)) := by
  refine (Async.Prog.run_bind_ok (run_ask _ _ _)).trans ?_
  simp only [exec, h]
  rfl

variable (p) in
theorem run_tryRedis_error {c : Redis.Cmd} (st : St) {t : τ} {e : Err}
    (h : (strat (.tryRedis c) t).1 = some e) :
    (tryRedis c).run (alone p strat) (st, t) = (.error e, (st, (strat (.tryRedis c) t).2)) := by
  refine (Async.Prog.run_bind_ok (run_ask _ _ _)).trans ?_
  simp only [exec, h]
  rfl

/-- Waiting for a program changes nothing about how it ends. -/
theorem run_await {α : Type} {q : Prog α} {s s' : St × τ} {r : Except Err α}
    (h : q.run (alone p strat) s = (r, s')) :
    ∃ t', (await q).run (alone p strat) s = (r, (s'.1, t')) := by
  cases r with
  | ok a => exact ⟨_, Async.Prog.run_bind_ok h⟩
  | error e => exact ⟨s'.2, Async.Prog.run_bind_error h⟩

/-- The error of a command that failed is thrown. -/
theorem run_attempt {α : Type} {q : Prog (Except Err α)} {s s' : St × τ} {r : Except Err α}
    (h : q.run (alone p strat) s = (.ok r, s')) :
    (attempt q).run (alone p strat) s = (r, s') :=
  (Async.Prog.run_bind_ok h).trans (Async.Prog.run_ofExcept _ _)

theorem run_await_ok {α : Type} {q : Prog α} {s s' : St × τ} {a : α}
    (h : (await q).run (alone p strat) s = (.ok a, s')) :
    ∃ s'', q.run (alone p strat) s = (.ok a, s'') := by
  cases hq : q.run (alone p strat) s with
  | mk r s'' =>
      cases r with
      | ok b =>
          rw [show (await q).run (alone p strat) s = _ from Async.Prog.run_bind_ok hq] at h
          cases h
          exact ⟨s'', rfl⟩
      | error e =>
          rw [show (await q).run (alone p strat) s = _ from Async.Prog.run_bind_error hq] at h
          cases h

theorem returns_await {α : Type} {q : Prog α} {Q : α → Prop} (h : q.Returns (alone p strat) Q) :
    (await q).Returns (alone p strat) Q :=
  Async.Prog.returns_bind h fun _ ha => Async.Prog.returns_seq (Async.Prog.returns_ask fun _ => trivial) fun _ =>
    Async.Prog.returns_ret ha

theorem returns_attempt {α : Type} {q : Prog (Except Err α)} {Q : α → Prop}
    (h : q.Returns (alone p strat) fun x => ∃ a, x = .ok a ∧ Q a) :
    (attempt q).Returns (alone p strat) Q :=
  Async.Prog.returns_bind h fun _ hx => Async.Prog.returns_ofExcept hx

variable (p strat) in
theorem run_fetchJson (r : Request) (st : St) (t : τ) :
    (fetchJson r).run (alone p strat) (st, t) =
      ((strat (.fetch r) t).1.bind fun res => parseJson (some res.body),
        (st, (strat (.fetch r) t).2)) := by
  have hask : (attempt (ask (.fetch r))).run (alone p strat) (st, t) =
      ((strat (.fetch r) t).1, (st, (strat (.fetch r) t).2)) :=
    run_attempt (run_ask _ _ _)
  cases hres : (strat (.fetch r) t).1 with
  | error e =>
      rw [hres] at hask
      exact Async.Prog.run_bind_error hask
  | ok res =>
      rw [hres] at hask
      exact (Async.Prog.run_bind_ok hask).trans (Async.Prog.run_ofExcept _ _)

end Alone

end Nexus
