import NexusErebus.Buttons
import NexusErebus.Workers

/-!
# Where the workers send their messages

worker.js ends a job with a message to the user over HTTP.  The Telegram client learns the chat of
a user with every update and hands it to `saveChatId`, which index.js gives as a function that does
nothing.  So the worker has no chat to look up, and it passes the handle for one.

Telegram takes the handle for a chat if it is the id of one, as it is for an account without a user
name in the private chat with the bot.  `notified_iff` says that the message reaches the latest
chat of the user in that case only, and after jobs for the language model only: a trade stops at
the key of the user and sends nothing.
-/

namespace Nexus

open Async Text

/-! ## The job for the language model -/

/-- The data of a job in the queue `llm`. -/
structure LlmJob where
  text : Str
  handle : Str

section

variable (env : Env)

/-- The request to the language model. -/
def llmRequest (text : Str) : Request :=
  ⟨env.ollamaUrl, "POST", .text (Json.stringify (.obj [("model", .str env.ollamaModel),
    ("prompt", .str (env.persona ++ "\nGoals: " ++ env.goals ++ "\n\nUser: " ++ text.text ++
      "\nAI:")),
    ("stream", .bool false)]))⟩

/-- What the language model says. -/
def askModel (text : Str) : Prog String := do
  let j ← fetchJson (llmRequest env text)
  let response ← prop (some j) "response"
  trimmed response

/-- The handler of worker.js for the queue `llm`. -/
def workerLlm (job : LlmJob) : Prog Unit := do
  let reply ← askModel env job.text
  await (notifyTelegram env job.handle reply)

/-- What Telegram is told: the chat and the text. -/
def notice (chatId : Str) (text : String) : Json :=
  .obj ((match chatId with | some id => [("chat_id", .str id)] | none => []) ++
    [("text", .str text), ("parse_mode", .str "Markdown")])

/-- The request that tells a chat. -/
def notification (chatId : Str) (text : String) : Request :=
  ⟨notifyUrl env, "POST", .text (Json.stringify (notice chatId text))⟩

/-- A job of worker.js. -/
inductive WorkerJob where
  | trade (job : TradeJob)
  | llm (job : LlmJob)

def WorkerJob.handle : WorkerJob → Str
  | .trade job => job.handle
  | .llm job => job.handle

def WorkerJob.body : WorkerJob → Prog Unit
  | .trade job => workerTrades env job
  | .llm job => workerLlm env job

/-! ## The chat of a user -/

/-- The chat in which an update was made for a handle: by `/start` or another command, in a private
chat, or by a button. -/
def Update.chatFor (h : String) : Update → Option String
  | .start sender chat => if sender.handle = h then some chat.id else none
  | .press _ chat _ data _ => if (readData data).2 = some h then some chat.id else none
  | .text sender chat said _ =>
      if sender.handle = h ∧ (chat.isPrivate = true ∨ startsWith said "/" = true) then some chat.id
      else none

/-- The chat of the latest such update. -/
def latestChat (h : String) (updates : List Update) : Option String :=
  updates.reverse.findSome? (Update.chatFor h)

def Ev.update : Ev → Option Update
  | .telegram u => some u
  | _ => none

/-- A run of the agent and the API server, from any state.  Its events are in the order they came
in, and their programs may overlap. -/
def AgentRun : Type _ :=
  {w : World (machine env).calls // (machine env).calls.Reach (fun s => s.2 = []) w}

variable {env}

/-- The updates of a run. -/
def AgentRun.updates (run : AgentRun env) : List Update := run.1.st.2.filterMap Ev.update

/-- The state a run ends in. -/
def AgentRun.state (run : AgentRun env) : St := run.1.st.1

variable (env)

/-- Among some commands there is a message to a chat, and none to another. -/
structure Notifies (chat : String) (cmds : List Cmd) : Prop where
  sent : ∃ text, Cmd.fetch (notification env (some chat) text) ∈ cmds
  only : ∀ id text, Cmd.fetch (notification env id text) ∈ cmds → id = some chat

end

/-! ## What a job sends -/

section

variable {env : Env}

/-- The chat of a message can be read off it. -/
theorem field_notice (id : Str) (text : String) :
    (notice id text).Plain ∧ (notice id text).field "chat_id" = id.map Json.str := by
  cases id with
  | none => exact ⟨⟨trivial, trivial, trivial⟩, rfl⟩
  | some id => exact ⟨⟨trivial, trivial, trivial, trivial⟩, rfl⟩

theorem stringify_inj {j j' : Json} (hj : j.Plain) (hj' : j'.Plain)
    (h : Json.stringify j = Json.stringify j') : j = j' := by
  have hparse := Json.parse_stringify hj
  rw [h, Json.parse_stringify hj'] at hparse
  exact (Option.some.inj hparse).symm

theorem notification_inj {id id' : Str} {text text' : String}
    (h : notification env id text = notification env id' text') : id = id' := by
  obtain ⟨hplain, hid⟩ := field_notice id text
  obtain ⟨hplain', hid'⟩ := field_notice id' text'
  have hbody := stringify_inj hplain hplain' (Body.text.inj (Request.mk.inj h).2.2)
  rw [hbody, hid'] at hid
  exact (Option.map_injective (fun _ _ => Json.str.inj) hid).symm

theorem llmRequest_ne (id : Str) (text : String) (said : Str) :
    notification env id text ≠ llmRequest env said := by
  intro h
  have hbody := stringify_inj (field_notice id text).1 (by simp [Json.Plain, Json.PlainMembers])
    (Body.text.inj (Request.mk.inj h).2.2)
  have hmodel := congrArg (Json.field "model") hbody
  cases id with
  | none => cases hmodel
  | some id => cases hmodel

/-- The text in a value, trimmed. -/
def saidIn : Option Json → Option String
  | some (.str said) => some (trim said)
  | _ => none

/-- The text in a response of the language model. -/
def llmReply (res : Except Err Response) : Option String :=
  (res.bind fun res => parseJson (some res.body)).toOption.bind fun j =>
    saidIn (j.field "response")

variable {τ : Type} {p : Pid} {strat : (c : Cmd) → τ → c.Ans × τ}

theorem trimmed_run_iff {σ : Type} {step : (c : Cmd) → σ → c.Res × σ} {v : Option Json} {s : σ}
    {said : String} : (∃ s', (trimmed v).run step s = (.ok said, s')) ↔ saidIn v = some said := by
  cases v with
  | none => simp [trimmed, typeError, saidIn]
  | some v => cases v <;> simp [trimmed, typeError, saidIn]

/-- The language model is asked with success if and only if there is a text in its response. -/
theorem askModel_run {text : Str} {st : St} {t : τ} {reply : String} :
    (∃ s', (askModel env text).run (alone p strat) (st, t) = (.ok reply, s')) ↔
      llmReply (strat (.fetch (llmRequest env text)) t).1 = some reply := by
  rw [askModel, Prog.bind_eq, Prog.run_bind, run_fetchJson, llmReply]
  cases (strat (.fetch (llmRequest env text)) t).1.bind fun res => parseJson (some res.body) with
  | error e => simp [Except.toOption]
  | ok j =>
      simp only [Except.toOption, Option.bind_some]
      by_cases hnull : j = .null
      · rw [hnull]
        simp [Json.field, saidIn, prop, typeError, Prog.bind_eq, Prog.bind]
      · have hprop : prop (some j) "response" = .ret (j.field "response") := by
          cases j with
          | null => exact absurd rfl hnull
          | _ => rfl
        rw [hprop]
        exact trimmed_run_iff

/-- A job for the language model sends a message to its handle, if the model says something. -/
theorem workerLlm_sends {job : LlmJob} {id : Str} {st : St} {t : τ} :
    (∃ text, Cmd.fetch (notification env id text) ∈
        (workerLlm env job).trace (alone p strat) (st, t)) ↔
      id = job.handle ∧ ∃ reply,
        llmReply (strat (.fetch (llmRequest env job.text)) t).1 = some reply := by
  have hasks : (askModel env job.text).Issues fun c : Cmd => c = .fetch (llmRequest env job.text) :=
    Prog.issues_bind (issues_fetchJson rfl) fun j => Prog.issues_bind (issues_prop _ _) issues_trimmed
  have hnotify : ∀ reply s', (await (notifyTelegram env job.handle reply)).trace (alone p strat) s' =
      [.fetch (notification env job.handle reply), .tick] := fun _ _ => rfl
  constructor
  · rintro ⟨text, hmem⟩
    obtain hask | ⟨reply, s', hrun, hmem⟩ := Prog.mem_trace_bind_iff.mp hmem
    · exact absurd (Cmd.fetch.inj (hasks.trace _ hask)) (llmRequest_ne id text job.text)
    · rw [hnotify] at hmem
      have hsame : notification env id text = notification env job.handle reply := by
        simpa using hmem
      exact ⟨notification_inj hsame, reply, askModel_run.mp ⟨s', hrun⟩⟩
  · rintro ⟨rfl, reply, hreply⟩
    obtain ⟨s', hrun⟩ := (@askModel_run env τ p strat job.text st t reply).mpr hreply
    refine ⟨reply, Prog.mem_trace_bind_iff.mpr (.inr ⟨reply, s', hrun, ?_⟩)⟩
    rw [hnotify]
    exact List.mem_cons_self ..

/-- A trade sends nothing, since the key is not loaded. -/
theorem workerTrades_sends_nothing (job : TradeJob) (r : Request) (st : St) (t : τ) :
    Cmd.fetch r ∉ (workerTrades env job).trace (alone p strat) (st, t) := by
  have hload : (loadKey env job.handle).Issues fun c : Cmd => ∀ r, c ≠ .fetch r := by
    refine Prog.issues_bind (issues_await nofun (issues_getUser nofun)) fun data => ?_
    cases data with
    | none => exact .throw _
    | some data =>
        refine Prog.issues_bind (issues_jsonParse _) fun v => ?_
        exact Prog.issues_bind (Prog.issues_ofExcept _) fun _ => Prog.issues_ofExcept _
  intro hmem
  obtain ⟨t', hrun⟩ := loadKey_run env p strat job.handle st t
  obtain hmem | ⟨kp, s', hok, -⟩ := Prog.mem_trace_bind_iff.mp hmem
  · exact hload.trace _ hmem r rfl
  · cases hrun.symm.trans hok

end

/-- The message of a job reaches the latest chat of its handle, and no other, if and only if the
job is one for the language model, which says something, and the handle is the id of that chat. -/
theorem notified_iff (env : Env) (run : AgentRun env) {τ : Type} (strat : (c : Cmd) → τ → c.Ans × τ)
    (t : τ) (job : WorkerJob) {h chat : String} (hjob : job.handle = some h)
    (hchat : latestChat h run.updates = some chat) :
    Notifies env chat ((job.body env).trace (alone .worker strat) (run.state, t)) ↔
      (latestChat h run.updates = some h ∧ ∃ text, job = .llm ⟨text, some h⟩ ∧
        ∃ reply, llmReply (strat (.fetch (llmRequest env text)) t).1 = some reply) := by
  cases job with
  | trade job =>
      refine iff_of_false (fun hn => ?_) (by simp)
      obtain ⟨text, hsent⟩ := hn.sent
      exact workerTrades_sends_nothing job _ _ _ hsent
  | llm job =>
      obtain ⟨text, handle⟩ := job
      cases hjob
      rw [hchat]
      constructor
      · intro hn
        obtain ⟨hid, hreply⟩ := workerLlm_sends.mp hn.sent
        exact ⟨hid, text, rfl, hreply⟩
      · rintro ⟨hid, _, ⟨⟩, hreply⟩
        exact ⟨workerLlm_sends.mpr ⟨hid, hreply⟩,
          fun id said hmem => (workerLlm_sends.mp ⟨said, hmem⟩).1.trans hid.symm⟩

namespace Sample

/-- An account without a user name. -/
def carolTg : TgAccount := ⟨103, none, some "Carol"⟩

/-- The private chat of an account. -/
def privately (a : TgAccount) : Chat := ⟨toString a.id, true⟩

/-- The agent boots, and an account starts the bot in private. -/
def starting (a : TgAccount) : List (machine env).calls.Choice :=
  serve _ (online alice) (0, Ev.boot) 0 3 ++
    serve _ (online alice) (1, Ev.telegram (.start a (privately a))) 1 3

/-- A language model that greets. -/
def greeter : (c : Cmd) → Unit → c.Ans × Unit
  | .fetch _, t => (.ok ⟨true, "OK", "\x7b\"response\":\" hello \"\x7d"⟩, t)
  | c, t => (offline c, t)

theorem starts {a : TgAccount} {h chat : String}
    (hrun : (Machine.nexts (M := (machine env).calls) ⟨(St.fresh env 0, []), [], []⟩ (starting a)).any
      (fun w => latestChat h (w.st.2.filterMap Ev.update) = some chat) = true) :
    ∃ run : AgentRun env, latestChat h run.updates = some chat := by
  obtain ⟨w, hreach, hchat⟩ := Machine.Reach.of_run (M := (machine env).calls)
    (I := fun s => s.2 = []) rfl hrun
  exact ⟨⟨w, hreach⟩, of_decide_eq_true hchat⟩

/-- The chat of `alice` is `101`, and the message for them is sent to `alice`. -/
theorem alice_not_notified : ∃ run : AgentRun env, latestChat "alice" run.updates = some "101" ∧
    (∃ text, Cmd.fetch (notification env (some "alice") text) ∈
      ((WorkerJob.llm ⟨some "hi", some "alice"⟩).body env).trace (alone .worker greeter)
        (run.state, ())) ∧
    ¬ Notifies env "101" (((WorkerJob.llm ⟨some "hi", some "alice"⟩).body env).trace
      (alone .worker greeter) (run.state, ())) := by
  obtain ⟨run, hchat⟩ := @starts aliceTg "alice" "101" (by decide +kernel)
  refine ⟨run, hchat, workerLlm_sends.mpr ⟨rfl, "hello", by decide +kernel⟩, fun hn => ?_⟩
  have hid := (workerLlm_sends.mp hn.sent).1
  simp at hid

/-- The chat of an account without a user name has the name of its handle. -/
theorem carol_notified : ∃ run : AgentRun env, latestChat "103" run.updates = some "103" ∧
    Notifies env "103" (((WorkerJob.llm ⟨some "hi", some "103"⟩).body env).trace
      (alone .worker greeter) (run.state, ())) := by
  obtain ⟨run, hchat⟩ := @starts carolTg "103" "103" (by decide +kernel)
  refine ⟨run, hchat, ?_⟩
  refine (notified_iff env run greeter () (.llm ⟨some "hi", some "103"⟩) rfl hchat).mpr ?_
  exact ⟨hchat, some "hi", rfl, "hello", by decide +kernel⟩

end Sample

end Nexus
