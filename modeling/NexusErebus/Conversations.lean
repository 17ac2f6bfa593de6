import NexusErebus.Memories
import NexusErebus.Portfolios

/-!
# How a conversation is rendered

`dispatchAI` stores a new message in the stream of the conversation, reads the last ten entries of
the stream, and makes a prompt of them.  It calls every entry something the user said, since the
stream does not say who spoke, and it puts the new message behind the entries, of which it is the
last.  The Telegram view of the same stream prints the entries themselves, and an entry is an
object, whose text says nothing.

`prompt_never_faithful` says that no prompt renders its conversation: each message once, with the
speaker in front of it.
-/

namespace Nexus

open Async Text

/-! ## Conversations -/

inductive Speaker where
  | user
  | ai

/-- What was said, by whom and when. -/
structure Turn where
  speaker : Speaker
  text : String
  ts : Nat

/-- The entry of the stream. -/
def Turn.fields (t : Turn) : List (String × String) :=
  [("text", t.text), ("ts", Number.text (some t.ts))]

def Speaker.label : Speaker → String
  | .user => "User: "
  | .ai => "AI: "

/-- A conversation goes on with a message of the user. -/
def withNew (turns : List Turn) (text : String) (ts : Nat) : List Turn :=
  turns ++ [⟨.user, text, ts⟩]

/-- A line of a faithful rendering. -/
def Turn.line (t : Turn) : String := t.speaker.label ++ t.text ++ "\n"

/-- The stream of a handle holds a conversation. -/
def HoldsTurns (st : St) (now : Nat) (handle : Str) (turns : List Turn) : Prop :=
  (st.redis.stream now (memoryKey handle)).1.map Prod.snd = turns.map Turn.fields

section

variable (env : Env)

/-- The first half of `converse`: it ends with the prompt. -/
def conversePrompt (text : String) (handle : Str) : Prog String := do
  let ts : Nat ← ask .now
  await (remember handle text ts)
  let history ← await («recall» handle 10)
  let priceNow ← await (fetchSolPrice env)
  let port ← await (getPortfolio env handle)
  return env.persona ++ "\nGoals: " ++ env.goals ++ "\n\n" ++ aiContext history text priceNow port

/-- The second half: the prompt is sent, and the answer is passed on and stored. -/
def answerPrompt (handle : Str) (reply : Option Reply) (prompt : String) : Prog Unit := do
  let j ← fetchJson ⟨env.ollamaUrl, "POST", .text (Json.stringify (.obj
    [("model", .str env.ollamaModel), ("prompt", .str prompt), ("stream", .bool false)]))⟩
  let response ← prop (some j) "response"
  let said ← trimmed response
  .spawn (answer "reply" reply said)
  let ts : Nat ← ask .now
  await (remember handle said ts)

theorem converse_eq (text : String) (handle : Str) (reply : Option Reply) :
    converse env text handle reply =
      (conversePrompt env text handle).bind (answerPrompt env handle reply) := by
  simp only [conversePrompt, Prog.bind_eq, Prog.bind_assoc']
  rfl

/-- The prompt renders the conversation: between the goals and the facts it has every message once,
in order, with the speaker. -/
def FaithfulPrompt (turns : List Turn) (prompt : String) : Prop :=
  ∃ facts, prompt = env.persona ++ "\nGoals: " ++ env.goals ++ "\n\n" ++
    join "" (turns.map Turn.line) ++ "\n### Real-time facts\n" ++ facts

/-- The view of the last entries lists their texts. -/
def FaithfulView (name : String) (turns : List Turn) (view : String) : Prop :=
  view = "*" ++ name ++ ", conversation history:*\n" ++ if turns = [] then "_No history yet._"
    else join "\n" (turns.mapIdx fun i t => toString (i + 1) ++ ". " ++ t.text)

/-- A conversation, up to a new message of the user, is rendered faithfully in the prompt and in the
view. -/
structure RenderedFaithfully (turns : List Turn) (prompt name : String) : Prop where
  prompt : FaithfulPrompt env (turns.rtake 10) prompt
  view : FaithfulView name (turns.rtake 5)
    (historyText name (((turns.map Turn.fields).rtake 5).map (Assoc.setAll [])))

end

section

variable {env : Env} {τ : Type} {p : Pid} {strat : (c : Cmd) → τ → c.Ans × τ}

/-- The stream of a handle after a message was stored. -/
theorem remember_run (handle : Str) (text : String) (ts : Nat) (st : St) (t : τ) :
    ∃ st' t', (remember handle text ts).run (alone p strat) (st, t) = (.ok (), (st', t')) ∧
      st'.clock = st.clock ∧ (st'.redis.stream st.clock (memoryKey handle)).1.map Prod.snd =
        (st.redis.stream st.clock (memoryKey handle)).1.map Prod.snd ++
          [[("text", text), ("ts", Number.text (some ts))]] := by
  refine ⟨_, _, (Prog.run_bind_ok (run_redis _ _ _ _ _)).trans (run_redis _ _ _ _ _), rfl, ?_⟩
  have hentries := Redis.stream_expire st.clock (memoryKey handle) (by decide : 0 < memoryTtl)
    (Redis.exec st.clock (.xadd (memoryKey handle) [("text", text), ("ts", Number.text (some ts))])
      st.redis).2
  rw [Redis.stream_xadd] at hentries
  exact (congrArg (List.map Prod.snd) hentries).trans List.map_append

/-- What `converse` makes of the entries is not a faithful rendering, however it goes on. -/
theorem said_ne_rendered (turns : List Turn) (rest facts : String) :
    join "" (turns.map fun t => "User: " ++ t.text ++ "\n") ++ ("User: " ++ rest) ≠
      join "" (turns.map Turn.line) ++ ("\n" ++ facts) := by
  have hhead : ∀ {a b : String}, a = b → a.toList.head? = b.toList.head? := fun h => by rw [h]
  induction turns with
  | nil =>
      intro h
      have := hhead h
      simp [join] at this
  | cons t turns ih =>
      intro h
      rw [List.map_cons, List.map_cons, join_empty_cons, join_empty_cons] at h
      cases hs : t.speaker with
      | user =>
          have hline : t.line = "User: " ++ t.text ++ "\n" := by rw [Turn.line, hs, Speaker.label]
          rw [hline] at h
          generalize "User: " ++ t.text ++ "\n" = l at h
          rw [String.append_assoc, String.append_assoc] at h
          exact ih ((String.append_right_inj l).mp h)
      | ai =>
          rw [Turn.line, hs, Speaker.label] at h
          have := hhead h
          simp at this

/-- The prompt, and the entries it is made of. -/
theorem conversePrompt_run {text : String} {handle : Str} {s s' : St × τ} {turns : List Turn}
    {prompt : String} (hturns : HoldsTurns s.1 (timeOf strat s) handle turns)
    (h : (conversePrompt env text handle).run (alone p strat) s = (.ok prompt, s')) :
    ∃ price port, prompt = env.persona ++ "\nGoals: " ++ env.goals ++ "\n\n" ++ aiContext
      ((((withNew turns text (timeOf strat s)).map Turn.fields).rtake 10).map (Assoc.setAll []))
        text price port := by
  rw [conversePrompt, Prog.bind_eq, Prog.run_bind_ok (run_now p s)] at h
  obtain ⟨st₁, t₁, hremember, hclock, hstream⟩ := @remember_run τ p strat handle text
    (timeOf strat s) { s.1 with clock := timeOf strat s } (strat .now s.2).2
  obtain ⟨t₂, hawait⟩ := run_await hremember
  rw [Prog.bind_eq, Prog.run_bind_ok hawait] at h
  obtain ⟨t₃, hrecall⟩ := run_await (recall_run p strat handle 10 st₁ t₂)
  rw [Prog.bind_eq, Prog.run_bind_ok hrecall] at h
  obtain ⟨price, s₄, -, h⟩ := Prog.run_bind_eq_ok h
  obtain ⟨port, s₅, -, h⟩ := Prog.run_bind_eq_ok h
  refine ⟨price, port, ?_⟩
  have hentries : (st₁.redis.stream st₁.clock (memoryKey handle)).1.map Prod.snd =
      (withNew turns text (timeOf strat s)).map Turn.fields := by
    rw [hclock, withNew, List.map_append, ← hturns]
    exact hstream
  rw [hentries] at h
  exact (Except.ok.inj (congrArg Prod.fst h)).symm

/-- The entries come first, and then the new message. -/
theorem aiContext_eq (history : List (List (String × String))) (text : String)
    (price : Option Price) (port : Portfolio) : ∃ rest, aiContext history text price port =
      join "" (history.map fun msg => "User: " ++ Str.text (msg.lookup "text") ++ "\n") ++
        ("User: " ++ rest) := by
  simp only [aiContext, String.append_assoc]
  exact ⟨_, rfl⟩

theorem said_eq (turns : List Turn) :
    (((turns.map Turn.fields).rtake 10).map (Assoc.setAll [])).map
        (fun msg => "User: " ++ Str.text (msg.lookup "text") ++ "\n") =
      (turns.rtake 10).map fun t => "User: " ++ t.text ++ "\n" := by
  have hline : ∀ t : Turn, ((Assoc.setAll [] t.fields).lookup "text") = some t.text := fun t => by
    rw [Assoc.lookup_setAll]
    rfl
  simp [List.rtake, List.map_drop, Function.comp_def, hline]

end

/-- However a conversation has gone, the prompt for a new message does not render it. -/
theorem prompt_never_faithful (env : Env) {τ : Type} (p : Pid) (strat : (c : Cmd) → τ → c.Ans × τ)
    (text : String) (handle : Str) (name : String) {s s' : St × τ} {turns : List Turn}
    {prompt : String} (hturns : HoldsTurns s.1 (timeOf strat s) handle turns)
    (hprompt : (conversePrompt env text handle).run (alone p strat) s = (.ok prompt, s')) :
    ¬ RenderedFaithfully env (withNew turns text (timeOf strat s)) prompt name := by
  rintro ⟨⟨facts, hfaithful⟩, -⟩
  obtain ⟨price, port, hsent⟩ := conversePrompt_run hturns hprompt
  obtain ⟨rest, hcontext⟩ := aiContext_eq ((((withNew turns text (timeOf strat s)).map
    Turn.fields).rtake 10).map (Assoc.setAll [])) text price port
  rw [hsent, hcontext, said_eq] at hfaithful
  generalize env.persona ++ "\nGoals: " ++ env.goals ++ "\n\n" = head at hfaithful
  have hsplit : "\n### Real-time facts\n" = "\n" ++ "### Real-time facts\n" := rfl
  refine said_ne_rendered _ rest ("### Real-time facts\n" ++ facts)
    ((String.append_right_inj head).mp (hfaithful.trans ?_))
  simp only [hsplit, String.append_assoc]

namespace Sample

/-- `alice` has been greeted. -/
def greeted : St :=
  { depositor with
    redis := { Redis.Store.empty with
      streams := fun key => if key = memoryKey (some "alice") then
        ([(0, (⟨.user, "hi", 1⟩ : Turn).fields), (1, (⟨.ai, "hello", 2⟩ : Turn).fields)], none)
      else ([], none) } }

/-- The turns so far. -/
def greeting : List Turn := [⟨.user, "hi", 1⟩, ⟨.ai, "hello", 2⟩]

theorem greeted_holds : HoldsTurns greeted (timeOf market (greeted, ())) (some "alice") greeting :=
  rfl

/-- What the prompt begins with when `alice` says goodbye. -/
def goodbye : String :=
  env.persona ++ "\nGoals: " ++ env.goals ++ "\n\n" ++
    "User: hi\nUser: hello\nUser: bye\nUser: bye\n\n"

theorem goodbye_sent : ∃ prompt s',
    (conversePrompt env "bye" (some "alice")).run (alone .agent market) (greeted, ()) =
      (.ok prompt, s') ∧ startsWith prompt goodbye = true := by
  have hsent : ((conversePrompt env "bye" (some "alice")).run (alone .agent market)
      (greeted, ())).1.toOption.isSome = true := by decide +kernel
  obtain ⟨prompt, s', hrun⟩ : ∃ prompt s', (conversePrompt env "bye" (some "alice")).run
      (alone .agent market) (greeted, ()) = (.ok prompt, s') := by
    generalize (conversePrompt env "bye" (some "alice")).run (alone .agent market) (greeted, ()) = r
      at hsent ⊢
    obtain ⟨e | prompt, s'⟩ := r
    · cases hsent
    · exact ⟨prompt, s', rfl⟩
  -- only the beginning of the prompt has to be looked at
  obtain ⟨price, port, rfl⟩ := conversePrompt_run greeted_holds hrun
  refine ⟨_, s', hrun, ?_⟩
  rw [goodbye]
  generalize env.persona ++ "\nGoals: " ++ env.goals ++ "\n\n" = head
  have hsaid : ∃ rest, aiContext ((((withNew greeting "bye" (timeOf market (greeted, ()))).map
      Turn.fields).rtake 10).map (Assoc.setAll [])) "bye" price port =
        "User: hi\nUser: hello\nUser: bye\nUser: bye\n\n" ++ rest := by
    have hsplit : "User: hi\nUser: hello\nUser: bye\nUser: bye\n\n### Real-time facts\nSOL price: $" =
        "User: hi\nUser: hello\nUser: bye\nUser: bye\n\n" ++
          "### Real-time facts\nSOL price: $" := rfl
    simp only [aiContext, said_eq]
    simp only [withNew, greeting, List.rtake, join, String.append_assoc, List.cons_append,
      List.nil_append, List.length_cons, List.length_nil, Nat.reduceAdd, Nat.reduceSub,
      List.drop_zero, List.map_cons, List.map_nil,
      String.reduceAppend]
    rw [hsplit]
    exact ⟨_, String.append_assoc⟩
  obtain ⟨rest, hrest⟩ := hsaid
  rw [hrest, ← String.append_assoc]
  exact startsWith_append _ _

/-- The greeting of the agent is put in the mouth of `alice`, who says goodbye twice, and the view
of the conversation shows none of its words. -/
theorem goodbye_twice : ∃ prompt s',
    (conversePrompt env "bye" (some "alice")).run (alone .agent market) (greeted, ()) =
      (.ok prompt, s') ∧ startsWith prompt goodbye = true ∧
    historyText "alice" ((greeting.map Turn.fields).map (Assoc.setAll [])) =
      "*alice, conversation history:*\n1. [object Object]\n2. [object Object]" ∧
    ¬ RenderedFaithfully env (withNew greeting "bye" (timeOf market (greeted, ()))) prompt
      "alice" := by
  obtain ⟨prompt, s', hrun, htells⟩ := goodbye_sent
  refine ⟨prompt, s', hrun, htells, by decide +kernel, fun h => ?_⟩
  exact absurd h.view (by rw [FaithfulView]; decide +kernel)

theorem goodbye_unfaithful : HoldsTurns greeted (timeOf market (greeted, ())) (some "alice")
      greeting ∧
    ∃ prompt s', (conversePrompt env "bye" (some "alice")).run (alone .agent market)
        (greeted, ()) = (.ok prompt, s') ∧
      ¬ RenderedFaithfully env (withNew greeting "bye" (timeOf market (greeted, ()))) prompt
        "alice" := by
  obtain ⟨prompt, s', hrun, -⟩ := goodbye_sent
  exact ⟨greeted_holds, prompt, s', hrun,
    prompt_never_faithful env .agent market "bye" (some "alice") "alice" greeted_holds hrun⟩

end Sample

end Nexus
