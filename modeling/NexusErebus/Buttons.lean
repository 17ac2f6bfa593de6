import NexusErebus.Footprint
import NexusErebus.Sample

/-!
# Whose buttons

A button carries a handle in its data, and its action is carried out for that handle.  This
module asks for whom a press reads or changes user state (`Cmd.about`).

It is not always the account that pressed the button.  The menu of one user can be pressed by
everybody in a group (`press_foreign`), and a quick trade loses the handle on its way to
`handleMessage`.  In the runs in which an account only presses buttons of its own, quick trades
apart, every press acts for the account that pressed (`press_own`).
-/

namespace Nexus

open Async Text

/-! ## What a command is about -/

/-- The handle in a key of the store. -/
def keyOwner (key : String) : Option String :=
  ["user:", "memory:", "portfolio_history:", "wallet:"].findSome? fun start => after start key

/-- The handle a command to Redis is about. -/
def redisAbout : Redis.Cmd → Option String
  | .hset key _ | .hget key _ | .hgetall key | .get key | .setex key _ _ | .xadd key _
  | .xrevrange key _ | .expire key _ | .incr key | .del key => keyOwner key
  | .sadd key member => if key = usersSetKey then some member else keyOwner key
  | .smembers _ | .publish _ _ => none

/-- The handle whose state a command reads or changes. -/
def Cmd.about : Cmd → Option Str
  | .redis c | .tryRedis c => (redisAbout c).map some
  | .addJob job => some job.handle
  | .usersGet h | .usersSet h _ | .usersAssign h _ | .watched h | .watch h | .manualHas h
  | .manualAdd h | .manualDelete h | .configGet h | .configSet h _ | .note h _
  | .generate (.wallet h) => some h
  | _ => none

/-- The command is about no user but one. -/
def Own (u : String) (c : Cmd) : Prop := ∀ h, c.about = some h → h = some u

theorem keyOwner_userKey (u : String) : keyOwner (userKey (some u)) = some u := by
  simp only [keyOwner, userKey, Str.text_some, List.findSome?, after_append]

theorem keyOwner_memoryKey (u : String) : keyOwner (memoryKey (some u)) = some u := by
  have hm : ("memory:" ++ u).toList.head? = some 'm' :=
    head?_of_startsWith (startsWith_append _ _) rfl
  change keyOwner ("memory:" ++ u) = some u
  simp only [keyOwner, List.findSome?, after_append,
    after_of_head_ne "user:" rfl hm (by decide)]

theorem keyOwner_portfolioKey (u : String) : keyOwner (portfolioKey (some u)) = some u := by
  have hp : ("portfolio_history:" ++ u).toList.head? = some 'p' :=
    head?_of_startsWith (startsWith_append _ _) rfl
  change keyOwner ("portfolio_history:" ++ u) = some u
  simp only [keyOwner, List.findSome?, after_append,
    after_of_head_ne "user:" rfl hp (by decide),
    after_of_head_ne "memory:" rfl hp (by decide)]

theorem keyOwner_launchWalletKey (u : String) : keyOwner (launchWalletKey (some u)) = some u := by
  have hw : ("wallet:" ++ u).toList.head? = some 'w' :=
    head?_of_startsWith (startsWith_append _ _) rfl
  change keyOwner ("wallet:" ++ u) = some u
  simp only [keyOwner, List.findSome?, after_append,
    after_of_head_ne "user:" rfl hw (by decide),
    after_of_head_ne "memory:" rfl hw (by decide),
    after_of_head_ne "portfolio_history:" rfl hw (by decide)]

/-- A key that starts like none of the four. -/
theorem keyOwner_eq_none {key start : String} {c : Char} (hkey : startsWith key start = true)
    (hstart : start.toList.head? = some c) (hne : c ∉ ['u', 'm', 'p', 'w']) :
    keyOwner key = none := by
  have hc := head?_of_startsWith hkey hstart
  simp only [List.mem_cons, List.not_mem_nil, or_false, not_or] at hne
  obtain ⟨hu, hm, hp, hw⟩ := hne
  simp only [keyOwner, List.findSome?, after_of_head_ne "user:" rfl hc (Ne.symm hu),
    after_of_head_ne "memory:" rfl hc (Ne.symm hm),
    after_of_head_ne "portfolio_history:" rfl hc (Ne.symm hp),
    after_of_head_ne "wallet:" rfl hc (Ne.symm hw)]

theorem redisAbout_plain {u : String} {c : Redis.Cmd} (hc : plainRedis (some u) c) :
    redisAbout c = none ∨ redisAbout c = some u := by
  cases c with
  | hset key fields =>
      rcases hc.1 with rfl | hkey
      · exact .inr (keyOwner_userKey u)
      · exact .inl (keyOwner_eq_none hkey rfl (by decide))
  | hget | hgetall | smembers | incr | del => exact hc.elim
  | sadd key member =>
      obtain ⟨rfl, rfl⟩ := hc
      exact .inr (by simp [redisAbout])
  | get key =>
      rcases hc with hkey | rfl
      · exact .inl (keyOwner_eq_none hkey rfl (by decide))
      · exact .inr (keyOwner_launchWalletKey u)
  | setex key seconds value => exact .inl (keyOwner_eq_none hc rfl (by decide))
  | publish => exact .inl rfl
  | xadd key fields =>
      rcases hc with rfl | rfl
      · exact .inr (keyOwner_memoryKey u)
      · exact .inr (keyOwner_portfolioKey u)
  | xrevrange key count =>
      cases hc
      exact .inr (keyOwner_memoryKey u)
  | expire key seconds =>
      cases hc
      exact .inr (keyOwner_memoryKey u)

theorem own_plain {u : String} {c : Cmd} (hc : c.plain (some u)) : Own u c := by
  intro h ha
  cases c with
  | redis c | tryRedis c =>
      rcases redisAbout_plain hc with hn | hs
      · simp [Cmd.about, hn] at ha
      · simpa [Cmd.about, hs] using ha.symm
  | addJob | usersGet | usersAssign | manualHas | manualAdd | manualDelete | configGet | configSet =>
      cases ha
      exact hc
  | generate use =>
      cases hc
      cases ha
  | usersSet | watched | watch | note => exact hc.elim
  | _ => cases ha

theorem own_of_about {u : String} {c : Cmd} (hc : c.about = some (some u)) : Own u c :=
  fun _ ha => Option.some.inj (ha.symm.trans hc)

theorem own_ensure (env : Env) (u : String) : (ensure env (some u)).Issues (Own u) :=
  issues_ensure (fun _ hc => own_plain (plain_of_errand hc)) (own_of_about rfl) fun _ =>
    own_of_about rfl

theorem own_walletOf (env : Env) (u : String) : (walletOf env (some u)).Issues (Own u) :=
  issues_walletOf (fun _ hc => own_plain (plain_of_errand hc)) (own_of_about rfl)
    (fun _ => own_of_about rfl) fun _ => own_of_about rfl

/-! ## Presses -/

/-- The handle of the account that pressed a button. -/
def Ev.presser : Ev → Option String
  | .telegram (.press sender _ _ _ _) => some sender.handle
  | _ => none

/-- The action does nothing that concerns a user, or it is for the account that presses the
button and is not a quick trade. -/
def ownAction (sender : TgAccount) : Option Action → Str → Bool
  | none, _ => true
  | some a, handle => a.neutral || handle = some sender.handle && !a.quick

/-- The condition on an event: a press is of an own button. -/
def pressesOwn : Ev → St → Bool
  | .telegram (.press sender _ _ data _), _ =>
      ownAction sender (readData data).1 (readData data).2
  | _, _ => true

/-- The runs in which accounts only press their own buttons. -/
def ownMachine (env : Env) : Machine sig Err :=
  (machine env).guarded pressesOwn fun _ _ _ => true

/-- A press of an own button acts for the account that pressed. -/
theorem own_onAction (env : Env) (sender : TgAccount) (chat : Chat) (msgId : Nat) (time : String)
    {action : Option Action} {handle : Str} (hown : ownAction sender action handle = true) :
    (onAction env sender chat msgId time action handle).Issues (Own sender.handle) := by
  have hplain : ∀ {α : Type} {q : Prog α}, q.Issues (Cmd.plain (some sender.handle)) →
      q.Issues (Own sender.handle) := Prog.issues_mono fun _ => own_plain
  refine Prog.issues_bind (hplain (issues_ask trivial)) fun _ => ?_
  refine Prog.issues_bind (hplain (Prog.issues_outcome (issues_attempt (issues_ask trivial))))
    fun _ => ?_
  cases action with
  | none => exact .ret ()
  | some a =>
      cases hneutral : a.neutral with
      | true => exact hplain (plain_errand (errand_neutral chat msgId _ time handle hneutral))
      | false =>
          simp only [ownAction, hneutral, Bool.false_or, Bool.and_eq_true, decide_eq_true_eq,
            Bool.not_eq_true'] at hown
          obtain ⟨rfl, hquick⟩ := hown
          refine closed_act (Prog.closed_issues (Own sender.handle))
            (fun _ hc => issues_ask (own_plain hc)) (own_ensure env _) (own_walletOf env _)
            chat msgId _ time fun hq => ?_
          rw [hquick] at hq
          cases hq

/-- In every run in which accounts only press their own buttons, whatever a press reads or changes
belongs to the account that pressed. -/
theorem press_own (env : Env) {w : World (ownMachine env)}
    (hw : (ownMachine env).Reach (fun _ => True) w) {ev : Ev} {c : Cmd} (hx : (ev, c) ∈ w.trace)
    {u : String} (hu : ev.presser = some u) {h : Str} (hc : c.about = some h) : h = some u := by
  let pre : Ev → Cmd → Prop := fun ev c => ∀ u, ev.presser = some u → Own u c
  have hbody : ∀ ev st st', (ownMachine env).enter ev st = some st' →
      (ev.body env).Issues (pre ev) := by
    intro ev st st' henter
    cases hp : ev.presser with
    | none => exact Prog.issues_of_forall (fun c u hu => by rw [hp] at hu; cases hu) _
    | some u =>
        cases ev with
        | telegram up =>
            cases up with
            | press sender chat msgId data time =>
                have hown : pressesOwn (.telegram (.press sender chat msgId data time)) st = true :=
                  (Option.ite_none_right_eq_some.mp henter).1
                refine Prog.issues_mono ?_ (own_onAction env sender chat msgId time hown)
                intro c hc u' hu'
                cases hu'
                exact hc
            | _ => cases hp
        | _ => cases hp
  exact (Machine.Reach.trace_issues hbody hw).2 _ hx u hu h hc

namespace Sample

/-- Two accounts and a group they are in. -/
def aliceTg : TgAccount := ⟨101, some "alice", some "Alice"⟩
def bobTg : TgAccount := ⟨102, some "bob", some "Bob"⟩
def group : Chat := ⟨"-100200", false⟩

/-- A press of a button in the group. -/
def pressIn (sender : TgAccount) (data : String) : Ev :=
  .telegram (.press sender group 7 data "12:00:00")

/-- The agent boots and shows the menu of `alice` in the group. -/
def menuShown (M : Machine sig Err) (ans : (c : Cmd) → M.Ans c) (boot start : M.Ev) :
    List M.Choice :=
  serve M ans boot 0 3 ++ serve M ans start 1 3

/-- The owner of the menu asks for the balance. -/
def ownPress : List (ownMachine env).Choice :=
  menuShown _ (online alice) Ev.boot (Ev.telegram (.start aliceTg group)) ++
    serve _ (online alice) (pressIn aliceTg "BAL:alice") 2 2

/-- Somebody else asks for the balance, and the owner makes a quick trade. -/
def foreignPress : List (machine env).Choice :=
  menuShown _ (online alice) Ev.boot (Ev.telegram (.start aliceTg group)) ++
    serve _ (online alice) (pressIn bobTg "BAL:alice") 2 2 ++
    serve _ (online alice) (pressIn aliceTg "TRADE:alice") 3 3 ++
    serve _ (online alice) (pressIn aliceTg "QB:alice") 4 5

/-- The press of an account reads or changes the state of a handle. -/
def touches {M : Machine sig Err} (presser : M.Ev → Option String) (u : String) (h : Str)
    (w : World M) : Bool :=
  w.trace.any fun x => presser x.1 = some u && x.2.about = some h

/-- A press of an account queues a job for another handle. -/
def queuesForOther (u : String) : Ev × Cmd → Bool
  | (ev, .addJob job) => ev.presser = some u && job.handle ≠ some u
  | _ => false

theorem touches_iff {M : Machine sig Err} {presser : M.Ev → Option String} {u : String} {h : Str}
    {w : World M} : touches presser u h w = true ↔
      ∃ ev c, (ev, c) ∈ w.trace ∧ presser ev = some u ∧ Cmd.about c = some h := by
  simp [touches]

end Sample

section

open Sample

theorem press_own_sample :
    ∃ w ev c u h, (ownMachine env).Reach (fun _ => True) w ∧ (ev, c) ∈ w.trace ∧
      Ev.presser ev = some u ∧ Cmd.about c = some h ∧ h = some u := by
  have hrun : (Machine.nexts (M := ownMachine env) ⟨St.fresh env 0, [], []⟩ ownPress).any
      (touches Ev.presser "alice" (some "alice")) = true := by
    decide +kernel
  obtain ⟨w, hreach, ht⟩ := Machine.Reach.of_run (I := fun _ => True) trivial hrun
  obtain ⟨ev, c, hx, hu, hc⟩ := touches_iff.mp ht
  exact ⟨w, ev, c, "alice", some "alice", hreach, hx, hu, hc, press_own env hreach hx hu hc⟩

/-- In a group, a press of the balance button of another user reads the balance of that user.
And the job of a quick trade carries no handle, even if the owner of the button pressed it. -/
theorem press_foreign :
    ∃ w, (machine env).Reach (fun _ => True) w ∧
      (∃ ev c, (ev, c) ∈ w.trace ∧ Ev.presser ev = some "bob" ∧
        Cmd.about c = some (some "alice")) ∧
      ∃ ev job, (ev, Cmd.addJob job) ∈ w.trace ∧ Ev.presser ev = some "alice" ∧
        job.handle ≠ some "alice" := by
  have hrun : (Machine.nexts (M := machine env) ⟨St.fresh env 0, [], []⟩ foreignPress).any
      (fun w => touches Ev.presser "bob" (some "alice") w &&
        w.trace.any (queuesForOther "alice")) = true := by
    decide +kernel
  obtain ⟨w, hreach, hboth⟩ := Machine.Reach.of_run (I := fun _ => True) trivial hrun
  obtain ⟨hbob, hjob⟩ := Bool.and_eq_true_iff.mp hboth
  refine ⟨w, hreach, touches_iff.mp hbob, ?_⟩
  obtain ⟨⟨ev, c⟩, hx, hc⟩ := List.any_eq_true.mp hjob
  cases c with
  | addJob job => exact ⟨ev, job, hx, by simpa [queuesForOther] using hc⟩
  | _ => cases hc

end

end Nexus
