import NexusErebus.Deposits

/-!
# Settings against balances

The record of a user in the store has two writers.  When a setting changes, the agent writes the
balances and the settings as it has them in memory.  When a trade is done, the worker writes the
balances only.  The agent never reads the record again, so its balances may be old, and then a
change of the settings undoes what the worker wrote.

The runs here interleave the setters in the agent with the last step of trades in the worker, for
one handle.  An observer notes which writes the setters still owe (`due`), which settings were set
last and what the last trade wrote.  Two conditions are told apart.  `inOrder` is how the client
of the agent works: its commands reach the store in the order in which they were issued.
`freshBalances` is the condition under which nothing is lost.
-/

namespace Nexus

open Async Text

/-! ## The machine -/

/-- What happens to the record of a user. -/
inductive UpdateEv where
  | toggleAuto (state : Option Bool)
  | setRisk (level : Str)
  /-- The last step of a trade. -/
  | storeBalances (sol tierBal : Number)

/-- The settings are changed by the agent, the balances by the worker. -/
def UpdateEv.pid : UpdateEv → Pid
  | .storeBalances _ _ => .worker
  | _ => .agent

section

variable (env : Env) (h : Str)

/-- The program of an event. -/
def UpdateEv.body : UpdateEv → Prog Unit
  | .toggleAuto state => discard (Nexus.toggleAuto env h state)
  | .setRisk level => discard (Nexus.setRisk env h level)
  | .storeBalances sol tierBal =>
      upsertUser env h [("sol", some sol.shortText), ("tierBal", some tierBal.shortText)]

/-- The agent and the worker. -/
def updateProcesses : Machine sig Err :=
  processes env UpdateEv.pid (UpdateEv.body env h) fun _ st => some st

end

/-- What is noted about a record. -/
structure Updates where
  /-- The writes of the agent that are still to come, oldest first. -/
  due : List (List (String × String))
  /-- The settings that were set last. -/
  auto : Option Bool
  risk : Option Str
  /-- What the last trade wrote. -/
  job : Option (List (String × String))

/-- Nothing has been noted. -/
def Updates.none : Updates := ⟨[], .none, .none, .none⟩

/-- A setting is set. -/
def Updates.set (m : Updates) : Assign → Updates
  | .auto b => { m with auto := some b }
  | .risk level => { m with risk := some level }
  | _ => m

section

variable (env : Env) (h : Str)

/-- The observer of the record of a handle.  What the agent has not written when it stops, it will
not write. -/
def updateObserver : Observer (updateProcesses env h) where
  Memo := Updates
  note (p : Pid) c st _ m :=
    match c with
    | .usersAssign h' a =>
        match (st.mem p).users.lookup h with
        | some u =>
            if h' = h then { m.set a with due := m.due ++ [publicFields (a.apply u)] } else m
        | none => m
    | .redis (.hset key fields) =>
        if key = userKey h then
          if p = .worker then { m with job := some fields } else { m with due := m.due.tail }
        else m
    | _ => m
  noteCrash (p : Pid) _ m :=
    if p = .agent then { m with due := [], auto := none, risk := none } else m

/-- A field of the record. -/
def storedField (st : St) (f : String) : Option String := (st.redis.hashes (userKey h)).lookup f

/-- The writes of the agent reach the store in the order of the calls. -/
def inOrder (p : Pid) (c : Cmd) (s : St × Updates) : Bool :=
  match p, c with
  | .agent, .redis (.hset key fields) => key ≠ userKey h || s.2.due.head? = some fields
  | _, _ => true

/-- Once a trade has written the balances, the agent writes only while it knows them. -/
def freshBalances (p : Pid) (c : Cmd) (s : St × Updates) : Bool :=
  match p, c with
  | .agent, .redis (.hset key _) =>
      key ≠ userKey h || s.2.job.isNone ||
        ((s.1.mem .agent).users.lookup h).all fun u =>
          ["sol", "tierBal"].all fun f => (publicFields u).lookup f = storedField h s.1 f
  | _, _ => true

/-- The runs in which both conditions are met. -/
def updateMachine : Machine sig Err :=
  (updateProcesses env h).monitored (updateObserver env h) (fun _ _ => true) fun p c s =>
    inOrder h p c s && freshBalances h p c s

/-! ## The invariant -/

/-- What the record will hold when the writes of the agent are done. -/
def latest (s : St × Updates) : List (String × String) :=
  s.2.due.getLast?.getD (s.1.redis.hashes (userKey h))

/-- What holds between the state and the notes. -/
structure Kept (s : St × Updates) : Prop where
  /-- The agent has the settings that were set last. -/
  entry : ∀ u, (s.1.mem .agent).users.lookup h = some u →
    (∀ b, s.2.auto = some b → u.auto = b) ∧ ∀ level, s.2.risk = some level → u.risk = level
  /-- The agent writes the balances it has in memory. -/
  due : ∀ fields ∈ s.2.due, ∃ u v, (s.1.mem .agent).users.lookup h = some u ∧
    fields = publicFields v ∧ v.sol = u.sol ∧ v.tierBal = u.tierBal
  auto : ∀ b, s.2.auto = some b → (latest h s).lookup "auto" = some (boolText b)
  risk : ∀ level, s.2.risk = some level → (latest h s).lookup "risk" = some (redisArg level)
  /-- The balances are those of the last trade. -/
  job : ∀ fields, s.2.job = some fields → ∀ f ∈ ["sol", "tierBal"],
    storedField h s.1 f = fields.lookup f

/-- The commands of the two writers. -/
def Cmd.updates (p : Pid) : Cmd → Prop
  | .tick | .usersGet _ | .redis (.sadd _ _) => True
  | .usersAssign h' (.auto _) | .usersAssign h' (.risk _) => p = .agent ∧ h' = h
  | .redis (.hset key fields) =>
      key = userKey h ∧ (p = .agent ∨ p = .worker ∧ Assoc.keys fields = ["sol", "tierBal"])
  | _ => False

end

section

variable {env : Env} {h : Str} {p : Pid} {s s' : St × Updates}

/-- A step that changes neither the user, nor the record, nor the notes. -/
theorem Kept.same (hi : Kept h s)
    (hmem : (s'.1.mem .agent).users.lookup h = (s.1.mem .agent).users.lookup h)
    (hredis : s'.1.redis.hashes (userKey h) = s.1.redis.hashes (userKey h)) (hm : s'.2 = s.2) :
    Kept h s' := by
  have hlatest : latest h s' = latest h s := by rw [latest, latest, hm, hredis]
  constructor
  · rw [hmem, hm]
    exact hi.entry
  · rw [hmem, hm]
    exact hi.due
  · rw [hm, hlatest]
    exact hi.auto
  · rw [hm, hlatest]
    exact hi.risk
  · rw [hm]
    intro fields hjob f hf
    rw [← hi.job fields hjob f hf, storedField, hredis, storedField]

/-- The record after some of its fields are written. -/
theorem storedField_hset {fields : List (String × String)} (hnodup : (Assoc.keys fields).Nodup)
    (st : St) (f : String) : storedField h (st.onRedis (.hset (userKey h) fields)) f =
      (fields.lookup f).or (storedField h st f) := by
  rw [storedField, St.onRedis, Redis.exec_hset_hashes, Assoc.lookup_setAll_of_nodup f hnodup]
  rfl

theorem nodup_publicFields (u : User) : (Assoc.keys (publicFields u)).Nodup := by
  simp [Assoc.keys, publicFields]

theorem lookup_publicFields {u v : User} (hsol : v.sol = u.sol) (htier : v.tierBal = u.tierBal)
    {f : String} (hf : f ∈ ["sol", "tierBal"]) :
    (publicFields v).lookup f = (publicFields u).lookup f := by
  simp only [List.mem_cons, List.not_mem_nil, or_false] at hf
  rcases hf with rfl | rfl
  · simp [publicFields, hsol]
  · simp [publicFields, Assoc.lookup_cons, htier]

/-- A setting is set in the memory of the agent, and its write is due. -/
theorem Kept.assign {a : Assign} {u : User} (hi : Kept h s)
    (ha : (a.apply u).sol = u.sol ∧ (a.apply u).tierBal = u.tierBal ∧ (s.2.set a).job = s.2.job)
    (hentry : (∀ b, (s.2.set a).auto = some b → (a.apply u).auto = b) ∧
      ∀ level, (s.2.set a).risk = some level → (a.apply u).risk = level)
    (hu : (s.1.mem .agent).users.lookup h = some u)
    (hst : s'.1 = s.1.onMem .agent fun m => { m with users := Assoc.modify h a.apply m.users })
    (hm : s'.2 = { s.2.set a with due := s.2.due ++ [publicFields (a.apply u)] }) : Kept h s' := by
  obtain ⟨hsol, htier, hjob⟩ := ha
  have hu' : (s'.1.mem .agent).users.lookup h = some (a.apply u) := by
    rw [hst, St.onMem_self, Assoc.lookup_modify, if_pos rfl, hu]
    rfl
  have hlatest : latest h s' = publicFields (a.apply u) := by simp [latest, hm]
  constructor
  · intro u' hu''
    cases hu'.symm.trans hu''
    rw [hm]
    exact hentry
  · intro fields hf
    refine ⟨a.apply u, ?_⟩
    rw [hm] at hf
    rcases List.mem_append.mp hf with hf | hf
    · obtain ⟨u₀, v, hu₀, hv, hvsol, hvtier⟩ := hi.due fields hf
      cases hu.symm.trans hu₀
      exact ⟨v, hu', hv, hvsol.trans hsol.symm, hvtier.trans htier.symm⟩
    · exact ⟨a.apply u, hu', List.mem_singleton.mp hf, rfl, rfl⟩
  · intro b hb
    rw [hm] at hb
    rw [hlatest, ← hentry.1 b hb]
    rfl
  · intro level hl
    rw [hm] at hl
    rw [hlatest, ← hentry.2 level hl]
    rfl
  · intro fields hf f
    rw [hm] at hf
    rw [hst]
    exact hi.job fields (hjob.symm.trans hf) f

/-- The oldest write that is due reaches the store. -/
theorem Kept.flush {fields : List (String × String)} (hi : Kept h s)
    (hhead : s.2.due.head? = some fields)
    (hfresh : s.2.job.isSome = true → ∀ u, (s.1.mem .agent).users.lookup h = some u →
      ∀ f ∈ ["sol", "tierBal"], (publicFields u).lookup f = storedField h s.1 f)
    (hst : s'.1 = s.1.onRedis (.hset (userKey h) fields))
    (hm : s'.2 = { s.2 with due := s.2.due.tail }) : Kept h s' := by
  obtain ⟨rest, hdue⟩ := List.head?_eq_some_iff.mp hhead
  obtain ⟨u, v, hu, hfields, hsol, htier⟩ := hi.due fields (hdue ▸ List.mem_cons_self ..)
  have hfield : ∀ f, storedField h s'.1 f = (fields.lookup f).or (storedField h s.1 f) := by
    intro f
    rw [hst]
    exact storedField_hset (hfields ▸ nodup_publicFields v) s.1 f
  -- what was to be the last write still is, or is the one carried out now
  have hlatest : ∀ f x, (latest h s).lookup f = some x → (latest h s').lookup f = some x := by
    intro f x hx
    cases rest with
    | nil =>
        have hx' : fields.lookup f = some x := by simpa [latest, hdue] using hx
        have hnew : (latest h s').lookup f = storedField h s'.1 f := by
          simp [latest, hm, hdue, storedField]
        rw [hnew, hfield, hx', Option.some_or]
    | cons next rest =>
        rw [latest, hdue, List.getLast?_cons_cons] at hx
        simpa [latest, hm, hdue, List.getLast?_cons] using hx
  constructor
  · rw [hst, hm]
    exact hi.entry
  · rw [hst, hm]
    exact fun fields hf => hi.due fields (List.mem_of_mem_tail hf)
  · rw [hm]
    exact fun b hb => hlatest _ _ (hi.auto b hb)
  · rw [hm]
    exact fun level hl => hlatest _ _ (hi.risk level hl)
  · intro job hjob f hf
    rw [hm] at hjob
    have hsame : fields.lookup f = storedField h s.1 f := by
      rw [hfields, lookup_publicFields hsol htier hf]
      exact hfresh (Option.isSome_of_eq_some hjob) u hu f hf
    rw [hfield, hsame, Option.or_self]
    exact hi.job job hjob f hf

/-- A trade writes the balances. -/
theorem Kept.trade {fields : List (String × String)} (hi : Kept h s)
    (hkeys : Assoc.keys fields = ["sol", "tierBal"])
    (hst : s'.1 = s.1.onRedis (.hset (userKey h) fields))
    (hm : s'.2 = { s.2 with job := some fields }) : Kept h s' := by
  have hfield : ∀ f, storedField h s'.1 f = (fields.lookup f).or (storedField h s.1 f) := by
    intro f
    rw [hst]
    exact storedField_hset (hkeys ▸ by decide) s.1 f
  -- the settings are not among the fields
  have hlatest : ∀ f x, f ∉ ["sol", "tierBal"] → (latest h s).lookup f = some x →
      (latest h s').lookup f = some x := by
    intro f x hf hx
    cases hdue : s.2.due with
    | nil =>
        have hx' : storedField h s.1 f = some x := by simpa [latest, hdue, storedField] using hx
        have hnew : (latest h s').lookup f = storedField h s'.1 f := by
          simp [latest, hm, hdue, storedField]
        rw [hnew, hfield, Assoc.lookup_eq_none.mpr (hkeys ▸ hf), Option.none_or, hx']
    | cons next rest =>
        rw [latest, hdue] at hx
        simpa [latest, hm, hdue, List.getLast?_cons] using hx
  constructor
  · rw [hst, hm]
    exact hi.entry
  · rw [hst, hm]
    exact hi.due
  · rw [hm]
    exact fun b hb => hlatest _ _ (by decide) (hi.auto b hb)
  · rw [hm]
    exact fun level hl => hlatest _ _ (by decide) (hi.risk level hl)
  · intro job hjob f hf
    rw [hm] at hjob
    cases hjob
    have hsome : fields.lookup f ≠ none := fun hn => Assoc.lookup_eq_none.mp hn (hkeys ▸ hf)
    obtain ⟨x, hx⟩ := Option.ne_none_iff_exists'.mp hsome
    rw [hfield, hx, Option.some_or]

theorem Kept.set {a : Assign} (hi : Kept h s) (ha : Cmd.updates h p (.usersAssign h a))
    (hst : s'.1 = s.1.onMem p fun m => { m with users := Assoc.modify h a.apply m.users })
    (hm : s'.2 = (updateObserver env h).note p (.usersAssign h a) s.1 () s.2) : Kept h s' := by
  have hp : p = .agent := by
    cases a with
    | sol | tierBal => exact ha.elim
    | auto | risk => exact ha.1
  subst hp
  cases hu : (s.1.mem .agent).users.lookup h with
  | none =>
      refine hi.same ?_ (hst ▸ rfl) (hm.trans ?_)
      · rw [hst, St.onMem_self, Assoc.lookup_modify, if_pos rfl, hu]
        rfl
      · simp [updateObserver, hu]
  | some u =>
      have hm' : s'.2 = { s.2.set a with due := s.2.due ++ [publicFields (a.apply u)] } := by
        simpa [updateObserver, hu] using hm
      obtain ⟨hauto, hrisk⟩ := hi.entry u hu
      cases a with
      | sol | tierBal => exact ha.elim
      | auto b =>
          exact hi.assign (a := .auto b) ⟨rfl, rfl, rfl⟩
            ⟨fun _ hb => Option.some.inj hb, hrisk⟩ hu hst hm'
      | risk level =>
          exact hi.assign (a := .risk level) ⟨rfl, rfl, rfl⟩
            ⟨hauto, fun _ hl => Option.some.inj hl⟩ hu hst hm'

/-- Every command of the two writers keeps the invariant. -/
theorem kept_step {c : Cmd} (hc : c.updates h p) {a : c.Ans} {r : c.Res} (hi : Kept h s)
    (hs : (updateMachine env h).step p c s a = some (r, s')) : Kept h s' := by
  obtain ⟨hguard, -, hexec, hnote⟩ := step_monitored hs
  have hst : s'.1 = (exec p c s.1 a).2 := by rw [hexec]
  cases c with
  | tick | usersGet => exact hi.same (hst ▸ rfl) (hst ▸ rfl) hnote
  | usersAssign h' asg =>
      have hh : h' = h := by
        cases asg with
        | sol | tierBal => exact hc.elim
        | auto | risk => exact hc.2
      subst hh
      exact hi.set hc hst hnote
  | redis c =>
      cases c with
      | sadd key member => exact hi.same (hst ▸ rfl) (hst ▸ rfl) hnote
      | hset key fields =>
          obtain ⟨rfl, rfl | ⟨rfl, hkeys⟩⟩ := hc
          · obtain ⟨horder, hfresh⟩ := Bool.and_eq_true_iff.mp hguard
            refine hi.flush (by simpa [inOrder] using horder) ?_ hst (hnote.trans ?_)
            · intro hjob u hu f hf
              have hall := by
                simpa [freshBalances, hu, Option.isSome_iff_ne_none.mp hjob] using hfresh
              simp only [List.mem_cons, List.not_mem_nil, or_false] at hf
              rcases hf with rfl | rfl
              · exact hall.1
              · exact hall.2
            · simp [updateObserver]
          · refine hi.trade hkeys hst (hnote.trans ?_)
            simp [updateObserver]
      | _ => exact hc.elim
  | _ => exact hc.elim

/-- When a process stops, what it had still to write is lost with its memory. -/
theorem Kept.stop (hi : Kept h s) (p : Pid) :
    Kept h (s.1.stop env p, (updateObserver env h).noteCrash p s.1 s.2) := by
  by_cases hp : p = .agent
  · subst hp
    constructor
    · intro u hu
      simp [updateObserver]
    · simp [updateObserver]
    · simp [updateObserver]
    · simp [updateObserver]
    · exact hi.job
  · refine hi.same ?_ rfl ?_
    · rw [St.stop, St.onMem_ne _ (Ne.symm hp)]
    · simp [updateObserver, hp]

/-! ## The programs -/

theorem updates_await {α : Type} {q : Prog α} (hq : q.Issues (Cmd.updates h p)) :
    (await q).Issues (Cmd.updates h p) := issues_await trivial hq

theorem updates_persist : (persist env h).Issues (Cmd.updates h .agent) := by
  rw [persist_eq]
  refine Prog.issues_bind (issues_userObject trivial) fun u => updates_await ?_
  exact Prog.issues_bind (issues_ask trivial) fun _ => issues_ask ⟨rfl, .inl rfl⟩

/-- The programs issue no other commands. -/
theorem updates_body (ev : UpdateEv) : (ev.body env h).Issues (Cmd.updates h ev.pid) := by
  cases ev with
  | toggleAuto state =>
      exact Prog.issues_bind (issues_toggleAuto trivial (fun _ => ⟨rfl, rfl⟩) updates_persist state)
        fun _ => .ret ()
  | setRisk level =>
      exact Prog.issues_bind (issues_setRisk trivial (fun _ => ⟨rfl, rfl⟩) updates_persist level)
        fun _ => .ret ()
  | storeBalances sol tierBal =>
      rw [UpdateEv.body, upsertUser_public rfl rfl]
      exact Prog.issues_bind (issues_ask trivial) fun _ => issues_ask ⟨rfl, .inr ⟨rfl, rfl⟩⟩

/-- The invariant holds in every state of a run. -/
theorem kept_reach {w : World (updateMachine env h)}
    (hw : (updateMachine env h).Reach (fun s => s.2 = Updates.none) w) : Kept h w.st := by
  let R : Rely (updateMachine env h) :=
    ⟨Kept h, fun _ _ _ => True, fun _ _ => trivial, fun _ _ => trivial⟩
  have hbody : ∀ ev : UpdateEv, R.Tame ev.pid (ev.body env h) := fun ev =>
    Rely.closed_tame.of_issues
      (fun c hc => Rely.tame_ask fun s a r s' hi hs => ⟨kept_step hc hi hs, fun _ => trivial⟩)
      (updates_body ev)
  refine Rely.reach_inv (R := R) ?_ ?_ ?_ ?_ hw
  · intro s hs
    constructor
    all_goals simp [hs, Updates.none]
  · intro ev s s' hi he
    obtain ⟨-, hst, hm⟩ := enter_monitored he
    have hst' : s.1 = s'.1 := Option.some.inj hst
    exact ⟨hi.same (hst' ▸ rfl) (hst' ▸ rfl) hm, fun _ => trivial⟩
  · intro ev s s' _ _ s'' _ hi
    exact hbody ev s'' hi
  · exact fun p s hi => ⟨hi.stop p, fun _ _ => trivial⟩

/-- What a setter leaves to be done is to write what is noted as due. -/
theorem seg_setting {a : Assign} {u : User} {ans : Nat → (c : Cmd) → c.Ans} {out : List Cmd}
    (hu : (s.1.mem .agent).users.lookup h = some u) :
    ((updateMachine env h).seg .agent ans
        ((ask (.usersAssign h a)).bind fun _ => .spawn (persist env h)) s out).map
      (fun g => ((g.st : St × Updates).2.due, g.forked)) =
    some (s.2.due ++ [publicFields (a.apply u)],
      [await ((redis (.sadd usersSetKey (redisArg h))).bind fun _ =>
        redis (.hset (userKey h) (publicFields (a.apply u))))]) := by
  let s₁ : St × Updates :=
    (s.1.onMem .agent fun m => { m with users := Assoc.modify h a.apply m.users },
      { s.2.set a with due := s.2.due ++ [publicFields (a.apply u)] })
  have hu₁ : (s₁.1.mem .agent).users.lookup h = some (a.apply u) := by
    simp only [s₁, St.onMem_self, Assoc.lookup_modify, if_true, hu, Option.map_some]
  have hset : ∀ x, (updateMachine env h).step .agent (.usersAssign h a) s x = some ((), s₁) := by
    intro x
    have hnote : (updateObserver env h).note .agent (.usersAssign h a) s.1 () s.2 = s₁.2 := by
      simp [updateObserver, hu, s₁]
    exact congrArg (fun m => some ((), (s₁.1, m))) hnote
  have hget : ∀ x, (updateMachine env h).step .agent (.usersGet h) s₁ x =
      some (some (a.apply u), s₁) := fun x => congrArg (fun o => some (o, s₁)) hu₁
  have hpersist : (updateMachine env h).seg .agent ans (persist env h) s₁
      (out ++ [.usersAssign h a]) = some ⟨await ((redis (.sadd usersSetKey (redisArg h))).bind
        fun _ => redis (.hset (userKey h) (publicFields (a.apply u)))), s₁, [],
          out ++ [.usersAssign h a] ++ [.usersGet h]⟩ := by
    rw [persist_eq, userObject, Prog.bind_eq, Prog.bind_assoc']
    exact Machine.seg_ask_bind rfl (hget _)
  refine (congrArg _ (Machine.seg_ask_bind rfl (hset _))).trans ?_
  rw [Machine.seg_spawn hpersist]
  rfl

end

/-- If the agent knows the balances a trade has written whenever it writes later, then the record
has the balances of the last trade, and the settings that were set last once everything is
written. -/
theorem settings_keep_balances (env : Env) (h : Str) {w : World (updateMachine env h)}
    (hw : (updateMachine env h).Reach (fun s => s.2 = Updates.none) w) :
    (∀ fields, w.st.2.job = some fields → ∀ f ∈ ["sol", "tierBal"],
      storedField h w.st.1 f = fields.lookup f) ∧
    (w.st.2.due = [] → (∀ b, w.st.2.auto = some b →
        storedField h w.st.1 "auto" = some (boolText b)) ∧
      ∀ level, w.st.2.risk = some level → storedField h w.st.1 "risk" = some (redisArg level)) := by
  have hk := kept_reach hw
  refine ⟨hk.job, fun hdue => ?_⟩
  have hfield : ∀ f, storedField h w.st.1 f = (latest h w.st).lookup f := fun f => by
    simp only [latest, hdue, List.getLast?_nil, Option.getD_none]
    rfl
  exact ⟨fun b hb => (hfield _).trans (hk.auto b hb),
    fun level hl => (hfield _).trans (hk.risk level hl)⟩

namespace Sample

/-- A trade ends, and then the risk is set. -/
def tradeThenRisk (M : Machine sig Err) (ev : UpdateEv → M.Ev) (ans : (c : Cmd) → M.Ans c)
    (sol : Number) : List M.Choice :=
  serve M ans (ev (.storeBalances sol (some 0))) 0 2 ++
    serve M ans (ev (.setRisk (some "high"))) 1 0 ++
    (List.replicate 2 [.reply 2 ans, .resume 2 fun _ => ans]).flatten

/-- All writes are done.  The trade has written these balances and the record has that field. -/
def settled {M : Machine sig Err} (view : M.St → St × Updates) (job : List (String × String))
    (field : String × String) (w : World M) : Bool :=
  (view w.st).2.due = [] && (view w.st).2.risk = some (some "high") &&
    (view w.st).2.job = some job &&
    storedField (some "alice") (view w.st).1 field.1 = some field.2

theorem settled_iff {M : Machine sig Err} {view : M.St → St × Updates}
    {job : List (String × String)} {field : String × String} {w : World M} :
    settled view job field w = true ↔ ((view w.st).2.due = [] ∧
      (view w.st).2.risk = some (some "high")) ∧ (view w.st).2.job = some job ∧
      storedField (some "alice") (view w.st).1 field.1 = some field.2 := by
  simp [settled, and_assoc]

theorem settings_keep_balances_sample :
    ∃ w, (updateMachine env (some "alice")).Reach (fun s => s.2 = Updates.none) w ∧
      storedField (some "alice") w.st.1 "sol" = some "1" ∧
      storedField (some "alice") w.st.1 "risk" = some "high" := by
  have hrun : (Machine.nexts (M := updateMachine env (some "alice"))
      ⟨(depositor, Updates.none), [], []⟩ (tradeThenRisk _ id offline (some 1))).any
      (settled id [("sol", "1"), ("tierBal", "0")] ("auto", "true")) = true := by
    decide +kernel
  obtain ⟨w, hreach, hw⟩ := Machine.Reach.of_run
    (I := fun s : St × Updates => s.2 = Updates.none) rfl hrun
  obtain ⟨⟨hdue, hrisk⟩, hjob, -⟩ := settled_iff.mp hw
  obtain ⟨hbalances, hsettings⟩ := settings_keep_balances env (some "alice") hreach
  exact ⟨w, hreach, hbalances _ hjob "sol" (by decide), (hsettings hdue).2 _ hrisk⟩

/-- The agent has 1 SOL in memory and half a SOL is left after the trade.  Then the risk is set,
and the record has 1 SOL again. -/
theorem balance_undone :
    ∃ w, ((updateProcesses env (some "alice")).observed (updateObserver env (some "alice"))).Reach
        (fun s => s.2 = Updates.none) w ∧
      w.st.2.due = [] ∧ w.st.2.job = some [("sol", "0.5"), ("tierBal", "0")] ∧
      storedField (some "alice") w.st.1 "sol" = some "1" := by
  have hrun : (Machine.nexts (M := (updateProcesses env (some "alice")).observed
        (updateObserver env (some "alice"))) ⟨(depositor, Updates.none), [], []⟩
      (tradeThenRisk _ id offline (some (1 / 2)))).any
      (settled id [("sol", "0.5"), ("tierBal", "0")] ("sol", "1")) = true := by
    decide +kernel
  obtain ⟨w, hreach, hw⟩ := Machine.Reach.of_run
    (I := fun s : St × Updates => s.2 = Updates.none) rfl hrun
  obtain ⟨⟨hdue, -⟩, hjob, hsol⟩ := settled_iff.mp hw
  exact ⟨w, hreach, hdue, hjob, hsol⟩

end Sample

end Nexus
