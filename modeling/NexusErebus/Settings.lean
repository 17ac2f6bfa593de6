import NexusErebus.LostUpdates
import NexusErebus.Wallets

/-!
# One value of a setting

The settings of a user are in three places: in the map of the agent, in the map of the API server
and in the store.  A setter changes the map of its own process and stores all of it.  Only the
boot of the agent reads the store.  So two processes may have different settings for one handle,
`ensure` stores its defaults over what was set elsewhere, and a setter fails in a process that has
no entry.

The runs here consist of setters and calls of `ensure` for one handle, of notifications of its
accounts, and of boots and stops of the processes.  An observer notes what was set last.  The
theorem is about the runs in which one process is the home of the handle: entries are made only
there, by `ensure` only while no settings are stored, setters are called only where there is an
entry, and the home stops only while the store has its settings.
-/

namespace Nexus

open Async Text

/-! ## The machine -/

/-- The settings of a user. -/
structure UserSettings where
  auto : Bool
  risk : Str
  deriving DecidableEq

/-- The settings in an entry. -/
def User.settings (u : User) : UserSettings := ⟨u.auto, u.risk⟩

section

variable (h : Str)

/-- The entry of the handle in the map of a process. -/
def heldUser (st : St) (p : Pid) : Option User := (st.mem p).users.lookup h

/-- The settings in the store, as the boot of the agent reads them. -/
def readBack (st : St) : UserSettings where
  auto := storedField h st "auto" = some "true"
  risk := some ((storedField h st "risk").getD "med")

/-- The store has a setting that is not the one of the user. -/
def overrides (st : St) (u : User) : Bool :=
  ((storedField h st "auto").any fun text => decide (text = "true") ≠ u.auto) ||
    (storedField h st "risk").any fun text => some text ≠ u.risk

end

/-- What is noted about the settings of a handle. -/
structure SettingNotes where
  /-- The settings that were set last, in any process. -/
  auto : Option Bool
  risk : Option Str
  /-- A process stopped while the store had other settings. -/
  lost : Bool
  /-- An entry was made that resets settings in the store. -/
  reset : Bool

/-- Nothing has been noted. -/
def SettingNotes.none : SettingNotes := ⟨.none, .none, false, false⟩

/-- A setting is set. -/
def SettingNotes.set (m : SettingNotes) : Assign → SettingNotes
  | .auto b => { m with auto := some b }
  | .risk level => { m with risk := some level }
  | _ => m

/-- These settings are the ones that were set last. -/
def SettingNotes.Agrees (m : SettingNotes) (s : UserSettings) : Prop :=
  (∀ b, m.auto = some b → s.auto = b) ∧ ∀ level, m.risk = some level → s.risk = level

section

variable (env : Env) (h : Str)

/-- The observer of the settings of a handle. -/
def settingsObserver : Observer (machine env) where
  Memo := SettingNotes
  note (p : Pid) c st _ m :=
    match c with
    | .usersAssign h' a => if h' = h ∧ (heldUser h st p).isSome then m.set a else m
    | .usersSet h' u =>
        if h' = h ∧ (heldUser h st p).isNone ∧ overrides h st u then { m with reset := true } else m
    | _ => m
  noteCrash (p : Pid) st m :=
    if (heldUser h st p).any fun u => u.settings ≠ readBack h st then { m with lost := true } else m

/-- The events that have to do with the settings of the handle. -/
def Ev.concerns : Ev → Bool
  | .boot => true
  | .call _ (.ensure h') | .call _ (.toggleAuto h' _) | .call _ (.setRisk h' _)
  | .solChanged h' | .tokenChanged h' => h' = h
  | _ => false

/-- A setter is called only where the handle is known. -/
def setsKnown (ev : Ev) (st : St) : Bool :=
  match ev with
  | .call p (.toggleAuto _ _) | .call p (.setRisk _ _) => (heldUser h st p).isSome
  | _ => true

/-- Entries are made only in the home of the handle, and never replaced by others.  A key is
generated for the handle only while no settings are stored for it. -/
def atHome (home p : Pid) (c : Cmd) (st : St) : Bool :=
  match c with
  | .generate (.wallet h') =>
      h' ≠ h || (storedField h st "auto").isNone && (storedField h st "risk").isNone
  | .usersSet h' u =>
      h' ≠ h || p = home && (heldUser h st p).all fun u' => u'.settings = u.settings
  | _ => true

/-- The runs about the settings of the handle that meet the conditions.  Such a run ends where the
home stops too early. -/
def settingsMachine (home : Pid) : Machine sig Err :=
  (machine env).monitored (settingsObserver env h)
    (fun ev s => !s.2.lost && ev.concerns h && setsKnown h ev s.1)
    fun p c s => !s.2.lost && atHome h home p c s.1

/-! ## The invariant -/

/-- What holds between the state and the notes. -/
structure Current (home : Pid) (s : St × SettingNotes) : Prop where
  /-- Only the home has an entry. -/
  only : ∀ p u, heldUser h s.1 p = some u → p = home
  /-- The entry has the settings that were set last. -/
  entry : ∀ u, heldUser h s.1 home = some u → s.2.Agrees u.settings
  /-- Without an entry, the store has them. -/
  stored : s.2.lost = false → heldUser h s.1 home = none → s.2.Agrees (readBack h s.1)
  kept : s.2.reset = false

/-- What the argument is about.  A process relies on its entry to stay.  While the home has none,
nobody changes the stored settings. -/
def settingsRely (home : Pid) : Rely (settingsMachine env h home) where
  inv := Current h home
  rel (p : Pid) (s s' : St × SettingNotes) :=
    (heldUser h s'.1 p = none → heldUser h s.1 p = none) ∧
      (p = home → heldUser h s'.1 p = none → ∀ f ∈ ["auto", "risk"],
        storedField h s'.1 f = storedField h s.1 f)
  rel_refl _ _ := ⟨fun h => h, fun _ _ _ _ => rfl⟩
  rel_trans h₁ h₂ := ⟨fun h => h₁.1 (h₂.1 h), fun hp hnone f hf =>
    (h₂.2 hp hnone f hf).trans (h₁.2 hp (h₂.1 hnone) f hf)⟩

end

section

variable {env : Env} {h : Str} {home p : Pid} {s s' : St × SettingNotes} {E : Err → Prop}

theorem SettingNotes.Agrees.set {m : SettingNotes} {u : User} (hm : m.Agrees u.settings)
    (a : Assign) : (m.set a).Agrees (a.apply u).settings := by
  obtain ⟨hauto, hrisk⟩ := hm
  cases a with
  | sol | tierBal => exact ⟨hauto, hrisk⟩
  | auto b => exact ⟨fun _ hb => Option.some.inj hb, hrisk⟩
  | risk level => exact ⟨hauto, fun _ hl => Option.some.inj hl⟩

theorem readBack_congr {st st' : St}
    (hf : ∀ f ∈ ["auto", "risk"], storedField h st' f = storedField h st f) :
    readBack h st' = readBack h st := by
  rw [readBack, readBack, hf "auto" (by decide), hf "risk" (by decide)]

/-- The entries and the store have the same settings, and nothing was noted. -/
structure SameSettings (h : Str) (s s' : St × SettingNotes) : Prop where
  held : ∀ p, (heldUser h s'.1 p).map User.settings = (heldUser h s.1 p).map User.settings
  field : ∀ f ∈ ["auto", "risk"], storedField h s'.1 f = storedField h s.1 f
  notes : s'.2 = s.2

theorem SameSettings.held_none (hs : SameSettings h s s') :
    heldUser h s'.1 p = none ↔ heldUser h s.1 p = none := by
  rw [← Option.map_eq_none_iff (f := User.settings), hs.held, Option.map_eq_none_iff]

theorem SameSettings.moves (hs : SameSettings h s s') (hi : Current h home s) :
    (settingsRely env h home).Moves s s' := by
  -- an entry after the step was there before, with these settings
  have hheld : ∀ p u, heldUser h s'.1 p = some u →
      ∃ u₀, heldUser h s.1 p = some u₀ ∧ u₀.settings = u.settings := by
    intro p u hu
    have hmap := hs.held p
    rw [hu] at hmap
    exact Option.map_eq_some_iff.mp hmap.symm
  refine ⟨⟨?_, ?_, ?_, hs.notes ▸ hi.kept⟩, ?_⟩
  · intro p u hu
    obtain ⟨u₀, hu₀, -⟩ := hheld p u hu
    exact hi.only p u₀ hu₀
  · intro u hu
    obtain ⟨u₀, hu₀, he⟩ := hheld home u hu
    rw [hs.notes, ← he]
    exact hi.entry u₀ hu₀
  · rw [hs.notes, readBack_congr hs.field, hs.held_none]
    exact hi.stored
  · exact fun p => ⟨hs.held_none.mp, fun _ _ => hs.field⟩

/-- The commands that change no settings. -/
def Cmd.keepsSettings (h : Str) : Cmd → Prop
  | .redis (.hset _ fields) | .tryRedis (.hset _ fields) =>
      ∀ f ∈ ["auto", "risk"], f ∉ Assoc.keys fields
  | .redis (.del _) | .tryRedis (.del _) => False
  | .usersSet h' _ => h' ≠ h
  | .usersAssign _ (.auto _) | .usersAssign _ (.risk _) => False
  | _ => True

/-- The settings in the entries do not depend on the rest of the memory. -/
theorem sameSettings_onMem {f : Mem → Mem}
    (hf : ((f (s.1.mem p)).users.lookup h).map User.settings =
      (heldUser h s.1 p).map User.settings) :
    SameSettings h s (s.1.onMem p f, s.2) where
  held q := by
    by_cases hq : q = p
    · subst hq
      rw [heldUser, St.onMem_self]
      exact hf
    · rw [heldUser, St.onMem_ne _ hq, heldUser]
  field _ _ := rfl
  notes := rfl

theorem sameSettings_redis {c : Redis.Cmd} (hc : Cmd.keepsSettings h (.redis c)) :
    SameSettings h s (s.1.onRedis c, s.2) where
  held _ := rfl
  field f hf := by
    refine Redis.exec_lookup _ c s.1.redis ?_ ?_
    · rintro fields rfl
      exact hc f hf
    · rintro rfl
      exact hc
  notes := rfl

theorem sameSettings_exec {c : Cmd} (hc : c.keepsSettings h) (a : c.Ans) :
    SameSettings h s ((exec p c s.1 a).2, s.2) := by
  cases c with
  | redis c => exact sameSettings_redis hc
  | tryRedis c =>
      cases a with
      | none => exact sameSettings_redis (c := c) (by cases c with | _ => exact hc)
      | some e => exact ⟨fun _ => rfl, fun _ _ => rfl, rfl⟩
  | usersSet h' u =>
      simp only [exec]
      refine sameSettings_onMem ?_
      rw [Assoc.lookup_set, if_neg hc]
      rfl
  | usersAssign h' asg =>
      simp only [exec]
      refine sameSettings_onMem ?_
      rw [Assoc.lookup_modify]
      split
      next he =>
        cases asg with
        | sol | tierBal =>
            rw [Option.map_map]
            rfl
        | auto | risk => exact hc.elim
      next => rfl
  | watch | decimalsSet | manualAdd | manualDelete | configSet | hpSet | lastIncidentSet | ready =>
      simp only [exec]
      exact sameSettings_onMem rfl
  | _ => exact ⟨fun _ => rfl, fun _ _ => rfl, rfl⟩

theorem note_keepsSettings {c : Cmd} (hc : c.keepsSettings h) (st : St) (r : c.Res)
    (m : SettingNotes) : (settingsObserver env h).note p c st r m = m := by
  cases c with
  | usersSet h' u => exact if_neg fun hn => hc hn.1
  | usersAssign h' a =>
      cases a with
      | sol | tierBal => exact ite_self _
      | auto | risk => exact hc.elim
  | _ => rfl

theorem moves_keepsSettings {c : Cmd} (hc : c.keepsSettings h) {a : c.Ans} {r : c.Res}
    (hi : Current h home s) (hs : (settingsMachine env h home).step p c s a = some (r, s')) :
    (settingsRely env h home).Moves s s' := by
  obtain ⟨-, -, hexec, hnote⟩ := step_monitored hs
  have hs' : s' = ((exec p c s.1 a).2, s.2) :=
    Prod.ext (congrArg Prod.snd hexec).symm (hnote.trans (note_keepsSettings hc _ _ _))
  exact hs' ▸ (sameSettings_exec hc a).moves hi

/-- While the home has an entry, the store may change. -/
theorem moves_redis {c : Redis.Cmd} {a : (Cmd.redis c).Ans} {r : (Cmd.redis c).Res}
    (hi : Current h home s) (hheld : heldUser h s.1 home ≠ none)
    (hs : (settingsMachine env h home).step p (.redis c) s a = some (r, s')) :
    (settingsRely env h home).Moves s s' := by
  obtain ⟨-, -, hexec, hnote⟩ := step_monitored hs
  obtain ⟨st', m'⟩ := s'
  cases hnote
  cases hexec
  refine ⟨⟨hi.only, hi.entry, fun _ hnone => (hheld hnone).elim, hi.kept⟩, ?_⟩
  exact fun q => ⟨id, fun hq hnone => (hheld (hq ▸ hnone)).elim⟩

/-- A step changes the entry of the home, and only this. -/
theorem Current.moves_entry {u : User} (hi : Current h home s)
    (hst : ∃ f, s'.1 = s.1.onMem home f) (hu : heldUser h s'.1 home = some u)
    (hagrees : s'.2.Agrees u.settings) (hkept : s'.2.reset = false) :
    (settingsRely env h home).Moves s s' := by
  obtain ⟨f, hst⟩ := hst
  have hother : ∀ q, q ≠ home → heldUser h s'.1 q = heldUser h s.1 q := by
    intro q hq
    rw [heldUser, hst, St.onMem_ne _ hq, heldUser]
  refine ⟨⟨?_, ?_, ?_, hkept⟩, ?_⟩
  · intro q v hv
    by_contra hq
    exact hq (hi.only q v (hother q hq ▸ hv))
  · intro v hv
    cases hu.symm.trans hv
    exact hagrees
  · intro _ hnone
    cases hu.symm.trans hnone
  · intro (q : Pid)
    by_cases hq : q = home
    · subst hq
      have hsome : heldUser h s'.1 q ≠ none := hu ▸ Option.some_ne_none u
      exact ⟨fun hnone => (hsome hnone).elim, fun _ hnone => (hsome hnone).elim⟩
    · exact ⟨fun hnone => hother q hq ▸ hnone, fun he => (hq he).elim⟩

/-- A setting is set where there is an entry. -/
theorem moves_assign {a : Assign} {u : User} {x : Unit} {r : Unit} (hi : Current h home s)
    (hu : heldUser h s.1 p = some u)
    (hs : (settingsMachine env h home).step p (.usersAssign h a) s x = some (r, s')) :
    (settingsRely env h home).Moves s s' ∧ heldUser h s'.1 p ≠ none := by
  cases hi.only p u hu
  obtain ⟨-, -, hexec, hnote⟩ := step_monitored hs
  have hst : s'.1 = s.1.onMem home fun m => { m with users := Assoc.modify h a.apply m.users } :=
    (congrArg Prod.snd hexec).symm
  have hm : s'.2 = s.2.set a := hnote.trans (if_pos ⟨rfl, by simp [hu]⟩)
  have hu' : heldUser h s'.1 home = some (a.apply u) := by
    rw [hst, heldUser, St.onMem_self, Assoc.lookup_modify, if_pos rfl]
    exact congrArg _ hu
  have hkept : s'.2.reset = false := by
    rw [hm, ← hi.kept]
    cases a with
    | _ => rfl
  refine ⟨hi.moves_entry ⟨_, hst⟩ hu' (hm ▸ (hi.entry u hu).set a) hkept, ?_⟩
  exact hu' ▸ Option.some_ne_none _

theorem overrides_eq_false {st : St} {u : User} (hu : u.settings = readBack h st) :
    overrides h st u = false := by
  obtain ⟨hauto, hrisk⟩ := UserSettings.mk.inj hu
  rw [overrides, hauto, hrisk]
  cases storedField h st "auto" with
  | none =>
      cases storedField h st "risk" with
      | _ => simp
  | some text =>
      cases storedField h st "risk" with
      | _ => simp

/-- An entry is made with settings that do not differ from those in the store. -/
theorem moves_usersSet {u : User} {x : Unit} {r : Unit} (hi : Current h home s)
    (hnew : heldUser h s.1 p = none → s.2.lost = false → p = home → u.settings = readBack h s.1)
    (hs : (settingsMachine env h home).step p (.usersSet h u) s x = some (r, s')) :
    (settingsRely env h home).Moves s s' ∧ heldUser h s'.1 p ≠ none := by
  obtain ⟨hguard, -, hexec, hnote⟩ := step_monitored hs
  obtain ⟨hlost, hhome⟩ : s.2.lost = false ∧ p = home ∧
      (heldUser h s.1 p).all (fun u' => u'.settings = u.settings) = true := by
    simpa [atHome] using hguard
  obtain ⟨rfl, hsame⟩ := hhome
  have hst : s'.1 = s.1.setUser p h u := (congrArg Prod.snd hexec).symm
  have hu' : heldUser h s'.1 p = some u := by
    rw [hst, heldUser, St.onMem_self, Assoc.lookup_set, if_pos rfl]
  have hm : s'.2 = s.2 ∧ s.2.Agrees u.settings := by
    cases hheld : heldUser h s.1 p with
    | some u' =>
        have he : u'.settings = u.settings := by simpa [hheld] using hsame
        exact ⟨hnote.trans (if_neg (by simp [hheld])), he ▸ hi.entry u' hheld⟩
    | none =>
        have he := hnew hheld hlost rfl
        exact ⟨hnote.trans (if_neg (by simp [overrides_eq_false he])), he ▸ hi.stored hlost hheld⟩
  refine ⟨hi.moves_entry ⟨_, hst⟩ hu' (hm.1 ▸ hm.2) (hm.1 ▸ hi.kept), ?_⟩
  exact hu' ▸ Option.some_ne_none _

/-! ## Programs -/

theorem tame_keepsSettings {α : Type} {q : Prog α} (hq : q.Issues (Cmd.keepsSettings h)) :
    (settingsRely env h home).Tame p q :=
  Rely.closed_tame.of_issues
    (fun _ hc => Rely.tame_ask fun _ _ _ _ hi hs => moves_keepsSettings hc hi hs) hq

/-- A postcondition that the process can rely on outlasts a wait. -/
theorem safe_awaitSettings {α : Type} {q : Prog α} {Q : α → St × SettingNotes → Prop}
    (hi : Current h home s)
    (hQ : ∀ a s₁ s₂, (settingsRely env h home).rel p s₁ s₂ → Q a s₁ → Q a s₂)
    (hq : (settingsRely env h home).SafeUpTo E p q Q s) :
    (settingsRely env h home).SafeUpTo E p (await q) Q s :=
  safe_await_tick rfl (fun _ _ _ _ hi₁ hs => moves_keepsSettings (c := .tick) trivial hi₁ hs) hi hQ
    hq

/-- What the map has for the handle. -/
theorem safe_heldUser (hi : Current h home s) :
    (settingsRely env h home).SafeUpTo E p (ask (.usersGet h))
      (fun u s' => heldUser h s'.1 p = u) s := by
  refine Rely.safe_sync rfl fun a r s' hs => ?_
  refine ⟨moves_keepsSettings (c := .usersGet h) trivial hi hs, ?_⟩
  obtain ⟨-, -, hexec, -⟩ := step_monitored hs
  obtain ⟨hr, hst⟩ := Prod.mk.inj hexec
  rw [← hst]
  exact hr

/-- The object of a handle that is known. -/
theorem safe_knownObject (hi : Current h home s) (hheld : heldUser h s.1 p ≠ none) :
    (settingsRely env h home).SafeUpTo E p (userObject h)
      (fun u s' => heldUser h s'.1 p = some u) s := by
  refine Rely.safe_bind hi (Rely.safe_rel (safe_heldUser hi)) fun u s₁ _ hu => ?_
  cases u with
  | some u => exact .ret hu.1
  | none => exact (hheld (hu.2.1 hu.1)).elim

theorem safe_keepsSettings {c : Cmd} (hc : c.keepsSettings h) (hi : Current h home s) :
    (settingsRely env h home).SafeUpTo E p (ask c) (fun _ _ => True) s :=
  Rely.safe_ask hi fun _ _ _ _ hi₁ hs => moves_keepsSettings hc hi₁ hs

/-- Where the handle is known, `persist` succeeds. -/
theorem safe_persist (hi : Current h home s) (hheld : heldUser h s.1 p ≠ none) :
    (settingsRely env h home).SafeUpTo E p (persist env h) (fun _ _ => True) s := by
  rw [persist_eq]
  refine Rely.safe_bind hi (safe_knownObject hi hheld) fun u s₁ hi₁ hu => ?_
  refine safe_awaitSettings hi₁ (fun _ _ _ _ _ => trivial) ?_
  have hadd : (settingsRely env h home).SafeUpTo E p (redis (.sadd usersSetKey (redisArg h)))
      (fun _ _ => True) s₁ := safe_keepsSettings trivial hi₁
  refine Rely.safe_bind hi₁ (Rely.safe_rel hadd) fun _ s₂ hi₂ hrel₂ => ?_
  refine Rely.safe_wait rfl (fun _ _ _ _ _ => trivial) fun s₃ hrel₃ hi₃ a r s₄ hs => ?_
  -- the entry is still there when the record is written, and so this is the home
  have hheld₃ : heldUser h s₃.1 p ≠ none := fun hnone => by
    cases hu.symm.trans (hrel₂.2.1 (hrel₃.1 hnone))
  obtain ⟨v, hv⟩ := Option.ne_none_iff_exists'.mp hheld₃
  exact ⟨moves_redis hi₃ (hi₃.only p v hv ▸ hheld₃) hs, trivial⟩

/-- `ensure` succeeds, and leaves an entry. -/
theorem safe_ensureSettings (hi : Current h home s) :
    (settingsRely env h home).SafeUpTo E p (ensure env h) (fun _ _ => True) s := by
  refine Rely.safe_bind hi (safe_heldUser hi) fun u s₁ hi₁ hu => ?_
  cases u with
  | some u => exact .ret trivial
  | none =>
      -- a new handle: no settings are stored for it, so the defaults reset nothing
      refine Rely.safe_bind (P := fun _ (s₂ : St × SettingNotes) =>
        readBack h s₂.1 = ⟨false, some "med"⟩) hi₁ ?_ fun wallet s₂ hi₂ hback => ?_
      · refine Rely.safe_sync rfl fun a r s₂ hs => ?_
        refine ⟨moves_keepsSettings (c := .generate (.wallet h)) trivial hi₁ hs, ?_⟩
        obtain ⟨hguard, -, hexec, -⟩ := step_monitored hs
        obtain ⟨-, hauto, hrisk⟩ : s₁.2.lost = false ∧ storedField h s₁.1 "auto" = none ∧
            storedField h s₁.1 "risk" = none := by
          simpa [atHome] using hguard
        obtain ⟨-, hst⟩ := Prod.mk.inj hexec
        rw [← hst]
        change readBack h s₁.1 = _
        simp [readBack, hauto, hrisk]
      refine Rely.safe_bind (P := fun _ (s₃ : St × SettingNotes) => heldUser h s₃.1 p ≠ none) hi₂ ?_
        fun _ s₃ hi₃ hheld => ?_
      · exact Rely.safe_sync rfl fun a r s₃ hs => moves_usersSet hi₂ (fun _ _ _ => by
          exact hback.symm) hs
      · refine Rely.safe_bind hi₃ (safe_awaitSettings hi₃ (fun _ _ _ _ _ => trivial)
          (safe_persist hi₃ hheld)) fun _ _ _ _ => .ret trivial

/-- The common part of the setters. -/
theorem safe_setting {a : Assign} {u : User} (hi : Current h home s)
    (hu : heldUser h s.1 p = some u) {α : Type} (x : α) :
    (settingsRely env h home).SafeUpTo E p
      ((ask (.usersAssign h a)).bind fun _ => (Prog.spawn (persist env h)).bind fun _ => .ret x)
      (fun _ _ => True) s := by
  refine Rely.safe_bind (P := fun _ (s₁ : St × SettingNotes) => heldUser h s₁.1 p ≠ none) hi ?_
    fun _ s₁ hi₁ hheld => ?_
  · exact Rely.safe_sync rfl fun _ r s₁ hs => moves_assign hi hu hs
  · exact .fork (safe_persist hi₁ hheld) fun _ _ _ => .ret trivial

/-- Where the handle is known, auto-trading can be switched. -/
theorem safe_toggleAuto (hi : Current h home s) (hheld : heldUser h s.1 p ≠ none)
    (state : Option Bool) :
    (settingsRely env h home).SafeUpTo E p (toggleAuto env h state) (fun _ _ => True) s := by
  refine Rely.safe_bind hi (Rely.safe_rel (safe_heldUser hi)) fun u s₁ hi₁ hu => ?_
  cases u with
  | none => exact (hheld (hu.2.1 hu.1)).elim
  | some u => exact safe_setting hi₁ hu.1 _

/-- Where the handle is known, the risk can be set. -/
theorem safe_setRisk (hi : Current h home s) (hheld : heldUser h s.1 p ≠ none) (level : Str) :
    (settingsRely env h home).SafeUpTo E p (setRisk env h level) (fun _ _ => True) s := by
  refine Rely.safe_bind hi (Rely.safe_rel (safe_heldUser hi)) fun u s₁ hi₁ hu => ?_
  cases u with
  | none => exact (hheld (hu.2.1 hu.1)).elim
  | some u => exact safe_setting hi₁ hu.1 _

/-- The entry of the handle may be put back as it is. -/
theorem tame_onUpdateSettings : (settingsRely env h home).Tame p (onUpdate env h) := by
  intro s hi
  refine Rely.safe_bind (P := fun u (s₁ : St × SettingNotes) => heldUser h s₁.1 p = some u) hi ?_
    fun u s₁ hi₁ hu => ?_
  · refine Rely.safe_bind hi (safe_heldUser hi) fun u s₁ _ hu => ?_
    cases u with
    | some u => exact .ret hu
    | none => exact .throw
  have hsome : heldUser h s₁.1 p ≠ none := hu ▸ Option.some_ne_none u
  refine Rely.safe_bind (P := fun _ (s₂ : St × SettingNotes) => heldUser h s₂.1 p ≠ none) hi₁ ?_
    fun _ s₂ hi₂ hheld => ?_
  · exact Rely.safe_sync rfl fun a r s₂ hs =>
      moves_usersSet hi₁ (fun hnone => (hsome hnone).elim) hs
  refine Rely.safe_bind hi₂ (safe_awaitSettings hi₂ (fun _ _ _ _ _ => trivial)
    (safe_persist hi₂ hheld)) fun _ s₃ hi₃ _ => ?_
  refine tame_keepsSettings (Prog.issues_bind (issues_userObject trivial) fun u => ?_) s₃ hi₃
  split
  · exact issues_await trivial (issues_ask trivial)
  · exact .ret _

/-- A notification changes a balance and no settings. -/
theorem tame_notice (n : Notice) : (settingsRely env h home).Tame p (n.body env h) := by
  have hT := Rely.closed_tame (R := settingsRely env h home) (p := p)
  rw [Notice.body_eq]
  refine hT.bind (tame_keepsSettings ?_) fun b => hT.bind (tame_keepsSettings ?_) fun _ =>
    hT.spawn tame_onUpdateSettings
  · exact Prog.issues_bind (issues_userObject trivial) fun u =>
      issues_await trivial (issues_refreshBalances _ trivial fun _ => trivial)
  · cases n with
    | sol | token => exact issues_ask trivial

/-- The fields are those of the record, unless the home has made an entry. -/
def UpToDate (h : Str) (home p : Pid) (fields : List (String × String)) (s : St × SettingNotes) :
    Prop :=
  p = home → heldUser h s.1 p = none → ∀ f ∈ ["auto", "risk"],
    fields.lookup f = storedField h s.1 f

theorem UpToDate.mono {fields : List (String × String)} (hf : UpToDate h home p fields s)
    (hrel : (settingsRely env h home).rel p s s') : UpToDate h home p fields s' :=
  fun hp hnone f hmem =>
    (hf hp (hrel.1 hnone) f hmem).trans (hrel.2 hp hnone f hmem).symm

/-- What the boot reads of a record stays so until it makes the entry. -/
theorem safe_getUser (hi : Current h home s) : (settingsRely env h home).SafeUpTo E p (getUser h)
    (fun data s' => ∀ fields, data = some fields → UpToDate h home p fields s') s := by
  refine Rely.safe_bind (P := fun data s' => UpToDate h home p data s') hi ?_
    fun data s₁ _ hdata => ?_
  · refine Rely.safe_wait rfl (fun _ _ _ hrel hdata => hdata.mono hrel) fun s₁ _ hi₁ a r s₂ hs => ?_
    refine ⟨moves_keepsSettings (c := .redis (.hgetall (userKey h))) trivial hi₁ hs, ?_⟩
    obtain ⟨-, -, hexec, -⟩ := step_monitored hs
    obtain ⟨hr, hst⟩ := Prod.mk.inj hexec
    intro _ _ f _
    rw [← hr, ← hst]
    rfl
  · split
    · exact .ret fun _ he => by cases he
    · refine .ret fun fields he hp hnone f hf => ?_
      cases he
      rw [← hdata hp hnone f hf, Assoc.lookup_erase, if_neg]
      rintro rfl
      exact absurd hf (by decide)

/-- The boot makes an entry with the settings of the record. -/
theorem safe_load {fields : List (String × String)} (hi : Current h home s)
    (hf : UpToDate h home p fields s) (wallet : Keypair) (sol tierBal : Number) :
    (settingsRely env h home).Safe p (ask (.usersSet h ⟨wallet, sol, tierBal,
      fields.lookup "auto" = some "true", some ((fields.lookup "risk").getD "med")⟩))
      (fun _ _ => True) s := by
  refine Rely.safe_sync rfl fun a r s₁ hs => ⟨(moves_usersSet hi ?_ hs).1, trivial⟩
  intro hnone _ hp
  rw [User.settings, readBack, hf hp hnone "auto" (by decide), hf hp hnone "risk" (by decide)]

theorem keepsSettings_storeSecret (handle : Str) (array : Json) :
    (storeSecret env handle array).Issues (Cmd.keepsSettings h) :=
  issues_storeSecret trivial trivial (fun _ => by simp [Cmd.keepsSettings, Assoc.keys]) array

/-- The record of the handle is loaded. -/
theorem tame_hydrateSettings (handle : String) :
    (settingsRely env h home).Tame p (hydrate env handle) := by
  by_cases hh : some handle = h
  · intro s hi
    subst hh
    refine Rely.safe_bind hi (safe_awaitSettings hi
      (fun _ _ _ hrel hdata fields he => (hdata fields he).mono hrel) (safe_getUser hi))
      fun data s₁ hi₁ hdata => ?_
    cases data with
    | none => exact .ret trivial
    | some data =>
        have hwallet : (settingsRely env (some handle) home).Tame p
            (await (getWalletCompat env (some handle))) :=
          tame_keepsSettings (issues_await trivial (issues_getWalletCompat trivial))
        refine Rely.safe_bind hi₁ (Rely.safe_rel (hwallet s₁ hi₁)) fun w s₂ hi₂ hrel₂ => ?_
        have hdata₂ := (hdata data rfl).mono hrel₂.2
        dsimp only
        split
        next secret _ =>
          split
          next =>
            refine Rely.safe_bind (P := fun _ s₃ => UpToDate (some handle) home p data s₃) hi₂ ?_
              fun kp s₃ hi₃ hdata₃ => ?_
            · cases env.keypair secret with
              | error e => exact .throw
              | ok kp => exact .ret hdata₂
            · -- a key in the old form is stored anew first
              have hstore : ∀ array, (settingsRely env (some handle) home).Tame p
                  (await (storeSecret env (some handle) array)) := fun array =>
                tame_keepsSettings (issues_await trivial (keepsSettings_storeSecret _ array))
              split
              · split
                · exact Rely.safe_bind hi₃ (Rely.safe_rel (hstore _ s₃ hi₃)) fun _ s₄ hi₄ hrel₄ =>
                    safe_load hi₄ (hdata₃.mono hrel₄.2) _ _ _
                · exact safe_load hi₃ hdata₃ _ _ _
              · exact safe_load hi₃ hdata₃ _ _ _
          next => exact .ret trivial
        next => exact .ret trivial
  · exact tame_keepsSettings (issues_hydrate trivial trivial trivial
      (keepsSettings_storeSecret _) fun _ => hh)

theorem tame_boot : (settingsRely env h home).Tame p (Ev.boot.body env) := by
  have hT := Rely.closed_tame (R := settingsRely env h home) (p := p)
  have hinit : (settingsRely env h home).Tame p (initializeUsers env) := by
    refine hT.bind (tame_keepsSettings (issues_await trivial (issues_redis trivial))) fun _ => ?_
    refine hT.bind (hT.forEach fun handle _ => tame_hydrateSettings handle) fun _ => ?_
    exact tame_keepsSettings (issues_watchDeposits trivial (fun _ => trivial) fun _ => trivial)
  refine hT.bind ?_ fun _ => tame_keepsSettings (issues_ask trivial)
  exact hT.bind hinit fun _ =>
    tame_keepsSettings (Prog.issues_bind (issues_ask trivial) fun _ => .ret _)

/-- The errors an event may end with: a call about the settings ends with none. -/
def Ev.mayThrow : Ev → Err → Prop
  | .call _ _, _ => False
  | _, _ => True

/-- The program of every event does its part, and the calls succeed. -/
theorem safe_event {ev : Ev} (hev : ev.concerns h = true) (hknown : setsKnown h ev s.1 = true) :
    Rely.TaskSafe (settingsRely env h home) Ev.mayThrow ⟨ev, ev.body env, true⟩ s := by
  intro s' hrel hi
  cases ev with
  | boot => exact tame_boot s' hi
  | call q c =>
      -- what a process knows when it is called it knows when it starts
      have hheld : (heldUser h s.1 q).isSome = true → heldUser h s'.1 q ≠ none := by
        intro hsome hnone
        have hbefore : heldUser h s.1 q = none := hrel.1 hnone
        simp [hbefore] at hsome
      cases c with
      | ensure h' =>
          cases of_decide_eq_true hev
          exact Rely.safe_bind hi (safe_ensureSettings hi) fun _ _ _ _ => .ret trivial
      | toggleAuto h' state =>
          cases of_decide_eq_true hev
          exact Rely.safe_bind hi (safe_toggleAuto hi (hheld hknown) state) fun _ _ _ _ =>
            .ret trivial
      | setRisk h' level =>
          cases of_decide_eq_true hev
          exact Rely.safe_bind hi (safe_setRisk hi (hheld hknown) level) fun _ _ _ _ =>
            .ret trivial
      | _ => cases hev
  | solChanged h' =>
      cases of_decide_eq_true hev
      exact tame_notice .sol s' hi
  | tokenChanged h' =>
      cases of_decide_eq_true hev
      exact tame_notice .token s' hi
  | _ => cases hev

/-! ## Runs -/

theorem heldUser_stop (st : St) (p q : Pid) :
    heldUser h (st.stop env p) q = if q = p then none else heldUser h st q := by
  by_cases hq : q = p
  · subst hq
    simp [heldUser, St.stop, Mem.fresh]
  · simp [heldUser, St.stop, St.onMem_ne st hq, hq]

variable (env) in
/-- What is noted when a process stops. -/
theorem noteCrash_cases (h : Str) (p : Pid) (st : St) (m : SettingNotes) :
    (settingsObserver env h).noteCrash p st m = m ∧
        (∀ u, heldUser h st p = some u → u.settings = readBack h st) ∨
      (settingsObserver env h).noteCrash p st m = { m with lost := true } := by
  by_cases hany : (heldUser h st p).any fun u => u.settings ≠ readBack h st
  · exact .inr (if_pos hany)
  · refine .inl ⟨if_neg hany, fun u hu => ?_⟩
    simpa [hu] using hany

/-- When a process stops in time, the store has the settings of its entry. -/
theorem Current.stop (hi : Current h home s) (p : Pid) :
    Current h home (s.1.stop env p, (settingsObserver env h).noteCrash p s.1 s.2) := by
  have hsame : ∀ q u, heldUser h (s.1.stop env p) q = some u → heldUser h s.1 q = some u := by
    intro q u hu
    rw [heldUser_stop] at hu
    split at hu
    · cases hu
    · exact hu
  rcases noteCrash_cases env h p s.1 s.2 with ⟨hm, hread⟩ | hm
  · rw [hm]
    refine ⟨fun q u hu => hi.only q u (hsame q u hu), fun u hu => hi.entry u (hsame home u hu), ?_,
      hi.kept⟩
    intro hlost hnone
    cases hheld : heldUser h s.1 home with
    | none => exact hi.stored hlost hheld
    | some u =>
        have hp : home = p := by
          by_contra hp
          rw [heldUser_stop, if_neg hp, hheld] at hnone
          cases hnone
        exact (hread u (hp ▸ hheld)) ▸ hi.entry u hheld
  · rw [hm]
    exact ⟨fun q u hu => hi.only q u (hsame q u hu), fun u hu => hi.entry u (hsame home u hu),
      (fun hlost => by cases hlost), hi.kept⟩

/-- An event changes no settings. -/
theorem sameSettings_enter {ev : Ev} (he : (settingsMachine env h home).enter ev s = some s') :
    SameSettings h s s' := by
  obtain ⟨-, hst, hm⟩ := enter_monitored he
  rcases enter_cases hst with hst | hst
  · rw [show s' = s from Prod.ext hst hm]
    exact ⟨fun _ => rfl, fun _ _ => rfl, rfl⟩
  · rw [show s' = (_, s.2) from Prod.ext hst hm]
    exact sameSettings_onMem (f := fun m => { m with booting := true }) rfl

/-- Whether the handle is known does not change. -/
theorem SameSettings.setsKnown_eq (hs : SameSettings h s s') (ev : Ev) :
    setsKnown h ev s'.1 = setsKnown h ev s.1 := by
  have hsome : ∀ p, (heldUser h s'.1 p).isSome = (heldUser h s.1 p).isSome := fun p => by
    rw [← Option.isSome_map (f := User.settings), hs.held, Option.isSome_map]
  unfold setsKnown
  split
  · exact hsome _
  · exact hsome _
  · rfl

/-- The invariant holds in every state of a run, and what is left of the programs is safe. -/
theorem current_reach {w : World (settingsMachine env h home)}
    (hw : (settingsMachine env h home).Reach
      (fun s => (∀ p, heldUser h s.1 p = none) ∧ s.2 = SettingNotes.none) w) :
    Current h home w.st ∧
      ∀ t ∈ w.pool, Rely.TaskSafe (settingsRely env h home) Ev.mayThrow t w.st := by
  refine Rely.reach_tasks (R := settingsRely env h home) ?_ ?_ ?_ ?_ hw
  · rintro ⟨st, m⟩ ⟨hnone, rfl⟩
    refine ⟨fun p u hu => ?_, fun u hu => ?_, fun _ _ => ⟨?_, ?_⟩, rfl⟩
    · cases (hnone p).symm.trans hu
    · cases (hnone home).symm.trans hu
    · exact fun b hb => by cases hb
    · exact fun level hl => by cases hl
  · intro ev s s' hi he
    exact (sameSettings_enter he).moves hi
  · intro ev s s' he hi
    obtain ⟨hguard, -, -⟩ := enter_monitored he
    obtain ⟨⟨-, hev⟩, hknown⟩ : (s.2.lost = false ∧ ev.concerns h = true) ∧
        setsKnown h ev s.1 = true := by simpa using hguard
    exact safe_event hev (((sameSettings_enter he).setsKnown_eq ev).trans hknown)
  · intro p s hi
    refine ⟨hi.stop p, fun q hq => ⟨fun hnone => ?_, fun _ _ _ _ => rfl⟩⟩
    exact ((heldUser_stop s.1 p q).trans (if_neg hq)).symm.trans hnone

end

/-- In every run in which the handle has a home, the calls about its settings succeed, every entry
has the settings that were set last, a process that boots finds them in the store, and no entry
resets what is stored. -/
theorem settings_current (env : Env) (h : Str) (home : Pid)
    {w : World (settingsMachine env h home)}
    (hw : (settingsMachine env h home).Reach
      (fun s => (∀ p, heldUser h s.1 p = none) ∧ s.2 = SettingNotes.none) w) :
    (∀ t ∈ w.pool, ∀ p c, t.ev = Ev.call p c → ∀ e, t.prog ≠ .throw e) ∧
      (∀ p u, heldUser h w.st.1 p = some u → w.st.2.Agrees u.settings) ∧
      (w.st.2.lost = false → heldUser h w.st.1 home = none → w.st.2.Agrees (readBack h w.st.1)) ∧
      w.st.2.reset = false := by
  obtain ⟨hi, htasks⟩ := current_reach hw
  refine ⟨?_, ?_, hi.stored, hi.kept⟩
  · intro t ht p c hev e
    refine (htasks t ht).not_thrown hi ?_
    rw [hev]
    exact id
  · intro p u hu
    cases hi.only p u hu
    exact hi.entry u hu

namespace Sample

/-- A call about the settings of `alice`. -/
def settingCall (p : Pid) (c : Str → Call) : Ev := .call p (c (some "alice"))

/-- The agent boots and gets to know `alice`, who switches auto-trading on. -/
def setAuto (M : Machine sig Err) (ev : Ev → M.Ev) (ans : (c : Cmd) → M.Ans c) : List M.Choice :=
  serve M ans (ev .boot) 0 3 ++ serve M ans (ev (settingCall .agent .ensure)) 1 4 ++
    serve M ans (ev (settingCall .agent (.toggleAuto · (some true)))) 2 0 ++
    (List.replicate 2 [.reply 3 ans, .resume 3 fun _ => ans]).flatten

/-- What `alice` has in the two processes and in the store, and what is noted. -/
def outcomes {M : Machine sig Err} (view : M.St → St × SettingNotes)
    (agent api : Option UserSettings) (stored : String) (reset : Bool) (w : World M) : Bool :=
  (heldUser (some "alice") (view w.st).1 .agent).map User.settings = agent &&
    (heldUser (some "alice") (view w.st).1 .api).map User.settings = api &&
    storedField (some "alice") (view w.st).1 "auto" = some stored &&
    (view w.st).2.auto = some true && (view w.st).2.reset = reset

theorem outcomes_iff {M : Machine sig Err} {view : M.St → St × SettingNotes}
    {agent api : Option UserSettings} {stored : String} {reset : Bool} {w : World M} :
    outcomes view agent api stored reset w = true ↔
      ((heldUser (some "alice") (view w.st).1 .agent).map User.settings = agent ∧
        (heldUser (some "alice") (view w.st).1 .api).map User.settings = api) ∧
      storedField (some "alice") (view w.st).1 "auto" = some stored ∧
      (view w.st).2.auto = some true ∧ (view w.st).2.reset = reset := by
  simp [outcomes, and_assoc]

/-- A call in the API server has failed. -/
def callFails {M : Machine sig Err} (view : M.Ev → Ev) (t : Task M) : Bool :=
  match view t.ev, t.prog with
  | .call .api _, .throw _ => true
  | _, _ => false

theorem callFails_iff {M : Machine sig Err} {view : M.Ev → Ev} {t : Task M} :
    callFails view t = true ↔ ∃ c e, view t.ev = .call .api c ∧ t.prog = .throw e := by
  unfold callFails
  split
  next c e hev hprog => simp [hev, hprog]
  next hne =>
    simp only [Bool.false_eq_true, false_iff, not_exists, not_and]
    exact fun c e => hne c e

theorem settings_current_sample :
    ∃ w u, (settingsMachine env (some "alice") .agent).Reach
        (fun s => (∀ p, heldUser (some "alice") s.1 p = none) ∧ s.2 = SettingNotes.none) w ∧
      heldUser (some "alice") w.st.1 .agent = some u ∧ u.auto = true := by
  have hrun : (Machine.nexts (M := settingsMachine env (some "alice") .agent)
      ⟨(St.fresh env 0, SettingNotes.none), [], []⟩ (setAuto _ id (online alice))).any
      (outcomes id (some ⟨true, some "med"⟩) none "true" false) = true := by
    decide +kernel
  obtain ⟨w, hreach, hw⟩ := Machine.Reach.of_run (I := fun s : St × SettingNotes =>
    (∀ p, heldUser (some "alice") s.1 p = none) ∧ s.2 = SettingNotes.none) ⟨fun _ => rfl, rfl⟩ hrun
  obtain ⟨⟨hagent, -⟩, -, hauto, -⟩ := outcomes_iff.mp hw
  obtain ⟨u, hu, -⟩ := Option.map_eq_some_iff.mp hagent
  obtain ⟨-, hentry, -⟩ := settings_current env (some "alice") .agent hreach
  exact ⟨w, u, hreach, hu, (hentry .agent u hu).1 true hauto⟩

/-- `alice` switches auto-trading on in the agent.  The API server does not know the handle, so
the same call fails there.  Then it makes an entry of its own, which has auto-trading off and
resets what is stored. -/
def setElsewhere (M : Machine sig Err) (ev : Ev → M.Ev) (ans : Keypair → (c : Cmd) → M.Ans c) :
    List M.Choice :=
  setAuto M ev (ans alice) ++
    serve M (ans bob) (ev (settingCall .api (.toggleAuto · (some true)))) 4 0 ++
    serve M (ans bob) (ev (settingCall .api .ensure)) 5 2

theorem settings_apart :
    ∃ w, ((machine env).observed (settingsObserver env (some "alice"))).Reach
        (fun s => (∀ p, heldUser (some "alice") s.1 p = none) ∧ s.2 = SettingNotes.none) w ∧
      (∃ t ∈ w.pool, ∃ c e, t.ev = Ev.call .api c ∧ t.prog = .throw e) ∧
      (∃ u, heldUser (some "alice") w.st.1 .api = some u ∧ ¬ w.st.2.Agrees u.settings) ∧
      w.st.2.reset = true ∧ storedField (some "alice") w.st.1 "auto" = some "false" := by
  have hrun : (Machine.nexts (M := (machine env).observed (settingsObserver env (some "alice")))
      ⟨(St.fresh env 0, SettingNotes.none), [], []⟩ (setElsewhere _ id online)).any
      (fun w => outcomes id (some ⟨true, some "med"⟩) (some ⟨false, some "med"⟩) "false" true w &&
        w.pool.any (callFails id)) = true := by
    decide +kernel
  obtain ⟨w, hreach, hw⟩ := Machine.Reach.of_run (I := fun s : St × SettingNotes =>
    (∀ p, heldUser (some "alice") s.1 p = none) ∧ s.2 = SettingNotes.none) ⟨fun _ => rfl, rfl⟩ hrun
  obtain ⟨hout, hfails⟩ := Bool.and_eq_true_iff.mp hw
  obtain ⟨⟨-, hapi⟩, hstored, hauto, hreset⟩ := outcomes_iff.mp hout
  obtain ⟨u, hu, hsettings⟩ := Option.map_eq_some_iff.mp hapi
  obtain ⟨t, ht, hfail⟩ := List.any_eq_true.mp hfails
  refine ⟨w, hreach, ⟨t, ht, callFails_iff.mp hfail⟩, ⟨u, hu, fun hagrees => ?_⟩, hreset,
    hstored⟩
  -- auto-trading was set to on, and the entry has it off
  have hon := hagrees.1 true hauto
  rw [hsettings] at hon
  cases hon

end Sample

end Nexus
