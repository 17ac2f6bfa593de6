import NexusErebus.Async.Duties
import NexusErebus.Buttons

/-!
# Texts taken for launch configurations

A press of the button for a manual launch asks for a text.  When the question has been sent, the
handle of the button is put into a set, and the next text of a user with that handle is taken out
of the order and launched.

So the set is filled late, under a handle that need not be the one of the presser, and nothing but
a text takes a handle out again.  `manual_asked` says what is left: in every run in which nobody
runs ahead of their own updates, presses the button of somebody else, presses another button
instead of sending the text, or talks past the bot, a text is taken just if the last thing its user
did was to press the button.

The argument follows each handler to the command that reads or changes the set (`Duties`).
-/

namespace Nexus

open Async Text

/-! ## What was asked for -/

/-- The user of a press or a text.  `/start` is neither. -/
def Update.user : Update → Option String
  | .start _ _ => none
  | .press sender _ _ _ _ => some sender.handle
  | .text sender _ _ _ => some sender.handle

/-- The button for a manual launch was pressed. -/
def Update.isManual : Update → Bool
  | .press _ _ _ data _ => (readData data).1 = some .manual
  | _ => false

/-- The last thing a user did was to press the button. -/
def asked (h : String) (us : List Update) : Bool :=
  (us.filter (·.user = some h)).getLast?.any Update.isManual

/-- The last thing a user did before the update number `n` was to press the button, by the update
number `m`. -/
structure LastPress (us : List Update) (m n : Nat) (h : String) : Prop where
  before : m < n
  press : ∃ u, us[m]? = some u ∧ u.user = some h ∧ u.isManual = true
  nothing : ∀ i v, m < i → i < n → us[i]? = some v → v.user ≠ some h

/-- The press number `m` asks for the update number `n`: its user did nothing in between. -/
def Prompts (us : List Update) (m n : Nat) : Prop :=
  ∃ u h, us[n]? = some u ∧ u.user = some h ∧ LastPress us m n h

section

variable {us : List Update} {h : String}

theorem asked_append (us : List Update) (u : Update) :
    asked h (us ++ [u]) = if u.user = some h then u.isManual else asked h us := by
  unfold asked
  split
  next hu => simp [List.filter_append, hu]
  next hu => simp [List.filter_append, hu]

theorem take_succ_of_getElem? {n : Nat} {u : Update} (hu : us[n]? = some u) :
    us.take (n + 1) = us.take n ++ [u] := by
  rw [List.take_add_one, hu]
  rfl

/-- What others do later does not matter. -/
theorem asked_take {k : Nat} (hk : ∀ i v, k ≤ i → us[i]? = some v → v.user ≠ some h) :
    asked h (us.take k) = asked h us := by
  have hlater : (us.drop k).filter (·.user = some h) = [] := by
    refine List.filter_eq_nil_iff.mpr fun v hv => ?_
    obtain ⟨i, hi⟩ := List.mem_iff_getElem?.mp hv
    rw [List.getElem?_drop] at hi
    simpa using hk _ v (Nat.le_add_right k i) hi
  have hsplit : us.filter (·.user = some h) = (us.take k).filter (·.user = some h) := by
    rw [← List.append_nil (List.filter _ (us.take k)), ← hlater, ← List.filter_append,
      List.take_append_drop]
  rw [asked, asked, hsplit]

/-- The last thing a user did decides. -/
theorem asked_of_last {n : Nat} {u : Update} (hu : us[n]? = some u) (hmine : u.user = some h)
    (hlast : ∀ i v, n < i → us[i]? = some v → v.user ≠ some h) : asked h us = u.isManual := by
  rw [← asked_take (k := n + 1) fun i v hi => hlast i v hi, take_succ_of_getElem? hu, asked_append,
    if_pos hmine]

theorem asked_iff {n : Nat} (hn : n ≤ us.length) :
    asked h (us.take n) = true ↔ ∃ m, LastPress us m n h := by
  induction n with
  | zero => exact iff_of_false (by simp [asked]) fun ⟨m, hm⟩ => absurd hm.before (by omega)
  | succ n ih =>
      obtain ⟨u, hu⟩ : ∃ u, us[n]? = some u := ⟨us[n], List.getElem?_eq_getElem hn⟩
      rw [take_succ_of_getElem? hu, asked_append]
      split
      next hmine =>
        constructor
        · exact fun hm => ⟨n, Nat.lt_succ_self n, ⟨u, hu, hmine, hm⟩, fun i v h₁ h₂ => by omega⟩
        · rintro ⟨m, hm⟩
          obtain ⟨u', hu', -, hmanual⟩ := hm.press
          rcases Nat.lt_succ_iff_lt_or_eq.mp hm.before with hlt | rfl
          · exact absurd hmine (hm.nothing n u hlt (Nat.lt_succ_self n) hu)
          · rwa [Option.some.inj (hu.symm.trans hu')]
      next hother =>
        rw [ih (Nat.le_of_succ_le hn)]
        constructor
        · rintro ⟨m, hm⟩
          refine ⟨m, Nat.lt_succ_of_lt hm.before, hm.press, fun i v h₁ h₂ hv => ?_⟩
          rcases Nat.lt_succ_iff_lt_or_eq.mp h₂ with hlt | rfl
          · exact hm.nothing i v h₁ hlt hv
          · rwa [← Option.some.inj (hu.symm.trans hv)]
        · rintro ⟨m, hm⟩
          obtain ⟨u', hu', hmine, -⟩ := hm.press
          rcases Nat.lt_succ_iff_lt_or_eq.mp hm.before with hlt | rfl
          · exact ⟨m, hlt, hm.press, fun i v h₁ h₂ => hm.nothing i v h₁ (Nat.lt_succ_of_lt h₂)⟩
          · exact absurd (Option.some.inj (hu.symm.trans hu') ▸ hmine) hother

/-- A press asks for one update. -/
theorem Prompts.unique {m n n' : Nat} (hn : Prompts us m n) (hn' : Prompts us m n') : n = n' := by
  obtain ⟨u, h, hu, hmine, hlast⟩ := hn
  obtain ⟨u', h', hu', hmine', hlast'⟩ := hn'
  -- the presser is the user of both
  obtain rfl : h = h' := by
    obtain ⟨v, hv, hh, -⟩ := hlast.press
    obtain ⟨v', hv', hh', -⟩ := hlast'.press
    cases Option.some.inj (hv.symm.trans hv')
    exact Option.some.inj (hh.symm.trans hh')
  rcases Nat.lt_trichotomy n n' with hlt | heq | hlt
  · exact absurd hmine (hlast'.nothing n u hlast.before hlt hu)
  · exact heq
  · exact absurd hmine' (hlast.nothing n' u' hlast'.before hlt hu')

end

/-! ## The machine -/

/-- The text is not for the bot. -/
def chatter (chat : Chat) (text : String) (hasMention : Bool) : Bool :=
  !chat.isPrivate && !hasMention && !startsWith text "/"

/-- What the handlers have done with the set. -/
structure ManualLog where
  /-- The texts that were looked up, with the answers, oldest first. -/
  checks : List (Nat × Bool)
  /-- The updates that have had their effect on the set. -/
  done : List Nat

section

variable (env : Env)

/-- The agent, listening to Telegram. -/
def telegramAgent : Machine sig Err :=
  processes env (fun _ => .agent) (Update.body env) fun u st => Ev.enter (.telegram u) st

/-- The observer of the set.  A text that is not in the set is done with it. -/
def manualObserver : Observer (telegramAgent env).calls where
  Memo := ManualLog
  note (n : Nat) c _ r log :=
    match c, r with
    | .manualHas _, (awaited : Bool) =>
        ⟨log.checks ++ [(n, awaited)], if awaited then log.done else n :: log.done⟩
    | .manualAdd _, _ | .manualDelete _, _ => { log with done := n :: log.done }
    | _, _ => log
  noteCrash _ _ log := log

end

/-- The state, the updates, and what was done with the set. -/
abbrev ManualSt := (St × List Update) × ManualLog

/-- The update changes the set. -/
def Update.flags (u : Update) : Bool :=
  match u with
  | .text .. => true
  | _ => u.isManual

/-- What a user did has had its effect. -/
def settled (s : ManualSt) (h : String) : Bool :=
  s.1.2.zipIdx.all fun (u, n) => !(decide (u.user = some h) && u.flags) || s.2.done.contains n

/-- An update comes when everything before it has had its effect.  The button for a manual launch is
pressed by its owner, who then sends a text before pressing anything else.  Any other text is for the
bot. -/
def orderly (ev : Nat × Update) (s : ManualSt) : Bool :=
  match ev.2 with
  | .start _ _ => true
  | .press sender _ _ data _ =>
      settled s sender.handle && if ev.2.isManual then (readData data).2 = some sender.handle
        else !asked sender.handle s.1.2
  | .text sender chat said hasMention =>
      settled s sender.handle && (asked sender.handle s.1.2 || !chatter chat said hasMention)

section

variable (env : Env)

/-- The orderly runs. -/
def manualMachine : Machine sig Err :=
  (telegramAgent env).calls.monitored (manualObserver env) orderly fun _ _ _ => true

/-- What the handler of a text does once it knows whether the text is awaited. -/
def afterCheck (sender : TgAccount) (chat : Chat) (text : String) (hasMention : Bool) :
    Bool → Prog Unit
  | true => do
      ask (.manualDelete (some sender.handle))
      onManual env chat (some sender.handle) text
  | false =>
      if chatter chat text hasMention then return ()
      else do
        ask .tick
        .spawn (handleMessage env
          ⟨some sender.handle, some (forAgent env text), none, some (.telegram chat.id)⟩)

theorem onText_eq (sender : TgAccount) (chat : Chat) (text : String) (hasMention : Bool) :
    onText env sender chat text hasMention =
      .call (.manualHas (some sender.handle)) (afterCheck env sender chat text hasMention) := by
  refine congrArg (Prog.call (S := sig) _) (funext fun awaited => ?_)
  cases awaited with
  | true => rfl
  | false => rfl

end

/-- Nothing has happened yet. -/
def ManualStarted (s : ManualSt) : Prop :=
  (s.1.1.mem .agent).awaitingManual = [] ∧ s.1.2 = [] ∧ s.2 = ⟨[], []⟩

/-! ## The invariant -/

/-- How the set stands with a user, given the updates and which of them are done. -/
structure FlagOk (us : List Update) (done : List Nat) (flag : Prop) (h : String) : Prop where
  /-- An update that is not done is the last of its user, and the set is as it was before it. -/
  pending : ∀ n u, us[n]? = some u → u.user = some h → u.flags = true → n ∉ done →
    (flag ↔ asked h (us.take n) = true) ∧ ∀ m v, n < m → us[m]? = some v → v.user ≠ some h
  /-- When everything is done the set is as it should be. -/
  idle : (∀ n u, us[n]? = some u → u.user = some h → u.flags = true → n ∈ done) →
    (flag ↔ asked h us = true)

section

variable {us : List Update} {done : List Nat} {flag : Prop} {h : String} {n : Nat} {u : Update}

theorem flags_of_isManual {u : Update} (h : u.isManual = true) : u.flags = true := by
  cases u with
  | text => rfl
  | _ => exact h

/-- An update of somebody else comes in. -/
theorem FlagOk.enter_other (hf : FlagOk us done flag h) (hu : u.user ≠ some h) :
    FlagOk (us ++ [u]) done flag h := by
  have hold : ∀ {n : Nat} {v : Update}, (us ++ [u])[n]? = some v → v.user = some h → us[n]? = some v := by
    intro n v hv hmine
    rcases getElem?_concat_cases hv with hv | ⟨-, rfl⟩
    · exact hv
    · exact absurd hmine hu
  constructor
  · intro n v hv hmine hflags hdone
    obtain ⟨hflag, hlast⟩ := hf.pending n v (hold hv hmine) hmine hflags hdone
    have hlt := (List.getElem?_eq_some_iff.mp (hold hv hmine)).1
    rw [List.take_append_of_le_length hlt.le]
    exact ⟨hflag, fun m w hm hw hmine' => hlast m w hm (hold hw hmine') hmine'⟩
  · intro hall
    rw [asked_append, if_neg hu]
    exact hf.idle fun n v hv => hall n v (getElem?_extends (List.prefix_append _ _) hv)

/-- An update comes in after everything before it is done. -/
theorem FlagOk.enter_mine (hf : FlagOk us done flag h) (hu : u.user = some h)
    (hsettled : ∀ n v, us[n]? = some v → v.user = some h → v.flags = true → n ∈ done)
    (hfresh : us.length ∉ done) (hother : u.flags = false → asked h us = false) :
    FlagOk (us ++ [u]) done flag h := by
  have hflag := hf.idle hsettled
  constructor
  · intro n v hv hmine hflags hdone
    rcases getElem?_concat_cases hv with hv | ⟨rfl, rfl⟩
    · exact absurd (hsettled n v hv hmine hflags) hdone
    · rw [List.take_left']
      · refine ⟨hflag, fun m w hm hw => ?_⟩
        have hlt := (List.getElem?_eq_some_iff.mp hw).1
        rw [List.length_append, List.length_singleton] at hlt
        omega
      · rfl
  · intro hall
    cases hflags : u.flags with
    | true => exact absurd (hall us.length u List.getElem?_concat_length hu hflags) hfresh
    | false =>
        have hmanual : u.isManual = false := by
          by_contra hm
          rw [flags_of_isManual (by simpa using hm)] at hflags
          cases hflags
        rw [asked_append, if_pos hu, hmanual, hflag, hother hflags]

/-- An update has its effect. -/
theorem FlagOk.settle (hf : FlagOk us done flag h) (hu : us[n]? = some u) (hmine : u.user = some h)
    (hflags : u.flags = true) (hdone : n ∉ done) {flag' : Prop}
    (hflag : flag' ↔ u.isManual = true) : FlagOk us (n :: done) flag' h := by
  obtain ⟨-, hlast⟩ := hf.pending n u hu hmine hflags hdone
  constructor
  · intro m v hv hmine' hflags' hdone'
    obtain ⟨hne, hdone'⟩ := not_or.mp (mt List.mem_cons.mpr hdone')
    rcases Nat.lt_or_gt_of_ne hne with hlt | hlt
    · exact absurd hmine ((hf.pending m v hv hmine' hflags' hdone').2 n u hlt hu)
    · exact absurd hmine' (hlast m v hlt hv)
  · intro _
    rw [asked_of_last hu hmine hlast, hflag]

/-- An update of somebody else has its effect. -/
theorem FlagOk.settle_other (hf : FlagOk us done flag h) (hu : us[n]? = some u)
    (hother : u.user ≠ some h) : FlagOk us (n :: done) flag h := by
  constructor
  · exact fun m v hv hmine hflags hdone =>
      hf.pending m v hv hmine hflags fun hmem => hdone (List.mem_cons_of_mem _ hmem)
  · refine fun hall => hf.idle fun m v hv hmine hflags => ?_
    rcases List.mem_cons.mp (hall m v hv hmine hflags) with rfl | hmem
    · exact absurd (Option.some.inj (hu.symm.trans hv) ▸ hmine) hother
    · exact hmem

end

/-! ## Commands beside the set -/

/-- The command reads or changes the set. -/
def Cmd.manual : Cmd → Bool
  | .manualHas _ | .manualAdd _ | .manualDelete _ => true
  | _ => false

/-- The program leaves the set alone. -/
abbrev Unflagged {α : Type} (q : Prog α) : Prop := q.Issues fun c : Cmd => c.manual = false

section

variable {env : Env}

theorem manual_of_errand {h : Str} {c : Cmd} (hc : c.errand h) : c.manual = false := by
  cases c with
  | manualHas | manualAdd | manualDelete => cases hc
  | _ => rfl

theorem unflagged_errand {α : Type} {h : Str} {q : Prog α} (hq : q.Issues (Cmd.errand h)) :
    Unflagged q :=
  Prog.issues_mono (fun _ => manual_of_errand) hq

theorem unflagged_ensure (h : Str) : Unflagged (ensure env h) :=
  issues_ensure (fun _ => manual_of_errand) rfl fun _ => rfl

theorem unflagged_walletOf (h : Str) : Unflagged (walletOf env h) :=
  issues_walletOf (fun _ => manual_of_errand) rfl (fun _ => rfl) fun _ => rfl

theorem unflagged_handleMessage (m : Message) : Unflagged (handleMessage env m) := by
  refine closed_message_of (Prog.closed_issues _) (fun c hc => issues_ask (manual_of_errand hc))
    (unflagged_ensure m.handle) (unflagged_walletOf m.handle) rfl fun cmd _ => ?_
  refine Prog.issues_bind (issues_await rfl (issues_ask rfl)) fun _ => ?_
  cases m.reply with
  | some r => exact Prog.issues_spawn (unflagged_errand (errand_send (h := none) r _))
  | none => exact .ret ()

theorem unflagged_afterCheck (sender : TgAccount) (chat : Chat) (text : String)
    (hasMention : Bool) : Unflagged (afterCheck env sender chat text hasMention false) := by
  simp only [afterCheck]
  split
  · exact .ret ()
  · exact Prog.issues_bind (issues_ask rfl) fun _ =>
      Prog.issues_spawn (unflagged_handleMessage _)

/-- Before its action a button is acknowledged. -/
theorem unflagged_onCallback {sender : TgAccount} {chat : Chat} {msgId : Nat} {data time : String}
    (h : (readData data).1 ≠ some .manual) :
    Unflagged (onCallback env sender chat msgId data time) := by
  refine Prog.issues_bind (issues_ask rfl) fun _ => ?_
  refine Prog.issues_bind (Prog.issues_outcome (issues_attempt (issues_ask rfl))) fun _ => ?_
  cases haction : (readData data).1 with
  | none => exact .ret ()
  | some a =>
      refine closed_act_of (Prog.closed_issues _) (fun c hc => issues_ask (manual_of_errand hc))
        (unflagged_ensure _) (unflagged_walletOf _) chat msgId _ time
        (fun _ _ => unflagged_handleMessage _) fun ha => ?_
      rw [haction, ha] at h
      exact absurd rfl h

theorem exec_awaitingManual {c : Cmd} (hc : c.manual = false) (st : St) (a : c.Ans) :
    ((exec .agent c st a).2.mem .agent).awaitingManual = (st.mem .agent).awaitingManual := by
  cases c with
  | manualHas | manualAdd | manualDelete => cases hc
  | usersSet | usersAssign | watch | decimalsSet | configSet | hpSet | lastIncidentSet | ready =>
      simp [exec]
  | tryRedis c =>
      cases a with
      | none => rfl
      | some e => rfl
  | _ => rfl

end

/-! ## Duties -/

/-- The handle is in the set. -/
def Flagged (st : St) (h : String) : Prop := some h ∈ (st.mem .agent).awaitingManual

/-- The set is as the updates that are done have left it. -/
structure ManualInv (s : ManualSt) : Prop where
  flags : ∀ h, FlagOk s.1.2 s.2.done (Flagged s.1.1 h) h
  /-- A text that was not asked for is for the bot. -/
  texts : ∀ (n : Nat) sender chat said hasMention,
    s.1.2[n]? = some (.text sender chat said hasMention) →
      asked sender.handle (s.1.2.take n) = true ∨ chatter chat said hasMention = false
  checks : ∀ n b, (n, b) ∈ s.2.checks → ∃ sender chat said hasMention,
    s.1.2[n]? = some (.text sender chat said hasMention) ∧
      b = asked sender.handle (s.1.2.take n)
  once : (s.2.checks.map Prod.fst).Nodup
  done : ∀ n ∈ s.2.done, n < s.1.2.length

section

variable (env : Env)

/-- What the handlers still have to do with the set. -/
inductive ManualOwes : Nat × Update → (c : Cmd) → (c.Res → Prog Unit) → ManualSt → Prop
  | check {n : Nat} {sender : TgAccount} {chat : Chat} {said : String} {hasMention : Bool}
      {s : ManualSt} (hdone : n ∉ s.2.done) (hchecks : n ∉ s.2.checks.map Prod.fst) :
      ManualOwes (n, .text sender chat said hasMention) (.manualHas (some sender.handle))
        (afterCheck env sender chat said hasMention) s
  | drop {n : Nat} {sender : TgAccount} {chat : Chat} {said : String} {hasMention : Bool}
      {s : ManualSt} (hdone : n ∉ s.2.done) :
      ManualOwes (n, .text sender chat said hasMention) (.manualDelete (some sender.handle))
        (fun _ => onManual env chat (some sender.handle) said) s
  | add {n : Nat} {sender : TgAccount} {chat : Chat} {msgId : Nat} {data time : String}
      {s : ManualSt} (hmanual : (readData data).1 = some .manual) (hdone : n ∉ s.2.done) :
      ManualOwes (n, .press sender chat msgId data time) (.manualAdd (some sender.handle)) .ret s

/-- The argument about the set. -/
def manualDuties : Duties (manualMachine env) where
  inv := ManualInv
  known ev s := s.1.2[ev.1]? = some ev.2
  pre _ c := c.manual = false
  owes := ManualOwes env

end

section

variable {env : Env} {s s' : ManualSt} {n : Nat} {u : Update}

/-- Another update has had its effect. -/
theorem ManualOwes.later {ev : Nat × Update} {c : Cmd} {k : c.Res → Prog Unit}
    (h : ManualOwes env ev c k s) (hdone : ev.1 ∉ s.2.done → ev.1 ∉ s'.2.done)
    (hchecks : ev.1 ∉ s.2.checks.map Prod.fst → ev.1 ∉ s'.2.checks.map Prod.fst) :
    ManualOwes env ev c k s' := by
  cases h with
  | check hd hc => exact .check (hdone hd) (hchecks hc)
  | drop hd => exact .drop (hdone hd)
  | add hm hd => exact .add hm (hdone hd)

/-- Nothing happens to the set. -/
theorem ManualInv.same (hi : ManualInv s) (hus : s'.1.2 = s.1.2) (hlog : s'.2 = s.2)
    (hset : (s'.1.1.mem .agent).awaitingManual = (s.1.1.mem .agent).awaitingManual) :
    ManualInv s' := by
  have hflag : ∀ h, Flagged s'.1.1 h = Flagged s.1.1 h := fun h => by rw [Flagged, hset]; rfl
  constructor
  · intro h
    rw [hus, hlog, hflag]
    exact hi.flags h
  · rw [hus]
    exact hi.texts
  · rw [hus, hlog]
    exact hi.checks
  · rw [hlog]
    exact hi.once
  · rw [hus, hlog]
    exact hi.done

/-- A text is looked up. -/
theorem ManualInv.check (hi : ManualInv s) {sender : TgAccount} {chat : Chat} {said : String}
    {hasMention : Bool} (hev : s.1.2[n]? = some (.text sender chat said hasMention))
    (hdone : n ∉ s.2.done) (hchecks : n ∉ s.2.checks.map Prod.fst) {awaited : Bool}
    (hawaited : awaited = decide (some sender.handle ∈ (s.1.1.mem .agent).awaitingManual)) :
    (∀ m b, (m, b) ∈ s.2.checks ++ [(n, awaited)] → ∃ sender chat said hasMention,
      s.1.2[m]? = some (.text sender chat said hasMention) ∧
        b = asked sender.handle (s.1.2.take m)) ∧
    ((s.2.checks ++ [(n, awaited)]).map Prod.fst).Nodup := by
  constructor
  · intro m b hmem
    rcases List.mem_append.mp hmem with hmem | hmem
    · exact hi.checks m b hmem
    · cases List.mem_singleton.mp hmem
      refine ⟨sender, chat, said, hasMention, hev, ?_⟩
      have hflag := ((hi.flags sender.handle).pending n _ hev rfl rfl hdone).1
      rw [hawaited, Bool.eq_iff_iff, decide_eq_true_iff]
      exact hflag
  · rw [List.map_append]
    refine List.nodup_append.mpr ⟨hi.once, by simp, fun m hm m' hm' he => hchecks ?_⟩
    rw [List.map_singleton, List.mem_singleton] at hm'
    have hmn : m = n := he.trans hm'
    exact hmn ▸ hm

/-- An update has its effect on the set. -/
theorem ManualInv.settle (hi : ManualInv s) (hev : s.1.2[n]? = some u) {h : String}
    (hmine : u.user = some h) (hflags : u.flags = true) (hdone : n ∉ s.2.done)
    (hus : s'.1.2 = s.1.2) (hdone' : s'.2.done = n :: s.2.done)
    (hchecks : ∀ m b, (m, b) ∈ s'.2.checks → ∃ sender chat said hasMention,
      s.1.2[m]? = some (.text sender chat said hasMention) ∧
        b = asked sender.handle (s.1.2.take m))
    (honce : (s'.2.checks.map Prod.fst).Nodup)
    (hflag : ∀ h', Flagged s'.1.1 h' ↔ if h' = h then u.isManual = true else Flagged s.1.1 h') :
    ManualInv s' := by
  constructor
  · intro h'
    rw [hus, hdone']
    by_cases he : h' = h
    · subst he
      exact (hi.flags h').settle hev hmine hflags hdone ((hflag h').trans (by rw [if_pos rfl]))
    · have hsame : Flagged s'.1.1 h' = Flagged s.1.1 h' :=
        propext ((hflag h').trans (by rw [if_neg he]))
      rw [hsame]
      refine (hi.flags h').settle_other hev fun hu => he ?_
      exact Option.some.inj (hu.symm.trans hmine)
  · rw [hus]
    exact hi.texts
  · rw [hus]
    exact hchecks
  · exact honce
  · rw [hus, hdone']
    exact List.forall_mem_cons.mpr ⟨(List.getElem?_eq_some_iff.mp hev).1, hi.done⟩

theorem ManualInv.lt_of_checked (hi : ManualInv s) (hn : n ∈ s.2.checks.map Prod.fst) :
    n < s.1.2.length := by
  obtain ⟨⟨m, b⟩, hmem, rfl⟩ := List.mem_map.mp hn
  obtain ⟨_, _, _, _, hm, -⟩ := hi.checks m b hmem
  exact (List.getElem?_eq_some_iff.mp hm).1

theorem settled_iff {h : String} : settled s h = true ↔
    ∀ (n : Nat) u, s.1.2[n]? = some u → u.user = some h → u.flags = true → n ∈ s.2.done := by
  simp only [settled, List.all_eq_true, Prod.forall, List.mem_zipIdx_iff_getElem?]
  refine ⟨fun hall n u hu hmine hflags => ?_, fun hall u n hu => ?_⟩
  · simpa [hmine, hflags] using hall u n hu
  · by_cases hmine : u.user = some h ∧ u.flags = true
    · simpa [hmine.1, hmine.2] using hall n u hu hmine.1 hmine.2
    · simp only [not_and, Bool.not_eq_true] at hmine
      by_cases hh : u.user = some h
      · simp [hmine hh]
      · simp [hh]

/-- What is asked of an update that comes in, for its user. -/
theorem orderly_user {h : String} (ho : orderly (n, u) s = true) (hu : u.user = some h) :
    settled s h = true ∧ (u.flags = false → asked h s.1.2 = false) := by
  cases u with
  | start => cases hu
  | press sender chat msgId data time =>
      cases hu
      obtain ⟨hsettled, hrest⟩ := (Bool.and_eq_true_iff ..).mp ho
      refine ⟨hsettled, fun hflags => ?_⟩
      rw [if_neg (by simpa [Update.flags] using hflags)] at hrest
      simpa using hrest
  | text sender chat said hasMention =>
      cases hu
      exact ⟨((Bool.and_eq_true_iff ..).mp ho).1, nofun⟩

/-- An update comes in. -/
theorem ManualInv.enter (hi : ManualInv s) (ho : orderly (n, u) s = true)
    (hst : s'.1.1 = s.1.1) (hus : s'.1.2 = s.1.2 ++ [u]) (hlog : s'.2 = s.2) : ManualInv s' := by
  have htake : ∀ {m : Nat} {v : Update}, s.1.2[m]? = some v →
      (s.1.2 ++ [u]).take m = s.1.2.take m := fun hv =>
    List.take_append_of_le_length (List.getElem?_eq_some_iff.mp hv).1.le
  constructor
  · intro h
    rw [hst, hus, hlog]
    by_cases hu : u.user = some h
    · obtain ⟨hsettled, hother⟩ := orderly_user ho hu
      exact (hi.flags h).enter_mine hu (settled_iff.mp hsettled)
        (fun hmem => absurd (hi.done _ hmem) (Nat.lt_irrefl _)) hother
    · exact (hi.flags h).enter_other hu
  · rw [hus]
    intro m sender chat said hasMention hm
    rcases getElem?_concat_cases hm with hm' | ⟨rfl, rfl⟩
    · rw [htake hm']
      exact hi.texts m sender chat said hasMention hm'
    · rw [List.take_left']
      · simpa using ((Bool.and_eq_true_iff ..).mp ho).2
      · rfl
  · rw [hus, hlog]
    intro m b hmem
    obtain ⟨sender, chat, said, hasMention, hm, hb⟩ := hi.checks m b hmem
    refine ⟨sender, chat, said, hasMention, getElem?_extends (List.prefix_append _ _) hm, ?_⟩
    rw [htake hm, hb]
  · rw [hlog]
    exact hi.once
  · rw [hus, hlog, List.length_append]
    exact fun m hm => Nat.lt_add_right _ (hi.done m hm)

/-- The press of the button asks for a text and then puts the handle into the set. -/
theorem onCallback_manual {sender : TgAccount} {chat : Chat} {msgId : Nat} {data time : String}
    {h : Str} (haction : (readData data).1 = some .manual) (hhandle : (readData data).2 = h) :
    ∃ q : Prog Unit, Unflagged q ∧ onCallback env sender chat msgId data time =
      q.bind fun _ => (ask (.manualAdd h) : Prog Unit) := by
  refine ⟨(ask .tick).bind fun _ => (attempt (ask (.telegram .answerCbQuery))).outcome.bind fun _ =>
    await (editOrReply chat msgId "*Please send the launch configuration JSON now.*"
      (launchMenu h)), ?_, ?_⟩
  · refine Prog.issues_bind (issues_ask rfl) fun _ => ?_
    refine Prog.issues_bind (Prog.issues_outcome (issues_attempt (issues_ask rfl))) fun _ => ?_
    exact unflagged_errand (errand_await (errand_editOrReply (h := none) _ _ _ _))
  · rw [onCallback, haction, hhandle, onAction]
    simp only [Prog.bind_eq, Prog.bind_assoc']
    rfl

/-- The handlers come in with their duties. -/
theorem body_does (ho : orderly (n, u) s = true) (hdone : n ∉ s'.2.done)
    (hchecks : n ∉ s'.2.checks.map Prod.fst) :
    (manualDuties env).Does (n, u) (u.body env) s' := by
  cases u with
  | start sender chat => exact .inl (unflagged_errand (errand_onStart (h := none) sender chat))
  | text sender chat said hasMention =>
      refine .inr ?_
      have hbody : (Update.text sender chat said hasMention).body env =
          (Prog.ret ()).bind fun _ => Prog.call (S := sig) (.manualHas (some sender.handle))
            (afterCheck env sender chat said hasMention) :=
        onText_eq env sender chat said hasMention
      rw [hbody]
      exact ⟨.ret (), .check hdone hchecks⟩
  | press sender chat msgId data time =>
      by_cases hmanual : (readData data).1 = some .manual
      · have hown : (readData data).2 = some sender.handle := by
          have hrest := ((Bool.and_eq_true_iff ..).mp ho).2
          have hpress : (Update.press sender chat msgId data time).isManual = true :=
            decide_eq_true hmanual
          rw [if_pos hpress] at hrest
          exact of_decide_eq_true hrest
        obtain ⟨q, hq, hbody⟩ := @onCallback_manual env sender chat msgId data time _ hmanual hown
        refine .inr ?_
        rw [show (Update.press sender chat msgId data time).body env = _ from hbody]
        exact ⟨hq, .add hmanual hdone⟩
      · exact .inl (unflagged_onCallback hmanual)

/-- Steps that leave the log alone leave the duties alone. -/
theorem later_of_log (hi : ManualInv s') (hus : s.1.2 <+: s'.1.2) (hlog : s'.2 = s.2) :
    (manualDuties env).Later (fun _ => False) s s' where
  inv := hi
  known _ hk := getElem?_extends hus hk
  owes _ _ _ _ _ ho := ho.later (by rw [hlog]; exact id) (by rw [hlog]; exact id)

/-- A duty of one update leaves those of the others. -/
theorem later_of_done (hi : ManualInv s') (hev : s.1.2[n]? = some u) (hus : s'.1.2 = s.1.2)
    (hdone : ∀ m, m ≠ n → m ∉ s.2.done → m ∉ s'.2.done)
    (hchecks : ∀ m, m ≠ n → m ∉ s.2.checks.map Prod.fst → m ∉ s'.2.checks.map Prod.fst) :
    (manualDuties env).Later (· = (n, u)) s s' where
  inv := hi
  known _ hk := getElem?_extends (hus ▸ List.prefix_rfl) hk
  owes ev c k hne hk ho := by
    have hn : ev.1 ≠ n := fun he => by
      have hev' : s.1.2[ev.1]? = some ev.2 := hk
      rw [he, hev] at hev'
      exact hne (Prod.ext he (Option.some.inj hev').symm)
    exact ho.later (hdone _ hn) (hchecks _ hn)

/-- What a command does. -/
theorem manual_step {c : Cmd} {a : c.Ans} {r : c.Res}
    (hs : (manualMachine env).step n c s a = some (r, s')) :
    exec .agent c s.1.1 a = (r, s'.1.1) ∧ s'.1.2 = s.1.2 ∧
      s'.2 = (manualObserver env).note n c s.1 r s.2 := by
  obtain ⟨-, _, -, -, hex, hus, hnote⟩ := step_calls hs
  exact ⟨hex, hus, hnote⟩

/-- A command beside the set. -/
theorem manual_plain {c : Cmd} {a : c.Ans} {r : c.Res} (hi : ManualInv s) (hc : c.manual = false)
    (hs : (manualMachine env).step n c s a = some (r, s')) :
    (manualDuties env).Later (fun _ => False) s s' := by
  obtain ⟨hex, hus, hnote⟩ := manual_step hs
  have hlog : s'.2 = s.2 := by
    rw [hnote]
    cases c with
    | manualHas | manualAdd | manualDelete => cases hc
    | _ => rfl
  have hset := exec_awaitingManual hc s.1.1 a
  rw [hex] at hset
  exact later_of_log (hi.same hus hlog hset) (hus ▸ List.prefix_rfl) hlog

/-- A text is looked up. -/
theorem manual_check {sender : TgAccount} {chat : Chat} {said : String} {hasMention : Bool}
    {a : (Cmd.manualHas (some sender.handle)).Ans} {awaited : Bool} (hi : ManualInv s)
    (hev : s.1.2[n]? = some (.text sender chat said hasMention)) (hdone : n ∉ s.2.done)
    (hchecks : n ∉ s.2.checks.map Prod.fst)
    (hs : (manualMachine env).step n (.manualHas (some sender.handle)) s a = some (awaited, s')) :
    (manualDuties env).Later (· = (n, .text sender chat said hasMention)) s s' ∧
      (manualDuties env).Does (n, .text sender chat said hasMention)
        (afterCheck env sender chat said hasMention awaited) s' := by
  obtain ⟨hex, hus, hnote⟩ := manual_step hs
  obtain ⟨hawaited, hst⟩ := Prod.mk.inj hex
  obtain ⟨hchecks', honce⟩ := hi.check hev hdone hchecks hawaited.symm
  have hothers : ∀ m, m ≠ n → m ∉ s.2.checks.map Prod.fst →
      m ∉ (s.2.checks ++ [(n, awaited)]).map Prod.fst := by
    intro m hm hmem
    rw [List.map_append, List.mem_append, not_or]
    exact ⟨hmem, by simpa using hm⟩
  have hst : s.1.1 = s'.1.1 := hst
  cases awaited with
  | true =>
      have hlog : s'.2 = ⟨s.2.checks ++ [(n, true)], s.2.done⟩ := hnote
      have hi' : ManualInv s' := by
        constructor
        · rw [← hst, hus, hlog]
          exact hi.flags
        · rw [hus]
          exact hi.texts
        · rw [hus, hlog]
          exact hchecks'
        · rw [hlog]
          exact honce
        · rw [hus, hlog]
          exact hi.done
      refine ⟨later_of_done hi' hev hus ?_ ?_, .inr ?_⟩
      · rw [hlog]
        exact fun _ _ h => h
      · rw [hlog]
        exact hothers
      · refine Duties.Holds.intro (q := (Prog.ret () : Prog Unit)) (.ret ()) (.drop ?_)
        rw [hlog]
        exact hdone
  | false =>
      have hlog : s'.2 = ⟨s.2.checks ++ [(n, false)], n :: s.2.done⟩ := hnote
      have hi' : ManualInv s' := by
        refine hi.settle hev rfl rfl hdone hus ?_ ?_ ?_ fun h => ?_
        · rw [hlog]
        · rw [hlog]
          exact hchecks'
        · rw [hlog]
          exact honce
        · rw [← hst]
          split
          next he =>
            subst he
            exact iff_of_false (decide_eq_false_iff_not.mp hawaited) nofun
          next => rfl
      refine ⟨later_of_done hi' hev hus ?_ ?_, .inl ?_⟩
      · rw [hlog]
        exact fun m hm hmem => not_or.mpr ⟨hm, hmem⟩ ∘ List.mem_cons.mp
      · rw [hlog]
        exact hothers
      · exact unflagged_afterCheck sender chat said hasMention

/-- An update puts its user into the set or takes them out. -/
theorem manual_settle {c : Cmd} {a : c.Ans} {r : c.Res} {h : String}
    (hi : ManualInv s) (hev : s.1.2[n]? = some u) (hmine : u.user = some h)
    (hflags : u.flags = true) (hdone : n ∉ s.2.done)
    (hs : (manualMachine env).step n c s a = some (r, s'))
    (hlog : s'.2 = { s.2 with done := n :: s.2.done })
    (hflag : ∀ h', Flagged s'.1.1 h' ↔ if h' = h then u.isManual = true else Flagged s.1.1 h') :
    (manualDuties env).Later (· = (n, u)) s s' := by
  obtain ⟨-, hus, -⟩ := manual_step hs
  have hi' : ManualInv s' := by
    refine hi.settle hev hmine hflags hdone hus ?_ ?_ ?_ hflag
    · rw [hlog]
    · rw [hlog]
      exact hi.checks
    · rw [hlog]
      exact hi.once
  refine later_of_done hi' hev hus ?_ ?_
  · rw [hlog]
    exact fun m hm hmem => not_or.mpr ⟨hm, hmem⟩ ∘ List.mem_cons.mp
  · rw [hlog]
    exact fun _ _ h => h

/-- A text that is taken takes its user out of the set. -/
theorem manual_drop {sender : TgAccount} {chat : Chat} {said : String} {hasMention : Bool}
    {a : (Cmd.manualDelete (some sender.handle)).Ans} {r : Unit} (hi : ManualInv s)
    (hev : s.1.2[n]? = some (.text sender chat said hasMention)) (hdone : n ∉ s.2.done)
    (hs : (manualMachine env).step n (.manualDelete (some sender.handle)) s a = some (r, s')) :
    (manualDuties env).Later (· = (n, .text sender chat said hasMention)) s s' := by
  obtain ⟨hex, -, hnote⟩ := manual_step hs
  refine manual_settle hi hev rfl rfl hdone hs hnote fun h => ?_
  have hset : (s'.1.1.mem .agent).awaitingManual =
      (s.1.1.mem .agent).awaitingManual.filter (· ≠ some sender.handle) := by
    rw [← (Prod.mk.inj hex).2, St.onMem_self]
  rw [Flagged, hset, List.mem_filter]
  split
  next he => exact iff_of_false (by simp [he]) nofun
  next hne => exact and_iff_left (by simpa using hne)

/-- A press that is through puts its user into the set. -/
theorem manual_add {sender : TgAccount} {chat : Chat} {msgId : Nat} {data time : String}
    {a : (Cmd.manualAdd (some sender.handle)).Ans} {r : Unit} (hi : ManualInv s)
    (hev : s.1.2[n]? = some (.press sender chat msgId data time))
    (hmanual : (readData data).1 = some .manual) (hdone : n ∉ s.2.done)
    (hs : (manualMachine env).step n (.manualAdd (some sender.handle)) s a = some (r, s')) :
    (manualDuties env).Later (· = (n, .press sender chat msgId data time)) s s' := by
  obtain ⟨hex, -, hnote⟩ := manual_step hs
  have hpress : (Update.press sender chat msgId data time).isManual = true := decide_eq_true hmanual
  refine manual_settle hi hev rfl hpress hdone hs hnote fun h => ?_
  have hset : (s'.1.1.mem .agent).awaitingManual =
      some sender.handle :: (s.1.1.mem .agent).awaitingManual := by
    rw [← (Prod.mk.inj hex).2, St.onMem_self]
  rw [Flagged, hset, List.mem_cons]
  split
  next he => exact iff_of_true (.inl (congrArg some he)) hpress
  next hne => exact or_iff_right fun he => hne (Option.some.inj he)

theorem manualKept : (manualDuties env).Kept where
  enter := by
    rintro ⟨n, u⟩ s s' hi he
    obtain ⟨ho, hn, hst, hus, hlog⟩ := enter_calls he
    obtain rfl : n = s.1.2.length := hn
    have hst : s'.1.1 = s.1.1 := by
      simp only [Ev.enter, Option.ite_none_right_eq_some, Option.some.injEq] at hst
      exact hst.2.symm
    have hi' := ManualInv.enter hi ho hst hus hlog
    have hrel : s.1.2 <+: s'.1.2 := hus ▸ List.prefix_append _ _
    have hnew : s'.1.2[s.1.2.length]? = some u := by
      rw [hus]
      exact List.getElem?_concat_length
    refine ⟨fun hk => ?_, hnew, later_of_log hi' hrel hlog, body_does ho ?_ ?_⟩
    · exact absurd (List.getElem?_eq_some_iff.mp hk).1 (Nat.lt_irrefl _)
    · rw [hlog]
      exact fun hmem => Nat.lt_irrefl _ (hi.done _ hmem)
    · rw [hlog]
      exact fun hmem => Nat.lt_irrefl _ (ManualInv.lt_of_checked hi hmem)
  plain := fun ⟨n, u⟩ c s a r s' hi _ hc hs => manual_plain hi hc hs
  act := by
    rintro ⟨n, u⟩ c k s a r s' hi hev howes hs
    cases howes with
    | check hdone hchecks => exact manual_check hi hev hdone hchecks hs
    | drop hdone =>
        exact ⟨manual_drop hi hev hdone hs, .inl (unflagged_errand (errand_onManual _ _))⟩
    | add hmanual hdone => exact ⟨manual_add hi hev hmanual hdone hs, .inl (.ret ())⟩
  crash p s hi := .refl hi

end

/-! ## Runs -/

/-- A text goes to `handleMessage`. -/
def handOver (env : Env) (sender : TgAccount) (chat : Chat) (text : String) : Prog Unit := do
  ask .tick
  .spawn (handleMessage env
    ⟨some sender.handle, some (forAgent env text), none, some (.telegram chat.id)⟩)

/-- The texts that were looked up are taken if and only if they were asked for, and the others go
to `handleMessage`.  A press leads to one launch at most. -/
structure TakesAsked (env : Env) (us : List Update) (checks : List (Nat × Bool)) : Prop where
  taken : ∀ n awaited, (n, awaited) ∈ checks → ∃ sender chat said hasMention,
    us[n]? = some (.text sender chat said hasMention) ∧
      (awaited = true ↔ ∃ m, Prompts us m n) ∧
      (awaited = false →
        afterCheck env sender chat said hasMention false = handOver env sender chat said)
  once : ∀ m i j n n' : Nat, checks[i]? = some (n, true) → checks[j]? = some (n', true) →
    Prompts us m n → Prompts us m n' → i = j

theorem ManualInv.takesAsked {env : Env} {s : ManualSt} (hi : ManualInv s) :
    TakesAsked env s.1.2 s.2.checks := by
  constructor
  · intro n awaited hmem
    obtain ⟨sender, chat, said, hasMention, hn, hawaited⟩ := hi.checks n awaited hmem
    refine ⟨sender, chat, said, hasMention, hn, ?_, fun hfalse => ?_⟩
    · have hlt := (List.getElem?_eq_some_iff.mp hn).1
      rw [hawaited, asked_iff hlt.le]
      constructor
      · exact fun ⟨m, hm⟩ => ⟨m, _, _, hn, rfl, hm⟩
      · rintro ⟨m, u, h, hu, hmine, hm⟩
        cases Option.some.inj (hn.symm.trans hu)
        cases hmine
        exact ⟨m, hm⟩
    · have hbot := hi.texts n sender chat said hasMention hn
      rw [← hawaited, hfalse] at hbot
      rw [afterCheck, hbot.resolve_left nofun]
      rfl
  · intro m i j n n' hni hnj hn hn'
    obtain rfl := hn.unique hn'
    have hi' : (s.2.checks.map Prod.fst)[i]? = some n := by rw [List.getElem?_map, hni]; rfl
    have hj' : (s.2.checks.map Prod.fst)[j]? = some n := by rw [List.getElem?_map, hnj]; rfl
    exact (List.getElem?_inj (List.getElem?_eq_some_iff.mp hi').1 hi.once).mp (hi'.trans hj'.symm)

/-- In every orderly run the texts that are taken are those that were asked for. -/
theorem manual_asked (env : Env) {w : World (manualMachine env)}
    (hw : (manualMachine env).Reach ManualStarted w) : TakesAsked env w.st.1.2 w.st.2.checks := by
  refine ManualInv.takesAsked (Duties.reach_inv manualKept ?_ hw).1
  rintro ⟨⟨st, us⟩, log⟩ ⟨hset, hus, hlog⟩
  cases hus
  cases hlog
  have hset : (st.mem .agent).awaitingManual = [] := hset
  have hout : ∀ h, ¬ Flagged st h := fun h => by simp [Flagged, hset]
  exact ⟨fun h => ⟨nofun, fun _ => iff_of_false (hout h) nofun⟩, nofun, nofun, .nil, nofun⟩

/-- A text that was not asked for is taken. -/
theorem not_takesAsked {env : Env} {us : List Update} {checks : List (Nat × Bool)} {n : Nat}
    {h : String} (hn : (n, true) ∈ checks) (huser : us[n]?.bind Update.user = some h)
    (hunasked : asked h (us.take n) = false) : ¬ TakesAsked env us checks := by
  intro htakes
  obtain ⟨_, _, _, _, -, hasked, -⟩ := htakes.taken n true hn
  obtain ⟨m, u, h', hu, hmine, hm⟩ := hasked.mp rfl
  rw [hu] at huser
  cases hmine.symm.trans huser
  rw [(asked_iff (List.getElem?_eq_some_iff.mp hu).1.le).mpr ⟨m, hm⟩] at hunasked
  cases hunasked

namespace Sample

/-- The agent listens, and the buttons of `alice` for a launch are on display in the group. -/
def launchMenuShown : St :=
  { (St.fresh env 0).onMem .agent fun m => { m with ready := true } with
    visible := [(group.id, "MANUAL:alice"), (group.id, "BK:alice")] }

/-- An update in the group. -/
def pressed (sender : TgAccount) (data : String) : Update :=
  .press sender group 7 data "12:00:00"

def said (sender : TgAccount) (text : String) : Update := .text sender group text true

/-- The button for a manual launch is pressed and a text is sent. -/
def askedText (M : Machine sig Err) (ev : Nat × Update → M.Ev) (ans : (c : Cmd) → M.Ans c) :
    List M.Choice :=
  serve M ans (ev (0, pressed aliceTg "MANUAL:alice")) 0 4 ++
    serve M ans (ev (1, said aliceTg "not a configuration")) 1 1

/-- The button back is pressed in between. -/
def unaskedText (M : Machine sig Err) (ev : Nat × Update → M.Ev) (ans : (c : Cmd) → M.Ans c) :
    List M.Choice :=
  serve M ans (ev (0, pressed aliceTg "MANUAL:alice")) 0 4 ++
    serve M ans (ev (1, pressed aliceTg "BK:alice")) 1 3 ++
    serve M ans (ev (2, said aliceTg "hello")) 2 1

theorem launchMenu_started : ManualStarted ((launchMenuShown, []), ⟨[], []⟩) := ⟨rfl, rfl, rfl⟩

theorem asked_text_taken : ∃ w, (manualMachine env).Reach ManualStarted w ∧
    w.st.2.checks = [(1, true)] ∧ TakesAsked env w.st.1.2 w.st.2.checks := by
  have hrun : (Machine.nexts (M := manualMachine env) ⟨((launchMenuShown, []), ⟨[], []⟩), [], []⟩
      (askedText _ id (online alice))).any (fun w => w.st.2.checks = [(1, true)]) = true := by
    decide +kernel
  obtain ⟨w, hreach, hchecks⟩ := Machine.Reach.of_run launchMenu_started hrun
  exact ⟨w, hreach, of_decide_eq_true hchecks, manual_asked env hreach⟩

/-- `alice` has gone back to the main menu, and what they say next is taken for a configuration. -/
theorem unasked_text_taken :
    ∃ w, ((telegramAgent env).calls.observed (manualObserver env)).Reach ManualStarted w ∧
      w.st.2.checks = [(2, true)] ∧ asked "alice" (w.st.1.2.take 2) = false ∧
      ¬ TakesAsked env w.st.1.2 w.st.2.checks := by
  have hrun : (Machine.nexts (M := (telegramAgent env).calls.observed (manualObserver env))
      ⟨((launchMenuShown, []), ⟨[], []⟩), [], []⟩ (unaskedText _ id (online alice))).any
      (fun w => w.st.2.checks = [(2, true)] ∧ asked "alice" (w.st.1.2.take 2) = false ∧
        w.st.1.2[2]?.bind Update.user = some "alice") = true := by
    decide +kernel
  obtain ⟨w, hreach, hw⟩ := Machine.Reach.of_run launchMenu_started hrun
  obtain ⟨hchecks, hunasked, huser⟩ := of_decide_eq_true hw
  refine ⟨w, hreach, hchecks, hunasked, not_takesAsked ?_ huser hunasked⟩
  rw [hchecks]
  exact List.mem_cons_self ..

end Sample

end Nexus
