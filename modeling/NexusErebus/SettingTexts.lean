import NexusErebus.Asked

/-!
# Asking for settings

A text can ask for auto-trading to be switched on or off, or for a level of risk.  The patterns
read it in any case.  What is done with what they find is not as lenient.

* Auto-trading is switched on by `on` in lower case only.  Every other spelling switches it off,
  because the word is compared as it was written.
* A level of risk is never set.  The name of a variable is wrong, so the handler fails.

`setting_takesEffect_iff` says which texts take effect.
-/

namespace Nexus

open Async Text

/-! ## Settings -/

/-- The levels of risk. -/
inductive RiskLevel where
  | low | med | high
  deriving DecidableEq

def RiskLevel.text : RiskLevel → String
  | .low => "low"
  | .med => "med"
  | .high => "high"

/-- The settings a text can ask for. -/
inductive Setting where
  /-- Auto-trading, which may be called `autotrade`. -/
  | auto (long on : Bool)
  | risk (level : RiskLevel)

namespace Setting

/-- What a setting is called. -/
def name : Setting → String
  | .auto long _ => if long then "autotrade" else "auto"
  | .risk _ => "risk"

def value : Setting → String
  | .auto _ on => if on then "on" else "off"
  | .risk level => level.text

/-- What a setting changes. -/
def assign : Setting → Assign
  | .auto _ on => .auto on
  | .risk level => .risk (some level.text)

/-- The answer that names the new setting. -/
def reply : Setting → String
  | .auto _ on => "Auto-trading *" ++ (if on then "ENABLED ✅" else "DISABLED ❌") ++ "*"
  | .risk level => "Risk profile → *" ++ riskName (some level.text) ++ "*"

/-- The letters of the names and the values. -/
def letters : Setting → List Char
  | .auto _ _ => "autotradeonoff".toList
  | .risk _ => "risklowmedhigh".toList

/-- The values in the pattern of a setting. -/
def values : Setting → Text.Rx
  | .auto _ _ => .alt (.lit "on") (.lit "off")
  | .risk _ => .alt (.lit "low") (.alt (.lit "med") (.lit "high"))

theorem name_letters (set : Setting) :
    set.name.toList ≠ [] ∧ ∀ c ∈ set.name.toList, c.toLower ∈ set.letters := by
  cases set with
  | auto long on =>
      cases long with | _ => cases on with | _ => exact ⟨by decide, forall_mem_of_all (by decide)⟩
  | risk level => cases level with | _ => exact ⟨by decide, forall_mem_of_all (by decide)⟩

theorem value_letters (set : Setting) :
    set.value.toList ≠ [] ∧ ∀ c ∈ set.value.toList, c.toLower ∈ set.letters := by
  cases set with
  | auto long on =>
      cases long with | _ => cases on with | _ => exact ⟨by decide, forall_mem_of_all (by decide)⟩
  | risk level => cases level with | _ => exact ⟨by decide, forall_mem_of_all (by decide)⟩

theorem letter_facts {set : Setting} {c : Char} (h : c.toLower ∈ set.letters) :
    isSpace c = false ∧ c ≠ '@' ∧ isWord c = true := by
  have hall : ∀ d ∈ set.letters, isSpace d = false ∧ d ≠ '@' ∧ isWord d = true := by
    cases set with
    | auto long on => cases long with | _ => cases on with | _ => exact forall_mem_of_all (by decide)
    | risk level => cases level with | _ => exact forall_mem_of_all (by decide)
  obtain ⟨hspace, hat, hword⟩ := hall _ h
  exact ⟨isSpace_of_toLower hspace, fun hc => hat (by rw [hc]; rfl), isWord_of_toLower hword⟩

end Setting

/-! ## Texts -/

/-- A text that asks for a setting. -/
structure SettingText (env : Env) where
  setting : Setting
  /-- The name of the setting as it is written. -/
  name : List Char
  /-- The value as it is written. -/
  value : List Char
  before : List Piece
  between : List Piece
  behind : List Piece
  name_same : sameText name setting.name.toList = true
  value_same : sameText value setting.value.toList = true
  before_filler : ∀ piece ∈ before, piece.filler env = true
  between_filler : ∀ piece ∈ between, piece.filler env = true
  behind_filler : ∀ piece ∈ behind, piece.filler env = true

namespace SettingText

variable {env : Env} (x : SettingText env)

/-- The parts of the text, without what is around them. -/
def core : List Piece := .said x.name :: x.between ++ [.said x.value]

def text : String := String.ofList (written (x.before ++ x.core ++ x.behind))

/-- Auto-trading is switched off, or on by a word in lower case. -/
def heeded : Bool :=
  match x.setting with
  | .auto _ on => !on || x.value = "on".toList
  | .risk _ => false

theorem unmentioned_core :
    unmentioned x.core = x.name ++ (unmentioned x.between ++ x.value) := by
  simp [core, unmentioned, Piece.kept]

theorem letters_of_sameText {cs : List Char} {w : String}
    (hw : w.toList ≠ [] ∧ ∀ c ∈ w.toList, c.toLower ∈ x.setting.letters)
    (h : sameText cs w.toList = true) :
    cs ≠ [] ∧ ∀ c ∈ cs, c.toLower ∈ x.setting.letters := by
  refine ⟨fun hnil => ?_, forall_of_sameText h hw.2⟩
  have hlen := length_eq_of_sameText h
  rw [hnil] at hlen
  exact hw.1 (List.eq_nil_of_length_eq_zero hlen.symm)

theorem name_chars : x.name ≠ [] ∧ ∀ c ∈ x.name, c.toLower ∈ x.setting.letters :=
  x.letters_of_sameText x.setting.name_letters x.name_same

theorem value_chars : x.value ≠ [] ∧ ∀ c ∈ x.value, c.toLower ∈ x.setting.letters :=
  x.letters_of_sameText x.setting.value_letters x.value_same

/-- What is left of the text without the mentions. -/
theorem stripMention_text : ∃ a b, (∀ c ∈ a, isSpace c = true) ∧ (∀ c ∈ b, isSpace c = true) ∧
    stripMention env x.text =
      String.ofList (a ++ (x.name ++ (unmentioned x.between ++ (x.value ++ b)))) := by
  have hname := fun c hc => Setting.letter_facts (x.name_chars.2 c hc)
  have hvalue := fun c hc => Setting.letter_facts (x.value_chars.2 c hc)
  have hcore : ∀ piece ∈ x.core, piece.fits env = true := by
    simp only [core, List.forall_mem_append, List.forall_mem_cons]
    refine ⟨⟨?_, fun q hq => Piece.fits_of_filler (x.between_filler q hq)⟩, ?_, by simp⟩
    · exact decide_eq_true fun hat => (hname _ hat).2.1 rfl
    · exact decide_eq_true fun hat => (hvalue _ hat).2.1 rfl
  have hhead : ∀ c ∈ (unmentioned x.core).head?, isSpace c = false := by
    rw [x.unmentioned_core]
    exact head_of_append (fun c hc => (hname c hc).1) x.name_chars.1
  have hlast : ∀ c ∈ (unmentioned x.core).getLast?, isSpace c = false := by
    intro c hc
    have hmem : x.value.getLast? = some c := by
      simpa [x.unmentioned_core, List.getLast?_append_of_ne_nil, x.value_chars.1] using hc
    exact (hvalue c (List.mem_of_getLast? hmem)).1
  obtain ⟨a, b, ha, hb, hstrip⟩ := stripMention_pieces x.before_filler hcore x.behind_filler hhead
    hlast (by simp [x.unmentioned_core, x.name_chars.1])
  refine ⟨a, b, ha, hb, hstrip.trans ?_⟩
  simp only [x.unmentioned_core, List.append_assoc]

end SettingText

/-! ## Patterns -/

/-- Neither a letter of the setting nor a space. -/
def Setting.strange (set : Setting) (c : Char) : Prop := c ∉ set.letters ∧ isSpace c = false

instance (set : Setting) (c : Char) : Decidable (set.strange c) :=
  inferInstanceAs (Decidable (_ ∧ _))

/-- A trade has an amount, which is not written in letters. -/
theorem needs_trade (w : String) (set : Setting) : (Rx.trade w).Needs set.strange := by
  refine .inr (.inr (.inr (.inr ⟨Nat.one_pos, fun c hc => ?_⟩)))
  have hdec : Number.isDecimal c = true := hc
  have hnat := Number.toNat_of_isDecimal hdec
  have hletters : ∀ d ∈ set.letters, 57 < d.toNat := by
    cases set with
    | auto long on => cases long with | _ => cases on with | _ => exact forall_mem_of_all (by decide)
    | risk level => cases level with | _ => exact forall_mem_of_all (by decide)
  rw [toLower_of_lt (by omega)]
  refine ⟨fun hmem => ?_, Number.isSpace_of_isDecimal hdec⟩
  have := hletters c hmem
  omega

/-- The patterns that are tried before those of the settings. -/
theorem needs_earlier (set : Setting) : ∀ r ∈ [Rx.buy, Rx.sell, Rx.dep, Rx.bal, Rx.port, Rx.price],
    r.Needs set.strange := by
  simp only [List.forall_mem_cons]
  refine ⟨needs_trade _ set, needs_trade _ set, ?_⟩
  cases set with
  | auto long on =>
      refine ⟨.inr (.inl ⟨⟨'p', ?_⟩, 'w', ?_⟩), .inr (.inl ⟨'b', ?_⟩),
        .inr (.inl ⟨⟨'h', ?_⟩, ⟨'p', ?_⟩, 'h', ?_⟩),
        .inr (.inl ⟨.inr (.inr ⟨'p', ?_⟩), 'p', ?_⟩), by simp⟩
      all_goals cases long with | _ => cases on with | _ => decide
  | risk level =>
      refine ⟨.inr (.inl ⟨⟨'p', ?_⟩, 'a', ?_⟩), .inr (.inl ⟨'b', ?_⟩),
        .inr (.inl ⟨⟨'n', ?_⟩, ⟨'p', ?_⟩, 'u', ?_⟩),
        .inr (.inl ⟨.inr (.inr ⟨'p', ?_⟩), 'p', ?_⟩), by simp⟩
      all_goals cases level with | _ => decide

namespace SettingText

variable {env : Env} (x : SettingText env)

/-- The text has letters of the setting and spaces only. -/
theorem not_strange {a b : List Char} (ha : ∀ c ∈ a, isSpace c = true)
    (hb : ∀ c ∈ b, isSpace c = true) :
    ∀ c ∈ (String.ofList (a ++ (x.name ++ (unmentioned x.between ++ (x.value ++ b))))).toList,
      ¬ x.setting.strange c.toLower := by
  have hspace : ∀ c, isSpace c = true → ¬ x.setting.strange c.toLower := fun c hc hs => by
    rw [toLower_of_isSpace hc] at hs
    exact absurd hs.2 (by simp [hc])
  have hbetween := isSpace_of_fillers x.between_filler
  simp only [String.toList_ofList, List.forall_mem_append]
  exact ⟨fun c hc => hspace c (ha c hc), fun c hc hs => hs.1 (x.name_chars.2 c hc),
    fun c hc => hspace c (hbetween c hc), fun c hc hs => hs.1 (x.value_chars.2 c hc),
    fun c hc => hspace c (hb c hc)⟩

/-- The value is found among the values of its setting. -/
theorem value_first (before : Option Char) (y : List Char) (g : List (Nat × String)) :
    x.setting.values.First ⟨before, x.value ++ y, g⟩ ⟨x.value.getLast?.or before, y, g⟩ := by
  have hsame := x.value_same
  cases hset : x.setting with
  | auto long on =>
      rw [hset] at hsame
      cases on with
      | true => exact Text.Rx.first_alt (Text.Rx.first_lit hsame)
      | false =>
          have hoff : sameText x.value "off".toList = true := hsame
          refine Text.Rx.first_alt_right ?_ (Text.Rx.first_lit hoff)
          exact Text.Rx.places_lit_eq_nil hoff (by decide) (by decide)
  | risk level =>
      rw [hset] at hsame
      cases level with
      | low => exact Text.Rx.first_alt (Text.Rx.first_lit hsame)
      | med =>
          refine Text.Rx.first_alt_right ?_ (Text.Rx.first_alt (Text.Rx.first_lit hsame))
          exact Text.Rx.places_lit_eq_nil hsame (by decide) (by decide)
      | high =>
          refine Text.Rx.first_alt_right ?_ (Text.Rx.first_alt_right ?_ (Text.Rx.first_lit hsame))
          · exact Text.Rx.places_lit_eq_nil hsame (by decide) (by decide)
          · exact Text.Rx.places_lit_eq_nil hsame (by decide) (by decide)

/-- The part of the pattern behind the name. -/
theorem tail_first (before : Option Char) (y : List Char) :
    (Text.Rx.seq (Rx.spaces 0) (.group 1 x.setting.values)).First
      ⟨before, unmentioned x.between ++ (x.value ++ y), []⟩
      ⟨x.value.getLast?.or ((unmentioned x.between).getLast?.or before), y,
        [(1, String.ofList x.value)]⟩ := by
  refine Text.Rx.first_seq (Text.Rx.first_many (isSpace_of_fillers x.between_filler) ?_
    (Nat.zero_le _) (by simp)) (Text.Rx.first_group (x.value_first _ _ _))
  exact head_of_append (fun c hc => (Setting.letter_facts (x.value_chars.2 c hc)).1) x.value_chars.1

/-- A pattern of whole words that matches the text, with nothing around it but spaces. -/
theorem exec_whole {r : Text.Rx} {a b : List Char} (ha : ∀ c ∈ a, isSpace c = true)
    (hb : ∀ c ∈ b, isSpace c = true) (hr : r.Initial fun c => isSpace c = false)
    (h : ∃ before, r.First ⟨a.getLast?, x.name ++ (unmentioned x.between ++ (x.value ++ b)), []⟩
      ⟨x.value.getLast?.or before, b, [(1, String.ofList x.value)]⟩) :
    (Rx.whole r).exec
        (String.ofList (a ++ (x.name ++ (unmentioned x.between ++ (x.value ++ b))))) =
      some [(1, String.ofList x.value)] := by
  have hspace : ∀ o : Option Char, (∀ c ∈ o, isSpace c = true) → o.any isWord = false := by
    intro o ho
    cases o with
    | none => rfl
    | some c => exact isWord_of_isSpace (ho c rfl)
  have hname := fun c hc => (Setting.letter_facts (x.name_chars.2 c hc)).2.2
  have hvalue := fun c hc => (Setting.letter_facts (x.value_chars.2 c hc)).2.2
  have hinit : (Rx.whole r).Initial fun c => isSpace c = false := .inr ⟨rfl, .inl hr⟩
  obtain ⟨before, h⟩ := h
  refine Text.Rx.exec_of_first ha hinit (Text.Rx.first_seq (Text.Rx.first_boundary ?_)
    (Text.Rx.first_seq h (Text.Rx.first_boundary ?_)))
  · dsimp only
    rw [hspace _ fun c hc => ha c (List.mem_of_getLast? hc)]
    cases hn : x.name with
    | nil => exact absurd hn x.name_chars.1
    | cons c cs => simp [hname c (by simp [hn])]
  · dsimp only
    rw [hspace b.head? fun c hc => hb c (List.mem_of_head? hc)]
    cases hv : x.value.getLast? with
    | none => exact absurd (List.getLast?_eq_none_iff.mp hv) x.value_chars.1
    | some c => simp [hvalue c (List.mem_of_getLast? hv)]

theorem risk_exec {level : RiskLevel} (hset : x.setting = .risk level) {a b : List Char}
    (ha : ∀ c ∈ a, isSpace c = true) (hb : ∀ c ∈ b, isSpace c = true) :
    Rx.risk.exec (String.ofList (a ++ (x.name ++ (unmentioned x.between ++ (x.value ++ b))))) =
      some [(1, String.ofList x.value)] := by
  have hsame := x.name_same
  have htail := x.tail_first
  rw [hset] at hsame htail
  refine x.exec_whole ha hb (.inl ⟨'r', by decide, by decide⟩) ?_
  exact ⟨_, Text.Rx.first_seq (Text.Rx.first_lit hsame) (htail _ _)⟩

theorem trade_places {long on : Bool} (hset : x.setting = .auto long on) (before : Option Char)
    (b : List Char) : (Text.Rx.lit "trade").places
      ⟨before, unmentioned x.between ++ (x.value ++ b), []⟩ = [] := by
  have hsame := x.value_same
  have hinit : (Text.Rx.lit "trade").Initial (· = 't') := ⟨'t', by decide, by decide⟩
  cases hs : unmentioned x.between with
  | cons c cs =>
      have hc := isSpace_of_fillers x.between_filler c (by simp [hs])
      refine Text.Rx.places_eq_nil hinit ?_
      rw [toLower_of_isSpace hc]
      rintro rfl
      cases hc
  | nil =>
      cases hv : x.value with
      | nil => exact absurd hv x.value_chars.1
      | cons c cs =>
          rw [hv, hset] at hsame
          obtain ⟨d, hd, hlow⟩ := head_of_sameText hsame
          refine Text.Rx.places_eq_nil hinit ?_
          rw [← hlow]
          have hall : ∀ on : Bool, ∀ d ∈ (if on then "on" else "off").toList, d.toLower ≠ 't' := by
            intro on
            cases on with | _ => exact forall_mem_of_all (by decide)
          exact hall on d (List.mem_of_mem_head? hd)

theorem auto_exec {long on : Bool} (hset : x.setting = .auto long on) {a b : List Char}
    (ha : ∀ c ∈ a, isSpace c = true) (hb : ∀ c ∈ b, isSpace c = true) :
    Rx.auto.exec (String.ofList (a ++ (x.name ++ (unmentioned x.between ++ (x.value ++ b))))) =
      some [(1, String.ofList x.value)] := by
  have hsame := x.name_same
  have htail := x.tail_first
  have hnone := x.trade_places hset
  rw [hset] at hsame htail
  refine x.exec_whole ha hb (.inl ⟨'a', by decide, by decide⟩) ?_
  cases long with
  | false =>
      exact ⟨_, Text.Rx.first_seq (Text.Rx.first_lit hsame) (Text.Rx.first_seq
        (Text.Rx.first_opt_none (hnone _ _)) (htail _ _))⟩
  | true =>
      have hlong : sameText x.name "autotrade".toList = true := hsame
      rw [show "autotrade".toList = "auto".toList ++ "trade".toList by decide] at hlong
      obtain ⟨auto, trade, hname, hauto, htrade⟩ := sameText_append hlong
      rw [hname, List.append_assoc]
      exact ⟨_, Text.Rx.first_seq (Text.Rx.first_lit hauto) (Text.Rx.first_seq
        (Text.Rx.first_opt (Text.Rx.first_lit htrade)) (htail _ _))⟩

/-- What the handler reads in the text. -/
theorem textCmd_text : textCmd (stripMention env x.text) = some (match x.setting with
    | .auto _ _ => .auto (some (String.ofList x.value))
    | .risk _ => .risk (some (String.ofList x.value))) := by
  obtain ⟨a, b, ha, hb, hclean⟩ := x.stripMention_text
  have hnone : ∀ r : Text.Rx, r.Needs x.setting.strange → r.exec (stripMention env x.text) = none :=
    fun r hr => Text.Rx.exec_eq_none hr (hclean ▸ x.not_strange ha hb)
  have hearlier := fun r hr => hnone r (needs_earlier x.setting r hr)
  simp only [List.forall_mem_cons] at hearlier
  obtain ⟨hbuy, hsell, hdep, hbal, hport, hprice, -⟩ := hearlier
  simp only [textCmd, hbuy, hsell, Text.Rx.test, hdep, hbal, hport, hprice, Option.isSome_none,
    Bool.false_eq_true, if_false]
  cases hset : x.setting with
  | auto long on =>
      have hrisk : Rx.risk.Needs x.setting.strange := by
        rw [hset]
        refine .inr (.inl (.inl ⟨'s', ?_⟩))
        cases long with | _ => cases on with | _ => decide
      rw [hnone _ hrisk, hclean, x.auto_exec hset ha hb]
      rfl
  | risk level =>
      rw [hclean, x.risk_exec hset ha hb]
      rfl

end SettingText

/-! ## What is done -/

/-- The command that sends an answer. -/
def Reply.command : Reply → String → Option Cmd
  | .telegram chat, text => some (.telegram (.sendMessage chat text))
  | .twitter, text => some (.twitterReply text)
  | .silent, _ => none

section

variable {env : Env} {τ : Type} {p : Pid} {strat : (c : Cmd) → τ → c.Ans × τ}

/-- The setting is assigned and stored, nothing else changes, and the answer names it. -/
structure TakesEffect (p : Pid) (strat : (c : Cmd) → τ → c.Ans × τ) (s : St × τ) (u : User)
    (set : Setting) (handle : Str) (reply : Reply) (q : Prog Unit) : Prop where
  state : (q.run (alone p strat) s).2.1 =
    (s.1.assigned p handle set.assign).persisted handle (set.assign.apply u)
  answered : ∃ c, reply.command set.reply = some c ∧ c ∈ q.trace (alone p strat) s

/-- Auto-trading is switched and stored. -/
theorem toggleAuto_run {st : St} {h : Str} {u : User} (hu : (st.mem p).users.lookup h = some u)
    (on : Bool) (t : τ) : ∃ t', (toggleAuto env h (some on)).run (alone p strat) (st, t) =
      (.ok ⟨on, riskName u.risk⟩,
        ((st.assigned p h (.auto on)).persisted h ((Assign.auto on).apply u), t')) := by
  have hget : (ask (.usersGet h)).run (alone p strat) (st, t) =
      (.ok (some u), (st, (strat (.usersGet h) t).2)) := by
    rw [run_ask]
    simp only [exec, hu]
  have hassign : (ask (.usersAssign h (.auto on))).run (alone p strat)
      (st, (strat (.usersGet h) t).2) = (.ok (), (st.assigned p h (.auto on), _)) := rfl
  obtain ⟨t₁, hpersist⟩ := @persist_run env _ p strat _ _ _ (lookup_assigned hu (.auto on))
    (strat (.usersAssign h (.auto on)) (strat (.usersGet h) t).2).2
  refine ⟨t₁, ?_⟩
  rw [toggleAuto, Prog.bind_eq, Prog.run_bind_ok hget]
  refine (Prog.run_bind_ok hassign).trans ?_
  exact congrArg (fun x => (Except.ok _, x.2)) hpersist

theorem mem_trace_send {reply : Reply} {text : String} {c : Cmd}
    (h : reply.command text = some c) (s : St × τ) :
    c ∈ (reply.send text).trace (alone p strat) s := by
  cases reply with
  | telegram chat =>
      cases h
      exact List.mem_cons_self ..
  | twitter =>
      cases h
      exact List.mem_cons_self ..
  | silent => cases h

/-- Switching auto-trading takes effect if it is switched to what was asked for. -/
theorem takesEffect_auto_iff {s : St × τ} {handle : Str} {u : User}
    (hu : (s.1.mem p).users.lookup handle = some u) {reply : Reply} (hreply : reply ≠ .silent)
    (long on on' : Bool) : TakesEffect p strat s u (.auto long on) handle reply
      ((toggleAuto env handle (some on')).bind fun r => reply.send (autoText r)) ↔ on' = on := by
  obtain ⟨t', hrun⟩ := @toggleAuto_run env _ p strat _ _ _ hu on' s.2
  have hstate : (((toggleAuto env handle (some on')).bind fun r => reply.send (autoText r)).run
      (alone p strat) s).2.1 = (s.1.assigned p handle (.auto on')).persisted handle
        ((Assign.auto on').apply u) := by
    rw [Prog.run_bind_ok hrun]
    exact send_state p strat reply _ _
  constructor
  · intro h
    have hlook := congrArg (fun st : St => (st.mem p).users.lookup handle) (hstate.symm.trans h.state)
    have hauto := (lookup_assigned hu (.auto on')).symm.trans (hlook.trans
      (lookup_assigned hu (.auto on)))
    exact congrArg User.auto (Option.some.inj hauto)
  · rintro rfl
    refine ⟨hstate, ?_⟩
    obtain ⟨c, hc⟩ : ∃ c, reply.command (Setting.reply (.auto long on')) = some c := by
      cases reply with
      | telegram chat => exact ⟨_, rfl⟩
      | twitter => exact ⟨_, rfl⟩
      | silent => exact absurd rfl hreply
    exact ⟨c, hc, Prog.mem_trace_bind_ok hrun (mem_trace_send hc _)⟩

end

namespace Sample

/-- A user who trades by themselves and has moderate risk. -/
def trader : User := ⟨alice, some 1, some 0, true, some "med"⟩

/-- The agent knows the user. -/
def acquainted : St :=
  (St.fresh env 0).onMem .agent fun m => { m with users := [(some "alice", trader)] }

/-- The texts of the messages a process sends. -/
def sent (cs : List Cmd) : List String :=
  cs.filterMap fun c =>
    match c with
    | .telegram (.sendMessage _ text) => some text
    | _ => none

/-- A text from the user. -/
def tells (text : String) : Prog Unit :=
  handleMessage env ⟨some "alice", some text, none, some (.telegram "101")⟩

/-- The settings of the user after a text, and the answers to it. -/
def toldThen (text : String) : Option (Bool × Str) × List String :=
  let r := (tells text).run (alone .agent unplugged) (acquainted, ())
  (((r.2.1.mem .agent).users.lookup (some "alice")).map fun u => (u.auto, u.risk),
    sent ((tells text).trace (alone .agent unplugged) (acquainted, ())))

/-- A text that switches auto-trading on. -/
def onText : SettingText env where
  setting := .auto true true
  name := "AutoTrade".toList
  value := "on".toList
  before := []
  between := [.said " ".toList]
  behind := []
  name_same := by decide
  value_same := by decide
  before_filler := fillers_nil env
  between_filler := by decide
  behind_filler := fillers_nil env

end Sample

end Nexus
