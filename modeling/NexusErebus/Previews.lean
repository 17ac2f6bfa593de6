import NexusErebus.Confirms

/-!
# Previews and launches

`generateLaunchConfig` makes a key pair and puts its address into the configuration as
`tokenMint`.  The preview shows it.  The key itself is thrown away.  `launchTokenInternal` lets
`createMint` make a key pair of its own, and never reads `tokenMint`.  So what is launched is
never what was shown.

The runs here consist of presses of the two buttons, by anybody and in any interleaving.  An
observer notes the keys made for configurations, the captions of the previews and the mints.
Generated keys are new, so the keys of configurations and the mints stay apart.
-/

namespace Nexus

open Async Text

/-! ## The observer -/

/-- What is noted. -/
structure Shown where
  /-- The keys made for configurations. -/
  keys : List PublicKey
  /-- The captions of the previews. -/
  previews : List String
  /-- The mints that were created. -/
  minted : List PublicKey

/-- Nothing has been noted. -/
def Shown.none : Shown := ⟨[], [], []⟩

/-- The observer of previews and mints.  A preview is the only photo with buttons. -/
def previewObserver (env : Env) : Observer (machine env) where
  Memo := Shown
  note _ c _ r m :=
    match c, r with
    | .generate .mint, (kp : Keypair) => { m with keys := kp.publicKey :: m.keys }
    | .telegram (.replyWithPhoto _ _ caption menu), _ =>
        if menu = [] then m else { m with previews := caption :: m.previews }
    | .createMint _ _, .ok mint => { m with minted := mint :: m.minted }
    | _, _ => m
  noteCrash _ _ m := m

/-- A press of one of the two buttons. -/
def pressesLaunch : Ev → Bool
  | .telegram (.press _ _ _ data _) =>
      (readData data).1 = some .aiConfig || (readData data).1 = some .confirm
  | _ => false

/-- The runs of presses of the two buttons. -/
def previewMachine (env : Env) : Machine sig Err :=
  (machine env).monitored (previewObserver env) (fun ev _ => pressesLaunch ev) fun _ _ _ => true

/-! ## The invariant -/

/-- The configuration shows the address of a key made for a configuration. -/
def ShowsKey (m : Shown) (cfg : Json) : Prop :=
  ∃ k ∈ m.keys, cfg.field "tokenMint" = some (.str k.toBase58)

/-- What holds between the state and the notes. -/
structure Apart (s : St × Shown) : Prop where
  /-- Keys and mints were generated. -/
  keys : s.2.keys ⊆ s.1.keys
  minted : s.2.minted ⊆ s.1.keys
  /-- No key of a configuration is a mint. -/
  disjoint : List.Disjoint s.2.keys s.2.minted
  /-- A preview shows a configuration. -/
  previews : ∀ caption ∈ s.2.previews, ∃ cfg, caption = previewText cfg ∧ ShowsKey s.2 cfg

/-- The notes only grow. -/
def previewRely (env : Env) : Rely (previewMachine env) where
  inv s := Apart s
  rel _ s s' := s.2.keys ⊆ s'.2.keys
  rel_refl _ _ := List.Subset.refl _
  rel_trans h h' := List.Subset.trans h h'

section

variable {env : Env} {p : Pid} {s s' : St × Shown}

theorem ShowsKey.mono {m m' : Shown} {cfg : Json} (h : ShowsKey m cfg) (hm : m.keys ⊆ m'.keys) :
    ShowsKey m' cfg := by
  obtain ⟨k, hk, hcfg⟩ := h
  exact ⟨k, hm hk, hcfg⟩

/-- Keys are never forgotten. -/
theorem keys_exec (c : Cmd) (st : St) (a : c.Ans) : st.keys ⊆ (exec p c st a).2.keys := by
  cases c with
  | generate => exact List.subset_cons_self _ _
  | createMint => exact List.subset_append_right _ _
  | _ => exact List.Subset.refl _

/-- The command sends no preview. -/
def Cmd.calm : Cmd → Prop
  | .telegram (.replyWithPhoto _ _ _ menu) => menu = []
  | _ => True

/-- A step that notes nothing. -/
theorem Apart.unnoted (hi : Apart s) (hkeys : s.1.keys ⊆ s'.1.keys) (hm : s'.2 = s.2) :
    Apart s' where
  keys := hm ▸ List.Subset.trans hi.keys hkeys
  minted := hm ▸ List.Subset.trans hi.minted hkeys
  disjoint := hm ▸ hi.disjoint
  previews := hm ▸ hi.previews

/-- A new key for a configuration is no mint. -/
theorem Apart.newKey {st' : St} {k : PublicKey} (hi : Apart s) (hnew : k ∉ s.1.keys)
    (hkeys : st'.keys = k :: s.1.keys) : Apart (st', { s.2 with keys := k :: s.2.keys }) where
  keys := by
    rw [hkeys]
    exact List.cons_subset_cons k hi.keys
  minted := by
    rw [hkeys]
    exact List.subset_cons_of_subset k hi.minted
  disjoint := List.disjoint_cons_left.mpr ⟨fun hk => hnew (hi.minted hk), hi.disjoint⟩
  previews := by
    intro caption hcap
    obtain ⟨cfg, hcfg, hshows⟩ := hi.previews caption hcap
    exact ⟨cfg, hcfg, hshows.mono (List.subset_cons_self _ _)⟩

/-- A new mint is no key of a configuration. -/
theorem Apart.newMint {st' : St} {mint : PublicKey} (hi : Apart s) (hnew : mint ∉ s.1.keys)
    (hkeys : st'.keys = mint :: s.1.keys) :
    Apart (st', { s.2 with minted := mint :: s.2.minted }) where
  keys := by
    rw [hkeys]
    exact List.subset_cons_of_subset mint hi.keys
  minted := by
    rw [hkeys]
    exact List.cons_subset_cons mint hi.minted
  disjoint := List.disjoint_cons_right.mpr ⟨fun hk => hnew (hi.keys hk), hi.disjoint⟩
  previews := hi.previews

theorem moves_unnoted (hi : Apart s) (hkeys : s.1.keys ⊆ s'.1.keys) (hm : s'.2 = s.2) :
    (previewRely env).Moves s s' := by
  refine ⟨hi.unnoted hkeys hm, fun _ => ?_⟩
  change s.2.keys ⊆ s'.2.keys
  rw [hm]
  exact List.Subset.refl _

theorem moves_calm {c : Cmd} (hc : c.calm) {a : c.Ans} {r : c.Res} (hi : Apart s)
    (hs : (previewMachine env).step p c s a = some (r, s')) : (previewRely env).Moves s s' := by
  obtain ⟨-, hadm, hexec, hnote⟩ := step_monitored hs
  have hkeys : s.1.keys ⊆ s'.1.keys := by
    have := keys_exec (p := p) c s.1 a
    rwa [hexec] at this
  have hquiet : s'.2 = s.2 → (previewRely env).Moves s s' := moves_unnoted hi hkeys
  obtain ⟨st', m'⟩ := s'
  cases c with
  | generate use =>
      cases use with
      | wallet h => exact hquiet hnote
      | mint =>
          cases hexec
          cases hnote
          exact ⟨hi.newKey (of_decide_eq_true hadm) rfl, fun _ => List.subset_cons_self _ _⟩
  | createMint payer decimals =>
      cases r with
      | error e => exact hquiet hnote
      | ok mint =>
          cases hexec
          cases hnote
          exact ⟨hi.newMint (of_decide_eq_true hadm) rfl, fun _ => List.Subset.refl _⟩
  | telegram t =>
      cases t with
      | replyWithPhoto chat photo caption menu => exact hquiet (hnote.trans (if_pos hc))
      | _ => exact hquiet hnote
  | _ => exact hquiet hnote

/-- A preview of a configuration with a key of its own. -/
theorem moves_preview {chat : String} {photo : Str} {cfg : Json} {menu : List Button}
    {a r : Except Err Unit} (hcfg : ShowsKey s.2 cfg) (hi : Apart s)
    (hs : (previewMachine env).step p (.telegram (.replyWithPhoto chat photo (previewText cfg) menu))
      s a = some (r, s')) : (previewRely env).Moves s s' := by
  by_cases hmenu : menu = []
  · exact moves_calm (c := .telegram (.replyWithPhoto chat photo (previewText cfg) menu)) hmenu hi hs
  · obtain ⟨-, -, hexec, hnote⟩ := step_monitored hs
    obtain ⟨st', m'⟩ := s'
    cases hexec
    cases hnote.trans (if_neg hmenu)
    refine ⟨⟨hi.keys, hi.minted, hi.disjoint, ?_⟩, fun _ => List.Subset.refl _⟩
    intro caption hcap
    rcases List.mem_cons.mp hcap with rfl | hcap
    · exact ⟨cfg, rfl, hcfg⟩
    · exact hi.previews caption hcap

/-! ## Programs -/

theorem tame_calm {α : Type} {q : Prog α} (hq : q.Issues Cmd.calm) : (previewRely env).Tame p q :=
  Rely.closed_tame.of_issues (fun _ hc => Rely.tame_ask fun _ _ _ _ hi hs => moves_calm hc hi hs) hq

theorem calm_launches {h : Str} {c : Cmd} (hc : c.launches h) : c.calm := by
  cases c with
  | telegram => cases hc
  | _ => trivial

theorem calm_aside {c : Cmd} (hc : c.aside) : c.calm :=
  calm_launches (h := none) (launches_of_asks (asks_of_aside hc))

theorem calm_editOrReply (chat : Chat) (msgId : Nat) (text : String) (menu : List Button) :
    (editOrReply chat msgId text menu).Issues Cmd.calm :=
  Prog.issues_tryCatch (issues_attempt (issues_ask trivial)) fun _ =>
    issues_attempt (issues_ask trivial)

/-- The configuration shows the address of the key that was made for it. -/
theorem safe_generateLaunchConfig (hi : Apart s) :
    (previewRely env).Safe p (generateLaunchConfig env) (fun cfg s' => ShowsKey s'.2 cfg) s := by
  have hask : ∀ prompt, (previewRely env).Tame p (askOllama env prompt) := fun prompt =>
    tame_calm (issues_askOllama (fun _ => calm_aside) prompt)
  refine Rely.safe_bind hi (hask _ s hi) fun raw s₁ hi₁ _ => ?_
  split
  · exact .throw
  split
  · exact .throw
  refine Rely.safe_bind (P := fun kp (s' : St × Shown) => kp.publicKey ∈ s'.2.keys) hi₁ ?_ ?_
  · refine Rely.safe_sync rfl fun a kp s₂ hs => ⟨moves_calm (c := .generate .mint) trivial hi₁ hs, ?_⟩
    obtain ⟨-, -, -, hnote⟩ := step_monitored hs
    rw [hnote]
    exact List.mem_cons_self ..
  intro kp s₂ hi₂ hkp
  -- the key stays noted while the fields are read
  have hprop : ∀ x key, (previewRely env).Tame p (prop x key) := fun x key =>
    tame_calm (issues_prop x key)
  refine Rely.safe_bind hi₂ (Rely.safe_rel (hprop _ _ s₂ hi₂)) fun decimals s₃ hi₃ h₃ => ?_
  refine Rely.safe_bind hi₃ (Rely.safe_rel (hprop _ _ s₃ hi₃)) fun supply s₄ hi₄ h₄ => ?_
  refine Rely.safe_bind hi₄ (Rely.safe_rel (hprop _ _ s₄ hi₄)) fun tokenName s₅ hi₅ h₅ => ?_
  refine .ret ⟨kp.publicKey, h₅.2 (h₄.2 (h₃.2 hkp)), ?_⟩
  cases decimals <;> cases supply <;> cases tokenName <;> rfl

/-- The previewed configuration is the generated one. -/
theorem safe_newConfig (h : Str) (hi : Apart s) :
    (previewRely env).Safe p (newConfig env h) (fun x s' => ShowsKey s'.2 x.1) s := by
  have hstay : ∀ (cfg : Json) (s₁ s₂ : St × Shown), (previewRely env).rel p s₁ s₂ →
      ShowsKey s₁.2 cfg → ShowsKey s₂.2 cfg := fun _ _ _ hrel hcfg => hcfg.mono hrel
  have htick : ∀ s₁ a r s₂, Apart s₁ → (previewMachine env).step p .tick s₁ a = some (r, s₂) →
      (previewRely env).Moves s₁ s₂ := fun _ _ _ _ hi₁ hs => moves_calm (c := .tick) trivial hi₁ hs
  have himage : ∀ prompt, (previewRely env).Tame p (await (generateImage env prompt)) := fun prompt =>
    tame_calm (issues_await trivial (issues_generateImage (fun _ => calm_aside) prompt))
  refine Rely.safe_bind hi (safe_await_tick rfl htick hi hstay (safe_generateLaunchConfig hi)) ?_
  intro cfg s₁ hi₁ hcfg
  refine Rely.safe_bind (P := fun _ (s' : St × Shown) => ShowsKey s'.2 cfg) hi₁ ?_ ?_
  · refine Rely.safe_sync rfl fun a r s₂ hs => ?_
    have hm := moves_calm (c := .configSet h cfg) trivial hi₁ hs
    exact ⟨hm, hstay _ _ _ (hm.2 p) hcfg⟩
  intro _ s₂ hi₂ hcfg₂
  exact Rely.safe_bind hi₂ (Rely.safe_rel (himage _ s₂ hi₂)) fun _ _ _ hrel =>
    .ret (hstay _ _ _ hrel.2 hcfg₂)

/-- The button that generates a configuration. -/
theorem tame_aiConfig (chat : Chat) (msgId : Nat) (name time : String) (h : Str) :
    (previewRely env).Tame p (act env chat msgId name time h .aiConfig) := by
  intro s hi
  have hedit : (previewRely env).Tame p (await (editOrReply chat msgId
      "🧠 Generating launch configuration via AI…" (launchMenu h))) :=
    tame_calm (issues_await trivial (calm_editOrReply _ _ _ _))
  refine Rely.safe_bind hi (hedit s hi) fun _ s₁ hi₁ _ => ?_
  have houtcome : (previewRely env).Safe p (newConfig env h).outcome
      (fun x s' => ∀ y, x = .ok y → ShowsKey s'.2 y.1) s₁ := by
    refine Rely.safe_tryCatch hi₁ (Rely.safe_bind hi₁ (safe_newConfig h hi₁) ?_) ?_
    · intro y s₂ _ hy
      refine .ret fun y' he => ?_
      cases he
      exact hy
    · exact fun e s₂ _ => .ret fun y he => by cases he
  refine Rely.safe_bind hi₁ houtcome fun x s₂ hi₂ hx => ?_
  cases x with
  | error err => exact tame_calm (issues_attempt (issues_ask trivial)) s₂ hi₂
  | ok y =>
      refine Rely.safe_bind (P := fun _ _ => True) hi₂ ?_ fun r s₃ hi₃ _ =>
        tame_calm (Prog.issues_ofExcept r) s₃ hi₃
      refine Rely.safe_wait rfl (fun _ _ _ _ _ => trivial) fun s₃ h₃ hi₃ a r s₄ hs => ⟨?_, trivial⟩
      exact moves_preview ((hx y rfl).mono h₃) hi₃ hs

/-- The button that launches. -/
theorem tame_confirm (chat : Chat) (msgId : Nat) (name time : String) (h : Str) :
    (previewRely env).Tame p (act env chat msgId name time h .confirm) := by
  refine tame_calm (Prog.issues_bind (issues_ask trivial) fun cfg => ?_)
  cases cfg with
  | none => exact calm_editOrReply _ _ _ _
  | some cfg =>
      refine Prog.issues_bind (issues_await trivial (calm_editOrReply _ _ _ _)) fun _ => ?_
      refine Prog.issues_bind (Prog.issues_outcome (issues_await trivial
        (issues_launchTokenInternal (fun _ => calm_launches) cfg))) fun res => ?_
      cases res with
      | ok res => exact issues_attempt (issues_ask rfl)
      | error err => exact issues_attempt (issues_ask trivial)

theorem tame_press {ev : Ev} (hev : pressesLaunch ev = true) :
    (previewRely env).Tame p (ev.body env) := by
  cases ev with
  | telegram u =>
      cases u with
      | press sender chat msgId data time =>
          have hT := Rely.closed_tame (R := previewRely env) (p := p)
          refine hT.bind (tame_calm (issues_ask trivial)) fun _ => ?_
          refine hT.bind (tame_calm (Prog.issues_outcome (issues_attempt (issues_ask trivial))))
            fun _ => ?_
          rcases Bool.or_eq_true_iff.mp hev with ha | ha
          · rw [of_decide_eq_true ha]
            exact tame_aiConfig _ _ _ _ _
          · rw [of_decide_eq_true ha]
            exact tame_confirm _ _ _ _ _
      | _ => cases hev
  | _ => cases hev

end

/-- In every run of presses of the two buttons, no preview shows the mint of any launch. -/
theorem previews_never_launched (env : Env) {w : World (previewMachine env)}
    (hw : (previewMachine env).Reach (fun s => s.2 = .none) w) :
    ∀ caption ∈ w.st.2.previews, ∃ cfg address, caption = previewText cfg ∧
      cfg.field "tokenMint" = some (.str address) ∧
        ∀ mint ∈ w.st.2.minted, address ≠ mint.toBase58 := by
  have hinit : ∀ s : St × Shown, s.2 = .none → Apart s := by
    rintro ⟨st, m⟩ (hm : m = .none)
    subst hm
    exact ⟨by simp [Shown.none], by simp [Shown.none], by simp [Shown.none], by simp [Shown.none]⟩
  have henter : ∀ ev s s', Apart s → (previewMachine env).enter ev s = some s' →
      (previewRely env).Moves s s' := by
    intro ev s s' hi he
    obtain ⟨-, hent, hm⟩ := enter_monitored he
    refine moves_unnoted hi ?_ hm
    rcases enter_cases hent with hst | hst
    · rw [hst]
      exact List.Subset.refl _
    · rw [hst]
      exact List.Subset.refl _
  have hinv : Apart w.st := Rely.reach_inv (R := previewRely env) hinit henter
    (fun ev _ _ he _ s₁ _ hi₁ => tame_press (enter_monitored he).1 s₁ hi₁)
    (fun p s hi => ⟨show Apart (s.1.stop env p, s.2) from hi.unnoted (List.Subset.refl _) rfl,
      fun _ _ => List.Subset.refl _⟩) hw
  intro caption hcap
  obtain ⟨cfg, hcfg, k, hk, hfield⟩ := hinv.previews caption hcap
  refine ⟨cfg, k.toBase58, hcfg, hfield, ?_⟩
  intro mint hmint he
  exact hinv.disjoint hk (PublicKey.toBase58_injective he ▸ hmint)

namespace Sample

/-- What the preview shows. -/
def shownConfig : Json :=
  .obj [("decimals", .num 6), ("supply", .num 1000000), ("tokenName", .str "Nexus Cat"),
    ("tokenMint", .str alice.address)]

/-- A configuration is generated with the key of `alice`, and confirmed. -/
theorem confirmed_run : ∃ w, (previewMachine env).Reach (fun s => s.2 = .none) w ∧
    w.st.2.previews = [previewText shownConfig] ∧ w.st.2.minted = [bob.publicKey] := by
  have hrun : (Machine.nexts (M := previewMachine env)
      ⟨(withKey (onDisplay "AICFG:alice"), .none), [], []⟩
      (confirmOnce _ (pressIn aliceTg) services)).any
      (fun w => decide (w.st.2.previews = [previewText shownConfig] ∧
        w.st.2.minted = [bob.publicKey])) = true := by
    decide +kernel
  obtain ⟨w, hreach, hw⟩ := Machine.Reach.of_run
    (I := fun s : St × Shown => s.2 = .none) rfl hrun
  exact ⟨w, hreach, of_decide_eq_true hw⟩

end Sample

section

open Sample

theorem previews_never_launched_sample : ∃ w, (previewMachine env).Reach (fun s => s.2 = .none) w ∧
    w.st.2.minted = [bob.publicKey] ∧ ∃ cfg address, previewText shownConfig = previewText cfg ∧
      cfg.field "tokenMint" = some (.str address) ∧ address ≠ bob.address := by
  obtain ⟨w, hreach, hpreviews, hminted⟩ := confirmed_run
  obtain ⟨cfg, address, htext, hcfg, hne⟩ := previews_never_launched env hreach
    (previewText shownConfig) (hpreviews ▸ List.mem_singleton_self _)
  exact ⟨w, hreach, hminted, cfg, address, htext, hcfg,
    hne bob.publicKey (hminted ▸ List.mem_singleton_self _)⟩

/-- The preview shows one address, and the launch that it is confirmed for mints another. -/
theorem launched_other_mint : ∃ w, (previewMachine env).Reach (fun s => s.2 = .none) w ∧
    w.st.2.previews = [previewText shownConfig] ∧
      shownConfig.field "tokenMint" = some (.str alice.address) ∧
        w.st.2.minted = [bob.publicKey] ∧ alice.address ≠ bob.publicKey.toBase58 := by
  obtain ⟨w, hreach, hpreviews, hminted⟩ := confirmed_run
  exact ⟨w, hreach, hpreviews, rfl, hminted, fun he =>
    absurd (PublicKey.toBase58_injective he) (by decide)⟩

end

end Nexus
