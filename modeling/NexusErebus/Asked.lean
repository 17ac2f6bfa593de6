import NexusErebus.Orders

/-!
# Asking for trades

A user asks for a trade in a text, or in a request to the API server.  This module compares what
is asked for with what is queued.

A text is given by its parts: what is said, as it is written, and what may stand around it,
which is spaces and mentions of the agent (`Piece.filler`).  A `TradeText` is a text that asks
for a trade, and the trade it asks for is queued (`written_trade_queued`).  A match of the pattern
of a trade takes three words, and so does the text, so the pattern of a purchase finds nothing in
a text that asks for a sale.

A request for a trade queues a tenth of a SOL, whatever was asked for, and only if the address of
the mint has 44 characters (`requested_trade_iff`).
-/

namespace Nexus

open Async Text

/-! ## Texts with mentions -/

/-- A piece of a message: something said, or a mention of the agent. -/
inductive Piece where
  | said (cs : List Char)
  | mention (name : List Char)

namespace Piece

/-- The piece as it is written. -/
def text : Piece → List Char
  | .said cs => cs
  | .mention name => '@' :: name

/-- What is left of a piece without the mentions. -/
def kept : Piece → List Char
  | .said cs => cs
  | .mention _ => []

/-- A mention names the agent, in any case. -/
def fits (env : Env) : Piece → Bool
  | .said cs => '@' ∉ cs
  | .mention name => env.twHandle ≠ "" && sameText name env.twHandle.toList

/-- Spaces, or a mention. -/
def filler (env : Env) : Piece → Bool
  | .said cs => cs.all isSpace
  | .mention name => env.twHandle ≠ "" && sameText name env.twHandle.toList

end Piece

/-- A message as it is written. -/
def written (ps : List Piece) : List Char := ps.flatMap Piece.text

/-- A message without the mentions. -/
def unmentioned (ps : List Piece) : List Char := ps.flatMap Piece.kept

section

variable {env : Env}

theorem fillers_nil (env : Env) : ∀ piece ∈ ([] : List Piece), piece.filler env = true := by simp

theorem Piece.fits_of_filler {piece : Piece} (h : piece.filler env = true) :
    piece.fits env = true := by
  cases piece with
  | said cs =>
      refine decide_eq_true fun hat => ?_
      exact absurd (List.all_eq_true.mp h _ hat) (by decide)
  | mention name => exact h

theorem isSpace_of_fillers {ps : List Piece} (h : ∀ piece ∈ ps, piece.filler env = true) :
    ∀ c ∈ unmentioned ps, isSpace c = true := by
  intro c hc
  obtain ⟨piece, hp, hc⟩ := List.mem_flatMap.mp hc
  cases piece with
  | said cs => exact List.all_eq_true.mp (h _ hp) c hc
  | mention name => cases hc

theorem removeFrom_pieces (henv : env.twHandle ≠ "") : ∀ {ps : List Piece},
    (∀ piece ∈ ps, piece.fits env = true) → ∀ ys,
      removeFrom ('@' :: env.twHandle.toList) 0 (written ps ++ ys) =
        unmentioned ps ++ removeFrom ('@' :: env.twHandle.toList) 0 ys
  | [], _, _ => rfl
  | piece :: ps, h, ys => by
      have ih := removeFrom_pieces henv (fun q hq => h q (List.mem_cons_of_mem _ hq)) ys
      have hp := h piece (List.mem_cons_self ..)
      simp only [written, unmentioned, List.flatMap_cons, List.append_assoc] at ih ⊢
      cases piece with
      | said cs =>
          have hat : '@' ∉ cs := of_decide_eq_true hp
          rw [Piece.text, Piece.kept, removeFrom_of_notMem _ _, ih]
          intro c hc heq
          have hc' : c = '@' := eq_of_toLower_eq (by decide) heq.symm
          exact hat (hc' ▸ hc)
      | mention name =>
          have hsame : sameText name env.twHandle.toList = true := (Bool.and_eq_true_iff.mp hp).2
          rw [Piece.text, Piece.kept, List.nil_append, ← ih]
          refine removeFrom_occurrence ?_ (List.cons_ne_nil _ _) _
          simpa [sameText] using hsame

/-- Without a name to look for there are no mentions. -/
theorem written_eq (henv : env.twHandle = "") {ps : List Piece}
    (h : ∀ piece ∈ ps, piece.fits env = true) : written ps = unmentioned ps := by
  refine List.flatMap_congr fun piece hp => ?_
  cases piece with
  | said cs => rfl
  | mention name => exact absurd (h _ hp) (by simp [Piece.fits, henv])

/-- The mentions are stripped, and at most spaces stay around the rest. -/
theorem stripMention_pieces {before core behind : List Piece}
    (hbefore : ∀ piece ∈ before, piece.filler env = true)
    (hcore : ∀ piece ∈ core, piece.fits env = true)
    (hbehind : ∀ piece ∈ behind, piece.filler env = true)
    (hhead : ∀ c ∈ (unmentioned core).head?, isSpace c = false)
    (hlast : ∀ c ∈ (unmentioned core).getLast?, isSpace c = false) (hne : unmentioned core ≠ []) :
    ∃ a b, (∀ c ∈ a, isSpace c = true) ∧ (∀ c ∈ b, isSpace c = true) ∧
      stripMention env (String.ofList (written (before ++ core ++ behind))) =
        String.ofList (a ++ unmentioned core ++ b) := by
  have hfits : ∀ piece ∈ before ++ core ++ behind, piece.fits env = true := by
    simp only [List.forall_mem_append]
    exact ⟨⟨fun q hq => Piece.fits_of_filler (hbefore q hq), hcore⟩,
      fun q hq => Piece.fits_of_filler (hbehind q hq)⟩
  have ha := isSpace_of_fillers hbefore
  have hb := isSpace_of_fillers hbehind
  have hsplit : unmentioned (before ++ core ++ behind) =
      unmentioned before ++ unmentioned core ++ unmentioned behind := by
    simp [unmentioned]
  by_cases henv : env.twHandle = ""
  · refine ⟨_, _, ha, hb, ?_⟩
    rw [stripMention, if_pos henv, written_eq henv hfits, hsplit]
  · refine ⟨[], [], by simp, by simp, ?_⟩
    have hremove := removeFrom_pieces henv hfits []
    rw [List.append_nil, removeFrom, List.append_nil, hsplit] at hremove
    have hpat : ("@" ++ env.twHandle).toList = '@' :: env.twHandle.toList := by simp
    rw [stripMention, if_neg henv, removeAll, hpat, String.toList_ofList, hremove,
      trim_append ha hb hhead hlast hne, List.nil_append, List.append_nil]

end

/-! ## Trades in texts -/

/-- A text that asks for a trade. -/
structure TradeText (env : Env) where
  side : Side
  /-- There is a slash in front of the word. -/
  slash : Bool
  /-- The side as it is written. -/
  word : List Char
  mint : PublicKey
  amount : Number.Literal
  before : List Piece
  afterWord : List Piece
  afterMint : List Piece
  behind : List Piece
  word_same : sameText word side.text.toList = true
  mint_length : mint.bytes.length = 32
  before_filler : ∀ piece ∈ before, piece.filler env = true
  afterWord_filler : ∀ piece ∈ afterWord, piece.filler env = true
  afterMint_filler : ∀ piece ∈ afterMint, piece.filler env = true
  behind_filler : ∀ piece ∈ behind, piece.filler env = true
  /-- There is a space. -/
  afterWord_space : unmentioned afterWord ≠ []
  afterMint_space : unmentioned afterMint ≠ []

namespace TradeText

variable {env : Env} (x : TradeText env)

/-- The word with its slash. -/
def order : List Char := if x.slash then '/' :: x.word else x.word

/-- The parts of the text, without what is around them. -/
def core : List Piece :=
  .said x.order :: x.afterWord ++ .said x.mint.toBase58.toList :: x.afterMint ++
    [.said x.amount.text]

def text : String := String.ofList (written (x.before ++ x.core ++ x.behind))

/-- The trade the text asks for. -/
def cmd : TradeCmd := ⟨x.side, some x.mint.toBase58, some x.amount.value⟩

theorem unmentioned_core : unmentioned x.core = x.order ++ (unmentioned x.afterWord ++
    (x.mint.toBase58.toList ++ (unmentioned x.afterMint ++ x.amount.text))) := by
  simp [core, unmentioned, Piece.kept]

end TradeText

theorem isMint_toBase58 {pk : PublicKey} (h : pk.bytes.length = 32) : IsMint pk.toBase58 := by
  refine ⟨(Base58.length_encode h).1, (Base58.length_encode h).2, fun c hc => ?_⟩
  have hall : ∀ c ∈ Base58.alphabet, c.isAlphanum = true := forall_mem_of_all (by decide)
  exact hall c (Base58.mem_alphabet_of_mem_encode hc)

theorem head_of_append {p : Char → Bool} {x y : List Char} {v : Bool} (hx : ∀ c ∈ x, p c = v)
    (hne : x ≠ []) : ∀ c ∈ (x ++ y).head?, p c = v := by
  intro c hc
  rw [List.head?_append_of_ne_nil _ hne] at hc
  exact hx c (List.mem_of_head? hc)

/-- The pattern of a trade matches a word, a mint and an amount with spaces between them. -/
theorem Rx.first_trade {w : String} {order s₁ mint s₂ amount b : List Char} {before : Option Char}
    (horder : ∀ y, (Text.Rx.alt (.lit ("/" ++ w)) (.lit w)).First ⟨before, order ++ y, []⟩
      ⟨order.getLast?.or before, y, []⟩)
    (hs₁ : ∀ c ∈ s₁, isSpace c = true) (hne₁ : s₁ ≠ []) (hmint : IsMint (String.ofList mint))
    (hs₂ : ∀ c ∈ s₂, isSpace c = true) (hne₂ : s₂ ≠ [])
    (hamount : ∀ c ∈ amount, Number.isDecimal c = true) (hne : amount ≠ [])
    (hb : ∀ c ∈ b, isSpace c = true) :
    ∃ before', (Rx.trade w).First ⟨before, order ++ (s₁ ++ (mint ++ (s₂ ++ (amount ++ b)))), []⟩
      ⟨before', b, [(2, String.ofList amount), (1, String.ofList mint)]⟩ := by
  obtain ⟨hmin, hmax, halnum⟩ := hmint
  rw [String.toList_ofList] at hmin hmax halnum
  have hne' : mint ≠ [] := List.ne_nil_of_length_pos (by omega)
  have hspace : ∀ c, isSpace c = true → c.isAlphanum = false := fun c hc =>
    Bool.eq_false_iff.mpr fun ha => by rw [isSpace_of_isAlphanum ha] at hc; cases hc
  have hdec : ∀ c, isSpace c = true → (c.isDigit || c = '.') = false := fun c hc =>
    Bool.eq_false_iff.mpr fun ha => by
      rw [Number.isSpace_of_isDecimal (c := c) ha] at hc
      cases hc
  refine ⟨amount.getLast?.or (s₂.getLast?.or (mint.getLast?.or (s₁.getLast?.or
    (order.getLast?.or before)))), Text.Rx.first_seq (horder _) ?_⟩
  refine Text.Rx.first_seq (Text.Rx.first_many hs₁ ?_ (List.length_pos_of_ne_nil hne₁) (by simp)) ?_
  · exact head_of_append (fun c hc => isSpace_of_isAlphanum (halnum c hc)) hne'
  refine Text.Rx.first_seq (Text.Rx.first_group (Text.Rx.first_many halnum ?_ hmin ?_)) ?_
  · exact head_of_append (fun c hc => hspace c (hs₂ c hc)) hne₂
  · simpa using hmax
  refine Text.Rx.first_seq (Text.Rx.first_many hs₂ ?_ (List.length_pos_of_ne_nil hne₂) (by simp)) ?_
  · exact head_of_append (fun c hc => Number.isSpace_of_isDecimal (hamount c hc)) hne
  have hclass : ∀ c ∈ amount, (c.isDigit || c = '.') = true := hamount
  refine Text.Rx.first_group (Text.Rx.first_many hclass ?_ (List.length_pos_of_ne_nil hne) ?_)
  · exact fun c hc => hdec c (hb c (List.mem_of_head? hc))
  · simp

/-- What the first part of the pattern matches has no spaces. -/
theorem Rx.eats_order {w : String} {pl pl' : Place}
    (hw : w.toList ≠ [] ∧ ∀ c ∈ ("/" ++ w).toList, isSpace c.toLower = false)
    (h : pl' ∈ (Text.Rx.alt (.lit ("/" ++ w)) (.lit w)).places pl) :
    ∃ x, pl.rest = x ++ pl'.rest ∧ x ≠ [] ∧ (∀ c ∈ x, isSpace c = false) ∧
      (sameText x w.toList = true ∨ sameText x ("/" ++ w).toList = true) := by
  have hword : ∀ c ∈ w.toList, isSpace c.toLower = false := fun c hc =>
    hw.2 c (by simp [hc])
  have hlow := @forall_of_sameText fun c => isSpace c = false
  rcases List.mem_append.mp h with h | h
  · obtain ⟨x, hx, hsame, -⟩ := Text.Rx.eats_of_lit h
    refine ⟨x, hx, ?_, fun c hc => isSpace_of_toLower (hlow hsame hw.2 c hc), .inr hsame⟩
    rintro rfl
    simp [sameText] at hsame
  · obtain ⟨x, hx, hsame, -⟩ := Text.Rx.eats_of_lit h
    refine ⟨x, hx, ?_, fun c hc => isSpace_of_toLower (hlow hsame hword c hc), .inl hsame⟩
    rintro rfl
    simp [sameText, hw.1] at hsame

/-- A match of the pattern of a trade takes three words, so in a text of three words it starts in
the first. -/
theorem Rx.trade_exec_eq_none {w clean : String} {order mint amount : List Char}
    (hwords : words clean.toList = [order, mint, amount])
    (hw : w.toList ≠ [] ∧ ∀ c ∈ ("/" ++ w).toList, isSpace c.toLower = false)
    (hnot : ∀ x, x <:+ order → sameText x w.toList = false ∧ sameText x ("/" ++ w).toList = false) :
    (Rx.trade w).exec clean = none := by
  by_contra hsome
  obtain ⟨groups, hexec⟩ := Option.ne_none_iff_exists'.mp hsome
  obtain ⟨pl, pl', -, ⟨pre, hpre⟩, hmem, -⟩ := Text.Rx.mem_places_of_exec hexec
  obtain ⟨p₁, h₁, hmem⟩ := List.mem_flatMap.mp hmem
  obtain ⟨p₂, h₂, hmem⟩ := List.mem_flatMap.mp hmem
  obtain ⟨p₃, h₃, hmem⟩ := List.mem_flatMap.mp hmem
  obtain ⟨p₄, h₄, h₅⟩ := List.mem_flatMap.mp hmem
  obtain ⟨x, hx, hne, hspace, hsame⟩ := Rx.eats_order hw h₁
  obtain ⟨s₁, hs₁, hsp₁, hmin₁, -⟩ := Text.Rx.eats_of_many h₂
  obtain ⟨m, hm, -, halnum, hmin, -⟩ := Text.Rx.groups_of_many h₃
  obtain ⟨s₂, hs₂, hsp₂, hmin₂, -⟩ := Text.Rx.eats_of_many h₄
  obtain ⟨n, hn, -, hdec, hone, -⟩ := Text.Rx.groups_of_many h₅
  have hm' : words m = [m] := words_single (fun c hc => isSpace_of_isAlphanum (halnum c hc))
    (List.ne_nil_of_length_pos (by omega))
  have hsplit : words clean.toList = words (pre ++ x) ++ (m :: words p₄.rest) := by
    rw [← hpre, hx, hs₁, hm, hs₂, ← List.append_assoc, words_append _ hsp₁ (List.ne_nil_of_length_pos hmin₁),
      words_append _ hsp₂ (List.ne_nil_of_length_pos hmin₂), hm']
    rfl
  have hlast : words p₄.rest ≠ [] := by
    cases n with
    | nil => cases hone
    | cons c n =>
        rw [hn]
        exact words_ne_nil (Number.isSpace_of_isDecimal (hdec c (List.mem_cons_self ..))) _
  obtain ⟨v, hv, hsuffix⟩ := suffix_getLast_words hspace hne pre
  rw [hwords] at hsplit
  -- there is a word up to the match, the mint, and a word behind it
  have hfirst : v = order := by
    cases hws : words (pre ++ x) with
    | nil => simp [hws] at hv
    | cons u us =>
        rw [hws] at hsplit hv
        cases hrest : words p₄.rest with
        | nil => exact absurd hrest hlast
        | cons u' us' =>
            have hlen := congrArg List.length hsplit
            rw [hrest] at hlen
            simp only [List.length_cons, List.length_nil, List.length_append] at hlen
            have hnil : us = [] := List.eq_nil_of_length_eq_zero (by omega)
            subst hnil
            cases hv
            exact (List.cons.inj hsplit).1.symm
  have hfalse := hnot x (hfirst ▸ hsuffix)
  rw [hfalse.1, hfalse.2] at hsame
  exact hsame.elim Bool.false_ne_true Bool.false_ne_true

namespace TradeText

variable {env : Env} (x : TradeText env)

/-- The text of the word with its slash. -/
theorem order_same : sameText x.order (if x.slash then "/" ++ x.side.text else x.side.text).toList =
    true := by
  have hword : x.word.map Char.toLower = x.side.text.toList.map Char.toLower :=
    of_decide_eq_true x.word_same
  unfold order
  split
  · simp [sameText, hword]
  · exact x.word_same

theorem order_chars : x.order ≠ [] ∧ ∀ c ∈ x.order, isSpace c = false ∧ c ≠ '@' := by
  have hall : ∀ side : Side, ∀ slash : Bool,
      (if slash then "/" ++ side.text else side.text).toList ≠ [] ∧
      ∀ c ∈ (if slash then "/" ++ side.text else side.text).toList,
        isSpace c.toLower = false ∧ c.toLower ≠ '@' := by
    intro side slash
    cases side with
    | buy => cases slash with | _ => exact ⟨by decide, forall_mem_of_all (by decide)⟩
    | sell => cases slash with | _ => exact ⟨by decide, forall_mem_of_all (by decide)⟩
  constructor
  · intro hnil
    have hlen := length_eq_of_sameText x.order_same
    rw [hnil] at hlen
    exact (hall x.side x.slash).1 (List.eq_nil_of_length_eq_zero hlen.symm)
  · intro c hc
    have hlow := @forall_of_sameText (fun c => isSpace c = false ∧ c ≠ '@') _ _ x.order_same
      (hall x.side x.slash).2 c hc
    exact ⟨isSpace_of_toLower hlow.1, fun hat => hlow.2 (by rw [hat]; rfl)⟩

/-- The word is found with its slash, if it has one. -/
theorem order_first (before : Option Char) (y : List Char) :
    (Text.Rx.alt (.lit ("/" ++ x.side.text)) (.lit x.side.text)).First ⟨before, x.order ++ y, []⟩
      ⟨x.order.getLast?.or before, y, []⟩ := by
  have hsame := x.order_same
  cases hslash : x.slash with
  | true =>
      rw [hslash] at hsame
      exact Text.Rx.first_alt (Text.Rx.first_lit hsame)
  | false =>
      rw [hslash] at hsame
      refine Text.Rx.first_alt_right ?_ (Text.Rx.first_lit hsame)
      cases hword : x.order with
      | nil => exact absurd hword x.order_chars.1
      | cons c cs =>
          rw [hword] at hsame
          obtain ⟨d, hd, hlow⟩ := head_of_sameText hsame
          have hinit : (Text.Rx.lit ("/" ++ x.side.text)).Initial (· = '/') :=
            ⟨'/', by simp, by decide⟩
          refine Text.Rx.places_eq_nil hinit ?_
          rw [← hlow]
          have hall : ∀ side : Side, ∀ d ∈ side.text.toList, d.toLower ≠ '/' := by
            intro side
            cases side with | _ => exact forall_mem_of_all (by decide)
          exact hall x.side d (List.mem_of_mem_head? hd)

/-- A text that asks for a sale does not ask for a purchase. -/
theorem order_not_buy (h : x.side = .sell) (z : List Char) (hz : z <:+ x.order) :
    sameText z "buy".toList = false ∧ sameText z ("/" ++ "buy").toList = false := by
  have horder : x.order.map Char.toLower =
      (if x.slash then "/" ++ x.side.text else x.side.text).toList.map Char.toLower :=
    of_decide_eq_true x.order_same
  have hsuffix : z.map Char.toLower <:+
      (if x.slash then "/" ++ "sell" else "sell").toList.map Char.toLower := by
    rw [h] at horder
    exact horder ▸ hz.map _
  have hall : ∀ slash : Bool, ∀ w ∈ ["buy", "/" ++ "buy"], ¬ w.toList.map Char.toLower <:+
      (if slash then "/" ++ "sell" else "sell").toList.map Char.toLower := by decide
  constructor
  · exact decide_eq_false fun hz => hall x.slash "buy" (by simp) (hz ▸ hsuffix)
  · exact decide_eq_false fun hz => hall x.slash ("/" ++ "buy") (by simp) (hz ▸ hsuffix)

/-- What is left of the text without the mentions. -/
theorem stripMention_text : ∃ a b, (∀ c ∈ a, isSpace c = true) ∧ (∀ c ∈ b, isSpace c = true) ∧
    stripMention env x.text = String.ofList (a ++ (x.order ++ (unmentioned x.afterWord ++
      (x.mint.toBase58.toList ++ (unmentioned x.afterMint ++ (x.amount.text ++ b)))))) := by
  have hmint := (isMint_toBase58 x.mint_length).2.2
  have hcore : ∀ piece ∈ x.core, piece.fits env = true := by
    simp only [core, List.forall_mem_append, List.forall_mem_cons]
    refine ⟨⟨⟨?_, fun q hq => Piece.fits_of_filler (x.afterWord_filler q hq)⟩, ?_,
      fun q hq => Piece.fits_of_filler (x.afterMint_filler q hq)⟩, ?_, by simp⟩
    · exact decide_eq_true fun hat => (x.order_chars.2 _ hat).2 rfl
    · exact decide_eq_true fun hat => absurd (hmint _ hat) (by decide)
    · exact decide_eq_true fun hat => absurd (x.amount.isDecimal_text _ hat) (by decide)
  have hlast : ∀ c ∈ (unmentioned x.core).getLast?, isSpace c = false := by
    intro c hc
    have hmem : x.amount.text.getLast? = some c := by
      simpa [x.unmentioned_core, List.getLast?_append_of_ne_nil, x.amount.text_ne_nil] using hc
    exact Number.isSpace_of_isDecimal (x.amount.isDecimal_text c (List.mem_of_getLast? hmem))
  obtain ⟨a, b, ha, hb, hstrip⟩ := stripMention_pieces x.before_filler hcore x.behind_filler
    (by
      rw [x.unmentioned_core]
      exact head_of_append (fun c hc => (x.order_chars.2 c hc).1) x.order_chars.1)
    hlast (by simp [x.unmentioned_core, x.order_chars.1])
  refine ⟨a, b, ha, hb, hstrip.trans ?_⟩
  simp only [x.unmentioned_core, List.append_assoc]

theorem words_text {a b : List Char} (ha : ∀ c ∈ a, isSpace c = true)
    (hb : ∀ c ∈ b, isSpace c = true) : words (a ++ (x.order ++ (unmentioned x.afterWord ++
      (x.mint.toBase58.toList ++ (unmentioned x.afterMint ++ (x.amount.text ++ b)))))) =
    [x.order, x.mint.toBase58.toList, x.amount.text] := by
  have hmint := isMint_toBase58 x.mint_length
  have hne : x.mint.toBase58.toList ≠ [] := List.ne_nil_of_length_pos (by have := hmint.1; omega)
  rw [words_spaces ha, words_append _ (isSpace_of_fillers x.afterWord_filler) x.afterWord_space,
    words_append _ (isSpace_of_fillers x.afterMint_filler) x.afterMint_space,
    words_append_spaces _ hb, words_single (fun c hc => (x.order_chars.2 c hc).1) x.order_chars.1,
    words_single (fun c hc => isSpace_of_isAlphanum (hmint.2.2 c hc)) hne,
    words_single (fun c hc => Number.isSpace_of_isDecimal (x.amount.isDecimal_text c hc))
      x.amount.text_ne_nil]
  rfl

/-- The text is read as the trade it asks for. -/
theorem textCmd_text : textCmd (stripMention env x.text) = some (.trade x.cmd) := by
  obtain ⟨a, b, ha, hb, hclean⟩ := x.stripMention_text
  have hs₁ := isSpace_of_fillers x.afterWord_filler
  have hs₂ := isSpace_of_fillers x.afterMint_filler
  have hmint := isMint_toBase58 x.mint_length
  have hfirst := fun before => Rx.first_trade (x.order_first before) hs₁ x.afterWord_space
    (by rwa [String.ofList_toList]) hs₂ x.afterMint_space x.amount.isDecimal_text
    x.amount.text_ne_nil hb
  have hinit : ∀ side : Side, (Rx.trade side.text).Initial fun c => isSpace c = false := by
    intro side
    cases side with
    | buy => exact .inl ⟨⟨'/', by decide, by decide⟩, 'b', by decide, by decide⟩
    | sell => exact .inl ⟨⟨'/', by decide, by decide⟩, 's', by decide, by decide⟩
  obtain ⟨before', hfirst⟩ := hfirst a.getLast?
  have hexec := Text.Rx.exec_of_first ha (hinit x.side) hfirst
  rw [← hclean] at hexec
  have hcmd : tradeOf x.side [(2, String.ofList x.amount.text),
      (1, String.ofList x.mint.toBase58.toList)] = .trade x.cmd := by
    rw [String.ofList_toList]
    exact congrArg (fun q => TextCmd.trade ⟨x.side, some x.mint.toBase58, q⟩) x.amount.ofText_eq
  cases hside : x.side with
  | buy =>
      rw [hside] at hexec hcmd
      rw [textCmd, show Rx.buy.exec _ = _ from hexec]
      exact congrArg some hcmd
  | sell =>
      rw [hside] at hexec hcmd
      have hnone : Rx.buy.exec (stripMention env x.text) = none := by
        have hwords := x.words_text ha hb
        rw [← String.toList_ofList (l := a ++ _), ← hclean] at hwords
        exact Rx.trade_exec_eq_none hwords ⟨by decide, forall_mem_of_all (by decide)⟩
          (x.order_not_buy hside)
      rw [textCmd, hnone, show Rx.sell.exec _ = _ from hexec]
      exact congrArg some hcmd

end TradeText

section

variable {env : Env} {τ : Type} (p : Pid) (strat : (c : Cmd) → τ → c.Ans × τ)

/-- An answer has no buttons, so it changes nothing. -/
theorem send_state (r : Reply) (text : String) (s : St × τ) :
    ((r.send text).run (alone p strat) s).2.1 = s.1 := by
  cases r with
  | telegram chat =>
      rw [Reply.send, run_attempt (run_ask (.telegram (.sendMessage chat text)) s.1 s.2)]
      simp [exec, TgCmd.shows]
  | twitter =>
      rw [Reply.send, run_attempt (run_ask (.twitterReply text) s.1 s.2)]
      rfl
  | silent => rfl

/-- A trade is queued whether or not it can be answered. -/
theorem run_dispatchTrade (cmd : TradeCmd) (handle : Str) (reply : Option Reply) (s : St × τ) :
    ∃ s', (dispatchTrade cmd handle reply).run (alone p strat) s = (.ok (), s') ∧
      s'.1.jobs = s.1.jobs ++ [⟨cmd, handle⟩] := by
  cases reply with
  | none => exact ⟨_, rfl, rfl⟩
  | some r => exact ⟨_, rfl, congrArg St.jobs (send_state p strat r _ _)⟩

/-- A text that asks for a trade queues that trade for its sender, and nothing else. -/
theorem written_trade_queued (x : TradeText env) (handle : Str) (reply : Option Reply)
    (s : St × τ) :
    ∃ s', (handleMessage env ⟨handle, some x.text, none, reply⟩).run (alone p strat) s =
        (.ok (), s') ∧
      s'.1.jobs = s.1.jobs ++
        [⟨⟨x.side, some x.mint.toBase58, some x.amount.value⟩, handle⟩] := by
  have hbutton : buttonAct none = none := rfl
  have htrade : (⟨handle, some x.text, none, reply⟩ : Message).trade env = some x.cmd := by
    simp only [Message.trade, hbutton, Option.getD_some, x.textCmd_text]
  rw [handleMessage_of_trade htrade]
  exact run_dispatchTrade p strat x.cmd handle reply s

/-! ## Trades in requests -/

/-- The body of a request for a trade. -/
def tradeBody (side : Side) (mint : PublicKey) (sol : ℚ) : Json :=
  .obj [("side", .str side.text), ("mint", .str mint.toBase58), ("sol", .num sol)]

omit p strat in
/-- The schema asks for 44 characters. -/
theorem schemaTrade_tradeBody {mint : PublicKey} (hmint : mint.bytes.length = 32) {sol : ℚ}
    (hsol : 0 < sol ∧ sol ≤ 10) (side : Side) : schemaTrade (some (tradeBody side mint sol)) =
      if mint.toBase58.toList.length = 44 then some (side, mint.toBase58, sol) else none := by
  have halnum : mint.toBase58.toList.all Char.isAlphanum = true :=
    List.all_eq_true.mpr (isMint_toBase58 hmint).2.2
  have hside : schemaField (some (tradeBody side mint sol)) "side" = some (.str side.text) := rfl
  have haddr : schemaField (some (tradeBody side mint sol)) "mint" = some (.str mint.toBase58) := rfl
  have hamount : schemaField (some (tradeBody side mint sol)) "sol" = some (.num sol) := rfl
  simp only [schemaTrade, hside, haddr, hamount, halnum, hsol.1, hsol.2, decide_true, Bool.and_true,
    decide_eq_true_eq]
  cases side with
  | buy => rfl
  | sell => rfl

/-- A request that is valid queues a trade of a tenth of a SOL. -/
theorem run_trade_of_schema {r : ApiRequest} {side : Side} {mint : String} {sol : ℚ}
    (h : schemaTrade r.body = some (side, mint, sol)) (user : String) (time : Nat) (s : St × τ) :
    ∃ s', (runHandler env r (.str user) time .trade).run (alone p strat) s =
        (.ok (200, .obj [("queued", .bool true)]), s') ∧
      s'.1.jobs = s.1.jobs ++ [⟨⟨side, some mint, some (1 / 10)⟩, some user⟩] := by
  have htrade := handleMessage_of_trade
    (@trade_tradeMessage env (some user) _ side (schemaTrade_mint h))
  obtain ⟨s₁, hrun, hjobs⟩ := run_dispatchTrade p strat ⟨side, some mint, some (1 / 10)⟩ (some user)
    (some .silent) (alone p strat (.apiNote (.handled (.str user) time)) s).2
  obtain ⟨t', hawait⟩ := run_await hrun
  have hnote : (ask (.apiNote (.handled (.str user) time))).run (alone p strat) s = (.ok (), _) := rfl
  have hhandler : (handler env r (some user) .trade).run (alone p strat)
      (alone p strat (.apiNote (.handled (.str user) time)) s).2 =
        (.ok (200, .obj [("queued", .bool true)]), (s₁.1, t')) := by
    rw [handler, h]
    exact Prog.run_bind_ok ((congrArg (fun q => (await q).run (alone p strat) _) htrade).trans hawait)
  refine ⟨(s₁.1, t'), ?_, hjobs⟩
  rw [runHandler, Prog.bind_eq, Prog.run_bind_ok hnote, Prog.run_tryCatch,
    show (Json.str user).textOf = user from rfl, hhandler]

/-- A request for a trade queues the trade that was asked for if and only if the address of the
mint has 44 characters and the amount is a tenth of a SOL. -/
theorem requested_trade_iff {mint : PublicKey} (hmint : mint.bytes.length = 32) {sol : ℚ}
    (hsol : 0 < sol ∧ sol ≤ 10) (side : Side) (user : String) (time : Nat) {r : ApiRequest}
    (hbody : r.body = some (tradeBody side mint sol)) (s : St × τ) :
    (∃ s', (runHandler env r (.str user) time .trade).run (alone p strat) s =
        (.ok (200, .obj [("queued", .bool true)]), s') ∧
      s'.1.jobs = s.1.jobs ++ [⟨⟨side, some mint.toBase58, some sol⟩, some user⟩]) ↔
    mint.toBase58.toList.length = 44 ∧ sol = 1 / 10 := by
  have hschema := schemaTrade_tradeBody hmint hsol side
  rw [← hbody] at hschema
  by_cases hlen : mint.toBase58.toList.length = 44
  · rw [if_pos hlen] at hschema
    obtain ⟨s₁, hrun, hjobs⟩ := @run_trade_of_schema env _ p strat _ _ _ _ hschema user time s
    constructor
    · rintro ⟨s', hrun', hjobs'⟩
      cases hrun.symm.trans hrun'
      have hjob := List.append_cancel_left (hjobs.symm.trans hjobs')
      simp only [List.cons.injEq, TradeJob.mk.injEq, TradeCmd.mk.injEq, Option.some.injEq] at hjob
      exact ⟨hlen, hjob.1.1.2.2.symm⟩
    · rintro ⟨-, rfl⟩
      exact ⟨s₁, hrun, hjobs⟩
  · rw [if_neg hlen] at hschema
    refine iff_of_false ?_ fun h => hlen h.1
    rintro ⟨s', hrun, -⟩
    rw [runHandler, handler, hschema] at hrun
    cases hrun

end

namespace Sample

/-- The USDC mint, whose address has 44 characters. -/
def usdc : PublicKey :=
  ⟨[198, 250, 122, 243, 190, 219, 173, 58, 61, 101, 243, 106, 171, 201, 116, 49, 177, 187, 228, 194,
    210, 246, 224, 228, 124, 166, 2, 3, 69, 47, 93, 97]⟩

/-- The mint of wrapped SOL, whose address has 43 characters. -/
def wrappedSol : PublicKey :=
  ⟨[6, 155, 136, 87, 254, 171, 129, 132, 251, 104, 127, 99, 70, 24, 192, 53, 218, 196, 57, 220, 26,
    235, 59, 85, 152, 160, 240, 0, 0, 0, 0, 1]⟩

/-- A text that asks for a sale. -/
def sellText : TradeText env where
  side := .sell
  slash := true
  word := "SeLL".toList
  mint := wrappedSol
  amount := ⟨"2".toList, some "50".toList, ⟨by decide, forall_mem_of_all (by decide)⟩,
    fun _ h => Option.some.inj h ▸ ⟨by decide, forall_mem_of_all (by decide)⟩⟩
  before := [.mention "Nexer_AFbot".toList, .said " ".toList]
  afterWord := [.said " ".toList, .mention "nexer_afbot".toList, .said "\n".toList]
  afterMint := [.said "\t".toList]
  behind := []
  word_same := by decide
  mint_length := by decide
  before_filler := by decide
  afterWord_filler := by decide
  afterMint_filler := by decide
  behind_filler := fillers_nil env
  afterWord_space := by decide
  afterMint_space := by decide

example : sellText.text = "@Nexer_AFbot /SeLL @nexer_afbot\n" ++ solMint ++ "\t2.50" := by
  decide +kernel

/-- A request for a trade, behind the middleware. -/
def tradeRequest (side : Side) (mint : PublicKey) (sol : ℚ) : ApiRequest where
  method := .post
  path := "/trade"
  malformed := false
  admitted := true
  authorization := none
  csrfCookie := none
  csrfField := none
  xCsrfToken := none
  xXsrfToken := none
  body := some (tradeBody side mint sol)

/-- The status of the answer to a request for a trade, and the jobs it queued. -/
def requested (side : Side) (mint : PublicKey) (sol : ℚ) : Option Nat × List TradeJob :=
  let r := (runHandler env (tradeRequest side mint sol) (.str "@alice") 0 .trade).run
    (alone .api unplugged) (St.fresh env 0, ())
  (r.1.toOption.map Prod.fst, r.2.1.jobs)

/-- Wrapped SOL cannot be traded, and a request for one SOL queues a tenth. -/
theorem requested_otherwise :
    usdc.toBase58 = "EPjFWdd5AufqSSqeM2qN1xzybapC8G4wEGGkZwyTDt1v" ∧
      wrappedSol.toBase58 = solMint ∧
      requested .sell wrappedSol (1 / 10) = (some 400, []) ∧
      requested .buy usdc 1 = (some 200,
        [⟨⟨.buy, some "EPjFWdd5AufqSSqeM2qN1xzybapC8G4wEGGkZwyTDt1v", some (1 / 10)⟩,
          some "@alice"⟩]) := by
  decide +kernel

theorem requested_trade_tenth :
    ∃ s', (runHandler env (tradeRequest .buy usdc (1 / 10)) (.str "@alice") 0 .trade).run
          (alone .api unplugged) (St.fresh env 0, ()) =
        (.ok (200, .obj [("queued", .bool true)]), s') ∧
      s'.1.jobs = [⟨⟨.buy, some usdc.toBase58, some (1 / 10)⟩, some "@alice"⟩] :=
  (requested_trade_iff .api unplugged (by decide) (by norm_num) .buy "@alice" 0 rfl
    (St.fresh env 0, ())).mpr ⟨by decide +kernel, rfl⟩

end Sample

end Nexus
