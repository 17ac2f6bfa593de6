import NexusErebus.Trades

/-!
# The caches of the quotes and the decimals

`quoteSOLto` and `getDecimals` look into Redis before they ask, and they mean to store what they are
told.  A cache of this kind should not be seen: a call returns what the service said, now or a short
time ago (`Transparent`).

Both functions store by `redis.setEx`.  The client has no method of that name, so the call throws
where it should return.  `cache_transparent_iff` says that the cache stays unseen only as long as
there is nothing to store.
-/

namespace Nexus

open Async Text

/-- A call of a function with a cache, and what the service behind it says if it is asked. -/
inductive CachedCall where
  | quoteSOLto (mint : Str) (lamports : Number) (answer : Except Err Response)
  | getDecimals (mint : PublicKey) (answer : Except Err (Option Number))

/-- What such a call returns. -/
inductive CachedValue where
  | quote (route : Json)
  | decimals (d : Number)

namespace CachedCall

/-- The arguments of a call. -/
def args : CachedCall → (Str × Number) ⊕ PublicKey
  | quoteSOLto mint lamports _ => .inl (mint, lamports)
  | getDecimals mint _ => .inr mint

def key : CachedCall → String
  | quoteSOLto mint lamports _ => quoteKey mint lamports
  | getDecimals mint _ => decimalsCacheKey mint

/-- How long a value is kept, in seconds. -/
def ttl : CachedCall → Nat
  | quoteSOLto .. => cacheTtl
  | getDecimals .. => decimalsTtl

/-- What the process finds during a call. -/
def world (other : (c : Cmd) → c.Ans) : CachedCall → (c : Cmd) → Unit → c.Ans × Unit
  | quoteSOLto _ _ answer, .fetch _, t => (answer, t)
  | getDecimals _ answer, .getParsedAccountInfo _, t => (answer, t)
  | _, c, t => (other c, t)

def body (env : Env) : CachedCall → Prog CachedValue
  | quoteSOLto mint lamports _ => (Nexus.quoteSOLto env mint lamports).bind fun j => .ret (.quote j)
  | getDecimals mint _ => (Nexus.getDecimals env mint).bind fun d => .ret (.decimals d)

/-- What the service said.  A quote without a route, or one that could not be had, is `null`. -/
def said : CachedCall → Except Err CachedValue
  | quoteSOLto _ _ answer =>
      .ok (.quote (quoteResult (answer.bind fun res => parseJson (some res.body))))
  | getDecimals _ (.ok (some d)) => .ok (.decimals d)
  | getDecimals _ (.ok none) => .error ⟨.typeError, "Cannot read properties of null (reading 'data')"⟩
  | getDecimals _ (.error e) => .error e

/-- The service said something other than `null`. -/
def telling (c : CachedCall) : Bool :=
  match c.said with
  | .ok (.quote j) => Json.truthy (some j)
  | .ok (.decimals _) => true
  | .error _ => false

/-- The entry for a call.  The empty text counts for none. -/
def entry (c : CachedCall) (st : St) : Option String :=
  (st.redis.string st.clock c.key).filter (· ≠ "")

/-- What a call makes of an entry. -/
def read : CachedCall → String → Option CachedValue
  | quoteSOLto .., text => (Json.parse text).map .quote
  | getDecimals .., text => some (.decimals (parseInt text))

section

variable (env : Env) (p : Pid) (other : (c : Cmd) → c.Ans)

/-- What a call comes to. -/
def outcome (c : CachedCall) (st : St) : Except Err CachedValue × St :=
  let r := (c.body env).run (alone p (c.world other)) (st, ())
  (r.1, r.2.1)

/-- A call that finds no entry returns what the service says, which is stored unless it is `null`.
A call that finds an entry returns what the service said to an earlier call with its arguments.
The earlier calls come with their times. -/
structure Unseen (earlier : List (Nat × CachedCall)) (st : St) (c : CachedCall) : Prop where
  miss : c.entry st = none → (c.outcome env p other st).1 = c.said ∧
    (c.telling = true → ∃ v, c.said = .ok v ∧
      (c.entry (c.outcome env p other st).2).bind c.read = some v)
  hit : c.entry st ≠ none → ∃ call ∈ earlier, call.2.args = c.args ∧
    st.clock ≤ call.1 + 1000 * c.ttl ∧ (c.outcome env p other st).1 = call.2.said

/-- Calls one after another, each with the milliseconds that go by before it. -/
def Transparent : List (Nat × CachedCall) → St → List (Nat × CachedCall) → Prop
  | _, _, [] => True
  | earlier, st, (ms, c) :: calls =>
      let st := { st with clock := st.clock + ms }
      c.Unseen env p other earlier st ∧
        Transparent (earlier ++ [(st.clock, c)]) (c.outcome env p other st).2 calls

/-! ## A client without `setEx` -/

variable {env p other}

theorem quoteResult_eq_null {j : Except Err Json}
    (h : Json.truthy (some (quoteResult j)) = false) : quoteResult j = .null := by
  unfold quoteResult at h ⊢
  split
  next v hv =>
      rw [hv] at h
      dsimp only at h
      split at h
      next ht => rw [ht] at h; cases h
      next ht => rw [if_neg ht]
  next => rfl

theorem getD_of_entry_none {c : CachedCall} {st : St} (h : c.entry st = none) :
    (Redis.exec st.clock (.get c.key) st.redis).1.getD "" = "" := by
  rw [entry, Option.filter_eq_none_iff] at h
  cases hs : st.redis.string st.clock c.key with
  | none => simp [Redis.exec, hs]
  | some v => simpa [Redis.exec, hs] using h v hs

theorem setEx_run (hset : env.hasSetEx = false) {σ : Type} (step : (c : Cmd) → σ → c.Res × σ)
    (key : String) (seconds : Nat) (value : String) (s : σ) :
    (setEx env key seconds value).run step s =
      (.error ⟨.typeError, "redis.setEx is not a function"⟩, s) := by
  rw [setEx, hset]
  rfl

section

variable {strat : (c : Cmd) → Unit → c.Ans × Unit} {st : St}

/-- A quote that is not in the cache. -/
theorem quoteSOLto_missed (hset : env.hasSetEx = false) {mint : Str} {lamports : Number}
    (hmiss : (Redis.exec st.clock (.get (quoteKey mint lamports)) st.redis).1.getD "" = "")
    {result : Json}
    (hresult : quoteResult ((strat (.fetch ⟨quoteUrl mint lamports, "GET", .none⟩) ()).1.bind
      fun res => parseJson (some res.body)) = result) :
    (Nexus.quoteSOLto env mint lamports).run (alone p strat) (st, ()) =
      (if Json.truthy (some result) then .error ⟨.typeError, "redis.setEx is not a function"⟩
        else .ok result, (st, ())) := by
  have hget := run_redis p strat (.get (quoteKey mint lamports)) st ()
  have hask := Prog.run_outcome (run_fetchJson p strat ⟨quoteUrl mint lamports, "GET", .none⟩ st ())
  refine (Prog.run_bind_ok hget).trans ?_
  rw [if_neg (not_not.mpr hmiss)]
  refine (Prog.run_bind_ok hask).trans ?_
  simp only [hresult]
  cases htell : Json.truthy (some result) with
  | true => exact Prog.run_bind_error (setEx_run hset _ _ _ _ _)
  | false =>
      rw [← hresult, quoteResult_eq_null (hresult ▸ htell)]
      rfl

/-- Decimals that are not in the cache. -/
theorem getDecimals_missed (hset : env.hasSetEx = false) {mint : PublicKey}
    (hmiss : (Redis.exec st.clock (.get (decimalsCacheKey mint)) st.redis).1.getD "" = "") :
    (Nexus.getDecimals env mint).run (alone p strat) (st, ()) =
      (match (strat (.getParsedAccountInfo mint) ()).1 with
        | .ok (some _) => .error ⟨.typeError, "redis.setEx is not a function"⟩
        | .ok none => .error ⟨.typeError, "Cannot read properties of null (reading 'data')"⟩
        | .error e => .error e, (st, ())) := by
  have hget := run_redis p strat (.get (decimalsCacheKey mint)) st ()
  have hask : (attempt (ask (.getParsedAccountInfo mint))).run (alone p strat) (st, ()) =
      ((strat (.getParsedAccountInfo mint) ()).1, (st, ())) :=
    run_attempt (run_ask _ _ _)
  refine (Prog.run_bind_ok hget).trans ?_
  rw [if_neg (not_not.mpr hmiss)]
  cases hinfo : (strat (.getParsedAccountInfo mint) ()).1 with
  | error e =>
      rw [hinfo] at hask
      exact Prog.run_bind_error hask
  | ok info =>
      rw [hinfo] at hask
      refine (Prog.run_bind_ok hask).trans ?_
      cases info with
      | none => rfl
      | some d => exact (Prog.run_bind_ok rfl).trans (Prog.run_bind_error (setEx_run hset _ _ _ _ _))

end

/-- Without an entry a call that has something to store fails. -/
theorem outcome_of_entry_none (hset : env.hasSetEx = false) {c : CachedCall} {st : St}
    (hentry : c.entry st = none) : c.outcome env p other st =
      (if c.telling then .error ⟨.typeError, "redis.setEx is not a function"⟩ else c.said, st) := by
  have hmiss := getD_of_entry_none hentry
  cases c with
  | quoteSOLto mint lamports answer =>
      have hrun := @quoteSOLto_missed env p ((quoteSOLto mint lamports answer).world other) st hset
        mint lamports hmiss _ rfl
      have htells : (quoteSOLto mint lamports answer).telling =
          Json.truthy (some (quoteResult (answer.bind fun res => parseJson (some res.body)))) := rfl
      simp only [world, ← htells] at hrun
      cases htell : (quoteSOLto mint lamports answer).telling with
      | true =>
          rw [htell] at hrun
          rw [outcome, body, Prog.run_bind_error hrun]
          rfl
      | false =>
          rw [htell] at hrun
          rw [outcome, body, Prog.run_bind_ok hrun]
          rfl
  | getDecimals mint answer =>
      rw [outcome, body, Prog.run_bind, getDecimals_missed hset hmiss]
      cases answer with
      | error e => rfl
      | ok info =>
          cases info with
          | none => rfl
          | some d => rfl

theorem said_of_telling {c : CachedCall} (h : c.telling = true) : ∃ v, c.said = .ok v := by
  unfold telling at h
  split at h
  next j hj => exact ⟨_, hj⟩
  next d hd => exact ⟨_, hd⟩
  next => cases h

/-- Without an entry the cache is not seen if and only if there is nothing to store. -/
theorem unseen_iff (hset : env.hasSetEx = false) {earlier : List (Nat × CachedCall)}
    {c : CachedCall} {st : St} (hentry : c.entry st = none) :
    c.Unseen env p other earlier st ↔ c.telling = false := by
  have hout := @outcome_of_entry_none env p other hset c st hentry
  cases htell : c.telling with
  | true =>
      refine iff_of_false (fun h => ?_) nofun
      obtain ⟨v, hv⟩ := said_of_telling htell
      have hsame := (h.miss hentry).1
      rw [hout, htell, hv] at hsame
      cases hsame
  | false =>
      refine iff_of_true ⟨fun _ => ⟨?_, fun h => ?_⟩, fun h => absurd hentry h⟩ rfl
      · rw [hout, htell]
        rfl
      · rw [htell] at h
        cases h

end

end CachedCall

/-- A run of calls from an empty cache does not show the cache if and only if no call is told
anything but `null`. -/
theorem cache_transparent_iff (env : Env) (hset : env.hasSetEx = false) (p : Pid)
    (other : (c : Cmd) → c.Ans) (calls : List (Nat × CachedCall)) {st : St}
    (hempty : ∀ (c : CachedCall) (now : Nat), st.redis.string now c.key = none) :
    CachedCall.Transparent env p other [] st calls ↔ ∀ call ∈ calls, call.2.telling = false := by
  -- the store is the one of the start throughout, whatever was asked before
  suffices h : ∀ earlier st, (∀ (c : CachedCall) (now : Nat), st.redis.string now c.key = none) →
      (CachedCall.Transparent env p other earlier st calls ↔
        ∀ call ∈ calls, call.2.telling = false) from h [] st hempty
  clear hempty st
  induction calls with
  | nil => exact fun _ _ _ => iff_of_true trivial nofun
  | cons call calls ih =>
      obtain ⟨ms, c⟩ := call
      intro earlier st hempty
      have hentry : c.entry { st with clock := st.clock + ms } = none := by
        rw [CachedCall.entry, hempty]
        rfl
      have hout := @CachedCall.outcome_of_entry_none env p other hset c _ hentry
      rw [CachedCall.Transparent, List.forall_mem_cons]
      refine and_congr ?_ ?_
      · exact CachedCall.unseen_iff hset hentry
      · rw [hout]
        exact ih _ _ hempty

namespace Sample

/-- A quote service that knows a route, and one that knows none. -/
def routed : Except Err Response := .ok ⟨true, "OK", "\x7b\"data\":[\x7b\"outAmount\":\"5\"\x7d]\x7d"⟩

def unrouted : Except Err Response := .ok ⟨true, "OK", "\x7b\"data\":[]\x7d"⟩

/-- There is a route for the first quote of a run, and the call fails. -/
theorem quote_fails_on_cache :
    ((CachedCall.quoteSOLto (some "mint") (some 1000) routed).outcome env .agent offline
        (St.fresh env 0)).1 = .error ⟨.typeError, "redis.setEx is not a function"⟩ ∧
      ¬ CachedCall.Transparent env .agent offline [] (St.fresh env 0)
        [(0, .quoteSOLto (some "mint") (some 1000) routed)] := by
  have htell : (CachedCall.quoteSOLto (some "mint") (some 1000) routed).telling = true := by
    decide +kernel
  have hout := @CachedCall.outcome_of_entry_none env .agent offline rfl
    (.quoteSOLto (some "mint") (some 1000) routed) (St.fresh env 0) rfl
  rw [htell] at hout
  refine ⟨congrArg Prod.fst hout, fun h => ?_⟩
  have hfalse := (CachedCall.unseen_iff rfl rfl).mp h.1
  rw [htell] at hfalse
  cases hfalse

/-- Where nobody knows a route or the decimals, nothing is wrong. -/
theorem unrouted_transparent :
    CachedCall.Transparent env .agent offline [] (St.fresh env 0)
      [(0, .quoteSOLto (some "mint") (some 1000) unrouted), (500, .getDecimals nxrMint (.ok none))] :=
  (cache_transparent_iff env rfl .agent offline _ fun _ _ => rfl).mpr (by decide +kernel)

end Sample

end Nexus
