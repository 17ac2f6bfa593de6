import NexusErebus.Db
import Mathlib.Data.Nat.Cast.Order.Ring

/-!
# The user store is a map

What the store of `Db` is for, said without keys, hashes and ciphers: a map that
gives a handle its public fields and its secret (`Accounts`).  A writer of the store
changes one entry of the map.  A reader returns a part of one entry.

`Refines` relates a Redis server to such a map.  Each writer takes related states to
related states (`upsertUser_refines`, `setWalletSecret_refines`), and each reader
finds in the server what the map holds.  So the store refines the map over every
sequence of calls.

The bytes of a secret come back because each layer of the stored format is undone by
its reader: JSON, UTF-8, the cipher, base 64 and the mark (`openWallet_sealed`).
-/

namespace Nexus

open Async Text

/-! ## Secrets at rest -/

theorem toUint8_toNat (b : UInt8) : Number.toUint8 (some (b.toNat : ℚ)) = b := by
  have hb := b.toNat_lt
  have hn : ¬ ((b.toNat : ℚ) < 0) := not_lt.mpr (Nat.cast_nonneg _)
  have hm : ((b.toNat : ℤ) % 256).toNat = b.toNat := by omega
  simp [Number.toUint8, hn, hm, Number.floor_natCast]

theorem uint8ArrayFrom_bytesJson (bs : Bytes) : uint8ArrayFrom (bytesJson bs) = .ok bs := by
  have h : (fun b : UInt8 => Number.toUint8 (Json.toNumber (some (.num (b.toNat : ℚ))))) = id :=
    funext toUint8_toNat
  simp only [bytesJson, uint8ArrayFrom, List.map_map, Function.comp_def, h, List.map_id]

theorem plainElems_bytes : ∀ bs : Bytes,
    Json.PlainElems (bs.map fun b => .num (b.toNat : ℚ))
  | [] => trivial
  | b :: bs => ⟨⟨b.toNat, rfl⟩, plainElems_bytes bs⟩

theorem parse_bytesJson (bs : Bytes) :
    Json.parse (Json.stringify (bytesJson bs)) = some (bytesJson bs) :=
  Json.parse_stringify (plainElems_bytes bs)

section

variable (env : Env)

/-- The stored format is cut back into vector, tag and cipher text. -/
theorem cut_sealed {iv : Bytes} (hiv : iv.length = 12) (buf : Bytes) :
    (Base64.decode (sealed env iv buf)).take 12 = iv ∧
      ((Base64.decode (sealed env iv buf)).drop 12).take 16 = (env.aes.encrypt iv buf).2 ∧
      (Base64.decode (sealed env iv buf)).drop 28 = (env.aes.encrypt iv buf).1 := by
  have ht := env.aes.tag_length iv buf
  have hraw : Base64.decode (sealed env iv buf) =
      iv ++ ((env.aes.encrypt iv buf).2 ++ (env.aes.encrypt iv buf).1) := by
    rw [sealed, Base64.decode_encode, List.append_assoc]
  have hd : 28 = 12 + 16 := rfl
  refine ⟨?_, ?_, ?_⟩
  · rw [hraw, ← hiv, List.take_left]
  · rw [hraw, ← hiv, List.drop_left, ← ht, List.take_left]
  · rw [hd, ← List.drop_drop, hraw, ← hiv, List.drop_left, ← ht, List.drop_left]

theorem decrypt_sealed {iv : Bytes} (hiv : iv.length = 12) (buf : Bytes) :
    decrypt env (sealed env iv buf) = .ok buf := by
  obtain ⟨h₁, h₂, h₃⟩ := cut_sealed env hiv buf
  have hne : iv ≠ [] := List.ne_nil_of_length_pos (hiv ▸ by decide)
  simp only [decrypt, h₁, h₂, h₃, env.aes.decrypt_encrypt iv buf hne]

theorem slice_mark (s : String) : slice ("enc:" ++ s) 4 = s := by
  simp [slice]

theorem startsWith_mark (s : String) : startsWith ("enc:" ++ s) "enc:" = true := by
  simp [startsWith]

/-- A sealed text that denotes a byte array is opened to that array. -/
theorem openWallet_sealed {iv : Bytes} (hiv : iv.length = 12) {w : String} {bs : Bytes}
    (hw : Json.parse w = some (bytesJson bs)) :
    openWallet env ("enc:" ++ sealed env iv (Utf8.encode w)) = .ok bs := by
  simp only [openWallet, slice_mark, decrypt_sealed env hiv, Utf8.decode_encode, parseJson,
    Str.text_some, hw, uint8ArrayFrom_bytesJson]

end

/-- No JSON text starts with the mark. -/
theorem not_startsWith_mark {w : String} {v : Json} (hw : Json.parse w = some v) :
    startsWith w "enc:" = false := by
  by_contra h
  obtain ⟨r, hr⟩ : ∃ r, w.toList = 'e' :: r := by
    simp only [startsWith, Bool.not_eq_false, List.isPrefixOf_iff_prefix] at h
    obtain ⟨r, hr⟩ := h
    exact ⟨_, hr.symm⟩
  simp [Json.parse, hr, Json.value, Json.skip, Json.isWs, Json.number] at hw

/-! ## What the writers do to a hash -/

/-- A property list as the arguments of `hset`. -/
def redisArgs (data : Obj) : List (String × String) := data.map fun kv => (kv.1, redisArg kv.2)

section

variable (env : Env)

/-- The properties with the wallet sealed under a vector. -/
def sealedData (iv : Bytes) (data : Obj) : Obj :=
  match data.truthy "wallet" with
  | some wallet =>
      if startsWith wallet "enc:" then data
      else Assoc.set "wallet" (some ("enc:" ++ sealed env iv (Utf8.encode wallet))) data
  | none => data

/-- The hash of a user after `upsertUser`. -/
def upsertedHash (iv : Bytes) (data : Obj) (hash : List (String × String)) :
    List (String × String) :=
  match data.truthy "chatId" with
  | some chatId =>
      Assoc.setAll (Assoc.set "chatId" chatId hash)
        (redisArgs (sealedData env iv (Assoc.erase "chatId" data)))
  | none => Assoc.setAll hash (redisArgs (sealedData env iv data))

variable {env} {iv : Bytes} {data : Obj}

theorem truthy_eq_some {k s : String} (h : data.truthy k = some s) :
    data.lookup k = some (some s) ∧ s ≠ "" := by
  unfold Obj.truthy at h
  split at h
  next t ht =>
    split at h
    next => cases h
    next hne =>
      cases h
      exact ⟨ht, hne⟩
  next => cases h

theorem truthy_of_lookup {k s : String} (h : data.lookup k = some (some s)) (hs : s ≠ "") :
    data.truthy k = some s := by
  simp [Obj.truthy, h, hs]

variable (env iv data) in
/-- Sealing a wallet changes no other property and adds no key. -/
theorem keys_sealedData : Assoc.keys (sealedData env iv data) = Assoc.keys data := by
  unfold sealedData
  split
  next wallet hw =>
    split
    next => rfl
    next =>
      have hmem : "wallet" ∈ Assoc.keys data := by
        by_contra hn
        rw [← Assoc.lookup_eq_none, (truthy_eq_some hw).1] at hn
        cases hn
      exact Assoc.keys_set_of_mem _ hmem
  next => rfl

theorem lookup_sealedData {f : String} (hf : f ≠ "wallet") :
    (sealedData env iv data).lookup f = data.lookup f := by
  unfold sealedData
  split
  next => split <;> simp [Assoc.lookup_set_ne hf.symm]
  next => rfl

theorem lookup_redisArgs (f : String) :
    (redisArgs data).lookup f = (data.lookup f).map redisArg := Assoc.lookup_map redisArg f data

theorem nodup_redisArgs_sealedData (hd : (Assoc.keys data).Nodup) :
    (Assoc.keys (redisArgs (sealedData env iv data))).Nodup := by
  rw [redisArgs, Assoc.keys_map, keys_sealedData]
  exact hd

/-- `upsertUser` sets every public field it is given and no other. -/
theorem lookup_upsertedHash (hd : (Assoc.keys data).Nodup) (hash : List (String × String))
    {f : String} (hf : f ≠ "wallet") : (upsertedHash env iv data hash).lookup f =
      ((data.lookup f).map redisArg).or (hash.lookup f) := by
  unfold upsertedHash
  split
  next chatId hc =>
    rw [Assoc.lookup_setAll_of_nodup f
      (nodup_redisArgs_sealedData (Assoc.nodup_keys_erase hd "chatId")), lookup_redisArgs,
      lookup_sealedData hf, Assoc.lookup_erase, Assoc.lookup_set]
    by_cases he : "chatId" = f
    · subst he
      simp [(truthy_eq_some hc).1]
    · simp [he]
  next =>
    rw [Assoc.lookup_setAll_of_nodup f (nodup_redisArgs_sealedData hd), lookup_redisArgs,
      lookup_sealedData hf]

variable (env iv) in
theorem lookup_upsertedHash_wallet (hd : (Assoc.keys data).Nodup)
    (hash : List (String × String)) : (upsertedHash env iv data hash).lookup "wallet" =
      (((sealedData env iv data).lookup "wallet").map redisArg).or (hash.lookup "wallet") := by
  unfold upsertedHash
  split
  next chatId hc =>
    have he : (Assoc.erase "chatId" data).lookup "wallet" = data.lookup "wallet" := by
      rw [Assoc.lookup_erase, if_neg (by decide)]
    have ht : Obj.truthy (Assoc.erase "chatId" data) "wallet" = data.truthy "wallet" := by
      simp only [Obj.truthy, he]
    have hw : (sealedData env iv (Assoc.erase "chatId" data)).lookup "wallet" =
        (sealedData env iv data).lookup "wallet" := by
      unfold sealedData
      rw [ht]
      split
      next => split <;> simp [he]
      next => exact he
    rw [Assoc.lookup_setAll_of_nodup "wallet"
      (nodup_redisArgs_sealedData (Assoc.nodup_keys_erase hd "chatId")), lookup_redisArgs, hw,
      Assoc.lookup_set_ne (by decide)]
  next =>
    rw [Assoc.lookup_setAll_of_nodup "wallet" (nodup_redisArgs_sealedData hd), lookup_redisArgs]

theorem upsertedHash_ne_nil (hdata : data ≠ []) (hash : List (String × String)) :
    upsertedHash env iv data hash ≠ [] := by
  unfold upsertedHash
  split
  next chatId hc => exact Assoc.setAll_ne_nil (Assoc.set_ne_nil _ _ _)
  next =>
    cases hs : sealedData env iv data with
    | nil =>
        have hk := keys_sealedData env iv data
        rw [hs] at hk
        exact absurd (List.map_eq_nil_iff.mp hk.symm) hdata
    | cons kv kvs =>
        rw [redisArgs, List.map_cons, Assoc.setAll_cons]
        exact Assoc.setAll_ne_nil (Assoc.set_ne_nil _ _ _)

end

/-! ## Runs of the writers -/

section

variable {env : Env} {τ : Type} {p : Pid} {strat : (c : Cmd) → τ → c.Ans × τ}

/-- The vector `encrypt` draws. -/
def ivOf (strat : (c : Cmd) → τ → c.Ans × τ) (t : τ) : Bytes :=
  (((strat (.randomBytes 12) t).1 : Bytes) ++ List.replicate 12 0).take 12

theorem ivOf_length (strat : (c : Cmd) → τ → c.Ans × τ) (t : τ) : (ivOf strat t).length = 12 := by
  simp [ivOf]

variable (env p strat) in
theorem upsertWallet_run (data : Obj) (st : St) (t : τ) :
    ∃ iv t', iv.length = 12 ∧
      (upsertWallet env data).run (alone p strat) (st, t) =
        (.ok (sealedData env iv data), (st, t')) := by
  unfold upsertWallet sealedData
  cases data.truthy "wallet" with
  | some wallet =>
      by_cases he : startsWith wallet "enc:" = true
      · simp only [he, if_true]
        exact ⟨ivOf strat t, t, ivOf_length strat t, rfl⟩
      · simp only [he]
        exact ⟨ivOf strat t, _, ivOf_length strat t, rfl⟩
  | none => exact ⟨ivOf strat t, t, ivOf_length strat t, rfl⟩

variable (p strat) in
theorem upsertChatId_run (key : String) (data : Obj) (st : St) (t : τ) :
    (upsertChatId key data).run (alone p strat) (st, t) =
      match data.truthy "chatId" with
      | some chatId =>
          (.ok (Assoc.erase "chatId" data), (st.onRedis (.hset key [("chatId", chatId)]),
            (strat (.redis (.hset key [("chatId", chatId)])) t).2))
      | none => (.ok data, (st, t)) := by
  unfold upsertChatId
  cases data.truthy "chatId" with
  | some chatId => rfl
  | none => rfl

variable (p strat) in
/-- The last two commands of `upsertUser`. -/
theorem storeFields_run (handle : Str) (data : Obj) (st : St) (t : τ) :
    ∃ st' t', ((redis (.sadd usersSetKey (redisArg handle))).bind fun _ =>
        if data = [] then .ret () else redis (.hset (userKey handle) (redisArgs data))).run
          (alone p strat) (st, t) = (.ok (), (st', t')) ∧
      st'.redis.hashes = Function.update st.redis.hashes (userKey handle)
        (Assoc.setAll (st.redis.hashes (userKey handle)) (redisArgs data)) := by
  by_cases hd : data = []
  · subst hd
    exact ⟨_, _, rfl, (Function.update_eq_self _ _).symm⟩
  · have hrun := run_redis p strat (.hset (userKey handle) (redisArgs data))
      (st.onRedis (.sadd usersSetKey (redisArg handle)))
      (strat (.redis (.sadd usersSetKey (redisArg handle))) t).2
    rw [Prog.run_bind_ok (run_redis _ _ _ _ _), if_neg hd]
    exact ⟨_, _, hrun, rfl⟩

variable (env p strat) in
/-- `upsertUser` succeeds and changes the hash of its handle only. -/
theorem upsertUser_run (handle : Str) (data : Obj) (st : St) (t : τ) :
    ∃ iv st' t', iv.length = 12 ∧
      (upsertUser env handle data).run (alone p strat) (st, t) = (.ok (), (st', t')) ∧
      st'.redis.hashes = Function.update st.redis.hashes (userKey handle)
        (upsertedHash env iv data (st.redis.hashes (userKey handle))) := by
  have hchat := upsertChatId_run p strat (userKey handle) data st t
  unfold upsertedHash
  cases hc : data.truthy "chatId" with
  | some chatId =>
      rw [hc] at hchat
      obtain ⟨iv, t₁, hiv, hwallet⟩ := upsertWallet_run env p strat
        (Assoc.erase "chatId" data) (st.onRedis (.hset (userKey handle) [("chatId", chatId)]))
        _
      obtain ⟨st', t', hrun, hst'⟩ := storeFields_run p strat handle
        (sealedData env iv (Assoc.erase "chatId" data))
        (st.onRedis (.hset (userKey handle) [("chatId", chatId)])) t₁
      refine ⟨iv, st', t', hiv, ?_, ?_⟩
      · exact (Prog.run_bind_ok hchat).trans ((Prog.run_bind_ok hwallet).trans hrun)
      · rw [hst']
        simp [St.onRedis, Redis.exec, Assoc.setAll]
  | none =>
      rw [hc] at hchat
      obtain ⟨iv, t₁, hiv, hwallet⟩ :=
        upsertWallet_run env p strat data st t
      obtain ⟨st', t', hrun, hst'⟩ := storeFields_run p strat handle
        (sealedData env iv data) st t₁
      refine ⟨iv, st', t', hiv, ?_, hst'⟩
      exact (Prog.run_bind_ok hchat).trans ((Prog.run_bind_ok hwallet).trans hrun)

variable (env p strat) in
/-- `setWalletSecret` succeeds and sets the wallet field of its handle only. -/
theorem setWalletSecret_run (handle : Str) (secret : Bytes) (st : St) (t : τ) :
    ∃ iv st' t', iv.length = 12 ∧
      (setWalletSecret env handle secret).run (alone p strat) (st, t) = (.ok (), (st', t')) ∧
      st'.redis.hashes = Function.update st.redis.hashes (userKey handle)
        (Assoc.set "wallet"
          ("enc:" ++ sealed env iv (Utf8.encode (Json.stringify (bytesJson secret))))
          (st.redis.hashes (userKey handle))) := by
  refine ⟨ivOf strat t, (st.onRedis (.sadd usersSetKey (redisArg handle))).onRedis
    (.hset (userKey handle) [("wallet", "enc:" ++
      sealed env (ivOf strat t) (Utf8.encode (Json.stringify (bytesJson secret))))]),
    _, ivOf_length strat t, rfl, rfl⟩

end

/-! ## The map -/

/-- What the store knows of a handle. -/
structure Account where
  /-- The public fields. -/
  fields : String → Option String
  /-- The secret key. -/
  secret : Option Bytes

/-- An entry before anything is written to it. -/
def Account.blank : Account := ⟨fun _ => none, none⟩

/-- The map.  A handle nothing was ever written for has no entry. -/
abbrev Accounts := String → Option Account

/-- The arguments of `upsertUser`: an object with string values, whose wallet, if it
has one, is the JSON text of a byte array. -/
structure Upsert where
  data : List (String × String)
  /-- The bytes the wallet denotes. -/
  secret : Option Bytes
  nodup : (Assoc.keys data).Nodup
  wallet_text : data.lookup "wallet" = none ∧ secret = none ∨
    ∃ w bs, data.lookup "wallet" = some w ∧ secret = some bs ∧ Json.parse w = some (bytesJson bs)

/-- The object itself. -/
def Upsert.obj (a : Upsert) : Obj := a.data.map fun kv => (kv.1, some kv.2)

theorem Upsert.lookup_obj (a : Upsert) (f : String) :
    a.obj.lookup f = (a.data.lookup f).map some := Assoc.lookup_map some f a.data

theorem Upsert.nodup_obj (a : Upsert) : (Assoc.keys a.obj).Nodup := by
  rw [Upsert.obj, Assoc.keys_map]
  exact a.nodup

/-- Write public fields, and a secret if there is one. -/
def Account.upsert (r : Account) (a : Upsert) : Account where
  fields f := if f = "wallet" then none else (a.data.lookup f).or (r.fields f)
  secret := a.secret.or r.secret

/-- A call of one of the writers. -/
inductive StoreCall where
  | upsertUser (h : String) (a : Upsert)
  | setWalletSecret (h : String) (secret : Bytes)

namespace StoreCall

/-- The handle of a call. -/
def handle : StoreCall → String
  | upsertUser h _ => h
  | setWalletSecret h _ => h

/-- The call writes to the hash of its handle. -/
def writes : StoreCall → Bool
  | upsertUser _ a => !a.data.isEmpty
  | setWalletSecret _ _ => true

/-- What the call does to the map. -/
def apply (m : Accounts) : StoreCall → Accounts
  | upsertUser h a =>
      if a.data = [] then m else Function.update m h (some (((m h).getD .blank).upsert a))
  | setWalletSecret h secret =>
      Function.update m h (some { (m h).getD .blank with secret := some secret })

/-- The call itself. -/
def run (env : Env) : StoreCall → Prog Unit
  | upsertUser h a => Nexus.upsertUser env (some h) a.obj
  | setWalletSecret h secret => Nexus.setWalletSecret env (some h) secret

end StoreCall

/-! ## The refinement -/

section

variable (env : Env)

/-- A wallet field holds a secret. -/
def HoldsSecret (hash : List (String × String)) : Option Bytes → Prop
  | none => hash.lookup "wallet" = none
  | some bs => ∃ w, hash.lookup "wallet" = some w ∧ startsWith w "enc:" = true ∧
      openWallet env w = .ok bs

/-- A hash holds an entry of the map. -/
structure HoldsAccount (hash : List (String × String)) (r : Account) : Prop where
  ne_nil : hash ≠ []
  fields : ∀ f, f ≠ "wallet" → hash.lookup f = r.fields f
  no_wallet : r.fields "wallet" = none
  secret : HoldsSecret env hash r.secret

/-- A hash holds what the map has for its handle. -/
def Holds (hash : List (String × String)) : Option Account → Prop
  | none => hash = []
  | some r => HoldsAccount env hash r

/-- The server holds the map. -/
def Refines (s : Redis.Store) (m : Accounts) : Prop :=
  ∀ h : String, Holds env (s.hashes (userKey (some h))) (m h)

variable {env}

theorem userKey_injective {h h' : String} (he : userKey (some h) = userKey (some h')) : h = h' := by
  simpa [userKey] using he

/-- A hash held before holds a blank entry at least. -/
theorem Holds.getD {hash : List (String × String)} {o : Option Account} (h : Holds env hash o) :
    (∀ f, f ≠ "wallet" → hash.lookup f = (o.getD .blank).fields f) ∧
      (o.getD .blank).fields "wallet" = none ∧ HoldsSecret env hash (o.getD .blank).secret := by
  cases o with
  | none =>
      cases (h : hash = [])
      exact ⟨fun _ _ => rfl, rfl, rfl⟩
  | some r => exact ⟨h.fields, h.no_wallet, h.secret⟩

/-- The stored wallet after `upsertUser`. -/
theorem Upsert.holdsSecret {iv : Bytes} (hiv : iv.length = 12) (a : Upsert)
    {hash : List (String × String)} {old : Option Bytes} (h : HoldsSecret env hash old) :
    HoldsSecret env (upsertedHash env iv a.obj hash) (a.secret.or old) := by
  have hl := lookup_upsertedHash_wallet env iv a.nodup_obj hash
  rcases a.wallet_text with ⟨hw, hs⟩ | ⟨w, bs, hw, hs, hp⟩
  · -- no wallet given: the field is as before
    have hsealed : (sealedData env iv a.obj).lookup "wallet" = none := by
      simp [sealedData, Obj.truthy, a.lookup_obj, hw]
    rw [hsealed, Option.map_none, Option.none_or] at hl
    rw [hs, Option.none_or]
    cases old with
    | none => exact hl.trans h
    | some bs => exact h.imp fun w hw => ⟨hl.trans hw.1, hw.2⟩
  · have hne : w ≠ "" := by
      rintro rfl
      simp [Json.parse, Json.value, Json.skip, Json.number] at hp
    have htr : a.obj.truthy "wallet" = some w := truthy_of_lookup (by simp [a.lookup_obj, hw]) hne
    have hsealed : (sealedData env iv a.obj).lookup "wallet" =
        some (some ("enc:" ++ sealed env iv (Utf8.encode w))) := by
      simp [sealedData, htr, not_startsWith_mark hp]
    rw [hsealed] at hl
    rw [hs]
    exact ⟨_, hl, startsWith_mark _, openWallet_sealed env hiv hp⟩

theorem Upsert.holds {iv : Bytes} (hiv : iv.length = 12) (a : Upsert) (hne : a.data ≠ [])
    {hash : List (String × String)} {o : Option Account} (h : Holds env hash o) :
    HoldsAccount env (upsertedHash env iv a.obj hash) ((o.getD .blank).upsert a) := by
  obtain ⟨hfields, hwallet, hsecret⟩ := h.getD
  refine ⟨upsertedHash_ne_nil (by simpa [Upsert.obj] using hne) hash, ?_, ?_, ?_⟩
  · intro f hf
    rw [lookup_upsertedHash a.nodup_obj hash hf, a.lookup_obj, Option.map_map, hfields f hf]
    simp [Account.upsert, hf, Function.comp_def]
  · simp [Account.upsert]
  · exact a.holdsSecret hiv hsecret

/-- If one hash changes and holds the new entry, the server holds the new map. -/
theorem Refines.update {s s' : Redis.Store} {m : Accounts} (hr : Refines env s m) {h : String}
    {hash : List (String × String)} {o : Option Account}
    (hs : s'.hashes = Function.update s.hashes (userKey (some h)) hash) (hh : Holds env hash o) :
    Refines env s' (Function.update m h o) := by
  intro h'
  rw [hs]
  by_cases he : h' = h
  · subst he
    rw [Function.update_self, Function.update_self]
    exact hh
  · have hk : userKey (some h') ≠ userKey (some h) := fun hk => he (userKey_injective hk)
    rw [Function.update_of_ne hk, Function.update_of_ne he]
    exact hr h'

variable {τ : Type} {p : Pid} {strat : (c : Cmd) → τ → c.Ans × τ}

/-- The simulation step. -/
theorem StoreCall.run_refines (c : StoreCall) (s : St × τ) (m : Accounts)
    (hr : Refines env s.1.redis m) :
    ∃ s', (c.run env).run (alone p strat) s = (.ok (), s') ∧
      Refines env s'.1.redis (c.apply m) := by
  obtain ⟨st, t⟩ := s
  cases c with
  | upsertUser h a =>
      obtain ⟨iv, st', t', hiv, hrun, hst'⟩ :=
        upsertUser_run env p strat (some h) a.obj st t
      refine ⟨(st', t'), hrun, ?_⟩
      by_cases hd : a.data = []
      · have hobj : a.obj = [] := by simp [Upsert.obj, hd]
        have hsame : st'.redis.hashes = st.redis.hashes := by
          rw [hst', hobj]
          exact Function.update_eq_self _ _
        simp only [apply, hd, if_true]
        intro h'
        simpa only [hsame] using hr h'
      · simp only [apply, hd, if_false]
        exact hr.update hst' (o := some _) (a.holds hiv hd (hr h))
  | setWalletSecret h secret =>
      obtain ⟨iv, st', t', hiv, hrun, hst'⟩ :=
        setWalletSecret_run env p strat (some h) secret st t
      refine ⟨(st', t'), hrun, ?_⟩
      obtain ⟨hfields, hwallet, -⟩ := (hr h).getD
      refine hr.update hst' (o := some _) ⟨Assoc.set_ne_nil _ _ _, ?_, hwallet, ?_⟩
      · intro f hf
        rw [Assoc.lookup_set_ne hf.symm]
        exact hfields f hf
      · exact ⟨_, Assoc.lookup_set_self _ _ _, startsWith_mark _,
          openWallet_sealed env hiv (parse_bytesJson secret)⟩

/-- A call leaves the hashes of the other handles alone. -/
theorem StoreCall.run_frame (c : StoreCall) (s : St × τ) {h : String} (hne : c.handle ≠ h) :
    ((c.run env).run (alone p strat) s).2.1.redis.hashes (userKey (some h)) =
      s.1.redis.hashes (userKey (some h)) := by
  have hk : userKey (some h) ≠ userKey (some c.handle) := fun hk => hne (userKey_injective hk).symm
  obtain ⟨st, t⟩ := s
  cases c with
  | upsertUser h' a =>
      obtain ⟨iv, st', t', -, hrun, hst'⟩ :=
        upsertUser_run env p strat (some h') a.obj st t
      simp only [StoreCall.run, hrun, hst']
      exact Function.update_of_ne hk _ _
  | setWalletSecret h' secret =>
      obtain ⟨iv, st', t', -, hrun, hst'⟩ :=
        setWalletSecret_run env p strat (some h') secret st t
      simp only [StoreCall.run, hrun, hst']
      exact Function.update_of_ne hk _ _

/-! ## The readers -/

theorem Refines.secret {s : Redis.Store} {m : Accounts} (hr : Refines env s m) (h : String) :
    HoldsSecret env (s.hashes (userKey (some h))) ((m h).bind Account.secret) := by
  have hs := ((hr h).getD).2.2
  cases hm : m h with
  | none =>
      rw [hm] at hs
      exact hs
  | some r =>
      rw [hm] at hs
      exact hs

variable (env p strat) in
theorem getWalletSecret_run (h : Str) (st : St) (t : τ) :
    (getWalletSecret env h).run (alone p strat) (st, t) =
      (match (st.redis.hashes (userKey h)).lookup "wallet" with
        | none => .ok none
        | some w => if startsWith w "enc:" then (openWallet env w).map some else .ok none,
        (st, (strat (.redis (.hget (userKey h) "wallet")) t).2)) := by
  refine (Prog.run_bind_ok (run_redis _ _ _ _ _)).trans ?_
  simp only [Redis.exec]
  cases (st.redis.hashes (userKey h)).lookup "wallet" with
  | none => rfl
  | some w =>
      dsimp only
      split
      · cases openWallet env w with
        | error e => rfl
        | ok secret => rfl
      · rfl

variable (env p strat) in
theorem getWalletCompat_run (h : Str) (st : St) (t : τ) :
    (getWalletCompat env h).run (alone p strat) (st, t) =
      (match (st.redis.hashes (userKey h)).lookup "wallet" with
        | none => .ok ⟨none, none⟩
        | some w =>
            if startsWith w "enc:" then (openWallet env w).map fun secret => ⟨some secret, none⟩
            else if w = "" then .ok ⟨none, none⟩ else .ok ⟨none, some w⟩,
        (st, (strat (.redis (.hget (userKey h) "wallet")) t).2)) := by
  refine (Prog.run_bind_ok (run_redis _ _ _ _ _)).trans ?_
  simp only [Redis.exec]
  cases (st.redis.hashes (userKey h)).lookup "wallet" with
  | none => rfl
  | some w =>
      dsimp only
      split
      · cases openWallet env w with
        | error e => rfl
        | ok secret => rfl
      · split
        · rfl
        · rfl

theorem getWalletSecret_refines {st : St} {m : Accounts} (hr : Refines env st.redis m)
    (h : String) (t : τ) : (getWalletSecret env (some h)).run (alone p strat) (st, t) =
      (.ok ((m h).bind Account.secret),
        (st, (strat (.redis (.hget (userKey (some h)) "wallet")) t).2)) := by
  have hs := hr.secret h
  rw [getWalletSecret_run]
  cases hb : (m h).bind Account.secret with
  | none =>
      rw [hb] at hs
      rw [show (st.redis.hashes (userKey (some h))).lookup "wallet" = none from hs]
  | some bs =>
      rw [hb] at hs
      obtain ⟨w, hw, hmark, hopen⟩ := hs
      simp only [hw, hmark, if_true, hopen]
      rfl

theorem getWalletCompat_refines {st : St} {m : Accounts} (hr : Refines env st.redis m)
    (h : String) (t : τ) : (getWalletCompat env (some h)).run (alone p strat) (st, t) =
      (.ok ⟨(m h).bind Account.secret, none⟩,
        (st, (strat (.redis (.hget (userKey (some h)) "wallet")) t).2)) := by
  have hs := hr.secret h
  rw [getWalletCompat_run]
  cases hb : (m h).bind Account.secret with
  | none =>
      rw [hb] at hs
      rw [show (st.redis.hashes (userKey (some h))).lookup "wallet" = none from hs]
  | some bs =>
      rw [hb] at hs
      obtain ⟨w, hw, hmark, hopen⟩ := hs
      simp only [hw, hmark, if_true, hopen]
      rfl

theorem getUser_run (h : Str) (st : St) (t : τ) :
    (getUser h).run (alone p strat) (st, t) =
      (.ok (if st.redis.hashes (userKey h) = [] then none
        else some (Assoc.erase "wallet" (st.redis.hashes (userKey h)))),
        (st, (strat (.redis (.hgetall (userKey h))) t).2)) := by
  change ((if st.redis.hashes (userKey h) = [] then .ret none
    else .ret (some (Assoc.erase "wallet" (st.redis.hashes (userKey h)))) : Prog _)).run
      (alone p strat) (st, (strat (.redis (.hgetall (userKey h))) t).2) = _
  by_cases he : st.redis.hashes (userKey h) = []
  · rw [if_pos he, if_pos he]
    rfl
  · rw [if_neg he, if_neg he]
    rfl

variable (p strat) in
/-- `getUser` returns the public fields, or `null` for a handle without an entry. -/
theorem getUser_refines {st : St} {m : Accounts} (hr : Refines env st.redis m) (h : String)
    (t : τ) : ∃ o t', (getUser (some h)).run (alone p strat) (st, t) = (.ok o, (st, t')) ∧
      o.map (fun data f => data.lookup f) = (m h).map Account.fields := by
  have hh := hr h
  refine ⟨_, _, getUser_run (some h) st t, ?_⟩
  cases hm : m h with
  | none =>
      rw [hm] at hh
      simp [show st.redis.hashes (userKey (some h)) = [] from hh]
  | some r =>
      rw [hm] at hh
      simp only [hh.ne_nil, if_false, Option.map_some, Option.some.injEq]
      funext f
      rw [Assoc.lookup_erase]
      by_cases hf : "wallet" = f
      · subst hf
        simp [hh.no_wallet]
      · rw [if_neg hf]
        exact hh.fields f fun he => hf he.symm

end

/-- The map after a sequence of calls on an empty store. -/
def accountsAfter (calls : List StoreCall) : Accounts := calls.foldl StoreCall.apply fun _ => none

theorem StoreCall.apply_eq_none (c : StoreCall) (m : Accounts) (h : String) :
    c.apply m h = none ↔ m h = none ∧ (c.handle = h → c.writes = false) := by
  by_cases hh : c.handle = h
  · subst hh
    cases c with
    | upsertUser h a =>
        by_cases hd : a.data = []
        · simp [apply, handle, writes, hd]
        · simp [apply, handle, writes, hd]
    | setWalletSecret h secret => simp [apply, handle, writes]
  · have hne : h ≠ c.handle := fun he => hh he.symm
    simp only [hh, false_implies, and_true]
    cases c with
    | upsertUser h' a =>
        simp only [apply]
        split
        next => rfl
        next => rw [Function.update_of_ne (show h ≠ h' from hne)]
    | setWalletSecret h' secret =>
        simp only [apply]
        rw [Function.update_of_ne (show h ≠ h' from hne)]

/-- A handle has no entry iff it had none and no call wrote to its hash. -/
theorem foldl_apply_eq_none (h : String) : ∀ (calls : List StoreCall) (m : Accounts),
    calls.foldl StoreCall.apply m h = none ↔
      m h = none ∧ ∀ c ∈ calls, c.handle = h → c.writes = false
  | [], m => by simp
  | c :: calls, m => by
      rw [List.foldl_cons, foldl_apply_eq_none h calls, c.apply_eq_none]
      simp only [List.mem_cons, forall_eq_or_imp, and_assoc]

theorem accountsAfter_eq_none {calls : List StoreCall} {h : String} :
    accountsAfter calls h = none ↔ ∀ c ∈ calls, c.handle = h → c.writes = false :=
  (foldl_apply_eq_none h calls _).trans (and_iff_right rfl)

/-- A sequence of calls on an empty server returns, and the store holds the map. -/
theorem forEach_refines (env : Env) {τ : Type} (p : Pid) (strat : (c : Cmd) → τ → c.Ans × τ)
    (calls : List StoreCall) (st : St) (t : τ) :
    ∃ s', (Prog.forEach (StoreCall.run env) calls).run (alone p strat)
        ({ st with redis := Redis.Store.empty }, t) = (.ok (), s') ∧
      Refines env s'.1.redis (accountsAfter calls) := by
  have hinit : Refines env Redis.Store.empty fun _ => none := fun _ => rfl
  exact Prog.run_forEach_sim (R := fun (s : St × τ) m => Refines env s.1.redis m)
    (fun c s m h => StoreCall.run_refines c s m h) calls
    (s := ({ st with redis := Redis.Store.empty }, t)) hinit

/-- The store refines the map.  After every sequence of calls on an empty server the
readers return what the map holds, every wallet at rest carries the mark, and no call
touches the hash of another handle. -/
theorem store_refines_accounts (env : Env) {τ : Type} (p : Pid)
    (strat : (c : Cmd) → τ → c.Ans × τ) (st : St) (t : τ) (calls : List StoreCall) :
    (∃ st' t', (Prog.forEach (StoreCall.run env) calls).run (alone p strat)
        ({ st with redis := Redis.Store.empty }, t) = (.ok (), (st', t')) ∧
      ∀ h : String,
        ((getWalletSecret env (some h)).run (alone p strat) (st', t')).1 =
          .ok ((accountsAfter calls h).bind Account.secret) ∧
        ((getWalletCompat env (some h)).run (alone p strat) (st', t')).1 =
          .ok ⟨(accountsAfter calls h).bind Account.secret, none⟩ ∧
        (∃ o, ((getUser (some h)).run (alone p strat) (st', t')).1 = .ok o ∧
          o.map (fun data f => data.lookup f) = (accountsAfter calls h).map Account.fields ∧
          (∀ data ∈ o, data.lookup "wallet" = none) ∧
          (o = none ↔ ∀ c ∈ calls, c.handle = h → c.writes = false)) ∧
        ∀ w, (st'.redis.hashes (userKey (some h))).lookup "wallet" = some w →
          startsWith w "enc:" = true) ∧
    ∀ (c : StoreCall) (s : St × τ) (h : String), c.handle ≠ h →
      ((c.run env).run (alone p strat) s).2.1.redis.hashes (userKey (some h)) =
        s.1.redis.hashes (userKey (some h)) := by
  obtain ⟨⟨st', t'⟩, hrun, hr⟩ := forEach_refines env p strat calls st t
  refine ⟨⟨st', t', hrun, fun h => ⟨?_, ?_, ?_, ?_⟩⟩, fun c s h hne => c.run_frame s hne⟩
  · rw [getWalletSecret_refines hr]
  · rw [getWalletCompat_refines hr]
  · obtain ⟨o, _, ho, hfields⟩ := getUser_refines p strat hr h t'
    refine ⟨o, by rw [ho], hfields, ?_, ?_⟩
    · intro data hdata
      rw [Option.mem_def.mp hdata] at hfields
      obtain ⟨r, hm, hrf⟩ := Option.map_eq_some_iff.mp hfields.symm
      have hh := hr h
      rw [hm] at hh
      exact (congrFun hrf "wallet").symm.trans hh.no_wallet
    · rw [← accountsAfter_eq_none, ← Option.map_eq_none_iff (f := Account.fields), ← hfields,
        Option.map_eq_none_iff]
  · intro w hw
    have hs := hr.secret h
    cases hb : (accountsAfter calls h).bind Account.secret with
    | none =>
        rw [hb] at hs
        exact absurd (hw.symm.trans hs) (by simp)
    | some bs =>
        rw [hb] at hs
        obtain ⟨w', hw', hmark, -⟩ := hs
        rw [hw] at hw'
        cases hw'
        exact hmark

end Nexus
