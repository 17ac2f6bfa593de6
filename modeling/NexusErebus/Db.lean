import NexusErebus.Runtime

/-!
# The user store (db.js)

A user is a Redis hash `user:<handle>`.  The field `wallet` holds the secret key,
encrypted and marked with `enc:`.  All other fields are public.  A secret key is
encrypted as the JSON text of its bytes, by `setWalletSecret` and by `upsertUser`.

An object of the source is a list of its properties.  A property may be `undefined`,
which the client sends to the server as the empty string.
-/

namespace Nexus

open Text (Str)

/-- A plain object with string properties. -/
abbrev Obj := List (String × Str)

/-- What the Redis client makes of an argument. -/
def redisArg (x : Str) : String := x.getD ""

@[simp] theorem redisArg_some (s : String) : redisArg (some s) = s := rfl

/-- `Set → every handle`. -/
def usersSetKey : String := "users"

/-- The key of the hash of a user. -/
def userKey (h : Str) : String := "user:" ++ h.text

/-- The property is there and counts as true. -/
def Obj.truthy (data : Obj) (k : String) : Option String :=
  match data.lookup k with
  | some (some s) => if s = "" then none else some s
  | _ => none

/-! ## Encryption -/

section

variable (env : Env)

/-- The stored format: vector, tag, cipher text. -/
def sealed (iv buf : Bytes) : String :=
  Base64.encode (iv ++ (env.aes.encrypt iv buf).2 ++ (env.aes.encrypt iv buf).1)

def encrypt (buf : Bytes) : Prog String := do
  let iv ← ask (.randomBytes 12)
  return sealed env iv buf

def decrypt (b64 : String) : Except Err Bytes :=
  let raw := Base64.decode b64
  let iv := raw.take 12
  let tag := (raw.drop 12).take 16
  let cip := raw.drop 28
  match env.aes.decrypt iv tag cip with
  | some plain => .ok plain
  | none => .error (.new "Unsupported state or unable to authenticate data")

end

/-! ## Byte arrays -/

/-- `Uint8Array.from(x)`. -/
def uint8ArrayFrom : Json → Except Err Bytes
  | .null => .error ⟨.typeError, "object null is not iterable"⟩
  | .arr xs => .ok (xs.map fun x => (Json.toNumber (some x)).toUint8)
  | .str s => .ok (s.toList.map fun c => (Number.ofText (String.singleton c)).toUint8)
  | .obj kvs =>
      -- array-like objects have a length
      let length := ((Json.toNumber ((Json.obj kvs).field "length")).getD 0).floor.toNat
      .ok ((List.range length).map fun i =>
        (Json.toNumber ((Json.obj kvs).field (Number.textOf i))).toUint8)
  | .bool _ => .ok []
  | .num _ => .ok []

/-- `JSON.stringify(Array.from(bytes))`. -/
def bytesJson (bs : Bytes) : Json := .arr (bs.map fun b => .num b.toNat)

/-- `Array.from(s)` as JSON, for a string. -/
def charsJson (s : String) : Json := .arr (s.toList.map fun c => .str (String.singleton c))

/-! ## Writers -/

section

variable (env : Env)

/-- Store the public chat id by itself. -/
def upsertChatId (key : String) (data : Obj) : Prog Obj :=
  match data.truthy "chatId" with
  | some chatId => do
      redis (.hset key [("chatId", chatId)])
      return Assoc.erase "chatId" data
  | none => return data

/-- Encrypt the wallet if it looks like plain text. -/
def upsertWallet (data : Obj) : Prog Obj :=
  match data.truthy "wallet" with
  | some wallet =>
      if Text.startsWith wallet "enc:" then return data
      else do
        let cipher ← encrypt env (Utf8.encode wallet)
        return Assoc.set "wallet" (some ("enc:" ++ cipher)) data
  | none => return data

def upsertUser (handle : Str) (data : Obj) : Prog Unit := do
  let key := userKey handle
  let data ← upsertChatId key data
  let data ← upsertWallet env data
  redis (.sadd usersSetKey (redisArg handle))
  if data = [] then return ()
  else redis (.hset key (data.map fun kv => (kv.1, redisArg kv.2)))

variable {env} in
/-- Without a chat id and a wallet, the fields are stored as they are. -/
theorem upsertUser_public {handle : Str} {data : Obj} (hchat : data.lookup "chatId" = none)
    (hwallet : data.lookup "wallet" = none) : upsertUser env handle data =
      (redis (.sadd usersSetKey (redisArg handle))).bind fun _ =>
        if data = [] then .ret ()
        else redis (.hset (userKey handle) (data.map fun kv => (kv.1, redisArg kv.2))) := by
  have hc : upsertChatId (userKey handle) data = .ret data := by
    simp [upsertChatId, Obj.truthy, hchat, Async.Prog.pure_eq]
  have hw : upsertWallet env data = .ret data := by
    simp [upsertWallet, Obj.truthy, hwallet, Async.Prog.pure_eq]
  simp only [upsertUser, hc, hw, Async.Prog.bind_eq, Async.Prog.ret_bind, Async.Prog.pure_eq]

/-- The body of `setWalletSecret`, given the array made of its argument. -/
def storeSecret (handle : Str) (array : Json) : Prog Unit := do
  let cipher ← encrypt env (Utf8.encode (Json.stringify array))
  let key := userKey handle
  redis (.sadd usersSetKey (redisArg handle))
  redis (.hset key [("wallet", "enc:" ++ cipher)])

def setWalletSecret (handle : Str) (secret : Bytes) : Prog Unit :=
  storeSecret env handle (bytesJson secret)

end

/-! ## Readers -/

/-- The public fields, or `null`. -/
def getUser (handle : Str) : Prog (Option (List (String × String))) := do
  let data : List (String × String) ← redis (.hgetall (userKey handle))
  if data = [] then return none
  else return some (Assoc.erase "wallet" data)

section

variable (env : Env)

/-- Decrypt a value behind its mark and read the bytes. -/
def openWallet (enc : String) : Except Err Bytes :=
  match decrypt env (Text.slice enc 4) with
  | .error e => .error e
  | .ok plain =>
      match parseJson (some (Utf8.decode plain)) with
      | .error e => .error e
      | .ok v => uint8ArrayFrom v

def getWalletSecret (handle : Str) : Prog (Option Bytes) := do
  let enc : Option String ← redis (.hget (userKey handle) "wallet")
  match enc with
  | none => return none
  | some enc =>
      if Text.startsWith enc "enc:" then do
        let secret ← Async.Prog.ofExcept (openWallet env enc)
        return some secret
      else return none

/-- What `getWalletCompat` returns. -/
structure WalletCompat where
  secret : Option Bytes
  legacyStr : Str
  deriving DecidableEq

def getWalletCompat (handle : Str) : Prog WalletCompat := do
  let enc : Option String ← redis (.hget (userKey handle) "wallet")
  match enc with
  | none => return ⟨none, none⟩
  | some enc =>
      if Text.startsWith enc "enc:" then do
        let secret ← Async.Prog.ofExcept (openWallet env enc)
        return ⟨some secret, none⟩
      else if enc = "" then return ⟨none, none⟩
      else return ⟨none, some enc⟩

end

def getAllUsers : Prog (List String) := redis (.smembers usersSetKey)

/-! ## Contracts -/

section

variable {env : Env} {pre : Cmd → Prop} {handle : Str}

theorem issues_storeSecret (hrandom : pre (.randomBytes 12))
    (hadd : pre (.redis (.sadd usersSetKey (redisArg handle))))
    (hset : ∀ cipher, pre (.redis (.hset (userKey handle) [("wallet", cipher)]))) (array : Json) :
    (storeSecret env handle array).Issues pre :=
  Async.Prog.issues_bind (Async.Prog.issues_bind (issues_ask hrandom) fun _ => .ret _) fun _ =>
    Async.Prog.issues_bind (issues_redis hadd) fun _ => issues_redis (hset _)

theorem issues_getUser (hget : pre (.redis (.hgetall (userKey handle)))) :
    (getUser handle).Issues pre := by
  refine Async.Prog.issues_bind (issues_redis hget) fun data => ?_
  split
  · exact .ret _
  · exact .ret _

theorem issues_getWalletCompat (hget : pre (.redis (.hget (userKey handle) "wallet"))) :
    (getWalletCompat env handle).Issues pre := by
  refine Async.Prog.issues_bind (issues_redis hget) fun enc => ?_
  cases enc with
  | none => exact .ret _
  | some enc =>
      dsimp only
      split
      · exact Async.Prog.issues_bind (Async.Prog.issues_ofExcept _) fun _ => .ret _
      · split
        · exact .ret _
        · exact .ret _

end

end Nexus
