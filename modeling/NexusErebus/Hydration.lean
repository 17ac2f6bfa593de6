import NexusErebus.Boot
import NexusErebus.Data.Arrays

/-!
# Hydrated key pairs

`initializeUsers` decrypts a stored wallet, makes a key pair of it and overwrites the array it
made it from.  The library keeps that very array as the secret key.  It copies only the public
key.  So the key pair in the map has the right address and a secret key of zeros.

Elsewhere in this development a key pair is a value, and `hydrate` puts `Keypair.filled` into the
map.  Here the loop is written again with the arrays it allocates (`hydrateBuffers`), and
`hydrateBuffers_denotes` says that the map of values is what one reads off the arrays.
`hydrated_holds_iff` is about both.
-/

namespace Nexus

open Async Text Arrays

/-! ## The loop with its arrays -/

/-- A key pair, as the library keeps it: a copy of the public key, and the array it was made
from. -/
structure KeypairRef where
  publicKey : PublicKey
  secretKey : Ref

/-- The key pair one reads off the heap. -/
def KeypairRef.keypair (H : Heap UInt8) (k : KeypairRef) : Keypair :=
  ⟨k.publicKey, H.read k.secretKey⟩

/-- The memory of the loop. -/
structure Hydration where
  heap : Heap UInt8
  users : List (Str × KeypairRef)
  /-- The decrypted texts and the arrays made of them, for the handles in the map. -/
  temporaries : List Ref

/-- The memory before the loop. -/
def Hydration.empty : Hydration := ⟨.empty, [], []⟩

section

variable (env : Env)

/-- `Keypair.fromSecretKey(secret)`, which keeps the array. -/
def KeypairRef.fromSecretKey (H : Heap UInt8) (secret : Ref) : Except Err KeypairRef :=
  (env.keypair (H.read secret)).map fun kp => ⟨kp.publicKey, secret⟩

/-- The arrays of `getWalletCompat`: the decrypted text, which it wipes, and the secret. -/
def openBuffers (enc : String) (H : Heap UInt8) : Except Err (Ref × Ref × Heap UInt8) :=
  match decrypt env (slice enc 4) with
  | .error e => .error e
  | .ok text =>
      let (plain, H) := H.alloc text
      match parseJson (some (Utf8.decode (H.read plain))) with
      | .error e => .error e
      | .ok v =>
          match uint8ArrayFrom v with
          | .error e => .error e
          | .ok bytes =>
              let (secret, H) := H.alloc bytes
              .ok (plain, secret, H.fill 0 plain)

/-- One round of the loop, given the wallet field of the handle. -/
def loadBuffers (h : String) (wallet : Option String) (m : Hydration) : Except Err Hydration :=
  match wallet with
  | none => .ok m
  | some w =>
      if startsWith w "enc:" then
        match openBuffers env w m.heap with
        | .error e => .error e
        | .ok (plain, secret, H) =>
            if (H.read secret).length = 64 then
              match KeypairRef.fromSecretKey env H secret with
              | .error e => .error e
              -- `secret.fill(0)` comes after the key pair is made
              | .ok kp =>
                  .ok ⟨H.fill 0 secret, Assoc.set (some h) kp m.users,
                    plain :: secret :: m.temporaries⟩
            else .ok { m with heap := H }
      else .ok m

/-- The loop, up to the first error. -/
def hydrateBuffers (st : St) : List String → Hydration → Except Err Unit × Hydration
  | [], m => (.ok (), m)
  | h :: hs, m =>
      match loadBuffers env h ((userHash st h).lookup "wallet") m with
      | .error e => (.error e, m)
      | .ok m' => hydrateBuffers st hs m'

end

/-! ## One round -/

section

variable {env : Env}

theorem keypair_secretKey {bytes : Bytes} {kp : Keypair} (h : env.keypair bytes = .ok kp) :
    kp.secretKey = bytes := by
  unfold Env.keypair Keypair.fromSecretKey at h
  split at h
  · cases h
  · split at h
    · cases h
    · cases h
      rfl

theorem openBuffers_error {w : String} {e : Err} (h : openWallet env w = .error e)
    (H : Heap UInt8) : openBuffers env w H = .error e := by
  unfold openWallet at h
  unfold openBuffers
  cases htext : decrypt env (slice w 4) with
  | error e' =>
      rw [htext] at h
      cases h
      rfl
  | ok text =>
      simp only [htext, Heap.alloc_fst, Heap.read_alloc_self] at h ⊢
      cases hv : parseJson (some (Utf8.decode text)) with
      | error e' =>
          rw [hv] at h
          cases h
          rfl
      | ok v =>
          simp only [hv] at h ⊢
          rw [h]

/-- The secret is in an array of its own, and the text is wiped. -/
theorem openBuffers_ok {w : String} {bytes : Bytes} (h : openWallet env w = .ok bytes)
    (H : Heap UInt8) : ∃ plain secret H', openBuffers env w H = .ok (plain, secret, H') ∧
      H.Extends H' ∧ H.size ≤ plain ∧ plain < secret ∧ secret < H'.size ∧
      H'.read secret = bytes ∧ ∀ x ∈ H'.read plain, x = 0 := by
  unfold openWallet at h
  unfold openBuffers
  cases htext : decrypt env (slice w 4) with
  | error e =>
      rw [htext] at h
      cases h
  | ok text =>
      simp only [htext, Heap.alloc_fst, Heap.read_alloc_self] at h ⊢
      cases hv : parseJson (some (Utf8.decode text)) with
      | error e =>
          rw [hv] at h
          cases h
      | ok v =>
          simp only [hv] at h ⊢
          rw [h]
          have hext := ((Heap.Extends.refl H).alloc text).alloc bytes
          refine ⟨_, _, _, rfl, hext.fill 0 (le_refl _), le_refl _, by simp, by simp, ?_, by simp⟩
          rw [Heap.read_fill_ne _ _ (by simp), Heap.size_alloc, ← Heap.size_alloc H text,
            Heap.read_alloc_self]

variable (env) in
/-- One round does what `bootKey` says.  The arrays from before are left alone. -/
theorem loadBuffers_spec (h : String) (wallet : Option String) (m : Hydration) :
    match bootKey env wallet with
    | .error e => loadBuffers env h wallet m = .error e
    | .ok none => ∃ H, loadBuffers env h wallet m = .ok { m with heap := H } ∧ m.heap.Extends H
    | .ok (some kp) => ∃ H plain secret,
        loadBuffers env h wallet m = .ok ⟨H, Assoc.set (some h) ⟨kp.publicKey, secret⟩ m.users,
          plain :: secret :: m.temporaries⟩ ∧
        m.heap.Extends H ∧ plain < H.size ∧ secret < H.size ∧
        H.read secret = kp.filled.secretKey ∧ ∀ x ∈ H.read plain, x = 0 := by
  cases wallet with
  | none => exact ⟨m.heap, rfl, .refl _⟩
  | some w =>
      simp only [bootKey, loadBuffers]
      by_cases hmark : startsWith w "enc:" = true
      · simp only [if_pos hmark]
        cases hopen : openWallet env w with
        | error e => simp only [openBuffers_error hopen]
        | ok bytes =>
            obtain ⟨plain, secret, H, hbuf, hext, hplain, hlt, hsecret, hread, hzero⟩ :=
              openBuffers_ok hopen m.heap
            simp only [hbuf, hread]
            by_cases hlen : bytes.length = 64
            · simp only [if_pos hlen, KeypairRef.fromSecretKey, hread]
              cases hkp : env.keypair bytes with
              | error e => rfl
              | ok kp =>
                  have hkey : kp.secretKey = bytes := keypair_secretKey hkp
                  refine ⟨H.fill 0 secret, plain, secret, rfl,
                    hext.fill 0 (hplain.trans hlt.le), by simpa using hlt.trans hsecret,
                    by simpa using hsecret, ?_, ?_⟩
                  · rw [Heap.read_fill_self, hread, Keypair.filled, hkey]
                  · rwa [Heap.read_fill_ne _ _ hlt.ne']
            · simp only [if_neg hlen]
              exact ⟨H, rfl, hext⟩
      · simp only [if_neg hmark]
        exact ⟨m.heap, rfl, .refl _⟩

end

/-! ## The loop -/

/-- The map of the process is what one reads off the arrays, and the temporaries are wiped. -/
structure Denotes (p : Pid) (m : Hydration) (st : St) : Prop where
  wallets : ∀ h, ((st.mem p).users.lookup h).map User.wallet =
    (m.users.lookup h).map (KeypairRef.keypair m.heap)
  bound : ∀ h k, m.users.lookup h = some k → k.secretKey < m.heap.size
  wiped : ∀ r ∈ m.temporaries, r < m.heap.size ∧ ∀ x ∈ m.heap.read r, x = 0

namespace Denotes

variable {p : Pid} {m : Hydration} {st : St}

/-- Arrays that are allocated later change nothing. -/
theorem extend (hd : Denotes p m st) {H : Heap UInt8} (hext : m.heap.Extends H) :
    Denotes p { m with heap := H } st where
  wallets h := by
    rw [hd.wallets h]
    cases hk : m.users.lookup h with
    | none => rfl
    | some k => simp only [Option.map_some, KeypairRef.keypair, hext.read_eq _ (hd.bound h k hk)]
  bound h k hk := (hd.bound h k hk).trans_le hext.size_le
  wiped r hr := by
    obtain ⟨hlt, hzero⟩ := hd.wiped r hr
    exact ⟨hlt.trans_le hext.size_le, (hext.read_eq r hlt).symm ▸ hzero⟩

/-- A handle is loaded. -/
theorem load (hd : Denotes p m st) {h : String} {u : User} {k : KeypairRef} {plain : Ref}
    (hu : u.wallet = k.keypair m.heap) (hk : k.secretKey < m.heap.size) (hplain : plain < m.heap.size)
    (hsecret : ∀ x ∈ m.heap.read k.secretKey, x = 0) (htext : ∀ x ∈ m.heap.read plain, x = 0) :
    Denotes p ⟨m.heap, Assoc.set (some h) k m.users, plain :: k.secretKey :: m.temporaries⟩
      (st.load p h u) where
  wallets h' := by
    rw [St.load_users]
    by_cases hh : (some h : Str) = h'
    · subst hh
      simp only [Assoc.lookup_set_self, Option.map_some, hu]
    · simp only [Assoc.lookup_set_ne hh, hd.wallets h']
  bound h' k' hk' := by
    by_cases hh : (some h : Str) = h'
    · subst hh
      rw [Assoc.lookup_set_self] at hk'
      cases hk'
      exact hk
    · rw [Assoc.lookup_set_ne hh] at hk'
      exact hd.bound h' k' hk'
  wiped r hr := by
    rcases List.mem_cons.mp hr with rfl | hr
    · exact ⟨hplain, htext⟩
    · rcases List.mem_cons.mp hr with rfl | hr
      · exact ⟨hk, hsecret⟩
      · exact hd.wiped r hr

end Denotes

section

variable {env : Env} {p : Pid}

variable (env) in
/-- The loop with its arrays does what the loop over values does. -/
theorem hydrateBuffers_denotes (st₀ : St) : ∀ (hs : List String) {m : Hydration} {st : St},
    st.redis = st₀.redis → Denotes p m st →
      (hydrateBuffers env st₀ hs m).1 = (bootAll env p hs st).1 ∧
        Denotes p (hydrateBuffers env st₀ hs m).2 (bootAll env p hs st).2
  | [], _, _, _, hd => ⟨rfl, hd⟩
  | h :: hs, m, st, hst, hd => by
      have hhash : userHash st₀ h = userHash st h := by simp only [userHash, hst]
      have hround := loadBuffers_spec env h ((userHash st h).lookup "wallet") m
      rw [hydrateBuffers, bootAll, hhash]
      cases hkey : bootKey env ((userHash st h).lookup "wallet") with
      | error e =>
          rw [hkey] at hround
          rw [hround]
          exact ⟨rfl, hd⟩
      | ok found =>
          rw [hkey] at hround
          cases found with
          | none =>
              obtain ⟨H, hload, hext⟩ := hround
              simp only [hload]
              exact hydrateBuffers_denotes st₀ hs hst (hd.extend hext)
          | some kp =>
              obtain ⟨H, plain, secret, hload, hext, hplain, hsecret, hread, hzero⟩ := hround
              simp only [hload]
              refine hydrateBuffers_denotes st₀ hs hst ((hd.extend hext).load ?_ hsecret hplain ?_ hzero)
              · simp only [KeypairRef.keypair, hread]
                rfl
              · intro x hx
                rw [hread] at hx
                obtain ⟨_, -, rfl⟩ := List.mem_map.mp hx
                rfl

variable (env) in
/-- The handles the loop gets to before an error. -/
def reached (st : St) (hs : List String) : List String :=
  hs.takeWhile fun h => (bootKey env ((userHash st h).lookup "wallet")).isOk

variable (env p) in
/-- What comes after an error makes no difference. -/
theorem bootAll_reached : ∀ (hs : List String) (st : St),
    (bootAll env p hs st).2 = (bootAll env p (reached env st hs) st).2 ∧
      (bootAll env p (reached env st hs) st).1 = .ok ()
  | [], _ => ⟨rfl, rfl⟩
  | h :: hs, st => by
      cases hkey : bootKey env ((userHash st h).lookup "wallet") with
      | error e =>
          have hstop : reached env st (h :: hs) = [] :=
            List.takeWhile_cons_of_neg (by rw [hkey]; exact Bool.false_ne_true)
          have hboot : bootAll env p (h :: hs) st = (.error e, st) := by rw [bootAll, hkey]
          rw [hstop, hboot]
          exact ⟨rfl, rfl⟩
      | ok found =>
          have hgo : reached env st (h :: hs) = h :: reached env st hs :=
            List.takeWhile_cons_of_pos (by rw [hkey]; rfl)
          rw [hgo, bootAll, bootAll, hkey]
          cases found with
          | none => exact bootAll_reached hs st
          | some kp => exact bootAll_reached hs (st.load p h (bootUser kp (userHash st h)))

variable (env) in
theorem bootKey_of_reached {st : St} {hs : List String} {h : String} (hh : h ∈ reached env st hs) :
    bootKey env ((userHash st h).lookup "wallet") = .ok (storedKey env st (some h)) := by
  have hok : (bootKey env ((userHash st h).lookup "wallet")).isOk = true :=
    @List.mem_takeWhile_imp _
      (fun h => (bootKey env ((userHash st h).lookup "wallet")).isOk) hs h hh
  cases hkey : bootKey env ((userHash st h).lookup "wallet") with
  | error e =>
      rw [hkey] at hok
      cases hok
  | ok found => exact congrArg _ (bootKey_eq hkey)

end

/-! ## What the key pairs hold -/

/-- The key pair holds the secret that is stored for the handle. -/
def HoldsStored (env : Env) (st : St) (m : Hydration) (h : String) (k : KeypairRef) : Prop :=
  ∃ w, (userHash st h).lookup "wallet" = some w ∧
    openWallet env w = .ok (m.heap.read k.secretKey) ∧ (m.heap.read k.secretKey).length = 64

section

variable {env : Env} {p : Pid}

theorem usableKey_open {w : String} {kp : Keypair} (h : usableKey env w = some kp) :
    openWallet env w = .ok kp.secretKey ∧ kp.secretKey.length = 64 := by
  unfold usableKey at h
  split at h
  next =>
    split at h
    next secret hopen =>
      split at h
      next hlen =>
        cases hkp : env.keypair secret with
        | error e =>
            rw [hkp] at h
            cases h
        | ok kp' =>
            rw [hkp] at h
            cases h
            rw [keypair_secretKey hkp]
            exact ⟨hopen, hlen⟩
      next => cases h
    next => cases h
  next => cases h

/-- An entry holds the stored secret only if that is all zeros. -/
theorem holdsStored_iff {st : St} {m : Hydration} {h : String} {k : KeypairRef} {kp : Keypair}
    (hstored : storedKey env st (some h) = some kp)
    (hk : k.keypair m.heap = kp.filled) :
    HoldsStored env st m h k ↔ ∀ x ∈ kp.secretKey, x = 0 := by
  have hread : m.heap.read k.secretKey = kp.filled.secretKey := congrArg Keypair.secretKey hk
  obtain ⟨w, hw, hkey⟩ := Option.bind_eq_some_iff.mp hstored
  obtain ⟨hopen, hlen⟩ := usableKey_open hkey
  have hzero : kp.filled.secretKey = kp.secretKey ↔ ∀ x ∈ kp.secretKey, x = 0 := by
    have hmap : kp.secretKey.map (fun _ => 0) = kp.secretKey.map id ↔
        ∀ x ∈ kp.secretKey, 0 = id x := List.map_inj_left
    rw [List.map_id] at hmap
    exact hmap.trans (forall₂_congr fun x _ => eq_comm)
  rw [← hzero, HoldsStored, hread]
  constructor
  · rintro ⟨w', hw', hopen', -⟩
    cases hw.symm.trans hw'
    exact Except.ok.inj (hopen'.symm.trans hopen)
  · intro heq
    rw [heq]
    exact ⟨w, hw, hopen, hlen⟩

/-- The map gets the handles that are reached and have a usable key. -/
theorem loaded_iff {st : St} {hs : List String} (hempty : (st.mem p).users = []) (h : String)
    (u : User) : ((bootAll env p hs st).2.mem p).users.lookup (some h) = some u ↔
      h ∈ reached env st hs ∧ ∃ kp, storedKey env st (some h) = some kp ∧
        u = bootUser kp (userHash st h) := by
  obtain ⟨hsame, hok⟩ := bootAll_reached env p hs st
  rw [hsame, bootAll_users env p _ st hok h, hempty]
  constructor
  · intro hu
    split at hu
    next kp hkey =>
      split at hu
      next hmem =>
        rw [bootKey_of_reached env hmem] at hkey
        exact ⟨hmem, kp, Except.ok.inj hkey, (Option.some.inj hu).symm⟩
      next => cases hu
    next => cases hu
  · rintro ⟨hmem, kp, hkp, rfl⟩
    rw [bootKey_of_reached env hmem, hkp]
    exact if_pos hmem

theorem Denotes.of_users {m : Hydration} {st st' : St} (hd : Denotes p m st)
    (h : (st'.mem p).users = (st.mem p).users) : Denotes p m st' :=
  ⟨fun h' => h ▸ hd.wallets h', hd.bound, hd.wiped⟩

/-- The entries hold their secrets only if the secrets are all zeros. -/
theorem Denotes.holdsStored_iff {st : St} {hs : List String} {m : Hydration}
    (hd : Denotes p m (bootAll env p hs st).2) (hempty : (st.mem p).users = []) :
    (∀ h k, m.users.lookup (some h) = some k → HoldsStored env st m h k) ↔
      ∀ h ∈ reached env st hs, ∀ kp, storedKey env st (some h) = some kp →
        ∀ x ∈ kp.secretKey, x = 0 := by
  constructor
  · intro hall h hh kp hkp
    have hlookup := (@loaded_iff env p st hs hempty h (bootUser kp (userHash st h))).mpr
      ⟨hh, kp, hkp, rfl⟩
    have hwallet := hd.wallets (some h)
    rw [hlookup, Option.map_some] at hwallet
    obtain ⟨k, hk, hread⟩ := Option.map_eq_some_iff.mp hwallet.symm
    exact (Nexus.holdsStored_iff hkp hread).mp (hall h k hk)
  · intro hzero h k hk
    have hwallet := hd.wallets (some h)
    rw [hk, Option.map_some] at hwallet
    obtain ⟨u, hu, hread⟩ := Option.map_eq_some_iff.mp hwallet
    obtain ⟨hmem, kp, hkp, rfl⟩ := (loaded_iff hempty h u).mp hu
    exact (Nexus.holdsStored_iff hkp hread.symm).mpr (hzero h hmem kp hkp)

end

/-- After the boot the map is what one reads off the arrays. -/
theorem hydrated_denotes (env : Env) {τ : Type} (strat : (c : Cmd) → τ → c.Ans × τ) (st : St)
    (hempty : (st.mem .agent).users = []) (t : τ) :
    Denotes .agent (hydrateBuffers env st (st.redis.sets usersSetKey) .empty).2
        (bootAll env .agent (st.redis.sets usersSetKey) st).2 ∧
      Denotes .agent (hydrateBuffers env st (st.redis.sets usersSetKey) .empty).2
        ((initializeUsers env).run (alone .agent strat) (st, t)).2.1 := by
  obtain ⟨-, hd⟩ := @hydrateBuffers_denotes env .agent st (st.redis.sets usersSetKey) .empty st rfl
    ⟨fun h => by rw [hempty]; rfl, nofun, nofun⟩
  refine ⟨hd, hd.of_users ?_⟩
  obtain ⟨t', hrun⟩ := initializeUsers_run .agent strat env st t
  rw [hrun]
  cases hboot : bootAll env .agent (st.redis.sets usersSetKey) st with
  | mk x st' =>
      cases x with
      | error e => rfl
      | ok =>
          obtain ⟨s', hwatch, -, husers, -⟩ := watchDeposits_run .agent strat st' t'
          dsimp only
          rw [hwatch]
          exact husers

/-- After the boot the map is what one reads off the arrays.  Every temporary is wiped, and every
entry holds the secret that is stored for it, if and only if the handles the boot gets to have no
usable key other than one that is all zeros. -/
theorem hydrated_holds_iff (env : Env) {τ : Type} (strat : (c : Cmd) → τ → c.Ans × τ)
    (r : Redis.Store) (now : Nat) (t : τ) :
    let st : St := { St.fresh env now with redis := r }
    let m := (hydrateBuffers env st (r.sets usersSetKey) .empty).2
    Denotes .agent m ((initializeUsers env).run (alone .agent strat) (st, t)).2.1 ∧
      ((∀ h k, m.users.lookup (some h) = some k → HoldsStored env st m h k) ∧
          (∀ q ∈ m.temporaries, ∀ x ∈ m.heap.read q, x = 0) ↔
        ∀ h ∈ reached env st (r.sets usersSetKey), ∀ kp, storedKey env st (some h) = some kp →
          ∀ x ∈ kp.secretKey, x = 0) := by
  intro st m
  obtain ⟨hd, hd'⟩ := hydrated_denotes env strat st rfl t
  refine ⟨hd', ?_⟩
  rw [hd.holdsStored_iff rfl, and_iff_left fun q hq => (hd.wiped q hq).2]

namespace Sample

/-- A store with the encrypted wallet of `alice`. -/
def intact : St :=
  stored fun h => if h = "alice" then
    [("wallet", "enc:" ++ sealed env (List.replicate 12 0)
      (Utf8.encode (Json.stringify (bytesJson alice.secretKey))))]
  else []

theorem bootKey_intact :
    bootKey env ((userHash intact "alice").lookup "wallet") = .ok (some alice) := by
  have hopen : openWallet env ("enc:" ++ sealed env (List.replicate 12 0)
      (Utf8.encode (Json.stringify (bytesJson alice.secretKey)))) = .ok alice.secretKey :=
    openWallet_sealed env rfl (parse_bytesJson _)
  have hfield : (userHash intact "alice").lookup "wallet" = some ("enc:" ++
      sealed env (List.replicate 12 0)
        (Utf8.encode (Json.stringify (bytesJson alice.secretKey)))) := rfl
  rw [hfield, bootKey, startsWith_mark, if_pos rfl, hopen]
  rfl

/-- The key pair of `alice` is loaded without its secret. -/
theorem hydrated_blank :
    let m := (hydrateBuffers env intact (intact.redis.sets usersSetKey) .empty).2
    let st := ((initializeUsers env).run (alone .agent unplugged) (intact, ())).2.1
    storedKey env intact (some "alice") = some alice ∧
      ∃ k, m.users.lookup (some "alice") = some k ∧
        ((st.mem .agent).users.lookup (some "alice")).map User.wallet = some (k.keypair m.heap) ∧
        ¬ HoldsStored env intact m "alice" k := by
  have hreached : "alice" ∈ reached env intact (intact.redis.sets usersSetKey) := by
    have hset : intact.redis.sets usersSetKey = ["bob", "alice"] := rfl
    rw [hset, reached, List.takeWhile_cons_of_pos rfl,
      List.takeWhile_cons_of_pos (by rw [bootKey_intact]; rfl)]
    exact List.mem_cons_of_mem _ (List.mem_cons_self ..)
  have hstored : storedKey env intact (some "alice") = some alice :=
    (Except.ok.inj ((bootKey_of_reached env hreached).symm.trans bootKey_intact))
  obtain ⟨hd, hd'⟩ := hydrated_denotes env unplugged intact rfl ()
  have hlookup := (@loaded_iff env .agent intact (intact.redis.sets usersSetKey) rfl "alice" _).mpr
    ⟨hreached, alice, hstored, rfl⟩
  have hwallet := hd.wallets (some "alice")
  rw [hlookup, Option.map_some] at hwallet
  obtain ⟨k, hk, hread⟩ := Option.map_eq_some_iff.mp hwallet.symm
  refine ⟨hstored, k, hk, ?_, fun h => ?_⟩
  · rw [hd'.wallets, hk]
    rfl
  · have hzero := (holdsStored_iff hstored hread).mp h
    have hnot : ¬ alice.secretKey.all (fun x => decide (x = 0)) = true := by decide +kernel
    exact hnot (List.all_eq_true.mpr fun x hx => decide_eq_true (hzero x hx))

end Sample

end Nexus
