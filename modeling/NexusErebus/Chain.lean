import NexusErebus.Text.Buffer
import NexusErebus.Text.Number
import Mathlib.Data.List.Dedup

/-!
# Keys, transactions and the chain

What the programs know of `@solana/web3.js` and `@solana/spl-token`.  A key pair is
the pair of byte arrays the library keeps.  A signed transaction is its content and
the key pair it was signed with, since a signature is a function of the two.

The chain is described by what was submitted to it, in order.  The environment
decides of every submission whether it lands, at once or later, and independently
what the confirmation call reports.  A program only sees the report.  The chain
carries out a signed transaction at most once, however often it was submitted, so
what it carried out is the list of the transactions that landed, without repetition
(`Ledger.executed`).
-/

namespace Nexus

/-- The contents of a `Buffer` or a `Uint8Array`. -/
abbrev Bytes := List UInt8

/-! ## Errors -/

/-- The constructor of an error. -/
inductive ErrKind where
  | error | typeError | syntaxError | referenceError | rangeError
  deriving DecidableEq, Repr

/-- An error, as a script throws it. -/
structure Err where
  kind : ErrKind
  message : String
  deriving DecidableEq, Repr

/-- `new Error(message)`. -/
def Err.new (message : String) : Err := ⟨.error, message⟩

/-! ## Keys -/

/-- A public key. -/
structure PublicKey where
  bytes : Bytes
  deriving DecidableEq, Repr

/-- The address of a public key. -/
def PublicKey.toBase58 (pk : PublicKey) : String := Base58.encode pk.bytes

theorem PublicKey.toBase58_injective : Function.Injective PublicKey.toBase58 := fun pk pk' h => by
  cases pk
  cases pk'
  exact congrArg PublicKey.mk (Base58.encode_injective h)

/-- A key pair, as the library keeps it. -/
structure Keypair where
  publicKey : PublicKey
  secretKey : Bytes
  deriving DecidableEq, Repr

namespace Keypair

/-- `Keypair.fromSecretKey(secret)`.  The argument `publicKeyOf` computes the public
key of a private scalar. -/
def fromSecretKey (publicKeyOf : Bytes → Bytes) (secret : Bytes) : Except Err Keypair :=
  if secret.length ≠ 64 then .error (.new "bad secret key size")
  else if publicKeyOf (secret.take 32) ≠ secret.drop 32 then
    .error (.new "provided secretKey is invalid")
  else .ok ⟨⟨secret.drop 32⟩, secret⟩

/-- The key pair after the array it was made from is overwritten with zeros.  The
library keeps that array as the secret key, and a copy of its second half as the
public key. -/
def filled (kp : Keypair) : Keypair := { kp with secretKey := kp.secretKey.map fun _ => 0 }

/-- The address of a key pair. -/
def address (kp : Keypair) : String := kp.publicKey.toBase58

@[simp] theorem address_filled (kp : Keypair) : kp.filled.address = kp.address := rfl

end Keypair

/-! ## Transactions -/

/-- The two programs that own token accounts. -/
inductive TokenProgram where
  | token | token2022
  deriving DecidableEq, Repr

/-- The instruction `createTransferCheckedInstruction` builds. -/
structure TransferChecked where
  source : PublicKey
  mint : PublicKey
  destination : PublicKey
  owner : PublicKey
  /-- The raw amount. -/
  amount : ℤ
  decimals : Number
  deriving DecidableEq

/-- The content of a transaction. -/
inductive TxBody where
  /-- One transfer, with its fee payer and its recent block hash. -/
  | transfer (ix : TransferChecked) (feePayer : PublicKey) (blockhash : String)
  /-- A transaction that was handed over as bytes. -/
  | wire (bytes : Bytes)
  deriving DecidableEq

/-- A signed transaction. -/
structure SignedTx where
  body : TxBody
  signer : Keypair
  deriving DecidableEq

/-! ## The chain -/

/-- A transaction handed to the RPC node. -/
structure Submission where
  tx : SignedTx
  /-- It lands on the chain, at once or later. -/
  lands : Bool
  /-- What the confirmation call reports: a signature or an error. -/
  report : Except Err String

/-- The submissions, oldest first. -/
abbrev Ledger := List Submission

/-- The transactions the chain carries out.  A transaction that landed before is
not carried out again. -/
def Ledger.executed (l : Ledger) : List SignedTx :=
  ((l.filter Submission.lands).map Submission.tx).dedup

/-- The submissions after the ledger was `before`. -/
def Ledger.since (before after : Ledger) : Ledger := after.drop before.length

@[simp] theorem Ledger.since_append (before subs : Ledger) :
    Ledger.since before (before ++ subs) = subs :=
  List.drop_left

end Nexus
