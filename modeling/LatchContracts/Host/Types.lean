import LatchContracts.Lib.Bounded
import LatchContracts.Lib.Call
import LatchContracts.Lib.Lease
import Mathlib.Data.List.Lex
import Mathlib.Data.Prod.Lex
import Mathlib.Data.Fin.Basic
import Mathlib.Order.Fin.Basic

/-!
# The Soroban host as the contracts see it

The values that the contracts receive from the host and the `stellar-accounts`
crate: bytes, addresses, symbols, call arguments, authorization contexts,
context rules and signers.

Only the fields that some modelled function reads are kept.  A `ContextRule`
keeps its id and its type; its name, signer list, policy list and expiry are
read by the account and never by a policy.  The two contract-creation contexts
keep no payload, because every policy rejects them unread.

A call that fails aborts with a `Fault`: an error code of the contract
(`panic_with_error!`), a refused `require_auth`, or a trap (a callee that
reverts, an answer that does not decode, an arithmetic overflow).

A call finds the entries it needs.  The source states that the expiry of the
policies' entries is no security boundary, and `Policies.Expiry` proves it on a
ledger where entries have lifetimes.
-/

namespace LatchContracts.Host

open LatchContracts.Lib

/-! ## Bytes and addresses -/

abbrev Byte := Fin 256

instance byteNeZero : NeZero 256 := ⟨by decide⟩

/-- `Bytes`, compared lexicographically with a shorter string first. -/
abbrev Bytes := List Byte

/-- `BytesN<n>`: a byte string of fixed length. -/
@[ext]
structure BytesN (n : ℕ) where
  toList : Bytes
  length_eq : toList.length = n
  deriving DecidableEq

/-- The byte string that repeats `b`. -/
def BytesN.replicate (n : ℕ) (b : Byte) : BytesN n := ⟨List.replicate n b, List.length_replicate⟩

/-- An address: a classic account or a contract, each named by 32 bytes. -/
inductive Address
  | account (id : BytesN 32)
  | contract (id : BytesN 32)
  deriving DecidableEq

namespace Address

/-- The order of the host: accounts before contracts, then the bytes. -/
def orderKey : Address → Lex (Fin 2 × Bytes)
  | account id => toLex (0, id.toList)
  | contract id => toLex (1, id.toList)

theorem orderKey_injective : Function.Injective orderKey := by
  intro a b h
  cases a <;> cases b <;> simp only [orderKey, toLex_inj, Prod.mk.injEq] at h <;>
    simp_all [BytesN.ext_iff]

instance : LinearOrder Address := LinearOrder.lift' orderKey orderKey_injective

end Address

/-- A symbol, such as the name of a contract function. -/
abbrev Symbol := String

/-! ## Call arguments -/

/-- A host value.  `other` stands for every value of a type that no modelled
function reads: void, booleans, byte strings, vectors, maps and so on. -/
inductive Val
  | u32 (n : U32)
  | i32 (n : I32)
  | u64 (n : U64)
  | i64 (n : I64)
  | u128 (n : U128)
  | i128 (n : I128)
  | symbol (s : Symbol)
  | address (a : Address)
  | other
  deriving DecidableEq

/-! `T::try_from_val` for the types that some function converts to.  Each
succeeds exactly on the values of its own type. -/

namespace Val

def toU32? : Val → Option U32
  | .u32 n => some n
  | _ => none

def toI32? : Val → Option I32
  | .i32 n => some n
  | _ => none

def toU64? : Val → Option U64
  | .u64 n => some n
  | _ => none

def toI64? : Val → Option I64
  | .i64 n => some n
  | _ => none

def toU128? : Val → Option U128
  | .u128 n => some n
  | _ => none

def toI128? : Val → Option I128
  | .i128 n => some n
  | _ => none

def toSymbol? : Val → Option Symbol
  | .symbol s => some s
  | _ => none

def toAddress? : Val → Option Address
  | .address a => some a
  | _ => none

theorem toAddress?_eq_some {v : Val} {a : Address} : v.toAddress? = some a ↔ v = .address a := by
  cases v <;> simp [toAddress?]

theorem toI128?_eq_some {v : Val} {n : I128} : v.toI128? = some n ↔ v = .i128 n := by
  cases v <;> simp [toI128?]

end Val

/-! ## Authorization -/

/-- The call that asks for an authorization. -/
structure ContractContext where
  contract : Address
  fnName : Symbol
  args : List Val
  deriving DecidableEq

/-- What the account is asked to authorize. -/
inductive Context
  | contract (c : ContractContext)
  | createContractHostFn
  | createContractWithCtorHostFn
  deriving DecidableEq

/-- The scope of a context rule. -/
inductive ContextRuleType
  | default
  | callContract (target : Address)
  | createContract (wasmHash : BytesN 32)
  deriving DecidableEq

/-- `matches!(t, ContextRuleType::CallContract(_))`. -/
def ContextRuleType.isCallContract : ContextRuleType → Bool
  | .callContract _ => true
  | _ => false

theorem isCallContract_iff {t : ContextRuleType} :
    t.isCallContract = true ↔ ∃ target, t = .callContract target := by
  cases t <;> simp [ContextRuleType.isCallContract]

/-- The part of a context rule that a policy reads. -/
structure ContextRule where
  id : U32
  contextType : ContextRuleType
  deriving DecidableEq

/-- A signer of a smart account. -/
inductive Signer
  | delegated (address : Address)
  | external (verifier : Address) (keyData : Bytes)
  deriving DecidableEq

/-- How an invocation fails. -/
inductive Fault (ε : Type)
  | contract (e : ε)
  | unauthorized
  | trap
  deriving DecidableEq

/-- What the host supplies to one invocation: the addresses whose authorization
it carries, the ledger sequence number and the ledger timestamp. -/
structure Env where
  auth : Address → Bool
  sequence : U32
  timestamp : U64

/-- `address.require_auth()`. -/
def Env.requireAuth {ε : Type} (env : Env) (a : Address) : Except (Fault ε) Unit :=
  ensure (env.auth a) .unauthorized

/-- The storage key `AccountContext(smart_account, context_rule_id)` that the
four policies share. -/
structure AccountContext where
  smartAccount : Address
  contextRuleId : U32
  deriving DecidableEq

/-! ## Lifetimes

The modules about lifetimes hold for every `TtlRule`.  These two are for examples. -/

/-- The lifetimes of the network: `extend_ttl` acts when its threshold is left or
less, and a new persistent entry lives for 4095 more ledgers. -/
def networkTtl : TtlRule := ⟨true, 4095⟩

/-- The lifetimes as `extend_ttl` is documented: it acts below its threshold. -/
def documentedTtl : TtlRule := ⟨false, 4095⟩

end LatchContracts.Host
