import LatchContracts.Host.Token

/-!
# The timelock vault

`templates/timelock-vault/src/lib.rs`: a contract that holds tokens until an
unlock ledger, and hands them out with the owner's authorization from then on.

`Owner` and `UnlockLedger` are persistent entries with a live-until ledger.
Reading or extending an entry after that ledger aborts the call, unless the entry
is restored: by an operation of the network before it, or by the transaction of the
call itself.  What the host does with lifetimes is a parameter of the model, the
`TtlRule`, and whether a transaction restores the entries is part of its input.

The restoration, and plain token transfers, are operations of the network and not
entrypoints of the vault; they are calls of the model because runs may hold them.

The constructor runs once, in the creation of the contract, so it starts a run
and is no call.
-/

namespace LatchContracts.Templates.Vault

open LatchContracts.Lib LatchContracts.Host

/-! ## Data -/

/-- `VaultError`. -/
inductive VaultError
  | stillLocked
  | invalidUnlockLedger
  deriving DecidableEq

/-- The events `Deposited` and `Withdrawn`. -/
inductive VaultEvent
  | deposited (token source : Address) (amount : I128)
  | withdrawn (token target : Address) (amount : I128)
  deriving DecidableEq

/-- `DAY_IN_LEDGERS`. -/
def dayInLedgers : ℤ := 17280

/-- `EXTEND_AMOUNT`. -/
def extendAmount : ℤ := 120 * dayInLedgers

/-- `TTL_THRESHOLD`. -/
def ttlThreshold : ℤ := extendAmount - dayInLedgers

/-! ## Persistent entries -/

/-- A persistent entry: its value and the last ledger at which it is live. -/
structure Entry (α : Type) where
  value : α
  liveUntil : ℤ
  deriving DecidableEq

/-- The entry is live at a ledger. -/
def Entry.Live {α : Type} (e : Entry α) (ledger : ℤ) : Prop := ledger ≤ e.liveUntil

instance {α : Type} (e : Entry α) (ledger : ℤ) : Decidable (e.Live ledger) :=
  inferInstanceAs (Decidable (_ ≤ _))

section Storage

variable {α ε : Type} (ttl : TtlRule)

/-- A live entry.  A missing entry and an archived one abort the call. -/
def liveEntry (now : ℤ) (o : Option (Entry α)) : Except (Fault ε) (Entry α) := do
  let e ← unwrapOr o .trap
  ensure (e.Live now) .trap
  pure e

/-- `persistent().get(key).unwrap()`. -/
def read (now : ℤ) (o : Option (Entry α)) : Except (Fault ε) α := do
  let e ← liveEntry now o
  pure e.value

/-- `persistent().extend_ttl(key, threshold, extend_to)`: when the remaining TTL
is below the threshold, or at it if the host so decides, the entry lives for
`extendTo` more ledgers. -/
def extendTtl (now threshold extendTo : ℤ) (o : Option (Entry α)) :
    Except (Fault ε) (Option (Entry α)) := do
  let e ← liveEntry now o
  if ttl.Acts (e.liveUntil - now) threshold then
    pure (some { e with liveUntil := now + extendTo })
  else
    pure (some e)

/-- The restoration of an entry: an archived entry lives on as a new one. -/
def restoreEntry (now : ℤ) (o : Option (Entry α)) : Option (Entry α) :=
  o.map (fun e => if e.Live now then e else { e with liveUntil := now + ttl.initial })

end Storage

/-! ## Entrypoints -/

/-- The storage of the vault and the state of the network. -/
structure VaultState (W : Type) where
  owner : Option (Entry Address)
  unlockLedger : Option (Entry U32)
  world : W

section Vault

variable {W : Type} (tokens : TokenWorld W) (vault : Address) (ttl : TtlRule)

/-- `extend_state_ttl`. -/
def extendStateTtl (env : Env) (s : VaultState W) : Except (Fault VaultError) (VaultState W) := do
  let owner ← extendTtl ttl env.sequence.val ttlThreshold extendAmount s.owner
  let unlockLedger ← extendTtl ttl env.sequence.val ttlThreshold extendAmount s.unlockLedger
  pure { s with owner := owner, unlockLedger := unlockLedger }

/-- `__constructor`. -/
def construct (env : Env) (owner : Address) (unlockLedger : U32) (world : W) :
    Except (Fault VaultError) (VaultState W) := do
  ensure (¬ unlockLedger ≤ env.sequence) (.contract .invalidUnlockLedger)
  extendStateTtl ttl env
    { owner := some ⟨owner, env.sequence.val + ttl.initial⟩
      unlockLedger := some ⟨unlockLedger, env.sequence.val + ttl.initial⟩
      world := world }

/-- A `transfer` call that the vault makes. -/
def tokenTransfer (env : Env) (token source target : Address) (amount : I128)
    (s : VaultState W) : Except (Fault VaultError) (VaultState W) := do
  let world ← unwrapOr (tokens.transfer ⟨env, some vault, token, source, target, amount⟩ s.world)
    .trap
  pure { s with world := world }

/-- `bump_ttl`. -/
def bumpTtl (env : Env) (s : VaultState W) :
    Except (Fault VaultError) (List VaultEvent × VaultState W) := do
  let s ← extendStateTtl ttl env s
  pure ([], s)

/-- `deposit`. -/
def deposit (env : Env) (source token : Address) (amount : I128) (s : VaultState W) :
    Except (Fault VaultError) (List VaultEvent × VaultState W) := do
  env.requireAuth source
  let s ← tokenTransfer tokens vault env token source vault amount s
  let s ← extendStateTtl ttl env s
  pure ([.deposited token source amount], s)

/-- `withdraw`. -/
def withdraw (env : Env) (token : Address) (amount : I128) (target : Address) (s : VaultState W) :
    Except (Fault VaultError) (List VaultEvent × VaultState W) := do
  let owner ← read env.sequence.val s.owner
  env.requireAuth owner
  let unlockLedger ← read env.sequence.val s.unlockLedger
  ensure (¬ env.sequence < unlockLedger) (.contract .stillLocked)
  let s ← tokenTransfer tokens vault env token vault target amount s
  let s ← extendStateTtl ttl env s
  pure ([.withdrawn token target amount], s)

/-- One call of the vault, or an operation of the network next to it. -/
inductive VaultCall
  | bumpTtl
  | deposit (source token : Address) (amount : I128)
  | withdraw (token : Address) (amount : I128) (target : Address)
  | getOwner
  | getUnlockLedger
  | getBalance (token : Address)
  | transfer (token source target : Address) (amount : I128)
  | restore

/-- A call together with what the host supplies to it. -/
structure VaultInput where
  env : Env
  call : VaultCall
  /-- The transaction restores the entries for its call. -/
  restores : Bool

/-- What a successful call answers. -/
inductive VaultReply
  | events (es : List VaultEvent)
  | owner (a : Address)
  | unlockLedger (l : U32)
  | balance (amount : ℤ)

/-- The events of a reply. -/
def VaultReply.published : VaultReply → List VaultEvent
  | .events es => es
  | _ => []

/-- The restoration of the entries. -/
def restoreState (env : Env) (s : VaultState W) : VaultState W :=
  { s with
    owner := restoreEntry ttl env.sequence.val s.owner
    unlockLedger := restoreEntry ttl env.sequence.val s.unlockLedger }

/-- Dispatch a call.  A transfer next to the vault is a token call at the top of
its own invocation. -/
def dispatch (env : Env) (call : VaultCall) (s : VaultState W) :
    Except (Fault VaultError) (VaultReply × VaultState W) :=
  match call with
  | .bumpTtl => do
      let p ← bumpTtl ttl env s
      pure (.events p.1, p.2)
  | .deposit source token amount => do
      let p ← deposit tokens vault ttl env source token amount s
      pure (.events p.1, p.2)
  | .withdraw token amount target => do
      let p ← withdraw tokens vault ttl env token amount target s
      pure (.events p.1, p.2)
  | .getOwner => do
      let a ← read env.sequence.val s.owner
      pure (.owner a, s)
  | .getUnlockLedger => do
      let l ← read env.sequence.val s.unlockLedger
      pure (.unlockLedger l, s)
  | .getBalance token => pure (.balance (tokens.balance s.world token vault), s)
  | .transfer token source target amount => do
      let world ← unwrapOr (tokens.transfer ⟨env, none, token, source, target, amount⟩ s.world)
        .trap
      pure (.events [], { s with world := world })
  | .restore => pure (.events [], restoreState ttl env s)

/-- The state that a call finds. -/
def found (i : VaultInput) (s : VaultState W) : VaultState W :=
  if i.restores then restoreState ttl i.env s else s

/-- A call in its transaction.  When the call fails, the restoration is undone
with it. -/
def exec (i : VaultInput) (s : VaultState W) :
    Except (Fault VaultError) (VaultReply × VaultState W) :=
  dispatch tokens vault ttl i.env i.call (found ttl i s)

end Vault

end LatchContracts.Templates.Vault
