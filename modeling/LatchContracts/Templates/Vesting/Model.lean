import LatchContracts.Host.Token

/-!
# The vesting schedule

`templates/vesting-schedule/src/lib.rs`: a contract that releases a total amount
of one token to its owner, linearly between two ledgers and not before an
optional cliff.

The workspace is built with `overflow-checks`, so an operator that overflows, or
divides by zero, aborts the call.  The arithmetic answers `none` there.  Shifts
drop the bits that leave the type, and `as` wraps.

The constructor runs once, in the creation of the contract, so it starts a run
and is no call.  A deposit is a plain token transfer next to the contract.  The
lifetime of the instance is in `Templates.Vesting.Lifetime`.
-/

namespace LatchContracts.Templates.Vesting

open LatchContracts.Lib LatchContracts.Host

/-! ## Data -/

/-- `VestingScheduleError`. -/
inductive VestingScheduleError
  | alreadyInitialized
  | invalidAmount
  | invalidLedgerRange
  | invalidCliffLedger
  | notInitialized
  deriving DecidableEq

/-- `ScheduleData`. -/
structure ScheduleData where
  owner : Address
  token : Address
  totalAmount : I128
  startLedger : U32
  cliffLedger : Option U32
  endLedger : U32
  claimedAmount : I128
  deriving DecidableEq

/-- The event `ScheduleCreated`. -/
structure ScheduleCreated where
  owner : Address
  token : Address
  totalAmount : I128
  startLedger : U32
  cliffLedger : Option U32
  endLedger : U32
  deriving DecidableEq

/-- The event `Claimed`. -/
structure Claimed where
  owner : Address
  target : Address
  amount : I128
  ledger : U32
  deriving DecidableEq

/-! ## Arithmetic -/

/-- `as u64`. -/
def asU64 {lo hi : ℤ} (a : Bounded lo hi) : U64 := .ofInt a.val

/-- `as u128`. -/
def asU128 {lo hi : ℤ} (a : Bounded lo hi) : U128 := .ofInt a.val

/-- `as i128`. -/
def asI128 {lo hi : ℤ} (a : Bounded lo hi) : I128 := .ofInt a.val

/-- `<< 64`. -/
def shiftLeft64 (a : U128) : U128 := .ofInt (a.val * 2 ^ 64)

/-- `>> 64`. -/
def shiftRight64 (a : U128) : U128 := .ofInt (a.val / 2 ^ 64)

/-- The branch of `mul_div_u128` for a product above `u128::MAX`: the high and
the low word of the total are multiplied and divided one after the other. -/
def mulDivSplit (total elapsed duration : U128) : Option U128 := do
  let hi := asU128 (asU64 (shiftRight64 total))
  let lo := asU128 (asU64 total)
  let hiProd ← hi.checkedMul elapsed
  let loProd ← lo.checkedMul elapsed
  let hiDiv ← hiProd.checkedDiv duration
  let hiRem ← hiProd.checkedRem duration
  let loSum ← (shiftLeft64 hiRem).checkedAdd loProd
  let loDiv ← loSum.checkedDiv duration
  (shiftLeft64 hiDiv).checkedAdd loDiv

/-- `mul_div_u128`. -/
def mulDivU128 (total : U128) (elapsed duration : U64) : Option U128 :=
  match total.checkedMul (asU128 elapsed) with
  | some prod => prod.checkedDiv (asU128 duration)
  | none => mulDivSplit total (asU128 elapsed) (asU128 duration)

/-- `compute_vested`. -/
def computeVested (totalAmount : I128) (startLedger : U32) (cliffLedger : Option U32)
    (endLedger currentLedger : U32) : Option I128 :=
  if currentLedger < startLedger then some 0
  else if ∃ cliff ∈ cliffLedger, currentLedger < cliff then some 0
  else if endLedger ≤ currentLedger then some totalAmount
  else do
    let elapsed ← currentLedger.checkedSub startLedger
    let duration ← endLedger.checkedSub startLedger
    let vested ← mulDivU128 (asU128 totalAmount) (asU64 elapsed) (asU64 duration)
    some (asI128 vested)

/-! ## Entrypoints -/

/-- The storage of the contract and the state of the network. -/
structure VestingState (W : Type) where
  schedule : Option ScheduleData
  world : W

section Contract

variable {W : Type} (tokens : TokenWorld W) (self : Address)

/-- `__constructor`. -/
def construct (owner token : Address) (totalAmount : I128) (startLedger : U32)
    (cliffLedger : Option U32) (endLedger : U32) (s : VestingState W) :
    Except (Fault VestingScheduleError) (List ScheduleCreated × VestingState W) := do
  ensure (s.schedule = none) (.contract .alreadyInitialized)
  ensure (¬ totalAmount.val ≤ 0) (.contract .invalidAmount)
  ensure (¬ endLedger ≤ startLedger) (.contract .invalidLedgerRange)
  ensure (¬ ∃ cliff ∈ cliffLedger, cliff < startLedger ∨ endLedger < cliff)
    (.contract .invalidCliffLedger)
  pure ([⟨owner, token, totalAmount, startLedger, cliffLedger, endLedger⟩],
    { s with
      schedule := some
        { owner := owner
          token := token
          totalAmount := totalAmount
          startLedger := startLedger
          cliffLedger := cliffLedger
          endLedger := endLedger
          claimedAmount := 0 } })

/-- `get_schedule_data`. -/
def getScheduleData (s : VestingState W) : Except (Fault VestingScheduleError) ScheduleData :=
  unwrapOr s.schedule (.contract .notInitialized)

/-- `compute_vested` of a stored schedule at the current ledger. -/
def vestedNow (env : Env) (schedule : ScheduleData) : Except (Fault VestingScheduleError) I128 :=
  unwrapOr (computeVested schedule.totalAmount schedule.startLedger schedule.cliffLedger
    schedule.endLedger env.sequence) .trap

/-- `claim`. -/
def claim (env : Env) (target : Address) (s : VestingState W) :
    Except (Fault VestingScheduleError) ((I128 × List Claimed) × VestingState W) := do
  let schedule ← getScheduleData s
  env.requireAuth schedule.owner
  let vested ← vestedNow env schedule
  let claimable := vested.saturatingSub schedule.claimedAmount
  if 0 < claimable.val then do
    let claimed := (schedule.claimedAmount.checkedAdd claimable).getD schedule.totalAmount
    let world ← unwrapOr
      (tokens.transfer ⟨env, some self, schedule.token, self, target, claimable⟩ s.world) .trap
    pure ((claimable, [⟨schedule.owner, target, claimable, env.sequence⟩]),
      { schedule := some { schedule with claimedAmount := claimed }, world := world })
  else
    pure ((claimable, []), s)

/-- `vested_amount`. -/
def vestedAmount (env : Env) (s : VestingState W) : Except (Fault VestingScheduleError) I128 := do
  let schedule ← getScheduleData s
  vestedNow env schedule

/-- `claimable_amount`. -/
def claimableAmount (env : Env) (s : VestingState W) :
    Except (Fault VestingScheduleError) I128 := do
  let schedule ← getScheduleData s
  let vested ← vestedNow env schedule
  pure (vested.saturatingSub schedule.claimedAmount)

/-- `claimed_amount`. -/
def claimedAmount (s : VestingState W) : Except (Fault VestingScheduleError) I128 := do
  let schedule ← getScheduleData s
  pure schedule.claimedAmount

/-- One call of the contract, or a token transfer next to it.  The views
`get_schedule`, `owner` and `token` are the call `getSchedule`. -/
inductive VestingCall
  | claim (target : Address)
  | getSchedule
  | vestedAmount
  | claimableAmount
  | claimedAmount
  | transfer (token source target : Address) (amount : I128)

/-- A call together with what the host supplies to it. -/
structure VestingInput where
  env : Env
  call : VestingCall

/-- What a successful call answers. -/
inductive VestingReply
  | claimed (amount : I128) (events : List Claimed)
  | schedule (d : ScheduleData)
  | amount (a : I128)
  | transferred

/-- Dispatch a call. -/
def exec (i : VestingInput) (s : VestingState W) :
    Except (Fault VestingScheduleError) (VestingReply × VestingState W) :=
  match i.call with
  | .claim target => do
      let p ← claim tokens self i.env target s
      pure (.claimed p.1.1 p.1.2, p.2)
  | .getSchedule => do
      let d ← getScheduleData s
      pure (.schedule d, s)
  | .vestedAmount => do
      let a ← vestedAmount i.env s
      pure (.amount a, s)
  | .claimableAmount => do
      let a ← claimableAmount i.env s
      pure (.amount a, s)
  | .claimedAmount => do
      let a ← claimedAmount s
      pure (.amount a, s)
  | .transfer token source target amount => do
      let world ← unwrapOr (tokens.transfer ⟨i.env, none, token, source, target, amount⟩ s.world)
        .trap
      pure (.transferred, { s with world := world })

end Contract

end LatchContracts.Templates.Vesting
