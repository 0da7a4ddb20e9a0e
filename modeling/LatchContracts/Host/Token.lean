import LatchContracts.Host.Types

/-!
# SEP-41 tokens as the templates see them

A template holds tokens and moves them with one call, `transfer(from, to,
amount)` of the token contract.  The token contracts, and everything else on the
network, are outside of the repository.  `TokenWorld` takes them as parameters:
the balances that the state of the network shows, and what a `transfer` call
does to that state, where `none` is a call that reverts.

`TokenWorld.Lawful` is what the templates rely on.  The first three laws are
SEP-41: the `from` address authorized the call, the amount is not negative, and
exactly the amount moves.  The last one covers the other tokens while some
contract runs, which may be any contract: a holder that authorized nothing loses
nothing.  A contract authorizes the calls that it makes itself, and no call
further down, so the holder may be the contract that makes the call.

`Balances` is a ledger with these laws.
-/

namespace LatchContracts.Host

open LatchContracts.Lib

/-- A call of `transfer(from, to, amount)`. -/
structure TransferCall where
  /-- What the host supplies to the invocation. -/
  env : Env
  /-- The contract that makes the call, if it is not the top of the
  invocation. -/
  invoker : Option Address
  token : Address
  source : Address
  target : Address
  amount : I128

/-- The address authorized the call: with its own authorization, or because it
is the contract that makes the call. -/
def TransferCall.Authorized (c : TransferCall) (a : Address) : Prop :=
  c.env.auth a = true ∨ c.invoker = some a

instance (c : TransferCall) (a : Address) : Decidable (c.Authorized a) :=
  inferInstanceAs (Decidable (_ ∨ _))

/-- The token contracts and the state of the network. -/
structure TokenWorld (W : Type) where
  balance : W → Address → Address → ℤ
  transfer : TransferCall → W → Option W
  IsSep41 : Address → Prop

/-- What the templates rely on. -/
structure TokenWorld.Lawful {W : Type} (tokens : TokenWorld W) : Prop where
  authorized : ∀ {c w w'}, tokens.IsSep41 c.token → tokens.transfer c w = some w' →
    c.Authorized c.source
  nonneg : ∀ {c w w'}, tokens.IsSep41 c.token → tokens.transfer c w = some w' → 0 ≤ c.amount.val
  moves : ∀ {c w w'}, tokens.IsSep41 c.token → tokens.transfer c w = some w' → ∀ holder,
    tokens.balance w' c.token holder = tokens.balance w c.token holder -
      (if holder = c.source then c.amount.val else 0) +
      (if holder = c.target then c.amount.val else 0)
  guards : ∀ {c w w'}, tokens.transfer c w = some w' → ∀ token, tokens.IsSep41 token →
    token ≠ c.token → ∀ holder, c.env.auth holder = false →
      tokens.balance w token holder ≤ tokens.balance w' token holder

/-! ## What a holder can lose -/

section Holder

variable {W : Type} {tokens : TokenWorld W} {c : TransferCall} {w w' : W} {token holder : Address}

/-- A holder that did not sign loses nothing in a transfer from somebody else,
whatever the contract that is called. -/
theorem TokenWorld.Lawful.balance_le (hlaw : tokens.Lawful)
    (htransfer : tokens.transfer c w = some w') (hunsigned : c.env.auth holder = false)
    (htoken : tokens.IsSep41 token) (hsource : c.token = token → c.source ≠ holder) :
    tokens.balance w token holder ≤ tokens.balance w' token holder := by
  by_cases heq : c.token = token
  · subst heq
    have hnonneg := hlaw.nonneg htoken htransfer
    have hmoves := hlaw.moves htoken htransfer holder
    rw [if_neg (fun h => hsource rfl h.symm)] at hmoves
    split at hmoves
    · omega
    · omega
  · exact hlaw.guards htransfer token htoken (fun h => heq h.symm) holder hunsigned

/-- A holder that neither signed nor made the call loses nothing. -/
theorem TokenWorld.Lawful.balance_le_of_unauthorized (hlaw : tokens.Lawful)
    (htransfer : tokens.transfer c w = some w') (hunsigned : c.env.auth holder = false)
    (hinvoker : c.invoker ≠ some holder) (htoken : tokens.IsSep41 token) :
    tokens.balance w token holder ≤ tokens.balance w' token holder := by
  refine hlaw.balance_le htransfer hunsigned htoken ?_
  intro heq hsource
  subst heq hsource
  rcases hlaw.authorized htoken htransfer with hauth | hmade
  · rw [hauth] at hunsigned
    cases hunsigned
  · exact hinvoker hmade

end Holder

/-! ## A ledger with these laws -/

/-- The balance of each holder, for each token. -/
abbrev Balances := Address → Address → ℤ

namespace Balances

/-- Move an amount of one token. -/
def move (b : Balances) (token source target : Address) (amount : ℤ) : Balances :=
  fun t holder =>
    if t = token then
      b t holder - (if holder = source then amount else 0) + (if holder = target then amount else 0)
    else b t holder

/-- A network of plain tokens. -/
def world : TokenWorld Balances where
  balance := fun b => b
  transfer := fun c b =>
    if c.Authorized c.source ∧ 0 ≤ c.amount.val ∧ c.amount.val ≤ b c.token c.source then
      some (b.move c.token c.source c.target c.amount.val)
    else none
  IsSep41 := fun _ => True

theorem transfer_eq_some {c : TransferCall} {b b' : Balances} (h : world.transfer c b = some b') :
    c.Authorized c.source ∧ 0 ≤ c.amount.val ∧
      b' = b.move c.token c.source c.target c.amount.val := by
  simp only [world, Option.ite_none_right_eq_some] at h
  obtain ⟨⟨hauth, hnonneg, _⟩, hb⟩ := h
  exact ⟨hauth, hnonneg, (Option.some.inj hb).symm⟩

theorem world_lawful : world.Lawful where
  authorized := fun _ h => (transfer_eq_some h).1
  nonneg := fun _ h => (transfer_eq_some h).2.1
  moves := by
    intro c w w' _ h holder
    obtain ⟨_, _, rfl⟩ := transfer_eq_some h
    show w.move _ _ _ _ c.token holder = _
    rw [move, if_pos rfl]
    rfl
  guards := by
    intro c w w' h token _ hne holder _
    obtain ⟨_, _, rfl⟩ := transfer_eq_some h
    show w token holder ≤ w.move _ _ _ _ token holder
    rw [move, if_neg hne]

end Balances

end LatchContracts.Host
