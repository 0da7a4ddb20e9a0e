import LatchContracts.Host.Types
import LatchContracts.Lib.KeyedStore

/-!
# The entrypoints of a policy contract

A policy is a singleton contract.  Every smart account that uses it keeps one
entry in its storage for each context rule, under the key
`AccountContext(smart_account, context_rule_id)`, and calls it through the
`Policy` trait: `install`, `uninstall` and `enforce`, next to a read-only view
of the entry.

The four Latch policies write these entrypoints in the same shape, with their
own data, checks and error codes.  This module holds each shape once, and the
modules of the policies apply it to their own values:

* `installEntry`: the account's authorization, the rule type, the check of the
  parameters, the check that nothing is installed, and the write;
* `uninstallEntry`: the account's authorization, the check that something is
  installed, and the removal;
* `guardedEnforce`: the account's authorization, the check that a signer was
  authenticated, the read of the entry, and the policy's own decision.

The multi-token spending limit does not use `guardedEnforce`: its `enforce`
checks no signer list, and writes.

`PolicyContract` packs the entrypoints of one policy, and `PolicyContract.exec`
dispatches a call to them.  `SharedShape` and `GuardedShape` say which of the shapes
a policy has, so that what follows from the shapes alone is proved once.
-/

namespace LatchContracts.Policies

open LatchContracts.Lib LatchContracts.Host

/-! ## The shared shapes -/

section Shapes

variable {D ε ev : Type}

/-- The storage of a policy whose entries hold `D`. -/
abbrev Entries (D : Type) := Store AccountContext D

/-- The checks of `install` in source order.  `params` is the policy's check of
its parameters and `data` builds the entry. -/
def installEntry (wrongRule alreadyInstalled : ε) (params : Except (Fault ε) Unit)
    (data : Except (Fault ε) D) (events : List ev) (env : Env) (rule : ContextRule)
    (account : Address) (s : Entries D) :
    Except (Fault ε) (List ev × Entries D) := do
  env.requireAuth account
  ensure (rule.contextType.isCallContract) (.contract wrongRule)
  params
  ensure (¬ s.has ⟨account, rule.id⟩) (.contract alreadyInstalled)
  let d ← data
  pure (events, s.set ⟨account, rule.id⟩ d)

/-- The checks of `uninstall` in source order. -/
def uninstallEntry (notInstalled : ε) (events : List ev) (env : Env) (rule : ContextRule)
    (account : Address) (s : Entries D) :
    Except (Fault ε) (List ev × Entries D) := do
  env.requireAuth account
  ensure (s.has ⟨account, rule.id⟩) (.contract notInstalled)
  pure (events, s.remove ⟨account, rule.id⟩)

/-- The read of an entry, which fails when nothing is installed. -/
def getEntry (notInstalled : ε) (ruleId : U32) (account : Address)
    (s : Entries D) : Except (Fault ε) D :=
  unwrapOr (s ⟨account, ruleId⟩) (.contract notInstalled)

/-- The checks of an `enforce` that reads and never writes, in source order.
`decision` is the policy's own verdict on the context. -/
def guardedEnforce (noSigner notInstalled : ε) (decision : D → Except (Fault ε) (List ev))
    (env : Env) (signers : List Signer) (rule : ContextRule) (account : Address)
    (s : Entries D) :
    Except (Fault ε) (List ev × Entries D) := do
  env.requireAuth account
  ensure (signers ≠ []) (.contract noSigner)
  let d ← getEntry notInstalled rule.id account s
  let events ← decision d
  pure (events, s)

end Shapes

/-! ## Policy contracts -/

/-- One call of a policy contract. -/
inductive Call (Params : Type)
  | install (params : Params) (rule : ContextRule) (account : Address)
  | uninstall (rule : ContextRule) (account : Address)
  | enforce (context : Context) (signers : List Signer) (rule : ContextRule) (account : Address)
  | get (ruleId : U32) (account : Address)

/-- The key a call names. -/
def Call.key {Params : Type} : Call Params → AccountContext
  | install _ rule account => ⟨account, rule.id⟩
  | uninstall rule account => ⟨account, rule.id⟩
  | enforce _ _ rule account => ⟨account, rule.id⟩
  | get ruleId account => ⟨account, ruleId⟩

/-- A call together with what the host supplies to it. -/
structure Invocation (E C : Type) where
  env : E
  call : C

/-- What a successful call answers: the events it published, or the value it
read. -/
inductive Reply (ev out : Type)
  | events (es : List ev)
  | value (o : out)

/-- The entrypoints of a policy.  `E` is what the host supplies to a call. -/
structure PolicyContract (E Params D ε ev out : Type) where
  install : E → Params → ContextRule → Address → Entries D → Except (Fault ε) (List ev × Entries D)
  uninstall : E → ContextRule → Address → Entries D → Except (Fault ε) (List ev × Entries D)
  enforce : E → Context → List Signer → ContextRule → Address → Entries D →
    Except (Fault ε) (List ev × Entries D)
  get : U32 → Address → Entries D → Except (Fault ε) out

/-- The reply of a state-changing call. -/
def reply {D ε ev : Type} (out : Type) (x : Except (Fault ε) (List ev × Entries D)) :
    Except (Fault ε) (Reply ev out × Entries D) :=
  x.map (fun p => (.events p.1, p.2))

namespace PolicyContract

variable {E Params D ε ev out : Type} (P : PolicyContract E Params D ε ev out)

/-- Dispatch a call to its entrypoint. -/
def exec (i : Invocation E (Call Params)) (s : Entries D) :
    Except (Fault ε) (Reply ev out × Entries D) :=
  match i.call with
  | .install params rule account => reply out (P.install i.env params rule account s)
  | .uninstall rule account => reply out (P.uninstall i.env rule account s)
  | .enforce context signers rule account =>
      reply out (P.enforce i.env context signers rule account s)
  | .get ruleId account => (P.get ruleId account s).map (fun o => (.value o, s))

/-- The policy has the shared `install` and `uninstall`, and its view reads the
entry of its key.  What the host supplies to its calls contains an `Env`. -/
structure SharedShape (toEnv : E → Env) : Prop where
  install : ∀ env params rule account, ∃ wrongRule alreadyInstalled checked data events,
    P.install env params rule account =
      installEntry wrongRule alreadyInstalled checked data events (toEnv env) rule account
  uninstall : ∀ env rule account, ∃ notInstalled events,
    P.uninstall env rule account = uninstallEntry notInstalled events (toEnv env) rule account
  get : ∀ ruleId account s t, s ⟨account, ruleId⟩ = t ⟨account, ruleId⟩ →
    P.get ruleId account s = P.get ruleId account t

/-- The policy has the shared `enforce` as well. -/
structure GuardedShape (P : PolicyContract Env Params D ε ev out) : Prop
    extends P.SharedShape id where
  enforce : ∀ env context signers rule account, ∃ noSigner notInstalled decision,
    P.enforce env context signers rule account =
      guardedEnforce noSigner notInstalled decision env signers rule account

end PolicyContract

/-! ## Inversion of the shared shapes -/

section Inversion

variable {D ε ev out : Type} {s s' : Entries D} {env : Env} {rule : ContextRule}
  {account : Address} {events es : List ev}

theorem requireAuth_bind_eq_ok {α : Type} {f : Unit → Except (Fault ε) α} {a : α} :
    (env.requireAuth account >>= f) = .ok a ↔ env.auth account = true ∧ f () = .ok a :=
  ensure_bind_eq_ok

theorem reply_eq_ok {x : Except (Fault ε) (List ev × Entries D)} {r : Reply ev out} :
    reply out x = .ok (r, s') ↔ ∃ es, r = .events es ∧ x = .ok (es, s') := by
  rcases x with e | ⟨es, t⟩
  · simp [reply, Except.map]
  · simp only [reply, Except.map, Except.ok.injEq, Prod.mk.injEq]
    constructor
    · intro h
      rcases h with ⟨rfl, rfl⟩
      exact ⟨es, rfl, rfl, rfl⟩
    · intro h
      rcases h with ⟨es', rfl, rfl, rfl⟩
      exact ⟨rfl, rfl⟩

theorem reply_eq_error {x : Except (Fault ε) (List ev × Entries D)} {e : Fault ε} :
    reply out x = .error e ↔ x = .error e := by
  rcases x with e' | ⟨es, t⟩ <;> simp [reply, Except.map]

/-- A view leaves the storage as it was. -/
theorem view_eq_ok {x : Except (Fault ε) out} {r : Reply ev out} :
    x.map (fun o => (Reply.value o, s)) = .ok (r, s') ↔ s' = s ∧ ∃ o, x = .ok o ∧ r = .value o := by
  rcases x with e | o
  · simp [Except.map]
  · simp only [Except.map, Except.ok.injEq, Prod.mk.injEq, exists_eq_left']
    exact ⟨fun h => ⟨h.2.symm, h.1.symm⟩, fun h => ⟨h.2.symm, h.1.symm⟩⟩

theorem installEntry_eq_ok {wrongRule alreadyInstalled : ε} {params : Except (Fault ε) Unit}
    {data : Except (Fault ε) D} :
    installEntry wrongRule alreadyInstalled params data events env rule account s = .ok (es, s') ↔
      env.auth account = true ∧ rule.contextType.isCallContract = true ∧ params = .ok () ∧
        s ⟨account, rule.id⟩ = none ∧ ∃ d, data = .ok d ∧ es = events ∧
          s' = s.set ⟨account, rule.id⟩ d := by
  unfold installEntry
  rw [requireAuth_bind_eq_ok, ensure_bind_eq_ok, bind_eq_ok]
  refine and_congr_right fun _ => and_congr_right fun _ => ?_
  constructor
  · intro h'
    rcases h' with ⟨⟨⟩, hparams, h⟩
    rw [ensure_bind_eq_ok, bind_eq_ok, Store.not_has_iff] at h
    obtain ⟨hnone, d, hd, h⟩ := h
    rw [pure_eq_ok, Prod.mk.injEq] at h
    exact ⟨hparams, hnone, d, hd, h.1.symm, h.2.symm⟩
  · intro h'
    rcases h' with ⟨hparams, hnone, d, hd, rfl, rfl⟩
    refine ⟨(), hparams, ?_⟩
    rw [ensure_bind_eq_ok, bind_eq_ok, Store.not_has_iff]
    exact ⟨hnone, d, hd, rfl⟩

theorem uninstallEntry_eq_ok {notInstalled : ε} :
    uninstallEntry notInstalled events env rule account s = .ok (es, s') ↔
      env.auth account = true ∧ (∃ d, s ⟨account, rule.id⟩ = some d) ∧ es = events ∧
        s' = s.remove ⟨account, rule.id⟩ := by
  unfold uninstallEntry
  rw [requireAuth_bind_eq_ok, ensure_bind_eq_ok, pure_eq_ok, Prod.mk.injEq, Store.has_iff]
  refine and_congr_right fun _ => and_congr_right fun _ => ?_
  exact and_congr eq_comm eq_comm

theorem guardedEnforce_eq_ok {noSigner notInstalled : ε}
    {decision : D → Except (Fault ε) (List ev)} {signers : List Signer} :
    guardedEnforce noSigner notInstalled decision env signers rule account s = .ok (es, s') ↔
      env.auth account = true ∧ signers ≠ [] ∧ s' = s ∧
        ∃ d, s ⟨account, rule.id⟩ = some d ∧ decision d = .ok es := by
  unfold guardedEnforce getEntry
  rw [requireAuth_bind_eq_ok, ensure_bind_eq_ok, unwrapOr_bind_eq_ok]
  simp only [bind_eq_ok, pure_eq_ok, Prod.mk.injEq]
  constructor
  · intro h
    rcases h with ⟨hauth, hsigners, d, hd, es', hdec, rfl, rfl⟩
    exact ⟨hauth, hsigners, rfl, d, hd, hdec⟩
  · intro h
    rcases h with ⟨hauth, hsigners, rfl, d, hd, hdec⟩
    exact ⟨hauth, hsigners, d, hd, es, hdec, rfl, rfl⟩

/-- With no authenticated signer the guard fails, whatever is installed. -/
theorem guardedEnforce_nil {noSigner notInstalled : ε}
    {decision : D → Except (Fault ε) (List ev)} (hauth : env.auth account = true) :
    guardedEnforce noSigner notInstalled decision env [] rule account s =
      .error (.contract noSigner) := by
  unfold guardedEnforce Env.requireAuth
  rw [ensure_true_bind hauth, ensure_false_bind (by simp)]

end Inversion

end LatchContracts.Policies
