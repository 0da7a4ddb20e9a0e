import LatchContracts.Lib.Expiry
import LatchContracts.Policies.Isolation
import LatchContracts.Policies.MultiToken.Runs

/-!
# The lifetimes of the policies' entries

The policies keep their entries in persistent storage, where an entry that
nobody extends is archived.  Each policy extends the entry of a key when it reads
it, in `enforce` and in the public view of the entry, and in no other call.  A new
entry lives as long as the host gives it.  When `extend_ttl` acts, and whether the
transaction of a call restores an archived entry, is up to the host and to the
caller, and the results hold for all of it.

A call needs the entry of its key and no other (`Local`), so the policies
are contracts of the kind of `Lib.Expiry`, and the modules before this one are
about what is left of them when entries never expire.  The source says of the
public views that storage expiry is not a security boundary.
`expiry_is_no_boundary` says what that means for whole runs, and
`policy_entry_lifetime` how long an entry lives.
-/

namespace LatchContracts.Policies

open LatchContracts.Lib LatchContracts.Host

/-! ## The four policies on a ledger with lifetimes -/

/-- `DAY_IN_LEDGERS`. -/
def dayInLedgers : ℤ := 17280

/-- The lifetimes of a policy's entries. -/
def entryExpiry {ι D : Type} (addr : ι → AccountContext) (ledger : ι → U32) (reads : ι → Bool)
    (ttlThreshold extendAmount : ℤ) (ttl : TtlRule) : Expiry ι (Entries D) AccountContext where
  addr := addr
  time := fun i => (ledger i).val
  present := fun s k => (s k).isSome
  touches := reads
  threshold := ttlThreshold
  span := extendAmount
  ttl := ttl

/-- The calls that read the entry through the function that extends it. -/
def Call.reads {Params : Type} : Call Params → Bool
  | .enforce _ _ _ _ => true
  | .get _ _ => true
  | _ => false

/-- The key that a call uninstalls. -/
def Call.uninstalls {Params : Type} : Call Params → Option AccountContext
  | .uninstall rule account => some ⟨account, rule.id⟩
  | _ => none

namespace Session

/-- `SESSION_EXTEND_AMOUNT`. -/
def sessionExtendAmount : ℤ := 30 * dayInLedgers

/-- `SESSION_TTL_THRESHOLD`. -/
def sessionTtlThreshold : ℤ := sessionExtendAmount - dayInLedgers

def expiry (ttl : TtlRule) :
    Expiry (Invocation Env (Call SessionAccountParams)) (Entries SessionData) AccountContext :=
  entryExpiry (fun i => i.call.key) (fun i => i.env.sequence) (fun i => i.call.reads)
    sessionTtlThreshold sessionExtendAmount ttl

end Session

namespace ParameterScoped

/-- `PARAMETER_SCOPED_EXTEND_AMOUNT`. -/
def parameterScopedExtendAmount : ℤ := 30 * dayInLedgers

/-- `PARAMETER_SCOPED_TTL_THRESHOLD`. -/
def parameterScopedTtlThreshold : ℤ := parameterScopedExtendAmount - dayInLedgers

def expiry (ttl : TtlRule) :
    Expiry (Invocation Env (Call ParameterScopedAccountParams)) (Entries ParameterScopedData)
      AccountContext :=
  entryExpiry (fun i => i.call.key) (fun i => i.env.sequence) (fun i => i.call.reads)
    parameterScopedTtlThreshold parameterScopedExtendAmount ttl

end ParameterScoped

namespace RecipientAllowlist

/-- `RECIPIENT_EXTEND_AMOUNT`. -/
def recipientExtendAmount : ℤ := 30 * dayInLedgers

/-- `RECIPIENT_TTL_THRESHOLD`. -/
def recipientTtlThreshold : ℤ := recipientExtendAmount - dayInLedgers

/-- `set_allowed_recipients` looks the entry up and writes it, but does not
extend it. -/
def RecipientCall.reads : RecipientCall → Bool
  | .policy c => c.reads
  | .setAllowedRecipients _ _ _ => false

def RecipientCall.uninstalls : RecipientCall → Option AccountContext
  | .policy c => c.uninstalls
  | .setAllowedRecipients _ _ _ => none

def expiry (ttl : TtlRule) :
    Expiry (Invocation Env RecipientCall) (Entries RecipientData) AccountContext :=
  entryExpiry (fun i => i.call.key) (fun i => i.env.sequence) (fun i => i.call.reads)
    recipientTtlThreshold recipientExtendAmount ttl

end RecipientAllowlist

namespace MultiToken

/-- `POLICY_EXTEND_AMOUNT`. -/
def policyExtendAmount : ℤ := 30 * dayInLedgers

/-- `POLICY_TTL_THRESHOLD`. -/
def policyTtlThreshold : ℤ := policyExtendAmount - dayInLedgers

def expiry (ttl : TtlRule) : Expiry Input (Entries PolicyData) AccountContext :=
  entryExpiry (fun i => i.call.key) (fun i => i.env.sequence) (fun i => i.call.reads)
    policyTtlThreshold policyExtendAmount ttl

end MultiToken

/-! ## Expiry fails closed -/

section Safe

variable {ι D ε ρ : Type} {E : Expiry ι (Entries D) AccountContext} {auth : ι → Address → Bool}
  {exec : ι → Entries D → Except (Fault ε) (ρ × Entries D)}

/-- What expiry can do to a policy. -/
structure ExpirySafe (E : Expiry ι (Entries D) AccountContext) (auth : ι → Address → Bool)
    (exec : ι → Entries D → Except (Fault ε) (ρ × Entries D)) : Prop where
  /-- A call needs the entry of its key and no other. -/
  needs : Local E.addr exec
  /-- The storage is what the policy without lifetimes has after some of the
  calls, in their order. -/
  refines : ∀ os d, (E.ran exec .trap os d).Sublist (os.filterMap Operation.call?) ∧
    (run (E.onLedger exec .trap) os d).state = run exec (E.ran exec .trap os d) d.state
  /-- A call on an entry that is not archived, or that its transaction restores,
  answers what that policy answers. -/
  answers : ∀ os d i restores, E.Admits (run (E.onLedger exec .trap) os d) i restores →
    (settle (E.onLedger exec .trap) (.call i restores)
        (run (E.onLedger exec .trap) os d)).outcome =
      (settle exec i (run exec (E.ran exec .trap os d) d.state)).outcome.map some
  /-- Every other call fails and changes nothing. -/
  archived : ∀ d i restores, ¬ E.Admits d i restores →
    settle (E.onLedger exec .trap) (.call i restores) d = ⟨.call i restores, d, .error .trap, d⟩
  /-- Whatever is called without an account's authorization leaves the values of
  its entries, and takes nothing of their lifetimes. -/
  prolongs : ∀ os d account, (∀ i restores, .call i restores ∈ os → auth i account = false) →
    ∀ ruleId,
    (run (E.onLedger exec .trap) os d).state ⟨account, ruleId⟩ = d.state ⟨account, ruleId⟩ ∧
      (d.state.has ⟨account, ruleId⟩ → d.liveUntil ⟨account, ruleId⟩ ≤
        (run (E.onLedger exec .trap) os d).liveUntil ⟨account, ruleId⟩)

/-- A run that an account did not authorize leaves its entries. -/
theorem Guarded.run_eq (h : Guarded auth exec) {is : List ι} {s : Entries D} {account : Address}
    (hdenied : ∀ i ∈ is, auth i account = false) (ruleId : U32) :
    run exec is s ⟨account, ruleId⟩ = s ⟨account, ruleId⟩ := by
  induction is generalizing s with
  | nil => rfl
  | cons i is ih =>
    obtain ⟨hi, hrest⟩ := List.forall_mem_cons.mp hdenied
    exact (ih hrest).trans (h i s account ruleId hi)

theorem Guarded.ledger_eq (h : Guarded auth exec) {os : List (Operation ι AccountContext)}
    {d : Dated (Entries D) AccountContext} {account : Address}
    (hdenied : ∀ i restores, .call i restores ∈ os → auth i account = false) (ruleId : U32) :
    (run (E.onLedger exec .trap) os d).state ⟨account, ruleId⟩ = d.state ⟨account, ruleId⟩ := by
  rw [Expiry.run_state]
  apply h.run_eq
  intro i hi
  have hcall := (Expiry.ran_sublist os d).subset hi
  obtain ⟨o, ho, heq⟩ := List.mem_filterMap.mp hcall
  cases o with
  | restore k time => cases heq
  | call j restores =>
    obtain rfl : j = i := Option.some.inj heq
    exact hdenied j restores ho

/-- A policy whose calls are local and guarded is safe. -/
theorem expirySafe_of_guarded (hlocal : Local E.addr exec) (hguarded : Guarded auth exec)
    (hpresent : ∀ s k, E.present s k = true ↔ s.has k) (hthreshold : E.threshold ≤ E.span)
    (hinitial : 0 ≤ E.ttl.initial) : ExpirySafe E auth exec where
  needs := hlocal
  refines := fun os d => ⟨Expiry.ran_sublist os d, Expiry.run_state os d⟩
  answers := by
    intro os d i restores hadmits
    rw [(Expiry.settle_call hadmits).1, Expiry.run_state]
  archived := fun d i restores h => settle_of_error (Expiry.onLedger_archived h)
  prolongs := by
    intro os d account hdenied ruleId
    refine ⟨hguarded.ledger_eq hdenied ruleId, ?_⟩
    intro hhas
    refine Expiry.liveUntil_le_run hthreshold hinitial ?_
    intro before after heq
    have hbefore : ∀ i restores, .call i restores ∈ before → auth i account = false :=
      fun i restores hi => hdenied i restores (heq ▸ List.mem_append_left after hi)
    rw [hpresent, Store.has_congr (hguarded.ledger_eq hbefore ruleId)]
    exact hhas

end Safe

/-- Storage expiry is no security boundary of any of the four policies. -/
theorem expiry_is_no_boundary {ttl : TtlRule} (hinitial : 0 ≤ ttl.initial) :
    ExpirySafe (Session.expiry ttl) (fun i => i.env.auth) Session.contract.exec ∧
    ExpirySafe (ParameterScoped.expiry ttl) (fun i => i.env.auth) ParameterScoped.contract.exec ∧
    ExpirySafe (RecipientAllowlist.expiry ttl) (fun i => i.env.auth) RecipientAllowlist.exec ∧
    ExpirySafe (MultiToken.expiry ttl) (fun i => i.env.auth) MultiToken.contract.exec := by
  have hthreshold : (30 * dayInLedgers - dayInLedgers : ℤ) ≤ 30 * dayInLedgers := by decide
  refine ⟨?_, ?_, ?_, ?_⟩
  · exact expirySafe_of_guarded Session.shape.exec_local Session.shape.exec_guarded
      (fun _ _ => Iff.rfl) hthreshold hinitial
  · exact expirySafe_of_guarded ParameterScoped.shape.exec_local ParameterScoped.shape.exec_guarded
      (fun _ _ => Iff.rfl) hthreshold hinitial
  · exact expirySafe_of_guarded RecipientAllowlist.exec_local RecipientAllowlist.exec_guarded
      (fun _ _ => Iff.rfl) hthreshold hinitial
  · exact expirySafe_of_guarded MultiToken.exec_local MultiToken.exec_guarded
      (fun _ _ => Iff.rfl) hthreshold hinitial

namespace MultiToken

/-- The sample installation and a transfer, on a ledger with lifetimes. -/
def sampleOperations : List (Operation Input AccountContext) :=
  [.call ⟨sampleEnv, .install sampleParams sampleRule sampleAccount⟩ false,
    .call sampleSpend false]

/-- A transfer of the sample account more than a month later. -/
def sampleLateSpend : Input := sampleSpendAt 600000 sampleAmount

end MultiToken

/-- More than a month after its last transfer the entry of the sample account is
archived.  The next transfer fails, unless its transaction restores the entry, and
then it is decided with the same history. -/
theorem multiToken_expiry_is_no_boundary :
    let onLedger := (MultiToken.expiry networkTtl).onLedger MultiToken.contract.exec .trap
    let d := run onLedger MultiToken.sampleOperations ⟨Store.empty, fun _ => 0⟩
    settle onLedger (.call MultiToken.sampleLateSpend false) d =
        ⟨.call MultiToken.sampleLateSpend false, d, .error .trap, d⟩ ∧
      (settle onLedger (.call MultiToken.sampleLateSpend true) d).outcome =
        (settle MultiToken.contract.exec MultiToken.sampleLateSpend
          (run MultiToken.contract.exec [MultiToken.sampleSpend]
            MultiToken.sampleInstalled)).outcome.map some := by
  intro onLedger d
  have hinitial : (0 : ℤ) ≤ networkTtl.initial := by decide
  have hsafe := (expiry_is_no_boundary hinitial).2.2.2
  refine ⟨hsafe.archived d _ false (by decide +kernel), ?_⟩
  exact hsafe.answers MultiToken.sampleOperations _ _ true (.inl rfl)

/-! ## How long an entry lives -/

section Lifetime

variable {ι D ε ρ : Type} {E : Expiry ι (Entries D) AccountContext}
  {exec : ι → Entries D → Except (Fault ε) (ρ × Entries D)}
  {uninstalls : ι → Option AccountContext}

/-- Only an uninstallation of its key removes an entry. -/
def KeepsEntries (uninstalls : ι → Option AccountContext)
    (exec : ι → Entries D → Except (Fault ε) (ρ × Entries D)) : Prop :=
  ∀ i s r s' k, exec i s = .ok (r, s') → uninstalls i ≠ some k → s.has k → s'.has k

/-- The settled operation is an accepted uninstallation of key `k`. -/
def Uninstalls (uninstalls : ι → Option AccountContext) (k : AccountContext)
    (c : Settled (Operation ι AccountContext) (Dated (Entries D) AccountContext) (Fault ε)
      (Option ρ)) : Prop :=
  c.accepted ∧ ∃ i restores, c.input = .call i restores ∧ uninstalls i = some k

/-- The entry that an accepted call created lives, until its uninstallation, by
the lease of the calls that read it: a read counts when it comes more than a day
after the last one that counts, or exactly a day after it on a host that extends at
the threshold, and it counts for thirty days. -/
def LivesByLease (E : Expiry ι (Entries D) AccountContext)
    (exec : ι → Entries D → Except (Fault ε) (ρ × Entries D))
    (uninstalls : ι → Option AccountContext) : Prop :=
  ∀ i restores r d₀ d₁ os stop, E.onLedger exec .trap (.call i restores) d₀ = .ok (r, d₁) →
    ¬ d₀.state.has (E.addr i) → d₁.state.has (E.addr i) →
    (∀ c ∈ trace (E.onLedger exec .trap) os d₁, ¬ Uninstalls uninstalls (E.addr i) c) →
    os.Pairwise (fun o o' => E.opTime o ≤ E.opTime o') → (∀ o ∈ os, E.time i ≤ E.opTime o) →
    (∀ o ∈ os, E.opTime o ≤ stop) → E.time i ≤ stop →
      (E.LiveThroughout exec .trap (E.addr i) (E.time i) stop os d₁ ↔
        Unbroken (30 * dayInLedgers) (dayInLedgers - E.ttl.margin)
          (E.time i + E.ttl.initial - 30 * dayInLedgers)
          (E.touchTimes exec .trap (E.addr i) os d₁) stop)

theorem has_of_not_uninstalls (hkeeps : KeepsEntries uninstalls exec) {k : AccountContext}
    {os : List (Operation ι AccountContext)} {d : Dated (Entries D) AccountContext}
    (hhas : d.state.has k)
    (hstay : ∀ c ∈ trace (E.onLedger exec .trap) os d, ¬ Uninstalls uninstalls k c) :
    (run (E.onLedger exec .trap) os d).state.has k := by
  induction os generalizing d with
  | nil => exact hhas
  | cons o os ih =>
    obtain ⟨ho, hrest⟩ := List.forall_mem_cons.mp hstay
    refine ih ?_ hrest
    rcases settle_cases (E.onLedger exec .trap) o d with ⟨e, _, hset⟩ | ⟨r, d', hok, hset⟩
    · rw [hset]
      exact hhas
    · rw [hset]
      rw [hset] at ho
      cases o with
      | restore k' time =>
        simp only [Expiry.onLedger, pure_eq_ok, Prod.mk.injEq] at hok
        obtain ⟨_, rfl⟩ := hok
        exact hhas
      | call i restores =>
        simp only [Expiry.onLedger, bind_eq_ok, pure_eq_ok, Prod.mk.injEq] at hok
        obtain ⟨_, _, ⟨r', s'⟩, hexec, _, rfl⟩ := hok
        exact hkeeps i d.state r' s' k hexec (fun h => ho ⟨⟨r, rfl⟩, i, restores, rfl, h⟩) hhas

theorem livesByLease_of_keeps (hkeeps : KeepsEntries uninstalls exec)
    (hpresent : ∀ s k, E.present s k = true ↔ s.has k) (hspan : E.span = 30 * dayInLedgers)
    (hthreshold : E.threshold = 30 * dayInLedgers - dayInLedgers) :
    LivesByLease E exec uninstalls := by
  intro i restores r d₀ d₁ os stop hcreate hnone hsome hstay hclock hfirst hend hstop
  -- the created entry lives as long as the host gives it
  have hlease : d₁.liveUntil (E.addr i) =
      (E.time i + E.ttl.initial - 30 * dayInLedgers) + E.span := by
    simp only [Expiry.onLedger, bind_eq_ok, pure_eq_ok, Prod.mk.injEq] at hcreate
    obtain ⟨_, _, p, _, _, rfl⟩ := hcreate
    have hnew : E.present d₀.state (E.addr i) = false ∧ E.present p.2 (E.addr i) = true :=
      ⟨Bool.eq_false_iff.mpr (fun h => hnone ((hpresent _ _).mp h)), (hpresent _ _).mpr hsome⟩
    show Function.update d₀.liveUntil (E.addr i) _ (E.addr i) = _
    rw [Function.update_self, Expiry.renewed, if_pos hnew, hspan]
    omega
  have hthere : ∀ before after, os = before ++ after →
      E.present (run (E.onLedger exec .trap) before d₁).state (E.addr i) = true := by
    intro before after heq
    refine (hpresent _ _).mpr (has_of_not_uninstalls hkeeps hsome ?_)
    intro c hc
    refine hstay c ?_
    rw [heq, trace_append]
    exact List.mem_append_left _ hc
  have hday : E.span - E.threshold - E.ttl.margin = dayInLedgers - E.ttl.margin := by
    rw [hspan, hthreshold]
    omega
  have hpos : 0 ≤ E.threshold := by
    rw [hthreshold]
    decide
  rw [Expiry.stays_live_iff hpos hlease hthere hclock hfirst hend hstop, hday, hspan]

end Lifetime

section Contracts

variable {E Params D ε ev out : Type} {P : PolicyContract E Params D ε ev out} {toEnv : E → Env}

/-- The shared `install` asks for a free key, so a policy with the shared shapes
keeps its entries when `enforce` does. -/
theorem PolicyContract.SharedShape.keepsEntries (h : P.SharedShape toEnv)
    (hlocal : Local (fun i : Invocation E (Call Params) => i.call.key) P.exec)
    (henforce : ∀ env context signers rule account s es s',
      P.enforce env context signers rule account s = .ok (es, s') →
        s'.has ⟨account, rule.id⟩) :
    KeepsEntries (fun i : Invocation E (Call Params) => i.call.uninstalls) P.exec := by
  intro i s r s' k hok hkept hhas
  by_cases hkey : i.call.key = k
  · obtain ⟨env, call⟩ := i
    subst hkey
    cases call with
    | install params rule account =>
      obtain ⟨es, _, hx⟩ := reply_eq_ok.mp hok
      obtain ⟨_, _, _, _, _, heq⟩ := h.install env params rule account
      rw [heq] at hx
      obtain ⟨_, _, _, hfree, _⟩ := installEntry_eq_ok.mp hx
      exact absurd hfree (Option.isSome_iff_ne_none.mp hhas)
    | uninstall rule account => exact absurd rfl hkept
    | enforce context signers rule account =>
      obtain ⟨es, _, hx⟩ := reply_eq_ok.mp hok
      exact henforce _ _ _ _ _ _ _ _ hx
    | get ruleId account =>
      obtain ⟨hs', _⟩ := view_eq_ok.mp hok
      rw [hs']
      exact hhas
  · exact (Store.has_congr ((hlocal i).frame hok k (fun h => hkey h.symm))).mpr hhas

/-- A guarded `enforce` that succeeds found an entry and left it. -/
theorem PolicyContract.GuardedShape.keepsEntries {P : PolicyContract Env Params D ε ev out}
    (h : P.GuardedShape) :
    KeepsEntries (fun i : Invocation Env (Call Params) => i.call.uninstalls) P.exec := by
  refine h.toSharedShape.keepsEntries h.exec_local ?_
  intro env context signers rule account s es s' hok
  obtain ⟨_, _, _, heq⟩ := h.enforce env context signers rule account
  rw [heq] at hok
  obtain ⟨_, _, rfl, d, hd, _⟩ := guardedEnforce_eq_ok.mp hok
  exact Store.has_iff.mpr ⟨d, hd⟩

end Contracts

theorem RecipientAllowlist.keepsEntries :
    KeepsEntries (fun i => i.call.uninstalls) RecipientAllowlist.exec := by
  intro i s r s' k hok hkept hhas
  obtain ⟨env, call⟩ := i
  cases call with
  | policy c =>
    exact RecipientAllowlist.shape.keepsEntries ⟨env, c⟩ s r s' k hok hkept hhas
  | setAllowedRecipients allowedRecipients contextRuleId smartAccount =>
    obtain ⟨es, _, hx⟩ := reply_eq_ok.mp hok
    obtain ⟨_, _, _, _, rfl⟩ := RecipientAllowlist.setAllowedRecipients_eq_ok.mp hx
    by_cases hk : k = ⟨smartAccount, contextRuleId⟩
    · subst hk
      rw [Store.has_iff, Store.set_self]
      exact ⟨_, rfl⟩
    · exact (Store.has_congr (Store.set_of_ne s _ hk)).mpr hhas

theorem MultiToken.keepsEntries :
    KeepsEntries (fun i => i.call.uninstalls) MultiToken.contract.exec := by
  refine MultiToken.shape.keepsEntries MultiToken.exec_local ?_
  intro env context signers rule account s es s' h
  have henforce : MultiToken.enforce env context signers rule account s = .ok (es, s') := h
  obtain ⟨_, _, _, _, _, data', _, _, _, _, _, rfl⟩ := MultiToken.enforce_eq_ok.mp henforce
  rw [Store.has_iff, Store.set_self]
  exact ⟨data', rfl⟩

/-- In each of the four policies an installed entry lives, until it is
uninstalled, by the lease of the `enforce` calls and the views of its key that
succeed.  The installation itself does not extend it. -/
theorem policy_entry_lifetime (ttl : TtlRule) :
    LivesByLease (Session.expiry ttl) Session.contract.exec (fun i => i.call.uninstalls) ∧
    LivesByLease (ParameterScoped.expiry ttl) ParameterScoped.contract.exec
      (fun i => i.call.uninstalls) ∧
    LivesByLease (RecipientAllowlist.expiry ttl) RecipientAllowlist.exec
      (fun i => i.call.uninstalls) ∧
    LivesByLease (MultiToken.expiry ttl) MultiToken.contract.exec
      (fun i => i.call.uninstalls) := by
  refine ⟨?_, ?_, ?_, ?_⟩
  · exact livesByLease_of_keeps Session.shape.keepsEntries (fun _ _ => Iff.rfl) rfl rfl
  · exact livesByLease_of_keeps ParameterScoped.shape.keepsEntries (fun _ _ => Iff.rfl) rfl rfl
  · exact livesByLease_of_keeps RecipientAllowlist.keepsEntries (fun _ _ => Iff.rfl) rfl rfl
  · exact livesByLease_of_keeps MultiToken.keepsEntries (fun _ _ => Iff.rfl) rfl rfl

end LatchContracts.Policies
