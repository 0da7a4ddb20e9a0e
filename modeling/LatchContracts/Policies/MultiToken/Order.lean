import LatchContracts.Lib.Bisimulation
import LatchContracts.Policies.MultiToken.Batch
import LatchContracts.Policies.MultiToken.Saturation

/-!
# The order of the transfers in a transaction

Whether a batch of transfers stands is a matter of its sum, so the order does not
matter for the verdict.  It does for the storage, where the transfers stand in the
history in the order they came.

`batch_order_irrelevant` says that nobody can use the difference: after one order
and after another one, every later run is answered alike.  `Regrouped` is the
relation behind it.  Two histories consist of the same entries, and only entries of
one ledger may have changed places.  These are evicted together, so the eviction
cannot tell the two apart.
-/

namespace LatchContracts.Policies.MultiToken

open LatchContracts.Lib LatchContracts.Host

/-! ## Histories that differ in the order within a ledger -/

/-- The same groups of entries, where each group is of one ledger and its entries
may stand in another order. -/
inductive Regrouped : List SpendingEntry → List SpendingEntry → Prop
  | nil : Regrouped [] []
  | group {t : U32} {group group' rest rest' : List SpendingEntry} (hperm : group.Perm group')
      (hledger : ∀ e ∈ group, e.ledger = t) (hrest : Regrouped rest rest') :
      Regrouped (group ++ rest) (group' ++ rest')

namespace Regrouped

variable {l l' m m' : List SpendingEntry}

theorem refl : ∀ l, Regrouped l l
  | [] => .nil
  | e :: l => .group (.refl [e]) (fun _ h => by rw [List.mem_singleton.mp h]) (refl l)

theorem append (h : Regrouped l l') (hm : Regrouped m m') : Regrouped (l ++ m) (l' ++ m') := by
  induction h with
  | nil => exact hm
  | group hperm hledger _ ih =>
    rw [List.append_assoc, List.append_assoc]
    exact .group hperm hledger ih

theorem perm (h : Regrouped l l') : l.Perm l' := by
  induction h with
  | nil => exact .nil
  | group hperm _ _ ih => exact hperm.append ih

end Regrouped

section Eviction

variable {cutoff t : U32} {group group' rest : List SpendingEntry}

theorem removedTotal_perm (hperm : group.Perm group')
    (hnonneg : ∀ e ∈ group, 0 ≤ e.amountUsd.val) (start : I128) :
    removedTotal group start = removedTotal group' start := by
  have hamounts : ∀ u ∈ group.map SpendingEntry.amountUsd, 0 ≤ u.val := by
    intro u hu
    obtain ⟨e, he, rfl⟩ := List.mem_map.mp hu
    exact hnonneg e he
  have hfold := Bounded.foldl_saturatingAdd_perm (hperm.map _) hamounts start
  rwa [List.foldl_map, List.foldl_map] at hfold

/-- A group before the cutoff is evicted as a whole. -/
theorem evict_group (hledger : ∀ e ∈ group, e.ledger = t) (hle : t ≤ cutoff)
    (rest : List SpendingEntry) (removed : I128) :
    evict cutoff (group ++ rest) removed = evict cutoff rest (removedTotal group removed) := by
  have hold : ∀ e ∈ group, decide (e.ledger ≤ cutoff) = true := by
    intro e he
    rw [hledger e he]
    exact decide_eq_true hle
  rw [evict_eq, evict_eq, List.dropWhile_append_of_pos hold, List.takeWhile_append_of_pos hold]
  unfold removedTotal
  rw [List.foldl_append]

/-- Eviction cannot tell regrouped histories apart. -/
theorem evict_regrouped {l l' : List SpendingEntry} (h : Regrouped l l')
    (hnonneg : ∀ e ∈ l, 0 ≤ e.amountUsd.val) (cutoff : U32) (removed : I128) :
    Regrouped (evict cutoff l removed).1 (evict cutoff l' removed).1 ∧
      (evict cutoff l removed).2 = (evict cutoff l' removed).2 := by
  induction h generalizing removed with
  | nil => exact ⟨.nil, rfl⟩
  | @group t group group' rest rest' hperm hledger hrest ih =>
    obtain ⟨hgroup, htail⟩ := List.forall_mem_append.mp hnonneg
    by_cases hle : t ≤ cutoff
    · have hledger' : ∀ e ∈ group', e.ledger = t := fun e he => hledger e (hperm.mem_iff.mpr he)
      rw [evict_group hledger hle, evict_group hledger' hle, removedTotal_perm hperm hgroup]
      exact ih htail _
    · cases group with
      | nil =>
        rw [← hperm.nil_eq]
        exact ih htail _
      | cons e group =>
        -- both stop at the first entry of the group
        cases group' with
        | nil => cases hperm.eq_nil
        | cons e' group' =>
          have hfirst : cutoff < e.ledger := by
            rw [hledger e List.mem_cons_self]
            exact not_le.mp hle
          have hfirst' : cutoff < e'.ledger := by
            rw [hledger e' (hperm.mem_iff.mpr List.mem_cons_self)]
            exact not_le.mp hle
          rw [List.cons_append, List.cons_append, evict_of_lt hfirst, evict_of_lt hfirst']
          exact ⟨.group hperm hledger hrest, rfl⟩

end Eviction

/-! ## Storage that no call tells apart -/

/-- The same data with a regrouped history. -/
structure Reordered (d d' : PolicyData) : Prop where
  consistent : Consistent d
  history : Regrouped d.spendingHistory d'.spendingHistory
  rest : d' = { d with spendingHistory := d'.spendingHistory }

/-- The same keys with the same data, up to the order within a ledger. -/
def SameUpToOrder (s t : Entries PolicyData) : Prop := ∀ k, Option.Rel Reordered (s k) (t k)

/-- The same answer, up to the order within a ledger. -/
inductive SameReply : Reply Empty PolicyData → Reply Empty PolicyData → Prop
  | events (es : List Empty) : SameReply (.events es) (.events es)
  | value {d d' : PolicyData} (h : Reordered d d') : SameReply (.value d) (.value d')

section Alike

variable {s t : Entries PolicyData} {d d' : PolicyData} {k : AccountContext}

theorem SameUpToOrder.set (h : SameUpToOrder s t) (k : AccountContext) (hd : Reordered d d') :
    SameUpToOrder (s.set k d) (t.set k d') := by
  intro k'
  by_cases hk : k' = k
  · subst hk
    rw [Store.set_self, Store.set_self]
    exact .some hd
  · rw [Store.set_of_ne s d hk, Store.set_of_ne t d' hk]
    exact h k'

theorem SameUpToOrder.remove (h : SameUpToOrder s t) (k : AccountContext) :
    SameUpToOrder (s.remove k) (t.remove k) := by
  intro k'
  by_cases hk : k' = k
  · subst hk
    rw [Store.remove_self, Store.remove_self]
    exact .none
  · rw [Store.remove_of_ne s hk, Store.remove_of_ne t hk]
    exact h k'

theorem SameUpToOrder.has_iff (h : SameUpToOrder s t) (k : AccountContext) :
    s.has k ↔ t.has k := by
  have hk := h k
  unfold Store.has
  generalize s k = o at hk ⊢
  generalize t k = o' at hk ⊢
  cases hk with
  | none => exact Iff.rfl
  | some _ => exact Iff.rfl

theorem getEntry_alike (h : SameUpToOrder s t) (ruleId : U32) (account : Address) :
    Alike Reordered (getPolicyData ruleId account s) (getPolicyData ruleId account t) := by
  have hk := h ⟨account, ruleId⟩
  unfold getPolicyData getEntry
  generalize s ⟨account, ruleId⟩ = o at hk ⊢
  generalize t ⟨account, ruleId⟩ = o' at hk ⊢
  cases hk with
  | none => exact .error _
  | some hd => exact .ok hd

theorem recordSpend_alike (h : Reordered d d') (t : U32) {usd : I128} (husd : 0 ≤ usd.val) :
    Alike Reordered (recordSpend d t usd) (recordSpend d' t usd) := by
  obtain ⟨hconsistent, hhistory, hrest⟩ := h
  generalize d'.spendingHistory = history' at hhistory hrest
  subst hrest
  obtain ⟨hkept, hremoved⟩ := evict_regrouped hhistory hconsistent.nonneg
    (t.saturatingSub d.periodLedgers) 0
  have hlength := hkept.perm.length_eq
  have hrecord : ∀ x, recordSpend d t usd = .ok x → Consistent x := by
    intro x hx
    exact recordSpend_consistent hconsistent husd hx
  unfold recordSpend cleanupOldEntries at hrecord ⊢
  dsimp only at hrecord ⊢
  rw [← hremoved, ← hlength]
  refine Alike.bind_same _ (fun _ hcap => Alike.bind_same _ (fun _ hroom => .pure ?_))
  refine ⟨hrecord _ ?_, hkept.append (.refl _), rfl⟩
  rw [hcap, hroom]
  rfl

/-- The value of a transfer does not depend on the history. -/
theorem priceTransfer_reordered (h : Reordered d d') (env : OracleEnv) (target : Address)
    (amount : I128) : priceTransfer env d' target amount = priceTransfer env d target amount := by
  rw [h.rest]
  rfl

/-- `enforce` on two storages. -/
theorem enforce_alike (h : SameUpToOrder s t) (env : OracleEnv) (context : Context)
    (signers : List Signer) (rule : ContextRule) (account : Address) :
    Alike (fun p q => p.1 = q.1 ∧ SameUpToOrder p.2 q.2)
      (enforce env context signers rule account s)
      (enforce env context signers rule account t) := by
  unfold enforce
  refine Alike.bind_same _ (fun _ _ => Alike.bind_same _ (fun transfer hparse => ?_))
  refine Alike.bind (getEntry_alike h rule.id account) (fun d d' hd => ?_)
  rw [priceTransfer_reordered hd]
  refine Alike.bind_same _ (fun usd hprice => ?_)
  have husd : 0 ≤ usd.val := usd_nonneg hd.consistent hparse hprice
  refine Alike.bind (recordSpend_alike hd env.sequence husd) (fun d₁ d₁' hd₁ => ?_)
  exact .pure ⟨rfl, h.set _ hd₁⟩

theorem install_alike (h : SameUpToOrder s t) (env : OracleEnv) (params : AccountParams)
    (rule : ContextRule) (account : Address) :
    Alike (fun p q => p.1 = q.1 ∧ SameUpToOrder p.2 q.2)
      (install env params rule account s) (install env params rule account t) := by
  unfold install installEntry
  refine Alike.bind_same _ (fun _ _ => Alike.bind_same _ (fun _ _ => Alike.bind_same _
    (fun _ _ => ?_)))
  rw [ensure_congr (not_congr (h.has_iff ⟨account, rule.id⟩))]
  refine Alike.bind_same _ (fun _ _ => Alike.bind_same _ (fun d hd => ?_))
  have hsame : Reordered d d := ⟨initialData_consistent hd, .refl _, rfl⟩
  exact .pure ⟨rfl, h.set _ hsame⟩

theorem uninstall_alike (h : SameUpToOrder s t) (env : OracleEnv) (rule : ContextRule)
    (account : Address) :
    Alike (fun p q => p.1 = q.1 ∧ SameUpToOrder p.2 q.2)
      (uninstall env rule account s) (uninstall env rule account t) := by
  unfold uninstall uninstallEntry
  refine Alike.bind_same _ (fun _ _ => ?_)
  rw [ensure_congr (h.has_iff ⟨account, rule.id⟩)]
  exact Alike.bind_same _ (fun _ _ => .pure ⟨rfl, h.remove _⟩)

/-- No call tells apart storages that differ in the order within a ledger. -/
theorem bisimulation_sameUpToOrder : Bisimulation contract.exec SameReply SameUpToOrder := by
  intro i s t h
  obtain ⟨env, call⟩ := i
  have hreply : ∀ p q : List Empty × Entries PolicyData,
      p.1 = q.1 ∧ SameUpToOrder p.2 q.2 →
        SameReply (.events p.1) (.events q.1) ∧ SameUpToOrder p.2 q.2 := by
    intro p q hpq
    rw [hpq.1]
    exact ⟨.events q.1, hpq.2⟩
  cases call with
  | install params rule account => exact (install_alike h env params rule account).map hreply
  | uninstall rule account => exact (uninstall_alike h env rule account).map hreply
  | enforce context signers rule account =>
    exact (enforce_alike h env context signers rule account).map hreply
  | get ruleId account =>
    exact (getEntry_alike h ruleId account).map (fun _ _ hd => ⟨.value hd, h⟩)

end Alike

/-! ## The order of a batch -/

section Order

variable {s : Entries PolicyData} {data : PolicyData} {rule : ContextRule} {account : Address}
  {calls calls' : List Transfer} {t : U32}

theorem foldl_spend (us : List I128) (data : PolicyData) :
    us.foldl (spend t) data =
      { data with
        spendingHistory := data.spendingHistory ++ us.map (fun u => ⟨u, t⟩)
        cachedTotalSpentUsd := us.foldl Bounded.saturatingAdd data.cachedTotalSpentUsd } := by
  induction us generalizing data with
  | nil =>
    rw [List.map_nil, List.append_nil]
    rfl
  | cons u us ih =>
    rw [List.foldl_cons, ih, List.map_cons, List.foldl_cons]
    simp only [spend, List.append_assoc, List.singleton_append]

/-- Entries of one ledger in two orders. -/
theorem reordered_of_perm {us us' : List I128} (hperm : us.Perm us')
    (hnonneg : ∀ u ∈ us, 0 ≤ u.val) (h : Consistent (us.foldl (spend t) data)) :
    Reordered (us.foldl (spend t) data) (us'.foldl (spend t) data) := by
  refine ⟨h, ?_, ?_⟩
  · rw [foldl_spend, foldl_spend]
    refine (Regrouped.refl data.spendingHistory).append ?_
    have hledger : ∀ e ∈ us.map (fun u => (⟨u, t⟩ : SpendingEntry)), e.ledger = t := by
      intro e he
      obtain ⟨u, _, rfl⟩ := List.mem_map.mp he
      rfl
    have hgroup := Regrouped.group (hperm.map _) hledger .nil
    rwa [List.append_nil, List.append_nil] at hgroup
  · rw [foldl_spend, foldl_spend, Bounded.foldl_saturatingAdd_perm hperm hnonneg]

/-- A batch on data that was just evicted appends its entries. -/
theorem run_batch_of_fresh (h : Consistent data) (hperiod : 0 < data.periodLedgers.val)
    (hone : 1 ≤ t.val) (hledger : ∀ c ∈ calls, c.env.sequence = t)
    (hfresh : freshen t data = data) (hdata : s ⟨account, rule.id⟩ = some data)
    (hstands : Stands (batch rule account calls) s) :
    run contract.exec (batch rule account calls) s =
      s.set ⟨account, rule.id⟩ ((calls.map (Transfer.dollars data)).foldl (spend t) data) := by
  induction calls generalizing s data with
  | nil => exact (Function.update_eq_self_iff.mpr hdata.symm).symm
  | cons c calls ih =>
    obtain ⟨hfirst, hlater⟩ := List.forall_mem_cons.mp hledger
    obtain ⟨haccepted, hrest⟩ := stands_cons.mp hstands
    obtain ⟨hconsistent, hpost⟩ := enforce_post h hdata hfirst haccepted
    rw [hpost] at hrest
    have hrun := ih hconsistent hperiod hlater (freshen_spend hone hperiod)
      (Store.set_self _ _ _) hrest
    show run contract.exec (batch rule account calls) (settle contract.exec _ s).post = _
    rw [hpost, hrun, hfresh]
    exact Function.update_idem _ _ _

/-- The data after a batch. -/
theorem run_batch (h : Consistent data) (hperiod : 0 < data.periodLedgers.val)
    (hone : 1 ≤ t.val) (hledger : ∀ c ∈ calls, c.env.sequence = t)
    (hdata : s ⟨account, rule.id⟩ = some data) (hne : calls ≠ [])
    (hstands : Stands (batch rule account calls) s) :
    run contract.exec (batch rule account calls) s = s.set ⟨account, rule.id⟩
      ((calls.map (Transfer.dollars data)).foldl (spend t) (freshen t data)) := by
  cases calls with
  | nil => exact absurd rfl hne
  | cons c calls =>
    obtain ⟨hfirst, hlater⟩ := List.forall_mem_cons.mp hledger
    obtain ⟨haccepted, hrest⟩ := stands_cons.mp hstands
    obtain ⟨hconsistent, hpost⟩ := enforce_post h hdata hfirst haccepted
    rw [hpost] at hrest
    have hrun := run_batch_of_fresh hconsistent hperiod hone hlater (freshen_spend hone hperiod)
      (Store.set_self _ _ _) hrest
    show run contract.exec (batch rule account calls) (settle contract.exec _ s).post = _
    rw [hpost, hrun]
    exact Function.update_idem _ _ _

theorem stands_perm (hs : Reachable contract.exec Store.empty s) (hone : 1 ≤ t.val)
    (hledger : ∀ c ∈ calls, c.env.sequence = t) (hperm : calls.Perm calls')
    (hstands : Stands (batch rule account calls) s) : Stands (batch rule account calls') s := by
  by_cases hne : calls = []
  · subst hne
    rw [← hperm.nil_eq]
    exact hstands
  · obtain ⟨data, hdata⟩ := installed_of_stands hne hstands
    have hconsistent : Consistent data := consistent_reachable hs _ _ hdata
    have hperiod : 0 < data.periodLedgers.val := period_pos_reachable hs _ _ hdata
    have hledger' : ∀ c ∈ calls', c.env.sequence = t :=
      fun c hc => hledger c (hperm.mem_iff.mpr hc)
    obtain ⟨hvalued, hroom⟩ := (stands_iff hconsistent hperiod hone hledger hdata).mp hstands
    refine (stands_iff hconsistent hperiod hone hledger' hdata).mpr ⟨?_, fun _ => ?_⟩
    · intro c hc
      exact hvalued c (hperm.mem_iff.mpr hc)
    · rw [← (hperm.map _).sum_eq, ← hperm.length_eq]
      exact hroom hne

theorem sameUpToOrder_refl (h : s.All Consistent) : SameUpToOrder s s := by
  intro k
  cases hk : s k with
  | none => exact .none
  | some d => exact .some ⟨h k d hk, .refl _, rfl⟩

theorem reachable_run (hs : Reachable contract.exec Store.empty s) (is : List Input) :
    Reachable contract.exec Store.empty (run contract.exec is s) := by
  obtain ⟨before, rfl⟩ := hs
  exact ⟨before ++ is, run_append before is Store.empty⟩

/-- Two orders of a batch lead to storages that no call tells apart. -/
theorem sameUpToOrder_of_perm (hs : Reachable contract.exec Store.empty s) (hone : 1 ≤ t.val)
    (hledger : ∀ c ∈ calls, c.env.sequence = t) (hperm : calls.Perm calls')
    (hstands : Stands (batch rule account calls) s) :
    SameUpToOrder (run contract.exec (batch rule account calls) s)
      (run contract.exec (batch rule account calls') s) := by
  have hall : s.All Consistent := consistent_reachable hs
  by_cases hne : calls = []
  · subst hne
    rw [← hperm.nil_eq]
    exact sameUpToOrder_refl hall
  · obtain ⟨data, hdata⟩ := installed_of_stands hne hstands
    have hperiod : 0 < data.periodLedgers.val := period_pos_reachable hs _ _ hdata
    have hne' : calls' ≠ [] := fun h => hne (by rw [h] at hperm; exact hperm.eq_nil)
    have hledger' : ∀ c ∈ calls', c.env.sequence = t :=
      fun c hc => hledger c (hperm.mem_iff.mpr hc)
    have hstands' := stands_perm hs hone hledger hperm hstands
    have hafter := consistent_reachable (reachable_run hs (batch rule account calls))
    rw [run_batch (hall _ _ hdata) hperiod hone hledger hdata hne hstands] at hafter ⊢
    rw [run_batch (hall _ _ hdata) hperiod hone hledger' hdata hne' hstands']
    refine (sameUpToOrder_refl hall).set _ (reordered_of_perm (hperm.map _) ?_
      (hafter _ _ (Store.set_self _ _ _)))
    intro u hu
    obtain ⟨c, _, rfl⟩ := List.mem_map.mp hu
    exact dollars_nonneg (hall _ _ hdata) c

end Order

/-- In every reachable state, whether a batch of transfers at one ledger stands
does not depend on the order of the transfers.  If it stands, every later run is
answered alike after one order and after the other one, but for the order in which
`get_policy_data` shows the entries of a ledger. -/
theorem batch_order_irrelevant {s : Entries PolicyData}
    (hs : Reachable contract.exec Store.empty s) {rule : ContextRule} {account : Address}
    {calls calls' : List Transfer} {t : U32} (hone : 1 ≤ t.val)
    (hledger : ∀ c ∈ calls, c.env.sequence = t) (hperm : calls.Perm calls') :
    (Stands (batch rule account calls) s ↔ Stands (batch rule account calls') s) ∧
    (Stands (batch rule account calls) s → ∀ later,
      List.Forall₂ (AnsweredAlike SameReply)
        (trace contract.exec later (run contract.exec (batch rule account calls) s))
        (trace contract.exec later (run contract.exec (batch rule account calls') s))) := by
  have hledger' : ∀ c ∈ calls', c.env.sequence = t :=
    fun c hc => hledger c (hperm.mem_iff.mpr hc)
  refine ⟨⟨stands_perm hs hone hledger hperm, stands_perm hs hone hledger' hperm.symm⟩, ?_⟩
  intro hstands later
  exact bisimulation_sameUpToOrder.trace (sameUpToOrder_of_perm hs hone hledger hperm hstands) later

/-- The second transfer first. -/
theorem batch_order_irrelevant_sample :
    Stands (batch sampleRule sampleAccount sampleBatch.reverse) sampleInstalled ∧
    ∀ later, List.Forall₂ (AnsweredAlike SameReply)
      (trace contract.exec later
        (run contract.exec (batch sampleRule sampleAccount sampleBatch) sampleInstalled))
      (trace contract.exec later
        (run contract.exec (batch sampleRule sampleAccount sampleBatch.reverse)
          sampleInstalled)) := by
  have hstands : Stands (batch sampleRule sampleAccount sampleBatch) sampleInstalled := by
    refine stands_cons.mpr ⟨⟨_, rfl⟩, stands_cons.mpr ⟨⟨_, rfl⟩, ?_⟩⟩
    intro c hc
    cases hc
  have hreachable : Reachable contract.exec Store.empty sampleInstalled := ⟨_, rfl⟩
  have hone : 1 ≤ (7 : U32).val := by decide
  have horder := @batch_order_irrelevant _ hreachable sampleRule sampleAccount _ _ _ hone
    sampleBatch_ledger sampleBatch.reverse_perm.symm
  exact ⟨horder.1.mp hstands, horder.2 hstands⟩

end LatchContracts.Policies.MultiToken
