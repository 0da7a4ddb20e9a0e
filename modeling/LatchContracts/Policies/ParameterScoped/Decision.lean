import LatchContracts.Policies.ParameterScoped.Model

/-!
# What the parameter-scoped policy accepts

`Condition.Holds` says what one condition asks of an argument, in terms of the
integers for the six numeric types and of equality for symbols and addresses.
`passed_iff` says that a round of the loop decides it, and
`checkConditions_eq_ok` and `checkConditions_eq_error` say that the loop is the
conjunction of its conditions, with the error of the first one that fails.

`ValidConfig` is what the checks of `install` establish.  It is an invariant of
the storage, since `install` is the only entrypoint that writes an entry.
-/

namespace LatchContracts.Policies.ParameterScoped

open LatchContracts.Lib LatchContracts.Host

/-! ## What a condition asks -/

/-- The relation between two integers that an operator names. -/
def Operator.Rel (op : Operator) (actual expected : ℤ) : Prop :=
  match op with
  | .eq => actual = expected
  | .neq => actual ≠ expected
  | .gt => expected < actual
  | .gte => expected ≤ actual
  | .lt => actual < expected
  | .lte => actual ≤ expected

/-- The relation between two values without an order that an operator names.
An ordering operator names none. -/
def Operator.EqRel {T : Type} (op : Operator) (actual expected : T) : Prop :=
  op = .eq ∧ actual = expected ∨ op = .neq ∧ actual ≠ expected

/-- The argument has exactly the expected type and stands in the operator's
relation to the expected value. -/
def Condition.Holds (cond : Condition) (arg : Val) : Prop :=
  match cond.expectedValue with
  | .u32 expected => ∃ n, arg = .u32 n ∧ cond.operator.Rel n.val expected.val
  | .i32 expected => ∃ n, arg = .i32 n ∧ cond.operator.Rel n.val expected.val
  | .u64 expected => ∃ n, arg = .u64 n ∧ cond.operator.Rel n.val expected.val
  | .i64 expected => ∃ n, arg = .i64 n ∧ cond.operator.Rel n.val expected.val
  | .u128 expected => ∃ n, arg = .u128 n ∧ cond.operator.Rel n.val expected.val
  | .i128 expected => ∃ n, arg = .i128 n ∧ cond.operator.Rel n.val expected.val
  | .sym expected => ∃ x, arg = .symbol x ∧ cond.operator.EqRel x expected
  | .addr expected => ∃ a, arg = .address a ∧ cond.operator.EqRel a expected

/-- The argument that the condition names exists and meets it. -/
def Condition.SatisfiedBy (cond : Condition) (args : List Val) : Prop :=
  ∃ arg, argAt args cond.argIndex = some arg ∧ cond.Holds arg

/-- The argument is a value of the type of the expected value. -/
def ExpectedValue.sameType : ExpectedValue → Val → Bool
  | .u32 _, .u32 _ => true
  | .i32 _, .i32 _ => true
  | .u64 _, .u64 _ => true
  | .i64 _, .i64 _ => true
  | .u128 _, .u128 _ => true
  | .i128 _, .i128 _ => true
  | .sym _, .symbol _ => true
  | .addr _, .address _ => true
  | _, _ => false

/-- No operator holds of an argument of another type. -/
theorem Condition.Holds.sameType {cond : Condition} {arg : Val} (h : cond.Holds arg) :
    cond.expectedValue.sameType arg = true := by
  unfold Condition.Holds at h
  cases hv : cond.expectedValue <;> rw [hv] at h <;> obtain ⟨_, rfl, _⟩ := h <;> rfl

/-- The error of a condition that the arguments do not meet. -/
def Condition.failure (cond : Condition) (args : List Val) : ParameterScopedError :=
  if argAt args cond.argIndex = none then .argumentIndexOutOfBounds else .conditionFailed

/-! ## The loop decides the conditions -/

theorem compareOrd_iff {lo hi : ℤ} {tryIntoVal : Val → Option (Bounded lo hi)} {arg : Val}
    {expected : Bounded lo hi} {op : Operator} :
    compareOrd tryIntoVal arg expected op = true ↔
      ∃ n, tryIntoVal arg = some n ∧ op.Rel n.val expected.val := by
  unfold compareOrd
  cases tryIntoVal arg with
  | none => simp
  | some n =>
    simp only [Option.some.injEq, exists_eq_left']
    cases op <;> simp [Operator.Rel, Bounded.ext_iff, Bounded.le_def, Bounded.lt_def]

theorem compareEq_iff {T : Type} [DecidableEq T] {tryIntoVal : Val → Option T} {arg : Val}
    {expected : T} {op : Operator} :
    compareEq tryIntoVal arg expected op = true ↔
      ∃ n, tryIntoVal arg = some n ∧ op.EqRel n expected := by
  unfold compareEq
  cases tryIntoVal arg with
  | none => simp
  | some n => cases op <;> simp [Operator.EqRel]

/-- One round of the loop decides its condition. -/
theorem passed_iff {arg : Val} {cond : Condition} : passed arg cond = true ↔ cond.Holds arg := by
  unfold passed Condition.Holds
  cases cond.expectedValue <;> simp only [compareOrd_iff, compareEq_iff] <;>
    cases arg <;> simp [Val.toU32?, Val.toI32?, Val.toU64?, Val.toI64?, Val.toU128?, Val.toI128?,
      Val.toSymbol?, Val.toAddress?]

/-- The loop accepts exactly when every condition is met. -/
theorem checkConditions_eq_ok {args : List Val} {conds : List Condition} :
    checkConditions args conds = .ok () ↔ ∀ cond ∈ conds, cond.SatisfiedBy args := by
  induction conds with
  | nil => simp [checkConditions, pure, Except.pure]
  | cons cond rest ih =>
    rw [checkConditions, unwrapOr_bind_eq_ok, List.forall_mem_cons, ← ih]
    simp only [ensure_bind_eq_ok, passed_iff, Condition.SatisfiedBy]
    constructor
    · intro h
      rcases h with ⟨arg, harg, hholds, hrest⟩
      exact ⟨⟨arg, harg, hholds⟩, hrest⟩
    · intro h
      rcases h with ⟨⟨arg, harg, hholds⟩, hrest⟩
      exact ⟨arg, harg, hholds, hrest⟩

/-- The loop stops at a condition that is not met, with that condition's
error. -/
theorem checkConditions_of_not_satisfied {args : List Val} {cond : Condition}
    (h : ¬ cond.SatisfiedBy args) (rest : List Condition) :
    checkConditions args (cond :: rest) = .error (.contract (cond.failure args)) := by
  rw [checkConditions, Condition.failure]
  cases harg : argAt args cond.argIndex with
  | none => rw [unwrapOr_none_bind, if_pos rfl]
  | some arg =>
    have hnot : ¬ passed arg cond = true := fun hp => h ⟨arg, harg, passed_iff.mp hp⟩
    rw [unwrapOr_some_bind, ensure_false_bind hnot, if_neg (by simp)]

/-- A condition that is met lets the loop go on. -/
theorem checkConditions_of_satisfied {args : List Val} {cond : Condition}
    (h : cond.SatisfiedBy args) (rest : List Condition) :
    checkConditions args (cond :: rest) = checkConditions args rest := by
  obtain ⟨arg, harg, hholds⟩ := h
  rw [checkConditions, harg, unwrapOr_some_bind, ensure_true_bind (passed_iff.mpr hholds)]

/-- The loop fails exactly when some condition is not met, and the error is that
of the first such condition in list order. -/
theorem checkConditions_eq_error {args : List Val} {conds : List Condition}
    {e : Fault ParameterScopedError} :
    checkConditions args conds = .error e ↔
      ∃ before cond after, conds = before ++ cond :: after ∧
        (∀ c ∈ before, c.SatisfiedBy args) ∧ ¬ cond.SatisfiedBy args ∧
          e = .contract (cond.failure args) := by
  induction conds with
  | nil => simp [checkConditions, pure, Except.pure]
  | cons c rest ih =>
    by_cases hc : c.SatisfiedBy args
    · rw [checkConditions_of_satisfied hc, ih]
      constructor
      · intro h'
        rcases h' with ⟨before, cond, after, rfl, hbefore, hcond, he⟩
        exact ⟨c :: before, cond, after, rfl, List.forall_mem_cons.mpr ⟨hc, hbefore⟩, hcond, he⟩
      · intro h'
        rcases h' with ⟨before, cond, after, hsplit, hbefore, hcond, he⟩
        cases before with
        | nil =>
          have hhead : c = cond := (List.cons.inj hsplit).1
          exact absurd (hhead ▸ hc) hcond
        | cons b before =>
          have htail : rest = before ++ cond :: after := (List.cons.inj hsplit).2
          exact ⟨before, cond, after, htail, (List.forall_mem_cons.mp hbefore).2, hcond, he⟩
    · rw [checkConditions_of_not_satisfied hc]
      constructor
      · intro h
        exact ⟨[], c, rest, rfl, by simp, hc, (Except.error.inj h).symm⟩
      · intro h'
        rcases h' with ⟨before, cond, after, hsplit, hbefore, -, rfl⟩
        cases before with
        | nil =>
          have hhead : c = cond := (List.cons.inj hsplit).1
          rw [hhead]
        | cons b before =>
          have hhead : c = b := (List.cons.inj hsplit).1
          exact absurd (hhead ▸ hbefore b List.mem_cons_self) hc

/-! ## The verdict of `enforce` -/

/-- The call names a configured function and meets its conditions. -/
def Describes (data : ParameterScopedData) (context : Context) : Prop :=
  ∃ c conds, context = .contract c ∧ data.conditions.lookup c.fnName = some conds ∧
    ∀ cond ∈ conds, cond.SatisfiedBy c.args

theorem checkContext_eq_ok {context : Context} {rule : ContextRule} {account : Address}
    {data : ParameterScopedData} :
    (∃ es, checkContext context rule account data = .ok es) ↔ Describes data context := by
  unfold Describes
  cases context with
  | contract c =>
    simp only [checkContext, bind_eq_ok, unwrapOr_eq_ok, pure_eq_ok]
    constructor
    · intro h
      rcases h with ⟨es, conds, hlookup, ⟨⟩, hconds, -⟩
      exact ⟨c, conds, rfl, hlookup, checkConditions_eq_ok.mp hconds⟩
    · intro h
      rcases h with ⟨_, conds, ⟨⟩, hlookup, hconds⟩
      exact ⟨_, conds, hlookup, (), checkConditions_eq_ok.mpr hconds, rfl⟩
  | createContractHostFn => simp [checkContext, throw_ne_ok]
  | createContractWithCtorHostFn => simp [checkContext, throw_ne_ok]

theorem enforce_eq_ok {env : Env} {context : Context} {signers : List Signer}
    {rule : ContextRule} {account : Address} {s : Entries ParameterScopedData} :
    (∃ r, enforce env context signers rule account s = .ok r) ↔
      env.auth account = true ∧ signers ≠ [] ∧
        ∃ data, s ⟨account, rule.id⟩ = some data ∧ Describes data context := by
  simp only [enforce, Prod.exists, guardedEnforce_eq_ok]
  constructor
  · intro h
    rcases h with ⟨es, _, hauth, hsigners, rfl, data, hdata, hok⟩
    exact ⟨hauth, hsigners, data, hdata, checkContext_eq_ok.mp ⟨es, hok⟩⟩
  · intro h
    rcases h with ⟨hauth, hsigners, data, hdata, hdesc⟩
    obtain ⟨es, hok⟩ := checkContext_eq_ok.mpr hdesc
    exact ⟨es, s, hauth, hsigners, rfl, data, hdata, hok⟩

/-- After the function was found, the error is that of the condition loop. -/
theorem enforce_of_lookup {env : Env} {c : ContractContext} {signers : List Signer}
    {rule : ContextRule} {account : Address} {s : Entries ParameterScopedData}
    {data : ParameterScopedData} {conds : List Condition} (hauth : env.auth account = true)
    (hsigners : signers ≠ []) (hdata : s ⟨account, rule.id⟩ = some data)
    (hlookup : data.conditions.lookup c.fnName = some conds) (e : Fault ParameterScopedError) :
    enforce env (.contract c) signers rule account s = .error e ↔
      checkConditions c.args conds = .error e := by
  unfold enforce guardedEnforce Env.requireAuth getEntry
  rw [ensure_true_bind hauth, ensure_true_bind hsigners, hdata, unwrapOr_some_bind]
  simp only [checkContext, hlookup, unwrapOr_some_bind]
  cases checkConditions c.args conds with
  | error e' => simp [bind, Except.bind]
  | ok u => simp [bind, Except.bind, pure, Except.pure]

/-! ## What `install` stores -/

/-- A configuration that `install` accepts: 1 to 10 functions, each with 1 to 5
conditions, and only equality tests for symbols and addresses. -/
structure ValidConfig (conditions : Conditions) : Prop where
  fns_pos : 0 < conditions.entries.length
  fns_le : conditions.entries.length ≤ 10
  conds_pos : ∀ f ∈ conditions.entries, 0 < f.2.length
  conds_le : ∀ f ∈ conditions.entries, f.2.length ≤ 5
  operators : ∀ f ∈ conditions.entries, ∀ cond ∈ f.2,
    (∃ x, cond.expectedValue = .sym x) ∨ (∃ a, cond.expectedValue = .addr a) →
      cond.operator = .eq ∨ cond.operator = .neq

theorem operatorFits_iff {cond : Condition} :
    operatorFits cond = true ↔
      ((∃ x, cond.expectedValue = .sym x) ∨ (∃ a, cond.expectedValue = .addr a) →
        cond.operator = .eq ∨ cond.operator = .neq) := by
  unfold operatorFits
  cases cond.expectedValue <;> cases cond.operator <;> simp

theorem checkOperators_eq_ok {conds : List Condition} :
    checkOperators conds = .ok () ↔ ∀ cond ∈ conds, operatorFits cond = true := by
  induction conds with
  | nil => simp [checkOperators, pure, Except.pure]
  | cons cond rest ih =>
    rw [checkOperators, ensure_bind_eq_ok, ih, List.forall_mem_cons]

theorem checkFns_eq_ok {fns : List (Sigma fun _ : Symbol => List Condition)} :
    checkFns fns = .ok () ↔ ∀ f ∈ fns, 0 < f.2.length ∧ f.2.length ≤ 5 ∧
      ∀ cond ∈ f.2, operatorFits cond = true := by
  induction fns with
  | nil => simp [checkFns, pure, Except.pure]
  | cons f rest ih =>
    rw [checkFns, ensure_bind_eq_ok, bind_eq_ok, List.forall_mem_cons, ← ih]
    rw [not_or, not_lt, ← ne_eq, ← List.length_pos_iff, maxConditionsPerFn]
    constructor
    · intro h
      rcases h with ⟨⟨hpos, hle⟩, ⟨⟩, hops, hrest⟩
      exact ⟨⟨hpos, hle, checkOperators_eq_ok.mp hops⟩, hrest⟩
    · intro h
      rcases h with ⟨⟨hpos, hle, hops⟩, hrest⟩
      exact ⟨⟨hpos, hle⟩, (), checkOperators_eq_ok.mpr hops, hrest⟩

theorem validConfig_of_checkParams {params : ParameterScopedAccountParams}
    (h : checkParams params = .ok ()) : ValidConfig params.conditions := by
  rw [checkParams, ensure_bind_eq_ok, checkFns_eq_ok, not_or, not_lt, maxFns] at h
  obtain ⟨⟨hne, hle⟩, hfns⟩ := h
  exact
    { fns_pos := List.length_pos_iff.mpr hne
      fns_le := hle
      conds_pos := fun f hf => (hfns f hf).1
      conds_le := fun f hf => (hfns f hf).2.1
      operators := fun f hf cond hcond => operatorFits_iff.mp ((hfns f hf).2.2 cond hcond) }

/-- Every entry of the storage is a valid configuration. -/
def AllValid (s : Entries ParameterScopedData) : Prop :=
  s.All (fun data => ValidConfig data.conditions)

/-- No entrypoint writes a configuration that is not valid. -/
theorem allValid_step {i : Invocation Env (Call ParameterScopedAccountParams)}
    {s s' : Entries ParameterScopedData} {r : Reply ParameterScopedEvent Conditions}
    (h : AllValid s) (hok : contract.exec i s = .ok (r, s')) : AllValid s' := by
  obtain ⟨env, call⟩ := i
  cases call with
  | install params rule account =>
    obtain ⟨es, -, hok⟩ := reply_eq_ok.mp hok
    obtain ⟨-, -, hparams, -, d, hd, -, rfl⟩ := installEntry_eq_ok.mp hok
    cases hd
    exact Store.All.set h _ (validConfig_of_checkParams hparams)
  | uninstall rule account =>
    obtain ⟨es, -, hok⟩ := reply_eq_ok.mp hok
    obtain ⟨-, -, -, rfl⟩ := uninstallEntry_eq_ok.mp hok
    exact Store.All.remove h _
  | enforce context signers rule account =>
    obtain ⟨es, -, hok⟩ := reply_eq_ok.mp hok
    obtain ⟨-, -, rfl, -⟩ := guardedEnforce_eq_ok.mp hok
    exact h
  | get ruleId account =>
    obtain ⟨rfl, -⟩ := view_eq_ok.mp hok
    exact h

/-- In every reachable state `enforce` accepts exactly the calls that the
installed configuration describes, an argument of another type fails under
every operator, the error is that of the first condition that is not met, and
every stored configuration is valid. -/
theorem enforce_accepts_described {s : Entries ParameterScopedData}
    (hs : Reachable contract.exec Store.empty s) :
    (∀ env context signers rule account,
      (∃ r, enforce env context signers rule account s = .ok r) ↔
        env.auth account = true ∧ signers ≠ [] ∧
          ∃ data, s ⟨account, rule.id⟩ = some data ∧
            ∃ c conds, context = .contract c ∧ data.conditions.lookup c.fnName = some conds ∧
              ∀ cond ∈ conds, cond.SatisfiedBy c.args) ∧
    (∀ env c signers rule account data conds, env.auth account = true → signers ≠ [] →
      s ⟨account, rule.id⟩ = some data → data.conditions.lookup c.fnName = some conds →
      ∀ e, enforce env (.contract c) signers rule account s = .error e ↔
        ∃ before cond after, conds = before ++ cond :: after ∧
          (∀ b ∈ before, b.SatisfiedBy c.args) ∧ ¬ cond.SatisfiedBy c.args ∧
            e = .contract (cond.failure c.args)) ∧
    (∀ env c signers rule account data conds cond arg, s ⟨account, rule.id⟩ = some data →
      data.conditions.lookup c.fnName = some conds → cond ∈ conds →
      argAt c.args cond.argIndex = some arg → cond.expectedValue.sameType arg = false →
      ¬ ∃ r, enforce env (.contract c) signers rule account s = .ok r) ∧
    (∀ k data, s k = some data → ValidConfig data.conditions) := by
  refine ⟨fun env context signers rule account => enforce_eq_ok, ?_, ?_, ?_⟩
  · intro env c signers rule account data conds hauth hsigners hdata hlookup e
    rw [enforce_of_lookup hauth hsigners hdata hlookup e]
    exact checkConditions_eq_error
  · intro env c signers rule account data conds cond arg hdata hlookup hmem harg htype hok
    obtain ⟨-, -, data', hdata', c', conds', hc, hlookup', hall⟩ := enforce_eq_ok.mp hok
    obtain rfl : data = data' := Option.some.inj (hdata.symm.trans hdata')
    obtain rfl : c = c' := Context.contract.inj hc
    obtain rfl : conds = conds' := Option.some.inj (hlookup.symm.trans hlookup')
    obtain ⟨arg', harg', hholds⟩ := hall cond hmem
    obtain rfl : arg = arg' := Option.some.inj (harg.symm.trans harg')
    rw [hholds.sameType] at htype
    cases htype
  · exact hs.invariant (fun i s r s' h hok => allValid_step h hok) (Store.all_empty _)

/-! ## A spender-pinning installation

The first example of the module documentation: `approve` may only name one
spender. -/

def sampleAccount : Address := .contract (BytesN.replicate 32 1)

def sampleDex : Address := .contract (BytesN.replicate 32 2)

def sampleRule : ContextRule := ⟨1, .callContract sampleDex⟩

def sampleEnv : Env := ⟨fun _ => true, 100, 500⟩

def samplePin : Condition := ⟨1, .eq, .addr sampleDex⟩

def sampleParams : ParameterScopedAccountParams :=
  ⟨AList.insert "approve" [samplePin] ∅⟩

def sampleState : Entries ParameterScopedData :=
  run contract.exec [⟨sampleEnv, .install sampleParams sampleRule sampleAccount⟩] Store.empty

theorem enforce_accepts_described_sample :
    ∃ r, enforce sampleEnv
      (.contract ⟨sampleDex, "approve", [.address sampleAccount, .address sampleDex]⟩)
      [.delegated sampleAccount] sampleRule sampleAccount sampleState = .ok r := by
  refine ((enforce_accepts_described ⟨_, rfl⟩).1 _ _ _ _ _).mpr
    ⟨rfl, by simp, ⟨sampleParams.conditions⟩, rfl, _, [samplePin], rfl, rfl, ?_⟩
  intro cond hcond
  obtain rfl : cond = samplePin := List.mem_singleton.mp hcond
  exact ⟨.address sampleDex, rfl, sampleDex, rfl, .inl ⟨rfl, rfl⟩⟩

end LatchContracts.Policies.ParameterScoped
