import LatchContracts.Policies.Entrypoints
import Mathlib.Data.List.AList

/-!
# The parameter-scoped policy

`policies/parameter-scoped-policy/src/conditions.rs`: every function name has a
list of conditions `(arg_index, operator, expected_value)`, and a call is
accepted when each condition of its function holds of its arguments.  A
function with no configured conditions is rejected.

The configuration is a `Map<Symbol, Vec<Condition>>`, here an `AList`: the keys
are distinct, and the order of the entries is not observed, because every
failing check of `install` ends in the same error.
-/

namespace LatchContracts.Policies.ParameterScoped

open LatchContracts.Lib LatchContracts.Host

/-- `Operator`. -/
inductive Operator
  | eq
  | neq
  | gt
  | gte
  | lt
  | lte
  deriving DecidableEq

/-- `ExpectedValue`. -/
inductive ExpectedValue
  | u32 (n : U32)
  | i32 (n : I32)
  | u64 (n : U64)
  | i64 (n : I64)
  | u128 (n : U128)
  | i128 (n : I128)
  | sym (s : Symbol)
  | addr (a : Address)
  deriving DecidableEq

/-- `Condition`. -/
structure Condition where
  argIndex : U32
  operator : Operator
  expectedValue : ExpectedValue
  deriving DecidableEq

/-- `Map<Symbol, Vec<Condition>>`. -/
abbrev Conditions := AList (fun _ : Symbol => List Condition)

/-- `ParameterScopedAccountParams`. -/
structure ParameterScopedAccountParams where
  conditions : Conditions

/-- `ParameterScopedData`. -/
structure ParameterScopedData where
  conditions : Conditions

/-- `ParameterScopedError`. -/
inductive ParameterScopedError
  | smartAccountNotInstalled
  | onlyCallContractAllowed
  | invalidConditions
  | methodNotAllowed
  | conditionFailed
  | alreadyInstalled
  | argumentIndexOutOfBounds
  deriving DecidableEq

/-- The events of the policy. -/
inductive ParameterScopedEvent
  | enforced (smartAccount : Address) (contextRuleId : U32) (fnName : Symbol)
  | installed (smartAccount : Address) (contextRuleId : U32)
  | uninstalled (smartAccount : Address) (contextRuleId : U32)
  deriving DecidableEq

/-- `MAX_FNS`. -/
def maxFns : ℕ := 10

/-- `MAX_CONDITIONS_PER_FN`. -/
def maxConditionsPerFn : ℕ := 5

/-- `get_conditions`. -/
def getConditions (contextRuleId : U32) (smartAccount : Address)
    (s : Entries ParameterScopedData) : Except (Fault ParameterScopedError) Conditions := do
  let data ← getEntry ParameterScopedError.smartAccountNotInstalled contextRuleId smartAccount s
  pure data.conditions

/-- `compare_ord`.  `tryIntoVal` is the conversion to the type of `expected`; a
value of another type fails the condition. -/
def compareOrd {T : Type} [LinearOrder T] (tryIntoVal : Val → Option T) (actualArg : Val)
    (expected : T) (operator : Operator) : Bool :=
  match tryIntoVal actualArg with
  | none => false
  | some actual =>
    match operator with
    | .eq => decide (actual = expected)
    | .neq => decide (actual ≠ expected)
    | .gt => decide (actual > expected)
    | .gte => decide (actual ≥ expected)
    | .lt => decide (actual < expected)
    | .lte => decide (actual ≤ expected)

/-- `compare_eq`, for the types that only support equality. -/
def compareEq {T : Type} [DecidableEq T] (tryIntoVal : Val → Option T) (actualArg : Val)
    (expected : T) (operator : Operator) : Bool :=
  match tryIntoVal actualArg with
  | none => false
  | some actual =>
    match operator with
    | .eq => decide (actual = expected)
    | .neq => decide (actual ≠ expected)
    | _ => false

/-- The `passed` of one round of the loop in `enforce`. -/
def passed (actualArg : Val) (cond : Condition) : Bool :=
  match cond.expectedValue with
  | .u32 expected => compareOrd Val.toU32? actualArg expected cond.operator
  | .i32 expected => compareOrd Val.toI32? actualArg expected cond.operator
  | .u64 expected => compareOrd Val.toU64? actualArg expected cond.operator
  | .i64 expected => compareOrd Val.toI64? actualArg expected cond.operator
  | .u128 expected => compareOrd Val.toU128? actualArg expected cond.operator
  | .i128 expected => compareOrd Val.toI128? actualArg expected cond.operator
  | .sym expected => compareEq Val.toSymbol? actualArg expected cond.operator
  | .addr expected => compareEq Val.toAddress? actualArg expected cond.operator

/-- `args.get(index)`. -/
def argAt (args : List Val) (index : U32) : Option Val := args[index.val.toNat]?

/-- The loop over the conditions in `enforce`. -/
def checkConditions (args : List Val) : List Condition → Except (Fault ParameterScopedError) Unit
  | [] => pure ()
  | cond :: rest => do
      let actualArg ← unwrapOr (argAt args cond.argIndex) (.contract .argumentIndexOutOfBounds)
      ensure (passed actualArg cond) (.contract .conditionFailed)
      checkConditions args rest

/-- The verdict of `enforce` on a context, after the entry was read. -/
def checkContext (context : Context) (rule : ContextRule) (smartAccount : Address)
    (data : ParameterScopedData) :
    Except (Fault ParameterScopedError) (List ParameterScopedEvent) :=
  match context with
  | .contract c => do
      let fnConditions ← unwrapOr (data.conditions.lookup c.fnName) (.contract .methodNotAllowed)
      checkConditions c.args fnConditions
      pure [.enforced smartAccount rule.id c.fnName]
  | _ => throw (.contract .methodNotAllowed)

/-- `enforce`. -/
def enforce (env : Env) (context : Context) (authenticatedSigners : List Signer)
    (rule : ContextRule) (smartAccount : Address) (s : Entries ParameterScopedData) :
    Except (Fault ParameterScopedError) (List ParameterScopedEvent × Entries ParameterScopedData) :=
  guardedEnforce .methodNotAllowed .smartAccountNotInstalled
    (checkContext context rule smartAccount) env authenticatedSigners rule smartAccount s

/-- The operator fits the type of the expected value. -/
def operatorFits (cond : Condition) : Bool :=
  match cond.expectedValue with
  | .sym _ | .addr _ => !(cond.operator ≠ .eq && cond.operator ≠ .neq)
  | _ => true

/-- The inner loop of `install`: the operators of one function's conditions. -/
def checkOperators : List Condition → Except (Fault ParameterScopedError) Unit
  | [] => pure ()
  | cond :: rest => do
      ensure (operatorFits cond) (.contract .invalidConditions)
      checkOperators rest

/-- The outer loop of `install`: the condition lists of the functions. -/
def checkFns :
    List (Sigma fun _ : Symbol => List Condition) → Except (Fault ParameterScopedError) Unit
  | [] => pure ()
  | ⟨_, fnConditions⟩ :: rest => do
      ensure (¬ (fnConditions = [] ∨ maxConditionsPerFn < fnConditions.length))
        (.contract .invalidConditions)
      checkOperators fnConditions
      checkFns rest

/-- The parameter check of `install`. -/
def checkParams (params : ParameterScopedAccountParams) :
    Except (Fault ParameterScopedError) Unit := do
  ensure (¬ (params.conditions.entries = [] ∨ maxFns < params.conditions.entries.length))
    (.contract .invalidConditions)
  checkFns params.conditions.entries

/-- `install`. -/
def install (env : Env) (params : ParameterScopedAccountParams) (rule : ContextRule)
    (smartAccount : Address) (s : Entries ParameterScopedData) :
    Except (Fault ParameterScopedError) (List ParameterScopedEvent × Entries ParameterScopedData) :=
  installEntry .onlyCallContractAllowed .alreadyInstalled (checkParams params)
    (pure ⟨params.conditions⟩) [.installed smartAccount rule.id] env rule smartAccount s

/-- `uninstall`. -/
def uninstall (env : Env) (rule : ContextRule) (smartAccount : Address)
    (s : Entries ParameterScopedData) :
    Except (Fault ParameterScopedError) (List ParameterScopedEvent × Entries ParameterScopedData) :=
  uninstallEntry .smartAccountNotInstalled [.uninstalled smartAccount rule.id] env rule
    smartAccount s

/-- The parameter-scoped policy as a policy contract. -/
def contract : PolicyContract Env ParameterScopedAccountParams ParameterScopedData
    ParameterScopedError ParameterScopedEvent Conditions where
  install := install
  uninstall := uninstall
  enforce := enforce
  get := getConditions

theorem shape : contract.GuardedShape where
  install := fun _ _ _ _ => ⟨_, _, _, _, _, rfl⟩
  uninstall := fun _ _ _ => ⟨_, _, rfl⟩
  get := fun _ _ s t h => by simp only [contract, getConditions, getEntry, h]
  enforce := fun _ _ _ _ _ => ⟨_, _, _, rfl⟩

end LatchContracts.Policies.ParameterScoped
