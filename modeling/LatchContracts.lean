import LatchContracts.Lib.Bounded
import LatchContracts.Lib.Call
import LatchContracts.Lib.Bisimulation
import LatchContracts.Lib.KeyedStore
import LatchContracts.Lib.LastWrite
import LatchContracts.Lib.IndexedLog
import LatchContracts.Lib.EventLog
import LatchContracts.Lib.Expiry
import LatchContracts.Lib.Window
import LatchContracts.Lib.Lease
import LatchContracts.Lib.Share
import LatchContracts.Lib.DistinctSort
import LatchContracts.Lib.SelfDelimiting
import LatchContracts.Lib.Buffer
import LatchContracts.Host.Types
import LatchContracts.Host.Token
import LatchContracts.Host.Instance
import LatchContracts.Policies.Entrypoints
import LatchContracts.Policies.Session
import LatchContracts.Policies.RecipientAllowlist
import LatchContracts.Policies.LastWrite
import LatchContracts.Policies.ParameterScoped.Model
import LatchContracts.Policies.ParameterScoped.Decision
import LatchContracts.Policies.MultiToken.Model
import LatchContracts.Policies.MultiToken.Reference
import LatchContracts.Policies.MultiToken.Simulation
import LatchContracts.Policies.MultiToken.Runs
import LatchContracts.Policies.MultiToken.Consistency
import LatchContracts.Policies.MultiToken.Conversion
import LatchContracts.Policies.MultiToken.Saturation
import LatchContracts.Policies.MultiToken.Batch
import LatchContracts.Policies.MultiToken.Order
import LatchContracts.Policies.Isolation
import LatchContracts.Policies.EmptySigners
import LatchContracts.Policies.Expiry
import LatchContracts.Policies.EventLog
import LatchContracts.Factory.Model
import LatchContracts.Factory.Canonical
import LatchContracts.Factory.Preimage
import LatchContracts.Factory.Deployment
import LatchContracts.Factory.KeyIdentity
import LatchContracts.Factory.Lifetime
import LatchContracts.Verifiers.Model
import LatchContracts.Verifiers.Keys
import LatchContracts.Verifiers.SignedMessage
import LatchContracts.Verifiers.Accounts
import LatchContracts.Templates.Vault.Model
import LatchContracts.Templates.Vault.Safety
import LatchContracts.Templates.Vault.KeepAlive
import LatchContracts.Templates.Vault.Recovery
import LatchContracts.Templates.Vesting.Model
import LatchContracts.Templates.Vesting.Arithmetic
import LatchContracts.Templates.Vesting.Runs
import LatchContracts.Templates.Vesting.Funding
import LatchContracts.Templates.Vesting.Lifetime
import LatchContracts.SmartAccount.Model
import LatchContracts.SmartAccount.Registry
import LatchContracts.SmartAccount.EventLog
