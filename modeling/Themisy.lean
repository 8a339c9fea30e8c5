import Themisy.Adapters.Datadog
import Themisy.Store.Versions
import Themisy.Store.Agreement
import Themisy.Runner.Dispatcher
import Themisy.Runner.Mediation
import Themisy.Workflow.Retries
import Themisy.Application.ReleaseStarts
import Themisy.Workflow.Leaks
import Themisy.Workflow.Deployments
import Themisy.Policy.Layers
import Themisy.Policy.Canonical
import Themisy.Engine.Sessions
import Themisy.Scheduler.BreakerHistory
import Themisy.Workflow.Expiry
import Themisy.Workflow.OpenApprovals
import Themisy.Contract.Identity
import Themisy.Planning.InputOrder
import Themisy.Planning.Migration
import Themisy.Planning.Validity
import Themisy.Workflow.RollbackDeclarations
import Themisy.Scheduler.Dispatched
import Themisy.Scheduler.Rearrangement
import Themisy.Workflow.FailureDomains
