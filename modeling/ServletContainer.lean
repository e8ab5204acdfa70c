import ServletContainer.Alias
import ServletContainer.Arbitration.Names
import ServletContainer.Arbitration.Resolver
import ServletContainer.Arbitration.Slot
import ServletContainer.Builtin
import ServletContainer.Cli.Arguments
import ServletContainer.Cli.Run
import ServletContainer.Config.Basic
import ServletContainer.Config.Declared
import ServletContainer.Config.Manager
import ServletContainer.Config.Reader
import ServletContainer.Context.Basic
import ServletContainer.Context.Helper
import ServletContainer.Context.Model
import ServletContainer.Counters
import ServletContainer.Decimal.Shortest
import ServletContainer.Deployment.Basic
import ServletContainer.Deployment.Change
import ServletContainer.Deployment.Effect
import ServletContainer.Deployment.Snapshot
import ServletContainer.Digest.Sha256
import ServletContainer.Dispatch.Collaborator
import ServletContainer.Dispatch.Execute
import ServletContainer.Dispatch.Plan
import ServletContainer.Dispatch.Table
import ServletContainer.Document
import ServletContainer.Element.Basic
import ServletContainer.Element.Builder
import ServletContainer.Element.Description
import ServletContainer.Element.Source
import ServletContainer.Engine.Basic
import ServletContainer.Engine.InProcess
import ServletContainer.Error
import ServletContainer.Files
import ServletContainer.Http.Message
import ServletContainer.Http.Status
import ServletContainer.Http.Uri
import ServletContainer.Json.Basic
import ServletContainer.Json.Parser
import ServletContainer.Json.Printer
import ServletContainer.Main
import ServletContainer.Mime
import ServletContainer.Names
import ServletContainer.Ordered.Map
import ServletContainer.Ordered.Sort
import ServletContainer.Path
import ServletContainer.Pattern
import ServletContainer.Proofs.Arbitration.Greedy
import ServletContainer.Proofs.Arbitration.Outcome
import ServletContainer.Proofs.Arbitration.Region
import ServletContainer.Proofs.Arbitration.Stable
import ServletContainer.Proofs.Context.Model
import ServletContainer.Proofs.Deployment.Changes
import ServletContainer.Proofs.Deployment.Commit
import ServletContainer.Proofs.Deployment.Incremental
import ServletContainer.Proofs.Deployment.Listing
import ServletContainer.Proofs.Deployment.Served
import ServletContainer.Proofs.Dispatch.Calls
import ServletContainer.Proofs.Dispatch.Plan
import ServletContainer.Proofs.Element.Order
import ServletContainer.Proofs.Ordered
import ServletContainer.Proofs.Server.Arbitration
import ServletContainer.Proofs.Server.Run
import ServletContainer.Proofs.Server.Security
import ServletContainer.Regex.Classes
import ServletContainer.Regex.Expr
import ServletContainer.Regex.Parser
import ServletContainer.Script
import ServletContainer.Server.Basic
import ServletContainer.Server.Service
import ServletContainer.Text.Blank
import ServletContainer.Text.Cut
import ServletContainer.Text.Printable
import ServletContainer.Text.Quoted
import ServletContainer.Text.Utf8
import ServletContainer.Toml.Number
import ServletContainer.Toml.Parser
import ServletContainer.Toml.Table
import ServletContainer.Toml.Text
import ServletContainer.Whiteboard
import ServletContainer.Proofs.Server.Requests
import ServletContainer.Proofs.Engine.Check
import ServletContainer.Proofs.Server.Rollback
import ServletContainer.Proofs.Engine.Mounts
import ServletContainer.Proofs.Deployment.Effects
import ServletContainer.Proofs.Server.Shutdown
import ServletContainer.Proofs.Server.Mirror
import ServletContainer.Proofs.Server.Removal
import ServletContainer.Proofs.Deployment.Entries
import ServletContainer.Proofs.Server.Started
import ServletContainer.Proofs.Whiteboard.Tracking
import ServletContainer.Proofs.Engine.Listeners
import ServletContainer.Proofs.Server.Stop
import ServletContainer.Proofs.Server.Listeners
import ServletContainer.Proofs.Config.Declared
import ServletContainer.Proofs.Config.Difference
import ServletContainer.Proofs.Config.Online
import ServletContainer.Proofs.Config.Reload
import ServletContainer.Proofs.Config.Convergence
import ServletContainer.Proofs.Whiteboard.Pending
import ServletContainer.Proofs.Whiteboard.Foreign
import ServletContainer.Proofs.Alias.Registration
import ServletContainer.Proofs.Alias.Precedence
import ServletContainer.Proofs.Server.Accepting
import ServletContainer.Proofs.Alias.Withdrawal
import ServletContainer.Proofs.Server.Binding
import ServletContainer.Proofs.Server.Filters
import ServletContainer.Proofs.Deployment.Switches
import ServletContainer.Proofs.Engine.Strict
import ServletContainer.Proofs.Deployment.Replay
import ServletContainer.Proofs.Server.Submission
import ServletContainer.Proofs.Server.Replay
import ServletContainer.Proofs.Server.Delivery
import ServletContainer.Proofs.Server.Farewells
import ServletContainer.Proofs.Whiteboard.Owners
import ServletContainer.Proofs.Arbitration.Regional
import ServletContainer.Proofs.Arbitration.Newcomer
import ServletContainer.Proofs.Arbitration.Listing
import ServletContainer.Proofs.Arbitration.Presentation
import ServletContainer.Proofs.Arbitration.Product
import ServletContainer.Proofs.Arbitration.Names
import ServletContainer.Proofs.Dispatch.Outcome
import ServletContainer.Proofs.Server.Answers
import ServletContainer.Proofs.Context.Resource
import ServletContainer.Proofs.Dispatch.Resource
import ServletContainer.Proofs.Deployment.Withdrawn
import ServletContainer.Proofs.Server.Vacancy
import ServletContainer.Proofs.Server.Restart
import ServletContainer.Proofs.Arbitration.Groups
import ServletContainer.Proofs.Deployment.Targets
import ServletContainer.Proofs.Server.Undo
import ServletContainer.Proofs.Deployment.Copies
import ServletContainer.Proofs.Server.Minimal
import ServletContainer.Proofs.Context.Mounts
import ServletContainer.Proofs.Context.Calls
import ServletContainer.Proofs.Path
import ServletContainer.Proofs.Pattern
import ServletContainer.Proofs.Element.Builder
import ServletContainer.Proofs.Dispatch.Selection
import ServletContainer.Proofs.Server.Routing
import ServletContainer.Proofs.Pattern.Precedence
import ServletContainer.Proofs.Dispatch.Errors
import ServletContainer.Proofs.Dispatch.Paths
import ServletContainer.Proofs.Dispatch.Trace
import ServletContainer.Proofs.Dispatch.Rejection
import ServletContainer.Proofs.Server.Rejections
import ServletContainer.Proofs.Arbitration.Patterns
import ServletContainer.Proofs.Pattern.Satisfiable
import ServletContainer.Proofs.Alias.Coverage
import ServletContainer.Proofs.Path.Normal
import ServletContainer.Proofs.Dispatch.Inquiry
import ServletContainer.Proofs.Dispatch.Passing
import ServletContainer.Proofs.Dispatch.Welcome
import ServletContainer.Proofs.Server.Welcome
import ServletContainer.Proofs.Element.Lookups
import ServletContainer.Proofs.Dispatch.Lookups
import ServletContainer.Proofs.Dispatch.Length
import ServletContainer.Proofs.Server.Length
import ServletContainer.Proofs.Engine.Lookups
import ServletContainer.Proofs.Server.Lookups
import ServletContainer.Proofs.Server.FailedStart
import ServletContainer.Proofs.Config.Current
