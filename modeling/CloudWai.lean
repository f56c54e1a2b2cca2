import CloudWai.Base.Interleave
import CloudWai.Contracts
import CloudWai.Base.Table
import CloudWai.Queue.Sql
import CloudWai.Queue.Workers
import CloudWai.Queue.Budget
import CloudWai.Queue.Lease
import CloudWai.Queue.Memory
import CloudWai.Base.Pairing
import CloudWai.Queue.Agreement
import CloudWai.Deployment.Engine
import CloudWai.Deployment.Executor
import CloudWai.Deployment.Worker
import CloudWai.Deployment.Procedures
import CloudWai.Deployment.System
import CloudWai.Deployment.Journey
import CloudWai.Deployment.Bystanders
import CloudWai.Deployment.Delivery
import CloudWai.Deployment.Conformance
import CloudWai.Deployment.Plane
import CloudWai.Deployment.Build
import CloudWai.Deployment.Settle
import CloudWai.Deployment.Usage
import CloudWai.Deployment.Pointer
import CloudWai.Deployment.Evidence
import CloudWai.Base.Pattern
import CloudWai.Grammar
import CloudWai.Base.Seclang
import CloudWai.Security.Compile
import CloudWai.Security.DenyList
import CloudWai.Authorization
import CloudWai.Security.Store
import CloudWai.Base.Memo
import CloudWai.Security.Loaders
import CloudWai.Security.Publication
import CloudWai.Security.Protection
import CloudWai.Security.Freshness
import CloudWai.Base.Versioned
import CloudWai.Security.Policy
import CloudWai.Security.Conduct
import CloudWai.Security.Rewind
import CloudWai.Security.Distribution
import CloudWai.Base.Triple
import CloudWai.Runtime.Server
import CloudWai.Runtime.Adapter
import CloudWai.Runtime.Estate
import CloudWai.Runtime.Domains
import CloudWai.Runtime.Variables
import CloudWai.Runtime.System
import CloudWai.Runtime.Steady
import CloudWai.Runtime.Quiet
import CloudWai.Runtime.Placing
import CloudWai.Runtime.Effects
import CloudWai.Runtime.Sound
import CloudWai.Runtime.Removal
import CloudWai.Runtime.Isolation
import CloudWai.Runtime.Hostnames
import CloudWai.Runtime.Verification
import CloudWai.Data.Engine
import CloudWai.Data.Jobs
import CloudWai.Data.Procedures
import CloudWai.Data.System
import CloudWai.Data.Journey
import CloudWai.Data.Conformance
import CloudWai.Data.Plane
import CloudWai.Data.Import
import CloudWai.Data.Stranded
import CloudWai.Data.Artifact
import CloudWai.Base.Words
import CloudWai.Deployment.PreviewKey
import CloudWai.Deployment.Alone
import CloudWai.Deployment.Pushes
import CloudWai.Deployment.Orders
import CloudWai.Deployment.Retried
import CloudWai.Deployment.Race
import CloudWai.Deployment.Unraced
import CloudWai.Access.Chains
import CloudWai.Access.Members
import CloudWai.Access.Owners
import CloudWai.Deployment.Accord
import CloudWai.Deployment.Direct
import CloudWai.Deployment.Serverless
import CloudWai.Base.Endless
import CloudWai.Builder.Server
import CloudWai.Builder.Slots
import CloudWai.Builder.Progress
import CloudWai.Base.Url
import CloudWai.Router.Server
import CloudWai.Router.Alive
import CloudWai.Router.Confined
import CloudWai.Runtime.Routing
import CloudWai.Runtime.Front
import CloudWai.Runtime.Taking
import CloudWai.Runtime.Sharing
import CloudWai.Runtime.Attempts
import CloudWai.Runtime.Overlap
import CloudWai.Base.Hex
import CloudWai.Deployment.Classified
import CloudWai.Deployment.Signature
import CloudWai.Access.Decision
import CloudWai.Deployment.Confirmed
import CloudWai.Deployment.Sweeps
import CloudWai.Deployment.Stamps
import CloudWai.Base.Disk
import CloudWai.Runtime.Replacing
import CloudWai.Runtime.Restart
import CloudWai.StateFile.Saves
import CloudWai.StateFile.Landing
import CloudWai.Ports.Allocation
import CloudWai.Runtime.Acts
import CloudWai.Runtime.Source
import CloudWai.Runtime.Rollback
import CloudWai.Base.Replace
import CloudWai.Security.Fragments
import CloudWai.Base.Ipv4
import CloudWai.Security.Ladder
import CloudWai.Security.Addresses
import CloudWai.Base.Quoting
import CloudWai.Security.Directives
import CloudWai.Security.RateLimits
import CloudWai.Builder.Cancel
import CloudWai.Base.Catalog
import CloudWai.Builder.Index
import CloudWai.Base.Cursor
import CloudWai.Runtime.Logs
import CloudWai.Base.Lines
import CloudWai.Output
import CloudWai.Base.Polling
import CloudWai.Deployment.BuildStep
import CloudWai.Base.Ipv6
import CloudWai.Security.Origins
import CloudWai.Base.Calendar
import CloudWai.Base.Page
import CloudWai.Billing.HardCap
import CloudWai.Deployment.Paging
import CloudWai.Security.Identity
import CloudWai.Access.Founding
import CloudWai.Router.Certificates
import CloudWai.Base.Tree
import CloudWai.Observability
import CloudWai.Linking.Links
import CloudWai.Base.Percent
import CloudWai.Base.Sorting
import CloudWai.Signing.Canonical
import CloudWai.Signing.Agreement
import CloudWai.Base.UrlJoin
import CloudWai.Signing.Storage
import CloudWai.Base.RowSecurity
import CloudWai.Sessions.Members
import CloudWai.Sessions.Ownership
import CloudWai.Sessions.Incidents
import CloudWai.Sessions.Guards
import CloudWai.DemoSession
import CloudWai.EdgeServer
