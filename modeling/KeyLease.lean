import KeyLease.Admission
import KeyLease.CommandLine.Program
import KeyLease.Lifecycle.Timeline
import KeyLease.Lock
import KeyLease.Main
import KeyLease.Proofs.Lifecycle.Linearization
import KeyLease.Proofs.Lifecycle.Bystanders
import KeyLease.Proofs.Lifecycle.Scripted
import KeyLease.Proofs.Memory.History
import KeyLease.Proofs.Memory.Sessions
import KeyLease.Proofs.Redis.Exclusion
import KeyLease.Proofs.Redis.Endpoints
import KeyLease.Scenario
import KeyLease.Proofs.Clients.Requests
import KeyLease.Proofs.Clients.Session
import KeyLease.Proofs.Clients.Holders
import KeyLease.Proofs.Clients.Isolation
import KeyLease.Proofs.Clients.Windows
import KeyLease.Proofs.Clients.Interchange
import KeyLease.Proofs.Memory.Garbage
import KeyLease.Proofs.Program.Errand
import KeyLease.Proofs.Program.Launch
import KeyLease.Proofs.Program.Moments
import KeyLease.Proofs.Program.Cleanup
import KeyLease.Proofs.Program.Holding
import KeyLease.Proofs.Program.Locking
import KeyLease.Proofs.Config.RoundTrip
import KeyLease.Proofs.Config.Forms
import KeyLease.Proofs.Clients.Outages
import KeyLease.Proofs.Clients.Rejections
import KeyLease.Proofs.Redis.Redaction
import KeyLease.Proofs.Config.Builders
import KeyLease.Proofs.Program.Options
import KeyLease.Proofs.Program.Rendering
import KeyLease.Proofs.Program.Configuration
import KeyLease.Proofs.Clients.StandIn
import KeyLease.Proofs.Config.Validity
import KeyLease.Proofs.Memory.Contents
import KeyLease.Proofs.Redis.Lifetimes
import KeyLease.Proofs.Clients.Bounds
