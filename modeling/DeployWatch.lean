import DeployWatch.Cli.Run
import DeployWatch.Cloud.Profile
import DeployWatch.Cloud.Provider
import DeployWatch.Deploy.Runner
import DeployWatch.Health.Http
import DeployWatch.Logs.Tail
import DeployWatch.Main
import DeployWatch.Process.Scripted
import DeployWatch.Proofs.Watch.Turns
import DeployWatch.Settings.Load
import DeployWatch.Settings.Writer
import DeployWatch.Shell.Launch
import DeployWatch.Stack.Deletion
import DeployWatch.Watch.Consumer
import DeployWatch.Watch.Sink
import DeployWatch.Proofs.Watch.Delivery
import DeployWatch.Proofs.Watch.Cancellation
import DeployWatch.Proofs.Logs.Codec
import DeployWatch.Proofs.Logs.Position
import DeployWatch.Proofs.Logs.Tailing
import DeployWatch.Proofs.Logs.ExactlyOnce
import DeployWatch.Proofs.Logs.Pages
import DeployWatch.Proofs.Logs.Starts
import DeployWatch.Proofs.Logs.Grouping
import DeployWatch.Proofs.Logs.Lossless
import DeployWatch.Proofs.Watch.Sessions
import DeployWatch.Proofs.Deploy.Reading
import DeployWatch.Proofs.Deploy.Turns
import DeployWatch.Proofs.Deploy.Stream
import DeployWatch.Proofs.Files.Removal
import DeployWatch.Proofs.Deploy.Cleanup
import DeployWatch.Proofs.Files.Places
import DeployWatch.Proofs.Files.Making
import DeployWatch.Proofs.Deploy.Preparation
import DeployWatch.Proofs.Deploy.AppSafety
import DeployWatch.Proofs.Deploy.OutputPlace
import DeployWatch.Proofs.Deploy.Residue
import DeployWatch.Proofs.Stack.Tracking
import DeployWatch.Proofs.Watch.Chronicle
import DeployWatch.Proofs.Watch.Deeds
import DeployWatch.Proofs.Watch.Pacing
import DeployWatch.Proofs.Watch.Endurance
import DeployWatch.Proofs.Watch.Abandonment
import DeployWatch.Proofs.Logs.Digest
import DeployWatch.Proofs.Logs.Following
import DeployWatch.Proofs.Logs.Repeats
import DeployWatch.Proofs.Logs.Tokens
import DeployWatch.Proofs.Logs.Arrangement
import DeployWatch.Proofs.Deploy.Counter
import DeployWatch.Proofs.Cli.ExitCode
import DeployWatch.Proofs.Deploy.Draining
import DeployWatch.Proofs.Text.Lines
import DeployWatch.Proofs.Health.Probing
import DeployWatch.Proofs.Settings.Loading
import DeployWatch.Proofs.Time.SpanText
import DeployWatch.Proofs.Toml.Strings
import DeployWatch.Proofs.Toml.Lines
import DeployWatch.Proofs.Toml.Layout
import DeployWatch.Proofs.Settings.RoundTrip
import DeployWatch.Proofs.Fault.Hints
import DeployWatch.Proofs.Deploy.CommandLine
import DeployWatch.Proofs.Toml.Keys
import DeployWatch.Proofs.Settings.Partial
import DeployWatch.Proofs.Time.Calendar
import DeployWatch.Proofs.Time.Timestamp
import DeployWatch.Proofs.Logs.Rendering
import DeployWatch.Proofs.Fault.Identity
import DeployWatch.Proofs.Process.Queues
import DeployWatch.Proofs.Logs.Silence
import DeployWatch.Proofs.Watch.Sink
import DeployWatch.Proofs.Cloud.Region
