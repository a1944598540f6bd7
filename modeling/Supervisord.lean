import Supervisord.Machine.Basic
import Supervisord.Machine.Fuel
import Supervisord.Machine.RWLock
import Supervisord.Machine.Journal
import Supervisord.Machine.Exact
import Supervisord.Process.Basic
import Supervisord.Process.Threads
import Supervisord.Process.Step
import Supervisord.Process.Move
import Supervisord.Process.Invariant
import Supervisord.Process.Verdict
import Supervisord.Process.Requests
import Supervisord.Process.Policy
import Supervisord.Process.GiveUp
import Supervisord.Process.Frame
import Supervisord.Process.Idle
import Supervisord.Process.Access
import Supervisord.Process.Callback
import Supervisord.Process.Logs
import Supervisord.Process.Closing
import Supervisord.Process.Signals
import Supervisord.Process.Launch
import Supervisord.Process.Command
import Supervisord.Process.Grace
import Supervisord.Process.Liveness
import Supervisord.Process.Environment
import Supervisord.Process.Names
import Supervisord.Process.Path
import Supervisord.Process.Precedence
import Supervisord.Process.Streams
import Supervisord.Process.LogFile
import Supervisord.Process.Changes
import Supervisord.Process.Stopping
import Supervisord.Process.Faithful
import Supervisord.Process.Signalled
import Supervisord.Process.LateCheck
import Supervisord.Process.Retries
import Supervisord.Process.Retired
import Supervisord.Process.Arguments
import Supervisord.Process.Lists
import Supervisord.Process.FileMonitor
import Supervisord.Go.Strings
import Supervisord.Go.Range
import Supervisord.Go.Ring
import Supervisord.Go.Regexp
import Supervisord.Go.Split
import Supervisord.Go.Path
import Supervisord.Graph.Sweep
import Supervisord.Format.Wildcard
import Supervisord.Memory.RefTable
import Supervisord.Memory.Write
import Supervisord.Config.StringExpression
import Supervisord.Config.Reference
import Supervisord.Config.Texts
import Supervisord.Config.Evaluation
import Supervisord.Config.Template
import Supervisord.Config.Assignments
import Supervisord.Config.Entry
import Supervisord.Config.Sort
import Supervisord.Config.Priority
import Supervisord.Config.Load
import Supervisord.Config.Include
import Supervisord.Config.Group
import Supervisord.Config.Members
import Supervisord.Config.Listing
import Supervisord.Config.Table
import Supervisord.Config.Names
import Supervisord.Config.Sections
import Supervisord.Config.Instances
import Supervisord.Config.Stale
import Supervisord.Config.Values
import Supervisord.Config.Bytes
import Supervisord.Config.Meaning
import Supervisord.Manager.Basic
import Supervisord.Manager.Create
import Supervisord.Manager.Select
import Supervisord.Manager.Stopped
import Supervisord.Supervisor.Basic
import Supervisord.Supervisor.Reload
import Supervisord.Supervisor.Return
import Supervisord.Supervisor.Programs
import Supervisord.Supervisor.Unreadable
import Supervisord.Supervisor.Autostart
import Supervisord.Supervisor.Resources
import Supervisord.Supervisor.Report
import Supervisord.Supervisor.EnvFile
import Supervisord.Events.Frame
import Supervisord.Events.Delivery
import Supervisord.Events.Serial
import Supervisord.Events.Registry
import Supervisord.Events.Queue
import Supervisord.Events.Blocks
import Supervisord.Events.Dropped
import Supervisord.Logger.Rotate
import Supervisord.Logger.Clear
import Supervisord.Logger.Bounds
import Supervisord.Logger.Memory
import Supervisord.Logger.Excerpt
import Supervisord.Logger.Tail
import Supervisord.Logger.Ring
import Supervisord.Logger.Emit
import Supervisord.Logger.Listen
import Supervisord.Logger.Syslog
import Supervisord.Client.XmlProcessor
import Supervisord.Process.Diagram
import Supervisord.Process.Holders
import Supervisord.Process.Progress
import Supervisord.Process.Escalation
import Supervisord.Protocol.Gather
import Supervisord.Manager.Rpc
import Supervisord.Machine.Recursion
import Supervisord.Machine.Watch
import Supervisord.Protocol.Relay
import Supervisord.Protocol.Plan
import Supervisord.Format.PathTemplate
import Supervisord.Go.ServeMux
import Supervisord.Supervisor.Restful
import Supervisord.Supervisor.Federation
import Supervisord.Supervisor.Nodes
import Supervisord.Supervisor.Listing
import Supervisord.Supervisor.Remotes
import Supervisord.Supervisor.Info
import Supervisord.Supervisor.HttpServer
import Supervisord.Supervisor.Generations
import Supervisord.Logger.Background
import Supervisord.Events.Tick
import Supervisord.Process.Script
import Supervisord.Client.Ctl
