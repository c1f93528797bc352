import ChordInfra.Text.Pattern
import ChordInfra.Fair.Runs
import ChordInfra.Url.Path
import ChordInfra.Greedy.Burst
import ChordInfra.Greedy.RoundRobin
import ChordInfra.Cyclic.Arc
import ChordInfra.Cyclic.Partition
import ChordInfra.Cyclic.Walk
import ChordInfra.Durable.WriteThrough
import ChordInfra.Traverse.Worklist
import ChordInfra.Ring.Node
import ChordInfra.Ring.Lookup
import ChordInfra.Ring.Departure
import ChordInfra.Ring.Failover
import ChordInfra.Ring.Predecessor
import ChordInfra.Ring.Routing
import ChordInfra.Ring.Joining
import ChordInfra.Ring.Canonical
import ChordInfra.Ring.Fingers
import ChordInfra.Ring.Crash
import ChordInfra.Ring.Detection
import ChordInfra.Ring.Interval
import ChordInfra.Ring.Maintenance
import ChordInfra.Ring.Stabilization
import ChordInfra.Interact.Prog
import ChordInfra.Interact.Pool
import ChordInfra.Interact.Count
import ChordInfra.Interact.Hoare
import ChordInfra.Interact.Holding
import ChordInfra.Interact.Trace
import ChordInfra.Interact.Triple
import ChordInfra.Dict.Basic
import ChordInfra.Workers.Manager
import ChordInfra.Workers.Registry
import ChordInfra.Workers.Placement
import ChordInfra.Storage.Json
import ChordInfra.Storage.Record
import ChordInfra.Storage.World
import ChordInfra.Storage.Replication
import ChordInfra.Storage.TaskService
import ChordInfra.Storage.ResultService
import ChordInfra.Storage.WorkerAssignment
import ChordInfra.Storage.Run
import ChordInfra.Storage.Among
import ChordInfra.Storage.FixedRing
import ChordInfra.Storage.Interference
import ChordInfra.Storage.Serving
import ChordInfra.Storage.ResultRuns
import ChordInfra.Storage.Addressing
import ChordInfra.Storage.Routes
import ChordInfra.Storage.OverHttp
import ChordInfra.Storage.AssignmentRuns
import ChordInfra.Storage.AppendRuns
import ChordInfra.Storage.AssignmentReads
import ChordInfra.Storage.AssignmentCopies
import ChordInfra.Storage.Chain
import ChordInfra.Storage.TaskMap
import ChordInfra.Storage.HardDelete
import ChordInfra.Storage.ListWrites
import ChordInfra.Storage.LocalQuery
import ChordInfra.Storage.Quorum
import ChordInfra.Storage.ReplicaRead
import ChordInfra.Storage.UpdateRuns
import ChordInfra.Storage.TaskVersions
import ChordInfra.Api.Proto
import ChordInfra.Api.TaskServicer
import ChordInfra.Api.FrontEnds
import ChordInfra.Server.Handlers
import ChordInfra.Server.Recovery
import ChordInfra.Server.TaskRunner
import ChordInfra.Server.Acting
import ChordInfra.Server.CreateTask
import ChordInfra.Server.System
import ChordInfra.Server.Recovered
import ChordInfra.Server.Outcomes
import ChordInfra.Server.Alone
import ChordInfra.Server.Scans
import ChordInfra.Server.Mirror
import ChordInfra.Server.OneNode
import ChordInfra.Server.Watch
import ChordInfra.Server.Timeout
import ChordInfra.Server.Attempts
import ChordInfra.Server.Success
import ChordInfra.Server.Errand
import ChordInfra.Server.WorkerProcess
import ChordInfra.Server.Executions
import ChordInfra.Server.Failure
import ChordInfra.Server.Tables
import ChordInfra.Server.Lists
import ChordInfra.Server.Load
import ChordInfra.Server.Moves
import ChordInfra.Server.Polling
import ChordInfra.Server.Rebalance
import ChordInfra.Server.StatusReply
import ChordInfra.Server.Tally
import ChordInfra.Server.Told
import ChordInfra.Server.Waiting
import ChordInfra.Data.Routed
import ChordInfra.Data.Files
import ChordInfra.Data.Growth
import ChordInfra.Data.Leave
import ChordInfra.Data.Leaves
import ChordInfra.Data.OneStore
import ChordInfra.Data.ResetAll
import ChordInfra.Data.Snapshot
import ChordInfra.Jobs.Worker
import ChordInfra.Jobs.Agent
import ChordInfra.Jobs.AgentLoop
import ChordInfra.Jobs.Cluster
import ChordInfra.Jobs.Runs
import ChordInfra.Jobs.Submissions
import ChordInfra.Jobs.Copies
import ChordInfra.Jobs.Fetch
import ChordInfra.Jobs.Restart
import ChordInfra.Jobs.Watcher
import ChordInfra.Chat.Intent
import ChordInfra.Chat.Scripted
import ChordInfra.Chat.Dialogue
import ChordInfra.Chat.Tools
