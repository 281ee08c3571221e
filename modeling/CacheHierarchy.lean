import CacheHierarchy.Access
import CacheHierarchy.Access.Token
import CacheHierarchy.CommandLine.Arguments
import CacheHierarchy.CommandLine.Run
import CacheHierarchy.Decimal.Binary
import CacheHierarchy.Decimal.Layout
import CacheHierarchy.Decimal.Nearest
import CacheHierarchy.Decimal.Places
import CacheHierarchy.Decimal.Shortest
import CacheHierarchy.Fault
import CacheHierarchy.Files.Basic
import CacheHierarchy.Files.InMemory
import CacheHierarchy.GatedQueue
import CacheHierarchy.Hierarchy.Basic
import CacheHierarchy.Hierarchy.Config
import CacheHierarchy.Hierarchy.Statistics
import CacheHierarchy.Json
import CacheHierarchy.Machine.Basic
import CacheHierarchy.Machine.Cache
import CacheHierarchy.Machine.Eviction
import CacheHierarchy.Machine.Journal
import CacheHierarchy.Machine.Memory
import CacheHierarchy.Machine.Stages
import CacheHierarchy.Main
import CacheHierarchy.Outstanding
import CacheHierarchy.Proofs.Agreement
import CacheHierarchy.Proofs.Atomic.Basic
import CacheHierarchy.Proofs.Atomic.Cycles
import CacheHierarchy.Proofs.Atomic.Evictions
import CacheHierarchy.Proofs.Atomic.Requests
import CacheHierarchy.Proofs.Atomic.Scene
import CacheHierarchy.Proofs.Atomic.Tasks
import CacheHierarchy.Proofs.Bypassing
import CacheHierarchy.Proofs.Conservation
import CacheHierarchy.Proofs.Custody
import CacheHierarchy.Proofs.Departures.Actions
import CacheHierarchy.Proofs.Departures.Basic
import CacheHierarchy.Proofs.Departures.Cycles
import CacheHierarchy.Proofs.Dirtiness
import CacheHierarchy.Proofs.Durability
import CacheHierarchy.Proofs.Execution.Actions
import CacheHierarchy.Proofs.Execution.Cycles
import CacheHierarchy.Proofs.Execution.Ends
import CacheHierarchy.Proofs.Execution.Filling
import CacheHierarchy.Proofs.Execution.Frames
import CacheHierarchy.Proofs.Execution.LookingUp
import CacheHierarchy.Proofs.Execution.Partway
import CacheHierarchy.Proofs.Execution.Repairs
import CacheHierarchy.Proofs.Execution.Runs
import CacheHierarchy.Proofs.Execution.Sending
import CacheHierarchy.Proofs.Execution.Serving
import CacheHierarchy.Proofs.Execution.Start
import CacheHierarchy.Proofs.Execution.Tracks
import CacheHierarchy.Proofs.Execution.Views
import CacheHierarchy.Proofs.Execution.Withdrawals
import CacheHierarchy.Proofs.Execution.WriteBacks
import CacheHierarchy.Proofs.Execution.Yields
import CacheHierarchy.Proofs.Inclusion
import CacheHierarchy.Proofs.InstructionSide
import CacheHierarchy.Proofs.Latency
import CacheHierarchy.Proofs.Ledgers
import CacheHierarchy.Proofs.Levels
import CacheHierarchy.Proofs.Lockstep.Actions
import CacheHierarchy.Proofs.Lockstep.Basic
import CacheHierarchy.Proofs.Lockstep.Runs
import CacheHierarchy.Proofs.Lockstep.Stages
import CacheHierarchy.Proofs.Lockstep.Twins
import CacheHierarchy.Proofs.Machine.OutstandingCalls
import CacheHierarchy.Proofs.Machine.OutstandingTable
import CacheHierarchy.Proofs.Matching
import CacheHierarchy.Proofs.Noninterference
import CacheHierarchy.Proofs.OneSided
import CacheHierarchy.Proofs.Outline.Actions
import CacheHierarchy.Proofs.Outline.Basic
import CacheHierarchy.Proofs.Outline.Labels
import CacheHierarchy.Proofs.Outline.Requests
import CacheHierarchy.Proofs.Outline.Runs
import CacheHierarchy.Proofs.Outline.Slots
import CacheHierarchy.Proofs.Outline.Stages
import CacheHierarchy.Proofs.Outline.Timing
import CacheHierarchy.Proofs.Outline.Updates
import CacheHierarchy.Proofs.Outline.Vantage
import CacheHierarchy.Proofs.OutstandingMisses
import CacheHierarchy.Proofs.Overtaking.Actions
import CacheHierarchy.Proofs.Overtaking.Basic
import CacheHierarchy.Proofs.Overtaking.Cycles
import CacheHierarchy.Proofs.Overview.Accounted
import CacheHierarchy.Proofs.Overview.Balanced
import CacheHierarchy.Proofs.Overview.Basic
import CacheHierarchy.Proofs.Overview.Budget
import CacheHierarchy.Proofs.Overview.Dirtied
import CacheHierarchy.Proofs.Overview.Durable
import CacheHierarchy.Proofs.Overview.Fetched
import CacheHierarchy.Proofs.Overview.Fills
import CacheHierarchy.Proofs.Overview.Inclusive
import CacheHierarchy.Proofs.Overview.Marked
import CacheHierarchy.Proofs.Overview.Orderly
import CacheHierarchy.Proofs.Overview.Plan
import CacheHierarchy.Proofs.Overview.Preservation
import CacheHierarchy.Proofs.Overview.Progress
import CacheHierarchy.Proofs.Overview.Step
import CacheHierarchy.Proofs.Overview.Tallied
import CacheHierarchy.Proofs.Overview.Undisplaced
import CacheHierarchy.Proofs.Pace.Actions
import CacheHierarchy.Proofs.Pace.Basic
import CacheHierarchy.Proofs.Pace.Moments
import CacheHierarchy.Proofs.Pace.Phases
import CacheHierarchy.Proofs.Pace.Requests
import CacheHierarchy.Proofs.Pace.Runs
import CacheHierarchy.Proofs.Pace.Schedules
import CacheHierarchy.Proofs.Pace.Stages
import CacheHierarchy.Proofs.Punctuality
import CacheHierarchy.Proofs.Refinement
import CacheHierarchy.Proofs.Region
import CacheHierarchy.Proofs.Safety
import CacheHierarchy.Proofs.SendOrder
import CacheHierarchy.Proofs.StackProperty
import CacheHierarchy.Proofs.Strides
import CacheHierarchy.Proofs.Summaries
import CacheHierarchy.Proofs.Tags.Addresses
import CacheHierarchy.Proofs.Tags.Calls
import CacheHierarchy.Proofs.Tags.DirtyLines
import CacheHierarchy.Proofs.Tags.Lines
import CacheHierarchy.Proofs.Tags.Residents
import CacheHierarchy.Proofs.Tags.Rows
import CacheHierarchy.Proofs.Tags.Stacks
import CacheHierarchy.Proofs.Termination
import CacheHierarchy.Proofs.Text.Encoding
import CacheHierarchy.Proofs.Text.Fields
import CacheHierarchy.Proofs.Text.Hexadecimal
import CacheHierarchy.Proofs.Text.Lines
import CacheHierarchy.Proofs.TraceLines
import CacheHierarchy.Proofs.Traces
import CacheHierarchy.Proofs.Traffic.Answers
import CacheHierarchy.Proofs.Watch.Actions
import CacheHierarchy.Proofs.Watch.Basic
import CacheHierarchy.Proofs.Watch.Runs
import CacheHierarchy.Proofs.WorkingSet
import CacheHierarchy.Proofs.Workloads
import CacheHierarchy.Random.Draw
import CacheHierarchy.Random.KeyStream
import CacheHierarchy.Request
import CacheHierarchy.Settings
import CacheHierarchy.Simulation.Basic
import CacheHierarchy.Simulation.Summary
import CacheHierarchy.Simulation.Workload
import CacheHierarchy.Tags.Counters
import CacheHierarchy.Tags.Geometry
import CacheHierarchy.Tags.LineSet
import CacheHierarchy.Tags.Report
import CacheHierarchy.Tags.TagArray
import CacheHierarchy.Text.Blank
import CacheHierarchy.Text.Cut
import CacheHierarchy.Text.Hex
import CacheHierarchy.Text.Numeral
import CacheHierarchy.Toml.Document
import CacheHierarchy.Toml.Draft
import CacheHierarchy.Toml.Moment
import CacheHierarchy.Toml.MomentTable
import CacheHierarchy.Toml.Numeral
import CacheHierarchy.Toml.Quoted
import CacheHierarchy.Toml.Spacing
import CacheHierarchy.Toml.Value
import CacheHierarchy.Topology
import CacheHierarchy.Trace.Basic
import CacheHierarchy.Trace.Line
import CacheHierarchy.Traffic
import CacheHierarchy.Word
import CacheHierarchy.WriteBackLedger
