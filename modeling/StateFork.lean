import StateFork.Lib.Store
import StateFork.Lib.Prog
import StateFork.Lib.Hoare
import StateFork.Lib.Run
import StateFork.Lib.Text
import StateFork.Lib.ShellWords
import StateFork.Lib.Numeral
import StateFork.Lib.Pool
import StateFork.Lib.RelyGuarantee
import StateFork.Lib.Moves
import StateFork.Lib.Client
import StateFork.Lib.LockOrder
import StateFork.Lib.Forest
import StateFork.Lib.Twin
import StateFork.Lib.Separation
import StateFork.Lib.Loop
import StateFork.Lib.Branching
import StateFork.Lib.Grouping
import StateFork.Controller.State
import StateFork.Controller.Ancestry
import StateFork.Controller.PrintedTree
import StateFork.Controller.Links
import StateFork.Controller.Base
import StateFork.Controller.Permanence
import StateFork.Controller.Frame
import StateFork.Controller.Accounts
import StateFork.Controller.Forkable
import StateFork.Controller.Views
import StateFork.Controller.Teardown
import StateFork.Controller.Construction
import StateFork.Controller.Calculators
import StateFork.Controller.Statistics
import StateFork.Sequential.Backend
import StateFork.Sequential.Tape
import StateFork.Sequential.Lineage
import StateFork.Sequential.Replay
import StateFork.Sequential.Ledger
import StateFork.Sequential.Threshold
import StateFork.Sequential.Faults
import StateFork.Sequential.Catalogue
import StateFork.Sequential.Attribution
import StateFork.Sequential.Timeouts
import StateFork.Sequential.Accounting
import StateFork.Sequential.Permanence
import StateFork.Sequential.Firecracker
import StateFork.Sequential.Background
import StateFork.Sequential.ToolFailures
import StateFork.Sequential.Attach
import StateFork.Sequential.Images
import StateFork.Forkable.Backend
import StateFork.Forkable.Registry
import StateFork.Forkable.Effects
import StateFork.Concurrency.Locking
import StateFork.Concurrency.Sections
import StateFork.Concurrency.Standing
import StateFork.Concurrency.Reconcile
import StateFork.Concurrency.Lifetime
import StateFork.Concurrency.Births
import StateFork.Concurrency.Retire
import StateFork.Concurrency.Usage
import StateFork.Concurrency.Pointer
import StateFork.Concurrency.Chronicle
import StateFork.Forkable.Failure
import StateFork.Forkable.Fork
import StateFork.Forkable.Restore
import StateFork.Forkable.Updates
import StateFork.Forkable.Consistency
import StateFork.Forkable.Tracking
import StateFork.Forkable.Bases
import StateFork.Forkable.TrueAncestry
import StateFork.Forkable.Records
import StateFork.Forkable.Usable
import StateFork.Forkable.LiveObjects
import StateFork.Forkable.Contract
import StateFork.Forkable.Listing
import StateFork.Forkable.Separate
import StateFork.Forkable.Commute
import StateFork.Forkable.Accounting
import StateFork.Forkable.Views
import StateFork.Forkable.Permanence
import StateFork.Forkable.Teardown
import StateFork.Forkable.LiveNames
import StateFork.Forkable.Worlds
import StateFork.Forkable.WorldHooks
import StateFork.Forkable.Refinement
import StateFork.Forkable.WorldRuns
import StateFork.Forkable.History
import StateFork.Concurrency.Growth
import StateFork.Waypoint.Backend
import StateFork.Waypoint.Journal
import StateFork.Waypoint.Session
import StateFork.Waypoint.Shared
import StateFork.Waypoint.Hydrate
import StateFork.Waypoint.Tree
import StateFork.Waypoint.ForkLine
import StateFork.Waypoint.ParallelFork
import StateFork.Waypoint.Timeouts
import StateFork.Waypoint.Attach
import StateFork.Waypoint.Cli
import StateFork.Waypoint.Contract
import StateFork.Waypoint.Slate
import StateFork.Waypoint.Isolation
import StateFork.Scripts.ExecGap
import StateFork.Scripts.Timeline
import StateFork.Scripts.TimelineRoundTrip
import StateFork.Scripts.Readiness
import StateFork.Scripts.SearchWorkflow
import StateFork.Scripts.SearchProgress
import StateFork.Scripts.SearchWorlds
import StateFork.Interface.Shell
