import PlanSearch.Acceptor.Annealing
import PlanSearch.Acceptor.Basic
import PlanSearch.Acceptor.Forager
import PlanSearch.Acceptor.LateAcceptance
import PlanSearch.Acceptor.Tabu
import PlanSearch.Assembly.Acceptor
import PlanSearch.Assembly.Registry
import PlanSearch.Assembly.Selector
import PlanSearch.Assembly.Solver
import PlanSearch.Assembly.Termination
import PlanSearch.Chain.Basic
import PlanSearch.Chain.Plan
import PlanSearch.Chain.SubChain
import PlanSearch.Chain.Validity
import PlanSearch.Config.Error
import PlanSearch.Config.Read
import PlanSearch.Config.Selector
import PlanSearch.Config.Solver
import PlanSearch.Config.Steps
import PlanSearch.Config.Write
import PlanSearch.Decimal.Notation
import PlanSearch.Decimal.Shortest
import PlanSearch.Director
import PlanSearch.Document.Access
import PlanSearch.Document.Basic
import PlanSearch.Document.Content
import PlanSearch.Document.Json
import PlanSearch.Document.Readable
import PlanSearch.Document.Toml
import PlanSearch.Document.Toml.Value
import PlanSearch.Document.Yaml.Cursor
import PlanSearch.Document.Yaml.Node
import PlanSearch.Document.Yaml.Place
import PlanSearch.Document.Yaml.Property
import PlanSearch.Document.Yaml.Scalar
import PlanSearch.Document.Yaml.Token
import PlanSearch.Document.Yaml.Word
import PlanSearch.Error
import PlanSearch.Example.Domain
import PlanSearch.Example.ListSelectors
import PlanSearch.Example.Lists
import PlanSearch.Example.Queens
import PlanSearch.Example.Routing
import PlanSearch.Exchange.Event
import PlanSearch.Exchange.Form
import PlanSearch.Exchange.Move
import PlanSearch.Exchange.Termination
import PlanSearch.Fault
import PlanSearch.Move.Apply
import PlanSearch.Move.Basic
import PlanSearch.Nearby.Distribution
import PlanSearch.Nearby.IncompleteBeta
import PlanSearch.Nearby.Matrix
import PlanSearch.Problem
import PlanSearch.Proofs.Chain.Links
import PlanSearch.Proofs.Chain.Paths
import PlanSearch.Proofs.Chain.Splice
import PlanSearch.Random.Cipher
import PlanSearch.Random.Generator
import PlanSearch.Random.Shuffle
import PlanSearch.Scale
import PlanSearch.Score.Arithmetic
import PlanSearch.Score.Basic
import PlanSearch.Score.Literal
import PlanSearch.Search.Construction
import PlanSearch.Search.Event
import PlanSearch.Search.LocalSearch
import PlanSearch.Search.Phase
import PlanSearch.Search.Placer
import PlanSearch.Search.Scope
import PlanSearch.Search.Solver
import PlanSearch.Selector.Basic
import PlanSearch.Selector.Cached
import PlanSearch.Selector.Change
import PlanSearch.Selector.Filter
import PlanSearch.Selector.Mimic
import PlanSearch.Selector.Nearby
import PlanSearch.Selector.Order
import PlanSearch.Selector.Roulette
import PlanSearch.Selector.SubChains
import PlanSearch.Selector.Union
import PlanSearch.Termination.Basic
import PlanSearch.Termination.Gradient
import PlanSearch.Text.Split
import PlanSearch.Text.Integer
import PlanSearch.Text.Layout
import PlanSearch.Variable
import PlanSearch.Proofs.Chain.Plans
import PlanSearch.Proofs.Chain.Relocation
import PlanSearch.Proofs.Chain.Footprint
import PlanSearch.Proofs.Chain.Frayed
import PlanSearch.Proofs.Chain.Inverse
import PlanSearch.Proofs.Move.Application
import PlanSearch.Proofs.Move.Undo
import PlanSearch.Proofs.Move.Doable
import PlanSearch.Proofs.Move.Footprint
import PlanSearch.Proofs.Move.Refusal
import PlanSearch.Proofs.Move.Restored
import PlanSearch.Proofs.Acceptor.Renewal
import PlanSearch.Proofs.Assembly.Building
import PlanSearch.Proofs.Assembly.Registered
import PlanSearch.Proofs.Fault
import PlanSearch.Proofs.Lockstep.Ground
import PlanSearch.Proofs.Lockstep.Answers
import PlanSearch.Proofs.Lockstep.Assembly
import PlanSearch.Proofs.Lockstep.Basic
import PlanSearch.Proofs.Lockstep.Built
import PlanSearch.Proofs.Lockstep.Confined
import PlanSearch.Proofs.Lockstep.Construction
import PlanSearch.Proofs.Lockstep.Gait
import PlanSearch.Proofs.Lockstep.History
import PlanSearch.Proofs.Lockstep.Layers
import PlanSearch.Proofs.Lockstep.Leaf
import PlanSearch.Proofs.Lockstep.LocalSearch
import PlanSearch.Proofs.Lockstep.Moves
import PlanSearch.Proofs.Lockstep.Nearby
import PlanSearch.Proofs.Lockstep.Rounds
import PlanSearch.Proofs.Lockstep.Selector
import PlanSearch.Proofs.Lockstep.Solver
import PlanSearch.Proofs.Lockstep.Sound
import PlanSearch.Proofs.Lockstep.Together
import PlanSearch.Proofs.Lockstep.Yields
import PlanSearch.Proofs.Move.Stored
import PlanSearch.Proofs.Random.Draws
import PlanSearch.Proofs.Score.Levels
import PlanSearch.Proofs.Score.Order
import PlanSearch.Proofs.Score.Split
import PlanSearch.Proofs.Search.Asserted
import PlanSearch.Proofs.Search.Best
import PlanSearch.Proofs.Search.Director
import PlanSearch.Proofs.Search.Feasible
import PlanSearch.Proofs.Search.Operations
import PlanSearch.Proofs.Search.Reuse
import PlanSearch.Proofs.Search.Rounds
import PlanSearch.Proofs.Selector.Memory
import PlanSearch.Proofs.Search.Telling
import PlanSearch.Proofs.Search.Log
import PlanSearch.Proofs.Selector.Driven
import PlanSearch.Proofs.Selector.Traced
import PlanSearch.Proofs.Selector.Sorted
import PlanSearch.Proofs.Selector.Passes
import PlanSearch.Proofs.Selector.Arranged
import PlanSearch.Proofs.Selector.Nearest
import PlanSearch.Proofs.Config.Valid
import PlanSearch.Proofs.Assembly.Passes
import PlanSearch.Proofs.Assembly.Fit
import PlanSearch.Proofs.Assembly.Failing
import PlanSearch.Proofs.Patience
import PlanSearch.Proofs.Selector.Settled
import PlanSearch.Proofs.Selector.SettledRuns
import PlanSearch.Proofs.Selector.SettledMoves
import PlanSearch.Proofs.Selector.Small
import PlanSearch.Proofs.Selector.SmallMoves
import PlanSearch.Proofs.Assembly.Small
import PlanSearch.Proofs.Assembly.Settled
import PlanSearch.Proofs.Selector.Origins
import PlanSearch.Proofs.Decimal.Order
import PlanSearch.Proofs.Nearby.Ranks
import PlanSearch.Proofs.Acceptor.Recent
import PlanSearch.Proofs.Search.Untouched
import PlanSearch.Proofs.Search.Chronicle
import PlanSearch.Proofs.Search.Recent
import PlanSearch.Proofs.Search.StepLimit
import PlanSearch.Proofs.Search.Candidates
import PlanSearch.Proofs.Search.Halting
import PlanSearch.Proofs.Assembly.Limited
import PlanSearch.Proofs.Search.Verdicts
import PlanSearch.Proofs.Search.Late
import PlanSearch.Proofs.Search.Idle
import PlanSearch.Proofs.Search.Booked
import PlanSearch.Proofs.Termination.Gradient
import PlanSearch.Proofs.Termination.Shares
import PlanSearch.Proofs.Acceptor.Temperature
import PlanSearch.Proofs.Search.Progress
import PlanSearch.Proofs.Search.Cooling
import PlanSearch.Proofs.Search.Tally
import PlanSearch.Proofs.Search.Decisions
import PlanSearch.Proofs.Search.Filling
import PlanSearch.Proofs.Search.Placing
import PlanSearch.Proofs.Selector.Bounds
import PlanSearch.Proofs.Selector.Runs
import PlanSearch.Proofs.Search.Trials
import PlanSearch.Proofs.Assembly.Stopping
import PlanSearch.Proofs.Selector.Repeated
import PlanSearch.Proofs.Assembly.RunMoves
import PlanSearch.Proofs.Selector.Ranges
import PlanSearch.Proofs.Selector.RangesRuns
import PlanSearch.Proofs.Selector.RangesMoves
import PlanSearch.Proofs.Selector.Weights
import PlanSearch.Proofs.Selector.Roulette
import PlanSearch.Proofs.Assembly.Sizes
import PlanSearch.Proofs.Selector.Faults
import PlanSearch.Proofs.Selector.Trees
import PlanSearch.Proofs.Text.Integer
import PlanSearch.Proofs.Text.Split
import PlanSearch.Proofs.Score.Literal
import PlanSearch.Proofs.Chain.Writes
import PlanSearch.Proofs.Chain.Walks
import PlanSearch.Proofs.Search.Requests
