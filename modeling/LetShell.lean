import LetShell.Completion
import LetShell.Config
import LetShell.Decimal.Binary64
import LetShell.Decimal.Shortest
import LetShell.Engine.Apply
import LetShell.Engine.Basic
import LetShell.Engine.Lifecycle
import LetShell.Engine.Statements
import LetShell.Error
import LetShell.Expression
import LetShell.Expression.Progress
import LetShell.Fault
import LetShell.Json.Basic
import LetShell.Json.Reader
import LetShell.Log
import LetShell.Main
import LetShell.Name
import LetShell.Numeral
import LetShell.Options.Definition
import LetShell.Options.Store
import LetShell.Options.Word
import LetShell.Proofs.Engine.Acceptance
import LetShell.Proofs.Engine.Agreement
import LetShell.Proofs.Engine.Atomic
import LetShell.Proofs.Engine.Effects
import LetShell.Proofs.Engine.Faults
import LetShell.Proofs.Engine.Filing
import LetShell.Proofs.Engine.Independence
import LetShell.Proofs.Engine.Locality
import LetShell.Proofs.Engine.Mirror
import LetShell.Proofs.Engine.Operations
import LetShell.Proofs.Engine.Options
import LetShell.Proofs.Engine.Padding
import LetShell.Proofs.Engine.Refusals
import LetShell.Proofs.Engine.Regularity
import LetShell.Proofs.Engine.Removal
import LetShell.Proofs.Engine.Replay
import LetShell.Proofs.Engine.Respelling
import LetShell.Proofs.Engine.Restoration
import LetShell.Proofs.Engine.Roster
import LetShell.Proofs.Engine.RoundTrip
import LetShell.Proofs.Engine.Run
import LetShell.Proofs.Engine.Seating
import LetShell.Proofs.Engine.SelfAppend
import LetShell.Proofs.Engine.Startup
import LetShell.Proofs.Engine.Step
import LetShell.Proofs.Engine.Writes
import LetShell.Proofs.Expression.Completeness
import LetShell.Proofs.Expression.Decimal
import LetShell.Proofs.Expression.Equations
import LetShell.Proofs.Expression.Extension
import LetShell.Proofs.Expression.Faults
import LetShell.Proofs.Expression.Locations
import LetShell.Proofs.Expression.Padding
import LetShell.Proofs.Expression.Readers
import LetShell.Proofs.Expression.References
import LetShell.Proofs.Expression.Respelling
import LetShell.Proofs.Expression.Soundness
import LetShell.Proofs.Expression.Tokens
import LetShell.Proofs.Expression.Tree
import LetShell.Proofs.Json.Overlong
import LetShell.Proofs.Json.Progress
import LetShell.Proofs.Options.Algebra
import LetShell.Proofs.Options.Canonical
import LetShell.Proofs.Options.Faults
import LetShell.Proofs.Options.Fitness
import LetShell.Proofs.Options.Lockstep
import LetShell.Proofs.Options.Proper
import LetShell.Proofs.Options.RoundTrip
import LetShell.Proofs.Options.Switches
import LetShell.Proofs.Options.Twins
import LetShell.Proofs.Options.Typed
import LetShell.Proofs.Registry.Continuity
import LetShell.Proofs.Registry.Identity
import LetShell.Proofs.Registry.Search
import LetShell.Proofs.Registry.Seating
import LetShell.Proofs.Registry.Withdrawal
import LetShell.Proofs.Service.Closing
import LetShell.Proofs.Service.Lifetime
import LetShell.Proofs.Service.Views
import LetShell.Proofs.Shell.Agreement
import LetShell.Proofs.Shell.CommandLine
import LetShell.Proofs.Shell.Completion
import LetShell.Proofs.Shell.Configuration
import LetShell.Proofs.Shell.Farewell
import LetShell.Proofs.Shell.Faults
import LetShell.Proofs.Shell.History
import LetShell.Proofs.Shell.Loading
import LetShell.Proofs.Shell.Lockstep
import LetShell.Proofs.Shell.Options
import LetShell.Proofs.Shell.Passage
import LetShell.Proofs.Shell.Session
import LetShell.Proofs.Shell.Switches
import LetShell.Proofs.Statement.Form
import LetShell.Proofs.Statement.Removal
import LetShell.Proofs.Statement.Respelling
import LetShell.Proofs.Text.Caseless
import LetShell.Proofs.Text.CommaList
import LetShell.Proofs.Text.Respelling
import LetShell.Proofs.Text.Trim
import LetShell.Proofs.Text.Utf
import LetShell.Proofs.Text.Words
import LetShell.Registry
import LetShell.Service
import LetShell.Shell.Basic
import LetShell.Shell.Candidates
import LetShell.Statement
import LetShell.Statement.Removal
import LetShell.Table
import LetShell.Terminal
import LetShell.Text.Basic
import LetShell.Text.Blank
import LetShell.Text.Capital
import LetShell.Text.CommaList
import LetShell.Text.Digit
import LetShell.Text.Fold
import LetShell.Text.Fold.Table
import LetShell.Text.Hexadecimal
import LetShell.Text.Printable
import LetShell.Text.Quoted
import LetShell.Text.Utf
import LetShell.Value
