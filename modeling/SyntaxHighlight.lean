import SyntaxHighlight.Engine.Run
import SyntaxHighlight.Main
import SyntaxHighlight.Proofs.Engine.Session
import SyntaxHighlight.Proofs.Engine.Display
import SyntaxHighlight.Proofs.Engine.Coherence
import SyntaxHighlight.Proofs.Engine.Delivery
import SyntaxHighlight.Proofs.Engine.Requests
import SyntaxHighlight.Proofs.Scope.Segment
import SyntaxHighlight.Proofs.Scope.Reading
import SyntaxHighlight.Proofs.Scope.Canonical
import SyntaxHighlight.Proofs.Scope.Rendering
import SyntaxHighlight.Proofs.Grammar.Scopes
import SyntaxHighlight.Proofs.Scope.Match
import SyntaxHighlight.Proofs.Token.Runs
import SyntaxHighlight.Proofs.Token.Stream
import SyntaxHighlight.Proofs.Text.Split
import SyntaxHighlight.Proofs.Token.Cover
import SyntaxHighlight.Proofs.Text.Positions
import SyntaxHighlight.Proofs.Tree.Layout
import SyntaxHighlight.Proofs.Token.Innermost
import SyntaxHighlight.Proofs.Engine.Intake
import SyntaxHighlight.Proofs.Engine.Reopening
import SyntaxHighlight.Proofs.Engine.Handshake
import SyntaxHighlight.Proofs.Engine.Ledger
import SyntaxHighlight.Proofs.Engine.Closing
import SyntaxHighlight.Proofs.Engine.Settling
import SyntaxHighlight.Proofs.Engine.Refusals
import SyntaxHighlight.Proofs.Engine.Journal
import SyntaxHighlight.Proofs.Engine.Readiness
import SyntaxHighlight.Proofs.Engine.Burst
import SyntaxHighlight.Proofs.Language.Traffic
import SyntaxHighlight.Proofs.Language.Cell
import SyntaxHighlight.Proofs.Language.Turns
import SyntaxHighlight.Proofs.Tree.Subtree
import SyntaxHighlight.Proofs.Text.Offsets
import SyntaxHighlight.Proofs.Grammar.Loading
import SyntaxHighlight.Proofs.Text.Lossless
import SyntaxHighlight.Proofs.Text.Undo
import SyntaxHighlight.Proofs.Buckets
import SyntaxHighlight.Proofs.Engine.Outcomes
import SyntaxHighlight.Proofs.Engine.Work
import SyntaxHighlight.Proofs.Language.Availability
import SyntaxHighlight.Proofs.Timer
import SyntaxHighlight.Proofs.Tree.Siblings
import SyntaxHighlight.Proofs.Settings
import SyntaxHighlight.Proofs.Command
import SyntaxHighlight.Proofs.Legend
