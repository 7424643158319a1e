import CommentMacro.Main
import CommentMacro.Proofs.Decimal.Shortest
import CommentMacro.Proofs.Pattern.Sketch
import CommentMacro.Proofs.Template.Levels
import CommentMacro.Proofs.Pattern.Shapes
import CommentMacro.Proofs.Pattern.Reach
import CommentMacro.Proofs.Pattern.Priority
import CommentMacro.Proofs.Document.Collecting
import CommentMacro.Proofs.Document.Grouping
import CommentMacro.Proofs.Document.Groups
import CommentMacro.Proofs.Document.Lines
import CommentMacro.Proofs.Document.Order
import CommentMacro.Proofs.Document.Refill
import CommentMacro.Proofs.Document.Reading
import CommentMacro.Proofs.Document.Agreement
import CommentMacro.Proofs.Document.Quiet
import CommentMacro.Proofs.Document.Reparsing
import CommentMacro.Proofs.Document.Offsets
import CommentMacro.Proofs.Document.Composition
import CommentMacro.Proofs.Text.Words
import CommentMacro.Proofs.Document.Declarations
import CommentMacro.Proofs.Document.Source
import CommentMacro.Proofs.Document.Blocks
import CommentMacro.Proofs.Computation
import CommentMacro.Proofs.Template.Keeping
import CommentMacro.Proofs.Template.Stretches
import CommentMacro.Proofs.Template.FlatPass
import CommentMacro.Proofs.Expansion.Filling
import CommentMacro.Proofs.Expansion.Rewriting
import CommentMacro.Proofs.Expansion.Recompiling
import CommentMacro.Proofs.Expansion.Idempotence
import CommentMacro.Proofs.Hearing
import CommentMacro.Proofs.Template.Hearing
import CommentMacro.Proofs.Template.Nesting
import CommentMacro.Proofs.Expansion.Independence
import CommentMacro.Proofs.Template.Abreast
import CommentMacro.Proofs.Template.Hygiene
import CommentMacro.Proofs.Document.LineEnds
import CommentMacro.Proofs.Template.LineEnds
import CommentMacro.Proofs.Expansion.LineEnds
import CommentMacro.Proofs.Template.Trimming
import CommentMacro.Proofs.Template.OpenLoops
import CommentMacro.Proofs.Template.Leftovers
import CommentMacro.Proofs.Expansion.Requests
import CommentMacro.Proofs.Command.Watching
import CommentMacro.Proofs.Document.Rounds
import CommentMacro.Proofs.Pattern.Tiling
import CommentMacro.Proofs.Template.Composition
import CommentMacro.Proofs.Template.Renaming
import CommentMacro.Proofs.Document.Grammar
import CommentMacro.Proofs.Document.TokenLines
import CommentMacro.Proofs.Template.Factoring
import CommentMacro.Proofs.Document.LineReading
import CommentMacro.Proofs.Document.BlockReading
import CommentMacro.Proofs.Template.Phrases
import CommentMacro.Proofs.Table.Printing
import CommentMacro.Proofs.Diagnostic.Rows
import CommentMacro.Proofs.Diagnostic.Complaints
import CommentMacro.Proofs.Command.Running
import CommentMacro.Proofs.Pattern.Greed
import CommentMacro.Proofs.Expansion.SpreadCalls
