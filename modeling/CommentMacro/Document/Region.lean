import CommentMacro.Document.Token
import CommentMacro.Pattern.Segment

/-!
# Generated regions

A generated region runs from a line with a generate marker through the next end
marker, or to the end of the document. What is between them is the text that was
generated before.
-/

namespace CommentMacro.Document

/-- The name under which the pattern remembers the text generated before. -/
def bodyName : Text :=
  "body".toList

def endName : Text :=
  "end".toList

def generated : Pattern :=
  .seq [
    .word ['C', 'G', 'R'],
    .capture bodyName (.lazyStar .any),
    .capture endName (.alt [.seq [.word ['C', 'E'], .optional (.kind 'R')], .finish])]

def regionOf (tokens : List Token) (m : Match) : Token :=
  .region (textOf (Text.slice tokens m.start (m.start + 3)))
    (textOf ((m.group? bodyName tokens).getD []))
    (textOf ((m.group? endName tokens).getD []))

def collectRegions (tokens : List Token) : List Token :=
  generated.rebuild Token.kind (fun m => [regionOf tokens m]) tokens

end CommentMacro.Document
