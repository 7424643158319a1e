import CommentMacro.Document.Declaration
import CommentMacro.Document.Line
import CommentMacro.Document.Region
import CommentMacro.Document.Structure

/-!
# Reading a document

A document is read in four steps: cut it into the tokens of its lines, check the
order of the markers, put the declarations together, and put the generated
regions together.
-/

namespace CommentMacro.Document

def parse (sign source : Text) : Except MarkerFault (List Token) := do
  let lines := splitLines sign source
  let _ ← validate lines
  return collectRegions (groupDeclarations lines)

end CommentMacro.Document
