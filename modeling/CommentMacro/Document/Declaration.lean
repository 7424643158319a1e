import CommentMacro.Document.Token
import CommentMacro.Pattern.Segment

/-!
# Declarations

Between a line with a start marker and the next line with a generate marker,
whole lines are put together: a header line and the body lines behind it are a
definition, and the plain comment lines between definitions are a call. A body
line is indented or empty.
-/

namespace CommentMacro.Document

/-- The name under which the definition of a macro is remembered. -/
def macroName : Text :=
  "macro".toList

def tableName : Text :=
  "table".toList

def invocationName : Text :=
  "invocation".toList

/-- A line of a body: indented, or empty behind the comment sign. -/
def bodyLine : Pattern :=
  .alt [.seq [.word ['C', '2'], .optional (.kind 'X'), .kind 'R'], .word ['C', 'R']]

/-- From a line with a start marker to the next line with a generate marker. -/
def declarations : Pattern :=
  .seq [.word ['C', 'S', 'R'], .lazyStar .any, .word ['C', 'G', 'R']]

def declaration : Pattern :=
  .alt [
    .capture macroName (.seq [.word ['C', 'M', 'R'], .plus bodyLine]),
    .capture tableName (.seq [.word ['C', 'T', 'R'], .plus bodyLine]),
    .capture invocationName (.plus (.alt [.word ['C', 'X', 'R'], .word ['C', 'R']]))]

def bodyText : Token → Text
  | .block t => t
  | .lineBreak t => t
  | _ => []

/-- The body of a definition: block text and line breaks behind the header line,
without the last line break. -/
def definitionBody (run : List Token) : Text :=
  (run.drop 3).dropLast.flatMap bodyText

/-- The text of a token in a call: the space behind the comment sign does not
count. -/
def callText : Token → Text
  | .block (' ' :: t) => t
  | .block t => t
  | .lineBreak t => t
  | _ => []

def declare : List Token → Token
  | sign :: .macroHeader text name parameters :: rest =>
    let run := sign :: .macroHeader text name parameters :: rest
    .macroDefinition (textOf run) name parameters (definitionBody run)
  | sign :: .tableHeader text name :: rest =>
    let run := sign :: .tableHeader text name :: rest
    .tableDefinition (textOf run) name (definitionBody run)
  | run => .invocation (textOf run) (run.flatMap callText)

def groupRun (run : List Token) : List Token :=
  declaration.rebuild Token.kind (fun m => [declare (m.items run)]) run

def groupDeclarations (tokens : List Token) : List Token :=
  declarations.rebuild Token.kind (fun m => groupRun (m.items tokens)) tokens

end CommentMacro.Document
