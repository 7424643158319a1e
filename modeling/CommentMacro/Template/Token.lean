import CommentMacro.Pattern.Basic

/-!
# Tokens of a template

A template is first cut into plain text, white space and directives, which are
written in double braces; then each directive is replaced by what it says. One
type holds the tokens of both stages, and the stage is part of the type: what is
rendered holds no directive that nobody has looked inside. Each token keeps the
text it was read from.
-/

namespace CommentMacro.Template

/-- The sides on which a directive asks, with a tilde, to drop white space. -/
inductive Trim where
  | both
  | left
  | right
  | neither
  deriving DecidableEq, Repr, Inhabited

namespace Trim

def kind : Trim → Kind
  | both => 'B'
  | left => 'L'
  | right => 'R'
  | neither => 'H'

def opening : Trim → Text
  | both => ['\x7b', '\x7b', '~']
  | left => ['\x7b', '\x7b', '~']
  | right => ['\x7b', '\x7b']
  | neither => ['\x7b', '\x7b']

def closing : Trim → Text
  | both => ['~', '\x7d', '\x7d']
  | left => ['\x7d', '\x7d']
  | right => ['~', '\x7d', '\x7d']
  | neither => ['\x7d', '\x7d']

/-- In the order in which the content of a directive is looked for. -/
def all : List Trim :=
  [both, left, right, neither]

end Trim

/-- The head of a loop over the rows of a table: the names for the row number
and for the row, either of which may be missing. -/
structure Loop where
  text : Text
  key : Option Text
  value : Option Text
  table : Text
  deriving DecidableEq, Repr, Inhabited

/-- How far a template has been read. -/
inductive Stage where
  | raw
  | interpreted

inductive Token : Stage → Type where
  | plain {stage : Stage} (text : Text) : Token stage
  /-- A run of spaces, of tabs, or of line break characters. -/
  | blank {stage : Stage} (text : Text) : Token stage
  /-- A directive before anyone has looked inside it. -/
  | directive (text : Text) (trim : Trim) (content : Text) : Token .raw
  | loop {stage : Stage} (head : Loop) : Token stage
  /-- Closes the innermost loop. -/
  | endLoop {stage : Stage} (text : Text) : Token stage
  /-- The field of a record. -/
  | member {stage : Stage} (text name field : Text) : Token stage
  | count {stage : Stage} (text name : Text) : Token stage
  | reference {stage : Stage} (text name : Text) : Token stage
  deriving DecidableEq, Repr

/-- The kind of a run of white space: that of its first character. -/
def blankKind : Text → Kind
  | ' ' :: _ => 'S'
  | '\t' :: _ => 'T'
  | _ => 'N'

variable {stage : Stage}

namespace Token

instance : Inhabited (Token stage) :=
  ⟨plain []⟩

def kind : Token stage → Kind
  | plain _ => 'X'
  | blank text => blankKind text
  | directive _ trim _ => trim.kind
  | loop _ => '@'
  | endLoop _ => 'E'
  | member .. => '.'
  | count .. => '#'
  | reference .. => '$'

def text : Token stage → Text
  | plain t => t
  | blank t => t
  | directive t _ _ => t
  | loop head => head.text
  | endLoop t => t
  | member t _ _ => t
  | count t _ => t
  | reference t _ => t

end Token

def textOf (tokens : List (Token stage)) : Text :=
  tokens.flatMap Token.text

end CommentMacro.Template
