import CommentMacro.Template.Token
import CommentMacro.Text.Word

/-!
# Forms of a directive

The content of a directive is searched, from the left, for the first place where
one of the known forms stands; what is before and behind it does not matter. At
one place the longer forms are tried first:

    for key,value of table     for key in table      for value of table
    for table                  /for                  name.member
    #table                     name

A number sign may stand before `for`. The loop over a table alone calls its rows
`this`.
-/

namespace CommentMacro.Template

/-- What a directive says. -/
inductive Form where
  | loop (key value : Option Text) (table : Text)
  | endLoop
  | member (name field : Text)
  | count (name : Text)
  | reference (name : Text)
  deriving DecidableEq, Repr, Inhabited

namespace Form

/-- The name of a row in a loop that does not name it. -/
def this : Text :=
  "this".toList

/-- A word, which is not empty, and what follows it. -/
def word? (t : Text) : Option (Text × Text) :=
  let (word, rest) := Text.spanWord t
  if word.isEmpty then none else some (word, rest)

def wordAfter? (lead t : Text) : Option (Text × Text) :=
  (Text.after? lead t).bind word?

/-- The loop with both names, behind the first. -/
def pairLoop? (key rest : Text) : Option Form := do
  let (value, rest) ← wordAfter? ",".toList rest
  let (table, _) ← wordAfter? " of ".toList rest
  return .loop (some key) (some value) table

/-- The loop with a name for the row number, behind that name. -/
def indexLoop? (key rest : Text) : Option Form := do
  let (table, _) ← wordAfter? " in ".toList rest
  return .loop (some key) none table

/-- The loop with a name for the row, behind that name. -/
def valueLoop? (value rest : Text) : Option Form := do
  let (table, _) ← wordAfter? " of ".toList rest
  return .loop none (some value) table

def dropSign : Text → Text
  | '#' :: t => t
  | t => t

def loop? (t : Text) : Option Form := do
  let (first, rest) ← wordAfter? "for ".toList (dropSign t)
  pairLoop? first rest <|> indexLoop? first rest <|> valueLoop? first rest <|>
    some (.loop none (some this) first)

def endLoop? (t : Text) : Option Form := do
  let _ ← Text.after? "/for".toList t
  return .endLoop

def member? (t : Text) : Option Form := do
  let (name, rest) ← word? t
  let (field, _) ← wordAfter? ".".toList rest
  return .member name field

def count? (t : Text) : Option Form := do
  let (name, _) ← wordAfter? "#".toList t
  return .count name

def reference? (t : Text) : Option Form := do
  let (name, _) ← word? t
  return .reference name

def at? (t : Text) : Option Form :=
  loop? t <|> endLoop? t <|> member? t <|> count? t <|> reference? t

def read? : Text → Option Form
  | [] => none
  | c :: t => at? (c :: t) <|> read? t

def token (text : Text) : Form → Token .interpreted
  | .loop key value table => .loop ⟨text, key, value, table⟩
  | .endLoop => .endLoop text
  | .member name field => .member text name field
  | .count name => .count text name
  | .reference name => .reference text name

end Form

/-- What a directive with the given text and content says. -/
def interpret? (text content : Text) : Option (Token .interpreted) :=
  (Form.read? content).map (Form.token text)

end CommentMacro.Template
