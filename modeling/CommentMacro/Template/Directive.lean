import CommentMacro.Pattern.Segment
import CommentMacro.Template.Token

/-!
# Directives and white space in a template

A template is cut in two passes, each with a pattern over its characters: first
at its directives, which are written in double braces on one line, then the plain
text between them at its runs of spaces, of tabs, and of line break characters.

A tilde directly inside the braces of a directive asks for the white space on
that side to be dropped: to its right a run of any kind, to its left a run of
spaces or tabs (`trimBlanks`).
-/

namespace CommentMacro.Template

def plainBetween (source : Text) (start stop : Nat) : List (Token .raw) :=
  [.plain (Text.slice source start stop)]

/-- Cuts a text at the matches of a pattern. What is between them is plain text. -/
def cutPlain (p : Pattern) (onMatch : Text → Match → List (Token .raw)) (source : Text) :
    List (Token .raw) :=
  p.chunk source.toArray (onMatch source) (plainBetween source)

/-! ## Directives -/

/-- As few characters of a line as possible. It may not run past closing braces,
or `{{~a}} b {{c~}}` would read as one directive. -/
def contentPattern : Pattern :=
  .lazyStar (.seq [.notAhead ['\x7d', '\x7d'], .other ['\n']])

/-- The content is remembered under the kind of the trim. -/
def enclosed (trim : Trim) : Pattern :=
  .seq [.word trim.opening, .capture [trim.kind] contentPattern, .word trim.closing]

/-- The order of the alternatives matters: it decides which sides a tilde belongs
to. -/
def directivePattern : Pattern :=
  .alt [enclosed .both, enclosed .left, enclosed .right, enclosed .neither]

/-- The directive of a match: its trim is the first one that remembers a content. -/
def directiveOf (source : Text) (m : Match) : List (Token .raw) :=
  let found := Trim.all.findSome? fun trim =>
    (m.group? [trim.kind] source).map (Token.directive (m.items source) trim)
  found.toList

def splitDirectives (source : Text) : List (Token .raw) :=
  cutPlain directivePattern directiveOf source

/-! ## White space -/

def blankPattern : Pattern :=
  .alt [.plus (.kind ' '), .plus (.kind '\t'), .plus (.kinds ['\r', '\n'])]

def blankOf (source : Text) (m : Match) : List (Token .raw) :=
  [.blank (m.items source)]

def splitRuns (source : Text) : List (Token .raw) :=
  cutPlain blankPattern blankOf source

/-- Cuts the white space out of the plain text among the tokens. -/
def splitBlanks (tokens : List (Token .raw)) : List (Token .raw) :=
  tokens.flatMap fun
    | .plain t => splitRuns t
    | token => [token]

def trimName : Text :=
  "trim".toList

/-- A directive with the white space that it drops: on both sides, on its right,
or on its left. -/
def trimPattern : Pattern :=
  .alt [
    .seq [.kinds ['S', 'T'], .capture trimName (.kind 'B'), .kinds ['S', 'T', 'N']],
    .seq [.capture trimName (.kinds ['B', 'R']), .kinds ['S', 'T', 'N']],
    .seq [.kinds ['S', 'T'], .capture trimName (.kinds ['B', 'L'])]]

/-- Drops the white space beside directives that ask for it. -/
def trimBlanks (tokens : List (Token .raw)) : List (Token .raw) :=
  trimPattern.rebuild Token.kind (fun m => (m.group? trimName tokens).getD []) tokens

end CommentMacro.Template
