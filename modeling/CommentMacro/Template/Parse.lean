import CommentMacro.Anomaly
import CommentMacro.Template.Directive
import CommentMacro.Template.Form

/-!
# Reading a template

A template is read in four steps: cut out the directives, cut out the white
space, drop the white space beside directives that ask for it, and replace each
directive by what it says. A directive that says nothing is dropped, and the
listener is told.
-/

namespace CommentMacro.Template

variable {σ : Type}

/-- What a token says, or the content of a directive that says nothing. -/
def Token.meaning : Token .raw → Except Text (Token .interpreted)
  | plain text => .ok (.plain text)
  | blank text => .ok (.blank text)
  | directive text _ content =>
    match interpret? text content with
    | some token => .ok token
    | none => .error content
  | loop head => .ok (.loop head)
  | endLoop text => .ok (.endLoop text)
  | member text name field => .ok (.member text name field)
  | count text name => .ok (.count text name)
  | reference text name => .ok (.reference text name)

/-- Replaces each directive by what it says. -/
def interpretAll (listener : Listener σ) :
    List (Token .raw) → Watched σ (List (Token .interpreted))
  | [] => pure []
  | token :: tokens =>
    match token.meaning with
    | .ok meaning => do return meaning :: (← interpretAll listener tokens)
    | .error content => do
      listener.report (.unrecognizedDirective content)
      interpretAll listener tokens

def parse (listener : Listener σ) (source : Text) : Watched σ (List (Token .interpreted)) :=
  interpretAll listener (trimBlanks (splitBlanks (splitDirectives source)))

end CommentMacro.Template
