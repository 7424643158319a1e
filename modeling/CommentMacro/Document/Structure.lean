import CommentMacro.Document.Token

/-!
# The order of the markers

The markers of a document go round a cycle

    outside --start--> declaring --generate--> generating --finish--> outside

in which the start marker may be repeated while declaring. A document may end
anywhere in the cycle. `Document.validate` gives the phase at the end, or the
first marker that is out of order.
-/

namespace CommentMacro.Document

/-- What the markers before a place have led to. -/
inductive Phase where
  | outside
  | declaring
  | generating
  deriving DecidableEq, Repr, Inhabited

inductive Misplacement where
  /-- A generated region is still open. -/
  | regionOpen
  /-- A generated region starts without declarations. -/
  | regionUndeclared
  /-- A region ends that was not started, among declarations. -/
  | endUnopened
  /-- A region ends outside of everything. -/
  | endOutside
  deriving DecidableEq, Repr, Inhabited

def Misplacement.message : Misplacement → Text
  | regionOpen => "all #metagen should be followed by #metaend".toList
  | regionUndeclared => "all #metagen should be preceded by #metacode".toList
  | endUnopened => "all #metaend should be preceded by #metagen".toList
  | endOutside => "all #metaend should be preceded by #metagen and #metacode".toList

def Phase.next : Phase → Marker → Except Misplacement Phase
  | outside, .start => .ok declaring
  | declaring, .start => .ok declaring
  | generating, .start => .error .regionOpen
  | outside, .generate => .error .regionUndeclared
  | declaring, .generate => .ok generating
  | generating, .generate => .error .regionOpen
  | outside, .finish => .error .endOutside
  | declaring, .finish => .error .endUnopened
  | generating, .finish => .ok outside

/-- A marker out of order, with the offsets between which it stands. -/
structure MarkerFault where
  misplacement : Misplacement
  start : Nat
  stop : Nat
  deriving DecidableEq, Repr, Inhabited

def MarkerFault.message (fault : MarkerFault) : Text :=
  "Macro syntax error: ".toList ++ fault.misplacement.message

/-- The phase after the tokens that start at an offset in a phase. -/
def validateFrom (phase : Phase) (offset : Nat) : List Token → Except MarkerFault Phase
  | [] => .ok phase
  | token :: tokens =>
    let stop := offset + token.text.length
    match token.marker? with
    | none => validateFrom phase stop tokens
    | some marker =>
      match phase.next marker with
      | .ok phase => validateFrom phase stop tokens
      | .error misplacement => .error ⟨misplacement, offset, stop⟩

def validate (tokens : List Token) : Except MarkerFault Phase :=
  validateFrom .outside 0 tokens

end CommentMacro.Document
