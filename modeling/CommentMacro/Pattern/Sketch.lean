import CommentMacro.Pattern.Basic
import CommentMacro.Value

/-!
# Sketches of patterns

A sketch is a pattern written down loosely: wherever a pattern is due, a value
may stand. A text of one character is that kind and any other text the word of
its characters; every other value is refused, and it is the first refused value
that is reported. A part that is itself an operator is read before the values
beside it.
-/

namespace CommentMacro.Pattern

/-- A pattern in which values may stand for patterns. -/
inductive Sketch where
  | value (v : Value)
  | exact (p : Pattern)
  | seq (parts : List Sketch)
  | alt (choices : List Sketch)
  | repeated (greedy : Bool) (minimum : Nat) (inner : Sketch)
  | optional (inner : Sketch)
  | capture (name : Text) (inner : Sketch)
  deriving Inhabited

def ofValue : Value → Except Value Pattern
  | .text [k] => .ok (kind k)
  | .text w => .ok (word w)
  | v => .error v

/-- A part whose operators have been read: a pattern, or a value yet to be judged. -/
abbrev Sketch.Part := Value ⊕ Pattern

def Sketch.Part.toPattern : Sketch.Part → Except Value Pattern
  | .inl v => ofValue v
  | .inr p => .ok p

namespace Sketch

mutual

/-- Reads the operators of a sketch, the innermost first. -/
def read : Sketch → Except Value Part
  | value v => .ok (.inl v)
  | exact p => .ok (.inr p)
  | seq parts => do
    let parts ← readAll parts
    return .inr (Pattern.seq (← parts.mapM Part.toPattern))
  | alt choices => do
    let choices ← readAll choices
    return .inr (Pattern.alt (← choices.mapM Part.toPattern))
  | repeated greedy minimum inner => do
    return .inr (.repeated greedy minimum (← (← read inner).toPattern))
  | optional inner => do
    return .inr (Pattern.optional (← (← read inner).toPattern))
  | capture name inner => do
    return .inr (.capture name (← (← read inner).toPattern))

def readAll : List Sketch → Except Value (List Part)
  | [] => .ok []
  | part :: parts => do
    let first ← read part
    return first :: (← readAll parts)

end

/-- The pattern of a sketch, or the value that stands for none. -/
def toPattern (sketch : Sketch) : Except Value Pattern := do
  (← read sketch).toPattern

end Sketch

end CommentMacro.Pattern
