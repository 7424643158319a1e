import CommentMacro.Text.Basic

/-!
# Patterns over kinds

A `Pattern` describes sequences of kinds, one character each, with the operators
of a backtracking search. It is read over the tokens of a document, whose kinds
tell its structure, and over a text, in which each character is its own kind.

The constructors are binary; `Pattern.seq`, `Pattern.alt` and the named
repetitions are the vocabulary in which patterns are written.
-/

namespace CommentMacro

/-- The kind of a token: one character. -/
abbrev Kind := Char

/-- A description of sequences of kinds. -/
inductive Pattern where
  /-- One token whose kind is among the given ones. -/
  | kinds (among : Text)
  /-- One token whose kind is none of the given ones. -/
  | other (refused : Text)
  | any
  /-- No token, and only after the last one. -/
  | finish
  /-- No token, and only where the kinds of a word do not come next. -/
  | notAhead (word : Text)
  | empty
  | both (first second : Pattern)
  /-- The first choice or, failing that, the second. -/
  | either (first second : Pattern)
  /-- The inner pattern `minimum` times or more. -/
  | repeated (greedy : Bool) (minimum : Nat) (inner : Pattern)
  /-- The inner pattern, whose extent is remembered under a name. -/
  | capture (name : Text) (inner : Pattern)
  deriving DecidableEq, Inhabited

namespace Pattern

def never : Pattern :=
  kinds []

def kind (k : Kind) : Pattern :=
  kinds [k]

def seq (parts : List Pattern) : Pattern :=
  parts.foldr both empty

def alt (choices : List Pattern) : Pattern :=
  choices.foldr either never

def word (w : Text) : Pattern :=
  seq (w.map kind)

/-- Once or more, as often as possible first. -/
def plus (inner : Pattern) : Pattern :=
  repeated true 1 inner

def star (inner : Pattern) : Pattern :=
  repeated true 0 inner

/-- Once or more, as seldom as possible first. -/
def lazyPlus (inner : Pattern) : Pattern :=
  repeated false 1 inner

def lazyStar (inner : Pattern) : Pattern :=
  repeated false 0 inner

def optional (inner : Pattern) : Pattern :=
  alt [inner, empty]

end Pattern

end CommentMacro
