import CommentMacro.Pattern.Basic

/-!
# Tokens of a document

A document is read line by line into the tokens of its lines; runs of these are
then put together into definitions, calls and generated regions. Every token
holds the exact text that it stands for, so that a token which is passed through
gives its text again.
-/

namespace CommentMacro.Document

inductive Marker where
  | start
  | generate
  | finish
  deriving DecidableEq, Repr, Inhabited

inductive Token where
  /-- The comment sign at the start of a line. -/
  | comment (text : Text)
  /-- A line feed, with a carriage return before it or without. -/
  | lineBreak (text : Text)
  /-- What else is on a line. -/
  | block (text : Text)
  | marker (text : Text) (which : Marker)
  | macroHeader (text name : Text) (parameters : List Text)
  | tableHeader (text name : Text)
  /-- The space behind the comment sign and the two spaces that indent the body
  of a definition. -/
  | indent (text : Text)
  | macroDefinition (text name : Text) (parameters : List Text) (body : Text)
  | tableDefinition (text name body : Text)
  | invocation (text call : Text)
  /-- A generated region: the line that starts it, the text generated before,
  and the end marker with its comment sign and line break. -/
  | region (opening body closing : Text)
  deriving DecidableEq, Repr, Inhabited

def Marker.kind : Marker → Kind
  | start => 'S'
  | generate => 'G'
  | finish => 'E'

namespace Token

def kind : Token → Kind
  | comment _ => 'C'
  | lineBreak _ => 'R'
  | block _ => 'X'
  | marker _ which => which.kind
  | macroHeader .. => 'M'
  | tableHeader .. => 'T'
  | indent _ => '2'
  | macroDefinition .. => 'F'
  | tableDefinition .. => 'A'
  | invocation .. => '0'
  | region .. => 'Z'

def text : Token → Text
  | comment t => t
  | lineBreak t => t
  | block t => t
  | marker t _ => t
  | macroHeader t _ _ => t
  | tableHeader t _ => t
  | indent t => t
  | macroDefinition t _ _ _ => t
  | tableDefinition t _ _ => t
  | invocation t _ => t
  | region opening body closing => opening ++ body ++ closing

def marker? : Token → Option Marker
  | marker _ which => some which
  | _ => none

end Token

def textOf (tokens : List Token) : Text :=
  tokens.flatMap Token.text

@[simp] theorem textOf_nil : textOf [] = [] := rfl

@[simp] theorem textOf_cons (token : Token) (tokens : List Token) :
    textOf (token :: tokens) = token.text ++ textOf tokens := rfl

@[simp] theorem textOf_append (first second : List Token) :
    textOf (first ++ second) = textOf first ++ textOf second :=
  List.flatMap_append

end CommentMacro.Document
