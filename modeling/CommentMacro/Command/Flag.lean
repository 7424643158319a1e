import CommentMacro.Command.Options

/-!
# Flags

The options that may stand on a command line, with their names. Some of them
have a text of their own; the others are simply there or not.
-/

namespace CommentMacro.Command

inductive Flag where
  | help
  | sign
  | output
  | printed
  | scoping
  | strict
  | verbose
  | watch
  | interval
  deriving DecidableEq, Repr, Inhabited

namespace Flag

def takesText : Flag → Bool
  | sign => true
  | output => true
  | scoping => true
  | interval => true
  | _ => false

def names : List (Text × Flag) :=
  [("-h".toList, help), ("--help".toList, help),
   ("-c".toList, sign), ("--comment".toList, sign),
   ("-o".toList, output), ("--output".toList, output),
   ("--stdout".toList, printed), ("--scoping".toList, scoping), ("--strict".toList, strict),
   ("-v".toList, verbose), ("--verbose".toList, verbose),
   ("-w".toList, watch), ("--watch".toList, watch), ("--interval".toList, interval)]

def named? (name : Text) : Option Flag :=
  (names.find? fun entry => entry.1 = name).map (·.2)

/-- The options whose names begin with the given text, one for each name. -/
def startingWith (lead : Text) : List Flag :=
  (names.filter fun entry => lead.isPrefixOf entry.1).map (·.2)

end Flag

/-- An option with its text, which is empty if it has none. -/
structure Request where
  flag : Flag
  text : Text
  deriving DecidableEq, Repr, Inhabited

/-- Why a command line gives no options. -/
inductive Refusal where
  | misused
  | helpWanted
  deriving DecidableEq, Repr, Inhabited

def Refusal.status : Refusal → Nat
  | misused => 2
  | helpWanted => 0

end CommentMacro.Command
