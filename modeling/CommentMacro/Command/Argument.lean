import CommentMacro.Command.Flag
import CommentMacro.Text.DecimalDigit

/-!
# Arguments

What an argument of a command line is, by itself.

- An argument that starts with a dash is an option, unless it is a single dash
  or a negative number, or is unknown and holds a space.
- A long option may be shortened as long as it stays unambiguous, and its text
  may follow an equals sign.
- Short options may be put together behind one dash, and the last of them may
  have its text directly behind it. An equals sign directly behind the first of
  them does not count.
- Behind a double dash there are no options.
-/

namespace CommentMacro.Command

/-- What an option has attached to it within its own argument. -/
inductive Attached where
  | nothing
  /-- The text behind a short option: its own, or more short options. -/
  | behind (t : Text)
  /-- The text behind a long option and an equals sign. -/
  | assigned (t : Text)
  deriving DecidableEq, Repr, Inhabited

inductive Argument where
  | plain (t : Text)
  /-- The double dash behind which there are no options. -/
  | separator
  | option (flag : Flag) (attached : Attached)
  /-- Looks like an option but is none. -/
  | unknown
  deriving DecidableEq, Repr, Inhabited

namespace Argument

def cutAssignment (t : Text) : Text × Attached :=
  match t.dropWhile (· != '=') with
  | [] => (t, .nothing)
  | _ :: value => (t.takeWhile (· != '='), .assigned value)

def isDigit (c : Char) : Bool :=
  (Text.digitValue? c).isSome

/-- Whether a text is a negative number: a dash and digits, with a point before
the last of them or without. A line feed at the end does not count. -/
def isNegativeNumber : Text → Bool
  | '-' :: t =>
    let t := if t.getLast? = some '\n' then t.dropLast else t
    match t.dropWhile isDigit with
    | [] => !t.isEmpty
    | '.' :: fraction => !fraction.isEmpty && fraction.all isDigit
    | _ => false
  | _ => false

def behindShort : Text → Text
  | '=' :: t => t
  | t => t

def candidates : Text → List Argument
  | '-' :: '-' :: name =>
    let (lead, attached) := cutAssignment ('-' :: '-' :: name)
    (Flag.startingWith lead).map (.option · attached)
  | '-' :: c :: t =>
    match Flag.named? ['-', c] with
    | some flag => [.option flag (.behind (behindShort t))]
    | none => []
  | _ => []

def readInexact (t : Text) : Except Refusal Argument :=
  match candidates t with
  | [argument] => .ok argument
  | _ :: _ :: _ => .error .misused
  | [] => .ok (if isNegativeNumber t || t.contains ' ' then .plain t else .unknown)

def read (t : Text) : Except Refusal Argument :=
  if t.head? != some '-' || t.length = 1 then .ok (.plain t)
  else match Flag.named? t with
    | some flag => .ok (.option flag .nothing)
    | none => readInexact t

/-- Reads the arguments one by one. Behind the separator all are plain. -/
def readAll : List Text → Except Refusal (List Argument)
  | [] => .ok []
  | t :: ts =>
    if t = "--".toList then .ok (.separator :: ts.map .plain)
    else do
      let argument ← read t
      return argument :: (← readAll ts)

end Argument

end CommentMacro.Command
