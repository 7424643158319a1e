import CommentMacro.Diagnostic.LineMap

/-!
# Excerpts

An excerpt shows one line of a text and draws carets under the part of it that a
message is about. A complaint names the place, gives the message, and shows the
excerpt below.
-/

namespace CommentMacro

def Text.stripLineEnd (t : Text) : Text :=
  (t.reverse.dropWhile fun c => c == '\r' || c == '\n').reverse

/-- The text before a position; a negative position counts from the end. -/
def Text.before (t : Text) (stop : Int) : Text :=
  if stop < 0 then t.take (t.length + stop).toNat else t.take stop.toNat

namespace Excerpt

/-- The blanks that stand under a text: a tab under a tab, else a space. -/
def blanks (t : Text) : Text :=
  t.map fun c => if c = '\t' then '\t' else ' '

/-- How many carets mark `width` characters from `start` on: one at least, and
none behind the end of the line. -/
def caretCount (line : Text) (start width : Int) : Nat :=
  (max 1 (min width (line.length - start))).toNat

/-- A line behind `lead`, and below it carets with a caption under the part from
`start` on. -/
def draw (line : Text) (start width : Int) (lead caption : Text) : Text :=
  let shown := line.stripLineEnd
  lead ++ shown ++ '\n' :: blanks (lead ++ shown.before start) ++
    List.replicate (caretCount shown start width) '^' ++ ' ' :: caption

end Excerpt

def Excerpt.nearHere : Text :=
  "near here".toList

/-- A message about the characters from `start` to `stop`: the place, the
message, and the excerpt. Columns are counted from one. -/
def LineMap.complaint (map : LineMap) (name : Option Text) (start stop : Int) (message : Text) :
    Except LineFault Text := do
  let (row, column) := map.locate start
  let place := match name with
    | none => "At".toList
    | some name => name ++ [':']
  let line ← map.line? row
  return place ++ " line ".toList ++ Text.ofInt row ++ ", column ".toList ++
    Text.ofInt (column + 1) ++ ": ".toList ++ message ++ '\n' ::
    Excerpt.draw line column (stop - start) " >>> ".toList Excerpt.nearHere

end CommentMacro
