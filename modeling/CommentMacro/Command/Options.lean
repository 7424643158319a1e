import CommentMacro.Decimal.Binary64
import CommentMacro.Template.Scope

/-!
# Options

What a command line asks for: the file to expand, how to expand it, where the
result goes, which anomalies are told, and whether to keep watching the file.

An option that has a text may be left blank, by a double dash in the place of the
text. A blank option has no value, not even the one that it has by default.
-/

namespace CommentMacro.Command

/-- What an option is set to. -/
inductive Entry (α : Type) where
  | filled (value : α)
  | blank
  deriving DecidableEq, Repr, Inhabited

namespace Entry

/-- What leaves an option blank in the place of its text. -/
def blankMark : Text :=
  "--".toList

def ofText (t : Text) : Entry Text :=
  if t = blankMark then blank else filled t

/-- The entry that a text makes of which only some can be read. -/
def read? {α : Type} (reader : Text → Option α) (t : Text) : Option (Entry α) :=
  match ofText t with
  | filled t => (reader t).map filled
  | blank => some blank

/-- How a blank entry is shown: as an empty list. -/
def blankText : Text :=
  "[]".toList

def display {α : Type} (text : α → Text) : Entry α → Text
  | filled value => text value
  | blank => blankText

end Entry

structure Options where
  source : Text
  /-- The comment sign of its language. -/
  sign : Entry Text
  /-- The file for the result, if it is not to go back into the source. -/
  output : Option (Entry Text)
  /-- Whether the result is printed and no file is written. -/
  printed : Bool
  scoping : Entry Scoping
  strict : Bool
  verbose : Bool
  watch : Bool
  /-- The seconds between two looks at a watched file. -/
  interval : Entry Binary64
  deriving DecidableEq, Repr, Inhabited

def Options.default : Options where
  source := []
  sign := .filled "//".toList
  output := none
  printed := false
  scoping := .filled .flat
  strict := false
  verbose := false
  watch := false
  interval := .filled (.finite false 1 (-1))

inductive Audience where
  | silent
  | reporting
  | strict
  deriving DecidableEq, Repr, Inhabited

/-- The audience that the options ask for: being strict goes first. -/
def Options.audience (options : Options) : Audience :=
  if options.strict then .strict
  else if options.verbose then .reporting
  else .silent

end CommentMacro.Command
