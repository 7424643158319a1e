import CommentMacro.Text.Quoted

/-!
# Lines of a text

People count lines and columns where the library counts characters. A `LineMap`
holds the offsets at which the lines of a text start and turns an offset into a
row and a column (`LineMap.locate`) and a row into its line (`LineMap.line?`).

Three conventions say what ends a line: a line feed, a carriage return with a
line feed, or either of these and a lone carriage return too.
-/

namespace CommentMacro

/-- A convention for what ends a line. -/
inductive LineBreaks where
  /-- A carriage return, a line feed, or the two together. -/
  | normal
  | unix
  /-- A carriage return and a line feed together. -/
  | dos
  deriving DecidableEq, Repr, Inhabited

inductive LineFault where
  | unknownConvention (name : Text)
  | noSuchLine
  deriving DecidableEq, Repr, Inhabited

def LineFault.message : LineFault → Text
  | unknownConvention name => name.quoted
  | noSuchLine => "list index out of range".toList

namespace LineBreaks

def named (name : Text) : Except LineFault LineBreaks :=
  if name = "normal".toList then .ok normal
  else if name = "unix".toList then .ok unix
  else if name = "dos".toList then .ok dos
  else .error (.unknownConvention name)

/-- The offsets behind the line breaks of a text that begins at offset `start`.
All conventions agree on the pair of carriage return and line feed. -/
def ends (breaks : LineBreaks) : (start : Nat) → Text → List Nat
  | _, [] => []
  | start, '\r' :: '\n' :: t => (start + 2) :: ends breaks (start + 2) t
  | start, '\n' :: t =>
    if breaks = dos then ends breaks (start + 1) t
    else (start + 1) :: ends breaks (start + 1) t
  | start, '\r' :: t =>
    if breaks = normal then (start + 1) :: ends breaks (start + 1) t
    else ends breaks (start + 1) t
  | start, _ :: t => ends breaks (start + 1) t

end LineBreaks

/-- A text with the offsets at which its lines start. Rows are counted from
`firstRow`. -/
structure LineMap where
  content : Text
  starts : List Nat
  firstRow : Int
  deriving Inhabited

namespace LineMap

def ofText (breaks : LineBreaks) (content : Text) (firstRow : Int) : LineMap :=
  ⟨content, 0 :: breaks.ends 0 content, firstRow⟩

/-- The starts of the lines, and the end of the text. -/
def bounds (map : LineMap) : List Nat :=
  map.starts ++ [map.content.length]

/-- The row of an offset, and its column, counted from zero. An offset before
the text counts back from the end of it, in the row before the first. -/
def locate (map : LineMap) (index : Int) : Int × Int :=
  match map.starts.countP (fun (start : Nat) => decide ((start : Int) ≤ index)) with
  | 0 => (map.firstRow - 1, index - map.content.length)
  | row + 1 => (map.firstRow + row, index - (map.starts.getD row 0 : Nat))

/-- The line of a row, with its line break. Rows before the first show the
first line. -/
def line? (map : LineMap) (row : Int) : Except LineFault Text :=
  let index := (row - map.firstRow).toNat
  match map.bounds[index]?, map.bounds[index + 1]? with
  | some start, some stop => .ok (Text.slice map.content start stop)
  | _, _ => .error .noSuchLine

end LineMap

end CommentMacro
