import CommentMacro.Text.Blank
import CommentMacro.Value

/-!
# Pipe tables

A table is written a row a line, with a pipe between cells. The first row holds
the headers; every later row becomes a record from headers to cells, apart from
the alignment rows, which carry no data.

- Blanks around the table and around each cell do not count.
- A column without a header is dropped; of two columns with one header the later
  one gives the cell.
- A row that is too short has empty cells at its end.
-/

namespace CommentMacro.Table

def cells (line : Text) : List Text :=
  (Text.splitBy (· == '|') line).map Text.strip

/-- A dash or more, with or without a colon at either end. -/
def isRule (cell : Text) : Bool :=
  let body := if cell.head? = some ':' then cell.tail else cell
  let dashes := if body.getLast? = some ':' then body.dropLast else body
  !dashes.isEmpty && dashes.all (· == '-')

/-- Whether a row only says how the columns are aligned: some cell is filled,
and each filled cell is a rule. -/
def isAlignment (row : List Text) : Bool :=
  let filled := row.filter (!·.isEmpty)
  !filled.isEmpty && filled.all isRule

/-- The columns that have a header, as pairs of header and position. -/
def columns (headers : List Text) : List (Text × Nat) :=
  headers.zipIdx.filter fun column => !column.1.isEmpty

def entry (headers row : List Text) : Bindings Text :=
  Bindings.ofList ((columns headers).map fun column => (column.1, row.getD column.2 []))

/-- The rows of a table, each a record from headers to cells. -/
def parse (source : Text) : List (Bindings Text) :=
  match (Text.splitLines source.strip).map cells with
  | [] => []
  | headers :: rows => (rows.filter (!isAlignment ·)).map (entry headers)

def rowValue (row : Bindings Text) : Value :=
  .record (row.map fun field => (field.1, .text field.2))

def toValue (rows : List (Bindings Text)) : Value :=
  .list (rows.map rowValue)

end CommentMacro.Table
