import CommentMacro.Proofs.Table.Records
import CommentMacro.Proofs.Text.Lines
import CommentMacro.Proofs.Text.Words
import Mathlib.Data.List.Forall2

/-!
# Tables written down and read back

A `PrintedTable` is a table as it is written: a line of headers and a line for each row,
with a pipe in front of the first cell and one behind each cell, and with blanks around
the cells and around the whole. It is read back as one record for each row that is not
an alignment row (`parse_text`).

The outer pipes make an empty cell at either end of each line. They do no harm, since
they stand in columns without a header (`entry_outer`) and say nothing about the
alignment (`isAlignment_outer`).
-/

namespace CommentMacro.Table

open Text (isBlank strip splitBy splitLines IsLine)

/-! ## Printed tables -/

/-- A cell, with the blanks that are written around it. -/
structure Cell where
  text : Text
  before : Text
  after : Text
  no_pipe : '|' ∉ text
  no_feed : '\n' ∉ text
  head_filled : ∀ c ∈ text.head?, isBlank c = false
  last_filled : ∀ c ∈ text.getLast?, isBlank c = false
  before_blank : ∀ c ∈ before, isBlank c = true ∧ c ≠ '\n'
  after_blank : ∀ c ∈ after, isBlank c = true ∧ c ≠ '\n'

/-- A cell that holds a word between spaces. -/
def Cell.ofWord (before : Nat) (word : Text) (after : Nat)
    (h : (word.all fun c => c != '|' && !isBlank c) = true) : Cell :=
  have hword : ∀ c ∈ word, c ≠ '|' ∧ isBlank c = false := by
    simpa using h
  have hspaces : ∀ n, ∀ c ∈ List.replicate n ' ', isBlank c = true ∧ c ≠ '\n' := by
    intro n c hc
    obtain rfl := List.eq_of_mem_replicate hc
    exact ⟨rfl, by decide⟩
  { text := word
    before := List.replicate before ' '
    after := List.replicate after ' '
    no_pipe := fun hmem => (hword _ hmem).1 rfl
    no_feed := fun hmem => absurd (hword _ hmem).2 (by decide)
    head_filled := fun c hc => (hword c (List.mem_of_mem_head? hc)).2
    last_filled := fun c hc => (hword c (List.mem_of_mem_getLast? hc)).2
    before_blank := hspaces before
    after_blank := hspaces after }

/-- A row below the headers, and the line break in front of it. -/
structure RowLine where
  stop : Text
  cells : List Cell
  stop_eq : stop = ['\n'] ∨ stop = ['\r', '\n']

/-- A table with blanks around it. -/
structure PrintedTable where
  before : Text
  headers : List Cell
  rows : List RowLine
  after : Text
  before_blank : ∀ c ∈ before, isBlank c = true
  after_blank : ∀ c ∈ after, isBlank c = true

def Cell.padded (cell : Cell) : Text :=
  cell.before ++ cell.text ++ cell.after

/-- A line with a pipe at its start and one behind each cell. -/
def printCells (cells : List Cell) : Text :=
  '|' :: cells.flatMap fun cell => cell.padded ++ ['|']

def printLines (headers : List Cell) (rows : List RowLine) : Text :=
  printCells headers ++ rows.flatMap fun row => row.stop ++ printCells row.cells

def PrintedTable.text (table : PrintedTable) : Text :=
  table.before ++ printLines table.headers table.rows ++ table.after

def PrintedTable.contents (table : PrintedTable) : List (List Text) :=
  table.rows.map fun row => row.cells.map Cell.text

/-! ## The cells of a line -/

theorem Cell.strip_padded (cell : Cell) : strip cell.padded = cell.text := by
  rw [Cell.padded, Text.strip_append_blanks fun c hc => (cell.after_blank c hc).1,
    Text.strip_blanks_append fun c hc => (cell.before_blank c hc).1]
  exact Text.strip_eq_self cell.head_filled cell.last_filled

theorem Cell.not_mem_padded (cell : Cell) {c : Char} (htext : c ∉ cell.text)
    (hblank : isBlank c = true → c = '\n') : c ∉ cell.padded := by
  intro hmem
  rw [Cell.padded, List.mem_append, List.mem_append] at hmem
  rcases hmem with (hmem | hmem) | hmem
  · have hblanks := cell.before_blank c hmem
    exact hblanks.2 (hblank hblanks.1)
  · exact htext hmem
  · have hblanks := cell.after_blank c hmem
    exact hblanks.2 (hblank hblanks.1)

theorem splitBy_pipes (cells : List Cell) :
    splitBy (· == '|') (cells.flatMap fun cell => cell.padded ++ ['|']) =
      cells.map Cell.padded ++ [[]] := by
  induction cells with
  | nil => rfl
  | cons cell cells ih =>
      have hpipe : ∀ c ∈ cell.padded, (c == '|') = false := by
        intro c hc
        rw [beq_eq_false_iff_ne]
        rintro rfl
        exact cell.not_mem_padded cell.no_pipe (by decide) hc
      rw [List.flatMap_cons, List.append_assoc, List.singleton_append,
        Text.splitBy_append_cons hpipe (by decide), ih]
      rfl

/-- The cells of a line are read back, with an empty one at either end. -/
theorem cells_printCells (row : List Cell) :
    cells (printCells row) = [] :: (row.map Cell.text ++ [[]]) := by
  have hpipes : splitBy (· == '|') (printCells row) = [] :: (row.map Cell.padded ++ [[]]) := by
    rw [← splitBy_pipes]
    rfl
  have hnil : strip [] = [] := rfl
  rw [cells, hpipes, List.map_cons, List.map_append, List.map_map, List.map_singleton, hnil]
  congr 2
  exact List.map_congr_left fun cell _ => cell.strip_padded

/-! ## The lines of a table -/

theorem getLast?_printCells (row : List Cell) : (printCells row).getLast? = some '|' := by
  induction row using List.reverseRecOn with
  | nil => rfl
  | append_singleton row cell ih =>
      rw [printCells, List.flatMap_append, List.flatMap_singleton, ← List.cons_append,
        ← List.append_assoc, List.getLast?_concat]

theorem lineFeed_not_mem_printCells (row : List Cell) : '\n' ∉ printCells row := by
  intro hmem
  simp only [printCells, List.mem_cons, List.mem_flatMap, List.mem_append, List.not_mem_nil,
    or_false] at hmem
  rcases hmem with heq | ⟨cell, -, hmem | heq⟩
  · exact absurd heq (by decide)
  · exact cell.not_mem_padded cell.no_feed (fun _ => rfl) hmem
  · exact absurd heq (by decide)

theorem isLine_printCells (row : List Cell) {stop : Text}
    (h : stop = ['\n'] ∨ stop = ['\r', '\n']) : IsLine (printCells row) stop where
  no_feed := lineFeed_not_mem_printCells row
  stop_eq := h
  no_return := by
    intro _
    rw [getLast?_printCells]
    decide

theorem splitLines_printLines (headers : List Cell) (rows : List RowLine) :
    splitLines (printLines headers rows) =
      printCells headers :: rows.map fun row => printCells row.cells := by
  induction rows generalizing headers with
  | nil =>
      rw [printLines, List.flatMap_nil, List.append_nil]
      exact Text.splitLines_of_not_mem (lineFeed_not_mem_printCells headers)
  | cons row rows ih =>
      rw [printLines, List.flatMap_cons, List.append_assoc,
        Text.splitLines_line (isLine_printCells headers row.stop_eq)]
      exact congrArg (printCells headers :: ·) (ih row.cells)

theorem getLast?_printLines (headers : List Cell) (rows : List RowLine) :
    (printLines headers rows).getLast? = some '|' := by
  induction rows using List.reverseRecOn with
  | nil => simp [printLines, getLast?_printCells]
  | append_singleton rows row ih => simp [printLines, getLast?_printCells]

/-- The blanks around a table are taken off, and nothing else. -/
theorem strip_text (table : PrintedTable) :
    strip table.text = printLines table.headers table.rows := by
  rw [PrintedTable.text, Text.strip_append_blanks table.after_blank,
    Text.strip_blanks_append table.before_blank]
  apply Text.strip_eq_self
  · intro c hc
    obtain rfl := Option.some.inj hc
    decide
  · intro c hc
    rw [getLast?_printLines] at hc
    obtain rfl := Option.some.inj hc
    decide

/-! ## The cells at the ends -/

theorem isAlignment_outer (row : List Text) :
    isAlignment ([] :: (row ++ [[]])) = isAlignment row := by
  simp [isAlignment]

theorem columns_outer (headers : List Text) :
    columns ([] :: (headers ++ [[]])) =
      (columns headers).map fun column => (column.1, column.2 + 1) := by
  simp [columns, List.zipIdx_append, List.zipIdx_succ, List.filter_map, Function.comp_def]

/-- An empty cell behind a row is what a row that is too short has anyway. -/
theorem getD_append_nil (row : List Text) (i : Nat) : (row ++ [[]]).getD i [] = row.getD i [] := by
  rw [List.getD_eq_getElem?_getD, List.getD_eq_getElem?_getD, List.getElem?_append]
  split
  · rfl
  · next h =>
      have hnone : row[i]? = none := List.getElem?_eq_none (by omega)
      rw [hnone, List.getElem?_singleton]
      split <;> rfl

theorem entry_outer (headers row : List Text) :
    entry ([] :: (headers ++ [[]])) ([] :: (row ++ [[]])) = entry headers row := by
  rw [entry, columns_outer, List.map_map, entry]
  congr 1
  apply List.map_congr_left
  intro column _
  show (column.1, (row ++ [[]]).getD column.2 []) = _
  rw [getD_append_nil]

/-! ## Reading a table back -/

/-- A table is read as the records of its rows, without the alignment rows. -/
theorem parse_eq (table : PrintedTable) :
    parse table.text =
      (table.contents.filter (!isAlignment ·)).map (entry (table.headers.map Cell.text)) := by
  have hrows : (table.rows.map fun row => printCells row.cells).map cells =
      table.contents.map fun row => [] :: (row ++ [[]]) := by
    rw [PrintedTable.contents, List.map_map, List.map_map]
    exact List.map_congr_left fun row _ => cells_printCells row.cells
  rw [parse, strip_text, splitLines_printLines, List.map_cons, cells_printCells, hrows]
  show ((table.contents.map fun row => [] :: (row ++ [[]])).filter (!isAlignment ·)).map
    (entry ([] :: (table.headers.map Cell.text ++ [[]]))) = _
  rw [List.filter_map, List.map_map]
  have hkept : ((!isAlignment ·) ∘ fun row => [] :: (row ++ [[]])) = (!isAlignment ·) := by
    funext row
    exact congrArg not (isAlignment_outer row)
  have hentries : (entry ([] :: (table.headers.map Cell.text ++ [[]])) ∘
      fun row => [] :: (row ++ [[]])) = entry (table.headers.map Cell.text) := by
    funext row
    exact entry_outer _ row
  rw [hkept, hentries]

/-- A printed table is read back: there is one record for each row that is no alignment
row, in their order, and it says what stands in the row. -/
theorem parse_text (table : PrintedTable) :
    List.Forall₂ (IsRecord (table.headers.map Cell.text))
      (table.contents.filter fun row => ¬ IsAlignment row) (parse table.text) := by
  have hfilter : (table.contents.filter fun row => ¬ IsAlignment row) =
      table.contents.filter (!isAlignment ·) := by
    apply List.filter_congr
    intro row _
    simp [← isAlignment_iff]
  rw [hfilter, parse_eq, List.forall₂_map_right_iff, List.forall₂_same]
  intro row _
  exact isRecord_entry _ row

/-- The later of two columns with one header counts, and a short row has empty cells. -/
theorem parse_text_ragged :
    let table : PrintedTable :=
      { before := " \n".toList
        headers :=
          [.ofWord 0 "a".toList 1 rfl, .ofWord 1 "b".toList 0 rfl, .ofWord 0 "a".toList 0 rfl]
        rows :=
          [⟨"\r\n".toList, [.ofWord 0 "-".toList 0 rfl, .ofWord 1 ":-:".toList 0 rfl], .inr rfl⟩,
            ⟨"\n".toList,
              [.ofWord 0 "1".toList 0 rfl, .ofWord 0 [] 2 rfl, .ofWord 0 "3".toList 0 rfl], .inl rfl⟩,
            ⟨"\r\n".toList, [.ofWord 1 "4".toList 1 rfl], .inr rfl⟩]
        after := "\n".toList
        before_blank := List.all_eq_true.mp rfl
        after_blank := List.all_eq_true.mp rfl }
    table.text = " \n|a | b|a|\r\n|-| :-:|\n|1|  |3|\r\n| 4 |\n".toList ∧
      List.Forall₂ (IsRecord ["a".toList, "b".toList, "a".toList])
        [["1".toList, [], "3".toList], ["4".toList]] (parse table.text) ∧
      parse table.text =
        [[("a".toList, "3".toList), ("b".toList, [])], [("a".toList, []), ("b".toList, [])]] := by
  intro table
  have hkept : (table.contents.filter fun row => ¬ IsAlignment row) =
      [["1".toList, [], "3".toList], ["4".toList]] := by
    decide
  have hrecords := parse_text table
  rw [hkept] at hrecords
  exact ⟨rfl, hrecords, by decide +kernel⟩

end CommentMacro.Table
