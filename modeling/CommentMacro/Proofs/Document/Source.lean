import CommentMacro.Proofs.Document.Lines
import CommentMacro.Proofs.Text.Words

/-!
# Writing declarations down

An `Item` is a declaration that can be written down on lines of its own: the
definition of a macro or of a table, or a call on one line. What its parts have to
satisfy so that they can be read back is part of them. `printBlock` writes items
between a line with a start marker and a line with a generate marker.

Each line is read by itself, into the comment sign, the tokens of its piece and the
line break (`splitLines_printLines`); what is read from the piece is told line by line
(`splitPiece_macroPiece`, `splitPiece_bodyPiece` and so on).
-/

namespace CommentMacro.Document

/-! ## The parts of a declaration -/

/-- The line breaks of a document that uses the same one throughout. -/
inductive LineEnd where
  | feed
  | returnAndFeed
  deriving DecidableEq, Repr, Inhabited

def LineEnd.text : LineEnd → Text
  | feed => ['\n']
  | returnAndFeed => ['\r', '\n']

/-- A text that a line break may follow: there is none in it, and none begins at its
end. -/
structure OneLine (t : Text) : Prop where
  no_feed : '\n' ∉ t
  no_return : t.getLast? ≠ some '\r'

instance decidableOneLine (t : Text) : Decidable (OneLine t) :=
  decidable_of_iff ('\n' ∉ t ∧ t.getLast? ≠ some '\r')
    ⟨fun h => ⟨h.1, h.2⟩, fun h => ⟨h.no_feed, h.no_return⟩⟩

structure DefinedName where
  text : Text
  word : Text.Word text
  short : text.length ≤ nameLimit

structure ParameterList where
  names : List Text
  words : ∀ name ∈ names, Text.Word name
  short : (Text.join ", ".toList names).length ≤ nameLimit

def ParameterList.text (parameters : ParameterList) : Text :=
  Text.join ", ".toList parameters.names

/-- The lines of the body of a definition, without what indents them. -/
structure BodyLines where
  lines : List Text
  ne_nil : lines ≠ []
  oneLine : ∀ line ∈ lines, OneLine line

/-- A call on one line. Behind a number sign it might be a marker or a header, and
behind two spaces a line of a body. -/
structure CallLine where
  text : Text
  ne_nil : text ≠ []
  oneLine : OneLine text
  no_number : text.head? ≠ some '#'
  no_indent : ¬ "  ".toList <+: text

/-- A declaration that can be written down. -/
inductive Item where
  | macroItem (name : DefinedName) (parameters : ParameterList) (body : BodyLines)
  | tableItem (name : DefinedName) (body : BodyLines)
  | callItem (call : CallLine)

/-! ## Their lines -/

def macroPiece (name : DefinedName) (parameters : ParameterList) : Text :=
  macroLead ++ name.text ++ '(' :: parameters.text ++ [')']

def tablePiece (name : DefinedName) : Text :=
  tableLead ++ name.text

/-- A line of a body behind the comment sign: nothing at all if it is empty. -/
def bodyPiece (line : Text) : Text :=
  if line = [] then [] else "   ".toList ++ line

def Item.pieces : Item → List Text
  | macroItem name parameters body => macroPiece name parameters :: body.lines.map bodyPiece
  | tableItem name body => tablePiece name :: body.lines.map bodyPiece
  | callItem call => [' ' :: call.text]

section Printing

variable (sign : Text) (stop : LineEnd)

def printLine (piece : Text) : Text :=
  sign ++ piece ++ stop.text

def Item.print (item : Item) : Text :=
  item.pieces.flatMap (printLine sign stop)

/-- A block of declarations: a line with a start marker, the items, and a line with a
generate marker. -/
def printBlock (items : List Item) : Text :=
  printLine sign stop Marker.start.text ++ items.flatMap (Item.print sign stop) ++
    printLine sign stop Marker.generate.text

/-- The declaration that an item is read back as: the definition with the lines of its
body, or the call with the line break behind it. -/
def Item.token : Item → Token
  | macroItem name parameters body =>
    .macroDefinition (print sign stop (macroItem name parameters body)) name.text
      parameters.names (Text.join stop.text body.lines)
  | tableItem name body =>
    .tableDefinition (print sign stop (tableItem name body)) name.text
      (Text.join stop.text body.lines)
  | callItem call =>
    .invocation (print sign stop (callItem call)) (call.text ++ stop.text)

def lineTokens (piece : Text) : List Token :=
  .comment sign :: (splitPiece piece ++ [.lineBreak stop.text])

def Item.lines (item : Item) : List Token :=
  item.pieces.flatMap (lineTokens sign stop)

theorem textOf_lineTokens (piece : Text) :
    textOf (lineTokens sign stop piece) = printLine sign stop piece := by
  rw [lineTokens, textOf_cons, textOf_append, textOf_splitPiece]
  simp [printLine, Token.text]

theorem Item.textOf_lines (item : Item) : textOf (item.lines sign stop) = item.print sign stop := by
  rw [Item.lines, Item.print]
  induction item.pieces with
  | nil => rfl
  | cons piece pieces ih =>
      rw [List.flatMap_cons, List.flatMap_cons, textOf_append, textOf_lineTokens, ih]

end Printing

/-! ## Each piece stands on one line -/

theorem OneLine.append {front t : Text} (h : OneLine t) (hne : t ≠ []) (hfeed : '\n' ∉ front) :
    OneLine (front ++ t) where
  no_feed := by simp [hfeed, h.no_feed]
  no_return := by
    have hreturn := h.no_return
    rw [List.getLast?_append]
    cases hlast : t.getLast? with
    | none => exact absurd (List.getLast?_eq_none_iff.mp hlast) hne
    | some last => simpa [hlast] using hreturn

theorem OneLine.of_forall_ne {t : Text} (hfeed : '\n' ∉ t) (hreturn : '\r' ∉ t) : OneLine t :=
  ⟨hfeed, fun hlast => hreturn (List.mem_of_getLast? hlast)⟩

theorem oneLine_word {t : Text} (h : Text.Word t) : OneLine t :=
  .of_forall_ne (h.not_mem (by decide)) (h.not_mem (by decide))

theorem ParameterList.isParameterChar (parameters : ParameterList) :
    ∀ c ∈ parameters.text, isParameterChar c = true := by
  intro c hmem
  rcases Text.mem_join hmem with hseparator | ⟨name, hname, hc⟩
  · have hall : (", ".toList).all Document.isParameterChar = true := by decide
    exact List.all_eq_true.mp hall c hseparator
  · simp [Document.isParameterChar, (parameters.words name hname).isWord c hc]

theorem oneLine_macroPiece (name : DefinedName) (parameters : ParameterList) :
    OneLine (macroPiece name parameters) := by
  have hclose : OneLine [')'] := by decide
  refine hclose.append (by simp) ?_
  have hname := name.word.not_mem (c := '\n') (by decide)
  have hparameters : '\n' ∉ parameters.text := by
    intro hmem
    have hchar := parameters.isParameterChar _ hmem
    revert hchar
    decide
  have hlead : '\n' ∉ macroLead := by decide
  simp [hname, hparameters, hlead]

theorem oneLine_tablePiece (name : DefinedName) : OneLine (tablePiece name) :=
  (oneLine_word name.word).append name.word.ne_nil (by decide)

theorem oneLine_bodyPiece {line : Text} (h : OneLine line) : OneLine (bodyPiece line) := by
  rw [bodyPiece]
  split
  · decide
  · next hne => exact h.append hne (by decide)

theorem Item.oneLine_of_mem_pieces {item : Item} {piece : Text} (h : piece ∈ item.pieces) :
    OneLine piece := by
  have hbody : ∀ body : BodyLines, piece ∈ body.lines.map bodyPiece → OneLine piece := by
    intro body hmem
    obtain ⟨line, hline, rfl⟩ := List.mem_map.mp hmem
    exact oneLine_bodyPiece (body.oneLine line hline)
  cases item with
  | macroItem name parameters body =>
      rcases List.mem_cons.mp h with rfl | h
      · exact oneLine_macroPiece name parameters
      · exact hbody body h
  | tableItem name body =>
      rcases List.mem_cons.mp h with rfl | h
      · exact oneLine_tablePiece name
      · exact hbody body h
  | callItem call =>
      obtain rfl := List.mem_singleton.mp h
      have hspace : '\n' ∉ [' '] := by decide
      exact call.oneLine.append call.ne_nil hspace

/-! ## Reading lines -/

theorem LineEnd.text_eq (stop : LineEnd) : stop.text = ['\n'] ∨ stop.text = ['\r', '\n'] := by
  cases stop
  · exact Or.inl rfl
  · exact Or.inr rfl

section

variable {sign : Text} (hsign : ProperSign sign) (stop : LineEnd)
include hsign

/-- A printed line is read by itself. -/
theorem splitLines_printLine {piece : Text} (h : OneLine piece) (rest : Text) :
    splitLines sign (printLine sign stop piece ++ rest) =
      lineTokens sign stop piece ++ splitLines sign rest := by
  rw [printLine, List.append_assoc, List.append_assoc, splitLines_sign hsign,
    piecesFrom_inner ⟨h.no_feed, stop.text_eq, fun _ => h.no_return⟩]
  by_cases hne : piece = []
  · subst hne
    rfl
  · simp [hne, lineTokens, splitLines, Piece.tokens]

/-- Printed lines are read one by one. -/
theorem splitLines_printLines {pieces : List Text} (h : ∀ piece ∈ pieces, OneLine piece)
    (rest : Text) :
    splitLines sign (pieces.flatMap (printLine sign stop) ++ rest) =
      pieces.flatMap (lineTokens sign stop) ++ splitLines sign rest := by
  induction pieces with
  | nil => rfl
  | cons piece pieces ih =>
      rw [List.flatMap_cons, List.flatMap_cons, List.append_assoc, List.append_assoc,
        splitLines_printLine hsign stop (h piece List.mem_cons_self),
        ih fun piece hmem => h piece (List.mem_cons_of_mem _ hmem)]

end

/-! ## Reading the pieces -/

theorem macroHeader?_macroPiece (name : DefinedName) (parameters : ParameterList) :
    macroHeader? (macroPiece name parameters) =
      some (.macroHeader (macroPiece name parameters) name.text parameters.names, []) := by
  have hopen : ∀ c ∈ ('(' :: (parameters.text ++ [')'])).head?, Text.isWord c = false := by
    rintro c ⟨⟩
    decide
  have hspan := name.word.spanWord_append hopen
  have hclose : ∀ c ∈ [')'].head?, isParameterChar c = false := by
    rintro c ⟨⟩
    decide
  obtain ⟨htake, hdrop⟩ := Text.takeWhile_append_of_head? parameters.isParameterChar hclose
  have hshort := Nat.not_lt.mpr name.short
  have hshort' : ¬ nameLimit < parameters.text.length := Nat.not_lt.mpr parameters.short
  have hread : parseParameters parameters.text = parameters.names :=
    parseParameters_join parameters.words
  have hparen : ∀ rest, Text.after? ['('] ('(' :: rest) = some rest :=
    Text.after?_append ['(']
  rw [macroHeader?, macroPiece]
  simp only [List.append_assoc, List.cons_append, Text.after?_append, Option.bind_eq_bind,
    Option.bind_some, hspan, hparen, htake, hdrop, hread]
  simp [name.word.ne_nil, hshort, hshort', Text.after?]

theorem splitPiece_macroPiece (name : DefinedName) (parameters : ParameterList) :
    splitPiece (macroPiece name parameters) =
      [.macroHeader (macroPiece name parameters) name.text parameters.names] := by
  have hstart : fixed? (' ' :: startWord) (.marker · .start) (macroPiece name parameters) = none :=
    rfl
  have hsign : sign? (macroPiece name parameters) =
      some (.macroHeader (macroPiece name parameters) name.text parameters.names, []) := by
    simp only [sign?, signReaders, List.findSome?_cons, hstart, macroHeader?_macroPiece]
  rw [splitPiece, hsign]
  rfl

theorem splitPiece_tablePiece (name : DefinedName) :
    splitPiece (tablePiece name) = [.tableHeader (tablePiece name) name.text] := by
  have hstart : fixed? (' ' :: startWord) (.marker · .start) (tablePiece name) = none := rfl
  have hmacro : macroHeader? (tablePiece name) = none := rfl
  have hspan : Text.spanWord name.text = (name.text, []) := by
    have hend : ∀ c ∈ ([] : Text).head?, Text.isWord c = false := by simp
    have hword := name.word.spanWord_append hend
    rwa [List.append_nil] at hword
  have htable : tableHeader? (tablePiece name) =
      some (.tableHeader (tablePiece name) name.text, []) := by
    have htake : name.text.take nameLimit = name.text := List.take_of_length_le name.short
    rw [tableHeader?, tablePiece]
    simp only [Text.after?_append, Option.bind_eq_bind, Option.bind_some, hspan, htake]
    simp [name.word.ne_nil]
  have hsign : sign? (tablePiece name) =
      some (.tableHeader (tablePiece name) name.text, []) := by
    simp only [sign?, signReaders, List.findSome?_cons, hstart, hmacro, htable]
  rw [splitPiece, hsign]
  rfl

theorem splitPiece_bodyPiece {line : Text} (hne : line ≠ []) :
    splitPiece (bodyPiece line) = [.indent "   ".toList, .block line] := by
  have hsign : sign? ("   ".toList ++ line) = some (.indent "   ".toList, line) := rfl
  rw [bodyPiece, if_neg hne, splitPiece, hsign]
  simp [blockTokens, hne]

/-- What is behind one space on a line is plain text, unless it might be a sign. -/
theorem splitPiece_space {t : Text} (hnumber : t.head? ≠ some '#') (hindent : ¬ "  ".toList <+: t) :
    splitPiece (' ' :: t) = [.block (' ' :: t)] := by
  have hsecond : ∀ word, Text.after? (' ' :: '#' :: word) (' ' :: t) = none := by
    intro word
    cases t with
    | nil => rfl
    | cons c t =>
        have hc : '#' ≠ c := fun h => hnumber (by rw [h]; rfl)
        simp [Text.after?, hc]
  have hmacro : macroHeader? (' ' :: t) = none := by
    have hlead : Text.after? macroLead (' ' :: t) = none := hsecond "macro ".toList
    rw [macroHeader?, hlead]
    rfl
  have htable : tableHeader? (' ' :: t) = none := by
    have hlead : Text.after? tableLead (' ' :: t) = none := hsecond "table ".toList
    rw [tableHeader?, hlead]
    rfl
  have hspaces : Text.after? "   ".toList (' ' :: t) = none := by
    rw [Option.eq_none_iff_forall_ne_some]
    intro rest hrest
    have heq := Text.eq_append_of_after? hrest
    exact hindent ⟨rest, ((List.cons.inj heq).2).symm⟩
  have hsign : sign? (' ' :: t) = none := by
    rw [sign?, List.findSome?_eq_none_iff]
    intro read hread
    simp only [signReaders, List.mem_cons, List.not_mem_nil, or_false] at hread
    rcases hread with rfl | rfl | rfl | rfl | rfl | rfl
    · exact congrArg (Option.map _) (hsecond "metacode".toList)
    · exact hmacro
    · exact htable
    · exact congrArg (Option.map _) (hsecond "metagen".toList)
    · exact congrArg (Option.map _) (hsecond "metaend".toList)
    · exact congrArg (Option.map _) hspaces
  rw [splitPiece, hsign]
  rfl

end CommentMacro.Document
