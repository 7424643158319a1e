import CommentMacro.Proofs.Document.BlockReading
import CommentMacro.Proofs.Document.Source

/-!
# Reading declarations back

Declarations that were written down are read back as they were (`parse_printBlock`).
Line by line it is told what is read off them (`readLines_items`): a definition takes all
lines that may belong to a body, and a call takes all plain lines, which is why two calls in
a row would become one.
-/

namespace CommentMacro.Document

open Pattern

/-! ## The lines of a declaration -/

def Item.isCall : Item → Bool
  | callItem _ => true
  | _ => false

def CallsApart (items : List Item) : Prop :=
  items.IsChain fun first second => ¬ (first.isCall ∧ second.isCall)

variable (sign : Text) (stop : LineEnd)

def Item.rows (item : Item) : List (List Token) :=
  item.pieces.map (lineTokens sign stop)

theorem flatten_rows (items : List Item) :
    (items.flatMap (Item.rows sign stop)).flatten = items.flatMap (Item.lines sign stop) := by
  rw [List.flatMap, List.flatten_flatten, List.map_map]
  rfl

theorem header?_macroPiece (name : DefinedName) (parameters : ParameterList) :
    header? (lineTokens sign stop (macroPiece name parameters)) =
      some fun text body => .macroDefinition text name.text parameters.names body := by
  rw [lineTokens, splitPiece_macroPiece]
  rfl

theorem header?_tablePiece (name : DefinedName) :
    header? (lineTokens sign stop (tablePiece name)) =
      some fun text body => .tableDefinition text name.text body := by
  rw [lineTokens, splitPiece_tablePiece]
  rfl

theorem bodyLine?_bodyPiece (line : Text) :
    bodyLine? (lineTokens sign stop (bodyPiece line)) = some (line, stop.text) := by
  by_cases hne : line = []
  · subst hne
    rfl
  · rw [lineTokens, splitPiece_bodyPiece hne]
    rfl

theorem callLine?_callPiece (call : CallLine) :
    callLine? (lineTokens sign stop (' ' :: call.text)) = some (call.text, stop.text) := by
  rw [lineTokens, splitPiece_space call.no_number call.no_indent]
  rfl

/-- A line with a piece on it is whole. -/
theorem wholeLine_lineTokens (piece : Text) : WholeLine (lineTokens sign stop piece) where
  led := by
    refine ⟨fun _ _ => rfl, ?_⟩
    intro token hmem
    rcases List.mem_append.mp hmem with hmem | hmem
    · exact (fromPiece_of_mem_splitPiece hmem).2.1
    · obtain rfl := List.mem_singleton.mp hmem
      simp
  ended := by
    refine ⟨.comment sign :: splitPiece piece, stop.text, rfl, ?_⟩
    rw [List.forall_mem_cons]
    refine ⟨rfl, ?_⟩
    intro token hmem
    have hplain := (fromPiece_of_mem_splitPiece hmem).2.2
    cases token with
    | lineBreak t => exact absurd rfl (hplain t)
    | _ => rfl

theorem isBodyLine_of_mem {lines : List Text} {row : List Token}
    (h : row ∈ (lines.map bodyPiece).map (lineTokens sign stop)) : isBodyLine row = true := by
  rw [List.map_map] at h
  obtain ⟨line, -, rfl⟩ := List.mem_map.mp h
  exact Option.isSome_iff_exists.mpr ⟨_, bodyLine?_bodyPiece sign stop line⟩

/-- A line of an item is a header, or it belongs to a body or to a call. -/
theorem kinds_of_mem_rows {item : Item} {row : List Token} (h : row ∈ item.rows sign stop) :
    row.map Token.kind ∈ headerWords ++ (bodyWords ++ callWords) := by
  rw [List.mem_append, List.mem_append, ← isSome_header?_iff, ← isBodyLine_iff, ← isCallLine_iff]
  cases item with
  | macroItem name parameters body =>
      rcases List.mem_cons.mp h with rfl | h
      · rw [header?_macroPiece]
        exact Or.inl rfl
      · exact Or.inr (Or.inl (isBodyLine_of_mem sign stop h))
  | tableItem name body =>
      rcases List.mem_cons.mp h with rfl | h
      · rw [header?_tablePiece]
        exact Or.inl rfl
      · exact Or.inr (Or.inl (isBodyLine_of_mem sign stop h))
  | callItem call =>
      obtain rfl := List.mem_singleton.mp h
      rw [isCallLine, callLine?_callPiece]
      exact Or.inr (Or.inr rfl)

theorem row_of_mem_rows {items : List Item} {row : List Token}
    (h : row ∈ items.flatMap (Item.rows sign stop)) :
    WholeLine row ∧ row.map Token.kind ∈ headerWords ++ (bodyWords ++ callWords) := by
  obtain ⟨item, -, hrow⟩ := List.mem_flatMap.mp h
  refine ⟨?_, kinds_of_mem_rows sign stop hrow⟩
  obtain ⟨piece, -, rfl⟩ := List.mem_map.mp hrow
  exact wholeLine_lineTokens sign stop piece

theorem noneBefore_items (which : Marker) (items : List Item) (rest : List Token) :
    NoneBefore (opensWith which) (items.flatMap (Item.lines sign stop)) rest := by
  rw [← flatten_rows]
  apply noneBefore_lines
  intro row hmem
  obtain ⟨hwhole, hkinds⟩ := row_of_mem_rows sign stop hmem
  refine ⟨hwhole, ?_⟩
  rw [Bool.eq_false_iff]
  intro hmarker
  rw [isMarkerLine_iff_kinds] at hmarker
  rw [hmarker] at hkinds
  revert hkinds
  cases which <;> decide

theorem markersOf_items (items : List Item) :
    markersOf (items.flatMap (Item.lines sign stop)) = [] := by
  rw [← flatten_rows, markersOf, List.filterMap_eq_nil_iff]
  intro token hmem
  obtain ⟨row, hrow, htoken⟩ := List.mem_flatten.mp hmem
  have hwords : ∀ w ∈ headerWords ++ (bodyWords ++ callWords), ∀ k ∈ w, k ∈ plainKinds := by
    simp [headerWords, bodyWords, callWords, plainKinds]
  apply marker?_eq_none_of_plain
  exact hwords _ (row_of_mem_rows sign stop hrow).2 _ (List.mem_map_of_mem htoken)

/-! ## Reading the lines of items -/

theorem joinLines_map (lines : List Text) :
    joinLines (lines.map fun line => (line, stop.text)) = Text.join stop.text lines := by
  induction lines with
  | nil => rfl
  | cons line lines ih =>
      cases lines with
      | nil => rfl
      | cons next lines => simpa [joinLines, Text.join] using ih

/-- A header is read with its body, up to a line that is none of a body. -/
theorem readLines_definition {row : List Token} {body later : List (List Token)}
    {define : Text → Text → Token} (hheader : header? row = some define)
    (hbody : ∀ line ∈ body, isBodyLine line = true) (hne : body ≠ [])
    (hlater : later.takeWhile isBodyLine = []) :
    readLines (row :: (body ++ later)) =
      define (textOf (row :: body).flatten) (joinLines (body.filterMap bodyLine?)) ::
        readLines later := by
  have htake : (body ++ later).takeWhile isBodyLine = body := by
    rw [List.takeWhile_append_of_pos hbody, hlater, List.append_nil]
  have hdrop : (body ++ later).dropWhile isBodyLine = later := by
    have hsplit := List.takeWhile_append_dropWhile (p := isBodyLine) (l := body ++ later)
    rw [htake] at hsplit
    exact List.append_cancel_left hsplit
  rw [readLines, hheader]
  simp only [htake, hdrop, if_neg hne]

/-- Plain lines are read as one call, up to a line that is no plain one. -/
theorem readLines_calls {row : List Token} {calls later : List (List Token)}
    (hcalls : ∀ line ∈ row :: calls, isCallLine line = true)
    (hlater : later.takeWhile isCallLine = []) :
    readLines (row :: (calls ++ later)) =
      .invocation (textOf (row :: calls).flatten)
          (((row :: calls).filterMap callLine?).flatMap fun (t, r) => t ++ r) ::
        readLines later := by
  obtain ⟨hrow, hcalls⟩ := List.forall_mem_cons.mp hcalls
  have hheader : header? row = none := by
    cases hheader : header? row with
    | none => rfl
    | some define =>
        rw [isCallLine_of_header? hheader] at hrow
        simp at hrow
  have htake : (calls ++ later).takeWhile isCallLine = calls := by
    rw [List.takeWhile_append_of_pos hcalls, hlater, List.append_nil]
  have hdrop : (calls ++ later).dropWhile isCallLine = later := by
    have hsplit := List.takeWhile_append_dropWhile (p := isCallLine) (l := calls ++ later)
    rw [htake] at hsplit
    exact List.append_cancel_left hsplit
  rw [readLines, hheader]
  simp only [hrow, if_true, htake, hdrop]

/-- A plain line is read as a call, up to a line that is no plain one. -/
theorem readLines_call {row : List Token} {later : List (List Token)} {t r : Text}
    (hcall : callLine? row = some (t, r)) (hlater : later.takeWhile isCallLine = []) :
    readLines (row :: later) = .invocation (textOf row) (t ++ r) :: readLines later := by
  have hline : isCallLine row = true := Option.isSome_iff_exists.mpr ⟨_, hcall⟩
  have hread := @readLines_calls row [] later (List.forall_mem_singleton.mpr hline) hlater
  simpa [hcall] using hread

theorem filterMap_bodyLine? (lines : List Text) :
    ((lines.map bodyPiece).map (lineTokens sign stop)).filterMap bodyLine? =
      lines.map fun line => (line, stop.text) := by
  induction lines with
  | nil => rfl
  | cons line lines ih =>
      have hline := bodyLine?_bodyPiece sign stop line
      rw [List.map_cons, List.map_cons, List.filterMap_cons_some hline, ih, List.map_cons]

/-- The lines of an item are read as that item, up to a line that does not go on with it. -/
theorem readLines_item (item : Item) {later : List (List Token)}
    (hbody : later.takeWhile isBodyLine = [])
    (hcall : item.isCall = true → later.takeWhile isCallLine = []) :
    readLines (item.rows sign stop ++ later) = item.token sign stop :: readLines later := by
  have hlines : ∀ body : BodyLines, ∀ row ∈ (body.lines.map bodyPiece).map (lineTokens sign stop),
      isBodyLine row = true := fun body row => isBodyLine_of_mem sign stop
  have hne : ∀ body : BodyLines, (body.lines.map bodyPiece).map (lineTokens sign stop) ≠ [] := by
    intro body
    simpa using body.ne_nil
  have htext := item.textOf_lines sign stop
  cases item with
  | macroItem name parameters body =>
      have hread := readLines_definition (header?_macroPiece sign stop name parameters)
        (hlines body) (hne body) hbody
      rw [filterMap_bodyLine?, joinLines_map] at hread
      rw [Item.token, ← htext]
      exact hread
  | tableItem name body =>
      have hread := readLines_definition (header?_tablePiece sign stop name)
        (hlines body) (hne body) hbody
      rw [filterMap_bodyLine?, joinLines_map] at hread
      rw [Item.token, ← htext]
      exact hread
  | callItem call =>
      have hread := readLines_call (callLine?_callPiece sign stop call) (hcall rfl)
      rw [textOf_lineTokens] at hread
      rw [Item.token, Item.print, Item.pieces, List.flatMap_singleton]
      exact hread

/-- An item starts with a line that goes on with nothing in front of it, but for a call. -/
theorem Item.exists_rows (item : Item) :
    ∃ first rest, item.rows sign stop = first :: rest ∧ isBodyLine first = false ∧
      isCallLine first = item.isCall := by
  cases item with
  | macroItem name parameters body =>
      have hheader := header?_macroPiece sign stop name parameters
      refine ⟨_, _, rfl, ?_, isCallLine_of_header? hheader⟩
      rw [lineTokens, splitPiece_macroPiece]
      rfl
  | tableItem name body =>
      have hheader := header?_tablePiece sign stop name
      refine ⟨_, _, rfl, ?_, isCallLine_of_header? hheader⟩
      rw [lineTokens, splitPiece_tablePiece]
      rfl
  | callItem call =>
      refine ⟨_, _, rfl, ?_, ?_⟩
      · rw [lineTokens, splitPiece_space call.no_number call.no_indent]
        rfl
      · rw [isCallLine, callLine?_callPiece]
        rfl

/-- Items are read one by one. -/
theorem readLines_items {items : List Item} (h : CallsApart items) :
    readLines (items.flatMap (Item.rows sign stop)) = items.map (Item.token sign stop) := by
  induction items with
  | nil => rw [List.flatMap_nil, readLines, List.map_nil]
  | cons item items ih =>
      rw [List.flatMap_cons, List.map_cons]
      cases items with
      | nil =>
          rw [readLines_item sign stop item rfl fun _ => rfl, List.flatMap_nil, readLines,
            List.map_nil]
      | cons next items =>
          obtain ⟨hapart, hlater⟩ := List.isChain_cons_cons.mp h
          obtain ⟨first, rest, hrows, hbody, hcall⟩ := next.exists_rows sign stop
          rw [← ih hlater, List.flatMap_cons, hrows]
          apply readLines_item
          · rw [List.cons_append, List.takeWhile_cons_of_neg (by simp [hbody])]
          · intro hfirst
            have hnext : isCallLine first = false := by
              rw [hcall, Bool.eq_false_iff]
              exact fun hnext => hapart ⟨hfirst, hnext⟩
            rw [List.cons_append, List.takeWhile_cons_of_neg (by simp [hnext])]

/-! ## A block of declarations -/

def markerLine (which : Marker) : List Token :=
  [.comment sign, .marker which.text which, .lineBreak stop.text]

theorem lineTokens_marker (which : Marker) :
    lineTokens sign stop which.text = markerLine sign stop which := by
  cases which <;> rfl

theorem accepts_markerLine {phase next : Phase} {which : Marker} {tokens : List Token}
    (hnext : phase.next which = .ok next) (htokens : Accepts next tokens) :
    Accepts phase (markerLine sign stop which ++ tokens) :=
  (accepts_cons_of_none rfl).mpr
    (accepts_marker.mpr ⟨next, hnext, (accepts_cons_of_none rfl).mpr htokens⟩)

variable {sign}

theorem splitLines_markerLine (hsign : ProperSign sign) (which : Marker) (rest : Text) :
    splitLines sign (printLine sign stop which.text ++ rest) =
      markerLine sign stop which ++ splitLines sign rest := by
  have hmarker : OneLine which.text := by
    cases which <;> decide
  rw [splitLines_printLine hsign stop hmarker, lineTokens_marker]

theorem splitLines_printBlock (hsign : ProperSign sign) (items : List Item) :
    splitLines sign (printBlock sign stop items) =
      markerLine sign stop .start ++ items.flatMap (Item.lines sign stop) ++
        markerLine sign stop .generate := by
  have hitems : items.flatMap (Item.print sign stop) =
      (items.flatMap Item.pieces).flatMap (printLine sign stop) := by
    rw [List.flatMap_assoc]
    rfl
  have hlines : items.flatMap (Item.lines sign stop) =
      (items.flatMap Item.pieces).flatMap (lineTokens sign stop) := by
    rw [List.flatMap_assoc]
    rfl
  have hpieces : ∀ piece ∈ items.flatMap Item.pieces, OneLine piece := by
    intro piece hmem
    obtain ⟨item, -, hpiece⟩ := List.mem_flatMap.mp hmem
    exact Item.oneLine_of_mem_pieces hpiece
  have hlast := splitLines_markerLine stop hsign .generate []
  rw [List.append_nil, splitLines_nil hsign, List.append_nil] at hlast
  rw [printBlock, hitems, List.append_assoc, splitLines_markerLine stop hsign,
    splitLines_printLines hsign stop hpieces, hlast, hlines, List.append_assoc]

/-- The declarations of a block are grouped one by one. -/
theorem groupDeclarations_items {items : List Item} (h : CallsApart items) :
    groupDeclarations (markerLine sign stop .start ++ items.flatMap (Item.lines sign stop) ++
        markerLine sign stop .generate) =
      markerLine sign stop .start ++ items.map (Item.token sign stop) ++
        markerLine sign stop .generate := by
  have hopening : markerLine sign stop .generate =
      openingLine sign Marker.generate.text stop.text := rfl
  have hwhole : ∀ row ∈ items.flatMap (Item.rows sign stop), WholeLine row :=
    fun row hmem => (row_of_mem_rows sign stop hmem).1
  have hgroup := (groupRun_ahead sign Marker.generate.text stop.text hwhole).1
  rw [flatten_rows, readLines_items sign stop h] at hgroup
  have hnone := noneBefore_items sign stop .generate items
    (openingLine sign Marker.generate.text stop.text)
  have hstart : isMarkerLine .start (markerLine sign stop .start) = true := rfl
  have hrun := groupDeclarations_run hstart hnone hgroup []
  rw [groupDeclarations_openingLine, groupDeclarations_nil, List.append_nil] at hrun
  rw [hopening]
  exact hrun

/-- Declarations that are written down in a block are read back one by one, with their
names, parameters and bodies. No two calls may be next to each other. -/
theorem parse_printBlock (hsign : ProperSign sign) {items : List Item} (h : CallsApart items) :
    parse sign (printBlock sign stop items) =
      .ok (markerLine sign stop .start ++ items.map (Item.token sign stop) ++
        [.region (printLine sign stop Marker.generate.text) [] []]) := by
  have hnone : NoneBefore (opensWith .generate)
      (markerLine sign stop .start ++ items.flatMap (Item.lines sign stop))
      (openingLine sign Marker.generate.text stop.text) := by
    refine noneBefore_append.mpr ⟨?_, noneBefore_items sign stop .generate items _⟩
    simp [markerLine, noneBefore_cons, opensWith]
  have hquiet : markersOf ([] : List Token) = [] := rfl
  have hcollect := collect_region hnone (groupDeclarations_items stop h) hquiet .atEnd
  have htext : textOf (openingLine sign Marker.generate.text stop.text) =
      printLine sign stop Marker.generate.text := by
    simp [openingLine, printLine, Token.text]
  have hmarkers : markersOf (markerLine sign stop .start ++
      items.flatMap (Item.lines sign stop) ++ markerLine sign stop .generate) =
        [.start, .generate] := by
    rw [markersOf_append, markersOf_append, markersOf_items]
    rfl
  rw [parse_eq_ok_iff, splitLines_printBlock stop hsign]
  refine ⟨⟨.generating, ?_⟩, ?_⟩
  · rw [hmarkers]
    rfl
  · rw [groupDeclarations_nil, collectRegions_nil, htext, textOf_nil] at hcollect
    exact hcollect.symm

/-- Two definitions around a call. A line of the first body looks like a marker, and the
last one is empty. -/
def mixedItems : List Item :=
  [.macroItem ⟨"HI".toList, by decide, by decide⟩ ⟨["x".toList, "y_1".toList], by decide, by decide⟩
      ⟨["#metagen".toList, []], by decide, by decide⟩,
    .callItem ⟨"HI(a, b)".toList, by decide, by decide, by decide, by decide⟩,
    .tableItem ⟨"T".toList, by decide, by decide⟩ ⟨["a|b".toList], by decide, by decide⟩]

theorem parse_printBlock_mixed :
    ProperSign "//".toList ∧ CallsApart mixedItems ∧
      printBlock "//".toList .feed mixedItems = ("// #metacode\n// #macro HI(x, y_1)\n" ++
        "//   #metagen\n//\n// HI(a, b)\n// #table T\n//   a|b\n// #metagen\n").toList ∧
      parse "//".toList (printBlock "//".toList .feed mixedItems) = .ok
        [.comment "//".toList, .marker " #metacode".toList .start, .lineBreak "\n".toList,
          .macroDefinition "// #macro HI(x, y_1)\n//   #metagen\n//\n".toList "HI".toList
            ["x".toList, "y_1".toList] "#metagen\n".toList,
          .invocation "// HI(a, b)\n".toList "HI(a, b)\n".toList,
          .tableDefinition "// #table T\n//   a|b\n".toList "T".toList "a|b".toList,
          .region "// #metagen\n".toList [] []] := by
  have hsign : ProperSign "//".toList := ⟨by decide, by decide⟩
  have hcalls : CallsApart mixedItems := by simp [CallsApart, mixedItems, Item.isCall]
  exact ⟨hsign, hcalls, by decide, parse_printBlock .feed hsign hcalls⟩

end CommentMacro.Document
