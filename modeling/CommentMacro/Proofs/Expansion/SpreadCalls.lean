import CommentMacro.Expansion
import CommentMacro.Proofs.Document.Blocks
import CommentMacro.Proofs.Document.Composition

/-!
# Calls on several lines

How a call is spread over comment lines does not matter. `Call.text` writes a call down;
`Call.SpreadOver` says of some lines that they hold this text, with whatever spaces and cut
wherever it may be. A block with these lines is read as one call, and what is read from it is
the call that was written down (`parse_spread`).

Two facts make it so. The lines are plain ones, so that the longest run of them is all of them
(`readLines_callRows`). And what reading a call deletes, the line breaks and spaces among it, is
deleted before the parts are told apart (`Call.parse_eq`).
-/

namespace CommentMacro

namespace Text

theorem filter_join (p : Char → Bool) (separator : Text) (ts : List Text) :
    (join separator ts).filter p = join (separator.filter p) (ts.map (List.filter p)) := by
  induction ts with
  | nil => rfl
  | cons t ts ih =>
      cases ts with
      | nil => rfl
      | cons t' ts =>
          rw [join, List.filter_append, List.filter_append, ih]
          · rfl
          · simp

/-- Texts joined by a separator are got back by cutting at it. -/
theorem splitBy_join_singleton {p : Char → Bool} {c : Char} (hc : p c = true) {ts : List Text}
    (h : ∀ t ∈ ts, ∀ x ∈ t, p x = false) (hne : ts ≠ []) : splitBy p (join [c] ts) = ts := by
  induction ts with
  | nil => exact absurd rfl hne
  | cons t ts ih =>
      obtain ⟨ht, hts⟩ := List.forall_mem_cons.mp h
      cases ts with
      | nil => exact splitBy_of_forall ht
      | cons t' ts =>
          have hjoin : join [c] (t :: t' :: ts) = t ++ c :: join [c] (t' :: ts) := by
            simp [join]
          rw [hjoin, splitBy_append_cons ht hc, ih hts (by simp)]

end Text

namespace Call

/-! ## Writing a call down -/

/-- The text of a part of a call, in which no blank stands and nothing that tells parts
apart. -/
def IsPart (t : Text) : Prop :=
  ∀ c ∈ t, Text.isBlank c = false ∧ c ∉ ['(', ')', ',']

instance decidableIsPart (t : Text) : Decidable (IsPart t) :=
  decidable_of_iff (t.all fun c => decide (Text.isBlank c = false ∧ c ∉ ['(', ')', ',']))
    (by simp only [List.all_eq_true, decide_eq_true_iff, IsPart])

/-- A call that can be written down: what it hands over is one text at least. -/
structure Plain (call : Call) : Prop where
  name_isPart : IsPart call.name
  arguments_ne_nil : call.arguments ≠ []
  arguments_isPart : ∀ argument ∈ call.arguments, IsPart argument

def text (call : Call) : Text :=
  call.name ++ '(' :: (Text.join ", ".toList call.arguments ++ [')'])

/-- A call is spread over lines: put together, they are its text but for spaces. Behind a
number sign a line might be a marker or a header, and behind two spaces a line of a body. -/
structure SpreadOver (call : Call) (lines : List Text) : Prop where
  joined : lines.flatten.filter (· ≠ ' ') = call.text.filter (· ≠ ' ')
  no_number : ∀ line ∈ lines, line.head? ≠ some '#'
  no_indent : ∀ line ∈ lines, ¬ "  ".toList <+: line

/-! ## Reading it -/

variable {call : Call}

theorem IsPart.not_isNoise {t : Text} (h : IsPart t) : ∀ c ∈ t, isNoise c = false := by
  intro c hmem
  obtain ⟨hblank, hother⟩ := h c hmem
  simp only [List.mem_cons, List.not_mem_nil, or_false, not_or] at hother
  simp [isNoise, hblank, hother.2.1]

theorem IsPart.filter_eq {t : Text} (h : IsPart t) : t.filter (!isNoise ·) = t := by
  rw [List.filter_eq_self]
  intro c hmem
  rw [h.not_isNoise c hmem]
  rfl

theorem IsPart.not_separator {t : Text} (h : IsPart t) :
    ∀ c ∈ t, (c == '(' || c == ',') = false := by
  intro c hmem
  have hother := (h c hmem).2
  simp only [List.mem_cons, List.not_mem_nil, or_false, not_or] at hother
  simp [hother.1, hother.2.2]

/-- What counts of a call that is written down. -/
theorem Plain.filter_text (h : call.Plain) :
    call.text.filter (!isNoise ·) = call.name ++ '(' :: Text.join [','] call.arguments := by
  have harguments : call.arguments.map (List.filter (!isNoise ·)) = call.arguments := by
    conv => rhs; rw [← List.map_id call.arguments]
    exact List.map_congr_left fun argument hmem => (h.arguments_isPart argument hmem).filter_eq
  have hopen : (!isNoise '(') = true := by decide
  have hclose : [')'].filter (!isNoise ·) = [] := by decide
  have hseparator : (", ".toList).filter (!isNoise ·) = [','] := by decide
  rw [text, List.filter_append, h.name_isPart.filter_eq,
    List.filter_cons_of_pos (p := (!isNoise ·)) hopen, List.filter_append, Text.filter_join,
    harguments, hclose, hseparator, List.append_nil]

/-- A text is read as a call that it agrees with in all that counts. -/
theorem Plain.parse_eq (h : call.Plain) {t : Text}
    (ht : t.filter (!isNoise ·) = call.text.filter (!isNoise ·)) : parse t = call := by
  have harguments : ∀ argument ∈ call.arguments, ∀ c ∈ argument, (c == '(' || c == ',') = false :=
    fun argument hmem => (h.arguments_isPart argument hmem).not_separator
  have hsplit : Text.splitBy (fun c => c == '(' || c == ',')
      (call.name ++ '(' :: Text.join [','] call.arguments) = call.name :: call.arguments := by
    rw [Text.splitBy_append_cons h.name_isPart.not_separator rfl,
      Text.splitBy_join_singleton rfl harguments h.arguments_ne_nil]
  rw [parse, ht, h.filter_text, hsplit]

/-! ## The characters of its lines -/

variable {lines : List Text}

theorem Plain.mem_text (h : call.Plain) {c : Char} (hmem : c ∈ call.text) :
    c ∈ ['(', ')', ',', ' '] ∨ Text.isBlank c = false := by
  simp only [text, List.mem_append, List.mem_cons, List.not_mem_nil, or_false] at hmem
  rcases hmem with hmem | rfl | hmem | rfl
  · exact .inr (h.name_isPart c hmem).1
  · simp
  · rcases Text.mem_join hmem with hmem | ⟨argument, hargument, hmem⟩
    · have hseparator : ", ".toList ⊆ ['(', ')', ',', ' '] := by simp
      exact .inl (hseparator hmem)
    · exact .inr (h.arguments_isPart argument hargument c hmem).1
  · simp

/-- On the lines of a call there is no blank but the space. -/
theorem SpreadOver.not_mem (h : call.SpreadOver lines) (hcall : call.Plain) {c : Char}
    (hblank : Text.isBlank c = true) (hc : c ≠ ' ') : ∀ line ∈ lines, c ∉ line := by
  intro line hline hmem
  have hjoined : c ∈ lines.flatten.filter (· ≠ ' ') := by
    rw [List.mem_filter]
    exact ⟨List.mem_flatten.mpr ⟨line, hline, hmem⟩, by simpa using hc⟩
  rw [h.joined] at hjoined
  rcases hcall.mem_text (List.mem_of_mem_filter hjoined) with hother | hother
  · simp only [List.mem_cons, List.not_mem_nil, or_false] at hother
    rcases hother with rfl | rfl | rfl | rfl
    · exact nomatch hblank
    · exact nomatch hblank
    · exact nomatch hblank
    · exact hc rfl
  · rw [hblank] at hother
    exact nomatch hother

theorem SpreadOver.ne_nil (h : call.SpreadOver lines) : lines ≠ [] := by
  rintro rfl
  have hopen : '(' ∈ call.text.filter (· ≠ ' ') := by simp [text]
  rw [← h.joined] at hopen
  exact nomatch hopen

/-- A space does not count in a call. -/
theorem filter_spaces (t : Text) :
    (t.filter (· ≠ ' ')).filter (!isNoise ·) = t.filter (!isNoise ·) := by
  have hspace : isNoise ' ' = true := by decide
  rw [List.filter_filter]
  congr 1
  funext c
  by_cases hc : c = ' '
  · simp [hc, hspace]
  · simp [hc]

theorem SpreadOver.filter_flatten (h : call.SpreadOver lines) :
    lines.flatten.filter (!isNoise ·) = call.text.filter (!isNoise ·) := by
  rw [← filter_spaces, h.joined, filter_spaces]

end Call

namespace Document

/-! ## The lines of a call -/

def callPiece (line : Text) : Text :=
  if line = [] then [] else ' ' :: line

section

variable (sign : Text) (lines : List (Text × LineEnd))

def printCall : Text :=
  lines.flatMap fun line => printLine sign line.2 (callPiece line.1)

def callRows : List (List Token) :=
  lines.map fun line => lineTokens sign line.2 (callPiece line.1)

/-- What is read off the lines of a call: their texts and their line breaks. -/
def callSource : Text :=
  lines.flatMap fun line => line.1 ++ line.2.text

/-- Neither does a line break. -/
theorem filter_callSource :
    (callSource lines).filter (!Call.isNoise ·) =
      (lines.map Prod.fst).flatten.filter (!Call.isNoise ·) := by
  have hstop : ∀ stop : LineEnd, stop.text.filter (!Call.isNoise ·) = [] := by
    intro stop
    cases stop <;> decide
  induction lines with
  | nil => rfl
  | cons line lines ih =>
      rw [callSource, List.flatMap_cons, List.filter_append, List.filter_append, hstop,
        List.append_nil, List.map_cons, List.flatten_cons, List.filter_append]
      exact congrArg _ ih

theorem textOf_callRows : textOf (callRows sign lines).flatten = printCall sign lines := by
  induction lines with
  | nil => rfl
  | cons line lines ih =>
      rw [callRows, List.map_cons, List.flatten_cons, textOf_append, textOf_lineTokens]
      exact congrArg _ ih

end

/-- A text that may stand on a line of a call. -/
structure IsCallText (line : Text) : Prop where
  no_feed : '\n' ∉ line
  no_return : '\r' ∉ line
  no_number : line.head? ≠ some '#'
  no_indent : ¬ "  ".toList <+: line

theorem isCallText_of_mem {call : Call} (hcall : call.Plain) {lines : List Text}
    (hlines : call.SpreadOver lines) : ∀ line ∈ lines, IsCallText line := by
  intro line hmem
  exact ⟨hlines.not_mem hcall (by decide) (by decide) line hmem,
    hlines.not_mem hcall (by decide) (by decide) line hmem, hlines.no_number line hmem,
    hlines.no_indent line hmem⟩

section

variable {line : Text} (h : IsCallText line)
include h

theorem IsCallText.oneLine : OneLine (callPiece line) := by
  rw [callPiece]
  split
  · decide
  · have hfeed : '\n' ∉ ' ' :: line := by simp [h.no_feed]
    have hreturn : '\r' ∉ ' ' :: line := by simp [h.no_return]
    exact .of_forall_ne hfeed hreturn

theorem IsCallText.splitPiece_callPiece :
    splitPiece (callPiece line) = blockTokens (callPiece line) := by
  rw [callPiece]
  split
  · rfl
  · rw [splitPiece_space h.no_number h.no_indent]
    rfl

theorem IsCallText.callLine?_eq (sign : Text) (stop : LineEnd) :
    callLine? (lineTokens sign stop (callPiece line)) = some (line, stop.text) := by
  rw [lineTokens, h.splitPiece_callPiece, callPiece]
  split
  · next hnil =>
      subst hnil
      rfl
  · rfl

theorem IsCallText.markersOf_eq (sign : Text) (stop : LineEnd) :
    markersOf (lineTokens sign stop (callPiece line)) = [] := by
  rw [lineTokens, h.splitPiece_callPiece, blockTokens]
  split <;> rfl

end

/-! ## Reading a block with a call -/

variable {sign : Text} {lines : List (Text × LineEnd)} (h : ∀ line ∈ lines, IsCallText line.1)
include h

theorem callRow_of_mem {row : List Token} (hrow : row ∈ callRows sign lines) :
    isCallLine row = true ∧ WholeLine row ∧ markersOf row = [] := by
  obtain ⟨line, hmem, rfl⟩ := List.mem_map.mp hrow
  refine ⟨?_, wholeLine_lineTokens sign line.2 _, (h line hmem).markersOf_eq sign line.2⟩
  rw [isCallLine, (h line hmem).callLine?_eq sign line.2]
  rfl

theorem filterMap_callRows :
    (callRows sign lines).filterMap callLine? = lines.map fun line => (line.1, line.2.text) := by
  induction lines with
  | nil => rfl
  | cons line lines ih =>
      obtain ⟨hline, hlines⟩ := List.forall_mem_cons.mp h
      have hread := hline.callLine?_eq sign line.2
      rw [callRows, List.map_cons, List.filterMap_cons_some hread, List.map_cons]
      exact congrArg _ (ih hlines)

/-- The lines of a call are read as one call. -/
theorem readLines_callRows (hne : lines ≠ []) :
    readLines (callRows sign lines) = [.invocation (printCall sign lines) (callSource lines)] := by
  have hcalls : ∀ row ∈ callRows sign lines, isCallLine row = true :=
    fun row hrow => (callRow_of_mem h hrow).1
  cases hrows : callRows sign lines with
  | nil => exact absurd (List.map_eq_nil_iff.mp hrows) hne
  | cons row rows =>
      rw [hrows] at hcalls
      have hread := @readLines_calls row rows [] hcalls rfl
      rw [List.append_nil, ← hrows, textOf_callRows, filterMap_callRows h, List.flatMap_map,
        readLines] at hread
      rw [← hrows]
      exact hread

theorem markersOf_callRows : markersOf (callRows sign lines).flatten = [] := by
  rw [markersOf, List.filterMap_eq_nil_iff]
  intro token hmem
  obtain ⟨row, hrow, htoken⟩ := List.mem_flatten.mp hmem
  have hquiet := (callRow_of_mem h hrow).2.2
  rw [markersOf, List.filterMap_eq_nil_iff] at hquiet
  exact hquiet token htoken

/-- No line of a call holds a marker. -/
theorem noneBefore_callRows (which : Marker) (rest : List Token) :
    NoneBefore (opensWith which) (callRows sign lines).flatten rest := by
  apply noneBefore_lines
  intro row hrow
  obtain ⟨-, hwhole, hquiet⟩ := callRow_of_mem h hrow
  refine ⟨hwhole, ?_⟩
  rw [Bool.eq_false_iff]
  intro hmarker
  obtain ⟨c, m, r, rfl⟩ := isMarkerLine_iff.mp hmarker
  exact nomatch hquiet

theorem splitLines_printCall (hsign : ProperSign sign) (rest : Text) :
    splitLines sign (printCall sign lines ++ rest) =
      (callRows sign lines).flatten ++ splitLines sign rest := by
  induction lines with
  | nil => rfl
  | cons line lines ih =>
      obtain ⟨hline, hlines⟩ := List.forall_mem_cons.mp h
      rw [printCall, callRows, List.flatMap_cons, List.map_cons, List.flatten_cons,
        List.append_assoc, List.append_assoc, splitLines_printLine hsign line.2 hline.oneLine]
      exact congrArg _ (ih hlines)

/-- The call is grouped by itself, between the markers. -/
theorem collect_callRows (hne : lines ≠ []) (start stop : LineEnd) (rest : List Token) :
    ∃ body closing after,
      collectRegions (groupDeclarations (markerLine sign start .start ++
          ((callRows sign lines).flatten ++ (markerLine sign stop .generate ++ rest)))) =
        markerLine sign start .start ++ .invocation (printCall sign lines) (callSource lines) ::
          .region (printLine sign stop Marker.generate.text) body closing :: after := by
  have hopening : markerLine sign stop .generate =
      openingLine sign Marker.generate.text stop.text := rfl
  have hstart : isMarkerLine .start (markerLine sign start .start) = true := rfl
  have hwhole : ∀ row ∈ callRows sign lines, WholeLine row :=
    fun row hrow => (callRow_of_mem h hrow).2.1
  have hgroup := (groupRun_ahead sign Marker.generate.text stop.text hwhole).1
  rw [readLines_callRows h hne] at hgroup
  have hrun := groupDeclarations_run hstart
    (noneBefore_callRows h .generate (openingLine sign Marker.generate.text stop.text)) hgroup rest
  rw [groupDeclarations_openingLine, List.append_assoc] at hrun
  rw [hopening, hrun]
  obtain ⟨body, closing, behind, hbehind, hnone, hclosing⟩ :=
    exists_closing (groupDeclarations rest)
  refine ⟨textOf body, textOf closing, collectRegions behind, ?_⟩
  have hfront : NoneBefore (opensWith .generate)
      (markerLine sign start .start ++
        [.invocation (printCall sign lines) (callSource lines)])
      (openingLine sign Marker.generate.text stop.text ++ groupDeclarations rest) := by
    simp [markerLine, noneBefore_cons, opensWith]
  have hregion : collectRegions (openingLine sign Marker.generate.text stop.text ++
      (body ++ (closing ++ behind))) =
      .region (textOf (openingLine sign Marker.generate.text stop.text)) (textOf body)
        (textOf closing) :: collectRegions behind := collectRegions_region hnone hclosing
  have htext : textOf (openingLine sign Marker.generate.text stop.text) =
      printLine sign stop Marker.generate.text := by
    simp [openingLine, printLine, Token.text]
  rw [collectRegions_append hfront, hbehind, hregion, htext, List.append_assoc,
    List.singleton_append]

omit h in
def printCallBlock (sign : Text) (start stop : LineEnd) (lines : List (Text × LineEnd)) : Text :=
  printLine sign start Marker.start.text ++
    (printCall sign lines ++ printLine sign stop Marker.generate.text)

end Document

open Document

/-- A call is read as it was written down, over however many lines it is spread. The lines are
one call, in a block behind any document that leads outside and in front of any text whose
markers are in order. -/
theorem parse_spread {sign : Text} (hsign : ProperSign sign) {call : Call} (hcall : call.Plain)
    {lines : List (Text × LineEnd)} (hlines : call.SpreadOver (lines.map Prod.fst))
    (start stop : LineEnd) {front : Text} (hfresh : Fresh front)
    (haligned : Aligned (splitLines sign front))
    (houtside : validate (splitLines sign front) = .ok .outside) {rest : Text}
    (hrest : Accepts .generating (splitLines sign rest)) :
    ∃ before body closing after,
      parse sign front = .ok before ∧
      parse sign (front ++ (printCallBlock sign start stop lines ++ rest)) =
        .ok (before ++ (markerLine sign start .start ++
          .invocation (printCall sign lines) (callSource lines) ::
            .region (printLine sign stop Marker.generate.text) body closing :: after)) ∧
      Call.parse (callSource lines) = call := by
  have htexts : ∀ line ∈ lines, IsCallText line.1 := fun line hmem =>
    isCallText_of_mem hcall hlines line.1 (List.mem_map_of_mem hmem)
  have hne : lines ≠ [] := by
    simpa using hlines.ne_nil
  have hleads : LeadsOut .outside (splitLines sign front) :=
    (validateFrom_eq_ok_iff 0 .outside).mp houtside
  have hparse : parse sign front =
      .ok (collectRegions (groupDeclarations (splitLines sign front))) :=
    parse_eq_ok_iff.mpr ⟨⟨.outside, hleads⟩, rfl⟩
  have hreading := quietReading_of_finish_behind hparse haligned.finish_behind
  have hsplit : splitLines sign (front ++ (printCallBlock sign start stop lines ++ rest)) =
      splitLines sign front ++ (markerLine sign start .start ++
        ((callRows sign lines).flatten ++
          (markerLine sign stop .generate ++ splitLines sign rest))) := by
    rw [splitLines_append hsign hfresh, printCallBlock, List.append_assoc, List.append_assoc,
      splitLines_markerLine start hsign, splitLines_printCall htexts hsign,
      splitLines_markerLine stop hsign]
  have haccepts : Accepts .outside (markerLine sign start .start ++
      ((callRows sign lines).flatten ++
        (markerLine sign stop .generate ++ splitLines sign rest))) := by
    have hdeclaring : Phase.next .outside .start = .ok .declaring := rfl
    have hgenerating : Phase.next .declaring .generate = .ok .generating := rfl
    apply accepts_markerLine sign start hdeclaring
    rw [accepts_append_of_quiet (markersOf_callRows htexts)]
    exact accepts_markerLine sign stop hgenerating hrest
  obtain ⟨body, closing, after, hcollect⟩ :=
    collect_callRows htexts hne start stop (splitLines sign rest)
  refine ⟨_, body, closing, after, hparse, ?_, ?_⟩
  · rw [parse_eq_ok_iff, hsplit, hreading.collect_append haligned hleads
      (atLineStart_splitLines hsign hfresh), hcollect]
    obtain ⟨last, hlast⟩ := haccepts
    refine ⟨⟨last, ?_⟩, rfl⟩
    rw [markersOf_append, List.foldlM_append, hleads]
    exact hlast
  · apply hcall.parse_eq
    rw [filter_callSource, hlines.filter_flatten]

def sample : Call :=
  ⟨"HI".toList, ["a".toList, "b".toList]⟩

/-- The call on four lines. The name is cut in two, one line is empty, and the next one begins
with a space. -/
def sampleLines : List (Text × LineEnd) :=
  [("H".toList, .feed), ("I ( a,".toList, .returnAndFeed), ([], .feed), (" b) ".toList, .feed)]

theorem parse_spread_sample :
    let sign := "//".toList
    let rest := "old\n// #metaend\n".toList
    ProperSign sign ∧ sample.Plain ∧ sample.SpreadOver (sampleLines.map Prod.fst) ∧
      Fresh complete ∧ Aligned (splitLines sign complete) ∧
      validate (splitLines sign complete) = .ok .outside ∧
      Accepts .generating (splitLines sign rest) ∧
      printCall sign sampleLines = "// H\n// I ( a,\r\n//\n//  b) \n".toList ∧
      Call.parse "H\nI ( a,\r\n\n b) \n".toList = sample ∧
      ∃ before body closing after, parse sign complete = .ok before ∧
        parse sign (complete ++ (printCallBlock sign .feed .feed sampleLines ++ rest)) =
          .ok (before ++ (markerLine sign .feed .start ++
            .invocation "// H\n// I ( a,\r\n//\n//  b) \n".toList
                "H\nI ( a,\r\n\n b) \n".toList ::
              .region "// #metagen\n".toList body closing :: after)) := by
  intro sign rest
  have hsign : ProperSign sign := ⟨by decide, by decide⟩
  have hcall : sample.Plain := ⟨by decide, by decide, by decide⟩
  have hlines : sample.SpreadOver (sampleLines.map Prod.fst) :=
    ⟨by decide, by decide, by decide⟩
  have hfresh : Fresh complete := by decide
  have haligned : Aligned (splitLines sign complete) := by decide +kernel
  have houtside : validate (splitLines sign complete) = .ok .outside := by decide +kernel
  have hrest : Accepts .generating (splitLines sign rest) := ⟨.outside, by decide +kernel⟩
  have hprint : printCall sign sampleLines = "// H\n// I ( a,\r\n//\n//  b) \n".toList := by
    decide
  obtain ⟨before, body, closing, after, hbefore, hparse, hread⟩ :=
    parse_spread hsign hcall hlines .feed .feed hfresh haligned houtside hrest
  exact ⟨hsign, hcall, hlines, hfresh, haligned, houtside, hrest, hprint, hread, before, body,
    closing, after, hbefore, hprint ▸ hparse⟩

end CommentMacro
