import CommentMacro.Proofs.Document.LineReading
import CommentMacro.Proofs.Document.Quiet

/-!
# Blocks of declarations, line by line

What grouping does to the lines of a document is told here without patterns (`readBlocks`).
A line with a start marker opens a block, which reaches up to the next line with a generate
marker and is read by itself (`readLines`). Without such a line behind it, a start marker is a
line like any other, and what stands outside of blocks stays.

The scan for blocks does the same to the tokens of every document, and nothing to what comes
out (`groupDeclarations_by_lines`).
-/

namespace CommentMacro.Document

open Pattern

/-- Lines up to the next one with a generate marker. -/
def ahead (lines : List (List Token)) : List (List Token) :=
  lines.takeWhile fun line => !isMarkerLine .generate line

/-- Lines from the next one with a generate marker on. -/
def onward (lines : List (List Token)) : List (List Token) :=
  lines.dropWhile fun line => !isMarkerLine .generate line

def readBlocks : List (List Token) → List Token
  | [] => []
  | line :: lines =>
    if isMarkerLine .start line ∧ lines.any (isMarkerLine .generate) then
      line ++ readLines (ahead lines) ++ readBlocks (onward lines)
    else line ++ readBlocks lines
termination_by lines => lines.length
decreasing_by all_goals first | exact length_dropWhile_lt _ _ _ | exact Nat.lt_succ_self _

/-! ## Where a block ends -/

theorem refused_bodyLine_opening (c m r : Text) (rest : List Token) :
    Refused bodyLine (openingLine c m r ++ rest) :=
  attempts_bodyLine_eq_nil (k := 'G') (by decide) _

theorem refused_plainLine_opening (c m r : Text) (rest : List Token) :
    Refused plainLine (openingLine c m r ++ rest) :=
  attempts_plainLine_eq_nil (k := 'G') (by decide) _

theorem groupRun_opening (c m r : Text) : groupRun (openingLine c m r) = openingLine c m r := by
  rw [openingLine, groupRun_markerLine, groupRun_nil]

/-- The lines of a block are whole, and a line with a generate marker is behind them. -/
theorem Lined.exists_opening {lines : List (List Token)} (h : Lined true lines)
    (hgenerate : lines.any (isMarkerLine .generate) = true) :
    ∃ c m r behind, onward lines = openingLine c m r :: behind ∧ Lined true (onward lines) ∧
      ∀ line ∈ ahead lines, WholeLine line ∧ isMarkerLine .generate line = false := by
  have hsplit : ahead lines ++ onward lines = lines := List.takeWhile_append_dropWhile
  have hahead : ∀ line ∈ ahead lines, isMarkerLine .generate line = false := by
    intro line hmem
    simpa using List.mem_takeWhile_imp hmem
  cases honward : onward lines with
  | nil =>
      rw [honward, List.append_nil] at hsplit
      obtain ⟨line, hmem, hline⟩ := List.any_eq_true.mp hgenerate
      rw [← hsplit] at hmem
      rw [hahead line hmem] at hline
      simp at hline
  | cons opening behind =>
      have hopening : isMarkerLine .generate opening = true := by
        have := List.head?_dropWhile_not (fun line => !isMarkerLine .generate line) lines
        rw [onward] at honward
        simpa [honward] using this
      obtain ⟨c, m, r, rfl⟩ := isMarkerLine_iff.mp hopening
      rw [← hsplit, honward] at h
      obtain ⟨hwhole, hbehind⟩ := h.of_append
      exact ⟨c, m, r, behind, rfl, hbehind, fun line hmem => ⟨hwhole line hmem, hahead line hmem⟩⟩

/-- A block is grouped by itself, up to its end. -/
theorem groupDeclarations_run {start middle grouped : List Token} {c m r : Text}
    (hstart : isMarkerLine .start start = true)
    (hnone : NoneBefore (opensWith .generate) middle (openingLine c m r))
    (hgroup : groupRun (middle ++ openingLine c m r) = grouped ++ openingLine c m r)
    (rest : List Token) :
    groupDeclarations (start ++ middle ++ (openingLine c m r ++ rest)) =
      start ++ grouped ++ groupDeclarations (openingLine c m r ++ rest) := by
  obtain ⟨c', s, r', rfl⟩ := isMarkerLine_iff.mp hstart
  have hblock := groupDeclarations_block (c := c') (s := s) (r := r')
    ((noneBefore_openingLine_append rest).mpr hnone)
  rw [openingLine] at hgroup
  rw [groupRun_markerLine, hgroup] at hblock
  rw [groupDeclarations_openingLine]
  simpa [openingLine] using hblock

/-! ## Reading a document -/

variable {lines : List (List Token)}

theorem readBlocks_of_no_generate (h : lines.any (isMarkerLine .generate) = false) :
    readBlocks lines = lines.flatten := by
  induction lines with
  | nil => rw [readBlocks, List.flatten_nil]
  | cons line lines ih =>
      rw [List.any_cons, Bool.or_eq_false_iff] at h
      rw [readBlocks, if_neg (by simp [h.2]), ih h.2, List.flatten_cons]

/-- A line with a generate marker opens no block. -/
theorem readBlocks_opening (c m r : Text) (lines : List (List Token)) :
    readBlocks (openingLine c m r :: lines) = openingLine c m r ++ readBlocks lines := by
  rw [readBlocks, if_neg]
  rintro ⟨hstart, -⟩
  simp [openingLine, isMarkerLine] at hstart

/-- The lines of a block that are read as such. -/
theorem groupRun_ahead (c m r : Text) (h : ∀ line ∈ lines, WholeLine line) :
    groupRun (lines.flatten ++ openingLine c m r) = readLines lines ++ openingLine c m r ∧
      groupRun (readLines lines ++ openingLine c m r) = readLines lines ++ openingLine c m r := by
  have hbody := refused_bodyLine_opening c m r []
  have hcall := refused_plainLine_opening c m r []
  rw [List.append_nil] at hbody hcall
  rw [groupRun_lines h hbody hcall, groupRun_readLines h hbody, groupRun_opening]
  exact ⟨rfl, rfl⟩

/-- What is read off the lines of a block holds no line with a generate marker. -/
theorem noneBefore_readLines {c m r : Text}
    (h : ∀ line ∈ lines, WholeLine line ∧ isMarkerLine .generate line = false) :
    NoneBefore (opensWith .generate) (readLines lines) (openingLine c m r) := by
  have hwhole : ∀ line ∈ lines, WholeLine line := fun line hmem => (h line hmem).1
  have hread : groupRun lines.flatten = readLines lines := by
    have hbody : Refused bodyLine [] := readsWords_bodyLine.eq_nil (by decide)
    have hcall : Refused plainLine [] := readsWords_plainLine.eq_nil (by decide)
    have hall := groupRun_lines hwhole hbody hcall
    rwa [groupRun_nil, List.append_nil, List.append_nil] at hall
  have hgroups : Groups lines.flatten (readLines lines) := by
    rw [← hread]
    exact groups_groupRun _
  exact (hgroups.noneBefore_iff (atMarkers_opensWith .generate) (Groups.opensWith_eq .generate)
    (.refl _)).mpr (noneBefore_lines h _)

/-- A line with a start marker that opens no block has no block behind it either. -/
theorem groupDeclarations_of_start {line : List Token} (h : Lined true (line :: lines))
    (hstart : isMarkerLine .start line = true)
    (hblock : ¬ (isMarkerLine .start line = true ∧ lines.any (isMarkerLine .generate) = true)) :
    groupDeclarations (line ++ lines.flatten) = line ++ lines.flatten ∧
      readBlocks lines = lines.flatten := by
  have hlater : lines.any (isMarkerLine .generate) = false := by
    rw [Bool.eq_false_iff]
    exact fun hgenerate => hblock ⟨hstart, hgenerate⟩
  have hno : ∀ later ∈ line :: lines, isMarkerLine .generate later = false := by
    rw [List.forall_mem_cons]
    constructor
    · obtain ⟨c, m, r, rfl⟩ := isMarkerLine_iff.mp hstart
      rfl
    · simpa using hlater
  exact ⟨groupDeclarations_of_no_generate (h.noneBefore_flatten hno),
    readBlocks_of_no_generate hlater⟩

/-- Declarations are grouped as they are read, line by line. -/
theorem groupDeclarations_flatten (h : Lined true lines) :
    groupDeclarations lines.flatten = readBlocks lines := by
  fun_induction readBlocks lines with
  | case1 => exact groupDeclarations_nil
  | case2 line lines hblock ih =>
      obtain ⟨c, m, r, behind, honward, hlined, hahead⟩ := h.tail.exists_opening hblock.2
      have hwhole : ∀ row ∈ ahead lines, WholeLine row := fun row hmem => (hahead row hmem).1
      have hread := (groupRun_ahead c m r hwhole).1
      have hrun := groupDeclarations_run hblock.1 (noneBefore_lines hahead _) hread behind.flatten
      -- the line that ends the block is the first one of the lines that are read next
      have hsplit : lines.flatten = (ahead lines).flatten ++ (onward lines).flatten := by
        rw [← List.flatten_append, ahead, onward, List.takeWhile_append_dropWhile]
      have hlater := ih hlined
      rw [honward, List.flatten_cons] at hlater hsplit
      rw [List.flatten_cons, hsplit, ← List.append_assoc, hrun, hlater, honward]
  | case3 line lines hblock ih =>
      by_cases hstart : isMarkerLine .start line = true
      · obtain ⟨hgroup, hread⟩ := groupDeclarations_of_start h hstart hblock
        rw [List.flatten_cons, hgroup, hread]
      · rw [Bool.not_eq_true] at hstart
        have hnone : NoneBefore (opensWith .start) line lines.flatten := by
          apply h.noneBefore hstart
          rintro rfl
          rfl
        rw [List.flatten_cons, groupDeclarations_append_of_none hnone, ih h.tail]

/-- What was read is not grouped in another way. -/
theorem groupDeclarations_readBlocks (h : Lined true lines) :
    groupDeclarations (readBlocks lines) = readBlocks lines := by
  fun_induction readBlocks lines with
  | case1 => exact groupDeclarations_nil
  | case2 line lines hblock ih =>
      obtain ⟨c, m, r, behind, honward, hlined, hahead⟩ := h.tail.exists_opening hblock.2
      have hwhole : ∀ row ∈ ahead lines, WholeLine row := fun row hmem => (hahead row hmem).1
      have hread := (groupRun_ahead c m r hwhole).2
      have hrun := groupDeclarations_run hblock.1 (noneBefore_readLines hahead) hread
        (readBlocks behind)
      have hlater := ih hlined
      rw [honward, readBlocks_opening] at hlater ⊢
      rw [hrun, hlater]
  | case3 line lines hblock ih =>
      by_cases hstart : isMarkerLine .start line = true
      · obtain ⟨hgroup, hread⟩ := groupDeclarations_of_start h hstart hblock
        rw [hread, hgroup]
      · rw [Bool.not_eq_true] at hstart
        -- the last line may be open, and then nothing is read behind it
        have hnone : NoneBefore (opensWith .start) line (readBlocks lines) := by
          apply h.noneBefore hstart
          rintro rfl
          rw [readBlocks]
        rw [groupDeclarations_append_of_none hnone, ih h.tail]

/-- Grouping reads the tokens of a text line by line, keeps the text, and is done at once. -/
theorem groupDeclarations_by_lines {sign : Text} (hsign : ProperSign sign) (source : Text) :
    groupDeclarations (splitLines sign source) = readBlocks (cutLines (splitLines sign source)) ∧
      textOf (groupDeclarations (splitLines sign source)) = source ∧
      groupDeclarations (groupDeclarations (splitLines sign source)) =
        groupDeclarations (splitLines sign source) := by
  have hlined := lined_splitLines hsign source
  have hgroup := groupDeclarations_flatten hlined
  rw [flatten_cutLines] at hgroup
  refine ⟨hgroup, ?_, ?_⟩
  · rw [(groups_groupDeclarations _).textOf_eq, textOf_splitLines]
  · rw [hgroup]
    exact groupDeclarations_readBlocks hlined

/-- A definition and a call, a header without a body, and behind the block a line with a start
marker that opens no other one. -/
def openLines : Text :=
  ("// #metacode\n// #macro HI(x)\n//   b\n//\n// HI(1)\n// #table T\n" ++
    "// #metagen\n// #metacode\n").toList

theorem groupDeclarations_by_lines_openLines :
    ProperSign "//".toList ∧
      groupDeclarations (splitLines "//".toList openLines) =
        readBlocks (cutLines (splitLines "//".toList openLines)) ∧
      readBlocks (cutLines (splitLines "//".toList openLines)) =
        [.comment "//".toList, .marker " #metacode".toList .start, .lineBreak "\n".toList,
          .macroDefinition "// #macro HI(x)\n//   b\n//\n".toList "HI".toList ["x".toList]
            "b\n".toList,
          .invocation "// HI(1)\n".toList "HI(1)\n".toList,
          .comment "//".toList, .tableHeader " #table T".toList "T".toList, .lineBreak "\n".toList,
          .comment "//".toList, .marker " #metagen".toList .generate, .lineBreak "\n".toList,
          .comment "//".toList, .marker " #metacode".toList .start, .lineBreak "\n".toList] ∧
      groupDeclarations (groupDeclarations (splitLines "//".toList openLines)) =
        groupDeclarations (splitLines "//".toList openLines) := by
  have hsign : ProperSign "//".toList := ⟨by decide, by decide⟩
  obtain ⟨hread, -, hagain⟩ := groupDeclarations_by_lines hsign openLines
  refine ⟨hsign, hread, ?_, hagain⟩
  rw [← hread]
  decide +kernel

end CommentMacro.Document
