import CommentMacro.Diagnostic.LineMap
import Mathlib.Algebra.GroupWithZero.Nat
import Mathlib.Data.List.Flatten
import Mathlib.Data.List.Infix
import Mathlib.Data.Prod.Lex

/-!
# Rows and columns of a text

The lines of a text end with a line break of the convention and hold no other one, the
last holds none, and a carriage return and a line feed behind it are not torn apart
(`LineBreaks.Rows`). The search for line breaks finds the offsets where they start
(`measured_ends`).

A line map turns every offset of the text, its end included, into a row and a column and
loses nothing: so many lines and so many characters of a line stand in front of it
(`IsPlace`), and later offsets have later places (`LineMap.locate_rows`).
-/

namespace CommentMacro

namespace LineBreaks

/-! ## Lines -/

def stops : LineBreaks → List Text
  | normal => [['\r', '\n'], ['\n'], ['\r']]
  | unix => [['\n']]
  | dos => [['\r', '\n']]

def Unbroken (breaks : LineBreaks) (t : Text) : Prop :=
  ∀ stop ∈ breaks.stops, ¬ stop <:+: t

/-- A text ends with a line break, and no other one is in it. -/
def Terminated (breaks : LineBreaks) (t : Text) : Prop :=
  ∃ body, ∃ stop ∈ breaks.stops, t = body ++ stop ∧ breaks.Unbroken body

/-- The lines of a text. All but the last are terminated; a carriage return and the line
feed behind it are in one line. -/
inductive Rows (breaks : LineBreaks) : Text → List Text → Prop
  | last {line : Text} : breaks.Unbroken line → Rows breaks line [line]
  | line {line rest : Text} {lines : List Text} : breaks.Terminated line →
      (line.getLast? = some '\r' → rest.head? ≠ some '\n') → Rows breaks rest lines →
      Rows breaks (line ++ rest) (line :: lines)

variable {breaks : LineBreaks} {t line : Text} {lines : List Text}

theorem ne_nil_of_mem_stops {stop : Text} (h : stop ∈ breaks.stops) : stop ≠ [] := by
  rintro rfl
  cases breaks <;> simp [stops] at h

theorem unbroken_nil : breaks.Unbroken [] := by
  intro stop hstop hin
  exact ne_nil_of_mem_stops hstop (List.infix_nil.mp hin)

theorem Unbroken.cons {c : Char} (h : breaks.Unbroken t)
    (hc : ∀ stop ∈ breaks.stops, ¬ stop <+: c :: t) : breaks.Unbroken (c :: t) := by
  intro stop hstop hin
  rcases List.infix_cons_iff.mp hin with hin | hin
  · exact hc stop hstop hin
  · exact h stop hstop hin

theorem Terminated.ne_nil (h : breaks.Terminated line) : line ≠ [] := by
  obtain ⟨body, stop, hstop, rfl, -⟩ := h
  simp [ne_nil_of_mem_stops hstop]

theorem terminated_stop {stop : Text} (h : stop ∈ breaks.stops) : breaks.Terminated stop :=
  ⟨[], stop, h, rfl, unbroken_nil⟩

/-- A carriage return and a line feed end a line by all conventions. -/
theorem terminated_pair (breaks : LineBreaks) : breaks.Terminated ['\r', '\n'] := by
  cases breaks with
  | normal => exact terminated_stop (by simp [stops])
  | dos => exact terminated_stop (by simp [stops])
  | unix =>
      have hreturn : unix.Unbroken ['\r'] := by
        apply unbroken_nil.cons
        simp [stops]
      exact ⟨['\r'], ['\n'], by simp [stops], rfl, hreturn⟩

/-- A character with which no line break begins goes to the first line. -/
theorem Rows.cons {c : Char} (h : Rows breaks t (line :: lines))
    (hc : ∀ stop ∈ breaks.stops, ¬ stop <+: c :: t) :
    Rows breaks (c :: t) ((c :: line) :: lines) := by
  cases h with
  | last hline => exact .last (hline.cons hc)
  | @line _ rest _ hline hpair hrest =>
      have hne := hline.ne_nil
      obtain ⟨body, stop, hstop, rfl, hbody⟩ := hline
      have hbody' : breaks.Unbroken (c :: body) := by
        apply hbody.cons
        intro other hother hbegins
        apply hc other hother
        rw [List.append_assoc, ← List.cons_append]
        exact hbegins.trans (List.prefix_append _ _)
      have hlast : (c :: (body ++ stop)).getLast? = (body ++ stop).getLast? := by
        rw [List.getLast?_cons]
        cases hlast : (body ++ stop).getLast? with
        | none => exact absurd (List.getLast?_eq_none_iff.mp hlast) hne
        | some last => rfl
      rw [← hlast] at hpair
      exact .line ⟨c :: body, stop, hstop, rfl, hbody'⟩ hpair hrest

theorem Rows.exists_cons (h : Rows breaks t lines) : ∃ first later, lines = first :: later := by
  cases h with
  | last => exact ⟨_, _, rfl⟩
  | line => exact ⟨_, _, rfl⟩

/-- A line of a text is terminated, or it is the last one. -/
theorem Rows.terminated_or_last {front behind : List Text}
    (h : Rows breaks t (front ++ line :: behind)) :
    breaks.Terminated line ∨ behind = [] ∧ breaks.Unbroken line := by
  induction front generalizing t with
  | nil =>
      rw [List.nil_append] at h
      cases h with
      | last hline => exact Or.inr ⟨rfl, hline⟩
      | line hline => exact Or.inl hline
  | cons first front ih =>
      generalize hlines : first :: front ++ line :: behind = lines at h
      cases h with
      | last => simp at hlines
      | line _ _ hrest =>
          obtain ⟨-, rfl⟩ := List.cons.inj hlines
          exact ih hrest

theorem Rows.flatten (h : Rows breaks t lines) : lines.flatten = t := by
  induction h with
  | last => simp
  | line _ _ _ ih => rw [List.flatten_cons, ih]

/-- The line breaks of a text that starts at an offset end at the given ones: this is where
its lines start, the first of them apart. -/
def Measured (breaks : LineBreaks) (start : Nat) (t : Text) (inner : List Nat) : Prop :=
  ∃ lines, Rows breaks t lines ∧
    start :: inner ++ [start + t.length] = (lines.map List.length).scanl (· + ·) start

theorem Measured.append {start : Nat} {rest : Text} {inner : List Nat}
    (h : Measured breaks (start + line.length) rest inner) (hline : breaks.Terminated line)
    (hpair : line.getLast? = some '\r' → rest.head? ≠ some '\n') :
    Measured breaks start (line ++ rest) ((start + line.length) :: inner) := by
  obtain ⟨lines, hrows, hoffsets⟩ := h
  refine ⟨line :: lines, .line hline hpair hrows, ?_⟩
  rw [List.map_cons, List.scanl_cons, ← hoffsets, List.length_append, ← Nat.add_assoc]
  rfl

theorem Measured.cons {start : Nat} {c : Char} {inner : List Nat}
    (h : Measured breaks (start + 1) t inner) (hc : ∀ stop ∈ breaks.stops, ¬ stop <+: c :: t) :
    Measured breaks start (c :: t) inner := by
  obtain ⟨lines, hrows, hoffsets⟩ := h
  obtain ⟨first, later, rfl⟩ := hrows.exists_cons
  refine ⟨(c :: first) :: later, hrows.cons hc, ?_⟩
  rw [List.map_cons, List.scanl_cons, List.cons_append, List.cons.injEq] at hoffsets
  rw [List.map_cons, List.scanl_cons, List.cons_append, List.length_cons, List.length_cons,
    Nat.add_comm t.length, Nat.add_comm first.length, ← Nat.add_assoc, ← Nat.add_assoc,
    hoffsets.2]

/-- Which texts a line break begins with. -/
theorem eq_or_eq_of_prefix {stop : Text} {c : Char} (hstop : stop ∈ breaks.stops)
    (h : stop <+: c :: t) : (c = '\n' ∧ breaks ≠ dos) ∨ (c = '\r' ∧ breaks = normal) ∨
      (c = '\r' ∧ ∃ rest, t = '\n' :: rest) := by
  obtain ⟨rest, heq⟩ := h
  cases breaks <;> simp only [stops, List.mem_cons, List.not_mem_nil, or_false] at hstop
  · rcases hstop with rfl | rfl | rfl <;> obtain ⟨rfl, -⟩ := List.cons.inj heq <;> simp
  · subst hstop
    obtain ⟨rfl, -⟩ := List.cons.inj heq
    simp
  · subst hstop
    obtain ⟨rfl, rfl⟩ := List.cons.inj heq
    exact Or.inr (Or.inr ⟨rfl, rest, rfl⟩)

/-- The lines of a text start where `ends` says. The cases are those of the search for
line breaks. -/
theorem measured_ends (breaks : LineBreaks) (start : Nat) (t : Text) :
    Measured breaks start t (breaks.ends start t) := by
  fun_induction ends breaks start t with
  | case1 start => exact ⟨[[]], .last unbroken_nil, rfl⟩
  | case2 start t ih =>
      exact Measured.append ih (terminated_pair breaks) (by simp)
  | case3 start t hdos ih =>
      apply ih.cons
      intro stop hstop hbegins
      rcases eq_or_eq_of_prefix hstop hbegins with ⟨-, hne⟩ | ⟨hc, -⟩ | ⟨hc, -⟩
      · exact hne hdos
      · exact absurd hc (by decide)
      · exact absurd hc (by decide)
  | case4 start t hdos ih =>
      have hstop : ['\n'] ∈ breaks.stops := by cases breaks <;> simp_all [stops]
      exact Measured.append ih (terminated_stop hstop) (by simp)
  | case5 start t hpair hnormal ih =>
      have hstop : ['\r'] ∈ breaks.stops := by simp [hnormal, stops]
      refine Measured.append ih (terminated_stop hstop) ?_
      intro _ hhead
      obtain ⟨rest, rfl⟩ := List.head?_eq_some_iff.mp hhead
      exact hpair rest rfl
  | case6 start t hpair hnormal ih =>
      apply ih.cons
      intro stop hstop hbegins
      rcases eq_or_eq_of_prefix hstop hbegins with ⟨hc, -⟩ | ⟨-, hsame⟩ | ⟨-, rest, hrest⟩
      · exact absurd hc (by decide)
      · exact hnormal hsame
      · exact hpair rest hrest
  | case7 start c t hpair hfeed hreturn ih =>
      apply ih.cons
      intro stop hstop hbegins
      rcases eq_or_eq_of_prefix hstop hbegins with ⟨hc, -⟩ | ⟨hc, -⟩ | ⟨hc, -⟩
      · exact hfeed hc
      · exact hreturn hc
      · exact hreturn hc

end LineBreaks

namespace LineMap

variable {lines : List Text}

/-! ## Where lines start -/

theorem getElem?_scanl_lengths (lines : List Text) (start : Nat) {i : Nat} (h : i ≤ lines.length) :
    ((lines.map List.length).scanl (· + ·) start)[i]? =
      some (start + (lines.take i).flatten.length) := by
  induction lines generalizing start i with
  | nil =>
      obtain rfl := Nat.le_zero.mp h
      simp
  | cons line lines ih =>
      cases i with
      | zero => simp
      | succ i =>
          rw [List.map_cons, List.scanl_cons, List.getElem?_cons_succ,
            ih _ (Nat.le_of_succ_le_succ h)]
          simp [Nat.add_assoc]

theorem le_of_mem_scanl {lengths : List Nat} {start offset : Nat}
    (h : offset ∈ lengths.scanl (· + ·) start) : start ≤ offset := by
  induction lengths generalizing start with
  | nil => simp_all
  | cons length lengths ih =>
      rw [List.scanl_cons, List.mem_cons] at h
      rcases h with rfl | h
      · exact Nat.le_refl _
      · have := ih h
        omega

/-! ## The place of an offset -/

/-- An offset lies in a row and a column: so many lines, and so many characters of a line,
stand in front of it. At the end of a line it lies behind the last one only. -/
structure IsPlace (lines : List Text) (index row column : Nat) : Prop where
  offset_eq : (lines.take row).flatten.length + column = index
  within : ∃ line, lines[row]? = some line ∧
    (column < line.length ∨ row + 1 = lines.length ∧ column ≤ line.length)

theorem IsPlace.cons {index row column : Nat} (h : IsPlace lines index row column) (line : Text) :
    IsPlace (line :: lines) (line.length + index) (row + 1) column where
  offset_eq := by
    rw [List.take_succ_cons, List.flatten_cons, List.length_append, Nat.add_assoc, h.offset_eq]
  within := by
    obtain ⟨found, hfound, hcolumn⟩ := h.within
    refine ⟨found, hfound, hcolumn.imp_right ?_⟩
    rintro ⟨hlast, hle⟩
    exact ⟨by rw [hlast, List.length_cons], hle⟩

/-- The row of an offset is told by how many lines start up to it. -/
theorem exists_isPlace (hne : lines ≠ []) {start index : Nat} (hstart : start ≤ index)
    (hindex : index ≤ start + lines.flatten.length) :
    ∃ row column, IsPlace lines (index - start) row column ∧
      ((lines.map List.length).scanl (· + ·) start).dropLast.countP (· ≤ index) = row + 1 := by
  induction lines generalizing start with
  | nil => exact absurd rfl hne
  | cons line lines ih =>
      rw [List.flatten_cons, List.length_append] at hindex
      rw [List.map_cons, List.scanl_cons]
      by_cases hlast : lines = []
      · subst hlast
        refine ⟨0, index - start, ⟨by simp, line, rfl, Or.inr ⟨rfl, ?_⟩⟩, by simpa using hstart⟩
        rw [List.flatten_nil, List.length_nil] at hindex
        omega
      · have hoffsets : (lines.map List.length).scanl (· + ·) (start + line.length) ≠ [] :=
          List.scanl_ne_nil
        rw [List.dropLast_cons_of_ne_nil hoffsets, List.countP_cons_of_pos (by simpa using hstart)]
        by_cases hline : start + line.length ≤ index
        · obtain ⟨row, column, hplace, hcount⟩ := ih hlast hline (by omega)
          have hindex' : index - start = line.length + (index - (start + line.length)) := by omega
          refine ⟨row + 1, column, ?_, by rw [hcount]⟩
          rw [hindex']
          exact hplace.cons line
        · -- all later lines start behind the offset
          have hnone : ((lines.map List.length).scanl (· + ·) (start + line.length)).dropLast.countP
              (· ≤ index) = 0 := by
            rw [List.countP_eq_zero]
            intro offset hmem
            have hle := le_of_mem_scanl (List.mem_of_mem_dropLast hmem)
            simp only [decide_eq_true_eq]
            omega
          refine ⟨0, index - start, ⟨by simp, line, rfl, Or.inl (by omega)⟩, by rw [hnone]⟩

theorem length_take_flatten_le (lines : List Text) {first later : Nat} (h : first ≤ later) :
    (lines.take first).flatten.length ≤ (lines.take later).flatten.length :=
  (List.take_sublist_take_left h).flatten.length_le

theorem length_take_succ_flatten {line : Text} {row : Nat} (h : lines[row]? = some line) :
    (lines.take (row + 1)).flatten.length = (lines.take row).flatten.length + line.length := by
  rw [List.take_add_one, h, List.flatten_append, List.length_append]
  simp

section

variable {index row column : Nat} (h : IsPlace lines index row column)
include h

theorem IsPlace.row_lt : row < lines.length := by
  obtain ⟨line, hline, -⟩ := h.within
  exact (List.getElem?_eq_some_iff.mp hline).1

/-- A place that is not in the last line is in front of all later lines. -/
theorem IsPlace.lt_of_row_lt {later : Nat} (hlater : row < later) (hlength : later < lines.length) :
    index < (lines.take later).flatten.length := by
  obtain ⟨line, hline, hcolumn⟩ := h.within
  have hoffset := h.offset_eq
  have htake := length_take_succ_flatten hline
  have hle : (lines.take (row + 1)).flatten.length ≤ _ := length_take_flatten_le lines hlater
  rcases hcolumn with hcolumn | ⟨hlast, -⟩ <;> omega

/-- Only behind the last character the column is not within the line. -/
theorem IsPlace.column_lt {line : Text} (hline : lines[row]? = some line)
    (hindex : index ≠ lines.flatten.length) : column < line.length := by
  obtain ⟨found, hfound, hcolumn⟩ := h.within
  obtain rfl := Option.some.inj (hline.symm.trans hfound)
  rcases hcolumn with hcolumn | ⟨hlast, hle⟩
  · exact hcolumn
  · have htake := length_take_succ_flatten hline
    rw [hlast, List.take_length] at htake
    have hoffset := h.offset_eq
    omega

/-- Behind the last character is the last row. -/
theorem IsPlace.last (hindex : index = lines.flatten.length) : row + 1 = lines.length := by
  obtain ⟨line, hline, hcolumn⟩ := h.within
  rcases hcolumn with hcolumn | ⟨hlast, -⟩
  · exfalso
    have htake := length_take_succ_flatten hline
    have hle : (lines.take (row + 1)).flatten.length ≤ _ := length_take_flatten_le lines h.row_lt
    rw [List.take_length] at hle
    have hoffset := h.offset_eq
    omega
  · exact hlast

/-- A later offset is in a later row, or in the same row and a later column. -/
theorem IsPlace.lex {index' row' column' : Nat} (h' : IsPlace lines index' row' column')
    (hlt : index < index') : row < row' ∨ row = row' ∧ column < column' := by
  have hoffset := h.offset_eq
  have hoffset' := h'.offset_eq
  rcases Nat.lt_trichotomy row row' with hrow | rfl | hrow
  · exact Or.inl hrow
  · exact Or.inr ⟨rfl, by omega⟩
  · have hbefore := h'.lt_of_row_lt hrow h.row_lt
    omega

end

/-! ## The lines of a map -/

/-- The lines of a map: they make up its content and end where its bounds are. -/
structure Divides (map : LineMap) (lines : List Text) : Prop where
  ne_nil : lines ≠ []
  flatten : lines.flatten = map.content
  bounds : map.bounds = (lines.map List.length).scanl (· + ·) 0

theorem exists_divides (breaks : LineBreaks) (content : Text) (firstRow : Int) :
    ∃ lines, LineBreaks.Rows breaks content lines ∧
      (ofText breaks content firstRow).Divides lines := by
  obtain ⟨lines, hrows, hoffsets⟩ := LineBreaks.measured_ends breaks 0 content
  obtain ⟨first, later, heq⟩ := hrows.exists_cons
  refine ⟨lines, hrows, by simp [heq], hrows.flatten, ?_⟩
  rw [Nat.zero_add] at hoffsets
  exact hoffsets

section

variable {map : LineMap} (h : map.Divides lines)
include h

theorem Divides.line? {row : Nat} {line : Text} (hline : lines[row]? = some line) :
    map.line? (map.firstRow + row) = .ok line := by
  obtain ⟨front, behind, rfl, rfl⟩ := Text.exists_append_of_getElem? hline
  have hrow : (map.firstRow + (front.length : Int) - map.firstRow).toNat = front.length := by omega
  have hlast : front.length + 1 ≤ (front ++ line :: behind).length := by simp
  unfold LineMap.line?
  simp only [hrow, h.bounds, getElem?_scanl_lengths _ _ (Nat.le_of_succ_le hlast),
    getElem?_scanl_lengths _ _ hlast, length_take_succ_flatten hline, ← h.flatten]
  simp [Text.slice]

theorem Divides.locate {index : Nat} (hindex : index ≤ map.content.length) :
    ∃ row column : Nat, IsPlace lines index row column ∧
      map.locate index = (map.firstRow + row, (column : Int)) := by
  have hstarts : map.starts = ((lines.map List.length).scanl (· + ·) 0).dropLast := by
    rw [← h.bounds, LineMap.bounds, List.dropLast_concat]
  obtain ⟨row, column, hplace, hcount⟩ := exists_isPlace h.ne_nil (Nat.zero_le index)
    (by rwa [Nat.zero_add, h.flatten])
  rw [Nat.sub_zero] at hplace
  rw [← hstarts] at hcount
  have hstart : map.starts.getD row 0 = (lines.take row).flatten.length := by
    have hrow : row < ((lines.map List.length).scanl (· + ·) 0).length - 1 := by
      simpa using hplace.row_lt
    rw [hstarts, List.getD_eq_getElem?_getD, List.getElem?_dropLast, if_pos hrow,
      getElem?_scanl_lengths lines 0 (Nat.le_of_lt hplace.row_lt), Nat.zero_add, Option.getD_some]
  refine ⟨row, column, hplace, ?_⟩
  have hoffset := hplace.offset_eq
  unfold LineMap.locate
  simp only [Int.ofNat_le, hcount, hstart, Prod.mk.injEq, true_and]
  omega

end

/-- Rows and columns tell the offsets of a text, and offsets its rows and columns. -/
theorem locate_rows (breaks : LineBreaks) (content : Text) (firstRow : Int) :
    ∃ lines, LineBreaks.Rows breaks content lines ∧ lines.flatten = content ∧
      (∀ row line, lines[row]? = some line →
        (ofText breaks content firstRow).line? (firstRow + (row : Nat)) = .ok line) ∧
      ((ofText breaks content firstRow).locate content.length).1 + 1 = firstRow + lines.length ∧
      (∀ index ≤ content.length, ∃ row column line,
        (ofText breaks content firstRow).locate (index : Nat) =
          (firstRow + (row : Nat), ((column : Nat) : Int)) ∧
        lines[row]? = some line ∧ ((lines.take row).map List.length).sum + column = index ∧
        (index ≠ content.length → column < line.length)) ∧
      ∀ index later : Nat, index < later → later ≤ content.length →
        Prod.Lex (· < ·) (· < ·) ((ofText breaks content firstRow).locate index)
          ((ofText breaks content firstRow).locate later) := by
  obtain ⟨lines, hrows, hlines⟩ := exists_divides breaks content firstRow
  refine ⟨lines, hrows, hlines.flatten, fun row line => hlines.line?, ?_, ?_, ?_⟩
  · obtain ⟨row, column, hplace, heq⟩ := hlines.locate (Nat.le_refl content.length)
    have hlast := hplace.last (by rw [hrows.flatten])
    show (_ : Int × Int).1 + 1 = _
    rw [heq]
    show firstRow + (row : Int) + 1 = firstRow + (lines.length : Int)
    omega
  · intro index hindex
    obtain ⟨row, column, hplace, heq⟩ := hlines.locate hindex
    obtain ⟨line, hline, -⟩ := hplace.within
    refine ⟨row, column, line, heq, hline, ?_, ?_⟩
    · rw [← List.length_flatten]
      exact hplace.offset_eq
    · intro hne
      exact hplace.column_lt hline (by rwa [hrows.flatten])
  · intro index later hlt hlater
    obtain ⟨row, column, hplace, heq⟩ := hlines.locate (Nat.le_trans (Nat.le_of_lt hlt) hlater)
    obtain ⟨row', column', hplace', heq'⟩ := hlines.locate hlater
    rw [heq, heq', Prod.lex_def]
    rcases hplace.lex hplace' hlt with hrow | ⟨rfl, hcolumn⟩
    · exact Or.inl (by simpa using hrow)
    · exact Or.inr ⟨rfl, by simpa using hcolumn⟩

/-- Between the two characters of one line break is the line that they end. -/
example : (LineMap.ofText .normal "a\r\n\rb".toList 1).locate 2 = (1, 2) := by decide

end LineMap

end CommentMacro
