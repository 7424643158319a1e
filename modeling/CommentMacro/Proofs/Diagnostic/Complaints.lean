import CommentMacro.Diagnostic.Excerpt
import CommentMacro.Proofs.Diagnostic.Rows
import CommentMacro.Proofs.Document.Lines
import CommentMacro.Proofs.Document.Order
import CommentMacro.Proofs.Text.LineEnds

/-!
# Complaints about markers

A complaint about a marker out of order points at it (`complaint_of_validate`): it names
the line and the column of the marker, shows the line without its line break, and draws
the carets under the marker.

Three ways of counting have to agree for this:

- the offsets of the tokens cut the marker out of the document;
- rows and columns count the line breaks in front of it and what has come since the last
  of them (`LineMap.locate_normal`);
- the marker stands within the line that is shown, as far behind its start as the column
  says (`LineMap.exists_marked`).

A lone carriage return ends a line that is shown, but no line of the document. It may
stand in front of a marker, never within one.
-/

namespace CommentMacro

namespace Text

/-! ## Line break characters -/

def isLineEnd (c : Char) : Bool :=
  c == '\r' || c == '\n'

theorem stripLineEnd_append {body stop : Text} (hbody : ∀ c ∈ body, isLineEnd c = false)
    (hstop : ∀ c ∈ stop, isLineEnd c = true) : stripLineEnd (body ++ stop) = body := by
  have hdrop : body.reverse.dropWhile isLineEnd = body.reverse := by
    rcases List.eq_nil_or_concat body with rfl | ⟨front, c, rfl⟩
    · rfl
    · have hc : isLineEnd c = false := hbody c (by simp)
      rw [List.concat_eq_append, List.reverse_append, List.reverse_singleton,
        List.singleton_append, List.dropWhile_cons_of_neg (by simp [hc])]
  show ((body ++ stop).reverse.dropWhile isLineEnd).reverse = body
  rw [List.reverse_append, List.dropWhile_append_of_pos (by simpa using hstop), hdrop,
    List.reverse_reverse]

section

variable {body front marked rest : Text} (hmarked : ∀ c ∈ marked, isLineEnd c = false)
include hmarked

/-- A part without line break characters does not start within a line break. -/
theorem length_le_of_append_eq {stop behind : Text} (hstop : ∀ c ∈ stop, isLineEnd c = true)
    (h : body ++ (stop ++ behind) = front ++ (marked ++ rest)) (hne : marked ≠ [])
    (hlt : front.length < (body ++ stop).length) : front.length ≤ body.length := by
  obtain ⟨c, marked, rfl⟩ := List.exists_cons_of_ne_nil hne
  have hget : (body ++ stop ++ behind)[front.length]? = some c := by
    rw [List.append_assoc, h]
    simp
  by_contra hle
  rw [List.getElem?_append_left hlt, List.getElem?_append_right (by omega)] at hget
  have hends := hstop c (List.mem_of_getElem? hget)
  rw [hmarked c List.mem_cons_self] at hends
  exact absurd hends (by simp)

/-- A part without line break characters stands in front of the first of them. -/
theorem exists_eq_of_append_eq {after : Text} (hbody : ∀ c ∈ body, isLineEnd c = false)
    (hafter : ∀ c ∈ after.head?, isLineEnd c = true)
    (h : body ++ after = front ++ (marked ++ rest)) (hle : front.length ≤ body.length) :
    ∃ behind, body = front ++ (marked ++ behind) := by
  obtain ⟨tail, rfl⟩ : front <+: body := by
    apply List.prefix_of_prefix_length_le (List.prefix_append front (marked ++ rest)) _ hle
    rw [← h]
    exact List.prefix_append body after
  rw [List.append_assoc, List.append_cancel_left_eq] at h
  have htail : ∀ c ∈ tail, (!isLineEnd c) = true := by
    intro c hc
    simp [hbody c (List.mem_append_right front hc)]
  have hinner : ∀ c ∈ marked, (!isLineEnd c) = true := by
    intro c hc
    simp [hmarked c hc]
  have hshown := (takeWhile_append_of_head? htail (by simpa using hafter)).1
  rw [h, List.takeWhile_append_of_pos hinner] at hshown
  exact ⟨rest.takeWhile fun c => !isLineEnd c, by rw [hshown]⟩

end

/-! ## Lines of a report -/

theorem splitBy_lineFeed_cons {line : Text} (h : '\n' ∉ line) (rest : Text) :
    splitBy (· == '\n') (line ++ '\n' :: rest) = line :: splitBy (· == '\n') rest := by
  apply splitBy_append_cons _ rfl
  intro c hc
  exact beq_eq_false_iff_ne.mpr (ne_of_mem_of_not_mem hc h)

theorem splitBy_lineFeed_of_not_mem {line : Text} (h : '\n' ∉ line) :
    splitBy (· == '\n') line = [line] := by
  apply splitBy_of_forall
  intro c hc
  exact beq_eq_false_iff_ne.mpr (ne_of_mem_of_not_mem hc h)

end Text

namespace LineBreaks

variable {t line : Text}

theorem Unbroken.not_isLineEnd (h : normal.Unbroken t) : ∀ c ∈ t, Text.isLineEnd c = false := by
  intro c hc
  have hin : [c] <:+: t := (List.singleton_infix_iff c t).mpr hc
  have hreturn : c ≠ '\r' := by
    rintro rfl
    exact h ['\r'] (by simp [stops]) hin
  have hfeed : c ≠ '\n' := by
    rintro rfl
    exact h ['\n'] (by simp [stops]) hin
  simp [Text.isLineEnd, hreturn, hfeed]

/-- A line ends where the first line break character stands. -/
theorem Rows.exists_stop {front behind : List Text}
    (h : Rows normal t (front ++ line :: behind)) :
    ∃ body stop, line = body ++ stop ∧ (∀ c ∈ body, Text.isLineEnd c = false) ∧
      (∀ c ∈ stop, Text.isLineEnd c = true) ∧
      ∀ c ∈ (stop ++ behind.flatten).head?, Text.isLineEnd c = true := by
  rcases h.terminated_or_last with ⟨body, stop, hstop, rfl, hbody⟩ | ⟨rfl, hline⟩
  · have hends : ∀ c ∈ stop, Text.isLineEnd c = true := by
      simp only [stops, List.mem_cons, List.not_mem_nil, or_false] at hstop
      rcases hstop with rfl | rfl | rfl <;> simp [Text.isLineEnd]
    refine ⟨body, stop, rfl, hbody.not_isLineEnd, hends, ?_⟩
    rw [List.head?_append_of_ne_nil _ (by simpa using ne_nil_of_mem_stops hstop)]
    exact fun c hc => hends c (List.mem_of_head? hc)
  · exact ⟨line, [], by simp, hline.not_isLineEnd, by simp, by simp⟩

/-! ## Counting line breaks -/

/-- Whether a carriage return, a line feed or the two together end at an offset. -/
def endsAt (t : Text) : Nat → Bool
  | 0 => false
  | offset + 1 =>
    t[offset]? == some '\n' || t[offset]? == some '\r' && t[offset + 1]? != some '\n'

/-- The ends of the line breaks that end at an offset or before it. -/
def endsUpTo (t : Text) (offset : Nat) : List Nat :=
  (List.range (offset + 1)).filter (endsAt t)

theorem endsAt_one (c : Char) (t : Text) :
    endsAt (c :: t) 1 = (c == '\n' || c == '\r' && t.head? != some '\n') := by
  simp [endsAt, List.head?_eq_getElem?]

theorem endsUpTo_eq (t : Text) (offset : Nat) :
    endsUpTo t offset = ((List.range offset).filter (endsAt t ∘ Nat.succ)).map Nat.succ := by
  have hzero : ¬ endsAt t 0 = true := by simp [endsAt]
  rw [endsUpTo, List.range_succ_eq_map, List.filter_cons_of_neg hzero, List.filter_map]

/-- One more character in front of a text moves its line breaks. -/
theorem map_endsUpTo_cons (start : Nat) (c : Char) (t : Text) (offset : Nat) :
    (endsUpTo (c :: t) (offset + 1)).map (start + ·) =
      (if endsAt (c :: t) 1 then [start + 1] else []) ++
        (endsUpTo t offset).map (start + 1 + ·) := by
  have hshift : (endsAt (c :: t) ∘ Nat.succ) ∘ Nat.succ = endsAt t ∘ Nat.succ := rfl
  have hstart : (start + ·) ∘ Nat.succ = (start + 1 + ·) := by
    funext offset
    simp only [Function.comp_apply, Nat.succ_eq_add_one]
    omega
  have hfirst : (endsAt (c :: t) ∘ Nat.succ) 0 = endsAt (c :: t) 1 := rfl
  rw [endsUpTo_eq, endsUpTo_eq, List.range_succ_eq_map, List.filter_cons, List.filter_map, hshift,
    hfirst, ← hstart, ← List.map_map]
  split <;> rfl

/-- The search for line breaks finds all of them. -/
theorem ends_normal (start : Nat) (t : Text) :
    normal.ends start t = (endsUpTo t t.length).map (start + ·) := by
  fun_induction ends normal start t with
  | case1 start => rfl
  | case2 start t ih =>
      rw [List.length_cons, List.length_cons, map_endsUpTo_cons, map_endsUpTo_cons, ih, endsAt_one,
        endsAt_one]
      rfl
  | case3 start t hdos => cases hdos
  | case4 start t _ ih =>
      rw [List.length_cons, map_endsUpTo_cons, ih, endsAt_one]
      rfl
  | case5 start t hpair _ ih =>
      have hhead : t.head? ≠ some '\n' := by
        intro hhead
        obtain ⟨rest, rfl⟩ := List.head?_eq_some_iff.mp hhead
        exact hpair rest rfl
      rw [List.length_cons, map_endsUpTo_cons, ih, endsAt_one]
      simp [hhead]
  | case6 start t _ hnormal => exact absurd rfl hnormal
  | case7 start c t _ hfeed hreturn ih =>
      have hfeed : c ≠ '\n' := hfeed
      have hreturn : c ≠ '\r' := hreturn
      rw [List.length_cons, map_endsUpTo_cons, ih, endsAt_one]
      simp [hfeed, hreturn]

theorem exists_endsUpTo_append (t : Text) {offset last : Nat} (h : offset ≤ last) :
    ∃ later, endsUpTo t last = endsUpTo t offset ++ later ∧ ∀ stop ∈ later, offset < stop := by
  obtain ⟨width, rfl⟩ := Nat.exists_eq_add_of_le h
  refine ⟨((List.range width).map (offset + 1 + ·)).filter (endsAt t), ?_, ?_⟩
  · rw [endsUpTo, Nat.add_right_comm, List.range_add, List.filter_append, endsUpTo]
  · intro stop hstop
    obtain ⟨step, -, rfl⟩ := List.mem_map.mp (List.mem_of_mem_filter hstop)
    omega

def lineStart (t : Text) (offset : Nat) : Nat :=
  (endsUpTo t offset).getLastD 0

def lineOf (t : Text) (offset : Nat) : Text :=
  (t.drop (lineStart t offset)).takeWhile fun c => !Text.isLineEnd c

end LineBreaks

namespace LineMap

open LineBreaks (endsUpTo lineStart)

/-! ## The place of a part of a text -/

/-- A text without line break characters stands in one line, behind the part of it that the
column counts. -/
theorem exists_marked {before marked rest : Text} {lines : List Text} {row column : Nat}
    (hrows : LineBreaks.Rows .normal (before ++ (marked ++ rest)) lines)
    (hplace : IsPlace lines before.length row column) (hne : marked ≠ [])
    (hmarked : ∀ c ∈ marked, Text.isLineEnd c = false) :
    ∃ earlier front behind stop, before = earlier ++ front ∧ front.length = column ∧
      lines[row]? = some (front ++ (marked ++ behind) ++ stop) ∧
      (∀ c ∈ front ++ (marked ++ behind), Text.isLineEnd c = false) ∧
      (∀ c ∈ stop, Text.isLineEnd c = true) ∧
      (front ++ (marked ++ rest)).takeWhile (fun c => !Text.isLineEnd c) =
        front ++ (marked ++ behind) := by
  obtain ⟨line, hline, -⟩ := hplace.within
  have hcolumn := hplace.column_lt hline (by
    rw [hrows.flatten]
    have := List.length_pos_iff.mpr hne
    simp only [List.length_append]
    omega)
  have hoffset := hplace.offset_eq
  have hflatten := hrows.flatten
  obtain ⟨earlier, later, rfl, rfl⟩ := Text.exists_append_of_getElem? hline
  obtain ⟨body, stop, rfl, hbody, hstop, hhead⟩ := hrows.exists_stop
  rw [List.take_left] at hoffset
  rw [List.flatten_append, List.flatten_cons, List.append_assoc] at hflatten
  -- the earlier lines stand in front of the text
  obtain ⟨front, rfl⟩ : earlier.flatten <+: before := by
    apply List.prefix_of_prefix_length_le (List.prefix_append _ _) _ (by omega)
    · exact body ++ (stop ++ later.flatten)
    · rw [hflatten]
      exact List.prefix_append _ _
  rw [List.length_append] at hoffset
  obtain rfl : front.length = column := by omega
  rw [List.append_assoc, List.append_cancel_left_eq] at hflatten
  have hfront := Text.length_le_of_append_eq hmarked hstop hflatten hne hcolumn
  have hshown : (front ++ (marked ++ rest)).takeWhile (fun c => !Text.isLineEnd c) = body := by
    rw [← hflatten]
    exact (Text.takeWhile_append_of_head? (by simpa using hbody) (by simpa using hhead)).1
  obtain ⟨behind, rfl⟩ := Text.exists_eq_of_append_eq hmarked hbody hhead hflatten hfront
  exact ⟨earlier.flatten, front, behind, stop, rfl, rfl, hline, hbody, hstop, hshown⟩

theorem countP_starts {earlier later : List Nat} {index : Nat}
    (hearlier : ∀ start ∈ earlier, start ≤ index) (hlater : ∀ start ∈ later, index < start) :
    (earlier ++ later).countP (fun (start : Nat) => decide ((start : Int) ≤ index)) =
      earlier.length := by
  have hall : earlier.countP (fun (start : Nat) => decide ((start : Int) ≤ index)) =
      earlier.length := by
    rw [List.countP_eq_length]
    intro start hstart
    simpa using hearlier start hstart
  have hnone : later.countP (fun (start : Nat) => decide ((start : Int) ≤ index)) = 0 := by
    rw [List.countP_eq_zero]
    intro start hstart
    simpa using hlater start hstart
  rw [List.countP_append, hall, hnone, Nat.add_zero]

/-- The row of an offset counts the line breaks in front of it, and its column what has
come since the last of them. -/
theorem locate_normal {content : Text} {index : Nat} (firstRow : Int)
    (h : index ≤ content.length) :
    (ofText .normal content firstRow).locate index =
      (firstRow + (endsUpTo content index).length,
        (index : Int) - (lineStart content index : Nat)) := by
  obtain ⟨later, hlater, hbehind⟩ := LineBreaks.exists_endsUpTo_append content h
  have hstarts : (ofText .normal content firstRow).starts =
      (0 :: endsUpTo content index) ++ later := by
    show 0 :: LineBreaks.normal.ends 0 content = _
    rw [LineBreaks.ends_normal, hlater]
    simp
  have hearlier : ∀ start ∈ 0 :: endsUpTo content index, start ≤ index := by
    intro start hstart
    rcases List.mem_cons.mp hstart with rfl | hstart
    · exact Nat.zero_le _
    · exact Nat.le_of_lt_succ (List.mem_range.mp (List.mem_of_mem_filter hstart))
  have hstart : (ofText .normal content firstRow).starts.getD (endsUpTo content index).length 0 =
      lineStart content index := by
    rw [hstarts, lineStart]
    rcases List.eq_nil_or_concat (endsUpTo content index) with hnil | ⟨front, last, hlast⟩
    · rw [hnil]
      rfl
    · rw [hlast]
      simp
  unfold LineMap.locate
  rw [hstarts, countP_starts hearlier hbehind, ← hstarts]
  show ((ofText .normal content firstRow).firstRow + _, _ - _) = _
  rw [hstart]
  rfl

end LineMap

namespace Excerpt

/-! ## Drawing -/

theorem lineFeed_not_mem_blanks (t : Text) : '\n' ∉ blanks t := by
  intro h
  obtain ⟨c, -, hc⟩ := List.mem_map.mp h
  split at hc <;> exact absurd hc (by decide)

/-- The carets stand under the marked part of a line. -/
theorem draw_eq {front marked behind stop : Text} (lead caption : Text)
    (hline : ∀ c ∈ front ++ (marked ++ behind), Text.isLineEnd c = false)
    (hstop : ∀ c ∈ stop, Text.isLineEnd c = true) (hne : marked ≠ []) :
    draw (front ++ (marked ++ behind) ++ stop) front.length marked.length lead caption =
      lead ++ (front ++ (marked ++ behind)) ++ '\n' :: (blanks (lead ++ front) ++
        List.replicate marked.length '^' ++ ' ' :: caption) := by
  have hpos := List.length_pos_iff.mpr hne
  have hbefore : (front ++ (marked ++ behind)).before front.length = front := by
    rw [Text.before, if_neg (by omega)]
    simp
  have hcount : caretCount (front ++ (marked ++ behind)) front.length marked.length =
      marked.length := by
    unfold caretCount
    simp only [List.length_append]
    omega
  unfold draw
  simp only [Text.stripLineEnd_append hline hstop, hbefore, hcount]
  simp only [List.append_assoc, List.cons_append]

end Excerpt

namespace LineMap

open LineBreaks (endsUpTo lineStart lineOf)

/-- A complaint about a part of a text that holds no line break character. -/
theorem complaint_eq {source before marked rest : Text} (message : Text)
    (hsource : source = before ++ (marked ++ rest)) (hne : marked ≠ [])
    (hmarked : ∀ c ∈ marked, Text.isLineEnd c = false) :
    ∃ earlier front behind, before = earlier ++ front ∧
      earlier.length = lineStart source before.length ∧
      lineOf source before.length = front ++ (marked ++ behind) ∧
      (ofText .normal source 1).complaint none before.length
          (before.length + marked.length : Nat) message =
        .ok ("At line ".toList ++ Text.ofNat (1 + (endsUpTo source before.length).length) ++
          ", column ".toList ++ Text.ofNat (1 + front.length) ++ ": ".toList ++ message ++
          '\n' :: (" >>> ".toList ++ (front ++ (marked ++ behind)) ++
          '\n' :: (Excerpt.blanks (" >>> ".toList ++ front) ++
            List.replicate marked.length '^' ++ " near here".toList))) := by
  have hindex : before.length ≤ source.length := by simp [hsource]
  obtain ⟨lines, hrows, hlines⟩ := exists_divides .normal source 1
  obtain ⟨row, column, hplace, hlocate⟩ := hlines.locate hindex
  have hnormal := locate_normal 1 hindex
  rw [hlocate] at hnormal
  obtain ⟨hrow, hcolumn⟩ := Prod.mk.inj hnormal
  rw [hsource] at hrows
  obtain ⟨earlier, front, behind, stop, rfl, rfl, hline, hinner, hstop, hshown⟩ :=
    exists_marked hrows hplace hne hmarked
  have hstart : earlier.length = lineStart source (earlier ++ front).length := by
    rw [List.length_append] at hcolumn ⊢
    omega
  refine ⟨earlier, front, behind, rfl, hstart, ?_, ?_⟩
  · rw [lineOf, ← hstart, hsource, List.append_assoc, List.drop_left, hshown]
  · have hwidth : ((((earlier ++ front).length + marked.length : Nat) : Int) -
        ((earlier ++ front).length : Nat)) = (marked.length : Nat) := by omega
    have hfirst : (1 : Int) + ((endsUpTo source (earlier ++ front).length).length : Nat) =
        ((1 + (endsUpTo source (earlier ++ front).length).length : Nat) : Int) := by omega
    have hfront : ((front.length : Nat) : Int) + 1 = ((1 + front.length : Nat) : Int) := by omega
    have hshow := Excerpt.draw_eq " >>> ".toList Excerpt.nearHere hinner hstop hne
    unfold LineMap.complaint
    rw [hlocate]
    simp only [hlines.line? hline, hwidth]
    show Except.ok _ = Except.ok _
    rw [hshow, hrow, hfirst, hfront]
    rfl

end LineMap

namespace Document

open LineBreaks (endsUpTo lineStart lineOf)

theorem Marker.text_ne_nil (which : Marker) : which.text ≠ [] := by
  cases which <;> decide

theorem Marker.not_isLineEnd (which : Marker) : ∀ c ∈ which.text, Text.isLineEnd c = false := by
  have hall : which.text.all (fun c => !Text.isLineEnd c) = true := by cases which <;> decide
  simpa using hall

/-- A complaint about a marker out of order names its line and its column, and the carets
below the line stand under the marker. -/
theorem complaint_of_validate {sign source message : Text} {fault : MarkerFault}
    (hfault : validate (splitLines sign source) = .error fault) (hmessage : '\n' ∉ message) :
    ∃ report behind,
      (LineMap.ofText .normal source 1).complaint none fault.start fault.stop message =
        .ok report ∧
      fault.start < fault.stop ∧ fault.stop ≤ source.length ∧
      lineOf source fault.start =
        Text.slice source (lineStart source fault.start) fault.start ++
          Text.slice source fault.start fault.stop ++ behind ∧
      Text.splitBy (· == '\n') report = [
        "At line ".toList ++ Text.ofNat (1 + (endsUpTo source fault.start).length) ++
          ", column ".toList ++ Text.ofNat (1 + (fault.start - lineStart source fault.start)) ++
          ": ".toList ++ message,
        " >>> ".toList ++ lineOf source fault.start,
        (" >>> ".toList ++ Text.slice source (lineStart source fault.start) fault.start).map
            (fun c => if c = '\t' then '\t' else ' ') ++
          List.replicate (fault.stop - fault.start) '^' ++ " near here".toList] := by
  obtain ⟨text, which, rest, hsource, hstart, hstop⟩ := exists_marker_of_validate hfault
  obtain ⟨earlier, before, behind, rfl, hlineStart, hshown, hreport⟩ :=
    LineMap.complaint_eq message hsource which.text_ne_nil which.not_isLineEnd
  rw [← hstart] at hlineStart hshown hreport hstop
  rw [← hstop] at hreport
  rw [List.append_assoc] at hsource
  rw [List.length_append] at hstart
  have hfront : Text.slice source (lineStart source fault.start) fault.start = before := by
    rw [← hlineStart, hstart, hsource, Text.slice_append]
  have hmarked : Text.slice source fault.start fault.stop = which.text := by
    rw [hstop, hstart, hsource, ← List.append_assoc, ← List.length_append, Text.slice_append]
  have hcolumn : fault.start - lineStart source fault.start = before.length := by omega
  have hwidth : fault.stop - fault.start = which.text.length := by omega
  have hpos := List.length_pos_iff.mpr which.text_ne_nil
  rw [hfront, hmarked, hcolumn, hwidth, hshown]
  refine ⟨_, behind, hreport, by omega, ?_, by rw [List.append_assoc], ?_⟩
  · rw [hsource]
    simp only [List.length_append]
    omega
  · have hplace : '\n' ∉ "At line ".toList ++
        Text.ofNat (1 + (endsUpTo source fault.start).length) ++ ", column ".toList ++
        Text.ofNat (1 + before.length) ++ ": ".toList ++ message := by
      have hdigits : ∀ n, '\n' ∉ Text.ofNat n := Text.lineFeed_not_mem_toDigits 10
      simp [hdigits, hmessage]
    have hpicture : '\n' ∉ " >>> ".toList ++ (before ++ (which.text ++ behind)) := by
      rw [← hshown, lineOf, List.mem_append, not_or]
      refine ⟨by decide, fun hmem => ?_⟩
      have hinner := List.all_eq_true.mp List.all_takeWhile _ hmem
      exact absurd hinner (by decide)
    have hcarets : '\n' ∉ Excerpt.blanks (" >>> ".toList ++ before) ++
        List.replicate which.text.length '^' ++ " near here".toList := by
      simp [Excerpt.lineFeed_not_mem_blanks]
    rw [Text.splitBy_lineFeed_cons hplace, Text.splitBy_lineFeed_cons hpicture,
      Text.splitBy_lineFeed_of_not_mem hcarets]
    rfl

/-- A generate marker behind a lone carriage return, a line feed and a tab. -/
theorem complaint_of_validate_undeclared :
    validate (splitLines "\t//".toList "a\rb\n\t// #metagen\r\n".toList) =
        .error ⟨.regionUndeclared, 7, 16⟩ ∧ '\n' ∉ "lost".toList ∧
      ∃ report,
        (LineMap.ofText .normal "a\rb\n\t// #metagen\r\n".toList 1).complaint none 7 16
          "lost".toList = .ok report ∧
        Text.splitBy (· == '\n') report = ["At line 3, column 4: lost".toList,
          " >>> \t// #metagen".toList, "     \t  ^^^^^^^^^ near here".toList] := by
  have hfault : validate (splitLines "\t//".toList "a\rb\n\t// #metagen\r\n".toList) =
      .error ⟨.regionUndeclared, 7, 16⟩ := by rfl
  have hmessage : '\n' ∉ "lost".toList := by decide
  obtain ⟨report, behind, hreport, -, -, -, hlines⟩ := complaint_of_validate hfault hmessage
  exact ⟨hfault, hmessage, report, hreport, hlines.trans (by decide)⟩

end Document

end CommentMacro
