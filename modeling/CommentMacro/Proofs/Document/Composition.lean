import CommentMacro.Proofs.Document.Agreement
import CommentMacro.Proofs.Document.Reparsing

/-!
# Documents put one behind the other

A document that ends where a line starts, and outside of everything, says nothing
about what is put behind it: the two are read one after the other (`parse_append`).
The second may be any text. If its markers are out of order then so are those of both
together, for the same reason and at the same place.

Its markers have to be aligned in the first document. Where a generate marker does
not stand alone on its line, the declarations in front of it would reach into the
second document, up to the first generate marker that does.
-/

namespace CommentMacro.Document

/-! ## The order of the markers -/

/-- The same marker with as many characters in front of the document. -/
def MarkerFault.shift (length : Nat) (fault : MarkerFault) : MarkerFault :=
  ⟨fault.misplacement, length + fault.start, length + fault.stop⟩

theorem validateFrom_shift (phase : Phase) (length offset : Nat) (tokens : List Token) :
    validateFrom phase (length + offset) tokens =
      (validateFrom phase offset tokens).mapError (MarkerFault.shift length) := by
  induction tokens generalizing phase offset with
  | nil => rfl
  | cons token tokens ih =>
      simp only [validateFrom, Nat.add_assoc]
      cases token.marker? with
      | none => exact ih phase _
      | some which =>
          simp only
          cases phase.next which with
          | ok next => exact ih next _
          | error misplacement => rfl

/-! ## Markers that lead outside -/

/-- The markers among tokens lead from a phase to outside. -/
def LeadsOut (phase : Phase) (tokens : List Token) : Prop :=
  (markersOf tokens).foldlM Phase.next phase = .ok .outside

variable {phase : Phase} {tokens : List Token}

theorem LeadsOut.of_append {front : List Token} (h : LeadsOut phase (front ++ tokens)) :
    ∃ next, (markersOf front).foldlM Phase.next phase = .ok next ∧ LeadsOut next tokens := by
  rw [LeadsOut, markersOf_append, List.foldlM_append] at h
  cases hfront : (markersOf front).foldlM Phase.next phase with
  | ok next =>
      rw [hfront] at h
      exact ⟨next, rfl, h⟩
  | error misplacement =>
      rw [hfront] at h
      simp [bind, Except.bind] at h

theorem LeadsOut.of_quiet {front : List Token} (h : LeadsOut phase (front ++ tokens))
    (hquiet : markersOf front = []) : LeadsOut phase tokens := by
  rwa [LeadsOut, markersOf_append, hquiet, List.nil_append] at h

/-- Declarations are left with a generate marker only. -/
theorem declaring_of_foldlM {markers : List Marker} {last : Phase}
    (hgenerate : .generate ∉ markers)
    (h : markers.foldlM Phase.next .declaring = .ok last) : last = .declaring := by
  induction markers with
  | nil => exact (Except.ok.inj h).symm
  | cons which markers ih =>
      rw [List.mem_cons, not_or] at hgenerate
      cases which with
      | start => exact ih hgenerate.2 h
      | generate => exact absurd rfl hgenerate.1
      | finish => simp [Phase.next, bind, Except.bind] at h

/-- Without a generate marker, outside is where one stays. -/
theorem LeadsOut.quiet (h : LeadsOut .outside tokens)
    (hgenerate : Marker.generate ∉ markersOf tokens) : markersOf tokens = [] := by
  rw [LeadsOut] at h
  cases hmarkers : markersOf tokens with
  | nil => rfl
  | cons which markers =>
      rw [hmarkers] at h hgenerate
      rw [List.mem_cons, not_or] at hgenerate
      cases which with
      | start => simpa using declaring_of_foldlM hgenerate.2 h
      | generate => exact absurd rfl hgenerate.1
      | finish => simp [Phase.next, bind, Except.bind] at h

/-- An opening line leads to generating, whatever is in front of it. -/
theorem LeadsOut.of_opening {front : List Token} {c m r : Text}
    (h : LeadsOut phase (front ++ (openingLine c m r ++ tokens))) :
    LeadsOut .generating tokens := by
  obtain ⟨next, -, hopening⟩ := h.of_append
  have hmarkers : markersOf (openingLine c m r ++ tokens) = .generate :: markersOf tokens := rfl
  rw [LeadsOut, hmarkers, List.foldlM_cons] at hopening
  cases hnext : next.next .generate with
  | ok opened =>
      rw [hnext] at hopening
      obtain ⟨-, rfl⟩ := next_generate hnext
      exact hopening
  | error misplacement =>
      rw [hnext] at hopening
      simp [bind, Except.bind] at hopening

/-- A region that is left has an end. -/
theorem Closing.leadsOut {closing : List Token} (h : Closing closing tokens)
    (hleads : LeadsOut .generating (closing ++ tokens)) :
    closing ≠ [] ∧ LeadsOut .outside tokens := by
  cases h with
  | atEnd => simp [LeadsOut, markersOf, pure, Except.pure] at hleads
  | bare c m _ => exact ⟨by simp, hleads⟩
  | line c m r _ => exact ⟨by simp, hleads⟩

/-! ## Tokens behind a place where a line starts -/

theorem AtLineStart.of_append {front : List Token} (h : AtLineStart (front ++ tokens)) :
    AtLineStart tokens := by
  rcases List.eq_nil_or_concat tokens with rfl | ⟨earlier, last, rfl⟩
  · exact Or.inl rfl
  · apply Or.inr
    rcases h with hnil | ⟨r, hr⟩
    · simp at hnil
    · rw [List.concat_eq_append, ← List.append_assoc, List.getLast?_concat] at hr
      exact ⟨r, by rw [List.concat_eq_append, List.getLast?_concat, hr]⟩

theorem AtLineStart.noneBefore {test : List Token → Bool} (htest : AtMarkers test)
    (h : AtLineStart tokens) (hquiet : markersOf tokens = []) (later : List Token) :
    NoneBefore test tokens later := by
  apply htest.noneBefore hquiet
  intro c m which hc
  rcases h with rfl | ⟨r, hr⟩
  · simp at hc
  · rw [hr] at hc
    simp at hc

/-- An end with a line behind it stays one. -/
theorem Closing.append {closing : List Token} (h : Closing closing tokens) (hne : closing ≠ [])
    (hstart : AtLineStart (closing ++ tokens)) (later : List Token) :
    Closing closing (tokens ++ later) := by
  cases tokens with
  | cons token tokens => exact h.congr_head rfl
  | nil =>
      cases h with
      | atEnd => exact absurd rfl hne
      | bare c m _ => simp [AtLineStart] at hstart
      | line c m r _ => exact .line c m r later

/-! ## One document behind the other -/

/-- A document that leads outside is collected apart from what is put behind it. The
induction is over its regions, each of which is left before the next one. -/
theorem QuietReading.collect_append {lines : List Token} (h : QuietReading lines tokens)
    (haligned : Aligned lines) (hleads : LeadsOut .outside lines) (hstart : AtLineStart lines)
    (later : List Token) :
    collectRegions (groupDeclarations (lines ++ later)) =
      tokens ++ collectRegions (groupDeclarations later) := by
  induction h with
  | @rest lines hnone =>
      rw [← List.append_nil lines] at haligned
      have hquiet := hleads.quiet (haligned.not_mem hnone)
      have hstarts := hstart.noneBefore (atMarkers_opensWith .start) hquiet
      have hopens := hstart.noneBefore (atMarkers_opensWith .generate) hquiet
      rw [groupDeclarations_append_of_none (hstarts later), collectRegions_append (hopens _)]
  | @region c m r front grouped stale closing lines tokens hnone hgroup hquiet hclosing _ ih =>
      obtain ⟨hne, hleads'⟩ := hclosing.leadsOut (hleads.of_opening.of_quiet hquiet)
      simp only [← List.append_assoc] at hstart haligned
      simp only [List.append_assoc _ closing] at hstart haligned
      have hclosing' := hclosing.append hne hstart.of_append later
      have hlines := hstart.of_append.of_append
      simp only [List.append_assoc] at ih ⊢
      rw [collect_region hnone hgroup hquiet hclosing',
        ih (hclosing.aligned_of_append haligned) hleads' hlines, List.cons_append]

theorem validate_append {sign first : Text} (hsign : ProperSign sign) (hfresh : Fresh first)
    (houtside : validate (splitLines sign first) = .ok .outside) (second : Text) :
    validate (splitLines sign (first ++ second)) =
      (validate (splitLines sign second)).mapError (MarkerFault.shift first.length) := by
  rw [splitLines_append hsign hfresh, validate, validateFrom_append houtside, textOf_splitLines,
    Nat.zero_add]
  exact validateFrom_shift .outside first.length 0 (splitLines sign second)

/-- A document that ends where a line starts and outside of everything is read apart
from what is put behind it, and so is the order of the markers there. Where the start
markers stand, and what is behind the end markers on their lines, does not matter. -/
theorem parse_append {sign first : Text} (hsign : ProperSign sign) (hfresh : Fresh first)
    (haligned : Aligned (splitLines sign first))
    (houtside : validate (splitLines sign first) = .ok .outside) (second : Text) :
    ∃ early, parse sign first = .ok early ∧
      parse sign (first ++ second) =
        match parse sign second with
        | .ok later => .ok (early ++ later)
        | .error fault => .error (fault.shift first.length) := by
  have hleads : LeadsOut .outside (splitLines sign first) :=
    (validateFrom_eq_ok_iff 0 .outside).mp houtside
  have hparse : parse sign first =
      .ok (collectRegions (groupDeclarations (splitLines sign first))) :=
    parse_eq_ok_iff.mpr ⟨⟨.outside, hleads⟩, rfl⟩
  have hreading := quietReading_of_finish_behind hparse haligned.finish_behind
  have hcollect := hreading.collect_append haligned hleads
    (atLineStart_splitLines hsign hfresh) (splitLines sign second)
  refine ⟨_, hparse, ?_⟩
  simp only [parse, validate_append hsign hfresh houtside]
  rw [splitLines_append hsign hfresh, hcollect]
  cases validate (splitLines sign second) <;> rfl

/-- A document with declarations and a region, which is put in front of two others. -/
def complete : Text :=
  "// #metacode\n// #macro HI(x)\n//   hi\n// #metagen\nold\n// #metaend\n".toList

def completeTokens : List Token :=
  [.comment "//".toList, .marker " #metacode".toList .start, .lineBreak ['\n'],
    .macroDefinition "// #macro HI(x)\n//   hi\n".toList "HI".toList ["x".toList] "hi".toList,
    .region "// #metagen\n".toList "old\n".toList "// #metaend\n".toList]

def unfinished : Text :=
  "// #metacode\n//\n// #metagen\nold".toList

def unfinishedTokens : List Token :=
  [.comment "//".toList, .marker " #metacode".toList .start, .lineBreak ['\n'],
    .invocation "//\n".toList ['\n'], .region "// #metagen\n".toList "old".toList []]

def misplaced : Text :=
  "text\n// #metaend".toList

theorem parse_append_complete :
    let sign := "//".toList
    ProperSign sign ∧ Fresh complete ∧ Aligned (splitLines sign complete) ∧
      validate (splitLines sign complete) = .ok .outside ∧
      parse sign complete = .ok completeTokens ∧ parse sign unfinished = .ok unfinishedTokens ∧
      parse sign (complete ++ unfinished) = .ok (completeTokens ++ unfinishedTokens) ∧
      parse sign misplaced = .error ⟨.endOutside, 7, 16⟩ ∧
      parse sign (complete ++ misplaced) = .error ⟨.endOutside, 72, 81⟩ := by
  intro sign
  have hsign : ProperSign sign := ⟨by decide, by decide⟩
  have hfresh : Fresh complete := by decide
  have haligned : Aligned (splitLines sign complete) := by decide +kernel
  have houtside : validate (splitLines sign complete) = .ok .outside := by decide +kernel
  have hcomplete : parse sign complete = .ok completeTokens := by decide +kernel
  have hunfinished : parse sign unfinished = .ok unfinishedTokens := by decide +kernel
  have hmisplaced : parse sign misplaced = .error ⟨.endOutside, 7, 16⟩ := by decide +kernel
  obtain ⟨early, hearly, hboth⟩ := parse_append hsign hfresh haligned houtside unfinished
  obtain ⟨_, -, hfault⟩ := parse_append hsign hfresh haligned houtside misplaced
  obtain rfl : early = completeTokens := Except.ok.inj (hearly.symm.trans hcomplete)
  rw [hunfinished] at hboth
  rw [hmisplaced] at hfault
  exact ⟨hsign, hfresh, haligned, houtside, hcomplete, hunfinished, hboth, hmisplaced, hfault⟩

end CommentMacro.Document
