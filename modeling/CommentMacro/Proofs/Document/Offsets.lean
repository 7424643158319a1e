import CommentMacro.Proofs.Document.Reparsing

/-!
# Texts in regions are told by the whole text

A document that is read region by region has as many lines that hold a generate
marker alone as it has regions, and at the same offsets
(`QuietReading.offsets_eq`). With other texts in the regions these lines are all
still there (`QuietReading.offsets_sublist`). So if the text as a whole has not
changed, the texts in the regions have not either (`QuietReading.eq_bodiesOf`).
-/

namespace CommentMacro.Document

/-! ## Offsets -/

/-- The offsets of the places where a test on the rest succeeds. -/
def offsetsFrom (test : List Token → Bool) : (offset : Nat) → List Token → List Nat
  | _, [] => []
  | offset, token :: tokens =>
    (if test (token :: tokens) then [offset] else []) ++
      offsetsFrom test (offset + token.text.length) tokens

theorem exists_offsetsFrom_append (test : List Token → Bool) (offset : Nat)
    (front rest : List Token) : ∃ before, offsetsFrom test offset (front ++ rest) =
      before ++ offsetsFrom test (offset + (textOf front).length) rest := by
  induction front generalizing offset with
  | nil => exact ⟨[], rfl⟩
  | cons token front ih =>
      obtain ⟨before, hbefore⟩ := ih (offset + token.text.length)
      rw [List.cons_append, offsetsFrom, hbefore, textOf_cons, List.length_append, Nat.add_assoc]
      exact ⟨_ ++ before, (List.append_assoc _ _ _).symm⟩

theorem offsetsFrom_append_of_none {test : List Token → Bool} {front rest : List Token}
    (h : NoneBefore test front rest) (offset : Nat) :
    offsetsFrom test offset (front ++ rest) =
      offsetsFrom test (offset + (textOf front).length) rest := by
  induction front generalizing offset with
  | nil => rfl
  | cons token front ih =>
      obtain ⟨hhere, hlater⟩ := noneBefore_cons.mp h
      rw [List.cons_append, offsetsFrom, hhere, ih hlater, textOf_cons, List.length_append,
        Nat.add_assoc]
      rfl

/-- Where a line with a generate marker alone starts, and nowhere within it. -/
theorem offsetsFrom_opening (offset : Nat) (c m r : Text) (rest : List Token) :
    offsetsFrom (opensWith .generate) offset (openingLine c m r ++ rest) =
      offset :: offsetsFrom (opensWith .generate)
        (offset + (textOf (openingLine c m r)).length) rest := by
  have hnone : NoneBefore (opensWith .generate) [.marker m .generate, .lineBreak r] rest := by
    simp [noneBefore_cons, opensWith]
  have hline : openingLine c m r ++ rest =
      .comment c :: ([.marker m .generate, .lineBreak r] ++ rest) := rfl
  rw [hline, offsetsFrom, offsetsFrom_append_of_none hnone]
  simp [opensWith, openingLine, Nat.add_assoc]

def startsRegion : List Token → Bool
  | token :: _ => token.body?.isSome
  | [] => false

theorem noneBefore_startsRegion {front : List Token} (h : bodiesOf front = [])
    (rest : List Token) : NoneBefore startsRegion front rest := by
  induction front with
  | nil => exact noneBefore_nil _ _
  | cons token front ih =>
      cases hbody : token.body? with
      | none =>
          rw [bodiesOf_cons hbody] at h
          exact noneBefore_cons.mpr ⟨by simp [startsRegion, hbody], ih h⟩
      | some body => simp [bodiesOf, hbody] at h

theorem offsetsFrom_region (offset : Nat) (opening body closing : Text) (tokens : List Token) :
    offsetsFrom startsRegion offset (.region opening body closing :: tokens) =
      offset :: offsetsFrom startsRegion
        (offset + (opening.length + body.length + closing.length)) tokens := by
  rw [offsetsFrom]
  simp [startsRegion, Token.body?, Token.text, Nat.add_assoc]

theorem length_offsetsFrom_region (offset : Nat) (tokens : List Token) :
    (offsetsFrom startsRegion offset tokens).length = (bodiesOf tokens).length := by
  induction tokens generalizing offset with
  | nil => rfl
  | cons token tokens ih =>
      rw [offsetsFrom, List.length_append, ih]
      cases hbody : token.body? with
      | none => simp [startsRegion, hbody, bodiesOf_cons hbody]
      | some body => simp [startsRegion, bodiesOf, hbody, Nat.add_comm]

/-! ## Openings and regions -/

/-- The regions of a document start where its opening lines start. -/
theorem QuietReading.offsets_eq {lines tokens : List Token} (h : QuietReading lines tokens)
    (hlines : bodiesOf lines = []) (offset : Nat) :
    offsetsFrom (opensWith .generate) offset lines = offsetsFrom startsRegion offset tokens := by
  induction h generalizing offset with
  | @rest lines hnone =>
      have hopenings := offsetsFrom_append_of_none hnone offset
      have hregions := offsetsFrom_append_of_none (noneBefore_startsRegion hlines []) offset
      rw [List.append_nil] at hopenings hregions
      rw [hopenings, hregions]
      rfl
  | @region c m r front grouped stale closing lines tokens hnone hgroup hquiet hclosing _ ih =>
      have hgroups := groups_of_grouped_opening hgroup
      simp only [bodiesOf_append, List.append_eq_nil_iff] at hlines
      have hfront : bodiesOf grouped = [] := by
        rw [hgroups.bodiesOf_eq]
        exact hlines.1
      rw [offsetsFrom_append_of_none ((noneBefore_opensWith_append (by simp [openingLine])
          _).mpr hnone), offsetsFrom_opening, ← List.append_assoc,
        offsetsFrom_append_of_none (hclosing.noneBefore_opensWith hquiet (by simp)),
        ih hlines.2.2.2.2, offsetsFrom_append_of_none (noneBefore_startsRegion hfront _),
        offsetsFrom_region, hgroups.textOf_eq, textOf_append, List.length_append]
      congr 2
      omega

theorem Fresh.append {first second : Text} (h : Fresh second) (hfirst : second = [] → Fresh first) :
    Fresh (first ++ second) := by
  rcases h with rfl | hlast
  · simpa using hfirst rfl
  · apply Or.inr
    rw [List.getLast?_append, hlast]
    rfl

section

variable {sign : Text} (hsign : ProperSign sign)
include hsign

/-- Whatever is put into the regions, their opening lines are still there. -/
theorem QuietReading.offsets_sublist {before lines tokens : List Token}
    (h : QuietReading lines tokens)
    (hlines : ReadsBack sign (before ++ lines)) {text : Text}
    (htext : before = [] → Fresh text) {outputs : List Text}
    (hlength : outputs.length = (bodiesOf tokens).length) (offset : Nat) :
    (offsetsFrom startsRegion (offset + (text.length + (textOf before).length))
      (Document.refill tokens outputs)).Sublist
      (offsetsFrom (opensWith .generate) offset
        (splitLines sign (text ++ (textOf before ++ textOf (Document.refill tokens outputs))))) := by
  induction h generalizing before text outputs offset with
  | @rest lines hnone =>
      have hnil := offsetsFrom_append_of_none (noneBefore_startsRegion hlines.bodiesOf_eq [])
        (offset + (text.length + (textOf before).length))
      rw [List.append_nil] at hnil
      rw [hlines.eq_nil hlength, refill_no_outputs, hnil]
      exact List.nil_sublist _
  | @region c m r front grouped stale closing lines tokens hnone hgroup hquiet hclosing hrest ih =>
      have hgroups := groups_of_grouped_opening hgroup
      have hfront := bodiesOf_grouped hlines hgroups
      have hend := splitLines_behind_region hsign hlines hclosing
      rw [← List.append_assoc before] at hlines
      have hstart : AtLineStart (before ++ front) := atLineStart_of_comment hsign hlines
      have hfreshFront := fresh_of_atLineStart hlines hstart
      obtain ⟨-, hbehind⟩ := splitLines_cut hsign hlines hstart
      obtain ⟨hopening, -⟩ := splitLines_cut hsign hbehind (atLineStart_opening [] c m r)
      have hfreshOpening := fresh_of_atLineStart hbehind (atLineStart_opening [] c m r)
      -- the lines in front of the opening line end where a line starts, and so does the text
      have hfresh : Fresh (text ++ textOf (before ++ front)) := by
        refine hfreshFront.append fun hempty => htext ?_
        exact (List.append_eq_nil_iff.mp (eq_nil_of_textOf hsign hlines hempty)).1
      cases outputs with
      | nil => simp [bodiesOf_append] at hlength
      | cons output outputs =>
          have hlength' : outputs.length = (bodiesOf tokens).length := by
            simpa [bodiesOf_append, hfront] using hlength
          rw [textOf_refill_region hfront, hgroups.textOf_eq, ← List.append_assoc (textOf before),
            ← textOf_append, ← List.append_assoc text, splitLines_append hsign hfresh,
            splitLines_append hsign hfreshOpening, hopening]
          obtain ⟨earlier, hearlier⟩ := exists_offsetsFrom_append (opensWith .generate) offset
            (splitLines sign (text ++ textOf (before ++ front))) (openingLine c m r ++
              splitLines sign (output ++ (textOf closing ++
                textOf (Document.refill tokens outputs))))
          rw [hearlier, offsetsFrom_opening, textOf_splitLines, refill_append hfront,
            refill_region, offsetsFrom_append_of_none (noneBefore_startsRegion hfront _),
            offsetsFrom_region, hgroups.textOf_eq]
          have hhere : offset + (text.length + (textOf before).length) + (textOf front).length =
              offset + (text ++ textOf (before ++ front)).length := by
            simp only [textOf_append, List.length_append]
            omega
          rw [hhere]
          -- this region is matched with its own opening line, and the later ones behind it
          refine (List.Sublist.cons_cons _ ?_).trans (List.sublist_append_right earlier _)
          rcases hclosing.eq_nil_or with ⟨rfl, rfl⟩ | ⟨c', more, rfl⟩
          · rw [hrest.eq_nil, refill_nil]
            exact List.nil_sublist _
          · have htext' : Token.comment c' :: more = [] → Fresh output := by simp
            have hlater := ih hend htext' hlength'
              (offset + (text ++ textOf (before ++ front)).length +
                (textOf (openingLine c m r)).length)
            have hoffset : offset + (text ++ textOf (before ++ front)).length +
                (textOf (openingLine c m r)).length +
                  (output.length + (textOf (Token.comment c' :: more)).length) =
                offset + (text ++ textOf (before ++ front)).length +
                  ((textOf (openingLine c m r)).length + output.length +
                    (textOf (Token.comment c' :: more)).length) := by
              omega
            rwa [hoffset] at hlater

end

/-! ## The text as a whole -/

/-- If the regions of two documents start at the same offsets and the documents are
equally long, then they start at the same offset. -/
theorem offset_eq_of_refill {tokens : List Token} {outputs : List Text} {offset offset' : Nat}
    (hlength : outputs.length = (bodiesOf tokens).length)
    (hregions : offsetsFrom startsRegion offset tokens =
      offsetsFrom startsRegion offset' (refill tokens outputs))
    (htext : offset + (textOf tokens).length = offset' + (textOf (refill tokens outputs)).length) :
    offset = offset' := by
  induction tokens generalizing outputs offset offset' with
  | nil => simpa using htext
  | cons token tokens ih =>
      cases hbody : token.body? with
      | none =>
          rw [bodiesOf_cons hbody] at hlength
          rw [refill_cons hbody] at hregions htext
          have hnone : ∀ rest, startsRegion (token :: rest) = false := by
            intro rest
            simp [startsRegion, hbody]
          rw [offsetsFrom, offsetsFrom, hnone, hnone] at hregions
          rw [textOf_cons, textOf_cons, List.length_append, List.length_append] at htext
          have := ih hlength hregions (by omega)
          omega
      | some body =>
          obtain ⟨opening, closing, rfl⟩ := body?_eq_some.mp hbody
          cases outputs with
          | nil => simp at hlength
          | cons output outputs =>
              rw [refill_region, offsetsFrom_region, offsetsFrom_region] at hregions
              exact (List.cons.inj hregions).1

/-- Texts in the regions are told by the text as a whole and the offsets of the
regions. -/
theorem eq_bodiesOf_of_offsets {tokens : List Token} {outputs : List Text} {offset : Nat}
    (hlength : outputs.length = (bodiesOf tokens).length)
    (hregions : offsetsFrom startsRegion offset tokens =
      offsetsFrom startsRegion offset (refill tokens outputs))
    (htext : textOf (refill tokens outputs) = textOf tokens) : outputs = bodiesOf tokens := by
  induction tokens generalizing outputs offset with
  | nil => exact List.length_eq_zero_iff.mp hlength
  | cons token tokens ih =>
      cases hbody : token.body? with
      | none =>
          rw [bodiesOf_cons hbody] at hlength ⊢
          rw [refill_cons hbody] at hregions htext
          have hnone : ∀ rest, startsRegion (token :: rest) = false := by
            intro rest
            simp [startsRegion, hbody]
          rw [offsetsFrom, offsetsFrom, hnone, hnone] at hregions
          rw [textOf_cons, textOf_cons] at htext
          exact ih hlength hregions (List.append_cancel_left htext)
      | some body =>
          obtain ⟨opening, closing, rfl⟩ := body?_eq_some.mp hbody
          cases outputs with
          | nil => simp at hlength
          | cons output outputs =>
              rw [refill_region, offsetsFrom_region, offsetsFrom_region] at hregions
              rw [refill_region, textOf_cons, textOf_cons] at htext
              have hlength' : outputs.length = (bodiesOf tokens).length := by simpa using hlength
              have htotal := congrArg List.length htext
              simp only [Token.text, List.length_append] at htotal
              have hoffset := offset_eq_of_refill hlength' (List.cons.inj hregions).2 (by omega)
              have hsame : output.length = body.length := by omega
              simp only [Token.text, List.append_assoc] at htext
              obtain ⟨houtput, hbehind⟩ :=
                List.append_inj (List.append_cancel_left htext) hsame
              have hlater := (List.cons.inj hregions).2
              rw [← hoffset] at hlater
              rw [bodiesOf_region, houtput, ih hlength' hlater (List.append_cancel_left hbehind)]

/-- If new texts in the regions leave the text of a document as it was, they are the
old ones. -/
theorem QuietReading.eq_bodiesOf {sign source : Text} (hsign : ProperSign sign)
    {tokens : List Token} (h : QuietReading (splitLines sign source) tokens)
    (htokens : textOf tokens = source) {outputs : List Text}
    (hlength : outputs.length = (bodiesOf tokens).length)
    (htext : textOf (Document.refill tokens outputs) = source) : outputs = bodiesOf tokens := by
  have hlines : ReadsBack sign ([] ++ splitLines sign source) := readsBack_splitLines sign source
  have hfresh : ([] : List Token) = [] → Fresh [] := fun _ => Or.inl rfl
  have hsublist := h.offsets_sublist hsign hlines hfresh hlength 0
  have hopenings := h.offsets_eq (bodiesOf_splitLines sign source) 0
  simp only [List.nil_append, textOf_nil, List.length_nil, Nat.add_zero] at hsublist
  rw [htext, hopenings] at hsublist
  have hregions := hsublist.eq_of_length (by
    rw [length_offsetsFrom_region, length_offsetsFrom_region, bodiesOf_refill hlength, hlength])
  exact eq_bodiesOf_of_offsets hlength hregions.symm (htext.trans htokens.symm)

end CommentMacro.Document
