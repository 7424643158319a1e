import CommentMacro.Proofs.Document.Quiet

/-!
# Reading a rewritten document again

Texts are put into the regions of a document, and the result is read again. If each
of these texts holds no marker and ends where a line starts (`Settled`), then the
lines around the regions are what they were, and so is everything that is read off
them (`parse_refill`).
-/

namespace CommentMacro.Document

/-! ## Texts that hold no marker -/

def QuietText (sign t : Text) : Prop :=
  markersOf (splitLines sign t) = []

instance decidableQuietText (sign t : Text) : Decidable (QuietText sign t) :=
  inferInstanceAs (Decidable (markersOf (splitLines sign t) = []))

def QuietBodies (sign : Text) (tokens : List Token) : Prop :=
  ∀ body ∈ bodiesOf tokens, QuietText sign body

instance decidableQuietBodies (sign : Text) (tokens : List Token) :
    Decidable (QuietBodies sign tokens) :=
  inferInstanceAs (Decidable (∀ body ∈ bodiesOf tokens, QuietText sign body))

instance decidableFresh (t : Text) : Decidable (Fresh t) :=
  inferInstanceAs (Decidable (t = [] ∨ t.getLast? = some '\n'))

/-- The end of a region: the end marker with its comment sign and line break, or
nothing if the region runs to the end of the document. -/
def Token.closing? : Token → Option Text
  | region _ _ closing => some closing
  | _ => none

/-- A text that does not disturb the lines around a region: it holds no marker, and
where it ends a line starts, if anything follows at all. -/
structure Settled (sign : Text) (region : Token) (output : Text) : Prop where
  quiet : QuietText sign output
  ends : Fresh output ∨ region.closing? = some []

instance decidableSettled (sign : Text) (region : Token) (output : Text) :
    Decidable (Settled sign region output) :=
  decidable_of_iff (QuietText sign output ∧ (Fresh output ∨ region.closing? = some []))
    ⟨fun h => ⟨h.1, h.2⟩, fun h => ⟨h.quiet, h.ends⟩⟩

def AllSettled (sign : Text) (tokens : List Token) (outputs : List Text) : Prop :=
  ∀ pair ∈ (regionsOf tokens).zip outputs, Settled sign pair.1 pair.2

instance decidableAllSettled (sign : Text) (tokens : List Token) (outputs : List Text) :
    Decidable (AllSettled sign tokens outputs) :=
  inferInstanceAs (Decidable (∀ pair ∈ (regionsOf tokens).zip outputs, Settled sign pair.1 pair.2))

theorem allSettled_region {sign opening body closing output : Text}
    {front tokens : List Token} {outputs : List Text} (hfront : bodiesOf front = []) :
    AllSettled sign (front ++ .region opening body closing :: tokens) (output :: outputs) ↔
      Settled sign (.region opening body closing) output ∧ AllSettled sign tokens outputs := by
  rw [AllSettled, regionsOf_append, regionsOf_eq_nil hfront, List.nil_append, regionsOf_region,
    List.zip_cons_cons, List.forall_mem_cons]
  rfl

theorem AllSettled.quiet {sign : Text} {tokens : List Token} {outputs : List Text}
    (h : AllSettled sign tokens outputs) (hlength : outputs.length = (bodiesOf tokens).length) :
    ∀ output ∈ outputs, QuietText sign output := by
  intro output hmem
  obtain ⟨i, hi, hget⟩ := List.mem_iff_getElem.mp hmem
  have hi' : i < (regionsOf tokens).length := by
    rw [length_regionsOf, ← hlength]
    exact hi
  have hpair : ((regionsOf tokens)[i], outputs[i]) ∈ (regionsOf tokens).zip outputs := by
    have hzip : i < ((regionsOf tokens).zip outputs).length := by
      rw [List.length_zip]
      omega
    rw [← List.getElem_zip (h := hzip)]
    exact List.getElem_mem hzip
  rw [← hget]
  exact (h _ hpair).quiet

/-! ## Cutting lines at a region -/

section

variable {sign : Text} (hsign : ProperSign sign)
include hsign

/-- The lines in a region and those from its end on may be read by themselves. -/
theorem splitLines_cut_closing {source : Text} {stale closing rest : List Token}
    (h : splitLines sign source = stale ++ (closing ++ rest)) (hclosing : Closing closing rest) :
    splitLines sign (textOf stale) = stale ∧
      splitLines sign (textOf (closing ++ rest)) = closing ++ rest := by
  rcases hclosing.eq_nil_or with ⟨rfl, rfl⟩ | ⟨c, more, rfl⟩
  · refine ⟨?_, splitLines_nil hsign⟩
    rw [List.append_nil, List.append_nil] at h
    rw [← h, textOf_splitLines]
  · exact splitLines_cut hsign h (atLineStart_of_comment hsign h)

omit hsign in
theorem atLineStart_opening (front : List Token) (c m r : Text) :
    AtLineStart (front ++ openingLine c m r) :=
  Or.inr ⟨r, by simp [openingLine, List.getLast?_append]⟩

/-- If the texts in the regions hold no markers, the document is read region by
region. -/
theorem Reading.exists_quiet_of_bodies {source : Text} {before lines tokens : List Token}
    (h : Reading lines tokens) (hsource : splitLines sign source = before ++ lines)
    (hquiet : QuietBodies sign tokens) :
    ∃ tokens', QuietReading lines tokens' := by
  induction h generalizing before with
  | nil => exact ⟨[], .rest (noneBefore_nil _ _)⟩
  | @keep token lines tokens hopens _ ih =>
      have hnone : NoneBefore (opensWith .generate) [token] lines :=
        noneBefore_cons.mpr ⟨hopens, noneBefore_nil _ _⟩
      have hsource' : splitLines sign source = (before ++ [token]) ++ lines := by
        simpa using hsource
      refine exists_quietReading_append hnone (ih hsource' ?_)
      intro body hmem
      apply hquiet body
      rw [← List.singleton_append, bodiesOf_append]
      exact List.mem_append_right _ hmem
  | @declaration run lines tokens hrun _ ih =>
      have hsource' : splitLines sign source = (before ++ run) ++ lines := by
        rwa [List.append_assoc]
      refine exists_quietReading_append (hrun.noneBefore (atMarkers_opensWith .generate))
        (ih hsource' ?_)
      rwa [QuietBodies, bodiesOf_cons (body?_declare run)] at hquiet
  | @region c m r stale closing lines tokens _ hclosing _ ih =>
      rw [QuietBodies, bodiesOf_region, List.forall_mem_cons] at hquiet
      have hlines : splitLines sign source =
          (before ++ openingLine c m r) ++ (stale ++ (closing ++ lines)) := by
        simpa [openingLine] using hsource
      obtain ⟨-, hbehind⟩ := splitLines_cut hsign hlines (atLineStart_opening before c m r)
      obtain ⟨hstale, -⟩ := splitLines_cut_closing hsign hbehind hclosing
      have hquiet' : markersOf stale = [] := by
        have := hquiet.1
        rwa [QuietText, hstale] at this
      have hsource' : splitLines sign source =
          (before ++ openingLine c m r ++ (stale ++ closing)) ++ lines := by
        simpa [openingLine] using hsource
      exact exists_quietReading_region c m r hquiet' hclosing (ih hsource' hquiet.2)

theorem quietReading_of_bodies {source : Text} {tokens : List Token}
    (h : parse sign source = .ok tokens) (hquiet : QuietBodies sign tokens) :
    QuietReading (splitLines sign source) tokens := by
  obtain ⟨tokens', hreading⟩ :=
    (reading_of_parse h).exists_quiet_of_bodies hsign (List.nil_append _).symm hquiet
  obtain ⟨-, heq⟩ := parse_eq_ok_iff.mp h
  rw [hreading.collect_eq] at heq
  rwa [heq]

/-! ## Putting texts into the regions -/

omit hsign in
/-- Whether an end is one depends on the token behind it only. -/
theorem Closing.congr_head {closing rest rest' : List Token} (h : Closing closing rest)
    (hhead : rest'.head? = rest.head?) : Closing closing rest' := by
  cases h with
  | atEnd =>
      obtain rfl : rest' = [] := by simpa using hhead
      exact .atEnd
  | bare c m hno => exact .bare c m fun r hr => hno r (by rw [← hhead, hr])
  | line c m r _ => exact .line c m r rest'

omit hsign in
/-- The end of a region is told by the lines from there on. -/
theorem Closing.unique {closing closing' rest rest' : List Token} (h : Closing closing rest)
    (h' : Closing closing' rest') (heq : closing ++ rest = closing' ++ rest') :
    closing = closing' ∧ rest = rest' := by
  cases h with
  | atEnd => cases h' <;> simp at heq ⊢
  | bare c m hno =>
      cases h' with
      | atEnd => simp at heq
      | bare c' m' _ => simpa [and_assoc] using heq
      | line c' m' r' _ =>
          simp only [List.cons_append, List.nil_append, List.cons.injEq] at heq
          exact absurd (by rw [heq.2.2]; rfl) (hno r')
  | line c m r rest =>
      cases h' with
      | atEnd => simp at heq
      | bare c' m' hno =>
          simp only [List.cons_append, List.nil_append, List.cons.injEq] at heq
          exact absurd (by rw [← heq.2.2]; rfl) (hno r)
      | line c' m' r' _ => simpa [and_assoc] using heq

omit hsign in
theorem QuietReading.eq_nil {tokens : List Token} (h : QuietReading [] tokens) : tokens = [] := by
  generalize hlines : ([] : List Token) = lines at h
  cases h with
  | rest => rfl
  | region => simp [openingLine] at hlines

section Region

variable {before front grouped stale closing lines : List Token} {c m r : Text}

omit hsign in
theorem bodiesOf_grouped
    (hlines : ReadsBack sign (before ++ (front ++ (openingLine c m r ++
      (stale ++ (closing ++ lines))))))
    (hgroups : Groups front grouped) : bodiesOf grouped = [] := by
  have hbodies := hlines.bodiesOf_eq
  rw [bodiesOf_append, List.append_eq_nil_iff] at hbodies
  rw [hgroups.bodiesOf_eq]
  exact hbodies.1

/-- The lines from the end of a region on may be read by themselves. -/
theorem splitLines_behind_region
    (hlines : ReadsBack sign (before ++ (front ++ (openingLine c m r ++
      (stale ++ (closing ++ lines))))))
    (hclosing : Closing closing lines) : ReadsBack sign (closing ++ lines) := by
  rw [← List.append_assoc before, ← List.append_assoc (before ++ front)] at hlines
  obtain ⟨-, hbehind⟩ := splitLines_cut hsign hlines (atLineStart_opening _ c m r)
  exact (splitLines_cut_closing hsign hbehind hclosing).2

/-- The lines up to a region stay, whatever is put into it. -/
theorem splitLines_refill_region
    (hlines : ReadsBack sign (before ++ (front ++ (openingLine c m r ++
      (stale ++ (closing ++ lines))))))
    (hgroups : Groups front grouped) (tokens : List Token) (output : Text) (outputs : List Text) :
    splitLines sign (textOf before ++ textOf (refill (grouped ++ .region
        (textOf (openingLine c m r)) (textOf stale) (textOf closing) :: tokens)
          (output :: outputs))) =
      before ++ (front ++ (openingLine c m r ++ splitLines sign (output ++ (textOf closing ++
        textOf (refill tokens outputs))))) := by
  have hfront := bodiesOf_grouped hlines hgroups
  rw [← List.append_assoc before, ← List.append_assoc (before ++ front)] at hlines
  obtain ⟨hopening, -⟩ := splitLines_cut hsign hlines (atLineStart_opening _ c m r)
  have hfresh := fresh_of_atLineStart hlines (atLineStart_opening _ c m r)
  rw [textOf_refill_region hfront, hgroups.textOf_eq, ← List.append_assoc, ← List.append_assoc,
    ← textOf_append, ← textOf_append, splitLines_append hsign hfresh, hopening, List.append_assoc,
    List.append_assoc]

theorem Closing.eq_nil_of_text (h : Closing closing lines)
    (hlines : ReadsBack sign (closing ++ lines)) (htext : textOf closing = []) :
    closing = [] ∧ lines = [] := by
  rcases h.eq_nil_or with hnil | ⟨c, more, rfl⟩
  · exact hnil
  · have hnil := eq_nil_of_textOf hsign hlines htext
    simp at hnil

end Region

/-- The lines around the regions stay if settled texts are put into these. The
lines `before` are read with the first line of the rest. -/
theorem QuietReading.refill {before lines tokens : List Token} (h : QuietReading lines tokens)
    (hlines : ReadsBack sign (before ++ lines)) {outputs : List Text}
    (hlength : outputs.length = (bodiesOf tokens).length)
    (hsettled : AllSettled sign tokens outputs) :
    ∃ lines', splitLines sign (textOf before ++ textOf (refill tokens outputs)) =
        before ++ lines' ∧
      QuietReading lines' (Document.refill tokens outputs) ∧ markersOf lines' = markersOf lines ∧
      lines'.head? = lines.head? := by
  induction h generalizing before outputs with
  | @rest lines hnone =>
      obtain rfl := hlines.eq_nil hlength
      rw [refill_no_outputs, ← textOf_append]
      exact ⟨lines, hlines, .rest hnone, rfl, rfl⟩
  | @region c m r front grouped stale closing lines tokens hnone hgroup hquiet hclosing hrest ih =>
      have hgroups := groups_of_grouped_opening hgroup
      have hfront := bodiesOf_grouped hlines hgroups
      have hend := splitLines_behind_region hsign hlines hclosing
      cases outputs with
      | nil => simp [bodiesOf_append] at hlength
      | cons output outputs =>
          rw [allSettled_region hfront] at hsettled
          have hlength' : outputs.length = (bodiesOf tokens).length := by
            simpa [bodiesOf_append, hfront] using hlength
          obtain ⟨lines', hlines', hreading, hmarkers, hhead⟩ := ih hend hlength' hsettled.2
          have hclosing' := hclosing.congr_head hhead
          -- the new text ends where a line starts, or nothing follows it
          have houtput : splitLines sign (output ++ (textOf closing ++
              textOf (Document.refill tokens outputs))) =
              splitLines sign output ++ (closing ++ lines') := by
            rcases hsettled.1.ends with hfresh | hempty
            · rw [splitLines_append hsign hfresh, hlines']
            · obtain ⟨rfl, rfl⟩ := hclosing.eq_nil_of_text hsign hend (Option.some.inj hempty)
              obtain rfl := hrest.eq_nil
              obtain rfl : lines' = [] := by simpa using hhead
              simp
          have hnew := QuietReading.region c m r hnone hgroup hsettled.1.quiet hclosing' hreading
          rw [textOf_splitLines] at hnew
          refine ⟨front ++ (openingLine c m r ++ (splitLines sign output ++ (closing ++ lines'))),
            ?_, ?_, ?_, ?_⟩
          · rw [splitLines_refill_region hsign hlines hgroups, houtput]
          · rw [refill_append hfront, refill_region]
            exact hnew
          · have hquietOutput : markersOf (splitLines sign output) = [] := hsettled.1.quiet
            simp only [markersOf_append, hmarkers, hquiet, hquietOutput]
          · cases front <;> simp [openingLine]

/-- Whatever is put into the regions, the first line stays. -/
theorem QuietReading.exists_head {before lines tokens : List Token}
    (h : QuietReading lines tokens)
    (hlines : ReadsBack sign (before ++ lines)) {outputs : List Text}
    (hlength : outputs.length = (bodiesOf tokens).length) :
    ∃ lines', splitLines sign (textOf before ++ textOf (Document.refill tokens outputs)) =
      before ++ lines' ∧ lines'.head? = lines.head? := by
  cases h with
  | rest hnone =>
      obtain rfl := hlines.eq_nil hlength
      rw [refill_no_outputs, ← textOf_append]
      exact ⟨lines, hlines, rfl⟩
  | @region c m r front grouped stale closing lines tokens hnone hgroup hquiet hclosing hrest =>
      cases outputs with
      | nil => simp [bodiesOf_append] at hlength
      | cons output outputs =>
          rw [splitLines_refill_region hsign hlines (groups_of_grouped_opening hgroup)]
          refine ⟨_, rfl, ?_⟩
          cases front <;> simp [openingLine]

/-- A document with settled texts in its regions is read as the document was, apart
from what is in the regions. -/
theorem parse_refill {source : Text} {tokens : List Token} {outputs : List Text}
    (h : parse sign source = .ok tokens)
    (hreading : QuietReading (splitLines sign source) tokens)
    (hlength : outputs.length = (bodiesOf tokens).length)
    (hsettled : AllSettled sign tokens outputs) :
    parse sign (textOf (refill tokens outputs)) = .ok (refill tokens outputs) := by
  have hlines : ReadsBack sign ([] ++ splitLines sign source) := readsBack_splitLines sign source
  obtain ⟨lines', hlines', hreading', hmarkers, -⟩ :=
    hreading.refill hsign hlines hlength hsettled
  rw [textOf_nil, List.nil_append, List.nil_append] at hlines'
  rw [parse_eq_ok_iff, hlines', hreading'.collect_eq, accepts_congr hmarkers]
  exact ⟨(parse_eq_ok_iff.mp h).1, rfl⟩

end

end CommentMacro.Document
