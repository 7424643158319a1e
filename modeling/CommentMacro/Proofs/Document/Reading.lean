import CommentMacro.Document.Parse
import CommentMacro.Proofs.Document.Groups
import CommentMacro.Proofs.Document.Lines
import CommentMacro.Proofs.Document.Refill
import CommentMacro.Proofs.Document.Regions

/-!
# A document and its lines

`Reading lines tokens` says how the tokens of a document are read off the tokens
of its lines, from the front: a token is kept, a run of whole lines becomes a
declaration, and a region reaches from its opening line to its first end. Every
document that is accepted is read so (`reading_of_parse`).

`Layout` cuts the lines of a document at its regions. Whatever texts are put into
the regions, the lines outside of them stay (`Reading.exists_layout`).
-/

namespace CommentMacro.Document

/-! ## Reading tokens off lines -/

/-- Tokens of a document, as read off the tokens of its lines. -/
inductive Reading : List Token → List Token → Prop where
  | nil : Reading [] []
  | keep (token : Token) {lines tokens : List Token}
      (hopens : opensWith .generate (token :: lines) = false) (rest : Reading lines tokens) :
      Reading (token :: lines) (token :: tokens)
  | declaration {run lines tokens : List Token} (hrun : DeclarationRun run)
      (rest : Reading lines tokens) : Reading (run ++ lines) (declare run :: tokens)
  | region (c m r : Text) {stale closing lines tokens : List Token}
      (hnone : NoneBefore closes stale (closing ++ lines)) (hclosing : Closing closing lines)
      (rest : Reading lines tokens) :
      Reading (.comment c :: .marker m .generate :: .lineBreak r :: (stale ++ (closing ++ lines)))
        (.region (textOf [.comment c, .marker m .generate, .lineBreak r]) (textOf stale)
          (textOf closing) :: tokens)

theorem reading_of_collects {lines grouped tokens : List Token} (hgroups : Groups lines grouped)
    (h : Collects grouped tokens) : Reading lines tokens := by
  induction h generalizing lines with
  | nil =>
      cases hgroups
      exact .nil
  | keep token hopens _ ih =>
      rw [hgroups.opensWith_eq] at hopens
      cases hgroups with
      | keep _ rest => exact .keep token hopens (ih rest)
      | declare hrun rest => exact .declaration hrun (ih rest)
  | region c m r hnone hclosing _ ih =>
      -- grouping leaves the opening line and the end alone, so the lines have them too
      obtain ⟨_, rfl, hmarker⟩ := hgroups.of_kept (by simp [Token.kind])
      obtain ⟨_, rfl, hbreak⟩ := hmarker.of_kept (by simp [Token.kind, Marker.kind])
      obtain ⟨_, rfl, hbehind⟩ := hbreak.of_kept (by simp [Token.kind])
      obtain ⟨stale, _, rfl, hstale, hend⟩ := hbehind.exists_split
      have hnoneLines := (hstale.noneBefore_iff atMarkers_closes Groups.closes_eq hend).mp hnone
      obtain ⟨closingLines, restLines, rfl, hclosed, hrest⟩ := hend.exists_split
      obtain rfl := hclosing.eq_of_groups hclosed
      rw [hstale.textOf_eq]
      exact .region c m r hnoneLines (hrest.closing_iff.mp hclosing) (ih hrest)

theorem reading_collectRegions {lines grouped : List Token} (h : Groups lines grouped) :
    Reading lines (collectRegions grouped) :=
  reading_of_collects h (collects_collectRegions grouped)

/-- A document that is accepted is read off its lines. -/
theorem reading_of_parse {sign source : Text} {tokens : List Token}
    (h : parse sign source = .ok tokens) : Reading (splitLines sign source) tokens := by
  simp only [parse, bind, Except.bind] at h
  split at h
  · simp at h
  · obtain rfl := Except.ok.inj h
    exact reading_collectRegions (groups_groupDeclarations _)

theorem Reading.textOf_eq {lines tokens : List Token} (h : Reading lines tokens) :
    textOf tokens = textOf lines := by
  induction h with
  | nil => rfl
  | keep token _ _ ih => rw [textOf_cons, textOf_cons, ih]
  | declaration _ _ ih => rw [textOf_cons, textOf_append, text_declare, ih]
  | region c m r _ _ _ ih => simp [Token.text, ih]

/-! ## The lines, cut at the regions -/

/-- A region, as the tokens of the lines that it is read from, and the lines behind
it up to the next region. -/
structure RegionLines where
  opening : List Token
  stale : List Token
  closing : List Token
  after : List Token
  deriving DecidableEq, Repr, Inhabited

namespace RegionLines

def lines (part : RegionLines) : List Token :=
  part.opening ++ (part.stale ++ (part.closing ++ part.after))

def region (part : RegionLines) : Token :=
  .region (textOf part.opening) (textOf part.stale) (textOf part.closing)

end RegionLines

/-- The tokens of the lines of a document, cut at its regions. -/
structure Layout where
  before : List Token
  parts : List RegionLines
  deriving DecidableEq, Repr, Inhabited

/-- The texts of regions with the given texts in them, and of the lines behind
them. -/
def textWith : List RegionLines → List Text → Text
  | part :: parts, output :: outputs =>
    textOf part.opening ++ output ++ textOf part.closing ++ textOf part.after ++
      textWith parts outputs
  | _, _ => []

namespace Layout

def lines (layout : Layout) : List Token :=
  layout.before ++ layout.parts.flatMap RegionLines.lines

/-- The text of a document with the given texts in its regions. -/
def text (layout : Layout) (outputs : List Text) : Text :=
  textOf layout.before ++ textWith layout.parts outputs

end Layout

/-- Each region opens with a line that holds a generate marker alone, and has an end
in front of all that follows. -/
inductive Delimited : List RegionLines → Prop where
  | nil : Delimited []
  | cons (c m r : Text) {stale closing after : List Token} {parts : List RegionLines}
      (hclosing : Closing closing (after ++ parts.flatMap RegionLines.lines))
      (rest : Delimited parts) :
      Delimited (⟨[.comment c, .marker m .generate, .lineBreak r], stale, closing, after⟩ :: parts)

/-- Only the last region may have no end, and then nothing follows it. -/
theorem Delimited.eq_last {parts : List RegionLines} (h : Delimited parts) :
    ∀ part ∈ parts, part.closing = [] → part.after = [] ∧ parts.getLast? = some part := by
  induction h with
  | nil =>
      intro part hmem
      simp at hmem
  | @cons c m r stale closing after parts hclosing rest ih =>
      intro part hmem hnil
      rcases List.mem_cons.mp hmem with rfl | hmem
      · obtain rfl : closing = [] := hnil
        generalize hbehind : after ++ parts.flatMap RegionLines.lines = behind at hclosing
        cases hclosing
        obtain ⟨rfl, hparts⟩ := List.append_eq_nil_iff.mp hbehind
        cases rest with
        | nil => exact ⟨rfl, rfl⟩
        | cons => simp [RegionLines.lines] at hparts
      · obtain ⟨hafter, hlast⟩ := ih part hmem hnil
        refine ⟨hafter, ?_⟩
        rw [List.getLast?_cons, hlast]
        rfl

theorem FromLine.body?_eq_none {sign : Text} {token : Token} (h : FromLine sign token) :
    token.body? = none := by
  cases token with
  | region => exact h.elim
  | _ => rfl

theorem bodiesOf_splitLines (sign source : Text) : bodiesOf (splitLines sign source) = [] := by
  rw [bodiesOf, List.filterMap_eq_nil_iff]
  intro token hmem
  exact (fromLine_of_mem hmem).body?_eq_none

/-- Lines that are read off their own text. -/
abbrev ReadsBack (sign : Text) (lines : List Token) : Prop :=
  splitLines sign (textOf lines) = lines

theorem readsBack_splitLines (sign source : Text) : ReadsBack sign (splitLines sign source) := by
  rw [ReadsBack, textOf_splitLines]

theorem ReadsBack.bodiesOf_eq {sign : Text} {before lines : List Token}
    (h : ReadsBack sign (before ++ lines)) : bodiesOf lines = [] := by
  have hbodies := bodiesOf_splitLines sign (textOf (before ++ lines))
  rw [h, bodiesOf_append, List.append_eq_nil_iff] at hbodies
  exact hbodies.2

theorem ReadsBack.eq_nil {sign : Text} {before lines : List Token}
    (h : ReadsBack sign (before ++ lines)) {outputs : List Text}
    (hlength : outputs.length = (bodiesOf lines).length) : outputs = [] := by
  rwa [h.bodiesOf_eq, List.length_nil, List.length_eq_zero_iff] at hlength

@[simp] theorem body?_declare (run : List Token) : (declare run).body? = none := by
  unfold declare
  split <;> rfl

theorem DeclarationRun.bodiesOf_eq {run : List Token} (h : DeclarationRun run) :
    bodiesOf run = [] := by
  rw [bodiesOf, List.filterMap_eq_nil_iff]
  intro token hmem
  have hkind := h.plain token hmem
  cases token with
  | region => simp [Token.kind, plainKinds] at hkind
  | _ => rfl

theorem Groups.bodiesOf_eq {lines tokens : List Token} (h : Groups lines tokens) :
    bodiesOf tokens = bodiesOf lines := by
  induction h with
  | nil => rfl
  | keep token _ ih =>
      simp only [bodiesOf, List.filterMap_cons] at ih ⊢
      rw [ih]
  | @declare run _ _ hrun _ ih =>
      rw [bodiesOf_cons (body?_declare run), bodiesOf_append, hrun.bodiesOf_eq, List.nil_append, ih]

/-- The lines of a document, cut at its regions. Putting texts into the regions
changes the text of the document there and nowhere else. -/
theorem Reading.exists_layout {lines tokens : List Token} (h : Reading lines tokens)
    (hlines : bodiesOf lines = []) :
    ∃ layout : Layout, layout.lines = lines ∧ Delimited layout.parts ∧
      regionsOf tokens = layout.parts.map RegionLines.region ∧
      ∀ outputs, outputs.length = layout.parts.length →
        textOf (refill tokens outputs) = layout.text outputs := by
  induction h with
  | nil => exact ⟨⟨[], []⟩, rfl, .nil, rfl, by simp [Layout.text, textWith]⟩
  | @keep token lines tokens _ _ ih =>
      rw [← List.singleton_append, bodiesOf_append, List.append_eq_nil_iff] at hlines
      obtain ⟨layout, rfl, hdelimited, hregions, htext⟩ := ih hlines.2
      have hbody : token.body? = none := by
        cases hbody : token.body? with
        | none => rfl
        | some body => simp [bodiesOf, hbody] at hlines
      refine ⟨⟨token :: layout.before, layout.parts⟩, rfl, hdelimited, ?_, ?_⟩
      · rw [regionsOf_cons hbody, hregions]
      · intro outputs hlength
        rw [refill_cons hbody, textOf_cons, htext outputs hlength]
        simp [Layout.text]
  | @declaration run lines tokens _ _ ih =>
      rw [bodiesOf_append, List.append_eq_nil_iff] at hlines
      obtain ⟨layout, rfl, hdelimited, hregions, htext⟩ := ih hlines.2
      refine ⟨⟨run ++ layout.before, layout.parts⟩, ?_, hdelimited, ?_, ?_⟩
      · simp [Layout.lines]
      · rw [regionsOf_cons (body?_declare run), hregions]
      · intro outputs hlength
        rw [refill_cons (body?_declare run), textOf_cons, htext outputs hlength, text_declare]
        simp [Layout.text]
  | @region c m r stale closing lines tokens _ hclosing _ ih =>
      have hrest : bodiesOf lines = [] := by
        simp only [← List.cons_append, bodiesOf_append, List.append_eq_nil_iff] at hlines
        exact hlines.2.2
      obtain ⟨layout, rfl, hdelimited, hregions, htext⟩ := ih hrest
      refine ⟨⟨[], ⟨[.comment c, .marker m .generate, .lineBreak r], stale, closing,
        layout.before⟩ :: layout.parts⟩, ?_, .cons c m r hclosing hdelimited, ?_, ?_⟩
      · simp [Layout.lines, RegionLines.lines]
      · rw [regionsOf_region, hregions]
        rfl
      · intro outputs hlength
        cases outputs with
        | nil => simp at hlength
        | cons output outputs =>
            rw [refill_region, textOf_cons, htext outputs (by simpa using hlength)]
            simp [Layout.text, textWith, Token.text]

end CommentMacro.Document
