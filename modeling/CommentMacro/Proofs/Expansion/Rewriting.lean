import CommentMacro.Proofs.Document.Order
import CommentMacro.Proofs.Document.Reading
import CommentMacro.Proofs.Expansion.Filling

/-!
# An expansion rewrites the regions and nothing else

`Rewritten sign source out …` says that a text is another one with other texts in
its generated regions: both have the same lines before, between and behind the
regions, and the same lines around what is in them. Every expansion is of this kind
(`exists_rewritten_of_expand`), whatever the settings are and whoever listens.
-/

namespace CommentMacro

open Document

/-- A text is another one with the given texts in its regions. The layout cuts the
lines of the source at the regions. -/
structure Rewritten (sign source out : Text) (tokens : List Document.Token) (layout : Layout)
    (outputs : List Text) : Prop where
  parsed : parse sign source = .ok tokens
  text_tokens : textOf tokens = source
  lines_layout : layout.lines = splitLines sign source
  delimited : Delimited layout.parts
  regions_tokens : regionsOf tokens = layout.parts.map RegionLines.region
  /-- Only the last region may have no end, and then nothing follows it. -/
  unclosed : ∀ part ∈ layout.parts, part.closing = [] →
    part.after = [] ∧ layout.parts.getLast? = some part
  source_eq : source = layout.text (layout.parts.map fun part => textOf part.stale)
  length_outputs : outputs.length = layout.parts.length
  out_eq : out = layout.text outputs
  unchanged : regionsOf tokens = [] → out = source

/-- What an accepted document becomes when texts are put into its regions. -/
theorem exists_rewritten_of_refill {sign source : Text} {tokens : List Document.Token}
    {outputs : List Text} (h : parse sign source = .ok tokens)
    (hlength : outputs.length = (bodiesOf tokens).length) :
    ∃ layout, Rewritten sign source (textOf (refill tokens outputs)) tokens layout outputs := by
  have hreading := reading_of_parse h
  obtain ⟨layout, hlines, hdelimited, hregions, htext⟩ :=
    hreading.exists_layout (bodiesOf_splitLines sign source)
  have hbodies : bodiesOf tokens = layout.parts.map fun part => textOf part.stale := by
    have hbody : Token.body? ∘ RegionLines.region = some ∘ fun part => textOf part.stale := rfl
    rw [bodiesOf_eq_regionsOf, hregions, bodiesOf, List.filterMap_map, hbody,
      List.filterMap_eq_map]
  have hcount : outputs.length = layout.parts.length := by
    rw [hlength, hbodies, List.length_map]
  have hsource : textOf tokens = source := by
    rw [hreading.textOf_eq, textOf_splitLines]
  refine ⟨layout, ⟨h, hsource, hlines, hdelimited, hregions, hdelimited.eq_last, ?_, hcount,
    htext outputs hcount, ?_⟩⟩
  · rw [← htext _ (List.length_map _), ← hbodies, refill_bodiesOf, hsource]
  · intro hnone
    rw [hregions, List.map_eq_nil_iff] at hnone
    rw [hnone, List.length_nil, List.length_eq_zero_iff] at hcount
    rw [hcount, refill_no_outputs, hsource]

/-- An expansion that looks at a document changes what is in its regions and
nothing else. -/
theorem exists_rewritten_of_expand {σ : Type} {settings : Settings} {listener : Listener σ}
    {heard heard' : σ} {source out : Text} (hdeclared : hasDeclarations source = true)
    (h : expand settings listener heard source = .ok (out, heard')) :
    ∃ tokens layout outputs, Rewritten settings.sign source out tokens layout outputs := by
  rw [expand, if_pos hdeclared] at h
  cases hparse : parse settings.sign source with
  | error fault => simp [hparse] at h
  | ok tokens =>
      cases hscoping : scopingNamed settings.scoping with
      | error fault => simp [hparse, hscoping] at h
      | ok scoping =>
          simp only [hparse, hscoping] at h
          obtain ⟨outputs, state, hfillings, rfl, -⟩ := expandTokens_eq_ok_iff.mp h
          obtain ⟨layout, hrewritten⟩ :=
            exists_rewritten_of_refill hparse (Expansion.length_of_fillings hfillings)
          exact ⟨tokens, layout, outputs, hrewritten⟩

/-- A document with one macro, one call of it, and a region that holds an old
output. -/
def greeting : Text :=
  ("// #metacode\n// #macro HI(x)\n//   hi \x7b\x7bx\x7d\x7d\n//\n// HI(a)\n" ++
    "// #metagen\nold\n// #metaend\n").toList

def greeted : Text :=
  ("// #metacode\n// #macro HI(x)\n//   hi \x7b\x7bx\x7d\x7d\n//\n// HI(a)\n" ++
    "// #metagen\nhi a\n// #metaend\n").toList

theorem hasDeclarations_greeting : hasDeclarations greeting = true := by
  decide +kernel

theorem expand_greeting : expand .default .silent () greeting = .ok (greeted, ()) := by
  decide +kernel

theorem exists_rewritten_greeting :
    hasDeclarations greeting = true ∧
      expand .default .silent () greeting = .ok (greeted, ()) ∧
      ∃ tokens layout outputs,
        Rewritten Settings.default.sign greeting greeted tokens layout outputs :=
  ⟨hasDeclarations_greeting, expand_greeting,
    exists_rewritten_of_expand hasDeclarations_greeting expand_greeting⟩

end CommentMacro
