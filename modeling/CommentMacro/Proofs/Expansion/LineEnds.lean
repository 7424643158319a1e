import CommentMacro.Proofs.Document.LineEnds
import CommentMacro.Proofs.Expansion.Rewriting
import CommentMacro.Proofs.Template.LineEnds

/-!
# A document is expanded alike with both line ends

A document without carriage returns is expanded, and so is the same document with a
carriage return in front of every line feed. What the second expansion gives is what the
first gives, with the same carriage returns, and if a marker is out of order in one of
them the same marker is in the other (`expand_crlf`).

Tables and calls are read as the same rows and arguments, and no line feed is in them. So
the two expansions go through states with the same data (`SameData`).
-/

namespace CommentMacro

open Document
open Text (crlf)

/-! ## Tables and calls -/

namespace Table

theorem cells_append_return (line : Text) : cells (line ++ ['\r']) = cells line := by
  have hreturn : ('\r' == '|') = false := by decide
  obtain ⟨front, last, hline, hlonger⟩ :=
    Text.splitBy_append_singleton (p := (· == '|')) hreturn line
  rw [cells, cells, hline, hlonger, List.map_append, List.map_append]
  have hblank : ∀ c ∈ ['\r'], Text.isBlank c = true :=
    List.forall_mem_singleton.mpr (by decide)
  simp [Text.strip_append_blanks hblank]

theorem parse_crlf (source : Text) : parse (crlf source) = parse source := by
  have hcells : (Text.splitLines (crlf source.strip)).map cells =
      (Text.splitLines source.strip).map cells := by
    have hlines := Text.forall₂_splitLines_crlf source.strip
    refine List.forall₂_eq_eq_eq ▸ List.forall₂_map_left_iff.mpr
      (List.forall₂_map_right_iff.mpr (hlines.imp fun line line' hline => ?_))
    rcases hline with rfl | rfl
    · rfl
    · exact cells_append_return line'
  rw [parse, parse, Text.strip_crlf, hcells]

theorem lineFeed_not_mem_of_mem_cells {line cell : Text} (hline : '\n' ∉ line)
    (h : cell ∈ cells line) : '\n' ∉ cell := by
  obtain ⟨piece, hpiece, rfl⟩ := List.mem_map.mp h
  exact fun hmem => hline (Text.subset_of_mem_splitBy hpiece (Text.strip_subset piece hmem))

/-- The values of a table stand on one line. -/
theorem every_toValue_parse (source : Text) : (toValue (parse source)).Every ('\n' ∉ ·) := by
  have hrows : ∀ row ∈ (Text.splitLines source.strip).map cells, ∀ cell ∈ row, '\n' ∉ cell := by
    intro row hrow cell hcell
    obtain ⟨line, hline, rfl⟩ := List.mem_map.mp hrow
    exact lineFeed_not_mem_of_mem_cells (Text.lineFeed_not_mem_of_mem_splitLines hline) hcell
  have hentries : ∀ entry ∈ parse source, ∀ field ∈ entry, '\n' ∉ field.2 := by
    intro entry hentry field hfield
    rw [parse] at hentry
    split at hentry
    · simp at hentry
    · next headers rows heq =>
        rw [heq, List.forall_mem_cons] at hrows
        obtain ⟨row, hrow, rfl⟩ := List.mem_map.mp hentry
        obtain ⟨given, hgiven, hvalue⟩ := Bindings.mem_ofList hfield
        obtain ⟨column, -, rfl⟩ := List.mem_map.mp hgiven
        rw [hvalue, List.getD_eq_getElem?_getD]
        cases hcell : row[column.2]? with
        | none => simp
        | some cell =>
            exact hrows.2 row (List.mem_filter.mp hrow).1 cell (List.mem_of_getElem? hcell)
  refine Value.every_list.mpr fun item hitem => ?_
  obtain ⟨entry, hentry, rfl⟩ := List.mem_map.mp hitem
  refine Value.every_record.mpr fun field hfield => ?_
  obtain ⟨given, hgiven, rfl⟩ := List.mem_map.mp hfield
  exact Value.every_text.mpr (hentries entry hentry given hgiven)

end Table

namespace Call

theorem parse_crlf (source : Text) : parse (crlf source) = parse source := by
  rw [parse, parse, Text.filter_crlf (by decide) (by decide)]

/-- The arguments of a call stand on one line. -/
theorem lineFeed_not_mem_arguments {source argument : Text}
    (h : argument ∈ (parse source).arguments) : '\n' ∉ argument := by
  intro hmem
  rw [parse] at h
  split at h
  · simp at h
  · next name arguments heq =>
      have hpiece : argument ∈ Text.splitBy (fun c => c == '(' || c == ',')
          (source.filter (!isNoise ·)) := by
        rw [heq]
        exact List.mem_cons_of_mem _ h
      have hkept := (List.mem_filter.mp (Text.subset_of_mem_splitBy hpiece hmem)).2
      revert hkept
      decide

end Call

namespace Expansion

open Template (SameScope Macro.respell)

/-! ## States side by side -/

/-- The states of two expansions, the second with a carriage return in front of every line
feed. -/
structure SameData (first second : Expansion Unit) : Prop where
  macros : second.macros = first.macros.map fun entry => (entry.1, entry.2.respell crlf)
  scope : SameScope first.scope second.scope
  pending : second.pending = crlf first.pending

theorem sameData_start (scoping : Scoping) : SameData (start scoping ()) (start scoping ()) :=
  ⟨rfl, ⟨rfl, by simp [Template.OneLineScope, start, Scope.ofData]⟩, rfl⟩

abbrev AlikeStep {α β : Type} (results : α → β → Prop) (first : Step Unit α)
    (second : Step Unit β) : Prop :=
  Related SameData results SameData first second

theorem alike_rendering {first second : Template.Rendering Unit Text}
    (h : Template.Setting.Alike SameScope (fun text text' => text' = crlf text) first second) :
    AlikeStep (fun text text' => text' = crlf text) (rendering first) (rendering second) := by
  intro state state' hdata
  have hlast := h ⟨state.scope, state.heard⟩ ⟨state'.scope, state'.heard⟩ ⟨hdata.scope, rfl⟩
  obtain ⟨output, output', last, last', hfirst, hsecond, houtput, hscopes, -⟩ |
    ⟨fault, last, last', hfirst, hsecond⟩ := hlast.ok_or_error
  · simp only [rendering, hfirst, hsecond]
    exact ⟨houtput, hdata.macros, hscopes, hdata.pending⟩
  · simp only [rendering, hfirst, hsecond]
    rfl

theorem alike_setPending (output : Text) :
    AlikeStep (fun _ _ => True) (setPending output) (setPending (crlf output)) :=
  related_modify fun _ _ h => ⟨h.macros, h.scope, rfl⟩

theorem alike_report (first second : Anomaly) :
    AlikeStep (fun _ _ => True) (listening (Listener.silent.report first))
      (listening (Listener.silent.report second)) :=
  fun _ _ h => ⟨trivial, h.macros, h.scope, h.pending⟩

theorem alike_defineTable (name body : Text) :
    AlikeStep (fun _ _ => True) (defineTable name body) (defineTable name (crlf body)) := by
  rw [defineTable, defineTable, Table.parse_crlf]
  exact related_modify fun first second h =>
    ⟨h.macros, h.scope.map (·.bindData name _) (·.bindData name (Table.every_toValue_parse body)),
      h.pending⟩

theorem alike_defineMacro (name : Text) (parameters : List Text) (body : Text) :
    AlikeStep (fun _ _ => True) (defineMacro .silent name parameters body)
      (defineMacro .silent name parameters (crlf body)) := by
  have hparse : AlikeStep
      (fun tokens tokens' => tokens' = tokens.map (Template.Token.respell crlf))
      (listening (Template.parse .silent body))
      (listening (Template.parse .silent (crlf body))) := by
    intro first second h
    have hheard : second.heard = first.heard := rfl
    simp only [listening, Template.parse_crlf, bind_apply, hheard]
    cases Template.parse .silent body first.heard with
    | ok tokens heard => exact ⟨rfl, h.macros, h.scope, h.pending⟩
    | error fault heard => rfl
  refine hparse.bind fun tokens tokens' htokens => ?_
  obtain rfl := htokens
  refine related_modify fun first second h => ⟨?_, h.scope, h.pending⟩
  simp only [h.macros]
  exact Bindings.insert_map (Macro.respell crlf) name ⟨name, parameters, tokens⟩ first.macros

theorem alike_invoke (source : Text) :
    AlikeStep (fun _ _ => True) (invoke .silent source) (invoke .silent (crlf source)) := by
  rw [invoke, invoke, Call.parse_crlf]
  split
  · exact related_pure trivial
  · refine related_get.bind fun first second h => ?_
    rw [h.macros, Bindings.get?_map]
    cases Bindings.get? (Call.parse source).name first.macros with
    | some definition =>
        have harguments : ∀ value ∈ (Call.parse source).arguments.map .text,
            Value.Every ('\n' ∉ ·) value := by
          intro value hmem
          obtain ⟨argument, hargument, rfl⟩ := List.mem_map.mp hmem
          exact Value.every_text.mpr (Call.lineFeed_not_mem_arguments hargument)
        have hrender := Template.alike_render_crlf definition harguments Listener.silent
        exact (alike_rendering hrender).bind fun output output' houtput =>
          houtput ▸ alike_setPending output
    | none => exact (alike_setPending []).bind fun _ _ _ => alike_report _ _

theorem alike_visit (token : Document.Token) :
    AlikeStep (fun text text' => text' = crlf text) (visit .silent token)
      (visit .silent token.crlf) := by
  have hkeep : ∀ {first second : Step Unit Unit} (text : Text),
      AlikeStep (fun _ _ => True) first second →
      AlikeStep (fun text text' => text' = crlf text) (do first; return text)
        (do second; return crlf text) :=
    fun text h => h.bind fun _ _ _ => related_pure rfl
  cases token with
  | region opening body closing =>
      refine related_get.bind fun first second h => related_pure ?_
      rw [h.pending, Text.crlf_append, Text.crlf_append]
  | tableDefinition text name body => exact hkeep text (alike_defineTable name body)
  | macroDefinition text name parameters body =>
      exact hkeep text (alike_defineMacro name parameters body)
  | invocation text call => exact hkeep text (alike_invoke call)
  | _ => exact related_pure rfl

theorem alike_visitAll (tokens : List Document.Token) :
    AlikeStep (fun text text' => text' = crlf text) (visitAll .silent tokens)
      (visitAll .silent (tokens.map Document.Token.crlf)) := by
  induction tokens with
  | nil => exact related_pure rfl
  | cons token tokens ih =>
      refine (alike_visit token).bind fun first first' hfirst => ?_
      refine ih.bind fun later later' hlater => ?_
      exact related_pure (by rw [hfirst, hlater, Text.crlf_append])

end Expansion

/-! ## Documents -/

theorem isSome_lineBreak?_crlf {t : Text} (hreturn : '\r' ∉ t) :
    (lineBreak? t.crlf).isSome = (lineBreak? t).isSome := by
  cases t with
  | nil => rfl
  | cons c t =>
      rw [List.mem_cons, not_or] at hreturn
      by_cases hfeed : c = '\n'
      · subst hfeed
        rfl
      · rw [Text.crlf_cons hfeed, lineBreak?_eq_none hfeed fun heq => absurd heq.symm hreturn.1,
          lineBreak?_eq_none hfeed fun heq => absurd heq.symm hreturn.1]

theorem hasDeclarations_cons {c : Char} (h : c ≠ '#') (t : Text) :
    hasDeclarations (c :: t) = hasDeclarations t := by
  have hstart : Text.after? startWord (c :: t) = none := if_neg (Ne.symm h)
  rw [hasDeclarations, hstart]
  rfl

theorem hasDeclarations_crlf {source : Text} (hreturn : '\r' ∉ source) :
    hasDeclarations source.crlf = hasDeclarations source := by
  induction source with
  | nil => rfl
  | cons c t ih =>
      rw [List.mem_cons, not_or] at hreturn
      by_cases hfeed : c = '\n'
      · subst hfeed
        rw [Text.crlf_lineFeed, hasDeclarations_cons (by decide), hasDeclarations_cons (by decide),
          hasDeclarations_cons (by decide), ih hreturn.2]
      · have hword : '\r' ∉ startWord ∧ '\n' ∉ startWord := by decide
        have hafter := Text.after?_crlf hword.1 hword.2 (c :: t)
        rw [Text.crlf_cons hfeed] at hafter ⊢
        rw [hasDeclarations, hasDeclarations, ih hreturn.2, hafter]
        congr 1
        cases hrest : Text.after? startWord (c :: t) with
        | none => rfl
        | some rest =>
            refine isSome_lineBreak?_crlf fun hmem => ?_
            have hmem : '\r' ∈ c :: t := by
              rw [Text.eq_append_of_after? hrest]
              exact List.mem_append_right _ hmem
            exact (List.mem_cons.mp hmem).elim hreturn.1 hreturn.2

def Fault.crlf (source : Text) : Fault → Fault
  | marker fault => marker (fault.crlf source)
  | fault => fault

theorem expandTokens_crlf (scoping : Scoping) (tokens : List Document.Token) (source : Text) :
    expandTokens scoping .silent () (tokens.map Document.Token.crlf) =
      ((expandTokens scoping .silent () tokens).map
        fun result => (result.1.crlf, result.2)).mapError (Fault.crlf source) := by
  have hvisit := Expansion.alike_visitAll tokens _ _ (Expansion.sameData_start scoping)
  rw [expandTokens, expandTokens]
  obtain ⟨output, _, last, last', hfirst, hsecond, rfl, -⟩ |
    ⟨fault, last, last', hfirst, hsecond⟩ := hvisit.ok_or_error
  · rw [hfirst, hsecond]
    rfl
  · rw [hfirst, hsecond]
    rfl

/-- However an expansion ends, that of the document with the other line ends ends alike. -/
theorem expand_eq_crlf (scoping : Scoping) {sign source : Text} (hsign : OneLineSign sign)
    (hreturn : '\r' ∉ source) :
    expand ⟨sign, scoping.name⟩ .silent () source.crlf =
      ((expand ⟨sign, scoping.name⟩ .silent () source).map
        fun result => (result.1.crlf, result.2)).mapError (Fault.crlf source) := by
  rw [expand, expand, hasDeclarations_crlf hreturn, parse_crlf hsign hreturn]
  split
  · cases parse sign source with
    | error fault => rfl
    | ok tokens =>
        simp only [scopingNamed_name]
        exact expandTokens_crlf scoping tokens source
  · rfl

theorem parse_of_expand_error {σ : Type} {settings : Settings} {listener : Listener σ} {heard : σ}
    {source : Text} {fault : MarkerFault}
    (h : expand settings listener heard source = .error (.marker fault)) :
    parse settings.sign source = .error fault := by
  rw [expand] at h
  split at h
  · cases hparse : parse settings.sign source with
    | error other =>
        rw [hparse] at h
        injection h with h
        rw [Fault.marker.inj h]
    | ok tokens =>
        cases hscoping : scopingNamed settings.scoping with
        | error other =>
            rw [hparse, hscoping] at h
            simp only [Except.error.injEq] at h
            rw [h, scopingNamed] at hscoping
            split at hscoping <;> simp at hscoping
        | ok scoping =>
            simp only [hparse, hscoping, expandTokens] at h
            split at h <;> simp at h
  · simp at h

/-- Expanding a document commutes with writing its line ends in the other way, for a
comment sign in which there are none. -/
theorem expand_crlf (scoping : Scoping) {sign source : Text} (hsign : OneLineSign sign)
    (hreturn : '\r' ∉ source) :
    let expansion := expand ⟨sign, scoping.name⟩ .silent ()
    hasDeclarations source.crlf = hasDeclarations source ∧
      (∀ out, expansion source = .ok (out, ()) → expansion source.crlf = .ok (out.crlf, ())) ∧
      ∀ fault, expansion source = .error (.marker fault) →
        expansion source.crlf = .error (.marker (fault.crlf source)) ∧
        (fault.crlf source).message = fault.message ∧
        ∃ which : Marker, Text.slice source fault.start fault.stop = which.text ∧
          Text.slice source.crlf (fault.crlf source).start (fault.crlf source).stop =
            which.text := by
  intro expansion
  have hcrlf := expand_eq_crlf scoping hsign hreturn
  refine ⟨hasDeclarations_crlf hreturn, fun out h => ?_, fun fault h => ⟨?_, rfl, ?_⟩⟩
  · simp only [expansion] at h ⊢
    rw [hcrlf, h]
    rfl
  · simp only [expansion] at h ⊢
    rw [hcrlf, h]
    rfl
  · exact slice_crlf (parse_of_expand_error h)

/-- A document with an end marker and no region in front of it. -/
def unopened : Text :=
  "// #metacode\n// #metaend\n".toList

theorem expand_crlf_greeting :
    (OneLineSign Settings.default.sign ∧ '\r' ∉ greeting ∧ '\r' ∉ unopened) ∧
      hasDeclarations greeting.crlf = true ∧
      expand .default .silent () greeting.crlf = .ok (greeted.crlf, ()) ∧
      ∃ fault, expand .default .silent () unopened = .error (.marker fault) ∧
        expand .default .silent () unopened.crlf = .error (.marker (fault.crlf unopened)) ∧
        (fault.start, (fault.crlf unopened).start) = (15, 16) := by
  have hsign : OneLineSign Settings.default.sign := ⟨⟨by decide, by decide⟩, by decide⟩
  have hgreeting : '\r' ∉ greeting := by decide +kernel
  have hunopened : '\r' ∉ unopened := by decide +kernel
  have hfault : expand .default .silent () unopened =
      .error (.marker ⟨.endUnopened, 15, 24⟩) := by decide +kernel
  have hgreeted := expand_crlf .flat hsign hgreeting
  have hrefused := expand_crlf .flat hsign hunopened
  refine ⟨⟨hsign, hgreeting, hunopened⟩, hgreeted.1.trans hasDeclarations_greeting,
    hgreeted.2.1 greeted expand_greeting, _, hfault, (hrefused.2.2 _ hfault).1, ?_⟩
  decide +kernel

end CommentMacro
