import CommentMacro.Proofs.Command.Watching
import CommentMacro.Proofs.Expansion.Hearing

/-!
# What a run does to the files

A run writes one file at most, the one for the result, and not before the whole document has
been expanded: a run that only prints, that finds nothing to expand or that ends with a
complaint leaves every file as it was, and one that is given its own result does not even
change the time of the source (`perform_careful`).

A run may have one of three listeners. They are told apart in `Options.expansion` alone; what
a run comes to is told once for all of them (`exists_run_eq`).
-/

namespace CommentMacro

open Document

/-! ## Faults of an expansion -/

section

variable {σ : Type} {settings : Settings} {listener : Listener σ} {heard : σ}
  {source name out : Text}

theorem eq_name_of_scopingNamed {scoping : Scoping} (h : scopingNamed name = .ok scoping) :
    name = scoping.name := by
  rw [scopingNamed, Scoping.ofName?] at h
  by_cases hflat : name = Scoping.flat.name
  · rw [if_pos hflat] at h
    obtain rfl := Except.ok.inj h
    exact hflat
  · rw [if_neg hflat] at h
    by_cases hnested : name = Scoping.nested.name
    · rw [if_pos hnested] at h
      obtain rfl := Except.ok.inj h
      exact hnested
    · rw [if_neg hnested] at h
      cases h

/-- A scoping is found to be unknown only where it is needed. -/
theorem scopingNamed_of_expand
    (h : expand settings listener heard source = .error (.unknownScoping name)) :
    hasDeclarations source = true ∧
      scopingNamed settings.scoping = .error (.unknownScoping name) := by
  by_cases hdeclared : hasDeclarations source = true
  · refine ⟨hdeclared, ?_⟩
    rw [expand, if_pos hdeclared] at h
    cases hparse : parse settings.sign source with
    | error fault =>
        rw [hparse] at h
        cases h
    | ok tokens =>
        rw [hparse] at h
        cases hscoping : scopingNamed settings.scoping with
        | error fault =>
            rw [hscoping] at h
            exact congrArg Except.error (Except.error.inj h)
        | ok scoping =>
            simp only [hscoping, expandTokens] at h
            cases hvisit : Expansion.visitAll listener tokens (.start scoping heard) with
            | ok output state =>
                rw [hvisit] at h
                cases h
            | error anomaly state =>
                rw [hvisit] at h
                cases h
  · rw [expand, if_neg hdeclared] at h
    cases h

/-- Whoever refuses every anomaly is stopped by the first of those that are met. -/
theorem expand_strict {first : Anomaly} {later : List Anomaly}
    (h : expand settings .recording [] source = .ok (out, first :: later)) :
    expand settings .strict () source = .error (.anomaly first) := by
  by_cases hdeclared : hasDeclarations source = true
  · cases hscoping : scopingNamed settings.scoping with
    | error fault =>
        rw [expand, if_pos hdeclared, hscoping] at h
        cases hparse : parse settings.sign source with
        | error fault =>
            rw [hparse] at h
            cases h
        | ok tokens =>
            rw [hparse] at h
            cases h
    | ok scoping =>
        have hsettings : settings = ⟨settings.sign, scoping.name⟩ := by
          rw [← eq_name_of_scopingNamed hscoping]
        rw [hsettings] at h ⊢
        rcases expand_foretold settings.sign source scoping with
          ⟨fault, hfault⟩ | ⟨out', anomalies, htold⟩
        · rw [hfault] at h
          cases h
        · rw [htold, Listener.hearAll_recording, List.nil_append] at h
          obtain ⟨rfl, rfl⟩ := Prod.mk.inj (Except.ok.inj h)
          rw [htold, Listener.hearAll_strict]
  · rw [expand, if_neg hdeclared] at h
    cases h

end

namespace Command

/-! ## What a run comes to -/

def Options.expansion (options : Options) (settings : Settings) (document : Text) :
    Except Fault Text :=
  match options.audience with
  | .silent => (expand settings .silent () document).map Prod.fst
  | .reporting => (expand settings .reporting [] document).map Prod.fst
  | .strict => (expand settings .strict () document).map Prod.fst

def Options.change (options : Options) (document result : Text) : Option (Text × Text) :=
  let file := target options.source options.outputFile
  if options.printed = false ∧ hasDeclarations document = true ∧
      (file ≠ options.source ∨ result ≠ document) then some (file, result)
  else none

def Options.shown (options : Options) (document result : Text) : Text :=
  if options.printed then result else summary options (hasDeclarations document)

variable {options : Options} {document : Text} {settings : Settings}

/-- A file that holds nothing to expand is not written, nor is a source that is its own
result. -/
theorem expandFile_eq {σ : Type} (settings : Settings) (listener : Listener σ) (heard : σ)
    (source : Text) (output : Option Text) (document : Text) :
    expandFile settings listener heard source output document =
      (expand settings listener heard document).map fun expanded =>
        let file := target source output
        ⟨hasDeclarations document,
          if hasDeclarations document = true ∧ (file ≠ source ∨ expanded.1 ≠ document) then
            some (file, expanded.1)
          else none,
          expanded.2⟩ := by
  by_cases hdeclared : hasDeclarations document = true
  · rw [expandFile, if_pos hdeclared]
    simp only [hdeclared, true_and]
    cases expand settings listener heard document <;> rfl
  · rw [expandFile, if_neg hdeclared, expand, if_neg hdeclared]
    simp [Except.map, hdeclared]

/-- What a run comes to, whoever listens. Only what is said of anomalies is up to the
listener. -/
theorem runWith_eq {σ : Type} (hsettings : options.settings document = .ok settings)
    (listener : Listener σ) (heard : σ) (warnings : σ → Text) :
    ∃ errors, runWith options listener heard warnings document =
      match (expand settings listener heard document).map Prod.fst with
      | .error fault => Report.ofFault options.source document fault
      | .ok result =>
        .ok ⟨options.shown document result, errors, options.change document result, true⟩ := by
  simp only [runWith, hsettings, expandFile_eq, bind, Except.bind]
  cases expand settings listener heard document with
  | error fault =>
      refine ⟨[], ?_⟩
      by_cases hprinted : options.printed = true <;> simp [Except.map, hprinted]
  | ok expanded =>
      refine ⟨warnings expanded.2, ?_⟩
      by_cases hprinted : options.printed = true <;>
        simp [Except.map, Options.shown, Options.change, hprinted, pure, Except.pure]

theorem exists_run_eq (hsettings : options.settings document = .ok settings) :
    ∃ errors, run options document =
      match options.expansion settings document with
      | .error fault => Report.ofFault options.source document fault
      | .ok result =>
        .ok ⟨options.shown document result, errors, options.change document result, true⟩ := by
  rw [run, Options.expansion]
  cases options.audience with
  | silent => exact runWith_eq hsettings .silent () _
  | reporting => exact runWith_eq hsettings .reporting [] id
  | strict => exact runWith_eq hsettings .strict () _

theorem run_eq_error {breakdown : Breakdown} (h : options.settings document = .error breakdown) :
    run options document = .error breakdown := by
  rw [run]
  cases options.audience <;> simp only [runWith, h, bind, Except.bind]

/-! ## Runs that break off -/

/-- Why a run breaks off: an option is blank that is needed to expand the document. -/
inductive BreaksOff (options : Options) (document : Text) : Breakdown → Prop where
  | blankSign (hblank : options.sign = .blank) (hdeclared : hasDeclarations document = true) :
    BreaksOff options document .blankSign
  /-- The markers of the document are in order, or else there is a complaint of them. -/
  | unknownScoping {settings : Settings} {name : Text} (hblank : options.scoping = .blank)
    (hsettings : options.settings document = .ok settings)
    (hexpansion : options.expansion settings document = .error (.unknownScoping name)) :
    BreaksOff options document (.unknownScoping name)

/-- The settings of a run name the scoping as its option is shown. -/
theorem settings_cases (options : Options) (document : Text) :
    options.settings document = .error .blankSign ∧ BreaksOff options document .blankSign ∨
      ∃ settings, options.settings document = .ok settings ∧
        settings.scoping = options.scoping.display Scoping.name := by
  rw [Options.settings]
  cases hsign : options.sign with
  | filled sign => exact .inr ⟨_, rfl, rfl⟩
  | blank =>
      by_cases hdeclared : hasDeclarations document = true
      · exact .inl ⟨if_pos hdeclared, .blankSign hsign hdeclared⟩
      · exact .inr ⟨_, if_neg hdeclared, rfl⟩

/-- Only a blank option asks for a scoping that does not exist. -/
theorem scoping_eq_blank {name : Text}
    (hshown : settings.scoping = options.scoping.display Scoping.name)
    (h : options.expansion settings document = .error (.unknownScoping name)) :
    options.scoping = .blank := by
  have hunknown : scopingNamed settings.scoping = .error (.unknownScoping name) := by
    rw [Options.expansion] at h
    split at h <;> exact (scopingNamed_of_expand (eq_error_of_map_error h)).2
  cases hscoping : options.scoping with
  | filled scoping =>
      rw [hshown, hscoping, Entry.display, scopingNamed_name] at hunknown
      exact nomatch hunknown
  | blank => rfl

/-- Under the strict option the first anomaly is the end. -/
theorem expansion_eq_error (hstrict : options.strict = true) {out : Text} {first : Anomaly}
    {later : List Anomaly}
    (h : expand settings .recording [] document = .ok (out, first :: later)) :
    options.expansion settings document = .error (.anomaly first) := by
  rw [Options.expansion, Options.audience, if_pos hstrict, expand_strict h]
  rfl

/-! ## The files -/

namespace FileStore

theorem file?_write_of_ne (store : FileStore) {path other : Text} (content : Text)
    (h : nameOf other ≠ nameOf path) : (store.write path content).file? other = store.file? other :=
  Bindings.get?_insert_of_ne h _ _

end FileStore

/-- What a run has done to the files, its source being a document of which `expansion` tells
what it is expanded to. -/
structure Careful (options : Options) (document : Text) (expansion : Except Fault Text)
    (store after : FileStore) (report : Report) : Prop where
  /-- No file but the one for the result is written or made. -/
  others : ∀ path,
    FileStore.nameOf path ≠ FileStore.nameOf (target options.source options.outputFile) →
      after.file? path = store.file? path
  /-- What is written is the result. -/
  written : after ≠ store → ∃ result, expansion = .ok result ∧
    after.content? (target options.source options.outputFile) = some result
  /-- A run that prints its result writes nothing. -/
  printed : options.printed = true → after = store
  /-- So does one that finds nothing to expand. -/
  undeclared : hasDeclarations document = false → after = store
  /-- And one that fails, which prints nothing either but says what is wrong. -/
  failed : ∀ fault, expansion = .error fault →
    after = store ∧ report.output = [] ∧ report.errors ≠ [] ∧ report.status = 1
  /-- A source that is its own result is left alone, with the time of its last change. -/
  unchanged : target options.source options.outputFile = options.source →
    expansion = .ok document → after = store
  /-- Otherwise the result is printed or written. -/
  delivered : ∀ result, expansion = .ok result → report.status = 0 ∧
    (options.printed = true → report.output = result) ∧
    (options.printed = false → hasDeclarations document = true →
      target options.source options.outputFile ≠ options.source ∨ result ≠ document →
        after = store.write (target options.source options.outputFile) result)

section

variable {store : FileStore} {fault : Fault} {result complaint errors : Text}

theorem line_ne_nil (t : Text) : line t ≠ [] := by
  simp [line]

theorem explainMarker_ne_nil (source document : Text) (fault : Document.MarkerFault) :
    explainMarker source document fault ≠ [] := by
  rw [explainMarker]
  split <;> exact line_ne_nil _

/-- What is wrong with a document is complained of. Of the options nothing is said. -/
theorem ofFault_cases (source document : Text) (fault : Fault) :
    (∃ name, fault = .unknownScoping name ∧
      Report.ofFault source document fault = .error (.unknownScoping name)) ∨
    ∃ complaint, complaint ≠ [] ∧
      Report.ofFault source document fault = .ok (.failed complaint) := by
  cases fault with
  | marker fault => exact .inr ⟨_, explainMarker_ne_nil source document fault, rfl⟩
  | unknownScoping name => exact .inl ⟨name, rfl, rfl⟩
  | anomaly anomaly => exact .inr ⟨_, line_ne_nil _, rfl⟩

theorem careful_failed (hcomplaint : complaint ≠ []) :
    Careful options document (.error fault) store ((Report.failed complaint).store store)
      (.failed complaint) where
  others _ _ := rfl
  written h := absurd rfl h
  printed _ := rfl
  undeclared _ := rfl
  failed _ _ := ⟨rfl, rfl, hcomplaint, rfl⟩
  unchanged _ _ := rfl
  delivered _ h := nomatch h

/-- A run that has come to a result writes it where that is called for. -/
theorem store_completed (output errors : Text) :
    Report.store ⟨output, errors, options.change document result, true⟩ store =
      if options.printed = false ∧ hasDeclarations document = true ∧
          (target options.source options.outputFile ≠ options.source ∨ result ≠ document) then
        store.write (target options.source options.outputFile) result
      else store := by
  simp only [Report.store, Options.change]
  split_ifs <;> rfl

theorem careful_completed (store : FileStore) (result errors : Text) :
    let report : Report :=
      ⟨options.shown document result, errors, options.change document result, true⟩
    Careful options document (.ok result) store (report.store store) report := by
  intro report
  rw [store_completed]
  split
  · next hchange =>
      obtain ⟨hprinted, hdeclared, hdiffers⟩ := hchange
      exact {
        others := fun path hother => FileStore.file?_write_of_ne store result hother
        written := fun _ => ⟨result, rfl, FileStore.content?_write_self _ _ _⟩
        printed := fun h => absurd h (by simp [hprinted])
        undeclared := fun h => absurd hdeclared (by simp [h])
        failed := fun fault h => nomatch h
        unchanged := fun hplace hsame =>
          absurd hdiffers (by simp [hplace, Except.ok.inj hsame])
        delivered := by
          rintro result' ⟨⟩
          exact ⟨rfl, fun h => absurd h (by simp [hprinted]), fun _ _ _ => rfl⟩ }
  · next hchange =>
      exact {
        others := fun _ _ => rfl
        written := fun h => absurd rfl h
        printed := fun _ => rfl
        undeclared := fun _ => rfl
        failed := fun fault h => nomatch h
        unchanged := fun _ _ => rfl
        delivered := by
          rintro result' ⟨⟩
          refine ⟨rfl, fun hprinted => ?_, fun hprinted hdeclared hdiffers =>
            absurd ⟨hprinted, hdeclared, hdiffers⟩ hchange⟩
          exact if_pos hprinted }

end

/-- A run that is not watched, of a source that exists, is careful with the files, unless it
breaks off because an option is blank that it needs. Under the strict option every anomaly
makes it fail. -/
theorem perform_careful (options : Options) (hwatch : options.watch = false) (store : FileStore)
    {document : Text} (hsource : store.content? options.source = some document)
    (edits : List Edit) :
    (∃ breakdown, perform options store edits = .error breakdown ∧
      BreaksOff options document breakdown) ∨
    ∃ settings report after, options.settings document = .ok settings ∧
      perform options store edits = .ok (.once report after) ∧
      Careful options document (options.expansion settings document) store after report ∧
      (options.strict = true → ∀ out first later,
        expand settings .recording [] document = .ok (out, first :: later) →
          options.expansion settings document = .error (.anomaly first)) := by
  have hsingle : options.single = options := by
    rw [Options.single, ← hwatch]
  have hperform := perform_single hsource edits
  rw [hsingle] at hperform
  rcases settings_cases options document with
    ⟨hsettings, hbreaks⟩ | ⟨settings, hsettings, hshown⟩
  · rw [run_eq_error hsettings] at hperform
    exact .inl ⟨.blankSign, hperform, hbreaks⟩
  · obtain ⟨errors, hrun⟩ := exists_run_eq hsettings
    rw [hrun] at hperform
    cases hexpansion : options.expansion settings document with
    | error fault =>
        simp only [hexpansion] at hperform
        rcases ofFault_cases options.source document fault with
          ⟨name, rfl, hfault⟩ | ⟨complaint, hcomplaint, hfault⟩
        · rw [hfault] at hperform
          exact .inl ⟨.unknownScoping name, hperform,
            .unknownScoping (scoping_eq_blank hshown hexpansion) hsettings hexpansion⟩
        · rw [hfault] at hperform
          refine .inr ⟨_, _, _, hsettings, hperform, ?_,
            fun hstrict _ _ _ hrecorded => expansion_eq_error hstrict hrecorded⟩
          rw [hexpansion]
          exact careful_failed hcomplaint
    | ok result =>
        simp only [hexpansion] at hperform
        refine .inr ⟨_, _, _, hsettings, hperform, ?_,
          fun hstrict _ _ _ hrecorded => expansion_eq_error hstrict hrecorded⟩
        rw [hexpansion]
        exact careful_completed store result errors

def copying : Options :=
  { Options.default with source := "a".toList, output := some (.filled "b".toList) }

/-- The other file is written, and the source is not. -/
theorem perform_careful_copying :
    let store := FileStore.ofList 0 [("a".toList, greeting), ("b".toList, "old".toList)]
    let after : FileStore :=
      ⟨[("a".toList, ⟨greeting, .given 0⟩), ("b".toList, ⟨greeted, .written 0⟩)], 1⟩
    let report : Report :=
      ⟨"Compiled output injected into b\n".toList, [], some ("b".toList, greeted), true⟩
    copying.watch = false ∧ store.content? copying.source = some greeting ∧
      perform copying store [] = .ok (.once report after) ∧
      Careful copying greeting (.ok greeted) store after report := by
  intro store after report
  have hsource : store.content? copying.source = some greeting := by decide +kernel
  have hperform : perform copying store [] = .ok (.once report after) := by decide +kernel
  have hsettings : copying.settings greeting = .ok .default := by decide +kernel
  have hexpansion : copying.expansion .default greeting = .ok greeted := by decide +kernel
  refine ⟨rfl, hsource, hperform, ?_⟩
  rcases perform_careful copying rfl store hsource [] with
    ⟨breakdown, hbroken, -⟩ | ⟨settings, report', after', hsettings', hperform', hcareful, -⟩
  · exact nomatch hperform.symm.trans hbroken
  · obtain rfl := Except.ok.inj (hsettings.symm.trans hsettings')
    obtain ⟨rfl, rfl⟩ := Outcome.once.inj (Except.ok.inj (hperform.symm.trans hperform'))
    rwa [hexpansion] at hcareful

/-- A strict run of a document that calls a macro which is not defined. -/
example :
    let store := FileStore.ofList 0
      [("a".toList, "// #metacode\n// NO(a)\n// #metagen\n// #metaend\n".toList)]
    perform { Options.default with source := "a".toList, strict := true } store [] =
      .ok (.once (.failed "UndefinedMacroError: 'NO', 'NO(a)'\n".toList) store) := by
  decide +kernel

end Command

end CommentMacro
