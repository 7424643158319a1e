import CommentMacro.Proofs.Hearing
import CommentMacro.Template.Parse
import CommentMacro.Template.Render

/-!
# Reading and rendering templates does not depend on the listener

What reading a template and rendering a macro do is foretold by the anomalies that they
meet (`foretold_parse`, `foretold_render`), whoever listens. In particular, with a
listener that never refuses to go on every template is read (`completes_parse`) and
every macro is rendered (`completes_render`).
-/

namespace CommentMacro.Template

theorem foretold_interpretAll (tokens : List (Token .raw)) :
    Foretold onlyHeard fun _ listener => interpretAll listener tokens := by
  induction tokens with
  | nil => exact foretold_pure []
  | cons token tokens ih =>
      simp only [interpretAll]
      cases token.meaning with
      | ok meaning => exact foretold_bind ih fun later => foretold_pure (meaning :: later)
      | error content => exact foretold_bind (foretold_report _) fun _ => ih

theorem foretold_parse (source : Text) :
    Foretold onlyHeard fun _ listener => parse listener source :=
  foretold_interpretAll _

abbrev machineOf (σ : Type) (scope : Scope) (heard : σ) : Machine σ :=
  ⟨scope, heard⟩

namespace Setting

variable (parameters : List Text) (arguments : List Value)

theorem foretold_report (anomaly : Anomaly) :
    Foretold machineOf fun _ listener => report ⟨parameters, arguments, listener⟩ anomaly := by
  refine fun scope => ⟨(), scope, [anomaly], fun σ listener heard => ?_⟩
  rw [Listener.hearAll_cons]
  simp only [report]
  cases listener.hear anomaly heard with
  | ok heard' => rfl
  | error refused => exact ⟨_, rfl⟩

theorem foretold_resolve (name : Text) :
    Foretold machineOf fun _ listener => resolve ⟨parameters, arguments, listener⟩ name := by
  simp only [resolve]
  cases parameters.idxOf? name with
  | some position => exact foretold_pure _
  | none =>
      refine foretold_get fun scope => ?_
      cases hfind : scope.find? name with
      | some value => exact ⟨_, foretold_pure value, fun _ _ _ => by simp only [hfind]⟩
      | none =>
          refine ⟨_, foretold_bind (foretold_report parameters arguments (.unresolvedName name))
            fun _ => foretold_pure .absent, fun _ _ _ => by simp only [hfind]⟩

theorem foretold_resolveTable (name : Text) :
    Foretold machineOf fun _ listener => resolveTable ⟨parameters, arguments, listener⟩ name := by
  refine foretold_bind (foretold_resolve parameters arguments name) fun value => ?_
  cases value with
  | text inner => exact foretold_resolve parameters arguments inner
  | _ => exact foretold_pure _

theorem foretold_renderMember (name field : Text) :
    Foretold machineOf fun _ listener =>
      renderMember ⟨parameters, arguments, listener⟩ name field := by
  refine foretold_bind (foretold_resolve parameters arguments name) fun subject => ?_
  have hmissing : Foretold machineOf fun _ listener => do
      report ⟨parameters, arguments, listener⟩ (.unresolvedName (name ++ '.' :: field))
      return ([] : Text) :=
    foretold_bind (foretold_report _ _ _) fun _ => foretold_pure _
  cases subject with
  | absent => exact foretold_pure _
  | record fields =>
      cases hfield : Bindings.get? field fields with
      | some value => simpa only [hfield] using foretold_pure (emit value)
      | none => simpa only [hfield] using hmissing
  | _ => exact hmissing

theorem foretold_renderCount (name : Text) :
    Foretold machineOf fun _ listener => renderCount ⟨parameters, arguments, listener⟩ name := by
  refine foretold_bind (foretold_resolveTable parameters arguments name) fun value => ?_
  cases value <;> exact foretold_pure _

theorem foretold_renderToken (token : Token .interpreted) :
    Foretold machineOf fun _ listener => renderToken ⟨parameters, arguments, listener⟩ token := by
  cases token with
  | reference text name =>
      exact foretold_bind (foretold_resolve parameters arguments name) fun value =>
        foretold_pure (emit value)
  | member text name field => exact foretold_renderMember parameters arguments name field
  | count text name => exact foretold_renderCount parameters arguments name
  | _ => exact foretold_pure _

theorem foretold_renderTokens (tokens : List (Token .interpreted)) :
    Foretold machineOf fun _ listener =>
      renderTokens ⟨parameters, arguments, listener⟩ tokens := by
  induction tokens with
  | nil => exact foretold_pure []
  | cons token tokens ih =>
      exact foretold_bind (foretold_renderToken parameters arguments token) fun first =>
        foretold_bind ih fun later => foretold_pure (first ++ later)

theorem foretold_bindRow (head : Loop) (index : Nat) (row : Value) :
    Foretold machineOf fun σ _ => (bindRow head index row : Rendering σ Unit) :=
  foretold_modify (fun scope => (scope.bind head.key (.integer index)).bind head.value row)
    fun _ _ _ => rfl

theorem foretold_renderRows (head : Loop) (tokens : List (Token .interpreted)) (index : Nat)
    (rows : List Value) :
    Foretold machineOf fun _ listener =>
      renderRows ⟨parameters, arguments, listener⟩ head tokens index rows := by
  induction rows generalizing index with
  | nil => exact foretold_pure []
  | cons row rows ih =>
      refine foretold_bind (foretold_bindRow head index row) fun _ => ?_
      exact foretold_bind (foretold_renderTokens parameters arguments tokens) fun first =>
        foretold_bind (ih (index + 1)) fun later => foretold_pure (first ++ later)

theorem foretold_rowsOf (loop : Option Loop) :
    Foretold machineOf fun _ listener => rowsOf ⟨parameters, arguments, listener⟩ loop := by
  cases loop with
  | none => exact foretold_pure []
  | some head =>
      exact foretold_bind (foretold_resolveTable parameters arguments head.table) fun value =>
        foretold_pure value.rows

theorem foretold_renderOwn (tokens : List (Token .interpreted)) (rows : List Value)
    (loop : Option Loop) :
    Foretold machineOf fun _ listener =>
      renderOwn ⟨parameters, arguments, listener⟩ tokens rows loop := by
  cases loop with
  | none => exact foretold_renderTokens parameters arguments tokens
  | some head => exact foretold_renderRows parameters arguments head tokens 0 rows

theorem foretold_atLevel {α : Type} {inner : ∀ σ : Type, Listener σ → Rendering σ α}
    (h : Foretold machineOf inner) :
    Foretold machineOf fun σ listener => atLevel (inner σ listener) := by
  intro scope
  obtain ⟨result, scope', anomalies, htold⟩ := h scope.enter
  refine ⟨result, scope'.leave, anomalies, fun σ listener heard => ?_⟩
  have hinner := htold σ listener heard
  cases hheard : listener.hearAll anomalies heard with
  | ok heard' =>
      rw [hheard] at hinner
      simp only [atLevel, hinner]
  | error refused =>
      rw [hheard] at hinner
      obtain ⟨machine, hinner⟩ := hinner
      exact ⟨{ machine with scope := machine.scope.leave }, by simp only [atLevel, hinner]⟩

mutual

theorem foretold_renderTree : ∀ tree : LoopTree .interpreted,
    Foretold machineOf fun _ listener => renderTree ⟨parameters, arguments, listener⟩ tree
  | .node loop tokens children => by
      simp only [renderTree]
      refine foretold_bind (foretold_rowsOf parameters arguments loop) fun rows =>
        foretold_atLevel ?_
      exact foretold_bind (foretold_renderOwn parameters arguments tokens rows loop) fun own =>
        foretold_bind (foretold_renderForest children) fun below => foretold_pure (own ++ below)

theorem foretold_renderForest : ∀ trees : List (LoopTree .interpreted),
    Foretold machineOf fun _ listener => renderForest ⟨parameters, arguments, listener⟩ trees
  | [] => by
      simp only [renderForest]
      exact foretold_pure []
  | tree :: trees => by
      simp only [renderForest]
      exact foretold_bind (foretold_renderTree tree) fun first =>
        foretold_bind (foretold_renderForest trees) fun later => foretold_pure (first ++ later)

end

end Setting

theorem foretold_render (definition : Macro) (arguments : List Value) :
    Foretold machineOf fun _ listener => definition.render arguments listener :=
  Setting.foretold_renderTree definition.parameters arguments _

/-! ## Nobody refuses -/

variable {σ : Type} {listener : Listener σ}

theorem completes_parse (h : listener.Patient) (source : Text) :
    Completes (parse listener source) :=
  (foretold_parse source).completes h fun heard => ⟨(), heard, rfl⟩

theorem completes_render (h : listener.Patient) (definition : Macro) (arguments : List Value) :
    Completes (definition.render arguments listener) :=
  (foretold_render definition arguments).completes h fun machine =>
    ⟨machine.scope, machine.heard, rfl⟩

end CommentMacro.Template
