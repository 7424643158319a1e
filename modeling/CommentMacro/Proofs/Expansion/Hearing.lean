import CommentMacro.Proofs.Expansion.Filling
import CommentMacro.Proofs.Template.Hearing

/-!
# Expansions do not depend on the listener

What an expansion puts into the regions of a document is foretold by the anomalies that
it meets (`foretold_fillings`), whoever listens. So a document is expanded to the same
text by everyone who refuses no anomaly, and who refuses some is stopped by the first of
these (`expand_foretold`). In particular the strict listener is stopped by the first
anomaly that the recording one writes down (`expand_recorded`).
-/

namespace CommentMacro

open Document

namespace Expansion

/-- What an expansion has come to, apart from what has been heard. -/
structure Progress where
  macros : Bindings Template.Macro
  scope : Scope
  pending : Text

abbrev Progress.state (σ : Type) (progress : Progress) (heard : σ) : Expansion σ :=
  ⟨progress.macros, progress.scope, progress.pending, heard⟩

theorem foretold_listening {α : Type} {inner : ∀ σ : Type, Listener σ → Watched σ α}
    (h : Foretold onlyHeard inner) :
    Foretold Progress.state fun σ listener => listening (inner σ listener) := by
  intro progress
  obtain ⟨result, _, anomalies, htold⟩ := h ()
  refine ⟨result, progress, anomalies, fun σ listener heard => ?_⟩
  have hinner := htold σ listener heard
  cases hheard : listener.hearAll anomalies heard with
  | ok heard' =>
      rw [hheard] at hinner
      simp only [onlyHeard] at hinner
      simp only [listening, hinner]
  | error refused =>
      rw [hheard] at hinner
      obtain ⟨heard', hinner⟩ := hinner
      simp only [onlyHeard] at hinner
      exact ⟨progress.state σ heard', by simp only [listening, hinner]⟩

theorem foretold_rendering {α : Type} {inner : ∀ σ : Type, Listener σ → Template.Rendering σ α}
    (h : Foretold Template.machineOf inner) :
    Foretold Progress.state fun σ listener => rendering (inner σ listener) := by
  intro progress
  obtain ⟨result, scope', anomalies, htold⟩ := h progress.scope
  refine ⟨result, { progress with scope := scope' }, anomalies, fun σ listener heard => ?_⟩
  have hinner := htold σ listener heard
  cases hheard : listener.hearAll anomalies heard with
  | ok heard' =>
      rw [hheard] at hinner
      simp only [rendering, hinner]
  | error refused =>
      rw [hheard] at hinner
      obtain ⟨machine, hinner⟩ := hinner
      exact ⟨⟨progress.macros, machine.scope, progress.pending, machine.heard⟩,
        by simp only [rendering, hinner]⟩

theorem foretold_setPending (output : Text) :
    Foretold Progress.state fun σ _ => (setPending output : Step σ Unit) :=
  foretold_modify (fun progress => { progress with pending := output }) fun _ _ _ => rfl

theorem foretold_defineTable (name body : Text) :
    Foretold Progress.state fun σ _ => (defineTable name body : Step σ Unit) :=
  foretold_modify (fun progress =>
    { progress with scope := progress.scope.bindData name (Table.toValue (Table.parse body)) })
    fun _ _ _ => rfl

theorem foretold_defineMacro (name : Text) (parameters : List Text) (body : Text) :
    Foretold Progress.state fun _ listener => defineMacro listener name parameters body := by
  refine foretold_bind (foretold_listening (Template.foretold_parse body)) fun tokens => ?_
  exact foretold_modify (fun progress =>
    { progress with macros := progress.macros.insert name ⟨name, parameters, tokens⟩ })
    fun _ _ _ => rfl

theorem foretold_invoke (source : Text) :
    Foretold Progress.state fun _ listener => invoke listener source := by
  simp only [invoke]
  split
  · exact foretold_pure _
  · refine foretold_get fun progress => ?_
    cases hfind : Bindings.get? (Call.parse source).name progress.macros with
    | some definition =>
        have hrender := Template.foretold_render definition
          ((Call.parse source).arguments.map .text)
        exact ⟨_, foretold_bind (foretold_rendering hrender) foretold_setPending,
          fun _ _ _ => by simp only [hfind]⟩
    | none =>
        have hreport := foretold_report (.undefinedMacro (Call.parse source).name source.strip)
        exact ⟨_, foretold_bind (foretold_setPending []) fun _ => foretold_listening hreport,
          fun _ _ _ => by simp only [hfind]⟩

theorem foretold_visit (token : Document.Token) :
    Foretold Progress.state fun _ listener => visit listener token := by
  cases token with
  | region opening body closing =>
      exact foretold_get fun progress =>
        ⟨_, foretold_pure (opening ++ progress.pending ++ closing), fun _ _ _ => rfl⟩
  | tableDefinition text name body =>
      exact foretold_bind (foretold_defineTable name body) fun _ => foretold_pure text
  | macroDefinition text name parameters body =>
      exact foretold_bind (foretold_defineMacro name parameters body) fun _ => foretold_pure text
  | invocation text call =>
      exact foretold_bind (foretold_invoke call) fun _ => foretold_pure text
  | _ => exact foretold_pure _

theorem foretold_fillings (tokens : List Document.Token) :
    Foretold Progress.state fun _ listener => fillings listener tokens := by
  induction tokens with
  | nil => exact foretold_pure []
  | cons token tokens ih =>
      cases hbody : token.body? with
      | none =>
          simp only [fillings_cons hbody]
          exact foretold_bind (foretold_visit token) fun _ => ih
      | some body =>
          obtain ⟨opening, closing, rfl⟩ := body?_eq_some.mp hbody
          exact foretold_get fun progress => ⟨_, foretold_bind ih fun later =>
            foretold_pure (progress.pending :: later), fun _ _ _ => rfl⟩

section

variable {σ : Type} {listener : Listener σ}

theorem exists_progress (state : Expansion σ) :
    ∃ progress heard, state = Progress.state σ progress heard :=
  ⟨⟨state.macros, state.scope, state.pending⟩, state.heard, rfl⟩

theorem completes_visit (h : listener.Patient) (token : Document.Token) :
    Completes (visit listener token) :=
  (foretold_visit token).completes h exists_progress

theorem completes_fillings (h : listener.Patient) (tokens : List Document.Token) :
    Completes (fillings listener tokens) :=
  (foretold_fillings tokens).completes h exists_progress

end

end Expansion

/-- A document is refused by everyone for the same reason, or the anomalies in it are
the same for everyone, and so is the text that it is expanded to if none is refused. -/
theorem expand_foretold (sign source : Text) (scoping : Scoping) :
    (∃ fault : MarkerFault, ∀ (σ : Type) (listener : Listener σ) (heard : σ),
      expand ⟨sign, scoping.name⟩ listener heard source = .error (.marker fault)) ∨
    ∃ out anomalies, ∀ (σ : Type) (listener : Listener σ) (heard : σ),
      expand ⟨sign, scoping.name⟩ listener heard source =
        match listener.hearAll anomalies heard with
        | .ok heard' => .ok (out, heard')
        | .error refused => .error (.anomaly refused) := by
  simp only [expand]
  split
  · cases parse sign source with
    | error fault => exact Or.inl ⟨fault, fun _ _ _ => rfl⟩
    | ok tokens =>
        obtain ⟨outputs, progress, anomalies, htold⟩ :=
          Expansion.foretold_fillings tokens ⟨[], .ofData scoping [], []⟩
        refine Or.inr ⟨textOf (refill tokens outputs), anomalies, fun σ listener heard => ?_⟩
        have hfillings := htold σ listener heard
        simp only [scopingNamed_name]
        rw [expandTokens, Expansion.visitAll_eq, Expansion.start]
        cases hheard : listener.hearAll anomalies heard with
        | ok heard' =>
            rw [hheard] at hfillings
            simp only [hfillings]
        | error refused =>
            rw [hheard] at hfillings
            obtain ⟨state, hfillings⟩ := hfillings
            simp only [hfillings]
  · exact Or.inr ⟨source, [], fun _ _ _ => rfl⟩

/-- A document is refused for its markers whoever listens, or the record of its
anomalies says all: everyone who refuses none of them gets the same text, a warning line
is written for each, and the strict listener is stopped by the first. -/
theorem expand_recorded (sign source : Text) (scoping : Scoping) :
    let settings : Settings := ⟨sign, scoping.name⟩
    (∃ fault : MarkerFault, ∀ (σ : Type) (listener : Listener σ) (heard : σ),
      expand settings listener heard source = .error (.marker fault)) ∨
    ∃ out anomalies,
      expand settings .recording [] source = .ok (out, anomalies) ∧
      expand settings .silent () source = .ok (out, ()) ∧
      expand settings .reporting [] source = .ok (out, anomalies.flatMap Listener.warningLine) ∧
      (∀ (σ : Type) (listener : Listener σ) (heard : σ), listener.Patient →
        ∃ heard', expand settings listener heard source = .ok (out, heard')) ∧
      expand settings .strict () source =
        match anomalies with
        | [] => .ok (out, ())
        | first :: _ => .error (.anomaly first) := by
  intro settings
  rcases expand_foretold sign source scoping with hfault | ⟨out, anomalies, htold⟩
  · exact Or.inl hfault
  · refine Or.inr ⟨out, anomalies, ?_, ?_, ?_, fun σ listener heard hpatient => ?_, ?_⟩
    · rw [htold, Listener.hearAll_recording, List.nil_append]
    · rw [htold, Listener.hearAll_silent]
    · rw [htold, Listener.hearAll_reporting, List.nil_append]
    · obtain ⟨heard', hheard⟩ := hpatient.exists_hearAll anomalies heard
      exact ⟨heard', by rw [htold, hheard]⟩
    · rw [htold, Listener.hearAll_strict]
      cases anomalies <;> rfl

end CommentMacro
