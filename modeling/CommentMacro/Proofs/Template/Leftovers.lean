import CommentMacro.Proofs.Template.Hygiene
import CommentMacro.Proofs.Template.Nesting

/-!
# What a rendering leaves of the data

A rendering may be ended by an anomaly in any row of any loop. Either way the scope holds
one frame again, the data (`sparing_render`). With nested scoping they are what they were;
with flat scoping the names that loops of the template bind may have new values, and all
other names have their old ones. So a macro has an outcome that is the same for all
listeners: an output, anomalies, and the data that are left (`Macro.Renders`).
-/

namespace CommentMacro.Template

/-- A scope that holds data, which are the given ones except perhaps for the values that
some names have, and except for nothing with nested scoping. -/
def Sparing (names : List Text) (scoping : Scoping) (data : Frame) (scope : Scope) : Prop :=
  ∃ data', scope = .ofData scoping data' ∧ (scoping = .nested → data' = data) ∧
    ∀ name, name ∉ names → Bindings.get? name data' = Bindings.get? name data

namespace Setting

variable {σ : Type} {setting : Setting σ} {names : List Text} {data : Frame}

theorem sparing_enter (scope : Scope) (h : Sparing names .flat data scope) :
    Sparing names .flat data scope.enter := by
  obtain ⟨data', rfl, hdata⟩ := h
  exact ⟨data', rfl, hdata⟩

theorem sparing_leave (scope : Scope) (h : Sparing names .flat data scope) :
    Sparing names .flat data scope.leave := by
  obtain ⟨data', rfl, hdata⟩ := h
  exact ⟨data', rfl, hdata⟩

/-- A loop whose names may have new values binds no other name. -/
theorem keptBy_sparing {loop : Option Loop} (h : ∀ name ∈ boundBy loop, name ∈ names) :
    KeptBy (Sparing names .flat data) loop := by
  rintro head hhead name hname scope value ⟨data', rfl, -, hdata⟩
  cases name with
  | none => exact ⟨data', rfl, nofun, hdata⟩
  | some name =>
      refine ⟨data'.insert name value, rfl, nofun, fun other hother => ?_⟩
      have hbound : name ∈ names := h name (mem_boundBy hhead hname name rfl)
      have hne : other ≠ name := fun heq => hother (heq ▸ hbound)
      rw [Bindings.get?_insert_of_ne hne, hdata other hother]

theorem sparing_renderTree (tree : LoopTree .interpreted) (data : Frame) :
    KeepsScope (Sparing tree.bound .flat data) (setting.renderTree tree) :=
  keeps_renderTree_of_keptBy sparing_enter sparing_leave tree fun stretch hstretch =>
    keptBy_sparing fun _ hname => List.mem_flatMap.mpr ⟨stretch, hstretch, hname⟩

end Setting

theorem sparing_render {σ : Type} (definition : Macro) (arguments : List Value)
    (listener : Listener σ) (scoping : Scoping) (data : Frame) (heard : σ) :
    Sparing (boundNames definition.tokens) scoping data
      (stateAfter (definition.render arguments listener) ⟨.ofData scoping data, heard⟩).scope := by
  cases scoping with
  | nested =>
      have hrestored := (restores_render definition arguments listener [data]).stateAfter
        ⟨.ofData .nested data, heard⟩ rfl
      exact ⟨data, hrestored, fun _ => rfl, fun _ _ => rfl⟩
  | flat =>
      rw [← LoopTree.bound_build]
      exact (Setting.sparing_renderTree (LoopTree.build definition.tokens) data).stateAfter
        ⟨.ofData .flat data, heard⟩ ⟨data, rfl, nofun, fun _ _ => rfl⟩

/-! ## The outcome of a rendering -/

/-- What becomes of a macro that is rendered over data, whoever listens: a listener that
refuses none of the anomalies hears them in order, and the output and the data that are
left are the given ones; for any other listener the first one it refuses ends the
rendering. -/
def Macro.Renders (definition : Macro) (arguments : List Value) (scoping : Scoping)
    (data : Frame) (output : Text) (anomalies : List Anomaly) (data' : Frame) : Prop :=
  ∀ (σ : Type) (listener : Listener σ) (heard : σ),
    match listener.hearAll anomalies heard with
    | .ok heard' =>
      definition.render arguments listener ⟨.ofData scoping data, heard⟩ =
        .ok output ⟨.ofData scoping data', heard'⟩
    | .error refused =>
      ∃ machine, definition.render arguments listener ⟨.ofData scoping data, heard⟩ =
        .error refused machine

variable {definition : Macro} {arguments : List Value} {scoping : Scoping} {data data' : Frame}
  {output : Text} {anomalies : List Anomaly}

/-- The outcome is read off the record of the anomalies. -/
theorem renders_iff :
    definition.Renders arguments scoping data output anomalies data' ↔
      definition.render arguments .recording ⟨.ofData scoping data, []⟩ =
        .ok output ⟨.ofData scoping data', anomalies⟩ := by
  constructor
  · intro hrenders
    have hrun := hrenders _ .recording []
    rwa [Listener.hearAll_recording] at hrun
  · intro hrun σ listener heard
    obtain ⟨output', scope, anomalies', htold⟩ :=
      foretold_render definition arguments (.ofData scoping data)
    have hrecord := htold _ .recording []
    rw [Listener.hearAll_recording, List.nil_append] at hrecord
    obtain ⟨rfl, hmachine⟩ := EStateM.Result.ok.inj (hrun.symm.trans hrecord)
    obtain ⟨rfl, rfl⟩ := Machine.mk.inj hmachine
    exact htold σ listener heard

/-- A macro has one outcome. -/
theorem Macro.Renders.unique {output' : Text} {anomalies' : List Anomaly} {data'' : Frame}
    (h : definition.Renders arguments scoping data output anomalies data')
    (h' : definition.Renders arguments scoping data output' anomalies' data'') :
    output' = output ∧ anomalies' = anomalies ∧ data'' = data' := by
  have hsame := (renders_iff.mp h').symm.trans (renders_iff.mp h)
  obtain ⟨houtput, hmachine⟩ := EStateM.Result.ok.inj hsame
  obtain ⟨hscope, hheard⟩ := Machine.mk.inj hmachine
  have hframes := congrArg Scope.frames hscope
  exact ⟨houtput, hheard, (List.cons.inj hframes).1⟩

/-- Every macro has an outcome. -/
theorem exists_renders (definition : Macro) (arguments : List Value) (scoping : Scoping)
    (data : Frame) :
    ∃ output anomalies data', definition.Renders arguments scoping data output anomalies data' := by
  have hpatient : Listener.recording.Patient := fun _ heard => ⟨_, rfl⟩
  obtain ⟨output, ⟨scope, anomalies⟩, hrun⟩ :=
    completes_render hpatient definition arguments ⟨.ofData scoping data, []⟩
  have hsparing := sparing_render definition arguments .recording scoping data []
  rw [stateAfter_of_ok hrun] at hsparing
  obtain ⟨data', rfl, -⟩ := hsparing
  exact ⟨output, anomalies, data', renders_iff.mpr hrun⟩

end CommentMacro.Template
