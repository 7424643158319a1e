import CommentMacro.Proofs.Template.Keeping

/-!
# Nested scoping leaves nothing behind

With nested scoping the names of a level of loops go to a frame of its own, which is
gone when the level is left. So every rendering leaves the scope as it was, also if an
anomaly ends it (`restores_render`).
-/

namespace CommentMacro.Template

namespace Setting

variable {σ α β : Type} {setting : Setting σ}

def Nested (frames : List Frame) (scope : Scope) : Prop :=
  scope = ⟨.nested, frames⟩

/-- A rendering that with nested scoping leaves the scope as it was. -/
def Restores (inner : Rendering σ α) : Prop :=
  ∀ frames, KeepsScope (Nested frames) inner

def Above (frames : List Frame) (scope : Scope) : Prop :=
  ∃ frame, Nested (frame :: frames) scope

theorem above_bind (frames : List Frame) (scope : Scope) (name : Option Text) (value : Value)
    (h : Above frames scope) : Above frames (scope.bind name value) := by
  obtain ⟨frame, rfl⟩ := h
  cases name with
  | none => exact ⟨frame, rfl⟩
  | some name => exact ⟨frame.insert name value, rfl⟩

theorem keptBy_above (frames : List Frame) (loop : Option Loop) : KeptBy (Above frames) loop :=
  fun _ _ name _ scope value => above_bind frames scope name value

/-- What leaves every scope as it was does so one level up. -/
theorem Restores.keeps_above {inner : Rendering σ α} (h : Restores inner) (frames : List Frame) :
    KeepsScope (Above frames) inner :=
  keeps_exists fun frame => h (frame :: frames)

/-- What only touches the frame of its level leaves the scope as it was. -/
theorem restores_atLevel {inner : Rendering σ α} (h : ∀ frames, KeepsScope (Above frames) inner) :
    Restores (atLevel inner) := by
  intro frames
  refine keeps_atLevel (fun scope hscope => ?_) (fun scope hscope => ?_) (h frames)
  · obtain rfl := hscope
    exact ⟨[], rfl⟩
  · obtain ⟨frame, rfl⟩ := hscope
    rfl

mutual

theorem restores_renderTree : ∀ tree : LoopTree .interpreted, Restores (setting.renderTree tree)
  | .node loop tokens children => by
      rw [renderTree]
      refine fun frames => keeps_bind (keeps_rowsOf loop) fun rows =>
        restores_atLevel (fun frames => ?_) frames
      exact keeps_bind (keeps_renderOwn (keptBy_above frames loop) tokens rows) fun own =>
        keeps_bind ((restores_renderForest children).keeps_above frames) fun below =>
          keeps_pure (own ++ below)

theorem restores_renderForest : ∀ trees : List (LoopTree .interpreted),
    Restores (setting.renderForest trees)
  | [] => by
      rw [renderForest]
      exact fun _ => keeps_pure []
  | tree :: trees => by
      rw [renderForest]
      exact fun frames => keeps_bind (restores_renderTree tree frames) fun first =>
        keeps_bind (restores_renderForest trees frames) fun later => keeps_pure (first ++ later)

end

end Setting

theorem restores_render {σ : Type} (definition : Macro) (arguments : List Value)
    (listener : Listener σ) : Setting.Restores (definition.render arguments listener) :=
  Setting.restores_renderTree _

end CommentMacro.Template
