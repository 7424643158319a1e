import CommentMacro.Proofs.Computation
import CommentMacro.Proofs.Template.Stretches
import CommentMacro.Template.Render

/-!
# What rendering does to the scope

Tokens are rendered without a change of the scope: whatever holds of it before holds
after, also if an anomaly ends the rendering (`keeps_renderTokens`). Only the rows of
a loop change it, by what they bind (`keeps_renderRows`), and levels, which are left
however the rendering inside them ends (`keeps_atLevel`). So a tree keeps what levels and
the names of its loops keep (`keeps_renderTree_of_keptBy`). What holds of all values in a
scope (`Scope.Everywhere`) holds on every level, as long as it holds of what is bound.
-/

namespace CommentMacro

/-! ## What holds of all that a scope binds -/

/-- Something holds of every name that a scope binds and of the value it has there. -/
def Scope.Everywhere (holds : Text → Value → Prop) (scope : Scope) : Prop :=
  ∀ frame ∈ scope.frames, ∀ field ∈ frame, holds field.1 field.2

theorem forall_mem_insert {holds : Text → Value → Prop} {frame : Frame} {value : Value}
    (hframe : ∀ field ∈ frame, holds field.1 field.2) (hvalue : ∀ name, holds name value)
    (name : Text) : ∀ field ∈ frame.insert name value, holds field.1 field.2 := by
  intro field hmem
  rcases Bindings.mem_insert hmem with heq | hmem
  · exact heq ▸ hvalue field.1
  · exact hframe field hmem

namespace Scope.Everywhere

variable {holds : Text → Value → Prop} {scope : Scope}

theorem find? (h : scope.Everywhere holds) {name : Text} {value : Value}
    (hfind : scope.find? name = some value) : holds name value := by
  obtain ⟨frame, hframe, hget⟩ := List.exists_of_findSome?_eq_some hfind
  exact h frame hframe _ (Bindings.mem_of_get? hget)

theorem bind (h : scope.Everywhere holds) (name : Option Text) {value : Value}
    (hvalue : ∀ name, holds name value) : (scope.bind name value).Everywhere holds := by
  obtain ⟨scoping, frames⟩ := scope
  cases name with
  | none => exact h
  | some name =>
      cases frames with
      | nil => exact h
      | cons frame frames =>
          obtain ⟨hframe, hlater⟩ := List.forall_mem_cons.mp h
          exact List.forall_mem_cons.mpr ⟨forall_mem_insert hframe hvalue name, hlater⟩

theorem enter (h : scope.Everywhere holds) : scope.enter.Everywhere holds := by
  obtain ⟨scoping, frames⟩ := scope
  cases scoping with
  | flat => exact h
  | nested => exact List.forall_mem_cons.mpr ⟨by simp, h⟩

theorem leave (h : scope.Everywhere holds) : scope.leave.Everywhere holds := by
  obtain ⟨scoping, frames⟩ := scope
  cases scoping with
  | flat => exact h
  | nested => exact fun frame hmem => h frame (List.mem_of_mem_tail hmem)

end Scope.Everywhere

end CommentMacro

namespace CommentMacro.Template.Setting

variable {σ : Type} {setting : Setting σ} {holds : Scope → Prop}

/-! ## What tokens keep -/

abbrev KeepsScope {α : Type} (holds : Scope → Prop) (inner : Rendering σ α) : Prop :=
  Keeps (fun machine => holds machine.scope) inner

theorem keeps_report (anomaly : Anomaly) : KeepsScope holds (setting.report anomaly) := by
  intro machine h
  rw [report]
  cases setting.listener.hear anomaly machine.heard with
  | ok heard => exact h
  | error refused => exact h

theorem keeps_resolve (name : Text) : KeepsScope holds (setting.resolve name) := by
  unfold resolve
  split
  · exact keeps_pure _
  · refine keeps_bind keeps_get fun machine => ?_
    split
    · exact keeps_pure _
    · exact keeps_bind (keeps_report _) fun _ => keeps_pure _

theorem keeps_resolveTable (name : Text) : KeepsScope holds (setting.resolveTable name) := by
  refine keeps_bind (keeps_resolve name) fun value => ?_
  split
  · exact keeps_resolve _
  · exact keeps_pure _

theorem keeps_renderMember (name field : Text) :
    KeepsScope holds (setting.renderMember name field) := by
  refine keeps_bind (keeps_resolve name) fun subject => ?_
  have hmissing : KeepsScope holds
      (do setting.report (.unresolvedName (name ++ '.' :: field)); return [] : Rendering σ Text) :=
    keeps_bind (keeps_report _) fun _ => keeps_pure _
  split
  · exact keeps_pure _
  · split
    · exact keeps_pure _
    · exact hmissing
  · exact hmissing

theorem keeps_renderCount (name : Text) : KeepsScope holds (setting.renderCount name) := by
  refine keeps_bind (keeps_resolveTable name) fun value => ?_
  split <;> exact keeps_pure _

theorem keeps_renderToken (token : Token .interpreted) :
    KeepsScope holds (setting.renderToken token) := by
  cases token with
  | reference text name =>
      exact keeps_bind (keeps_resolve name) fun value => keeps_pure (emit value)
  | member text name field => exact keeps_renderMember name field
  | count text name => exact keeps_renderCount name
  | _ => exact keeps_pure _

theorem keeps_renderTokens (tokens : List (Token .interpreted)) :
    KeepsScope holds (setting.renderTokens tokens) := by
  induction tokens with
  | nil => exact keeps_pure []
  | cons token tokens ih =>
      exact keeps_bind (keeps_renderToken token) fun first =>
        keeps_bind ih fun later => keeps_pure (first ++ later)

theorem keeps_rowsOf (loop : Option Loop) : KeepsScope holds (setting.rowsOf loop) := by
  cases loop with
  | none => exact keeps_pure []
  | some head =>
      exact keeps_bind (keeps_resolveTable head.table) fun value => keeps_pure value.rows

/-! ## What loops bind -/

/-- What holds of a scope also holds when a name of the loop has been bound. -/
def KeptBy (holds : Scope → Prop) (loop : Option Loop) : Prop :=
  ∀ head ∈ loop, ∀ name, name = head.key ∨ name = head.value →
    ∀ scope value, holds scope → holds (Scope.bind scope name value)

theorem keeps_renderRows {head : Loop} (h : KeptBy holds (some head))
    (tokens : List (Token .interpreted))
    (index : Nat) (rows : List Value) :
    KeepsScope holds (setting.renderRows head tokens index rows) := by
  induction rows generalizing index with
  | nil => exact keeps_pure []
  | cons row rows ih =>
      refine keeps_bind (keeps_modify fun machine hscope => ?_) fun _ => ?_
      · exact h head rfl _ (.inr rfl) _ _ (h head rfl _ (.inl rfl) _ _ hscope)
      · exact keeps_bind (keeps_renderTokens tokens) fun first =>
          keeps_bind (ih (index + 1)) fun later => keeps_pure (first ++ later)

theorem keeps_renderOwn {loop : Option Loop} (h : KeptBy holds loop)
    (tokens : List (Token .interpreted))
    (rows : List Value) : KeepsScope holds (setting.renderOwn tokens rows loop) := by
  cases loop with
  | none => exact keeps_renderTokens tokens
  | some head => exact keeps_renderRows h tokens 0 rows

/-! ## Levels -/

/-- What holds inside a level, and again when the level is left. -/
theorem keeps_atLevel {α : Type} {inside : Scope → Prop} {inner : Rendering σ α}
    (henter : ∀ scope, holds scope → inside scope.enter)
    (hleave : ∀ scope, inside scope → holds scope.leave) (h : KeepsScope inside inner) :
    KeepsScope holds (atLevel inner) := by
  intro machine hscope
  have hlast := h { machine with scope := machine.scope.enter } (henter _ hscope)
  simp only [atLevel]
  cases hinner : inner { machine with scope := machine.scope.enter } with
  | ok a last =>
      rw [hinner] at hlast
      exact hleave _ hlast
  | error anomaly last =>
      rw [hinner] at hlast
      exact hleave _ hlast

mutual

/-- A node keeps what levels and its loops keep. -/
theorem keeps_renderTree_of_keptBy (henter : ∀ scope, holds scope → holds scope.enter)
    (hleave : ∀ scope, holds scope → holds scope.leave) : ∀ tree : LoopTree .interpreted,
    (∀ stretch ∈ tree.preorder, KeptBy holds stretch.loop) →
    KeepsScope holds (setting.renderTree tree)
  | .node loop tokens children, h => by
      have hforest := keeps_renderForest_of_keptBy henter hleave children
      rw [LoopTree.preorder, List.forall_mem_cons] at h
      rw [renderTree]
      refine keeps_bind (keeps_rowsOf loop) fun rows => keeps_atLevel henter hleave ?_
      exact keeps_bind (keeps_renderOwn h.1 tokens rows) fun own =>
        keeps_bind (hforest h.2) fun below => keeps_pure (own ++ below)

theorem keeps_renderForest_of_keptBy (henter : ∀ scope, holds scope → holds scope.enter)
    (hleave : ∀ scope, holds scope → holds scope.leave) : ∀ trees : List (LoopTree .interpreted),
    (∀ stretch ∈ LoopTree.preorderAll trees, KeptBy holds stretch.loop) →
    KeepsScope holds (setting.renderForest trees)
  | [], _ => by
      rw [renderForest]
      exact keeps_pure []
  | tree :: trees, h => by
      have hforest := keeps_renderForest_of_keptBy henter hleave trees
      rw [LoopTree.preorderAll, List.forall_mem_append] at h
      rw [renderForest]
      exact keeps_bind (keeps_renderTree_of_keptBy henter hleave tree h.1) fun first =>
        keeps_bind (hforest h.2) fun later => keeps_pure (first ++ later)

end

end CommentMacro.Template.Setting
