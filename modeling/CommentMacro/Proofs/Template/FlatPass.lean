import CommentMacro.Proofs.Template.Hearing
import CommentMacro.Proofs.Template.Keeping
import CommentMacro.Proofs.Template.Stretches

/-!
# Flat scoping needs no tree

With flat scoping the names of a loop go to the data of the document, so a level of
loops has nothing of its own. Rendering a macro is then one pass over the stretches of
its template from left to right (`render_flat`): each is rendered once, or behind the
head of a loop once for each row of its table. How loops are nested, left open or
closed too often plays no further part.
-/

namespace CommentMacro.Template

namespace Setting

variable {σ : Type} (setting : Setting σ)

/-- Renders a stretch: once, or behind the head of a loop once for each row of the
table that its name stands for at that moment. What is not a list has no rows. -/
def renderStretch : Stretch .interpreted → Rendering σ Text
  | ⟨none, tokens⟩ => setting.renderTokens tokens
  | ⟨some head, tokens⟩ => do
    let table ← setting.resolveTable head.table
    setting.renderRows head tokens 0 table.rows

def renderStretches : List (Stretch .interpreted) → Rendering σ Text
  | [] => return []
  | stretch :: later => do
    let first ← setting.renderStretch stretch
    return first ++ (← renderStretches later)

theorem renderStretches_append (first second : List (Stretch .interpreted)) :
    setting.renderStretches (first ++ second) = do
      let early ← setting.renderStretches first
      return early ++ (← setting.renderStretches second) := by
  induction first with
  | nil => simp [renderStretches]
  | cons stretch first ih =>
      simp only [List.cons_append, renderStretches, ih, bind_assoc, pure_bind, List.append_assoc]

variable {setting}

theorem renderStretch_eq (loop : Option Loop) (tokens : List (Token .interpreted)) :
    setting.renderStretch ⟨loop, tokens⟩ =
      (do setting.renderOwn tokens (← setting.rowsOf loop) loop) := by
  cases loop with
  | none => simp [renderStretch, rowsOf, renderOwn]
  | some head => simp [renderStretch, rowsOf, renderOwn]

/-! ## Levels that have nothing of their own -/

/-- A scope with flat scoping, which holds only the data. -/
def Flat (scope : Scope) : Prop :=
  ∃ data, scope = .ofData .flat data

theorem flat_bind (scope : Scope) (name : Option Text) (value : Value) (h : Flat scope) :
    Flat (scope.bind name value) := by
  obtain ⟨data, rfl⟩ := h
  cases name with
  | none => exact ⟨data, rfl⟩
  | some name => exact ⟨data.insert name value, rfl⟩

abbrev AgreeFlat {α : Type} (first second : Rendering σ α) : Prop :=
  Agree (fun machine => Flat machine.scope) first second

theorem agree_atLevel {α : Type} {inner : Rendering σ α} (h : KeepsScope Flat inner) :
    AgreeFlat (atLevel inner) inner := by
  rintro ⟨_, heard⟩ ⟨data, rfl⟩
  have hkept := h ⟨.ofData .flat data, heard⟩ ⟨data, rfl⟩
  have henter : (Scope.ofData .flat data).enter = .ofData .flat data := rfl
  simp only [atLevel, henter]
  cases hinner : inner ⟨.ofData .flat data, heard⟩ with
  | ok a machine =>
      rw [hinner] at hkept
      obtain ⟨scope, heard'⟩ := machine
      obtain ⟨data', rfl⟩ := hkept
      rfl
  | error anomaly machine =>
      rw [hinner] at hkept
      obtain ⟨scope, heard'⟩ := machine
      obtain ⟨data', rfl⟩ := hkept
      rfl

theorem flat_enter (scope : Scope) (h : Flat scope) : Flat scope.enter := by
  obtain ⟨data, rfl⟩ := h
  exact ⟨data, rfl⟩

theorem flat_leave (scope : Scope) (h : Flat scope) : Flat scope.leave := by
  obtain ⟨data, rfl⟩ := h
  exact ⟨data, rfl⟩

theorem keptBy_flat (loop : Option Loop) : KeptBy Flat loop :=
  fun _ _ name _ scope value => flat_bind scope name value

theorem keeps_renderTree (tree : LoopTree .interpreted) :
    KeepsScope Flat (setting.renderTree tree) :=
  keeps_renderTree_of_keptBy flat_enter flat_leave tree fun _ _ => keptBy_flat _

theorem keeps_renderForest (trees : List (LoopTree .interpreted)) :
    KeepsScope Flat (setting.renderForest trees) :=
  keeps_renderForest_of_keptBy flat_enter flat_leave trees fun _ _ => keptBy_flat _

/-! ## The walk is a pass -/

mutual

/-- A node is its own stretch, and the nodes below are the stretches behind it. -/
theorem agree_renderTree : ∀ tree : LoopTree .interpreted,
    AgreeFlat (setting.renderTree tree) (setting.renderStretches tree.preorder)
  | .node loop tokens children => by
      have hbelow := agree_renderForest children
      have hkeeps (rows : List Value) : KeepsScope Flat (do
          let own ← setting.renderOwn tokens rows loop
          return own ++ (← setting.renderForest children)) :=
        keeps_bind (keeps_renderOwn (keptBy_flat loop) tokens rows) fun own =>
          keeps_bind (keeps_renderForest children) fun below => keeps_pure (own ++ below)
      rw [renderTree, LoopTree.preorder, renderStretches, renderStretch_eq, bind_assoc]
      refine (Agree.refl _).bind (keeps_rowsOf loop) fun rows => ?_
      refine (agree_atLevel (hkeeps rows)).trans ?_
      refine (Agree.refl _).bind (keeps_renderOwn (keptBy_flat loop) tokens rows) fun own => ?_
      exact hbelow.bind (keeps_renderForest children) fun below => .refl _

theorem agree_renderForest : ∀ trees : List (LoopTree .interpreted),
    AgreeFlat (setting.renderForest trees) (setting.renderStretches (LoopTree.preorderAll trees))
  | [] => by
      rw [renderForest, LoopTree.preorderAll]
      exact .refl _
  | tree :: trees => by
      rw [renderForest, LoopTree.preorderAll, renderStretches_append]
      refine (agree_renderTree tree).bind (keeps_renderTree tree) fun first => ?_
      exact (agree_renderForest trees).bind (keeps_renderForest trees) fun later => .refl _

end

end Setting

variable {σ : Type}

/-- With flat scoping a macro is rendered by one pass over the stretches of its
template: the output, what the listener hears and the data are the same, and so is the
anomaly that ends the rendering if the listener refuses one. If it refuses none the
pass comes to an end. -/
theorem render_flat (definition : Macro) (arguments : List Value) (listener : Listener σ)
    (data : Frame) (heard : σ) :
    let setting : Setting σ := ⟨definition.parameters, arguments, listener⟩
    let pass := setting.renderStretches (stretches definition.tokens) ⟨.ofData .flat data, heard⟩
    definition.render arguments listener ⟨.ofData .flat data, heard⟩ = pass ∧
      (listener.Patient → ∃ output data' heard',
        pass = .ok output ⟨.ofData .flat data', heard'⟩) := by
  intro setting pass
  have hagree : definition.render arguments listener ⟨.ofData .flat data, heard⟩ = pass := by
    have := setting.agree_renderTree (LoopTree.build definition.tokens)
    rw [LoopTree.preorder_build] at this
    exact this _ ⟨data, rfl⟩
  refine ⟨hagree, fun hpatient => ?_⟩
  obtain ⟨output, machine, hrender⟩ :=
    completes_render hpatient definition arguments ⟨.ofData .flat data, heard⟩
  have hkept : Setting.KeepsScope Setting.Flat (definition.render arguments listener) :=
    setting.keeps_renderTree _
  have hflat := hkept ⟨.ofData .flat data, heard⟩ ⟨data, rfl⟩
  rw [hrender] at hflat
  obtain ⟨data', hscope⟩ := hflat
  refine ⟨output, data', machine.heard, ?_⟩
  rw [← hagree, hrender, ← hscope]

/-- The table of the outer loop is named by an argument. The inner loop runs once, after
the rows of the outer one, and what both bind is still bound behind them; nothing is
bound to the name behind the end that closes no loop. -/
theorem render_flat_overclosed :
    let row (name : String) (value : Int) : Value := .record [(name.toList, .integer value)]
    let data : Frame :=
      [("A".toList, .list [row "a" 3, row "a" 4]), ("B".toList, .list [row "b" 5, row "b" 6])]
    let definition : Macro := ⟨"PAIRS".toList, ["T".toList],
      [.loop ⟨"{{for i, p of T}}".toList, some "i".toList, some "p".toList, "T".toList⟩,
        .reference "{{i}}".toList "i".toList, .member "{{p.a}}".toList "p".toList "a".toList,
        .loop ⟨"{{for q of B}}".toList, none, some "q".toList, "B".toList⟩,
        .member "{{q.b}}".toList "q".toList "b".toList,
        .endLoop "{{/for}}".toList, .plain ";".toList,
        .endLoop "{{/for}}".toList, .reference "{{i}}".toList "i".toList,
        .endLoop "{{/for}}".toList,
        .member "{{q.b}}".toList "q".toList "b".toList,
        .reference "{{z}}".toList "z".toList]⟩
    let arguments : List Value := [.text "A".toList]
    let setting : Setting (List Anomaly) := ⟨["T".toList], arguments, Listener.recording⟩
    let pass := setting.renderStretches (stretches definition.tokens) ⟨.ofData .flat data, []⟩
    definition.render arguments Listener.recording ⟨.ofData .flat data, []⟩ = pass ∧
      (∃ output data' heard', pass = .ok output ⟨.ofData .flat data', heard'⟩) ∧
      pass = .ok "031456;16".toList
        ⟨.ofData .flat (data ++ [("i".toList, .integer 1), ("p".toList, row "a" 4),
            ("q".toList, row "b" 6)]),
          [.unresolvedName "z".toList]⟩ := by
  intro row data definition arguments setting pass
  have hflat := render_flat definition arguments Listener.recording data []
  exact ⟨hflat.1, hflat.2 fun _ heard => ⟨_, rfl⟩, rfl⟩

end CommentMacro.Template
