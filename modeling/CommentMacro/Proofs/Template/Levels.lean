import CommentMacro.Proofs.Template.Keeping

/-!
# What a rendering asks of a scope

Requests are balanced if every level that is entered is left. A scope that has a frame
refuses none of them, and they leave the frames behind the first one as they were
(`exists_requests_of_balanced`). A rendering comes to a scope that balanced requests come
to, however it ends (`exists_balanced_of_render`), which is why it can do without the
checks.
-/

namespace CommentMacro

namespace Scope

/-! ## Balanced requests -/

/-- Every level that is entered is left, and no other. -/
inductive Balanced : List Request → Prop where
  | nil : Balanced []
  | bind (name : Option Text) (value : Value) {later : List Request} :
      Balanced later → Balanced (.bind name value :: later)
  | level {inner later : List Request} :
      Balanced inner → Balanced later → Balanced (.enter :: (inner ++ .leave :: later))

theorem Balanced.append {first later : List Request} (h : Balanced first)
    (hlater : Balanced later) : Balanced (first ++ later) := by
  induction h with
  | nil => exact hlater
  | bind name value _ ih => exact .bind name value ih
  | level hinner _ _ ih =>
      rw [List.cons_append, List.append_assoc, List.cons_append]
      exact .level hinner ih

theorem requests_append {scope middle : Scope} {first : List Request}
    (h : scope.requests first = .ok middle) (later : List Request) :
    scope.requests (first ++ later) = middle.requests later := by
  unfold requests at h ⊢
  rw [List.foldlM_append, h]
  rfl

theorem requests_cons {scope next : Scope} {request : Request}
    (h : scope.request request = .ok next) (later : List Request) :
    scope.requests (request :: later) = next.requests later := by
  unfold requests
  rw [List.foldlM_cons, h]
  rfl

theorem request_bind {scope : Scope} (h : scope.frames ≠ []) (name : Option Text)
    (value : Value) : scope.request (.bind name value) = .ok (scope.bind name value) := by
  show scope.bind? name value = _
  rw [bind?, if_neg fun hboth => h hboth.2]

theorem request_leave {scope : Scope} (h : scope.frames ≠ []) :
    scope.request .leave = .ok scope.leave := by
  show scope.leave? = _
  rw [leave?, if_neg fun hboth => h hboth.2]

theorem exists_bind_eq (scoping : Scoping) (first : Frame) (behind : List Frame)
    (name : Option Text) (value : Value) :
    ∃ first', (Scope.mk scoping (first :: behind)).bind name value = ⟨scoping, first' :: behind⟩ ∧
      first.names <+: first'.names := by
  cases name with
  | none => exact ⟨first, rfl, List.prefix_rfl⟩
  | some name =>
      refine ⟨first.insert name value, rfl, ?_⟩
      rw [Bindings.names_insert]
      split
      · exact List.prefix_rfl
      · exact List.prefix_append _ _

/-- Balanced requests are never refused, change no frame but the first, and unbind no name
there. -/
theorem exists_requests_of_balanced {list : List Request} (h : Balanced list) (scoping : Scoping)
    (first : Frame) (behind : List Frame) :
    ∃ first', (Scope.mk scoping (first :: behind)).requests list =
        .ok ⟨scoping, first' :: behind⟩ ∧ first.names <+: first'.names := by
  induction h generalizing first behind with
  | nil => exact ⟨first, rfl, List.prefix_rfl⟩
  | bind name value _ ih =>
      obtain ⟨middle, hbind, hnames⟩ := exists_bind_eq scoping first behind name value
      obtain ⟨last, hlater, hnames'⟩ := ih middle behind
      refine ⟨last, ?_, hnames.trans hnames'⟩
      rw [requests_cons (request_bind (List.cons_ne_nil _ _) name value), hbind, hlater]
  | level _ _ ihinner ihlater =>
      cases scoping with
      | flat =>
          obtain ⟨middle, hinner, hnames⟩ := ihinner first behind
          obtain ⟨last, hlater, hnames'⟩ := ihlater middle behind
          refine ⟨last, ?_, hnames.trans hnames'⟩
          rw [requests_cons rfl]
          show (Scope.mk .flat (first :: behind)).requests _ = _
          rw [requests_append hinner, requests_cons (request_leave (List.cons_ne_nil _ _))]
          exact hlater
      | nested =>
          -- the level has a frame of its own, which goes when it is left
          obtain ⟨own, hinner, -⟩ := ihinner [] (first :: behind)
          obtain ⟨last, hlater, hnames⟩ := ihlater first behind
          refine ⟨last, ?_, hnames⟩
          rw [requests_cons rfl]
          show (Scope.mk .nested ([] :: first :: behind)).requests _ = _
          rw [requests_append hinner, requests_cons (request_leave (List.cons_ne_nil _ _))]
          exact hlater

/-- The second scope is what balanced requests make of the first one. -/
def Settles (scope later : Scope) : Prop :=
  ∃ list, Balanced list ∧ scope.requests list = .ok later

theorem Settles.refl (scope : Scope) : scope.Settles scope :=
  ⟨[], .nil, rfl⟩

theorem Settles.trans {scope middle later : Scope} (h : scope.Settles middle)
    (h' : middle.Settles later) : scope.Settles later := by
  obtain ⟨first, hfirst, hmiddle⟩ := h
  obtain ⟨second, hsecond, hlater⟩ := h'
  refine ⟨first ++ second, hfirst.append hsecond, ?_⟩
  rw [requests_append hmiddle, hlater]

theorem Settles.frames_ne_nil {scope later : Scope} (h : scope.Settles later)
    (hframes : scope.frames ≠ []) : later.frames ≠ [] := by
  obtain ⟨list, hbalanced, hlist⟩ := h
  obtain ⟨scoping, _ | ⟨first, behind⟩⟩ := scope
  · exact absurd rfl hframes
  obtain ⟨first', hfirst', -⟩ := exists_requests_of_balanced hbalanced scoping first behind
  rw [hlist] at hfirst'
  obtain rfl := Except.ok.inj hfirst'
  exact List.cons_ne_nil _ _

theorem settles_bind {scope : Scope} (h : scope.frames ≠ []) (name : Option Text)
    (value : Value) : scope.Settles (scope.bind name value) :=
  ⟨[.bind name value], .bind name value .nil, requests_cons (request_bind h name value) []⟩

theorem enter_frames_ne_nil {scope : Scope} (h : scope.frames ≠ []) : scope.enter.frames ≠ [] := by
  obtain ⟨_ | _, frames⟩ := scope
  · exact h
  · exact List.cons_ne_nil _ _

theorem Settles.leave {scope later : Scope} (h : scope.enter.Settles later)
    (hframes : scope.frames ≠ []) : scope.Settles later.leave := by
  have hlater := h.frames_ne_nil (enter_frames_ne_nil hframes)
  obtain ⟨inner, hinner, hrequests⟩ := h
  refine ⟨.enter :: (inner ++ [.leave]), .level hinner .nil, ?_⟩
  rw [requests_cons rfl, requests_append hrequests, requests_cons (request_leave hlater)]
  rfl

end Scope

namespace Template

variable {σ : Type}

namespace Setting

variable {setting : Setting σ}

/-! ## What a rendering comes to -/

/-- From a scope with a frame, what balanced requests make of it is kept. -/
abbrev KeepsBalance {α : Type} (inner : Rendering σ α) : Prop :=
  ∀ scope : Scope, scope.frames ≠ [] → KeepsScope scope.Settles inner

theorem keptBy_settles {scope : Scope} (h : scope.frames ≠ []) (loop : Option Loop) :
    KeptBy scope.Settles loop :=
  fun _ _ name _ _ value hsettles =>
    hsettles.trans (Scope.settles_bind (hsettles.frames_ne_nil h) name value)

theorem keepsBalance_atLevel {α : Type} {inner : Rendering σ α} (h : KeepsBalance inner) :
    KeepsBalance (atLevel inner) := by
  intro scope hframes
  -- inside the level, the requests since it was entered are counted apart
  have hinside : KeepsScope (fun later =>
      ∃ middle : { middle // scope.Settles middle }, middle.1.enter.Settles later) inner := by
    apply keeps_exists
    rintro ⟨middle, hmiddle⟩
    exact h middle.enter (Scope.enter_frames_ne_nil (hmiddle.frames_ne_nil hframes))
  refine keeps_atLevel ?_ ?_ hinside
  · intro middle hmiddle
    exact ⟨⟨middle, hmiddle⟩, .refl _⟩
  · rintro later ⟨⟨middle, hmiddle⟩, hlater⟩
    exact hmiddle.trans (hlater.leave (hmiddle.frames_ne_nil hframes))

mutual

theorem keepsBalance_renderTree : ∀ tree : LoopTree .interpreted,
    KeepsBalance (setting.renderTree tree)
  | .node loop tokens children => by
      intro scope hframes
      rw [renderTree]
      apply keeps_bind (keeps_rowsOf loop)
      intro rows
      apply keepsBalance_atLevel _ scope hframes
      intro within hwithin
      apply keeps_bind (keeps_renderOwn (keptBy_settles hwithin loop) tokens rows)
      intro own
      apply keeps_bind (keepsBalance_renderForest children within hwithin)
      intro below
      exact keeps_pure (own ++ below)

theorem keepsBalance_renderForest : ∀ trees : List (LoopTree .interpreted),
    KeepsBalance (setting.renderForest trees)
  | [] => by
      intro scope _
      rw [renderForest]
      exact keeps_pure []
  | tree :: trees => by
      intro scope hframes
      rw [renderForest]
      apply keeps_bind (keepsBalance_renderTree tree scope hframes)
      intro first
      apply keeps_bind (keepsBalance_renderForest trees scope hframes)
      intro later
      exact keeps_pure (first ++ later)

end

end Setting

/-- What a macro makes of a scope with a frame, also if an anomaly ends it, is what
balanced requests make of it: none of them is refused. -/
theorem exists_balanced_of_render (definition : Macro) (arguments : List Value)
    (listener : Listener σ) (machine : Machine σ) (h : machine.scope.frames ≠ []) :
    ∃ list, Scope.Balanced list ∧ machine.scope.requests list =
      .ok (stateAfter (definition.render arguments listener) machine).scope := by
  let setting : Setting σ := ⟨definition.parameters, arguments, listener⟩
  have hkeeps := setting.keepsBalance_renderTree (LoopTree.build definition.tokens) machine.scope h
  exact hkeeps.stateAfter machine (.refl _)

end Template

end CommentMacro
