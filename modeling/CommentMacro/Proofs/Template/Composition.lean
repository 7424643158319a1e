import CommentMacro.Proofs.Template.FlatPass
import CommentMacro.Proofs.Template.Leftovers
import CommentMacro.Proofs.Template.OpenLoops

/-!
# Templates one behind the other

A template that leaves no loop open is rendered, and behind it another one. This gives
the outputs and the anomalies of the two in turn, the second rendered over the data that
the first leaves (`renders_append`).

The loop tree of both together is not made of the two trees: the first tokens of the
second template go to the root or, behind the end of a loop, to the last node below it
(`build_append`). In either place a node without a loop adds nothing of its own, since
what its level binds is nothing (`agree_loopless`).
-/

namespace CommentMacro.Template

variable {stage : Stage}

namespace LoopTree

/-! ## The tree of two templates -/

def Branch.adoptAll (branch : Branch stage) (children : List (LoopTree stage)) : Branch stage :=
  { branch with children := branch.children ++ children }

namespace Cursor

def appendAll (cursor : Cursor stage) (tokens : List (Token stage)) : Cursor stage :=
  match cursor.trailing with
  | none => { cursor with current.tokens := cursor.current.tokens ++ tokens }
  | some trailing => { cursor with trailing := some (trailing ++ tokens) }

theorem append_appendAll (cursor : Cursor stage) (tokens : List (Token stage))
    (token : Token stage) :
    (cursor.appendAll tokens).append token = cursor.appendAll (tokens ++ [token]) := by
  obtain ⟨outer, current, trailing⟩ := cursor
  cases trailing <;> simp [appendAll, append]

theorem appendAll_nil (cursor : Cursor stage) : cursor.appendAll [] = cursor := by
  obtain ⟨outer, current, trailing⟩ := cursor
  cases trailing <;> simp [appendAll]

theorem outer_appendAll (cursor : Cursor stage) (tokens : List (Token stage)) :
    (cursor.appendAll tokens).outer = cursor.outer := by
  obtain ⟨outer, current, trailing⟩ := cursor
  cases trailing <;> rfl

/-- The root behind a template that leaves no loop open, with the tokens and the nodes
below the root of another template. -/
def joined (front : Cursor stage) (tokens : List (Token stage)) (children : List (LoopTree stage)) :
    Branch stage :=
  (front.appendAll tokens).settle.adoptAll children

theorem joined_adopt (front : Cursor stage) (tokens : List (Token stage))
    (children : List (LoopTree stage))
    (child : LoopTree stage) :
    (front.joined tokens children).adopt child = front.joined tokens (children ++ [child]) := by
  simp [joined, Branch.adoptAll, Branch.adopt]

theorem joined_nil (front : Cursor stage) (tokens : List (Token stage)) :
    front.joined tokens [] = (front.appendAll tokens).settle := by
  simp [joined, Branch.adoptAll]

/-- What trails behind the joined root becomes the last node below it. -/
theorem settle_joined (front : Cursor stage) (tokens trailing : List (Token stage))
    (children : List (LoopTree stage)) :
    settle ⟨[], front.joined tokens children, some trailing⟩ =
      front.joined tokens (children ++ [.node none trailing []]) :=
  joined_adopt front tokens children _

/-- A template is read alone, and behind another one from where the cursor `front` stands
then. The two cursors stand in the same place, but for what the root holds. -/
inductive Behind (front : Cursor stage) : Cursor stage → Cursor stage → Prop
  /-- No head and no end of a loop was read yet. -/
  | leading (tokens : List (Token stage)) :
      Behind front ⟨[], ⟨none, tokens, []⟩, none⟩ (front.appendAll tokens)
  /-- No loop is open. -/
  | atRoot (tokens : List (Token stage)) (children : List (LoopTree stage))
      (trailing : List (Token stage)) :
      Behind front ⟨[], ⟨none, tokens, children⟩, some trailing⟩
        ⟨[], front.joined tokens children, some trailing⟩
  /-- Loops are open, with the root around them. -/
  | inside (outer : List (Branch stage)) (tokens : List (Token stage))
      (children : List (LoopTree stage))
      (current : Branch stage) (trailing : Option (List (Token stage))) :
      Behind front ⟨outer ++ [⟨none, tokens, children⟩], current, trailing⟩
        ⟨outer ++ [front.joined tokens children], current, trailing⟩

variable {front alone whole : Cursor stage}

theorem Behind.openLoop (hfront : front.outer = []) (h : Behind front alone whole)
    (head : Loop) : Behind front (alone.openLoop head) (whole.openLoop head) := by
  cases h with
  | leading tokens =>
      simp only [Cursor.openLoop, outer_appendAll, hfront, ← joined_nil]
      exact .inside [] tokens [] _ none
  | atRoot tokens children trailing =>
      simp only [Cursor.openLoop, settle_joined]
      exact .inside [] tokens _ _ none
  | inside outer tokens children current trailing =>
      exact .inside (settle ⟨outer, current, trailing⟩ :: outer) tokens children _ none

theorem Behind.closeLoop (hfront : front.outer = []) (h : Behind front alone whole) :
    Behind front alone.closeLoop whole.closeLoop := by
  cases h with
  | leading tokens =>
      simp only [Cursor.closeLoop, outer_appendAll, hfront, ← joined_nil]
      exact .atRoot tokens [] []
  | atRoot tokens children trailing =>
      simp only [Cursor.closeLoop, settle_joined]
      exact .atRoot tokens _ []
  | inside outer tokens children current trailing =>
      cases outer with
      | nil =>
          -- the loop that is closed is the only one, and the root takes it in
          simp only [List.nil_append, Cursor.closeLoop, joined_adopt]
          exact .atRoot tokens _ []
      | cons parent outer => exact .inside outer tokens children _ (some [])

theorem Behind.append (h : Behind front alone whole) (token : Token stage) :
    Behind front (alone.append token) (whole.append token) := by
  cases h with
  | leading tokens =>
      rw [append_appendAll]
      exact .leading (tokens ++ [token])
  | atRoot tokens children trailing => exact .atRoot tokens children (trailing ++ [token])
  | inside outer tokens children current trailing =>
      cases trailing with
      | none => exact .inside outer tokens children _ none
      | some trailing => exact .inside outer tokens children current (some (trailing ++ [token]))

theorem Behind.step (hfront : front.outer = []) (h : Behind front alone whole)
    (token : Token stage) :
    Behind front (alone.step token) (whole.step token) := by
  cases token with
  | loop head => exact h.openLoop hfront head
  | endLoop text => exact h.closeLoop hfront
  | _ => exact h.append _

theorem Behind.foldl (hfront : front.outer = []) (h : Behind front alone whole)
    (tokens : List (Token stage)) :
    Behind front (tokens.foldl Cursor.step alone) (tokens.foldl Cursor.step whole) := by
  induction tokens generalizing alone whole with
  | nil => exact h
  | cons token tokens ih => exact ih (h.step hfront token)

theorem Behind.finish (hfront : front.outer = []) (h : Behind front alone whole) :
    ∃ tokens children, alone.finish = .node none tokens children ∧
      whole.finish = (front.joined tokens children).tree := by
  cases h with
  | leading tokens =>
      refine ⟨tokens, [], rfl, ?_⟩
      rw [Cursor.finish, outer_appendAll, hfront, joined_nil]
      rfl
  | atRoot tokens children trailing =>
      refine ⟨tokens, children ++ [.node none trailing []], rfl, ?_⟩
      rw [← settle_joined]
      rfl
  | inside outer tokens children current trailing =>
      -- the loops that are still open end below the root, the same in both trees
      have hfold : ∀ root : Branch stage,
          Cursor.finish ⟨outer ++ [root], current, trailing⟩ =
            (root.adopt (Cursor.finish ⟨outer, current, trailing⟩)).tree := by
        intro root
        rw [Cursor.finish, List.foldl_append]
        rfl
      refine ⟨tokens, children ++ [Cursor.finish ⟨outer, current, trailing⟩], hfold _, ?_⟩
      rw [hfold, joined_adopt]

/-- Where no loop is open the cursor stands at the root, and there is nothing below it
unless something stands behind it. -/
theorem Within.at_root {cursor : Cursor stage} {before : List (Token stage)}
    (h : Within cursor before)
    (hopen : openLoops before = []) :
    ∃ tokens children, cursor = ⟨[], ⟨none, tokens, []⟩, none⟩ ∨
      ∃ trailing, cursor = ⟨[], ⟨none, tokens, children⟩, some trailing⟩ := by
  have hloops := h.loops
  have hchildless := h.childless
  obtain ⟨outer, ⟨loop, tokens, children⟩, trailing⟩ := cursor
  rw [hopen, branches, List.map_cons, List.reverse_nil, List.map_nil, List.nil_append,
    List.cons.injEq, List.map_eq_nil_iff] at hloops
  obtain ⟨rfl, rfl⟩ : loop = none ∧ outer = [] := hloops
  refine ⟨tokens, children, ?_⟩
  cases trailing with
  | none =>
      obtain rfl : children = [] := hchildless rfl
      exact .inl rfl
  | some trailing => exact .inr ⟨trailing, rfl⟩

theorem Within.outer_eq_nil {cursor : Cursor stage} {before : List (Token stage)}
    (h : Within cursor before)
    (hopen : openLoops before = []) : cursor.outer = [] := by
  obtain ⟨tokens, children, rfl | ⟨trailing, rfl⟩⟩ := h.at_root hopen
  · rfl
  · rfl

theorem Within.loop_eq_none {cursor : Cursor stage} {before : List (Token stage)}
    (h : Within cursor before)
    (hopen : openLoops before = []) (tokens : List (Token stage)) :
    (cursor.appendAll tokens).settle.loop = none := by
  obtain ⟨own, children, rfl | ⟨trailing, rfl⟩⟩ := h.at_root hopen
  · rfl
  · rfl

theorem finish_of_outer {cursor : Cursor stage} (h : cursor.outer = []) :
    cursor.finish = cursor.settle.tree := by
  rw [finish, h]
  rfl

end Cursor

/-- Behind a template that leaves no loop open, what the root of the second tree holds is
joined to the root of the first one. -/
theorem build_append {first : List (Token stage)} (hopen : openLoops first = [])
    (second : List (Token stage)) :
    ∃ tokens children, build second = .node none tokens children ∧
      build (first ++ second) =
        ((first.foldl Cursor.step Cursor.start).joined tokens children).tree := by
  have houter : (first.foldl Cursor.step Cursor.start).outer = [] :=
    (Cursor.within_start.foldl first).outer_eq_nil hopen
  have hbehind : Cursor.Behind (first.foldl Cursor.step Cursor.start) Cursor.start
      ((first.foldl Cursor.step Cursor.start).appendAll []) := .leading []
  rw [Cursor.appendAll_nil] at hbehind
  obtain ⟨tokens, children, hsecond, hboth⟩ := (hbehind.foldl houter second).finish houter
  refine ⟨tokens, children, hsecond, ?_⟩
  rw [build, List.foldl_append, hboth]

end LoopTree

namespace Setting

variable {σ : Type} {setting : Setting σ} {scoping : Scoping}

/-! ## Renderings in turn -/

def inTurn (first second : Rendering σ Text) : Rendering σ Text := do
  let early ← first
  return early ++ (← second)

theorem inTurn_assoc (first second third : Rendering σ Text) :
    inTurn (inTurn first second) third = inTurn first (inTurn second third) := by
  simp only [inTurn, bind_assoc, pure_bind, List.append_assoc]

theorem inTurn_nil (first : Rendering σ Text) : inTurn first (pure []) = first := by
  simp only [inTurn, pure_bind, List.append_nil, bind_pure]

theorem nil_inTurn (second : Rendering σ Text) : inTurn (pure []) second = second := by
  simp only [inTurn, pure_bind, List.nil_append, bind_pure]

theorem keeps_inTurn {holds : Scope → Prop} {first second : Rendering σ Text}
    (h : KeepsScope holds first) (h' : KeepsScope holds second) :
    KeepsScope holds (inTurn first second) :=
  keeps_bind h fun early => keeps_bind h' fun late => keeps_pure (early ++ late)

theorem renderTokens_append (first second : List (Token .interpreted)) :
    setting.renderTokens (first ++ second) =
      inTurn (setting.renderTokens first) (setting.renderTokens second) := by
  induction first with
  | nil => exact (nil_inTurn _).symm
  | cons token first ih =>
      show inTurn (setting.renderToken token) (setting.renderTokens (first ++ second)) =
        inTurn (inTurn (setting.renderToken token) (setting.renderTokens first)) _
      rw [ih, inTurn_assoc]

theorem renderForest_cons (tree : LoopTree .interpreted) (trees : List (LoopTree .interpreted)) :
    setting.renderForest (tree :: trees) =
      inTurn (setting.renderTree tree) (setting.renderForest trees) := by
  rw [renderForest, inTurn]

theorem renderForest_append (first second : List (LoopTree .interpreted)) :
    setting.renderForest (first ++ second) =
      inTurn (setting.renderForest first) (setting.renderForest second) := by
  induction first with
  | nil => rw [List.nil_append, renderForest, nil_inTurn]
  | cons tree first ih =>
      rw [List.cons_append, renderForest_cons, renderForest_cons, ih, inTurn_assoc]

/-! ## Between the levels only the data are there -/

def OnData (scoping : Scoping) (scope : Scope) : Prop :=
  ∃ data, scope = .ofData scoping data

theorem keeps_onData_renderTree (tree : LoopTree .interpreted) :
    KeepsScope (OnData scoping) (setting.renderTree tree) := by
  cases scoping with
  | flat => exact keeps_renderTree tree
  | nested => exact keeps_exists fun data => restores_renderTree tree [data]

theorem keeps_onData_renderForest (trees : List (LoopTree .interpreted)) :
    KeepsScope (OnData scoping) (setting.renderForest trees) := by
  cases scoping with
  | flat => exact keeps_renderForest trees
  | nested => exact keeps_exists fun data => restores_renderForest trees [data]

abbrev AgreeOnData {α : Type} (scoping : Scoping) (first second : Rendering σ α) : Prop :=
  Agree (fun machine => OnData scoping machine.scope) first second

theorem agree_inTurn {first first' second second' : Rendering σ Text}
    (h : AgreeOnData scoping first first') (hkeeps : KeepsScope (OnData scoping) first)
    (h' : AgreeOnData scoping second second') :
    AgreeOnData scoping (inTurn first second) (inTurn first' second') :=
  Agree.bind h hkeeps fun _ => fun machine hmachine => by
    rw [bind_apply, bind_apply, h' machine hmachine]

/-! ## A node without a loop -/

/-- Scopes with nested scoping and the given frames around. One of them has a frame more,
which binds nothing, behind the frames of the levels that were entered since. -/
def ExtraFrame (frames : List Frame) (depth : Nat) (first second : Scope) : Prop :=
  ∃ inner : List Frame, inner.length = depth ∧
    first = ⟨.nested, inner ++ [] :: frames⟩ ∧ second = ⟨.nested, inner ++ frames⟩

theorem abreast_of_extraFrame (setting : Setting σ) (frames : List Frame) (depth : Nat) :
    Abreast id setting (fun _ => True) (fun _ => True) (ExtraFrame frames depth) where
  find_eq := by
    rintro first second name ⟨inner, -, rfl, rfl⟩ -
    simp only [Scope.find?, List.findSome?_append, List.findSome?_cons, Bindings.get?]
  known_found _ _ _ _ := trivial
  known_argument _ _ _ _ := trivial
  readable_known _ := trivial
  spell_known _ := rfl
  spell_literal _ := rfl
  spell_append _ _ := rfl

theorem levelsAbreast_of_extraFrame (setting : Setting σ) (frames : List Frame) :
    LevelsAbreast id id (Token.respell id) setting setting (fun _ => True)
      (fun row => row.Every fun _ => True) fun depth => Alongside (ExtraFrame frames depth) := by
  refine levelsAbreast_of_abreast (abreast_of_extraFrame setting frames) ?_ ?_ ?_
  · rintro depth first second ⟨inner, rfl, rfl, rfl⟩
    exact ⟨[] :: inner, rfl, rfl, rfl⟩
  · rintro depth first second ⟨inner, hlength, rfl, rfl⟩
    obtain ⟨frame, inner, rfl⟩ := List.exists_cons_of_length_eq_add_one hlength
    exact ⟨inner, Nat.succ.inj hlength, rfl, rfl⟩
  · rintro depth first second name value - ⟨inner, hlength, rfl, rfl⟩
    obtain ⟨frame, inner, rfl⟩ := List.exists_cons_of_length_eq_add_one hlength
    cases name with
    | none => exact ⟨frame :: inner, hlength, rfl, rfl⟩
    | some name => exact ⟨frame.insert name value :: inner, hlength, rfl, rfl⟩

/-- A frame that binds nothing makes no difference to tokens and the nodes behind them. -/
theorem alike_extraFrame (setting : Setting σ) (frames : List Frame)
    (tokens : List (Token .interpreted))
    (children : List (LoopTree .interpreted)) :
    Alike (ExtraFrame frames 0) (fun text text' => text' = text)
      (inTurn (setting.renderTokens tokens) (setting.renderForest children))
      (inTurn (setting.renderTokens tokens) (setting.renderForest children)) := by
  have htokens := (abreast_of_extraFrame setting frames 0).renderTokens tokens
    fun _ _ _ _ => trivial
  have hforest := (levelsAbreast_of_extraFrame setting frames).renderForest children 0
    fun _ _ => trivial
  rw [Token.respell_id, List.map_id] at htokens
  rw [Token.respell_id, LoopTree.mapAll_id] at hforest
  refine htokens.bind fun early early' hearly => ?_
  refine hforest.bind fun late late' hlate => ?_
  exact related_pure (by rw [hearly, hlate, id, id])

theorem completes_renderTree (hpatient : setting.listener.Patient) (tree : LoopTree .interpreted) :
    Completes (setting.renderTree tree) :=
  (foretold_renderTree setting.parameters setting.arguments tree).completes hpatient
    fun machine => ⟨machine.scope, machine.heard, rfl⟩

/-- With nested scoping a level makes no difference to a rendering that does the same with
a frame more. -/
theorem agree_atLevel_nested {inner : Rendering σ Text} (hcompletes : Completes (atLevel inner))
    (halike : ∀ frames, Alike (ExtraFrame frames 0) (fun text text' => text' = text) inner inner) :
    AgreeOnData .nested (atLevel inner) inner := by
  rintro ⟨_, heard⟩ ⟨data, rfl⟩
  have henter : (Scope.ofData .nested data).enter = ⟨.nested, [[], data]⟩ := rfl
  obtain ⟨output, last, hrun⟩ := hcompletes ⟨.ofData .nested data, heard⟩
  simp only [atLevel, henter] at hrun ⊢
  have hends := halike [data] ⟨⟨.nested, [[], data]⟩, heard⟩ ⟨.ofData .nested data, heard⟩
    ⟨⟨[], rfl, rfl, rfl⟩, rfl⟩
  rcases hends.ok_or_error with
    ⟨text, _, ⟨scope, heard'⟩, ⟨scope', _⟩, hfirst, hsecond, rfl, hscopes, rfl⟩ |
      ⟨refused, _, _, hfirst, -⟩
  · obtain ⟨frames, hlength, rfl, rfl⟩ := hscopes
    obtain rfl := List.length_eq_zero_iff.mp hlength
    rw [hfirst, hsecond]
    rfl
  · rw [hfirst] at hrun
    cases hrun

/-- The level of a node without a loop makes no difference: the tokens of the node are
rendered, and then the nodes below. -/
theorem agree_loopless (scoping : Scoping) (hpatient : setting.listener.Patient)
    (tokens : List (Token .interpreted)) (children : List (LoopTree .interpreted)) :
    AgreeOnData scoping (setting.renderTree (.node none tokens children))
      (inTurn (setting.renderTokens tokens) (setting.renderForest children)) := by
  have hlevel : setting.renderTree (.node none tokens children) =
      atLevel (inTurn (setting.renderTokens tokens) (setting.renderForest children)) := by
    rw [renderTree, rowsOf, pure_bind]
    rfl
  have hcompletes := completes_renderTree hpatient (.node none tokens children)
  rw [hlevel] at hcompletes ⊢
  cases scoping with
  | flat =>
      exact agree_atLevel (keeps_inTurn (keeps_renderTokens tokens) (keeps_renderForest children))
  | nested =>
      exact agree_atLevel_nested hcompletes fun frames =>
        alike_extraFrame setting frames tokens children

/-- A node that has neither a loop nor nodes below it is its tokens. -/
theorem agree_leaf (scoping : Scoping) (hpatient : setting.listener.Patient)
    (tokens : List (Token .interpreted)) :
    AgreeOnData scoping (setting.renderTree (.node none tokens []))
      (setting.renderTokens tokens) := by
  have hloopless := agree_loopless scoping hpatient tokens []
  rwa [renderForest, inTurn_nil] at hloopless

theorem agree_adoptAll (hpatient : setting.listener.Patient) (branch : LoopTree.Branch .interpreted)
    (hloop : branch.loop = none) (later : List (LoopTree .interpreted)) :
    AgreeOnData scoping (setting.renderTree (branch.adoptAll later).tree)
      (inTurn (setting.renderTree branch.tree) (setting.renderForest later)) := by
  obtain ⟨_, tokens, children⟩ := branch
  obtain rfl := hloop
  have hboth := agree_loopless scoping hpatient tokens (children ++ later)
  rw [renderForest_append, ← inTurn_assoc] at hboth
  have hfirst := (agree_loopless scoping hpatient tokens children).symm
  refine hboth.trans (agree_inTurn hfirst ?_ (.refl _))
  exact keeps_inTurn (keeps_renderTokens tokens) (keeps_onData_renderForest children)

/-! ## Two templates -/

/-- Tokens that stand behind a template that leaves no loop open are rendered behind it,
also where they go to the last node below the root. -/
theorem agree_appendAll (scoping : Scoping) (hpatient : setting.listener.Patient)
    {cursor : LoopTree.Cursor .interpreted} {before : List (Token .interpreted)}
    (hwithin : cursor.Within before)
    (hopen : openLoops before = []) (tokens : List (Token .interpreted)) :
    AgreeOnData scoping (setting.renderTree (cursor.appendAll tokens).settle.tree)
      (inTurn (setting.renderTree cursor.settle.tree) (setting.renderTokens tokens)) := by
  obtain ⟨own, children, rfl | ⟨trailing, rfl⟩⟩ := hwithin.at_root hopen
  · have hboth := agree_leaf scoping hpatient (own ++ tokens)
    rw [renderTokens_append] at hboth
    have hown := (agree_leaf scoping hpatient own).symm
    exact hboth.trans (agree_inTurn hown (keeps_renderTokens own) (.refl _))
  · have hforest : ∀ last : List (Token .interpreted),
        AgreeOnData scoping (setting.renderForest [.node none last []])
          (setting.renderTokens last) := by
      intro last
      rw [renderForest_cons, renderForest, inTurn_nil]
      exact agree_leaf scoping hpatient last
    -- the root without its last node stands in front, on both sides
    have hfront : ∀ last : List (Token .interpreted),
        AgreeOnData scoping
          (setting.renderTree (LoopTree.Branch.adoptAll ⟨none, own, children⟩
            [.node none last []]).tree)
          (inTurn (setting.renderTree (.node none own children)) (setting.renderTokens last)) :=
      fun last => (agree_adoptAll hpatient ⟨none, own, children⟩ rfl _).trans
        (agree_inTurn (.refl _) (keeps_onData_renderTree _) (hforest last))
    have hboth := hfront (trailing ++ tokens)
    rw [renderTokens_append, ← inTurn_assoc] at hboth
    refine hboth.trans (agree_inTurn (hfront trailing).symm ?_ (.refl _))
    exact keeps_inTurn (keeps_onData_renderTree _) (keeps_renderTokens trailing)

/-- Behind a template that leaves no loop open another one is rendered as if it stood
alone. -/
theorem agree_renderTree_append (setting : Setting σ) (scoping : Scoping)
    (hpatient : setting.listener.Patient) {first : List (Token .interpreted)}
    (hopen : openLoops first = []) (second : List (Token .interpreted)) :
    AgreeOnData scoping (setting.renderTree (LoopTree.build (first ++ second)))
      (inTurn (setting.renderTree (LoopTree.build first))
        (setting.renderTree (LoopTree.build second))) := by
  have hwithin := LoopTree.Cursor.within_start.foldl first
  have hfinish : LoopTree.build first = (first.foldl LoopTree.Cursor.step .start).settle.tree :=
    LoopTree.Cursor.finish_of_outer (hwithin.outer_eq_nil hopen)
  obtain ⟨tokens, children', hsecond, hboth⟩ := LoopTree.build_append hopen second
  have hjoined : AgreeOnData scoping (setting.renderTree (LoopTree.build (first ++ second)))
      (inTurn (setting.renderTree
          ((first.foldl LoopTree.Cursor.step .start).appendAll tokens).settle.tree)
        (setting.renderForest children')) := by
    rw [hboth]
    exact agree_adoptAll hpatient _ (hwithin.loop_eq_none hopen tokens) children'
  have hfront := agree_appendAll scoping hpatient hwithin hopen tokens
  have hbehind := (agree_loopless scoping hpatient tokens children').symm
  rw [← hsecond] at hbehind
  rw [hfinish]
  refine hjoined.trans ((agree_inTurn hfront (keeps_onData_renderTree _) (.refl _)).trans ?_)
  rw [inTurn_assoc]
  exact agree_inTurn (.refl _) (keeps_onData_renderTree _) hbehind

end Setting

/-- A template in which no loop is open at the end composes with every template behind
it, balanced or not, whatever the scoping, the parameters, the arguments and the data: the
output of both together is that of the first and then that of the second, rendered over
the data that the first leaves; the anomalies are those of the two in that order, and the
data that are left are those that the second leaves. -/
theorem renders_append {first : List (Token .interpreted)} (hopen : openLoops first = [])
    (second : List (Token .interpreted)) (name : Text) (parameters : List Text)
    (arguments : List Value)
    (scoping : Scoping) (data : Frame) :
    ∃ early anomalies data' late anomalies' data'',
      (⟨name, parameters, first⟩ : Macro).Renders arguments scoping data early anomalies data' ∧
      (⟨name, parameters, second⟩ : Macro).Renders arguments scoping data' late anomalies' data'' ∧
      (⟨name, parameters, first ++ second⟩ : Macro).Renders arguments scoping data
        (early ++ late) (anomalies ++ anomalies') data'' := by
  have hpatient : Listener.recording.Patient := fun _ heard => ⟨_, rfl⟩
  obtain ⟨early, anomalies, data', hfirst⟩ :=
    exists_renders ⟨name, parameters, first⟩ arguments scoping data
  obtain ⟨late, anomalies', data'', hsecond⟩ :=
    exists_renders ⟨name, parameters, second⟩ arguments scoping data'
  refine ⟨early, anomalies, data', late, anomalies', data'', hfirst, hsecond, ?_⟩
  have hagree := Setting.agree_renderTree_append ⟨parameters, arguments, .recording⟩ scoping
    hpatient hopen second ⟨.ofData scoping data, []⟩ ⟨data, rfl⟩
  have hearly := renders_iff.mp hfirst
  have hlate := hsecond _ .recording anomalies
  rw [Listener.hearAll_recording] at hlate
  rw [Macro.render] at hearly hlate
  rw [renders_iff, Macro.render, hagree, Setting.inTurn, bind_apply, hearly]
  simp only [bind_apply, hlate]
  rfl

/-- The loop of the first template is ended twice; the second one reads what it bound and
leaves its own loop open. Nothing is bound to the names behind the loops. -/
theorem renders_append_overclosed :
    let row (value : Int) : Value := .record [("a".toList, .integer value)]
    let data : Frame := [("A".toList, .list [row 1, row 2])]
    let data' : Frame := data ++ [("p".toList, row 2)]
    let first : List (Token .interpreted) :=
      [.loop ⟨"{{for p of A}}".toList, none, some "p".toList, "A".toList⟩,
        .member "{{p.a}}".toList "p".toList "a".toList, .endLoop "{{/for}}".toList,
        .reference "{{y}}".toList "y".toList, .endLoop "{{/for}}".toList, .plain ";".toList]
    let second : List (Token .interpreted) :=
      [.member "{{p.a}}".toList "p".toList "a".toList, .reference "{{z}}".toList "z".toList,
        .loop ⟨"{{for q of A}}".toList, none, some "q".toList, "A".toList⟩,
        .member "{{q.a}}".toList "q".toList "a".toList]
    openLoops first = [] ∧
      (⟨[], [], first⟩ : Macro).Renders [] .flat data "12;".toList
        [.unresolvedName "y".toList] data' ∧
      (⟨[], [], first ++ second⟩ : Macro).Renders [] .flat data "12;212".toList
        [.unresolvedName "y".toList, .unresolvedName "z".toList]
        (data' ++ [("q".toList, row 2)]) := by
  intro row data data' first second
  have hopen : openLoops first = [] := rfl
  have hfirst : (⟨[], [], first⟩ : Macro).Renders [] .flat data "12;".toList
      [.unresolvedName "y".toList] data' := renders_iff.mpr rfl
  have hsecond : (⟨[], [], second⟩ : Macro).Renders [] .flat data' "212".toList
      [.unresolvedName "z".toList] (data' ++ [("q".toList, row 2)]) := renders_iff.mpr rfl
  refine ⟨hopen, hfirst, ?_⟩
  obtain ⟨early, anomalies, left, late, anomalies', data'', hearly, hlate, hboth⟩ :=
    renders_append hopen second [] [] [] .flat data
  obtain ⟨rfl, rfl, rfl⟩ := hfirst.unique hearly
  obtain ⟨rfl, rfl, rfl⟩ := hsecond.unique hlate
  exact hboth

end CommentMacro.Template
