import CommentMacro.Proofs.Template.Abreast
import CommentMacro.Proofs.Template.Hearing
import CommentMacro.Proofs.Template.Stretches

/-!
# Hygienic templates do not depend on the scoping

A template is hygienic if its loops bind no name twice, if the names that they bind are
read inside their loops only, and if no text of the data or of an argument is such a
name. With such a template both scopings give the same output and the same anomalies
(`render_hygienic`).

The two renderings are compared on the way through the loop tree. Some names are hidden,
those that were bound by loops which are behind; the one frame of flat scoping and the
frames of nested scoping give all other names the same values (`Simulates`).
-/

namespace CommentMacro

namespace Template

/-! ## The names that loops bind, and where names are read -/

def Loop.names (head : Loop) : List Text :=
  head.key.toList ++ head.value.toList

def boundBy : Option Loop → List Text
  | none => []
  | some head => head.names

@[simp] theorem boundBy_none : boundBy none = [] :=
  rfl

@[simp] theorem boundBy_some (head : Loop) : boundBy (some head) = head.names :=
  rfl

theorem mem_boundBy {loop : Option Loop} {head : Loop} (hhead : head ∈ loop)
    {name : Option Text} (hname : name = head.key ∨ name = head.value) :
    ∀ n ∈ name, n ∈ boundBy loop := by
  intro n hmem
  obtain rfl := hhead
  rw [boundBy_some, Loop.names, List.mem_append, Option.mem_toList, Option.mem_toList]
  rcases hname with rfl | rfl
  · exact .inl hmem
  · exact .inr hmem

def boundNames : List (Token .interpreted) → List Text
  | [] => []
  | .loop head :: tokens => head.names ++ boundNames tokens
  | _ :: tokens => boundNames tokens

namespace LoopTree

/-- The names that are bound inside a node, its own loop included. -/
def bound (tree : LoopTree .interpreted) : List Text :=
  tree.preorder.flatMap fun stretch => boundBy stretch.loop

def boundAll (trees : List (LoopTree .interpreted)) : List Text :=
  (preorderAll trees).flatMap fun stretch => boundBy stretch.loop

mutual

/-- The names that are read inside a node, each with the names that are bound by the
loops around it. The table of a loop counts as inside of the loop. -/
def readings (around : List Text) : LoopTree .interpreted → List (Text × List Text)
  | .node loop tokens children =>
    let inside := around ++ boundBy loop
    (loop.toList.map Loop.table ++ tokens.filterMap Token.name?).map (·, inside) ++
      readingsAll inside children

def readingsAll (around : List Text) : List (LoopTree .interpreted) → List (Text × List Text)
  | [] => []
  | tree :: trees => tree.readings around ++ readingsAll around trees

end

theorem bound_node (loop : Option Loop) (tokens : List (Token .interpreted))
    (children : List (LoopTree .interpreted)) :
    (node loop tokens children).bound = boundBy loop ++ boundAll children := by
  rw [bound, preorder, List.flatMap_cons, boundAll]

theorem boundAll_cons (tree : LoopTree .interpreted) (trees : List (LoopTree .interpreted)) :
    boundAll (tree :: trees) = tree.bound ++ boundAll trees := by
  rw [boundAll, preorderAll, List.flatMap_append, bound, boundAll]

/-- The loops of the tree are those of the template. -/
theorem bound_build (tokens : List (Token .interpreted)) :
    (build tokens).bound = boundNames tokens := by
  have hfrom : ∀ (tokens before : List (Token .interpreted)) (loop : Option Loop),
      (stretchesFrom loop before tokens).flatMap (fun stretch => boundBy stretch.loop) =
        boundBy loop ++ boundNames tokens := by
    intro tokens
    induction tokens with
    | nil => simp [stretchesFrom, boundNames]
    | cons token tokens ih =>
        intro before loop
        cases token <;> simp [stretchesFrom, boundNames, ih]
  rw [bound, preorder_build, stretches, hfrom]
  rfl

end LoopTree

/-- A template that does not depend on the scoping, with its arguments and the data. The
data may bind the names of loops as well. -/
structure Hygienic (definition : Macro) (arguments : List Value) (data : Frame) : Prop where
  bound_once : (boundNames definition.tokens).Nodup
  arguments_avoid : ∀ value ∈ arguments, value.Every (· ∉ boundNames definition.tokens)
  data_avoid : ∀ field ∈ data, field.2.Every (· ∉ boundNames definition.tokens)
  read_inside : ∀ reading ∈ (LoopTree.build definition.tokens).readings [],
    reading.1 ∈ boundNames definition.tokens → reading.1 ∈ reading.2

namespace Setting

variable {σ : Type} {setting : Setting σ} {bound hidden hidden' around own below : List Text}
  {frames : List Frame} {flat nested : Scope}

/-! ## One frame against many -/

/-- A scope with flat scoping gives all names that are not hidden the values that they
have in a scope with nested scoping and the given frames. -/
structure Simulates (bound hidden : List Text) (frames : List Frame) (flat nested : Scope) :
    Prop where
  flat_eq : ∃ data, flat = .ofData .flat data
  nested_eq : nested = ⟨.nested, frames⟩
  find_eq : ∀ name, name ∉ hidden → nested.find? name = flat.find? name
  avoids : ∀ name value, flat.find? name = some value → value.Every (· ∉ bound)

/-- One level deeper, where the first frame binds only the names of a loop. -/
def Inside (bound hidden own : List Text) (frames : List Frame) (flat nested : Scope) : Prop :=
  ∃ frame : { frame : Frame // ∀ name, name ∉ own → Bindings.get? name frame = none },
    Simulates bound hidden (frame.1 :: frames) flat nested

theorem simulates_ofData {data : Frame} (h : ∀ field ∈ data, field.2.Every (· ∉ bound)) :
    Simulates bound [] [data] (.ofData .flat data) (.ofData .nested data) := by
  refine ⟨⟨data, rfl⟩, rfl, fun name _ => rfl, fun name value hfind => ?_⟩
  have hget : Bindings.get? name data = some value := by
    simpa [Scope.find?, Scope.ofData] using hfind
  exact h _ (Bindings.mem_of_get? hget)

/-- More names may be hidden. -/
theorem Simulates.mono (h : Simulates bound hidden frames flat nested)
    (hsubset : hidden ⊆ hidden') : Simulates bound hidden' frames flat nested :=
  { h with find_eq := fun name hname => h.find_eq name fun hmem => hname (hsubset hmem) }

theorem Simulates.enter (h : Simulates bound hidden frames flat nested) (own : List Text) :
    Inside bound hidden own frames flat.enter nested.enter := by
  obtain ⟨⟨data, rfl⟩, rfl, hfind, havoids⟩ := h
  exact ⟨⟨[], fun _ _ => rfl⟩, ⟨data, rfl⟩, rfl, hfind, havoids⟩

/-- What the loop that is left has bound is hidden from then on. -/
theorem Inside.leave (h : Inside bound hidden own frames flat nested) :
    Simulates bound (hidden ++ own) frames flat.leave nested.leave := by
  obtain ⟨⟨frame, hframe⟩, ⟨data, rfl⟩, rfl, hfind, havoids⟩ := h
  refine ⟨⟨data, rfl⟩, rfl, fun name hname => ?_, havoids⟩
  rw [List.mem_append, not_or] at hname
  have hname' := hfind name hname.1
  simp only [Scope.find?, List.findSome?_cons, hframe name hname.2] at hname'
  exact hname'

/-- A loop binds its names in both scopes. -/
theorem Inside.bind (h : Inside bound hidden own frames flat nested) {name : Option Text}
    (hname : ∀ n ∈ name, n ∈ own) {value : Value} (hvalue : value.Every (· ∉ bound)) :
    Inside bound hidden own frames (flat.bind name value) (nested.bind name value) := by
  obtain ⟨⟨frame, hframe⟩, ⟨data, rfl⟩, rfl, hfind, havoids⟩ := h
  cases name with
  | none => exact ⟨⟨frame, hframe⟩, ⟨data, rfl⟩, rfl, hfind, havoids⟩
  | some name =>
      have hflat : (Scope.ofData .flat data).frames ≠ [] := List.cons_ne_nil _ _
      have hnested : (⟨.nested, frame :: frames⟩ : Scope).frames ≠ [] := List.cons_ne_nil _ _
      refine ⟨⟨frame.insert name value, fun other hother => ?_⟩, ⟨_, rfl⟩, rfl,
        fun other hother => ?_, fun other found hfound => ?_⟩
      · have hne : other ≠ name := fun heq => hother (heq ▸ hname name rfl)
        rw [Bindings.get?_insert_of_ne hne, hframe other hother]
      · by_cases heq : other = name
        · subst heq
          rw [Scope.find?_bind_self _ _ _ hflat, Scope.find?_bind_self _ _ _ hnested]
        · rw [Scope.find?_bind_of_ne _ heq, Scope.find?_bind_of_ne _ heq, hfind other hother]
      · by_cases heq : other = name
        · subst heq
          rw [Scope.find?_bind_self _ _ _ hflat] at hfound
          exact Option.some.inj hfound ▸ hvalue
        · rw [Scope.find?_bind_of_ne _ heq] at hfound
          exact havoids other found hfound

/-- Whoever reads no hidden name reads the same in both scopes. -/
theorem abreast_of_simulates {scopes : Scope → Scope → Prop}
    (harguments : ∀ value ∈ setting.arguments, value.Every (· ∉ bound)) (hhidden : hidden ⊆ bound)
    (hscopes : ∀ flat nested, scopes flat nested →
      ∃ frames, Simulates bound hidden frames flat nested) :
    Abreast id setting (· ∉ hidden) (· ∉ bound) scopes where
  find_eq h hname := by
    obtain ⟨frames, h⟩ := hscopes _ _ h
    exact h.find_eq _ hname
  known_found h hfind := by
    obtain ⟨frames, h⟩ := hscopes _ _ h
    exact h.avoids _ _ hfind
  known_argument := harguments
  readable_known h hmem := h (hhidden hmem)
  spell_known _ := rfl
  spell_literal _ := rfl
  spell_append _ _ := rfl

/-! ## The way through the tree -/

/-- Where a rendering stands: some names are hidden, the loops around have bound some,
and some are bound further inside; all of them differ. -/
structure Placed (bound hidden around inner : List Text) : Prop where
  nodup : (hidden ++ (around ++ inner)).Nodup
  hidden_subset : hidden ⊆ bound
  inner_subset : inner ⊆ bound

/-- A name that is read inside its loop only is not hidden. -/
theorem Placed.not_mem_hidden (h : Placed bound hidden around (own ++ below)) {name : Text}
    (hread : name ∈ bound → name ∈ around ++ own) : name ∉ hidden := by
  intro hmem
  have hnodup := h.nodup
  rw [← List.append_assoc around] at hnodup
  have hdisjoint := (List.nodup_append.mp hnodup).2.2 name hmem name
  exact hdisjoint (List.mem_append_left _ (hread (h.hidden_subset hmem))) rfl

theorem Placed.inside (h : Placed bound hidden around (own ++ below)) :
    Placed bound hidden (around ++ own) below where
  nodup := by
    rw [List.append_assoc around]
    exact h.nodup
  hidden_subset := h.hidden_subset
  inner_subset := fun _ hmem => h.inner_subset (List.mem_append_right _ hmem)

theorem Placed.first (h : Placed bound hidden around (own ++ below)) :
    Placed bound hidden around own where
  nodup := h.nodup.sublist
    ((List.Sublist.refl _).append ((List.Sublist.refl _).append (List.sublist_append_left _ _)))
  hidden_subset := h.hidden_subset
  inner_subset := fun _ hmem => h.inner_subset (List.mem_append_left _ hmem)

/-- What is behind is hidden. -/
theorem Placed.behind (h : Placed bound hidden around (own ++ below)) :
    Placed bound (hidden ++ own) around below where
  nodup := by
    refine (List.Perm.nodup_iff ?_).mp h.nodup
    rw [List.append_assoc]
    refine List.Perm.append_left hidden ?_
    rw [← List.append_assoc, ← List.append_assoc]
    exact List.perm_append_comm.append_right below
  hidden_subset := List.append_subset.mpr
    ⟨h.hidden_subset, fun _ hmem => h.inner_subset (List.mem_append_left _ hmem)⟩
  inner_subset := fun _ hmem => h.inner_subset (List.mem_append_right _ hmem)

mutual

/-- The output and the anomalies of a node are the same, and the names that it bound
are hidden behind it. -/
theorem related_renderTree (harguments : ∀ value ∈ setting.arguments, value.Every (· ∉ bound)) :
    ∀ (tree : LoopTree .interpreted) (hidden around : List Text) (frames : List Frame),
      Placed bound hidden around tree.bound →
      (∀ reading ∈ tree.readings around, reading.1 ∈ bound → reading.1 ∈ reading.2) →
      Related (Alongside (Simulates bound hidden frames)) (fun text text' => text' = text)
        (Alongside (Simulates bound (hidden ++ tree.bound) frames))
        (setting.renderTree tree) (setting.renderTree tree)
  | .node loop tokens children, hidden, around, frames, hplaced, hreadings => by
      rw [LoopTree.bound_node] at hplaced ⊢
      simp only [LoopTree.readings, List.forall_mem_append, List.forall_mem_map] at hreadings
      obtain ⟨⟨htables, htokens⟩, hbelow⟩ := hreadings
      have hhead : ∀ head ∈ loop, head.table ∉ hidden := fun head hmem =>
        hplaced.not_mem_hidden (htables _ (by simpa using hmem))
      have hnames : ∀ token ∈ tokens, ∀ name ∈ token.name?, name ∉ hidden :=
        fun token hmem name hname =>
          hplaced.not_mem_hidden (htokens _ (List.mem_filterMap.mpr ⟨token, hmem, hname⟩))
      have hbefore : Abreast id setting (· ∉ hidden) (· ∉ bound) (Simulates bound hidden frames) :=
        abreast_of_simulates harguments hplaced.hidden_subset fun _ _ h => ⟨frames, h⟩
      have hinside : Abreast id setting (· ∉ hidden) (· ∉ bound)
          (Inside bound hidden (boundBy loop) frames) :=
        abreast_of_simulates harguments hplaced.hidden_subset fun _ _ ⟨frame, h⟩ => ⟨_, h⟩
      have hown := hinside.renderOwn tokens loop hnames
        fun _ _ name value ⟨head, hhead, hname⟩ hvalue h =>
          h.bind (mem_boundBy hhead hname) hvalue
      simp only [Token.respell_id, List.map_id, id] at hown
      have hhidden : hidden ++ LoopTree.boundAll children ++ boundBy loop ⊆
          hidden ++ (boundBy loop ++ LoopTree.boundAll children) := by
        rw [List.append_assoc]
        exact (List.perm_append_comm.append_left hidden).subset
      rw [renderTree]
      refine (hbefore.rowsOf loop hhead).bind fun rows rows' hrows => ?_
      obtain ⟨rfl, hgood⟩ := hrows
      refine related_atLevel (?_ : Related (Alongside (Inside bound hidden (boundBy loop) frames)) _
        (Alongside (Inside bound (hidden ++ LoopTree.boundAll children) (boundBy loop) frames)) _ _)
        (fun _ _ h => h.enter _) fun _ _ h => h.leave.mono hhidden
      refine (hown rows' hgood).bind fun text text' htext => ?_
      refine (related_exists fun frame => related_renderForest harguments children hidden _ _
        hplaced.inside hbelow).bind fun later later' hlater => ?_
      exact related_pure (by rw [htext, hlater])

theorem related_renderForest (harguments : ∀ value ∈ setting.arguments, value.Every (· ∉ bound)) :
    ∀ (trees : List (LoopTree .interpreted)) (hidden around : List Text) (frames : List Frame),
      Placed bound hidden around (LoopTree.boundAll trees) →
      (∀ reading ∈ LoopTree.readingsAll around trees,
        reading.1 ∈ bound → reading.1 ∈ reading.2) →
      Related (Alongside (Simulates bound hidden frames)) (fun text text' => text' = text)
        (Alongside (Simulates bound (hidden ++ LoopTree.boundAll trees) frames))
        (setting.renderForest trees) (setting.renderForest trees)
  | [], hidden, around, frames, hplaced, hreadings => by
      rw [renderForest, show LoopTree.boundAll [] = [] from rfl, List.append_nil]
      exact related_pure rfl
  | tree :: trees, hidden, around, frames, hplaced, hreadings => by
      rw [LoopTree.boundAll_cons] at hplaced ⊢
      rw [LoopTree.readingsAll, List.forall_mem_append] at hreadings
      rw [renderForest, ← List.append_assoc]
      refine (related_renderTree harguments tree hidden around frames hplaced.first
        hreadings.1).bind fun first first' hfirst => ?_
      refine (related_renderForest harguments trees _ around frames hplaced.behind
        hreadings.2).bind fun later later' hlater => ?_
      exact related_pure (by rw [hfirst, hlater])

end

end Setting

variable {definition : Macro} {arguments : List Value} {data : Frame}

theorem related_render (h : Hygienic definition arguments data) {σ : Type}
    (listener : Listener σ) :
    Related (Setting.Alongside (Setting.Simulates (boundNames definition.tokens) [] [data]))
      (fun text text' => text' = text)
      (Setting.Alongside (Setting.Simulates (boundNames definition.tokens)
        (boundNames definition.tokens) [data]))
      (definition.render arguments listener) (definition.render arguments listener) := by
  have hbound := LoopTree.bound_build definition.tokens
  have hplaced : Setting.Placed (boundNames definition.tokens) [] []
      (LoopTree.build definition.tokens).bound := by
    rw [hbound]
    exact ⟨h.bound_once, List.nil_subset _, List.Subset.refl _⟩
  have hrelated := @Setting.related_renderTree σ ⟨definition.parameters, arguments, listener⟩ _
    h.arguments_avoid _ [] [] [data] hplaced h.read_inside
  rw [hbound] at hrelated
  exact hrelated

/-- A hygienic template is rendered alike with both scopings: there is one output and
one list of anomalies, which a listener hears in order. -/
theorem render_hygienic (h : Hygienic definition arguments data) :
    ∃ output anomalies, ∀ (σ : Type) (listener : Listener σ) (heard : σ), listener.Patient →
      ∃ heard', listener.hearAll anomalies heard = .ok heard' ∧
        ∀ scoping, ∃ scope, definition.render arguments listener ⟨.ofData scoping data, heard⟩ =
          .ok output ⟨scope, heard'⟩ := by
  obtain ⟨output, flat, anomalies, hflat⟩ :=
    foretold_render definition arguments (.ofData .flat data)
  obtain ⟨output', nested, anomalies', hnested⟩ :=
    foretold_render definition arguments (.ofData .nested data)
  -- what each scoping foretells is read off the record of the anomalies
  obtain ⟨rfl, rfl⟩ : output' = output ∧ anomalies' = anomalies := by
    have hfirst : definition.render arguments .recording ⟨.ofData .flat data, []⟩ =
        .ok output ⟨flat, anomalies⟩ := by
      have := hflat _ Listener.recording []
      rwa [Listener.hearAll_recording] at this
    have hsecond : definition.render arguments .recording ⟨.ofData .nested data, []⟩ =
        .ok output' ⟨nested, anomalies'⟩ := by
      have := hnested _ Listener.recording []
      rwa [Listener.hearAll_recording] at this
    have hrelated := related_render h Listener.recording ⟨.ofData .flat data, []⟩
      ⟨.ofData .nested data, []⟩ ⟨Setting.simulates_ofData h.data_avoid, rfl⟩
    rw [hfirst, hsecond] at hrelated
    obtain ⟨houtput, -, hheard⟩ := hrelated
    exact ⟨houtput, hheard.symm⟩
  refine ⟨output', anomalies', fun σ listener heard hpatient => ?_⟩
  obtain ⟨heard', hheard⟩ := hpatient.exists_hearAll anomalies' heard
  refine ⟨heard', hheard, fun scoping => ?_⟩
  have hfirst := hflat _ listener heard
  have hsecond := hnested _ listener heard
  rw [hheard] at hfirst hsecond
  cases scoping with
  | flat => exact ⟨flat, hfirst⟩
  | nested => exact ⟨nested, hsecond⟩

/-- Two tables, of which one has no rows. -/
def twoTables : Frame :=
  [("A".toList, .list [.record [("a".toList, .integer 1)], .record [("a".toList, .integer 2)]]),
    ("B".toList, .list [])]

def pairs : Macro :=
  ⟨"PAIRS".toList, ["t".toList],
    [.loop ⟨"{{for i, p of t}}".toList, some "i".toList, some "p".toList, "t".toList⟩,
      .reference "{{i}}".toList "i".toList, .member "{{p.a}}".toList "p".toList "a".toList,
      .plain ";".toList,
      .loop ⟨"{{for q of B}}".toList, none, some "q".toList, "B".toList⟩,
      .member "{{q.b}}".toList "q".toList "b".toList,
      .endLoop "{{/for}}".toList,
      .member "{{p.a}}".toList "p".toList "a".toList,
      .endLoop "{{/for}}".toList,
      .count "{{#t}}".toList "t".toList, .reference "{{z}}".toList "z".toList]⟩

/-- The rows of the outer loop come before the inner loop, which has none, and behind it
the last of them is still bound; nothing is bound to the last name. -/
theorem render_hygienic_pairs :
    Hygienic pairs [.text "A".toList] twoTables ∧ Listener.recording.Patient ∧
      ∀ scoping, ∃ scope,
        pairs.render [.text "A".toList] .recording ⟨.ofData scoping twoTables, []⟩ =
          .ok "01;12;22".toList ⟨scope, [.unresolvedName "z".toList]⟩ := by
  have hhygienic : Hygienic pairs [.text "A".toList] twoTables :=
    ⟨by decide, by decide, by decide, by decide⟩
  have hpatient : Listener.recording.Patient := fun _ heard => ⟨_, rfl⟩
  refine ⟨hhygienic, hpatient, ?_⟩
  obtain ⟨output, anomalies, hrender⟩ := render_hygienic hhygienic
  obtain ⟨heard', -, hrender⟩ := hrender _ .recording [] hpatient
  -- one of the scopings tells the output
  have hflat : pairs.render [.text "A".toList] .recording ⟨.ofData .flat twoTables, []⟩ =
      .ok "01;12;22".toList
        ⟨.ofData .flat (twoTables ++
          [("i".toList, .integer 1), ("p".toList, .record [("a".toList, .integer 2)])]),
          [.unresolvedName "z".toList]⟩ := rfl
  obtain ⟨scope, hscope⟩ := hrender .flat
  rw [hflat] at hscope
  obtain ⟨rfl, hmachine⟩ := EStateM.Result.ok.inj hscope
  obtain ⟨-, rfl⟩ := Machine.mk.inj hmachine
  exact hrender

end Template

end CommentMacro
