import CommentMacro.Proofs.Computation
import CommentMacro.Proofs.Template.Shape
import CommentMacro.Template.Render

/-!
# Renderings side by side

A template is rendered twice, over scopes of its own each time, and the second time its
plain text may be spelled in another way. If both scopes give the names that are read
the same values, the outputs differ in their spelling alone and the listener hears the
same (`Abreast`).

What the two scopes have in common and which names may be read is left open; so is what
becomes of the scopes when a loop is entered. If every level keeps what they have in
common there, whole trees are rendered abreast (`LevelsAbreast.renderTree`), also with
two settings and two templates of one shape.
-/

namespace CommentMacro

/-! ## The texts of a value -/

namespace Value

mutual

/-- The texts that occur in a value. The names of fields do not count. -/
def texts : Value → List Text
  | text t => [t]
  | list items => textsOfItems items
  | record fields => textsOfFields fields
  | _ => []

def textsOfItems : List Value → List Text
  | [] => []
  | item :: items => texts item ++ textsOfItems items

def textsOfFields : List (Text × Value) → List Text
  | [] => []
  | (_, value) :: fields => texts value ++ textsOfFields fields

end

def Every (holds : Text → Prop) (value : Value) : Prop :=
  ∀ t ∈ value.texts, holds t

instance (holds : Text → Prop) [DecidablePred holds] (value : Value) :
    Decidable (value.Every holds) :=
  inferInstanceAs (Decidable (∀ t ∈ value.texts, holds t))

variable {holds : Text → Prop}

@[simp] theorem every_text {t : Text} : (text t).Every holds ↔ holds t := by
  simp [Every, texts]

@[simp] theorem every_integer (n : Int) : (integer n).Every holds := by
  simp [Every, texts]

@[simp] theorem every_absent : absent.Every holds := by
  simp [Every, texts]

theorem every_list {items : List Value} :
    (list items).Every holds ↔ ∀ item ∈ items, item.Every holds := by
  induction items with
  | nil => simp [Every, texts, textsOfItems]
  | cons first items ih =>
      rw [List.forall_mem_cons, ← ih]
      simp only [Every, texts, textsOfItems, List.forall_mem_append]

theorem every_record {fields : List (Text × Value)} :
    (record fields).Every holds ↔ ∀ field ∈ fields, field.2.Every holds := by
  induction fields with
  | nil => simp [Every, texts, textsOfFields]
  | cons first fields ih =>
      rw [List.forall_mem_cons, ← ih]
      simp only [Every, texts, textsOfFields, List.forall_mem_append]

end Value

namespace Template

/-- A token whose plain text is spelled in another way. White space is plain text too. -/
def Token.respell {stage : Stage} (spell : Text → Text) : Token stage → Token stage
  | .plain text => .plain (spell text)
  | .blank text => .blank (spell text)
  | token => token

@[simp] theorem Token.respell_id {stage : Stage} :
    Token.respell id = (id : Token stage → Token stage) := by
  funext token
  cases token <;> rfl

def Token.name? : Token .interpreted → Option Text
  | .member _ name _ => some name
  | .count _ name => some name
  | .reference _ name => some name
  | _ => none

namespace Setting

variable {σ : Type}

/-- Machines that have heard the same and of whose scopes something holds. -/
def Alongside (scopes : Scope → Scope → Prop) (first second : Machine σ) : Prop :=
  scopes first.scope second.scope ∧ first.heard = second.heard

/-- What two renderings side by side rely on: the scopes give the same values to the
names that may be read, and all texts in these values are known to be such that they are
spelled in one way only and may be read as the name of a table. -/
structure Abreast (spell : Text → Text) (setting : Setting σ) (readable known : Text → Prop)
    (scopes : Scope → Scope → Prop) : Prop where
  find_eq : ∀ {first second name}, scopes first second → readable name →
    second.find? name = first.find? name
  known_found : ∀ {first second name value}, scopes first second →
    first.find? name = some value → value.Every known
  known_argument : ∀ value ∈ setting.arguments, value.Every known
  readable_known : ∀ {t}, known t → readable t
  spell_known : ∀ {t}, known t → spell t = t
  spell_literal : ∀ value, spell (Value.literal value) = Value.literal value
  spell_append : ∀ first second, spell (first ++ second) = spell first ++ spell second

/-- Renderings that do the like and keep what holds of the scopes. -/
abbrev Alike {α : Type} (scopes : Scope → Scope → Prop) (results : α → α → Prop)
    (first second : Rendering σ α) : Prop :=
  Related (Alongside scopes) results (Alongside scopes) first second

variable {spell : Text → Text} {setting : Setting σ} {readable known : Text → Prop}
  {scopes : Scope → Scope → Prop}

theorem alike_report (anomaly : Anomaly) :
    Alike scopes (fun _ _ => True) (setting.report anomaly) (setting.report anomaly) := by
  rintro ⟨first, heard⟩ ⟨second, _⟩ ⟨hscopes, rfl⟩
  simp only [report]
  cases setting.listener.hear anomaly heard with
  | ok heard' => exact ⟨trivial, hscopes, rfl⟩
  | error refused => rfl

/-! ## What stands in a node -/

section

variable {τ : Type} {setting' : Setting τ} {machines : Machine σ → Machine τ → Prop}
  {good : Value → Prop} {tokens tokens' : List (Token .interpreted)}
  (happend : ∀ first second, spell (first ++ second) = spell first ++ spell second)
include happend

theorem spell_nil_of_append : spell [] = [] := by
  have hlength := congrArg List.length (happend [] [])
  rw [List.append_nil, List.length_append] at hlength
  exact List.length_eq_zero_iff.mp (by omega)

/-- Tokens are rendered side by side if each of them is. -/
theorem related_renderTokens {onToken : Token .interpreted → Token .interpreted}
    (h : ∀ token ∈ tokens, Related machines (fun text text' => text' = spell text) machines
      (setting.renderToken token) (setting'.renderToken (onToken token))) :
    Related machines (fun text text' => text' = spell text) machines
      (setting.renderTokens tokens) (setting'.renderTokens (tokens.map onToken)) := by
  induction tokens with
  | nil => exact related_pure (spell_nil_of_append happend).symm
  | cons token tokens ih =>
      rw [List.forall_mem_cons] at h
      refine h.1.bind fun first first' hfirst => ?_
      refine (ih h.2).bind fun later later' hlater => ?_
      exact related_pure (by rw [hfirst, hlater, happend])

/-- So are the rows of a loop, if the names of the loop may be bound to them. -/
theorem related_renderRows {head head' : Loop}
    (htokens : Related machines (fun text text' => text' = spell text) machines
      (setting.renderTokens tokens) (setting'.renderTokens tokens'))
    (hbind : ∀ index row, good row → Related machines (fun _ _ => True) machines
      (bindRow head index row : Rendering σ Unit) (bindRow head' index row : Rendering τ Unit))
    (index : Nat) (rows : List Value) (hrows : ∀ row ∈ rows, good row) :
    Related machines (fun text text' => text' = spell text) machines
      (setting.renderRows head tokens index rows)
      (setting'.renderRows head' tokens' index rows) := by
  induction rows generalizing index with
  | nil => exact related_pure (spell_nil_of_append happend).symm
  | cons row rows ih =>
      rw [List.forall_mem_cons] at hrows
      refine (hbind index row hrows.1).bind fun _ _ _ => ?_
      refine htokens.bind fun first first' hfirst => ?_
      refine (ih (index + 1) hrows.2).bind fun later later' hlater => ?_
      exact related_pure (by rw [hfirst, hlater, happend])

theorem related_renderOwn {loop : Option Loop} {onLoop : Loop → Loop}
    (htokens : Related machines (fun text text' => text' = spell text) machines
      (setting.renderTokens tokens) (setting'.renderTokens tokens'))
    (hbind : ∀ head ∈ loop, ∀ index row, good row → Related machines (fun _ _ => True) machines
      (bindRow head index row : Rendering σ Unit)
      (bindRow (onLoop head) index row : Rendering τ Unit))
    (rows : List Value) (hrows : ∀ row ∈ rows, good row) :
    Related machines (fun text text' => text' = spell text) machines
      (setting.renderOwn tokens rows loop)
      (setting'.renderOwn tokens' rows (loop.map onLoop)) := by
  cases loop with
  | none => exact htokens
  | some head => exact related_renderRows happend htokens (hbind head rfl) 0 rows hrows

end

/-! ## Scopes that give names the same values -/

namespace Abreast

variable (h : Abreast spell setting readable known scopes)
include h

theorem spell_nil : spell [] = [] :=
  spell_nil_of_append h.spell_append

theorem spell_emit {value : Value} (hvalue : value.Every known) :
    spell (emit value) = emit value := by
  cases value with
  | absent => exact h.spell_nil
  | text t => exact h.spell_known (Value.every_text.mp hvalue)
  | _ => exact h.spell_literal _

theorem resolve {name : Text} (hname : readable name) :
    Alike scopes (fun value value' => value' = value ∧ value.Every known) (setting.resolve name)
      (setting.resolve name) := by
  unfold Setting.resolve
  cases setting.parameters.idxOf? name with
  | some position =>
      refine related_pure ⟨rfl, ?_⟩
      rw [List.getD_eq_getElem?_getD]
      cases hargument : setting.arguments[position]? with
      | none => exact Value.every_absent
      | some value => exact h.known_argument value (List.mem_of_getElem? hargument)
  | none =>
      refine related_get.bind fun machine machine' hmachine => ?_
      rw [h.find_eq hmachine.1 hname]
      cases hfind : machine.scope.find? name with
      | some value => exact related_pure ⟨rfl, h.known_found hmachine.1 hfind⟩
      | none =>
          exact (alike_report _).bind fun _ _ _ => related_pure ⟨rfl, Value.every_absent⟩

theorem resolveTable {name : Text} (hname : readable name) :
    Alike scopes (fun value value' => value' = value ∧ value.Every known)
      (setting.resolveTable name) (setting.resolveTable name) := by
  refine (h.resolve hname).bind fun value value' hvalue => ?_
  obtain ⟨rfl, hknown⟩ := hvalue
  cases value' with
  | text inner => exact h.resolve (h.readable_known (Value.every_text.mp hknown))
  | _ => exact related_pure ⟨rfl, hknown⟩

theorem renderMember {name : Text} (hname : readable name) (field : Text) :
    Alike scopes (fun text text' => text' = spell text) (setting.renderMember name field)
      (setting.renderMember name field) := by
  have hmissing : Alike scopes (fun text text' => text' = spell text)
      (do setting.report (.unresolvedName (name ++ '.' :: field)); return [] : Rendering σ Text)
      (do setting.report (.unresolvedName (name ++ '.' :: field)); return []) :=
    (alike_report _).bind fun _ _ _ => related_pure h.spell_nil.symm
  refine (h.resolve hname).bind fun subject subject' hsubject => ?_
  obtain ⟨rfl, hknown⟩ := hsubject
  cases subject' with
  | absent => exact related_pure h.spell_nil.symm
  | record fields =>
      cases hfield : Bindings.get? field fields with
      | some value =>
          have hvalue := Value.every_record.mp hknown _ (Bindings.mem_of_get? hfield)
          simp only [hfield]
          exact related_pure (h.spell_emit hvalue).symm
      | none =>
          simp only [hfield]
          exact hmissing
  | _ => exact hmissing

theorem renderCount {name : Text} (hname : readable name) :
    Alike scopes (fun text text' => text' = spell text) (setting.renderCount name)
      (setting.renderCount name) := by
  refine (h.resolveTable hname).bind fun value value' hvalue => ?_
  obtain ⟨rfl, -⟩ := hvalue
  cases value' with
  | list rows => exact related_pure (h.spell_emit (Value.every_integer rows.length)).symm
  | _ => exact related_pure h.spell_nil.symm

theorem renderToken (token : Token .interpreted) (hname : ∀ name ∈ token.name?, readable name) :
    Alike scopes (fun text text' => text' = spell text) (setting.renderToken token)
      (setting.renderToken (token.respell spell)) := by
  cases token with
  | reference text name =>
      refine (h.resolve (hname name rfl)).bind fun value value' hvalue => ?_
      obtain ⟨rfl, hknown⟩ := hvalue
      exact related_pure (h.spell_emit hknown).symm
  | member text name field => exact h.renderMember (hname name rfl) field
  | count text name => exact h.renderCount (hname name rfl)
  | plain text => exact related_pure rfl
  | blank text => exact related_pure rfl
  | _ => exact related_pure h.spell_nil.symm

theorem renderTokens (tokens : List (Token .interpreted))
    (hnames : ∀ token ∈ tokens, ∀ name ∈ token.name?, readable name) :
    Alike scopes (fun text text' => text' = spell text) (setting.renderTokens tokens)
      (setting.renderTokens (tokens.map (Token.respell spell))) :=
  related_renderTokens h.spell_append fun token hmem => h.renderToken token (hnames token hmem)

theorem rowsOf (loop : Option Loop) (hnames : ∀ head ∈ loop, readable head.table) :
    Alike scopes (fun rows rows' => rows' = rows ∧ ∀ row ∈ rows, row.Every known)
      (setting.rowsOf loop) (setting.rowsOf loop) := by
  cases loop with
  | none => exact related_pure ⟨rfl, by simp⟩
  | some head =>
      refine (h.resolveTable (hnames head rfl)).bind fun value value' hvalue => ?_
      obtain ⟨rfl, hknown⟩ := hvalue
      refine related_pure ⟨rfl, ?_⟩
      cases value' with
      | list items => exact Value.every_list.mp hknown
      | _ => simp [Value.rows]

/-- What stands in a node, if the scopes may be bound to the names of its loop. -/
theorem renderOwn (tokens : List (Token .interpreted)) (loop : Option Loop)
    (hnames : ∀ token ∈ tokens, ∀ name ∈ token.name?, readable name)
    (hbind : ∀ first second name value, (∃ head ∈ loop, name = head.key ∨ name = head.value) →
      value.Every known → scopes first second →
      scopes (first.bind name value) (second.bind name value))
    (rows : List Value) (hrows : ∀ row ∈ rows, row.Every known) :
    Alike scopes (fun text text' => text' = spell text) (setting.renderOwn tokens rows loop)
      (setting.renderOwn (tokens.map (Token.respell spell)) rows loop) := by
  have hrow : ∀ head ∈ loop, ∀ index row, row.Every known →
      Alike scopes (fun _ _ => True) (bindRow head index row : Rendering σ Unit)
        (bindRow head index row) :=
    fun head hhead index row hknown => related_modify fun machine machine' hmachine =>
      ⟨hbind _ _ _ _ ⟨head, hhead, .inr rfl⟩ hknown
        (hbind _ _ _ _ ⟨head, hhead, .inl rfl⟩ (Value.every_integer index) hmachine.1),
        hmachine.2⟩
  have hown : Alike scopes (fun text text' => text' = spell text)
      (setting.renderOwn tokens rows loop)
      (setting.renderOwn (tokens.map (Token.respell spell)) rows (loop.map id)) :=
    related_renderOwn h.spell_append (h.renderTokens tokens hnames) hrow rows hrows
  rwa [Option.map_id] at hown

end Abreast

/-- What the scopes have in common in each of several cases they have in common without
a look at the case. -/
theorem related_exists {α ι : Type} {before after : ι → Scope → Scope → Prop}
    {results : α → α → Prop} {first second : Rendering σ α}
    (h : ∀ i, Related (Alongside (before i)) results (Alongside (after i)) first second) :
    Related (Alongside fun scope scope' => ∃ i, before i scope scope') results
      (Alongside fun scope scope' => ∃ i, after i scope scope') first second := by
  rintro machine machine' ⟨⟨i, hscopes⟩, hheard⟩
  exact (h i machine machine' ⟨hscopes, hheard⟩).mono (fun _ _ => id) fun _ _ hlast =>
    ⟨⟨i, hlast.1⟩, hlast.2⟩

/-! ## Trees -/

/-- One level deeper the machines may have something else in common. -/
theorem related_atLevel_machines {τ α β : Type} {before after inside behind : Machine σ →
    Machine τ → Prop} {results : α → β → Prop} {first : Rendering σ α} {second : Rendering τ β}
    (h : Related inside results behind first second)
    (henter : ∀ machine machine', before machine machine' →
      inside { machine with scope := machine.scope.enter }
        { machine' with scope := machine'.scope.enter })
    (hleave : ∀ machine machine', behind machine machine' →
      after { machine with scope := machine.scope.leave }
        { machine' with scope := machine'.scope.leave }) :
    Related before results after (atLevel first) (atLevel second) := by
  intro machine machine' hmachine
  have hlast := h _ _ (henter machine machine' hmachine)
  obtain ⟨a, c, last, last', hfirst, hsecond, hresults, hbehind⟩ |
    ⟨fault, last, last', hfirst, hsecond⟩ := hlast.ok_or_error
  · simp only [atLevel, hfirst, hsecond]
    exact ⟨hresults, hleave last last' hbehind⟩
  · simp only [atLevel, hfirst, hsecond]
    rfl

/-- One level deeper the scopes may have something else in common. -/
theorem related_atLevel {α : Type} {before after inside behind : Scope → Scope → Prop}
    {results : α → α → Prop} {first second : Rendering σ α}
    (h : Related (Alongside inside) results (Alongside behind) first second)
    (henter : ∀ scope scope', before scope scope' → inside scope.enter scope'.enter)
    (hleave : ∀ scope scope', behind scope scope' → after scope.leave scope'.leave) :
    Related (Alongside before) results (Alongside after) (atLevel first) (atLevel second) :=
  related_atLevel_machines h (fun _ _ hmachine => ⟨henter _ _ hmachine.1, hmachine.2⟩)
    fun _ _ hmachine => ⟨hleave _ _ hmachine.1, hmachine.2⟩

/-- What two renderings of templates of one shape rely on, level by level: the rows of the
loop of a node are the same, what stands in the node is rendered alike for them, and what
the machines have in common at a depth they have in common one level deeper, and have
again when that level is left. -/
structure LevelsAbreast {τ : Type} (spell : Text → Text) (onLoop : Loop → Loop)
    (onToken : Token .interpreted → Token .interpreted) (setting : Setting σ) (setting' : Setting τ)
    (allowed : Stretch .interpreted → Prop) (good : Value → Prop)
    (machines : Nat → Machine σ → Machine τ → Prop) : Prop where
  spell_append : ∀ first second, spell (first ++ second) = spell first ++ spell second
  rows : ∀ {loop tokens} depth, allowed ⟨loop, tokens⟩ →
    Related (machines depth) (fun rows rows' => rows' = rows ∧ ∀ row ∈ rows, good row)
      (machines depth) (setting.rowsOf loop) (setting'.rowsOf (loop.map onLoop))
  own : ∀ {loop tokens rows} depth, allowed ⟨loop, tokens⟩ → (∀ row ∈ rows, good row) →
    Related (machines (depth + 1)) (fun text text' => text' = spell text) (machines (depth + 1))
      (setting.renderOwn tokens rows loop)
      (setting'.renderOwn (tokens.map onToken) rows (loop.map onLoop))
  enter : ∀ {depth machine machine'}, machines depth machine machine' →
    machines (depth + 1) { machine with scope := machine.scope.enter }
      { machine' with scope := machine'.scope.enter }
  leave : ∀ {depth machine machine'}, machines (depth + 1) machine machine' →
    machines depth { machine with scope := machine.scope.leave }
      { machine' with scope := machine'.scope.leave }

namespace LevelsAbreast

variable {τ : Type} {onLoop : Loop → Loop} {onToken : Token .interpreted → Token .interpreted}
  {setting' : Setting τ}
  {allowed : Stretch .interpreted → Prop} {good : Value → Prop}
  {machines : Nat → Machine σ → Machine τ → Prop}
  (h : LevelsAbreast spell onLoop onToken setting setting' allowed good machines)
include h

mutual

theorem renderTree : ∀ (tree : LoopTree .interpreted) (depth : Nat),
    (∀ stretch ∈ tree.preorder, allowed stretch) →
    Related (machines depth) (fun text text' => text' = spell text) (machines depth)
      (setting.renderTree tree) (setting'.renderTree (tree.map onLoop onToken))
  | .node loop tokens children, depth, hallowed => by
      rw [LoopTree.preorder, List.forall_mem_cons] at hallowed
      rw [LoopTree.map, Setting.renderTree, Setting.renderTree]
      refine (h.rows depth hallowed.1).bind fun rows rows' hrows => ?_
      obtain ⟨rfl, hgood⟩ := hrows
      refine related_atLevel_machines (?_ : Related (machines (depth + 1)) _ (machines (depth + 1))
        _ _) (fun _ _ => h.enter) fun _ _ => h.leave
      refine (h.own depth hallowed.1 hgood).bind fun own own' hown => ?_
      refine (renderForest children (depth + 1) hallowed.2).bind fun below below' hbelow => ?_
      exact related_pure (by rw [hown, hbelow, h.spell_append])

theorem renderForest : ∀ (trees : List (LoopTree .interpreted)) (depth : Nat),
    (∀ stretch ∈ LoopTree.preorderAll trees, allowed stretch) →
    Related (machines depth) (fun text text' => text' = spell text) (machines depth)
      (setting.renderForest trees) (setting'.renderForest (LoopTree.mapAll onLoop onToken trees))
  | [], depth, _ => by
      rw [LoopTree.mapAll, Setting.renderForest, Setting.renderForest]
      exact related_pure (spell_nil_of_append h.spell_append).symm
  | tree :: trees, depth, hallowed => by
      rw [LoopTree.preorderAll, List.forall_mem_append] at hallowed
      rw [LoopTree.mapAll, Setting.renderForest, Setting.renderForest]
      refine (renderTree tree depth hallowed.1).bind fun first first' hfirst => ?_
      refine (renderForest trees depth hallowed.2).bind fun later later' hlater => ?_
      exact related_pure (by rw [hfirst, hlater, h.spell_append])

end

end LevelsAbreast

theorem keepsShape_respell (spell : Text → Text) :
    KeepsShape id (Token.respell spell : Token .interpreted → Token .interpreted) where
  loop _ := rfl
  endLoop text := ⟨text, rfl⟩
  leaf token hleaf := by cases token <;> simp_all [Token.respell, Token.isLeaf]

/-- Scopes that give all names the same values at every depth, where names may be bound. -/
theorem levelsAbreast_of_abreast {scopes : Nat → Scope → Scope → Prop}
    (h : ∀ depth, Abreast spell setting (fun _ => True) known (scopes depth))
    (henter : ∀ {depth first second}, scopes depth first second →
      scopes (depth + 1) first.enter second.enter)
    (hleave : ∀ {depth first second}, scopes (depth + 1) first second →
      scopes depth first.leave second.leave)
    (hbind : ∀ {depth first second} (name : Option Text) {value}, value.Every known →
      scopes (depth + 1) first second →
      scopes (depth + 1) (first.bind name value) (second.bind name value)) :
    LevelsAbreast spell id (Token.respell spell) setting setting (fun _ => True)
      (fun row => row.Every known) fun depth => Alongside (scopes depth) where
  spell_append := (h 0).spell_append
  rows {loop _} depth _ := by
    rw [Option.map_id]
    exact (h depth).rowsOf loop fun _ _ => trivial
  own {loop tokens rows} depth _ hrows := by
    rw [Option.map_id]
    exact (h (depth + 1)).renderOwn tokens loop (fun _ _ _ _ => trivial)
      (fun _ _ name value _ hvalue => hbind name hvalue) rows hrows
  enter hmachine := ⟨henter hmachine.1, hmachine.2⟩
  leave hmachine := ⟨hleave hmachine.1, hmachine.2⟩

end Setting

end Template

end CommentMacro
