import CommentMacro.Proofs.Template.Leftovers
import Mathlib.Data.List.Forall2

/-!
# The spelling of a parameter

A parameter of a macro may be spelled in another way, in the list of parameters and
wherever the template reads it, without a change of the output (`renders_rename`). This
takes that no table reference is led to either spelling. For a text that is found in the
place of a table is looked up among the parameters again, so that a parameter which holds
its own name does not stand for the table of that name (`captured_table_name`).
-/

namespace CommentMacro

/-! ## The texts that a table reference can be led to -/

namespace Value

mutual

/-- The texts that a table reference can be led to where it, or a loop, finds a value: the
value itself if it is a text, and the texts among the rows of a list. What stands in a
record does not count. -/
def leads : Value → List Text
  | text t => [t]
  | list items => leadsOfItems items
  | _ => []

def leadsOfItems : List Value → List Text
  | [] => []
  | item :: items => leads item ++ leadsOfItems items

end

def Avoids (names : List Text) (value : Value) : Prop :=
  ∀ t ∈ value.leads, t ∉ names

instance (names : List Text) (value : Value) : Decidable (value.Avoids names) :=
  inferInstanceAs (Decidable (∀ t ∈ value.leads, t ∉ names))

variable {names : List Text}

theorem avoids_text {t : Text} : (text t).Avoids names ↔ t ∉ names := by
  simp [Avoids, leads]

theorem avoids_integer (n : Int) : (integer n).Avoids names := by
  simp [Avoids, leads]

theorem Avoids.row {value : Value} (h : value.Avoids names) :
    ∀ row ∈ value.rows, row.Avoids names := by
  cases value with
  | list items =>
      have hitems : ∀ items : List Value, (∀ t ∈ leadsOfItems items, t ∉ names) →
          ∀ row ∈ items, row.Avoids names := by
        intro items
        induction items with
        | nil => simp
        | cons item items ih =>
            intro hleads
            rw [leadsOfItems, List.forall_mem_append] at hleads
            exact List.forall_mem_cons.mpr ⟨hleads.1, ih hleads.2⟩
      exact hitems items h
  | _ => simp [rows]

end Value

namespace Template

/-! ## Another spelling -/

def rename (p q name : Text) : Text :=
  if name = p then q else name

def Loop.rename (p q : Text) (head : Loop) : Loop :=
  { head with table := Template.rename p q head.table }

/-- A token that reads a name in another spelling. -/
def Token.rename (p q : Text) : Token .interpreted → Token .interpreted
  | .loop head => .loop (head.rename p q)
  | .member text name field => .member text (Template.rename p q name) field
  | .count text name => .count text (Template.rename p q name)
  | .reference text name => .reference text (Template.rename p q name)
  | token => token

/-- A macro whose parameter `p` is spelled `q`, also where the template reads it. -/
def Macro.rename (p q : Text) (definition : Macro) : Macro :=
  { definition with
    parameters := definition.parameters.map (Template.rename p q)
    tokens := definition.tokens.map (Token.rename p q) }

/-- The name that a token reads: the table if it is the head of a loop. -/
def Token.reads? : Token .interpreted → Option Text
  | .loop head => some head.table
  | token => token.name?

/-- The name that a token reads as that of a table. -/
def Token.table? : Token .interpreted → Option Text
  | .loop head => some head.table
  | .count _ name => some name
  | _ => none

def tableNames (tokens : List (Token .interpreted)) : List Text :=
  tokens.filterMap Token.table?

/-- No table reference of a template is led to one of the names: neither by the argument
or the field of the data that it finds first, nor by a row of some list. -/
structure Uncaptured (definition : Macro) (arguments : List Value) (data : Frame)
    (names : List Text) : Prop where
  argument : ∀ table ∈ tableNames definition.tokens,
    ∀ position ∈ definition.parameters.idxOf? table,
      ∀ value ∈ arguments[position]?, value.Avoids names
  argument_row : ∀ value ∈ arguments, ∀ row ∈ value.rows, row.Avoids names
  field : ∀ field ∈ data, field.1 ∈ tableNames definition.tokens → field.2.Avoids names
  field_row : ∀ field ∈ data, ∀ row ∈ field.2.rows, row.Avoids names

/-- An anomaly told in the other spelling: it may be about a member of the parameter. -/
def Told (p q : Text) (anomaly anomaly' : Anomaly) : Prop :=
  anomaly' = anomaly ∨ ∃ field, anomaly = .unresolvedName (p ++ '.' :: field) ∧
    anomaly' = .unresolvedName (q ++ '.' :: field)

variable {p q name : Text} {definition : Macro} {arguments : List Value} {data : Frame}

theorem rename_self : rename p q p = q :=
  if_pos rfl

theorem rename_of_ne (h : name ≠ p) : rename p q name = name :=
  if_neg h

theorem rename_inj {other : Text} (hname : name ≠ q) (hother : other ≠ q) :
    rename p q name = rename p q other ↔ name = other := by
  unfold rename
  split <;> split <;> simp_all [eq_comm]

/-- A parameter has its place also in the other spelling. -/
theorem idxOf?_map_rename {parameters : List Text} (hfresh : q ∉ parameters) (hname : name ≠ q) :
    (parameters.map (rename p q)).idxOf? (rename p q name) = parameters.idxOf? name := by
  induction parameters with
  | nil => rfl
  | cons first parameters ih =>
      rw [List.mem_cons, not_or] at hfresh
      have hhead : (rename p q first == rename p q name) = (first == name) := by
        rw [Bool.eq_iff_iff, beq_iff_eq, beq_iff_eq, rename_inj (Ne.symm hfresh.1) hname]
      rw [List.map_cons, List.idxOf?_cons, List.idxOf?_cons, hhead, ih hfresh.2]

theorem told_member (p q name field : Text) :
    Told p q (.unresolvedName (name ++ '.' :: field))
      (.unresolvedName (rename p q name ++ '.' :: field)) := by
  by_cases h : name = p
  · subst h
    rw [rename_self]
    exact .inr ⟨field, rfl, rfl⟩
  · rw [rename_of_ne h]
    exact .inl rfl

theorem keepsShape_rename (p q : Text) : KeepsShape (Loop.rename p q) (Token.rename p q) where
  loop _ := rfl
  endLoop text := ⟨text, rfl⟩
  leaf token hleaf := by cases token <;> simp_all [Token.rename, Token.isLeaf]

/-! ## Both spellings side by side -/

/-- What is known of the value that a name stands for: its rows avoid the names, and so
does the value itself if the name is read as that of a table. -/
def Sound (tables names : List Text) (name : Text) (value : Value) : Prop :=
  (∀ row ∈ value.rows, row.Avoids names) ∧ (name ∈ tables → value.Avoids names)

theorem Sound.of_avoids {tables names : List Text} {value : Value} (h : value.Avoids names)
    (name : Text) : Sound tables names name value :=
  ⟨h.row, fun _ => h⟩

/-- Both spellings have led to the same scope, and to the same anomalies but for the
spelling. -/
structure InStep (definition : Macro) (p q : Text) (first second : Machine (List Anomaly)) :
    Prop where
  scope_eq : second.scope = first.scope
  sound : first.scope.Everywhere (Sound (tableNames definition.tokens) [p, q])
  told : List.Forall₂ (Told p q) first.heard second.heard

namespace Setting

/-- Renderings of both spellings that give results of which something holds. -/
abbrev RelatedSpellings (definition : Macro) (p q : Text) {α : Type} (results : α → α → Prop)
    (first second : Rendering (List Anomaly) α) : Prop :=
  Related (InStep definition p q) results (InStep definition p q) first second

variable (hparameter : p ∈ definition.parameters) (hfresh : q ∉ definition.parameters)
  (h : Uncaptured definition arguments data [p, q])

theorem related_report {anomaly anomaly' : Anomaly} (htold : Told p q anomaly anomaly')
    (parameters parameters' : List Text) :
    RelatedSpellings definition p q (fun _ _ => True)
      (report ⟨parameters, arguments, .recording⟩ anomaly)
      (report ⟨parameters', arguments, .recording⟩ anomaly') := by
  rintro ⟨scope, heard⟩ ⟨_, heard'⟩ ⟨rfl, hsound, hheard⟩
  refine ⟨trivial, rfl, hsound, ?_⟩
  exact List.rel_append hheard (.cons htold .nil)

include hparameter hfresh h

theorem related_resolve (hname : name ≠ q) :
    RelatedSpellings definition p q
      (fun value value' => value' = value ∧
        Sound (tableNames definition.tokens) [p, q] name value)
      (resolve ⟨definition.parameters, arguments, .recording⟩ name)
      (resolve ⟨(definition.rename p q).parameters, arguments, .recording⟩ (rename p q name)) := by
  unfold resolve
  simp only [Macro.rename, idxOf?_map_rename hfresh hname]
  cases hposition : definition.parameters.idxOf? name with
  | some position =>
      refine related_pure ⟨rfl, ?_⟩
      rw [List.getD_eq_getElem?_getD]
      cases hargument : arguments[position]? with
      | none => exact .of_avoids (by simp [Value.Avoids, Value.leads]) name
      | some value =>
          exact ⟨h.argument_row value (List.mem_of_getElem? hargument),
            fun htable => h.argument name htable position hposition value hargument⟩
  | none =>
      have hne : name ≠ p := by
        rintro rfl
        exact List.idxOf?_eq_none_iff.mp hposition hparameter
      rw [rename_of_ne hne]
      refine related_get.bind fun machine machine' hmachine => ?_
      rw [hmachine.scope_eq]
      cases hfind : machine.scope.find? name with
      | some value => exact related_pure ⟨rfl, hmachine.sound.find? hfind⟩
      | none =>
          refine (related_report (.inl rfl) _ _).bind fun _ _ _ => ?_
          exact related_pure ⟨rfl, .of_avoids (by simp [Value.Avoids, Value.leads]) name⟩

/-- The second time a table is looked up, neither spelling is looked for. -/
theorem related_resolveTable (hname : name ≠ q) (htable : name ∈ tableNames definition.tokens) :
    RelatedSpellings definition p q
      (fun value value' => value' = value ∧ ∀ row ∈ value.rows, row.Avoids [p, q])
      (resolveTable ⟨definition.parameters, arguments, .recording⟩ name)
      (resolveTable ⟨(definition.rename p q).parameters, arguments, .recording⟩
        (rename p q name)) := by
  refine (related_resolve hparameter hfresh h hname).bind fun value value' hvalue => ?_
  obtain ⟨rfl, hsound⟩ := hvalue
  cases value' with
  | text inner =>
      have hinner := Value.avoids_text.mp (hsound.2 htable)
      rw [List.mem_cons, List.mem_singleton, not_or] at hinner
      have hagain := related_resolve hparameter hfresh h hinner.2
      rw [rename_of_ne hinner.1] at hagain
      exact hagain.mono fun _ _ hvalue => ⟨hvalue.1, hvalue.2.1⟩
  | _ => exact related_pure ⟨rfl, hsound.1⟩

theorem related_renderMember (hname : name ≠ q) (field : Text) :
    RelatedSpellings definition p q (fun text text' => text' = text)
      (renderMember ⟨definition.parameters, arguments, .recording⟩ name field)
      (renderMember ⟨(definition.rename p q).parameters, arguments, .recording⟩
        (rename p q name) field) := by
  have hmissing : RelatedSpellings definition p q (fun text text' : Text => text' = text)
      (do
        report ⟨definition.parameters, arguments, .recording⟩
          (.unresolvedName (name ++ '.' :: field))
        return [])
      (do
        report ⟨(definition.rename p q).parameters, arguments, .recording⟩
          (.unresolvedName (rename p q name ++ '.' :: field))
        return []) :=
    (related_report (told_member p q name field) _ _).bind fun _ _ _ => related_pure rfl
  refine (related_resolve hparameter hfresh h hname).bind fun subject subject' hsubject => ?_
  obtain ⟨rfl, -⟩ := hsubject
  cases subject' with
  | absent => exact related_pure rfl
  | record fields =>
      cases hfield : Bindings.get? field fields with
      | some value =>
          simp only [hfield]
          exact related_pure rfl
      | none =>
          simp only [hfield]
          exact hmissing
  | _ => exact hmissing

theorem related_renderCount (hname : name ≠ q) (htable : name ∈ tableNames definition.tokens) :
    RelatedSpellings definition p q (fun text text' => text' = text)
      (renderCount ⟨definition.parameters, arguments, .recording⟩ name)
      (renderCount ⟨(definition.rename p q).parameters, arguments, .recording⟩
        (rename p q name)) := by
  refine (related_resolveTable hparameter hfresh h hname htable).bind fun value value' hvalue => ?_
  obtain ⟨rfl, -⟩ := hvalue
  cases value' <;> exact related_pure rfl

theorem related_renderToken {token : Token .interpreted} (hread : token.reads? ≠ some q)
    (htables : ∀ table ∈ token.table?, table ∈ tableNames definition.tokens) :
    RelatedSpellings definition p q (fun text text' => text' = text)
      (renderToken ⟨definition.parameters, arguments, .recording⟩ token)
      (renderToken ⟨(definition.rename p q).parameters, arguments, .recording⟩
        (token.rename p q)) := by
  cases token with
  | reference text name =>
      have hname : name ≠ q := fun heq => hread (congrArg some heq)
      refine (related_resolve hparameter hfresh h hname).bind fun value value' hvalue => ?_
      obtain ⟨rfl, -⟩ := hvalue
      exact related_pure rfl
  | member text name field =>
      exact related_renderMember hparameter hfresh h (fun heq => hread (congrArg some heq)) field
  | count text name =>
      exact related_renderCount hparameter hfresh h (fun heq => hread (congrArg some heq))
        (htables name rfl)
  | _ => exact related_pure rfl

/-- The spelling of the parameter makes no difference at any level. -/
theorem levelsAbreast_of_uncaptured :
    LevelsAbreast id (Loop.rename p q) (Token.rename p q)
      ⟨definition.parameters, arguments, .recording⟩
      ⟨(definition.rename p q).parameters, arguments, .recording⟩
      (fun stretch =>
        (∀ head ∈ stretch.loop, (Token.loop head).reads? ≠ some q ∧
          ∀ table ∈ (Token.loop head).table?, table ∈ tableNames definition.tokens) ∧
        ∀ token ∈ stretch.tokens, token.reads? ≠ some q ∧
          ∀ table ∈ token.table?, table ∈ tableNames definition.tokens)
      (fun row => row.Avoids [p, q]) fun _ => InStep definition p q where
  spell_append _ _ := rfl
  rows {loop tokens} _ hallowed := by
    cases loop with
    | none => exact related_pure ⟨rfl, by simp⟩
    | some head =>
        obtain ⟨hread, htable⟩ := hallowed.1 head rfl
        refine (related_resolveTable hparameter hfresh h (fun heq => hread (congrArg some heq))
          (htable head.table rfl)).bind fun value value' hvalue => ?_
        obtain ⟨rfl, havoids⟩ := hvalue
        exact related_pure ⟨rfl, havoids⟩
  own {loop tokens rows} _ hallowed hrows := by
    have htokens : RelatedSpellings definition p q (fun text text' => text' = id text)
        (renderTokens ⟨definition.parameters, arguments, .recording⟩ tokens)
        (renderTokens ⟨(definition.rename p q).parameters, arguments, .recording⟩
          (tokens.map (Token.rename p q))) :=
      related_renderTokens (fun _ _ => rfl) fun token hmem =>
        related_renderToken hparameter hfresh h (hallowed.2 token hmem).1 (hallowed.2 token hmem).2
    refine related_renderOwn (fun _ _ => rfl) htokens (fun head _ index row hrow => ?_) rows hrows
    refine related_modify fun machine machine' hmachine => ?_
    obtain ⟨hscope, hsound, htold⟩ := hmachine
    refine ⟨by rw [hscope]; rfl, ?_, htold⟩
    exact (hsound.bind head.key (.of_avoids (Value.avoids_integer index))).bind head.value
      (.of_avoids hrow)
  enter hmachine := ⟨by rw [hmachine.scope_eq], hmachine.sound.enter, hmachine.told⟩
  leave hmachine := ⟨by rw [hmachine.scope_eq], hmachine.sound.leave, hmachine.told⟩

end Setting

theorem related_render_rename (hparameter : p ∈ definition.parameters)
    (hfresh : q ∉ definition.parameters)
    (hread : ∀ token ∈ definition.tokens, token.reads? ≠ some q)
    (h : Uncaptured definition arguments data [p, q]) :
    Setting.RelatedSpellings definition p q (fun text text' => text' = text)
      (definition.render arguments .recording)
      ((definition.rename p q).render arguments .recording) := by
  have htokens : ∀ token ∈ definition.tokens, token.reads? ≠ some q ∧
      ∀ table ∈ token.table?, table ∈ tableNames definition.tokens := fun token hmem =>
    ⟨hread token hmem, fun table htable => List.mem_filterMap.mpr ⟨token, hmem, htable⟩⟩
  have hallowed := forall_stretches htokens
  rw [← LoopTree.preorder_build] at hallowed
  rw [Macro.render, Macro.render]
  show Setting.RelatedSpellings definition p q _ _
    (Setting.renderTree _ (LoopTree.build (definition.tokens.map (Token.rename p q))))
  rw [LoopTree.build_map (keepsShape_rename p q)]
  exact (Setting.levelsAbreast_of_uncaptured hparameter hfresh h).renderTree _ 0 hallowed

/-- A parameter that holds a text which names no parameter stands for the table of that
name, whatever it is called itself. -/
theorem resolveTable_held {σ : Type} (listener : Listener σ) (machine : Machine σ)
    {position : Nat} {t : Text} {table : Value}
    (hposition : definition.parameters.idxOf? p = some position)
    (hargument : arguments[position]? = some (.text t)) (hfree : t ∉ definition.parameters)
    (hfind : machine.scope.find? t = some table) :
    Setting.resolveTable ⟨definition.parameters, arguments, listener⟩ p machine =
      .ok table machine := by
  have hfirst : Setting.resolve ⟨definition.parameters, arguments, listener⟩ p =
      pure (.text t) := by
    rw [Setting.resolve, hposition]
    simp only [List.getD_eq_getElem?_getD, hargument, Option.getD_some]
  rw [Setting.resolveTable, hfirst, pure_bind]
  simp only [Setting.resolve, List.idxOf?_eq_none_iff.mpr hfree]
  rw [get_bind_apply, hfind]
  rfl

/-- A parameter may be spelled in a way in which no other parameter is spelled and no name
in the template, if no table reference is led to either spelling. Whatever the scoping,
the output and the data that are left are the same, and so are the anomalies, but for the
spelling of the parameter in those about its members. And a parameter that holds a text
which names no parameter stands for the table of that name, whatever it is called. -/
theorem renders_rename (scoping : Scoping) (hparameter : p ∈ definition.parameters)
    (hfresh : q ∉ definition.parameters)
    (hread : ∀ token ∈ definition.tokens, token.reads? ≠ some q)
    (h : Uncaptured definition arguments data [p, q]) :
    (∃ output anomalies anomalies' data',
      definition.Renders arguments scoping data output anomalies data' ∧
      (definition.rename p q).Renders arguments scoping data output anomalies' data' ∧
      List.Forall₂ (Told p q) anomalies anomalies') ∧
    ∀ (σ : Type) (listener : Listener σ) (machine : Machine σ) (position : Nat) (t : Text)
      (table : Value), definition.parameters.idxOf? p = some position →
      arguments[position]? = some (.text t) → t ∉ definition.parameters →
      machine.scope.find? t = some table →
      Setting.resolveTable ⟨definition.parameters, arguments, listener⟩ p machine =
        .ok table machine := by
  refine ⟨?_, fun _ listener machine _ _ _ => resolveTable_held listener machine⟩
  obtain ⟨output, anomalies, data', hrenders⟩ :=
    exists_renders definition arguments scoping data
  obtain ⟨output', anomalies', data'', hrenders'⟩ :=
    exists_renders (definition.rename p q) arguments scoping data
  have hstart : InStep definition p q ⟨.ofData scoping data, []⟩ ⟨.ofData scoping data, []⟩ := by
    refine ⟨rfl, ?_, .nil⟩
    intro frame hframe field hfield
    obtain rfl := List.mem_singleton.mp hframe
    exact ⟨h.field_row field hfield, h.field field hfield⟩
  have hrelated := related_render_rename hparameter hfresh hread h _ _ hstart
  rw [renders_iff.mp hrenders, renders_iff.mp hrenders'] at hrelated
  obtain ⟨rfl, hscope, -, htold⟩ := hrelated
  obtain rfl : data'' = data' := (List.cons.inj (congrArg Scope.frames hscope)).1
  exact ⟨output', anomalies, anomalies', data'', hrenders, hrenders', htold⟩

def rowsOfTwo : Value :=
  .list [.record [("x".toList, .integer 1)], .record [("x".toList, .integer 2)]]

/-- The first parameter holds the name of the table, and the second one, in which no table
is looked for, that of the first. -/
theorem renders_rename_held :
    let data : Frame := [("T".toList, rowsOfTwo)]
    let definition : Macro := ⟨"LIST".toList, ["t".toList, "n".toList],
      [.count "{{#t}}".toList "t".toList,
        .loop ⟨"{{for r of t}}".toList, none, some "r".toList, "t".toList⟩,
        .member "{{r.x}}".toList "r".toList "x".toList, .endLoop "{{/for}}".toList,
        .reference "{{n}}".toList "n".toList, .member "{{t.x}}".toList "t".toList "x".toList]⟩
    let arguments : List Value := [.text "T".toList, .text "t".toList]
    let machine : Machine Unit := ⟨.ofData .nested data, ()⟩
    "t".toList ∈ definition.parameters ∧ "u".toList ∉ definition.parameters ∧
      (∀ token ∈ definition.tokens, token.reads? ≠ some "u".toList) ∧
      Uncaptured definition arguments data ["t".toList, "u".toList] ∧
      (∃ anomalies,
        (definition.rename "t".toList "u".toList).Renders arguments .nested data "212t".toList
          anomalies data ∧
        List.Forall₂ (Told "t".toList "u".toList) [.unresolvedName "t.x".toList] anomalies) ∧
      Setting.resolveTable ⟨definition.parameters, arguments, .silent⟩ "t".toList machine =
        .ok rowsOfTwo machine := by
  intro data definition arguments machine
  have hparameter : "t".toList ∈ definition.parameters := by decide
  have hfresh : "u".toList ∉ definition.parameters := by decide
  have hread : ∀ token ∈ definition.tokens, token.reads? ≠ some "u".toList := by decide
  have huncaptured : Uncaptured definition arguments data ["t".toList, "u".toList] :=
    ⟨by decide, by decide, by decide, by decide⟩
  have hrenders : definition.Renders arguments .nested data "212t".toList
      [.unresolvedName "t.x".toList] data := renders_iff.mpr rfl
  obtain ⟨⟨output, anomalies, anomalies', data', hfirst, hsecond, htold⟩, htable⟩ :=
    renders_rename .nested hparameter hfresh hread huncaptured
  obtain ⟨rfl, rfl, rfl⟩ := hrenders.unique hfirst
  refine ⟨hparameter, hfresh, hread, huncaptured, ⟨anomalies', hsecond, htold⟩, ?_⟩
  exact htable Unit .silent machine 0 "T".toList rowsOfTwo rfl rfl (by decide) rfl

/-- A parameter that is called like the table whose name it holds does not stand for the
table: its own text is found again. In another spelling it does. -/
theorem captured_table_name :
    let data : Frame := [("T".toList, rowsOfTwo)]
    let definition : Macro := ⟨"COUNT".toList, ["T".toList], [.count "{{#T}}".toList "T".toList]⟩
    definition.parameters.Nodup ∧ "T".toList ∈ definition.parameters ∧
      "T".toList ∉ boundNames definition.tokens ∧ "t".toList ∉ definition.parameters ∧
      (∀ token ∈ definition.tokens, token.reads? ≠ some "t".toList) ∧
      (∀ field ∈ data, field.1 ≠ "t".toList ∧ field.2.Every (· ≠ "t".toList)) ∧
      (Value.text "T".toList).Every (· ≠ "t".toList) ∧
      definition.Renders [.text "T".toList] .flat data [] [] data ∧
      (definition.rename "T".toList "t".toList).Renders [.text "T".toList] .flat data
        "2".toList [] data := by
  intro data definition
  refine ⟨by decide, by decide, by decide, by decide, by decide, by decide, by decide, ?_, ?_⟩
  · exact renders_iff.mpr rfl
  · exact renders_iff.mpr rfl

end Template

end CommentMacro
