import CommentMacro.Proofs.Expansion.Hearing
import CommentMacro.Proofs.Template.Nesting
import Mathlib.Data.List.Induction

/-!
# With nested scoping calls are independent of each other

With nested scoping a call leaves the data as it was, so what a region receives can be
told without a look at any call but the last one before it (`expandTokens_nested`). It
is what that call gives by itself, over the tables and with the macro that are defined
before it (`received`); a call without a name does not count.
-/

namespace CommentMacro

open Document

/-! ## What is defined among tokens -/

namespace Document

def Token.isDefinition : Token → Bool
  | macroDefinition .. => true
  | tableDefinition .. => true
  | _ => false

def definitionsOf (tokens : List Token) : List Token :=
  tokens.filter Token.isDefinition

def Token.macroNamed? (name : Text) : Token → Option (List Text × Text)
  | macroDefinition _ defined parameters body =>
    if defined = name then some (parameters, body) else none
  | _ => none

def Token.tableNamed? (name : Text) : Token → Option Value
  | tableDefinition _ defined body =>
    if defined = name then some (Table.toValue (Table.parse body)) else none
  | _ => none

def lastMacro? (name : Text) (tokens : List Token) : Option (List Text × Text) :=
  tokens.reverse.findSome? (Token.macroNamed? name)

def lastTable? (name : Text) (tokens : List Token) : Option Value :=
  tokens.reverse.findSome? (Token.tableNamed? name)

/-- The data with the table that a token defines, if it defines one. -/
def Token.addTable (data : Frame) : Token → Frame
  | tableDefinition _ name body => data.insert name (Table.toValue (Table.parse body))
  | _ => data

/-- The data that hold the tables defined among tokens and nothing else. -/
def tablesOf (tokens : List Token) : Frame :=
  tokens.foldl Token.addTable []

def Token.isNamedCall : Token → Bool
  | invocation _ source => !(Call.parse source).name.isEmpty
  | _ => false

theorem lastMacro?_append (name : Text) (tokens : List Token) (token : Token) :
    lastMacro? name (tokens ++ [token]) =
      (token.macroNamed? name <|> lastMacro? name tokens) := by
  rw [lastMacro?, List.reverse_append]
  cases h : token.macroNamed? name <;> simp [h, lastMacro?]

theorem lastTable?_append (name : Text) (tokens : List Token) (token : Token) :
    lastTable? name (tokens ++ [token]) =
      (token.tableNamed? name <|> lastTable? name tokens) := by
  rw [lastTable?, List.reverse_append]
  cases h : token.tableNamed? name <;> simp [h, lastTable?]

theorem tablesOf_append (tokens : List Token) (token : Token) :
    tablesOf (tokens ++ [token]) = token.addTable (tablesOf tokens) := by
  rw [tablesOf, List.foldl_append]
  rfl

/-- Each table is bound to what its last definition gives. -/
theorem get?_tablesOf (name : Text) (tokens : List Token) :
    Bindings.get? name (tablesOf tokens) = lastTable? name tokens := by
  induction tokens using List.reverseRecOn with
  | nil => rfl
  | append_singleton tokens token ih =>
      rw [tablesOf_append, lastTable?_append]
      cases token with
      | tableDefinition text defined body =>
          by_cases hname : defined = name
          · subst hname
            simp [Token.addTable, Token.tableNamed?]
          · simp only [Token.addTable, Token.tableNamed?, if_neg hname]
            rw [Bindings.get?_insert_of_ne (Ne.symm hname), ih]
            rfl
      | _ => exact ih

/-- Only the definitions among tokens matter for what is defined. -/
theorem lastMacro?_definitionsOf (name : Text) (tokens : List Token) :
    lastMacro? name (definitionsOf tokens) = lastMacro? name tokens := by
  induction tokens using List.reverseRecOn with
  | nil => rfl
  | append_singleton tokens token ih =>
      rw [lastMacro?_append, definitionsOf, List.filter_append]
      cases token with
      | macroDefinition text defined parameters body =>
          rw [← ih]
          exact lastMacro?_append ..
      | tableDefinition text defined body =>
          rw [← ih]
          exact lastMacro?_append ..
      | _ => simpa [Token.isDefinition, Token.macroNamed?, definitionsOf] using ih

theorem tablesOf_definitionsOf (tokens : List Token) :
    tablesOf (definitionsOf tokens) = tablesOf tokens := by
  induction tokens using List.reverseRecOn with
  | nil => rfl
  | append_singleton tokens token ih =>
      rw [tablesOf_append, definitionsOf, List.filter_append]
      cases token with
      | macroDefinition text defined parameters body =>
          rw [← ih]
          exact tablesOf_append ..
      | tableDefinition text defined body =>
          rw [← ih]
          exact tablesOf_append ..
      | _ => simpa [Token.isDefinition, Token.addTable, definitionsOf] using ih

end Document

/-! ## A call by itself -/

namespace Template

/-- The tokens of a template, read with nobody listening. -/
def tokensOf (body : Text) : List (Token .interpreted) :=
  match parse .silent body () with
  | .ok tokens _ => tokens
  | .error _ _ => []

/-- What a macro gives over fresh data with nested scoping, with nobody listening. -/
def Macro.outputOver (definition : Macro) (data : Frame) (arguments : List Value) : Text :=
  match definition.render arguments .silent ⟨.ofData .nested data, ()⟩ with
  | .ok output _ => output
  | .error _ _ => []

variable {σ : Type} {listener : Listener σ}

/-- Whoever reads a template reads these tokens. -/
theorem eq_tokensOf_of_parse {body : Text} {heard heard' : σ} {tokens : List (Token .interpreted)}
    (h : parse listener body heard = .ok tokens heard') : tokens = tokensOf body := by
  obtain ⟨result, _, hsilent, hall⟩ := (foretold_parse body).result_eq ()
  have htokens : tokensOf body = result := by
    simp only [onlyHeard] at hsilent
    simp only [tokensOf, hsilent]
  rw [htokens]
  exact hall σ listener heard tokens heard' h

/-- Everyone who refuses nothing reads the same tokens. -/
theorem parse_eq_tokensOf (h : listener.Patient) (body : Text) (heard : σ) :
    ∃ heard', parse listener body heard = .ok (tokensOf body) heard' := by
  obtain ⟨tokens, heard', hparse⟩ := completes_parse h body heard
  rw [eq_tokensOf_of_parse hparse] at hparse
  exact ⟨heard', hparse⟩

/-- Everyone who refuses nothing gets the same output, and with nested scoping the data
stay as they were. -/
theorem render_eq_outputOver (h : listener.Patient) (definition : Macro) (data : Frame)
    (arguments : List Value) (heard : σ) :
    ∃ heard', definition.render arguments listener ⟨.ofData .nested data, heard⟩ =
      .ok (definition.outputOver data arguments) ⟨.ofData .nested data, heard'⟩ := by
  obtain ⟨output, scope, hsilent, hall⟩ :=
    (foretold_render definition arguments).alike (.ofData .nested data)
  obtain ⟨heard', hrender⟩ := hall σ listener heard h
  have houtput : definition.outputOver data arguments = output := by
    simp only [Macro.outputOver, hsilent]
  have hrestored := restores_render definition arguments listener [data]
    ⟨.ofData .nested data, heard⟩ rfl
  rw [hrender] at hrestored
  rw [hrender, houtput, show scope = .ofData .nested data from hrestored]
  exact ⟨heard', rfl⟩

end Template

/-- What a call gives behind the given tokens: nothing if its macro is not defined among
them, else what the macro gives over the tables that are, and over nothing else. -/
def ownOutput (before : List Document.Token) (call : Call) : Text :=
  match lastMacro? call.name before with
  | none => []
  | some (parameters, body) =>
    Template.Macro.outputOver ⟨call.name, parameters, Template.tokensOf body⟩ (tablesOf before)
      (call.arguments.map .text)

/-- What a region behind the given tokens receives: what the last call with a name gives
by itself, and nothing if there is none. -/
def received (before : List Document.Token) : Text :=
  match before.reverse.dropWhile fun token => !token.isNamedCall with
  | .invocation _ source :: earlier => ownOutput earlier.reverse (Call.parse source)
  | _ => []

theorem received_call {before : List Document.Token} {text source : Text}
    (h : (Document.Token.invocation text source).isNamedCall = true) :
    received (before ++ [.invocation text source]) = ownOutput before (Call.parse source) := by
  rw [received, List.reverse_append]
  simp [h]

theorem received_append {before later : List Document.Token}
    (h : ∀ token ∈ later, token.isNamedCall = false) :
    received (before ++ later) = received before := by
  have hlater : ∀ token ∈ later.reverse, (!token.isNamedCall) = true := by
    intro token hmem
    rw [h token (List.mem_reverse.mp hmem)]
    rfl
  rw [received, List.reverse_append, List.dropWhile_append_of_pos hlater, received]

/-- Other calls do not matter, nor does what stands behind the last one. -/
theorem received_congr {before before' later later' : List Document.Token} {text source : Text}
    (hcall : (Document.Token.invocation text source).isNamedCall = true)
    (hlater : ∀ token ∈ later, token.isNamedCall = false)
    (hlater' : ∀ token ∈ later', token.isNamedCall = false)
    (hdefinitions : definitionsOf before = definitionsOf before') :
    received (before ++ .invocation text source :: later) =
      received (before' ++ .invocation text source :: later') := by
  have hown : ownOutput before (Call.parse source) = ownOutput before' (Call.parse source) := by
    rw [ownOutput, ownOutput, ← lastMacro?_definitionsOf, ← tablesOf_definitionsOf,
      hdefinitions, lastMacro?_definitionsOf, tablesOf_definitionsOf]
  rw [List.append_cons before, List.append_cons before', received_append hlater,
    received_append hlater', received_call hcall, received_call hcall, hown]

/-! ## The state of an expansion with nested scoping -/

namespace Expansion

variable {σ : Type} {listener : Listener σ}

/-- The state that an expansion with nested scoping has come to behind the given
tokens. -/
structure Standing (before : List Document.Token) (state : Expansion σ) : Prop where
  macros : ∀ name, Bindings.get? name state.macros =
    (lastMacro? name before).map fun found => ⟨name, found.1, Template.tokensOf found.2⟩
  scope : state.scope = .ofData .nested (tablesOf before)
  pending : state.pending = received before

theorem standing_start (heard : σ) : Standing [] (start .nested heard) :=
  ⟨fun _ => rfl, rfl, rfl⟩

variable {before : List Document.Token} {state : Expansion σ}

/-- A token that neither defines anything nor calls a macro changes nothing. -/
theorem Standing.append (h : Standing before state) {token : Document.Token}
    (hdefinition : token.isDefinition = false) (hcall : token.isNamedCall = false) :
    Standing (before ++ [token]) state := by
  have hnothing : definitionsOf (before ++ [token]) = definitionsOf before := by
    simp [definitionsOf, hdefinition]
  refine ⟨fun name => ?_, ?_, ?_⟩
  · rw [← lastMacro?_definitionsOf, hnothing, lastMacro?_definitionsOf]
    exact h.macros name
  · rw [← tablesOf_definitionsOf, hnothing, tablesOf_definitionsOf]
    exact h.scope
  · rw [received_append (by simpa using hcall)]
    exact h.pending

theorem Standing.defineTable (h : Standing before state) (text name body : Text) :
    ∃ state', defineTable name body state = .ok () state' ∧
      Standing (before ++ [.tableDefinition text name body]) state' := by
  refine ⟨{ state with scope := state.scope.bindData name (Table.toValue (Table.parse body)) },
    rfl, fun other => ?_, ?_, ?_⟩
  · rw [lastMacro?_append]
    exact h.macros other
  · simp only [h.scope, tablesOf_append]
    rfl
  · rw [received_append (by simp [Token.isNamedCall])]
    exact h.pending

def Registers (tokens : List Document.Token) (macros : Bindings Template.Macro) : Prop :=
  ∀ name, Bindings.get? name macros =
    (lastMacro? name tokens).map fun found => ⟨name, found.1, Template.tokensOf found.2⟩

theorem Registers.append {tokens : List Document.Token} {macros : Bindings Template.Macro}
    (h : Registers tokens macros) {token : Document.Token}
    (htoken : ∀ name, token.macroNamed? name = none) : Registers (tokens ++ [token]) macros := by
  intro name
  rw [lastMacro?_append, htoken name]
  exact h name

theorem Registers.insert {tokens : List Document.Token} {macros : Bindings Template.Macro}
    (h : Registers tokens macros) (text name : Text) (parameters : List Text) (body : Text) :
    Registers (tokens ++ [.macroDefinition text name parameters body])
      (macros.insert name ⟨name, parameters, Template.tokensOf body⟩) := by
  intro other
  rw [lastMacro?_append]
  by_cases hname : name = other
  · subst hname
    simp [Token.macroNamed?]
  · simp only [Token.macroNamed?, if_neg hname]
    rw [Bindings.get?_insert_of_ne (Ne.symm hname)]
    exact h other

/-- A macro is defined once its template has been read. -/
theorem defineMacro_apply (name : Text) (parameters : List Text) (body : Text)
    (state : Expansion σ) :
    defineMacro listener name parameters body state =
      match Template.parse listener body state.heard with
      | .ok tokens heard => .ok () { state with
          heard := heard
          macros := state.macros.insert name ⟨name, parameters, tokens⟩ }
      | .error anomaly heard => .error anomaly { state with heard := heard } := by
  rw [defineMacro, bind_apply, listening]
  cases Template.parse listener body state.heard <;> rfl

theorem Standing.defineMacro (hpatient : listener.Patient) (h : Standing before state)
    (text name : Text) (parameters : List Text) (body : Text) :
    ∃ state', defineMacro listener name parameters body state = .ok () state' ∧
      Standing (before ++ [.macroDefinition text name parameters body]) state' := by
  obtain ⟨heard', hparse⟩ := Template.parse_eq_tokensOf hpatient body state.heard
  refine ⟨_, by rw [defineMacro_apply, hparse], ?_, ?_, ?_⟩
  · exact Registers.insert h.macros text name parameters body
  · rw [tablesOf_append]
    exact h.scope
  · rw [received_append (by simp [Token.isNamedCall])]
    exact h.pending

/-- A call without a name does nothing. -/
theorem invoke_nameless {source : Text} (hname : (Call.parse source).name.isEmpty = true)
    (state : Expansion σ) : invoke listener source state = .ok () state := by
  simp only [Expansion.invoke, hname, if_true]
  rfl

/-- A call of an unknown macro empties the output and is told of. -/
theorem invoke_undefined {source : Text} {state : Expansion σ}
    (hname : (Call.parse source).name.isEmpty = false)
    (hfind : Bindings.get? (Call.parse source).name state.macros = none) :
    invoke listener source state =
      match listener.hear (.undefinedMacro (Call.parse source).name source.strip) state.heard with
      | .ok heard => .ok () { state with pending := [], heard := heard }
      | .error refused => .error refused { state with pending := [] } := by
  simp only [Expansion.invoke, hname, Bool.false_eq_true, if_false, get_bind_apply, hfind]
  show listening _ { state with pending := [] } = _
  simp only [listening, Listener.report]
  cases listener.hear (.undefinedMacro (Call.parse source).name source.strip) state.heard <;> rfl

/-- The output of a call is kept once its macro has been rendered. -/
theorem invoke_defined {source : Text} {state : Expansion σ} {definition : Template.Macro}
    (hname : (Call.parse source).name.isEmpty = false)
    (hfind : Bindings.get? (Call.parse source).name state.macros = some definition) :
    invoke listener source state =
      match definition.render ((Call.parse source).arguments.map .text) listener
        ⟨state.scope, state.heard⟩ with
      | .ok output machine => .ok ()
        { state with scope := machine.scope, pending := output, heard := machine.heard }
      | .error anomaly machine => .error anomaly
        { state with scope := machine.scope, heard := machine.heard } := by
  simp only [Expansion.invoke, hname, Bool.false_eq_true, if_false, get_bind_apply, hfind]
  simp only [bind_apply, rendering]
  cases definition.render ((Call.parse source).arguments.map .text) listener
    ⟨state.scope, state.heard⟩ <;> rfl

/-- A call leaves its own output, and nothing else. -/
theorem Standing.invoke (hpatient : listener.Patient) (h : Standing before state)
    (text source : Text) :
    ∃ state', invoke listener source state = .ok () state' ∧
      Standing (before ++ [.invocation text source]) state' := by
  cases hname : (Call.parse source).name.isEmpty with
  | true =>
      exact ⟨state, invoke_nameless hname state, h.append rfl (by simp [Token.isNamedCall, hname])⟩
  | false =>
      have hcall : (Document.Token.invocation text source).isNamedCall = true := by
        simp [Token.isNamedCall, hname]
      have hknown := h.macros (Call.parse source).name
      -- whatever the output is, the definitions stay as they were
      have hstanding : ∀ heard' : σ, Standing (before ++ [.invocation text source])
          { state with pending := ownOutput before (Call.parse source), heard := heard' } := by
        refine fun heard' => ⟨fun name => ?_, ?_, ?_⟩
        · rw [lastMacro?_append]
          exact h.macros name
        · rw [tablesOf_append]
          exact h.scope
        · rw [received_call hcall]
      cases hfound : lastMacro? (Call.parse source).name before with
      | none =>
          rw [hfound, Option.map_none] at hknown
          obtain ⟨heard', hhear⟩ :=
            hpatient (.undefinedMacro (Call.parse source).name source.strip) state.heard
          have hown : ownOutput before (Call.parse source) = [] := by rw [ownOutput, hfound]
          refine ⟨_, ?_, hstanding heard'⟩
          rw [invoke_undefined hname hknown, hhear, hown]
      | some found =>
          rw [hfound, Option.map_some] at hknown
          obtain ⟨parameters, body⟩ := found
          obtain ⟨heard', hrender⟩ := Template.render_eq_outputOver hpatient
            ⟨(Call.parse source).name, parameters, Template.tokensOf body⟩ (tablesOf before)
            ((Call.parse source).arguments.map .text) state.heard
          refine ⟨_, ?_, hstanding heard'⟩
          rw [invoke_defined hname hknown, h.scope, hrender, ownOutput, hfound]

theorem Standing.visit (hpatient : listener.Patient) (h : Standing before state)
    {token : Document.Token} (hbody : token.body? = none) :
    ∃ state', visit listener token state = .ok token.text state' ∧
      Standing (before ++ [token]) state' := by
  have hrun : ∀ {inner : Step σ Unit} {text : Text},
      (∃ state', inner state = .ok () state' ∧ Standing (before ++ [token]) state') →
      ∃ state', (do inner; return text : Step σ Text) state = .ok text state' ∧
        Standing (before ++ [token]) state' := by
    rintro inner text ⟨state', hinner, hstanding⟩
    refine ⟨state', ?_, hstanding⟩
    rw [bind_apply, hinner]
    rfl
  cases token with
  | region => simp [Token.body?] at hbody
  | tableDefinition text name body => exact hrun (h.defineTable text name body)
  | macroDefinition text name parameters body =>
      exact hrun (h.defineMacro hpatient text name parameters body)
  | invocation text source => exact hrun (h.invoke hpatient text source)
  | _ => exact ⟨state, rfl, h.append rfl rfl⟩

/-- Every region receives what the last call before it gives by itself. -/
theorem Standing.exists_fillings (hpatient : listener.Patient) (h : Standing before state)
    (tokens : List Document.Token) :
    ∃ outputs state', fillings listener tokens state = .ok outputs state' ∧
      ∀ front opening body closing rest,
        tokens = front ++ .region opening body closing :: rest →
        outputs[(bodiesOf front).length]? = some (received (before ++ front)) := by
  induction tokens generalizing before state with
  | nil => exact ⟨[], state, rfl, by simp⟩
  | cons token tokens ih =>
      cases hbody : token.body? with
      | none =>
          obtain ⟨middle, hvisit, hstanding⟩ := h.visit hpatient hbody
          obtain ⟨outputs, last, hfillings, hreceived⟩ := ih hstanding
          refine ⟨outputs, last, ?_, ?_⟩
          · rw [fillings_cons_apply hbody, hvisit]
            exact hfillings
          · rintro (_ | ⟨first, front⟩) opening body closing rest htokens
            · obtain ⟨rfl, -⟩ := List.cons.inj htokens
              simp [Token.body?] at hbody
            · obtain ⟨rfl, hlater⟩ := List.cons.inj htokens
              rw [bodiesOf_cons hbody, hreceived front opening body closing rest hlater,
                List.append_assoc, List.singleton_append]
      | some old =>
          obtain ⟨opening, closing, rfl⟩ := body?_eq_some.mp hbody
          have hstanding : Standing (before ++ [.region opening old closing]) state :=
            h.append rfl rfl
          obtain ⟨outputs, last, hfillings, hreceived⟩ := ih hstanding
          refine ⟨state.pending :: outputs, last, ?_, ?_⟩
          · rw [fillings_region_apply, hfillings]
          · rintro (_ | ⟨first, front⟩) opening' body' closing' rest htokens
            · rw [List.append_nil, ← h.pending]
              rfl
            · obtain ⟨rfl, hlater⟩ := List.cons.inj htokens
              rw [bodiesOf_region, List.length_cons, List.getElem?_cons_succ,
                hreceived front opening' body' closing' rest hlater, List.append_assoc,
                List.singleton_append]

end Expansion

/-- With nested scoping each region receives what the last call with a name before it
gives by itself, over data in which each table has the rows of its last definition. So it
does not matter which other calls stand before that call, how often or in which order,
nor what stands between it and the region. -/
theorem expandTokens_nested {σ : Type} {listener : Listener σ} (hpatient : listener.Patient)
    (heard : σ) (tokens : List Document.Token) :
    (∃ outputs heard',
      expandTokens .nested listener heard tokens =
        .ok (textOf (refill tokens outputs), heard') ∧
      ∀ before opening body closing after,
        tokens = before ++ .region opening body closing :: after →
        outputs[(bodiesOf before).length]? = some (received before)) ∧
    (∀ before name, Bindings.get? name (tablesOf before) = lastTable? name before) ∧
    ∀ before before' later later' text source,
      (Document.Token.invocation text source).isNamedCall = true →
      (∀ token ∈ later, token.isNamedCall = false) →
      (∀ token ∈ later', token.isNamedCall = false) →
      definitionsOf before = definitionsOf before' →
      received (before ++ .invocation text source :: later) =
        received (before' ++ .invocation text source :: later') := by
  refine ⟨?_, fun before name => get?_tablesOf name before, ?_⟩
  · obtain ⟨outputs, state, hfillings, hreceived⟩ :=
      (Expansion.standing_start heard).exists_fillings hpatient tokens
    refine ⟨outputs, state.heard, ?_, fun before opening body closing after htokens => ?_⟩
    · exact expandTokens_eq_ok_iff.mpr ⟨outputs, state, hfillings, rfl, rfl⟩
    · rw [hreceived before opening body closing after htokens, List.nil_append]
  · intro before before' later later' text source hcall hlater hlater' hdefinitions
    exact received_congr hcall hlater hlater' hdefinitions

/-- A table that is defined twice, two macros, and a call of each. -/
def declared : List Document.Token :=
  [.tableDefinition [] "T".toList "n\n0".toList,
    .macroDefinition [] "SHOW".toList ["t".toList]
      "\x7b\x7bfor r of t\x7d\x7d\x7b\x7br.n\x7d\x7d\x7b\x7b/for\x7d\x7d\x7b\x7br.n\x7d\x7d".toList,
    .invocation [] "SHOW(T)".toList,
    .tableDefinition [] "T".toList "n\n1\n2".toList,
    .macroDefinition [] "ECHO".toList ["x".toList] "\x7b\x7bx\x7d\x7d".toList]

/-- Around the call that a region receives may stand another call, one without a name,
and one of a macro that nobody defined. -/
theorem expandTokens_nested_declared :
    let region := Document.Token.region [] [] []
    let first := Document.Token.invocation [] "ECHO(q)".toList
    let second := Document.Token.invocation [] "SHOW(T)".toList
    let blank := Document.Token.invocation [] " ".toList
    let unknown := Document.Token.invocation [] "NONE()".toList
    let tokens := declared ++ [first, region, second, blank, region, unknown, region]
    Listener.recording.Patient ∧
      (∃ outputs heard',
        expandTokens .nested .recording [] tokens = .ok (textOf (refill tokens outputs), heard') ∧
        outputs[0]? = some "q".toList ∧ outputs[1]? = some "12".toList ∧
        outputs[2]? = some []) ∧
      received (declared ++ second :: [blank]) =
        received ((declared ++ [first, region]) ++ second :: [blank]) := by
  intro region first second blank unknown tokens
  have hpatient : Listener.recording.Patient := fun _ heard => ⟨_, rfl⟩
  obtain ⟨⟨outputs, heard', hexpand, hreceived⟩, -, hcongr⟩ :=
    expandTokens_nested hpatient [] tokens
  refine ⟨hpatient, ⟨outputs, heard', hexpand, ?_, ?_, ?_⟩, ?_⟩
  · rw [show "q".toList = received (declared ++ [first]) by decide +kernel]
    exact hreceived (declared ++ [first]) [] [] [] [second, blank, region, unknown, region] rfl
  · rw [show "12".toList = received (declared ++ [first, region, second, blank]) by
      decide +kernel]
    exact hreceived (declared ++ [first, region, second, blank]) [] [] [] [unknown, region] rfl
  · rw [show [] = received (declared ++ [first, region, second, blank, region, unknown]) by
      decide +kernel]
    exact hreceived (declared ++ [first, region, second, blank, region, unknown]) [] [] [] [] rfl
  · exact hcongr declared (declared ++ [first, region]) [blank] [blank] [] "SHOW(T)".toList
      (by decide) (by decide) (by decide) (by decide)

end CommentMacro
