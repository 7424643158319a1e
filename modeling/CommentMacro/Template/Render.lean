import CommentMacro.Anomaly
import CommentMacro.Template.LoopTree
import CommentMacro.Template.Scope

/-!
# Rendering a template

A macro is a template with parameters. Rendering it walks its loop tree: a node
renders its own tokens once for each row of its table, and once altogether if it
has no loop; after all rows come the nodes below, each of them once. So a loop
inside another one runs after the rows of the outer loop and not in each of them.

A name is looked up among the parameters and then in the scope. A table may be
given by a text, which is looked up in turn, so that a parameter can hold the
name of a table.
-/

namespace CommentMacro.Template

structure Macro where
  name : Text
  parameters : List Text
  tokens : List (Token .interpreted)
  deriving Inhabited

structure Machine (σ : Type) where
  scope : Scope
  heard : σ

/-- A rendering in progress, which may be ended by an anomaly. -/
abbrev Rendering (σ α : Type) := EStateM Anomaly (Machine σ) α

/-- What a rendering is given: parameters with their arguments by position, and
who hears of anomalies. -/
structure Setting (σ : Type) where
  parameters : List Text
  arguments : List Value
  listener : Listener σ

namespace Setting

variable {σ : Type} (setting : Setting σ)

def report (anomaly : Anomaly) : Rendering σ Unit :=
  fun machine => match setting.listener.hear anomaly machine.heard with
    | .ok heard => .ok () { machine with heard := heard }
    | .error refused => .error refused machine

/-- The value of a name: that of the argument if it names a parameter, with
nothing for an argument that was not given; else what the scope binds it to. -/
def resolve (name : Text) : Rendering σ Value :=
  match setting.parameters.idxOf? name with
  | some position => pure (setting.arguments.getD position .absent)
  | none => do
    match (← get).scope.find? name with
    | some value => return value
    | none =>
      setting.report (.unresolvedName name)
      return .absent

/-- The value of a name of a table: a text is looked up once more. -/
def resolveTable (name : Text) : Rendering σ Value := do
  match ← setting.resolve name with
  | .text inner => setting.resolve inner
  | value => return value

def emit : Value → Text
  | .absent => []
  | value => value.display

/-- The field of a record: nothing of a subject that is absent. -/
def renderMember (name field : Text) : Rendering σ Text := do
  let subject ← setting.resolve name
  let missing : Rendering σ Text := do
    setting.report (.unresolvedName (name ++ '.' :: field))
    return []
  match subject with
  | .absent => return []
  | .record fields =>
    match Bindings.get? field fields with
    | some value => return emit value
    | none => missing
  | _ => missing

def renderCount (name : Text) : Rendering σ Text := do
  match ← setting.resolveTable name with
  | .list rows => return Text.ofNat rows.length
  | _ => return []

def renderToken : Token .interpreted → Rendering σ Text
  | .plain text => return text
  | .blank text => return text
  | .reference _ name => return emit (← setting.resolve name)
  | .member _ name field => setting.renderMember name field
  | .count _ name => setting.renderCount name
  | .loop _ => return []
  | .endLoop _ => return []

def renderTokens : List (Token .interpreted) → Rendering σ Text
  | [] => return []
  | token :: tokens => do
    let first ← setting.renderToken token
    return first ++ (← renderTokens tokens)

/-- Binds the names of a loop to the number of a row and to the row. -/
def bindRow (head : Loop) (index : Nat) (row : Value) : Rendering σ Unit :=
  modify fun machine =>
    { machine with scope := (machine.scope.bind head.key (.integer index)).bind head.value row }

/-- Renders the tokens for each row, of which the first has the number `index`. -/
def renderRows (head : Loop) (tokens : List (Token .interpreted)) :
    (index : Nat) → List Value → Rendering σ Text
  | _, [] => return []
  | index, row :: rows => do
    bindRow head index row
    let first ← setting.renderTokens tokens
    return first ++ (← renderRows head tokens (index + 1) rows)

/-- The rows of the table of a loop, looked up before the loop is entered. -/
def rowsOf : Option Loop → Rendering σ (List Value)
  | none => return []
  | some head => return (← setting.resolveTable head.table).rows

def renderOwn (tokens : List (Token .interpreted)) (rows : List Value) :
    Option Loop → Rendering σ Text
  | none => setting.renderTokens tokens
  | some head => setting.renderRows head tokens 0 rows

/-- Runs a rendering one level deeper. The level is left also when an anomaly
ends the rendering. -/
def atLevel {α : Type} (inner : Rendering σ α) : Rendering σ α :=
  fun machine =>
    match inner { machine with scope := machine.scope.enter } with
    | .ok a machine => .ok a { machine with scope := machine.scope.leave }
    | .error anomaly machine => .error anomaly { machine with scope := machine.scope.leave }

mutual

/-- Renders a node: its own tokens for every row, and then the nodes below. -/
def renderTree : LoopTree .interpreted → Rendering σ Text
  | .node loop tokens children => do
    let rows ← setting.rowsOf loop
    atLevel do
      let own ← setting.renderOwn tokens rows loop
      return own ++ (← renderForest children)

def renderForest : List (LoopTree .interpreted) → Rendering σ Text
  | [] => return []
  | tree :: trees => do
    let first ← renderTree tree
    return first ++ (← renderForest trees)

end

end Setting

def Macro.render {σ : Type} (definition : Macro) (arguments : List Value) (listener : Listener σ) :
    Rendering σ Text :=
  Setting.renderTree ⟨definition.parameters, arguments, listener⟩
    (LoopTree.build definition.tokens)

end CommentMacro.Template
