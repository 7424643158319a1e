import CommentMacro.Document.Parse
import CommentMacro.Table
import CommentMacro.Template.Parse
import CommentMacro.Template.Render

/-!
# Expanding a document

The tokens of a document are visited from left to right. A table goes to the
data, a macro to the registry, a call is rendered and its output kept, and a
generated region receives the output that was kept last. Everything else stays
as it is, so macros and tables have to be defined before they are used.
-/

namespace CommentMacro

/-- A call: the name of a macro, and arguments by position. -/
structure Call where
  name : Text
  arguments : List Text
  deriving DecidableEq, Repr, Inhabited

namespace Call

def isNoise (c : Char) : Bool :=
  c == ')' || Text.isBlank c

/-- Reads a call: closing parentheses and blanks do not count, and opening
parentheses and commas separate. -/
def parse (t : Text) : Call :=
  match Text.splitBy (fun c => c == '(' || c == ',') (t.filter (!isNoise ·)) with
  | [] => ⟨[], []⟩
  | name :: arguments => ⟨name, arguments⟩

end Call

/-- The state of an expansion: the macros defined so far, the data, the output
of the last call, and what the listener has heard. -/
structure Expansion (σ : Type) where
  macros : Bindings Template.Macro
  scope : Scope
  pending : Text
  heard : σ

namespace Expansion

variable {σ : Type}

def start (scoping : Scoping) (heard : σ) : Expansion σ :=
  ⟨[], .ofData scoping [], [], heard⟩

/-- A step of an expansion, which may be ended by an anomaly. -/
abbrev Step (σ α : Type) := EStateM Anomaly (Expansion σ) α

def listening {α : Type} (inner : Watched σ α) : Step σ α :=
  fun state => match inner state.heard with
    | .ok a heard => .ok a { state with heard := heard }
    | .error anomaly heard => .error anomaly { state with heard := heard }

def rendering {α : Type} (inner : Template.Rendering σ α) : Step σ α :=
  fun state => match inner ⟨state.scope, state.heard⟩ with
    | .ok a machine => .ok a { state with scope := machine.scope, heard := machine.heard }
    | .error anomaly machine =>
      .error anomaly { state with scope := machine.scope, heard := machine.heard }

def setPending (output : Text) : Step σ Unit :=
  modify fun state => { state with pending := output }

def defineTable (name body : Text) : Step σ Unit :=
  modify fun state =>
    { state with scope := state.scope.bindData name (Table.toValue (Table.parse body)) }

def defineMacro (listener : Listener σ) (name : Text) (parameters : List Text) (body : Text) :
    Step σ Unit := do
  let tokens ← listening (Template.parse listener body)
  modify fun state =>
    { state with macros := state.macros.insert name ⟨name, parameters, tokens⟩ }

/-- Renders a call and keeps its output. A call without a name does nothing; one
of an unknown macro empties the output and is an anomaly. -/
def invoke (listener : Listener σ) (source : Text) : Step σ Unit := do
  let call := Call.parse source
  if call.name.isEmpty then return
  match Bindings.get? call.name (← get).macros with
  | some definition =>
    setPending (← rendering (definition.render (call.arguments.map .text) listener))
  | none =>
    setPending []
    listening (listener.report (.undefinedMacro call.name source.strip))

/-- Visits a token and gives the text that takes its place. -/
def visit (listener : Listener σ) (token : Document.Token) : Step σ Text := do
  match token with
  | .region opening _ closing => return opening ++ (← get).pending ++ closing
  | .tableDefinition text name body =>
    defineTable name body
    return text
  | .macroDefinition text name parameters body =>
    defineMacro listener name parameters body
    return text
  | .invocation text call =>
    invoke listener call
    return text
  | token => return token.text

def visitAll (listener : Listener σ) : List Document.Token → Step σ Text
  | [] => return []
  | token :: tokens => do
    let first ← visit listener token
    return first ++ (← visitAll listener tokens)

end Expansion

inductive Fault where
  | marker (fault : Document.MarkerFault)
  | unknownScoping (name : Text)
  | anomaly (anomaly : Anomaly)
  deriving DecidableEq, Repr, Inhabited

def Fault.message : Fault → Text
  | marker cause => cause.message
  | unknownScoping name => name
  | anomaly cause => cause.message

/-- Whether a text holds anything to expand: somewhere the start word stands at
the end of a line. -/
def hasDeclarations : Text → Bool
  | [] => false
  | c :: t =>
    ((Text.after? Document.startWord (c :: t)).any fun rest => (Document.lineBreak? rest).isSome) ||
      hasDeclarations t

/-- How a document is expanded: the comment sign of its language and the name of
the scoping. -/
structure Settings where
  sign : Text
  scoping : Text
  deriving DecidableEq, Repr, Inhabited

def Settings.default : Settings :=
  ⟨"//".toList, Scoping.flat.name⟩

def scopingNamed (name : Text) : Except Fault Scoping :=
  match Scoping.ofName? name with
  | some scoping => .ok scoping
  | none => .error (.unknownScoping name)

@[simp] theorem scopingNamed_name (scoping : Scoping) :
    scopingNamed scoping.name = .ok scoping := by
  rw [scopingNamed, Scoping.ofName?_name]

variable {σ : Type}

def expandTokens (scoping : Scoping) (listener : Listener σ) (heard : σ)
    (tokens : List Document.Token) : Except Fault (Text × σ) :=
  match Expansion.visitAll listener tokens (.start scoping heard) with
  | .ok output state => .ok (output, state.heard)
  | .error anomaly _ => .error (.anomaly anomaly)

/-- Expands a document. One that holds nothing to expand stays as it is, and
neither its markers nor the settings are looked at. -/
def expand (settings : Settings) (listener : Listener σ) (heard : σ) (source : Text) :
    Except Fault (Text × σ) :=
  if hasDeclarations source then
    match Document.parse settings.sign source with
    | .error fault => .error (.marker fault)
    | .ok tokens =>
      match scopingNamed settings.scoping with
      | .error fault => .error fault
      | .ok scoping => expandTokens scoping listener heard tokens
  else .ok (source, heard)

end CommentMacro
