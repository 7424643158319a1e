import CommentMacro.Text.Quoted

/-!
# Anomalies and their listeners

A document can be expanded although something in it is amiss: a call of a macro
that is not defined, a name that nothing binds, a directive that says nothing.
Such an anomaly leaves an empty place in the output. Whoever wants to know of it
hands in a `Listener`, which keeps a state of its own and may refuse to go on.

- `Listener.silent` ignores every anomaly.
- `Listener.recording` keeps them in order.
- `Listener.reporting` writes a warning line for each.
- `Listener.strict` refuses the first.
-/

namespace CommentMacro

/-- Something amiss that does not keep a document from being expanded. -/
inductive Anomaly where
  /-- A call names a macro that is not defined before it. -/
  | undefinedMacro (name call : Text)
  /-- A template refers to a name, or to a member, that nothing binds. -/
  | unresolvedName (name : Text)
  /-- The inside of a directive has no known form. -/
  | unrecognizedDirective (content : Text)
  deriving DecidableEq, Repr, Inhabited

def Anomaly.warning : Anomaly → Text
  | undefinedMacro name call =>
    "no macro named ".toList ++ name.quoted ++ " (in ".toList ++ call.quoted ++ ")".toList
  | unresolvedName name => "nothing is bound to ".toList ++ name.quoted
  | unrecognizedDirective content =>
    "ignoring directive \x7b\x7b".toList ++ content ++ "\x7d\x7d".toList

/-- The class of an anomaly, as it is named when it ends a run. -/
def Anomaly.errorName : Anomaly → Text
  | undefinedMacro _ _ => "UndefinedMacroError".toList
  | unresolvedName _ => "UnresolvedNameError".toList
  | unrecognizedDirective _ => "UnrecognizedDirectiveError".toList

def Anomaly.arguments : Anomaly → List Text
  | undefinedMacro name call => [name, call]
  | unresolvedName name => [name]
  | unrecognizedDirective content => [content]

/-- The message of an anomaly that ends a run: what it is about, and in quoted
form if that is more than one text. -/
def Anomaly.message (anomaly : Anomaly) : Text :=
  match anomaly.arguments with
  | [argument] => argument
  | arguments => '(' :: Text.join ", ".toList (arguments.map Text.quoted) ++ ")".toList

/-- Hears of anomalies one after another: each either changes the state or ends
the run. -/
structure Listener (σ : Type) where
  hear : Anomaly → σ → Except Anomaly σ

namespace Listener

def silent : Listener Unit where
  hear _ heard := .ok heard

def recording : Listener (List Anomaly) where
  hear anomaly heard := .ok (heard ++ [anomaly])

def reporting : Listener Text where
  hear anomaly heard := .ok (heard ++ "Warning: ".toList ++ anomaly.warning ++ ['\n'])

def strict : Listener Unit where
  hear anomaly _ := .error anomaly

end Listener

/-- A computation that may meet anomalies. The state is kept also when one of
them ends it. -/
abbrev Watched (σ α : Type) := EStateM Anomaly σ α

def Listener.report {σ : Type} (listener : Listener σ) (anomaly : Anomaly) : Watched σ Unit :=
  fun heard => match listener.hear anomaly heard with
    | .ok heard => .ok () heard
    | .error refused => .error refused heard

end CommentMacro
