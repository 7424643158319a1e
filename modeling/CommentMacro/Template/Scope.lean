import CommentMacro.Value

/-!
# Scopes

A scope is a list of frames, each of which binds names to values; a name has the
value that the first frame binding it gives. The last frame is the data of the
document, where the tables are.

Where the names of a loop go depends on the scoping.

- *Flat:* they go to the first frame, which is the data itself. They outlive
  their loop, and loops that share a name overwrite each other.
- *Nested:* every level of loops has a frame of its own, which is gone when the
  level is left.
-/

namespace CommentMacro

/-- Where the names of a loop are bound. -/
inductive Scoping where
  | flat
  | nested
  deriving DecidableEq, Repr, Inhabited

namespace Scoping

def name : Scoping → Text
  | flat => "flat".toList
  | nested => "nested".toList

def ofName? (name : Text) : Option Scoping :=
  if name = flat.name then some flat
  else if name = nested.name then some nested
  else none

@[simp] theorem ofName?_name (scoping : Scoping) : ofName? scoping.name = some scoping := by
  cases scoping <;> decide

end Scoping

abbrev Frame := Bindings Value

/-- Frames in the order in which names are looked up. -/
structure Scope where
  scoping : Scoping
  frames : List Frame
  deriving Inhabited

/-- What a scope without frames does not allow. -/
inductive ScopeFault where
  | noFrameToBind
  | noFrameToLeave
  deriving DecidableEq, Repr, Inhabited

def ScopeFault.message : ScopeFault → Text
  | noFrameToBind => "list index out of range".toList
  | noFrameToLeave => "pop from empty list".toList

namespace Scope

/-- What a scope may be asked to do. -/
inductive Request where
  | enter
  | leave
  | bind (name : Option Text) (value : Value)

def ofData (scoping : Scoping) (data : Frame) : Scope :=
  ⟨scoping, [data]⟩

/-- The value of a name in the first frame that binds it. -/
def find? (scope : Scope) (name : Text) : Option Value :=
  scope.frames.findSome? (Bindings.get? name)

/-- The data of the document: the last frame. -/
def data (scope : Scope) : Frame :=
  scope.frames.getLast?.getD []

def enter (scope : Scope) : Scope :=
  match scope.scoping with
  | .flat => scope
  | .nested => { scope with frames := [] :: scope.frames }

def leave (scope : Scope) : Scope :=
  match scope.scoping with
  | .flat => scope
  | .nested => { scope with frames := scope.frames.tail }

/-- Binds a name, if there is one, in the first frame. -/
def bind (scope : Scope) (name : Option Text) (value : Value) : Scope :=
  match name, scope.frames with
  | some name, first :: rest => { scope with frames := first.insert name value :: rest }
  | _, _ => scope

def bindData (scope : Scope) (name : Text) (value : Value) : Scope :=
  match scope.frames.getLast? with
  | some data => { scope with frames := scope.frames.dropLast ++ [data.insert name value] }
  | none => scope

def leave? (scope : Scope) : Except ScopeFault Scope :=
  if scope.scoping = .nested ∧ scope.frames = [] then .error .noFrameToLeave
  else .ok scope.leave

def bind? (scope : Scope) (name : Option Text) (value : Value) : Except ScopeFault Scope :=
  if name.isSome ∧ scope.frames = [] then .error .noFrameToBind
  else .ok (scope.bind name value)

def request (scope : Scope) : Request → Except ScopeFault Scope
  | .enter => .ok scope.enter
  | .leave => scope.leave?
  | .bind name value => scope.bind? name value

/-- Carries out requests up to the first that is refused. -/
def requests (scope : Scope) (list : List Request) : Except ScopeFault Scope :=
  list.foldlM request scope

theorem find?_bind_self (scope : Scope) (name : Text) (value : Value)
    (h : scope.frames ≠ []) : (scope.bind (some name) value).find? name = some value := by
  obtain ⟨scoping, frames⟩ := scope
  cases frames with
  | nil => exact absurd rfl h
  | cons first rest => simp [bind, find?]

theorem find?_bind_of_ne (scope : Scope) {name other : Text} (h : other ≠ name) (value : Value) :
    (scope.bind (some name) value).find? other = scope.find? other := by
  obtain ⟨scoping, frames⟩ := scope
  cases frames with
  | nil => rfl
  | cons first rest =>
      simp only [bind, find?, List.findSome?_cons, Bindings.get?_insert_of_ne h]

end Scope

end CommentMacro
