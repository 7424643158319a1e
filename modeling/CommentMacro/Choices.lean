/-!
# Ordered choices

A backtracking search tries its choices in order of preference and stops at the
first that leads on. `Choices` is the list of them in that order, of which no
more is computed than is asked for. A search that has found nothing yet may
`wait`: it returns to whoever asked, who asks it to go on. So a search may fail
any number of times in a row without calling itself more deeply.

The view is `Choices.toList`: each operation is that of lists.
-/

namespace CommentMacro

inductive Choices (α : Type) where
  | none
  | cons (first : α) (later : Unit → Choices α)
  | wait (next : Unit → Choices α)

namespace Choices

variable {α β : Type}

def toList : Choices α → List α
  | none => []
  | cons first later => first :: (later ()).toList
  | wait next => (next ()).toList

def head? : Choices α → Option α
  | none => Option.none
  | cons first _ => some first
  | wait next => (next ()).head?

def take (n : Nat) : Choices α → List α
  | none => []
  | cons first later =>
    match n with
    | 0 => []
    | n + 1 => first :: (later ()).take n
  | wait next => if n = 0 then [] else (next ()).take n

/-- The one choice there is, if it is there at all. -/
def only : Option α → Choices α
  | some choice => cons choice fun _ => none
  | Option.none => none

def map (f : α → β) : Choices α → Choices β
  | none => none
  | cons first later => cons (f first) fun _ => (later ()).map f
  | wait next => wait fun _ => (next ()).map f

def append : Choices α → (others : Unit → Choices α) → Choices α
  | none, others => wait others
  | cons first later, others => cons first fun _ => (later ()).append others
  | wait next, others => wait fun _ => (next ()).append others

def flatMap (f : α → Choices β) : Choices α → Choices β
  | none => none
  | cons first later => (f first).append fun _ => (later ()).flatMap f
  | wait next => wait fun _ => (next ()).flatMap f

theorem head?_eq (choices : Choices α) : choices.head? = choices.toList.head? := by
  induction choices with
  | none => rfl
  | cons first later => rfl
  | wait next ih => exact ih ()

@[simp] theorem toList_only (choice : Option α) : (only choice).toList = choice.toList := by
  cases choice <;> rfl

@[simp] theorem toList_map (f : α → β) (choices : Choices α) :
    (choices.map f).toList = choices.toList.map f := by
  induction choices with
  | none => rfl
  | cons first later ih => simp [map, toList, ih]
  | wait next ih => exact ih ()

@[simp] theorem toList_append (choices : Choices α) (others : Unit → Choices α) :
    (choices.append others).toList = choices.toList ++ (others ()).toList := by
  induction choices with
  | none => rfl
  | cons first later ih => simp [append, toList, ih]
  | wait next ih => exact ih ()

@[simp] theorem toList_flatMap (f : α → Choices β) (choices : Choices α) :
    (choices.flatMap f).toList = choices.toList.flatMap fun choice => (f choice).toList := by
  induction choices with
  | none => rfl
  | cons first later ih => simp [flatMap, toList, ih]
  | wait next ih => exact ih ()

end Choices

end CommentMacro
