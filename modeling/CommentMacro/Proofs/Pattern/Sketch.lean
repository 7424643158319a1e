import CommentMacro.Pattern.Sketch

/-!
# When a sketch stands for a pattern

A sketch holds values, which are judged in an order of their own: those in the operators
among some parts come before those beside the operators (`Sketch.values`). The pattern it
stands for puts the pattern of each value in its place (`Sketch.pattern`). Reading a
sketch gives that pattern, or the first value in that order which stands for none
(`toPattern_eq`).
-/

namespace CommentMacro.Pattern

/-- A value that stands for no pattern. -/
def isRefused (v : Value) : Bool :=
  match ofValue v with
  | .ok _ => false
  | .error _ => true

namespace Sketch

/-! ## What a sketch holds -/

/-- The value, if the sketch is nothing else. -/
def own : Sketch → List Value
  | value v => [v]
  | _ => []

mutual

def within : Sketch → List Value
  | value _ => []
  | exact _ => []
  | seq parts => withinAll parts ++ parts.flatMap own
  | alt choices => withinAll choices ++ choices.flatMap own
  | repeated _ _ inner => within inner ++ own inner
  | optional inner => within inner ++ own inner
  | capture _ inner => within inner ++ own inner

def withinAll : List Sketch → List Value
  | [] => []
  | part :: parts => within part ++ withinAll parts

end

/-- All values, in the order in which they are judged. -/
def values (sketch : Sketch) : List Value :=
  within sketch ++ own sketch

mutual

/-- The pattern, where nothing matches a value that is refused. -/
def pattern : Sketch → Pattern
  | value v => (ofValue v).toOption.getD never
  | exact p => p
  | seq parts => Pattern.seq (patterns parts)
  | alt choices => Pattern.alt (patterns choices)
  | repeated greedy minimum inner => .repeated greedy minimum (pattern inner)
  | optional inner => Pattern.optional (pattern inner)
  | capture name inner => .capture name (pattern inner)

def patterns : List Sketch → List Pattern
  | [] => []
  | part :: parts => pattern part :: patterns parts

end

/-- The part that is left when the operators of a sketch have been read. -/
def part : Sketch → Part
  | value v => .inl v
  | sketch => .inr sketch.pattern

/-! ## Judging values -/

/-- A result that depends on some values: the first one refused stands in its way. -/
def judged {α : Type} (values : List Value) (a : α) : Except Value α :=
  match values.find? isRefused with
  | none => .ok a
  | some v => .error v

theorem judged_append {α β : Type} (values later : List Value) (a : α) (b : β)
    {next : α → Except Value β}
    (h : next a = judged later b) : (judged values a >>= next) = judged (values ++ later) b := by
  unfold judged
  rw [List.find?_append]
  cases hfind : values.find? isRefused with
  | none =>
      show next a = _
      rw [h, Option.none_or]
      rfl
  | some v => rfl

theorem judged_map {α β : Type} (values : List Value) (a : α) (f : α → β) :
    (do return f (← judged values a) : Except Value β) = judged values (f a) := by
  unfold judged
  cases values.find? isRefused <;> rfl

theorem judged_ofValue (v : Value) : ofValue v = judged [v] ((ofValue v).toOption.getD never) := by
  have herror : ∀ w, ofValue v = .error w → w = v := by
    intro w
    unfold ofValue
    split
    · exact fun h => by cases h
    · exact fun h => by cases h
    · exact fun h => (Except.error.inj h).symm
  unfold judged
  rw [List.find?_singleton, isRefused]
  cases h : ofValue v with
  | ok p => rfl
  | error w =>
      obtain rfl := herror w h
      rfl

theorem toPattern_part (sketch : Sketch) :
    sketch.part.toPattern = judged sketch.own sketch.pattern := by
  cases sketch with
  | value v =>
      rw [pattern]
      exact judged_ofValue v
  | _ => rfl

theorem mapM_toPattern (parts : List Sketch) :
    (parts.map part).mapM Part.toPattern = judged (parts.flatMap own) (patterns parts) := by
  induction parts with
  | nil =>
      rw [patterns]
      rfl
  | cons first parts ih =>
      rw [List.map_cons, List.mapM_cons, toPattern_part, List.flatMap_cons, patterns, ih]
      apply judged_append
      exact judged_map _ _ (first.pattern :: ·)

/-! ## Reading a sketch -/

/-- What comes of one part comes of an operator around it. -/
theorem judged_around {sketch : Sketch} (h : sketch.read = judged sketch.within sketch.part)
    (operator : Pattern → Pattern) :
    (do return Sum.inr (operator (← (← sketch.read).toPattern)) : Except Value Part) =
      judged (sketch.within ++ sketch.own) (.inr (operator sketch.pattern)) := by
  rw [h]
  apply judged_append
  rw [toPattern_part]
  exact judged_map _ _ (Sum.inr ∘ operator)

/-- And so for an operator around several parts. -/
theorem judged_around_all {parts : List Sketch}
    (h : readAll parts = judged (withinAll parts) (parts.map part))
    (operator : List Pattern → Pattern) :
    (do return Sum.inr (operator (← (← readAll parts).mapM Part.toPattern)) : Except Value Part) =
      judged (withinAll parts ++ parts.flatMap own) (.inr (operator (patterns parts))) := by
  rw [h]
  apply judged_append
  rw [mapM_toPattern]
  exact judged_map _ _ (Sum.inr ∘ operator)

mutual

theorem read_eq : ∀ sketch : Sketch, sketch.read = judged sketch.within sketch.part
  | value v => by
      rw [read, within]
      rfl
  | exact p => by
      rw [read, within]
      rfl
  | seq parts => by
      rw [read, within]
      exact judged_around_all (readAll_eq parts) Pattern.seq
  | alt choices => by
      rw [read, within]
      exact judged_around_all (readAll_eq choices) Pattern.alt
  | repeated greedy minimum inner => by
      rw [read, within]
      exact judged_around (read_eq inner) (.repeated greedy minimum)
  | optional inner => by
      rw [read, within]
      exact judged_around (read_eq inner) Pattern.optional
  | capture name inner => by
      rw [read, within]
      exact judged_around (read_eq inner) (.capture name)

theorem readAll_eq : ∀ parts : List Sketch,
    readAll parts = judged (withinAll parts) (parts.map part)
  | [] => by
      rw [readAll, withinAll]
      rfl
  | first :: parts => by
      rw [readAll, withinAll, read_eq first, readAll_eq parts]
      apply judged_append
      exact judged_map _ _ (first.part :: ·)

end

/-- A sketch stands for its pattern if each value in it stands for one; else the first
value that stands for none is reported. -/
theorem toPattern_eq (sketch : Sketch) :
    sketch.toPattern =
      match sketch.values.find? isRefused with
      | none => .ok sketch.pattern
      | some v => .error v := by
  show (sketch.read >>= fun part => part.toPattern) = judged sketch.values sketch.pattern
  rw [read_eq]
  exact judged_append _ _ _ _ (toPattern_part sketch)

/-- The value beside the operator waits until the operator has been read. -/
example : (seq [value .absent, optional (value (.integer 1))]).toPattern = .error (.integer 1) :=
  rfl

end Sketch

end CommentMacro.Pattern
