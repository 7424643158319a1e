import CommentMacro.Choices
import CommentMacro.Pattern.Attempts

/-!
# Repetition

The iterations of a repetition are searched through with a stack, and not by
recursion: a repetition may have to step across thousands of tokens. A level of
the stack is a way through the iterations taken so far, with what has not been
tried of the next one. Each turn of the loop asks the uppermost level for a way.

- A way that consumes a token is put upon the stack as a level of its own. A lazy
  repetition offers it now, if it has iterations enough.
- A way that consumes nothing is dropped.
- A level that has no more ways is taken off. A greedy repetition offers it now,
  if it has iterations enough.
-/

namespace CommentMacro.Pattern

/-- A hit from an offset on, which ends within a sequence of `size` tokens if it
consumes any of them. -/
structure Way (size start : Nat) extends Hit where
  start_le : start ≤ stop
  stop_le : stop ≤ max start size

/-- A search among `size` tokens. -/
abbrev Walk (size : Nat) := (start : Nat) → Choices (Way size start)

namespace Way

variable {size start : Nat}

def stay (size start : Nat) : Way size start :=
  ⟨⟨start, []⟩, Nat.le_refl _, Nat.le_max_left _ _⟩

def next (h : start < size) : Way size start :=
  ⟨⟨start + 1, []⟩, Nat.le_succ _, Nat.le_trans h (Nat.le_max_right _ _)⟩

def after (earlier : Way size start) (later : Way size earlier.stop) : Way size start where
  toHit := earlier.toHit.after later.toHit
  start_le := Nat.le_trans earlier.start_le later.start_le
  stop_le := Nat.le_trans later.stop_le (Nat.max_le.mpr ⟨earlier.stop_le, Nat.le_max_right _ _⟩)

/-- The way remembers its own extent behind all others. -/
def named (name : Text) (way : Way size start) : Way size start :=
  { way with toHit := way.toHit.after ⟨way.stop, [⟨name, start, way.stop⟩]⟩ }

end Way

structure Level (size origin : Nat) where
  /-- The way through the iterations taken so far. -/
  taken : Way size origin
  count : Nat
  /-- What has not been tried of the next iteration. -/
  options : Unit → Choices (Way size taken.stop)

section

variable {size origin : Nat} (greedy : Bool) (minimum : Nat) (step : Walk size)

/-- One turn: what it offers, and the stack after it. -/
def turn (top : Level size origin) (below : List (Level size origin)) :
    Option (Way size origin) × List (Level size origin) :=
  match top.options () with
  | .none => (if greedy = true ∧ minimum ≤ top.count then some top.taken else none, below)
  | .wait next => (none, { top with options := next } :: below)
  | .cons way later =>
    let rest : List (Level size origin) := { top with options := later } :: below
    if top.taken.stop < way.stop then
      let deeper := top.taken.after way
      (if greedy = false ∧ minimum ≤ top.count + 1 then some deeper else none,
        ⟨deeper, top.count + 1, fun _ => step deeper.stop⟩ :: rest)
    else (none, rest)

/-! ## The loop ends -/

/-- How often choices are asked for, if each is worth some questions more. -/
def questions {α : Type} (worth : α → Nat) : Choices α → Nat
  | .none => 1
  | .cons first later => worth first + questions worth (later ()) + 1
  | .wait next => questions worth (next ()) + 1

/-- The turns that the ways from an offset take, all iterations behind them
included. -/
def turns (start : Nat) (options : Choices (Way size start)) : Nat :=
  questions (fun way => if start < way.stop then turns way.stop (step way.stop) else 0) options
termination_by size - start
decreasing_by
  have := way.stop_le
  omega

def turnsOf : (stack : List (Level size origin)) → Nat
  | [] => 0
  | level :: below => turns step level.taken.stop (level.options ()) + turnsOf below

theorem turnsOf_turn (top : Level size origin) (below : List (Level size origin)) :
    turnsOf step (turn greedy minimum step top below).2 < turnsOf step (top :: below) := by
  obtain ⟨taken, count, options⟩ := top
  simp only [turn]
  cases hoptions : options () with
  | none =>
      simp only [turnsOf, hoptions]
      rw [turns, questions]
      omega
  | wait next =>
      simp only [turnsOf, hoptions]
      rw [turns, turns.eq_def _ _ (.wait next), questions]
      omega
  | cons way later =>
      by_cases hlt : taken.stop < way.stop
      · simp only [if_pos hlt, turnsOf, hoptions]
        have hstop : (taken.after way).stop = way.stop := rfl
        rw [turns.eq_def _ taken.stop, turns.eq_def _ taken.stop (.cons way later), questions,
          if_pos hlt, hstop]
        omega
      · simp only [if_neg hlt, turnsOf, hoptions]
        rw [turns.eq_def _ taken.stop, turns.eq_def _ taken.stop (.cons way later), questions]
        omega

/-! ## The loop -/

def loop : (stack : List (Level size origin)) → Choices (Way size origin)
  | [] => .none
  | top :: below =>
    match (turn greedy minimum step top below).1 with
    | some way => .cons way fun _ => loop (turn greedy minimum step top below).2
    | none => .wait fun _ => loop (turn greedy minimum step top below).2
termination_by stack => turnsOf step stack
decreasing_by all_goals exact turnsOf_turn greedy minimum step top below

def repetition : Walk size := fun start =>
  let ground : Level size start := ⟨.stay size start, 0, fun _ => step start⟩
  if greedy = false ∧ minimum = 0 then
    .cons (.stay size start) fun _ => loop greedy minimum step [ground]
  else loop greedy minimum step [ground]

end

end CommentMacro.Pattern
