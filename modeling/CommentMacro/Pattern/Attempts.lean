import CommentMacro.Pattern.Basic

/-!
# Attempts

`Pattern.attempts` lists every way in which a pattern matches a sequence of
kinds from an offset, in order of preference. The first is the match; the others
are what a surrounding pattern falls back on. A repetition takes only iterations
that consume a token, so it ends.

The list says what the ways are. It is not how they are found: that is
`Pattern.choices`.
-/

namespace CommentMacro

/-- A remembered extent: a name with the offsets where it starts and stops. -/
structure Extent where
  name : Text
  start : Nat
  stop : Nat
  deriving DecidableEq, Repr, Inhabited

/-- One way to match: where it ends, and what it remembers in order. -/
structure Hit where
  stop : Nat
  captures : List Extent
  deriving DecidableEq, Repr, Inhabited

/-- A hit that goes on from an earlier one, whose captures come first. -/
def Hit.after (earlier later : Hit) : Hit :=
  { later with captures := earlier.captures ++ later.captures }

namespace Pattern

def isAmong (among : Text) : Option Kind → Bool
  | some k => among.contains k
  | none => false

def isOther (refused : Text) : Option Kind → Bool
  | some k => !refused.contains k
  | none => false

/-- Whether the kinds of a word stand from an offset on. -/
def isAhead (ks : Array Kind) : (word : Text) → (start : Nat) → Bool
  | [], _ => true
  | k :: word, start => ks[start]? == some k && isAhead ks word (start + 1)

/-- The ways that start with `first`, each of which goes on as `later` says. -/
def follow (first : List Hit) (later : Nat → List Hit) : List Hit :=
  first.flatMap fun hit => (later hit.stop).map hit.after

/-- Of the ways to go through an iteration, those that consume a token. -/
def consuming (start : Nat) (ways : List Hit) : List Hit :=
  ways.filter fun hit => start < hit.stop

/-- The way that stops before any iteration, if none is asked for. -/
def stopsHere (minimum start : Nat) : List Hit :=
  if minimum = 0 then [⟨start, []⟩] else []

def arrange {α : Type} (greedy : Bool) (goOn stopHere : List α) : List α :=
  if greedy then goOn ++ stopHere else stopHere ++ goOn

/-- The ways to repeat `step`. `room` bounds the number of iterations: it is the
number of tokens that are left, and an iteration that is taken consumes one of
them at least. -/
def repetitions (greedy : Bool) (step : Nat → List Hit) :
    (room minimum start : Nat) → List Hit
  | 0, minimum, start => stopsHere minimum start
  | room + 1, minimum, start =>
    arrange greedy
      (follow (consuming start (step start)) (repetitions greedy step room (minimum - 1)))
      (stopsHere minimum start)

/-- The ways to match from an offset, in order of preference. -/
def attempts (ks : Array Kind) : Pattern → (start : Nat) → List Hit
  | kinds among, start => if isAmong among ks[start]? then [⟨start + 1, []⟩] else []
  | other refused, start => if isOther refused ks[start]? then [⟨start + 1, []⟩] else []
  | any, start => if start < ks.size then [⟨start + 1, []⟩] else []
  | finish, start => if start = ks.size then [⟨start, []⟩] else []
  | notAhead word, start => if isAhead ks word start then [] else [⟨start, []⟩]
  | empty, start => [⟨start, []⟩]
  | both first second, start => follow (attempts ks first start) (attempts ks second)
  | either first second, start => attempts ks first start ++ attempts ks second start
  | repeated greedy minimum inner, start =>
    repetitions greedy (attempts ks inner) (ks.size - start) minimum start
  | capture name inner, start =>
    (attempts ks inner start).map fun hit => hit.after ⟨hit.stop, [⟨name, start, hit.stop⟩]⟩

end Pattern

end CommentMacro
