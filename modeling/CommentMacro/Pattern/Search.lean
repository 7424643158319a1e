import CommentMacro.Pattern.Repetition

/-!
# Search

The ways of a pattern to match, found by going from left to right. Each operator
asks the searches of its parts for one way after another, and offers what it
makes of them; nothing is searched for before it is asked for.
-/

namespace CommentMacro.Pattern

theorem lt_size_of_test (test : Option Kind → Bool) (hnone : test none = false)
    {ks : Array Kind} {start : Nat} (h : test ks[start]? = true) : start < ks.size := by
  rcases Nat.lt_or_ge start ks.size with hlt | hge
  · exact hlt
  · rw [Array.getElem?_eq_none hge, hnone] at h
    cases h

def search (ks : Array Kind) : Pattern → Walk ks.size
  | kinds among, start => .only <|
    if h : isAmong among ks[start]? then some (.next (lt_size_of_test (isAmong among) rfl h))
    else none
  | other refused, start => .only <|
    if h : isOther refused ks[start]? then some (.next (lt_size_of_test (isOther refused) rfl h))
    else none
  | any, start => .only <| if h : start < ks.size then some (.next h) else none
  | finish, start => .only <| if start = ks.size then some (.stay ks.size start) else none
  | notAhead word, start => .only <|
    if isAhead ks word start then none else some (.stay ks.size start)
  | empty, start => .only (some (.stay ks.size start))
  | both first second, start =>
    (search ks first start).flatMap fun way => (search ks second way.stop).map way.after
  | either first second, start => (search ks first start).append fun _ => search ks second start
  | repeated greedy minimum inner, start => repetition greedy minimum (search ks inner) start
  | capture name inner, start => (search ks inner start).map (Way.named name)

/-- The ways to match from an offset, in order of preference, as far as they are
asked for. -/
def choices (ks : Array Kind) (p : Pattern) (start : Nat) : Choices Hit :=
  (search ks p start).map Way.toHit

end CommentMacro.Pattern
