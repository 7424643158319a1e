import CommentMacro.Pattern.Search
import CommentMacro.Text.Quoted

/-!
# Matches

The preferred way to match at an offset is the match there
(`Pattern.matchAt?`). Scanning a whole sequence gives the leftmost matches that
do not overlap (`Pattern.occurrences`): after a match the search goes on at its end,
and one token further if the match is empty.
-/

namespace CommentMacro

structure Match where
  start : Nat
  stop : Nat
  captures : List Extent
  deriving DecidableEq, Repr, Inhabited

namespace Match

/-- The extent that a name remembers. Of several the last one counts. -/
def extent? (m : Match) (name : Text) : Option Extent :=
  m.captures.reverse.find? fun extent => extent.name = name

/-- The names that remember an extent, sorted and each once. -/
def names (m : Match) : List Text :=
  let sorted := (m.captures.map (·.name)).mergeSort fun a b => !decide (b < a)
  sorted.eraseDups

def describe (m : Match) : Text :=
  "<SequenceMatch span=(".toList ++ Text.ofNat m.start ++ ", ".toList ++ Text.ofNat m.stop ++
    ") groups=".toList ++ Text.quotedList m.names ++ ">".toList

def items {α : Type} (m : Match) (subject : List α) : List α :=
  Text.slice subject m.start m.stop

def group? {α : Type} (m : Match) (name : Text) (subject : List α) : Option (List α) :=
  (m.extent? name).map fun extent => Text.slice subject extent.start extent.stop

end Match

namespace Pattern

/-- The match at an offset: the preferred way to match from there. -/
def matchAt? (p : Pattern) (ks : Array Kind) (start : Nat) : Option Match :=
  (p.choices ks start).head?.map fun hit => ⟨start, hit.stop, hit.captures⟩

/-- Tries the offsets in order, apart from those before `resume`, which lie in
the last match. -/
def scan (p : Pattern) (ks : Array Kind) (resume : Nat) : List Nat → List Match
  | [] => []
  | start :: later =>
    if start < resume then scan p ks resume later
    else match p.matchAt? ks start with
      | some m => m :: scan p ks m.stop later
      | none => scan p ks resume later

/-- The leftmost matches that do not overlap. Every offset may start one, also
the one after the last token. -/
def occurrences (p : Pattern) (ks : Array Kind) : List Match :=
  p.scan ks 0 (List.range (ks.size + 1))

end Pattern

end CommentMacro
