import CommentMacro.Pattern.Match

/-!
# Segments

The occurrences of a pattern cut a sequence into segments: the matches, and the
gaps between them, which are never empty. Replacing each segment by the items made of
it (`Pattern.chunk`) is the shape of every pass; a pass over tokens leaves those
of a gap as they are (`Pattern.rebuild`).
-/

namespace CommentMacro

inductive Segment where
  | found (m : Match)
  | gap (start stop : Nat)
  deriving DecidableEq, Repr, Inhabited

def Segment.replace {β : Type} (onMatch : Match → List β) (onGap : (start stop : Nat) → List β) :
    Segment → List β
  | .found m => onMatch m
  | .gap start stop => onGap start stop

/-- The gap between two offsets, if it holds anything. -/
def Segment.gapBetween (start stop : Nat) : List Segment :=
  if start < stop then [.gap start stop] else []

namespace Pattern

/-- The segments from offset `last` on, given the matches that follow and the
length of the whole. -/
def segmentsFrom (size last : Nat) : List Match → List Segment
  | [] => Segment.gapBetween last size
  | m :: later =>
    Segment.gapBetween last m.start ++ .found m :: segmentsFrom size m.stop later

/-- The matches of a pattern and the gaps between them, from left to right. -/
def segments (p : Pattern) (ks : Array Kind) : List Segment :=
  segmentsFrom ks.size 0 (p.occurrences ks)

def chunk {β : Type} (p : Pattern) (ks : Array Kind) (onMatch : Match → List β)
    (onGap : (start stop : Nat) → List β) : List β :=
  (p.segments ks).flatMap (Segment.replace onMatch onGap)

/-- Cuts a list of items at the occurrences of a pattern over their kinds.
Each match becomes what `onMatch` makes of it; the items of a gap stay. -/
def rebuild {α : Type} (p : Pattern) (kindOf : α → Kind) (onMatch : Match → List α)
    (items : List α) : List α :=
  p.chunk (items.map kindOf).toArray onMatch (Text.slice items)

end Pattern

end CommentMacro
