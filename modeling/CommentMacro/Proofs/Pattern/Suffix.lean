import CommentMacro.Pattern.Segment
import CommentMacro.Proofs.Pattern.Turns

/-!
# Patterns look only ahead

What a pattern does from an offset depends on the kinds from there on and on
nothing before: put further kinds in front of a sequence, and every way to match
is the old one, moved (`attempts_append_left`).
-/

namespace CommentMacro

/-! ## Moving what was found -/

def Extent.shift (k : Nat) (extent : Extent) : Extent :=
  ⟨extent.name, k + extent.start, k + extent.stop⟩

def Hit.shift (k : Nat) (hit : Hit) : Hit :=
  ⟨k + hit.stop, hit.captures.map (Extent.shift k)⟩

def Match.shift (k : Nat) (m : Match) : Match :=
  ⟨k + m.start, k + m.stop, m.captures.map (Extent.shift k)⟩

def Segment.shift (k : Nat) : Segment → Segment
  | .found m => .found (m.shift k)
  | .gap start stop => .gap (k + start) (k + stop)

/-- The segments with one item more in front, at which no match starts. -/
def Segment.widen : List Segment → List Segment
  | .gap 0 stop :: later => .gap 0 (1 + stop) :: later.map (Segment.shift 1)
  | segments' => .gap 0 1 :: segments'.map (Segment.shift 1)

theorem Hit.shift_after (k : Nat) (earlier later : Hit) :
    (earlier.after later).shift k = (earlier.shift k).after (later.shift k) := by
  simp [Hit.shift, Hit.after]

namespace Pattern

/-! ## The ways to match behind a prefix -/

theorem follow_shift {k : Nat} {first : List Hit} {later later' : Nat → List Hit}
    (h : ∀ stop, later' (k + stop) = (later stop).map (Hit.shift k)) :
    follow (first.map (Hit.shift k)) later' = (follow first later).map (Hit.shift k) := by
  rw [follow, follow, List.flatMap_map, List.map_flatMap]
  congr 1
  funext hit
  have hstop : (hit.shift k).stop = k + hit.stop := rfl
  rw [hstop, h, List.map_map, List.map_map]
  congr 1
  funext next
  exact (Hit.shift_after k hit next).symm

theorem consuming_shift (k start : Nat) (ways : List Hit) :
    consuming (k + start) (ways.map (Hit.shift k)) =
      (consuming start ways).map (Hit.shift k) := by
  rw [consuming, consuming, List.filter_map]
  congr 2
  funext hit
  simp [Hit.shift]

theorem stopsHere_shift (k minimum start : Nat) :
    stopsHere minimum (k + start) = (stopsHere minimum start).map (Hit.shift k) := by
  unfold stopsHere
  split <;> rfl

/-- Iterations may only be moved as far as the step they repeat. -/
theorem repetitions_shift {k : Nat} {greedy : Bool} {step step' : Nat → List Hit}
    (h : ∀ start, step' (k + start) = (step start).map (Hit.shift k)) :
    ∀ room minimum start, repetitions greedy step' room minimum (k + start) =
      (repetitions greedy step room minimum start).map (Hit.shift k) := by
  intro room
  induction room with
  | zero => exact fun minimum start => stopsHere_shift k minimum start
  | succ room ih =>
      intro minimum start
      rw [repetitions, repetitions, h, consuming_shift, follow_shift (ih (minimum - 1)),
        stopsHere_shift]
      cases greedy <;> simp [arrange]

theorem getElem?_append_left_toArray (front rest : List Kind) (start : Nat) :
    (front ++ rest).toArray[front.length + start]? = rest.toArray[start]? := by
  simp [List.getElem?_append_right]

theorem isAhead_append_left (front rest : List Kind) (word : Text) (start : Nat) :
    isAhead (front ++ rest).toArray word (front.length + start) =
      isAhead rest.toArray word start := by
  induction word generalizing start with
  | nil => rfl
  | cons k word ih =>
      rw [isAhead, isAhead, getElem?_append_left_toArray, Nat.add_assoc, ih]

theorem attempts_append_left (front rest : List Kind) (p : Pattern) (start : Nat) :
    attempts (front ++ rest).toArray p (front.length + start) =
      (attempts rest.toArray p start).map (Hit.shift front.length) := by
  induction p generalizing start with
  | kinds among =>
      rw [attempts, attempts, getElem?_append_left_toArray]
      split <;> simp [Hit.shift, Nat.add_assoc]
  | other refused =>
      rw [attempts, attempts, getElem?_append_left_toArray]
      split <;> simp [Hit.shift, Nat.add_assoc]
  | any =>
      by_cases h : start < rest.length <;>
        simp [attempts, h, Hit.shift, Nat.add_assoc]
  | finish =>
      by_cases h : start = rest.length <;> simp [attempts, h, Hit.shift]
  | notAhead word =>
      rw [attempts, attempts, isAhead_append_left]
      split <;> simp [Hit.shift]
  | empty => simp [attempts, Hit.shift]
  | both first second ihFirst ihSecond =>
      rw [attempts, attempts, ihFirst]
      exact follow_shift ihSecond
  | either first second ihFirst ihSecond =>
      simp only [attempts]
      rw [ihFirst, ihSecond, List.map_append]
  | repeated greedy minimum inner ih =>
      simp only [attempts]
      have hroom : (front ++ rest).toArray.size - (front.length + start) =
          rest.toArray.size - start := by
        simp
        omega
      rw [hroom]
      exact repetitions_shift ih _ _ _
  | capture name inner ih =>
      simp only [attempts]
      rw [ih, List.map_map, List.map_map]
      congr 1
      funext hit
      simp [Hit.after, Hit.shift, Extent.shift]

/-! ## The ways of a repetition -/

theorem mem_follow {first : List Hit} {later : Nat → List Hit} {hit : Hit} :
    hit ∈ follow first later ↔
      ∃ early ∈ first, ∃ next ∈ later early.stop, hit = early.after next := by
  simp only [follow, List.mem_flatMap, List.mem_map, eq_comm]

theorem mem_arrange {α : Type} {greedy : Bool} {goOn stopHere : List α} {a : α} :
    a ∈ arrange greedy goOn stopHere ↔ a ∈ goOn ∨ a ∈ stopHere := by
  cases greedy <;> simp [arrange, or_comm]

/-- Repeating is stopping here, or one iteration that consumes and repeating
from its end. -/
theorem mem_repetitions_succ {greedy : Bool} {step : Nat → List Hit}
    {room minimum start : Nat} {hit : Hit} :
    hit ∈ repetitions greedy step (room + 1) minimum start ↔
      (minimum = 0 ∧ hit = ⟨start, []⟩) ∨
      ∃ first ∈ step start, start < first.stop ∧
        ∃ later ∈ repetitions greedy step room (minimum - 1) first.stop,
          hit = first.after later := by
  rw [repetitions, mem_arrange, mem_stopsHere, mem_follow, or_comm]
  simp only [mem_consuming, and_assoc]

end Pattern

end CommentMacro
