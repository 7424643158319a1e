import CommentMacro.Proofs.Pattern.Priority
import CommentMacro.Proofs.Pattern.Scan
import Mathlib.Data.List.TakeWhile

/-!
# How the common shapes match

A word matches where it stands (`attempts_word`). Skipping lazily tries the
offsets from left to right (`attempts_skip`), so skipping up to a pattern stops at
the first place where the pattern has a way to match (`head?_attempts_upTo`), and
repeating greedily goes as far as it can (`head?_attempts_greedy`).
`NoneBefore` says what "first place" means for a test on the rest of a list.
-/

namespace CommentMacro

variable {α : Type}

/-! ## The first place in a list -/

/-- A test fails at every place within `part`, with `rest` behind it. -/
def NoneBefore (test : List α → Bool) (part rest : List α) : Prop :=
  ∀ i, i < part.length → test ((part ++ rest).drop i) = false

@[simp] theorem noneBefore_nil (test : List α → Bool) (rest : List α) :
    NoneBefore test [] rest := by
  intro i hi
  simp at hi

theorem noneBefore_cons {test : List α → Bool} {item : α} {part rest : List α} :
    NoneBefore test (item :: part) rest ↔
      test (item :: (part ++ rest)) = false ∧ NoneBefore test part rest := by
  constructor
  · intro h
    exact ⟨h 0 (Nat.zero_lt_succ _), fun i hi => h (i + 1) (Nat.succ_lt_succ hi)⟩
  · rintro ⟨hhere, hlater⟩ i hi
    cases i with
    | zero => exact hhere
    | succ i => exact hlater i (Nat.lt_of_succ_lt_succ hi)

theorem noneBefore_append {test : List α → Bool} {first second rest : List α} :
    NoneBefore test (first ++ second) rest ↔
      NoneBefore test first (second ++ rest) ∧ NoneBefore test second rest := by
  induction first with
  | nil => simp
  | cons item first ih =>
      rw [List.cons_append, noneBefore_cons, noneBefore_cons, ih, List.append_assoc, and_assoc]

/-- The first place where a test succeeds cuts a list in two. -/
theorem exists_first (test : List α → Bool) (items : List α) :
    (NoneBefore test items [] ∧ test [] = false) ∨
      ∃ part rest, items = part ++ rest ∧ NoneBefore test part rest ∧ test rest = true := by
  induction items with
  | nil =>
      cases h : test [] with
      | false => exact Or.inl ⟨noneBefore_nil test [], rfl⟩
      | true => exact Or.inr ⟨[], [], rfl, noneBefore_nil test [], h⟩
  | cons item items ih =>
      cases h : test (item :: items) with
      | true => exact Or.inr ⟨[], item :: items, rfl, noneBefore_nil test _, h⟩
      | false =>
          rcases ih with ⟨hnone, hend⟩ | ⟨part, rest, rfl, hnone, htest⟩
          · exact Or.inl ⟨noneBefore_cons.mpr ⟨by simpa using h, hnone⟩, hend⟩
          · exact Or.inr ⟨item :: part, rest, rfl, noneBefore_cons.mpr ⟨h, hnone⟩, htest⟩

theorem NoneBefore.unique {test : List α → Bool} {part part' rest rest' : List α}
    (h : NoneBefore test part rest) (h' : NoneBefore test part' rest') (hrest : test rest = true)
    (hrest' : test rest' = true) (heq : part ++ rest = part' ++ rest') :
    part = part' ∧ rest = rest' := by
  have hlonger : ∀ {part between rest : List α}, test (between ++ rest) = true →
      NoneBefore test (part ++ between) rest → between = [] := by
    intro part between rest htest hnone
    cases between with
    | nil => rfl
    | cons item between =>
        have := hnone part.length (by simp)
        rw [List.append_assoc, List.drop_left, htest] at this
        simp at this
  rcases List.append_eq_append_iff.mp heq with ⟨between, rfl, rfl⟩ | ⟨between, rfl, rfl⟩
  · simp [hlonger hrest h']
  · simp [hlonger hrest' h]

namespace Pattern

@[simp] theorem Hit.after_empty (hit : Hit) (start : Nat) :
    (⟨start, []⟩ : Hit).after hit = hit := by
  simp [Hit.after]

/-! ## Words -/

theorem attempts_kind (k : Kind) (l : List Kind) (start : Nat) :
    attempts l.toArray (kind k) start =
      if l[start]? = some k then [⟨start + 1, []⟩] else [] := by
  have hamong : isAmong [k] l[start]? = true ↔ l[start]? = some k := by simp [isAmong_iff]
  simp only [kind, attempts, List.getElem?_toArray, hamong]

@[simp] theorem attempts_never (l : List Kind) (start : Nat) :
    attempts l.toArray never start = [] := by
  have hamong : ∀ found, isAmong [] found = false := by
    intro found
    cases found <;> rfl
  simp [never, attempts, hamong]

/-- A kind that may be missing is taken first if it is there. -/
theorem attempts_optional_kind (k : Kind) (l : List Kind) (start : Nat) :
    attempts l.toArray (optional (kind k)) start =
      (if l[start]? = some k then [⟨start + 1, []⟩] else []) ++ [⟨start, []⟩] := by
  have hoptional : optional (kind k) = either (kind k) (either empty never) := rfl
  rw [hoptional]
  simp only [attempts]
  rw [attempts_kind, attempts_never, List.append_nil]

/-- A word has one way to match, where it stands. -/
theorem attempts_word (w : Text) (l : List Kind) :
    attempts l.toArray (word w) 0 = if w.isPrefixOf l then [⟨w.length, []⟩] else [] := by
  induction w generalizing l with
  | nil => simp [word, seq, attempts]
  | cons k w ih =>
      have hword : word (k :: w) = both (kind k) (word w) := rfl
      rw [hword]
      simp only [attempts, attempts_kind]
      cases l with
      | nil => simp
      | cons found l =>
          by_cases hk : found = k
          · subst hk
            have hrest := attempts_append_left [found] l (word w) 0
            rw [ih] at hrest
            have hone : attempts (found :: l).toArray (word w) 1 =
                (if w.isPrefixOf l then [(⟨w.length, []⟩ : Hit)] else []).map (Hit.shift 1) :=
              hrest
            simp only [List.getElem?_cons_zero, if_true, follow_cons, follow_nil, List.append_nil,
              Nat.zero_add, hone, List.isPrefixOf_cons_cons, BEq.rfl, Bool.true_and]
            split
            · simp [Hit.shift, Nat.add_comm]
            · simp
          · have hne : (k == found) = false := by
              simpa using fun h => hk h.symm
            simp [hk, List.isPrefixOf, hne]

theorem isAhead_toArray (l : List Kind) (w : Text) : isAhead l.toArray w 0 = w.isPrefixOf l := by
  induction w generalizing l with
  | nil => simp [isAhead]
  | cons k w ih =>
      cases l with
      | nil => simp [isAhead]
      | cons found l =>
          have hlater := isAhead_append_left [found] l w 0
          rw [ih] at hlater
          rw [isAhead, List.isPrefixOf_cons_cons, ← hlater, Bool.beq_comm]
          rfl

/-- The ways of an alternative are those of its choices in order. -/
theorem attempts_alt (choices : List Pattern) (l : List Kind) (start : Nat) :
    attempts l.toArray (alt choices) start =
      choices.flatMap fun choice => attempts l.toArray choice start := by
  induction choices with
  | nil => exact attempts_never l start
  | cons choice choices ih =>
      rw [List.flatMap_cons, ← ih]
      rfl

/-! ## Skipping -/

/-- Skipping lazily stops at every offset in turn. -/
theorem attempts_skip (l : List Kind) :
    attempts l.toArray (lazyStar any) 0 = (List.range (l.length + 1)).map fun i => ⟨i, []⟩ := by
  induction l with
  | nil => rfl
  | cons k l ih =>
      have hstep : ∀ start, attempts (k :: l).toArray any (1 + start) =
          (attempts l.toArray any start).map (Hit.shift 1) :=
        attempts_append_left [k] l any
      have hlater : repetitions false (attempts (k :: l).toArray any) l.length 0 1 =
          (attempts l.toArray (lazyStar any) 0).map (Hit.shift 1) :=
        repetitions_shift hstep l.length 0 0
      have hfirst : attempts (k :: l).toArray any 0 = [⟨1, []⟩] := by
        simp [attempts]
      have hafter : (⟨1, []⟩ : Hit).after = id := by
        funext hit
        exact Hit.after_empty hit 1
      have hroom : (k :: l).toArray.size - 0 = l.length + 1 := by simp
      rw [lazyStar, attempts, hroom]
      have hconsuming : consuming 0 [(⟨1, []⟩ : Hit)] = [⟨1, []⟩] := rfl
      have hhere : stopsHere 0 0 = [⟨0, []⟩] := rfl
      rw [repetitions, hfirst, hconsuming, follow_cons, follow_nil, hafter, List.map_id,
        List.append_nil, Nat.zero_sub, hlater, ih, hhere, List.length_cons]
      simp only [arrange, Bool.false_eq_true, if_false]
      conv => rhs; rw [List.range_succ_eq_map, List.map_cons, List.map_map]
      rw [List.map_map, List.singleton_append]
      congr 1
      apply List.map_congr_left
      intro i _
      simp [Hit.shift, Nat.add_comm]

theorem findSome?_range_eq_some {β : Type} {f : Nat → Option β} {n i : Nat} {b : β}
    (hi : i < n) (hbefore : ∀ j < i, f j = none) (h : f i = some b) :
    (List.range n).findSome? f = some b := by
  have hsplit : List.range n = List.range i ++ i :: List.range' (i + 1) (n - i - 1) := by
    have hn : n = i + (1 + (n - i - 1)) := by omega
    conv => lhs; rw [hn]
    rw [List.range_eq_range', List.range_eq_range', ← List.range'_append_1, Nat.add_comm 1,
      List.range'_succ, Nat.zero_add]
  rw [List.findSome?_eq_some_iff]
  refine ⟨List.range i, i, _, hsplit, h, ?_⟩
  intro j hj
  exact hbefore j (List.mem_range.mp hj)

variable {q : Pattern}

/-- Whether a pattern has a way to match at the front of a list. -/
def begins (q : Pattern) (l : List Kind) : Bool :=
  !(attempts l.toArray q 0).isEmpty

theorem attempts_eq_drop (q : Pattern) (l : List Kind) {start : Nat} (h : start ≤ l.length) :
    attempts l.toArray q start = (attempts (l.drop start).toArray q 0).map (Hit.shift start) := by
  have hlength : (l.take start).length = start := by
    rw [List.length_take, Nat.min_eq_left h]
  have := attempts_append_left (l.take start) (l.drop start) q 0
  rwa [List.take_append_drop, hlength] at this

/-- A pattern that stops at every offset in turn, whatever it remembers. -/
def Skips (skip : Pattern) (remembered : Nat → List Extent) : Prop :=
  ∀ l : List Kind, attempts l.toArray skip 0 =
    (List.range (l.length + 1)).map fun i => ⟨i, remembered i⟩

theorem skips_lazyStar : Skips (lazyStar any) fun _ => [] :=
  attempts_skip

theorem skips_capture (name : Text) :
    Skips (capture name (lazyStar any)) fun i => [⟨name, 0, i⟩] := by
  intro l
  simp only [attempts, attempts_skip, List.map_map]
  rfl

variable {skip : Pattern} {remembered : Nat → List Extent}

/-- Skipping up to a pattern ends at the first place where the pattern has a way
to match. -/
theorem head?_attempts_upTo (hskip : Skips skip remembered) {part rest : List Kind} {hit : Hit}
    (hnone : NoneBefore (begins q) part rest)
    (h : (attempts rest.toArray q 0).head? = some hit) :
    (attempts (part ++ rest).toArray (both skip q) 0).head? =
      some ⟨part.length + hit.stop,
        remembered part.length ++ hit.captures.map (Extent.shift part.length)⟩ := by
  simp only [attempts]
  rw [hskip, follow, List.flatMap_map, List.head?_flatMap]
  apply findSome?_range_eq_some (i := part.length)
  · show part.length < (part ++ rest).length + 1
    rw [List.length_append]
    omega
  · intro i hi
    have hbegins := hnone i hi
    have hle : i ≤ (part ++ rest).length := by
      simp
      omega
    -- skipping fewer items leaves the pattern at a place where it has no way to match
    rw [begins, Bool.not_eq_false', List.isEmpty_iff] at hbegins
    simp [attempts_eq_drop q _ hle, hbegins]
  · have hat := attempts_append_left part rest q 0
    rw [Nat.add_zero] at hat
    simp [Hit.after, hat, h, Hit.shift]

/-- Nothing is found if the pattern has no way to match anywhere. -/
theorem attempts_upTo_eq_nil (hskip : Skips skip remembered) {l : List Kind}
    (hnone : NoneBefore (begins q) l []) (hend : begins q [] = false) :
    attempts l.toArray (both skip q) 0 = [] := by
  simp only [attempts]
  rw [hskip, follow, List.flatMap_map, List.flatMap_eq_nil_iff]
  intro i hi
  have hle : i ≤ l.length := Nat.le_of_lt_succ (List.mem_range.mp hi)
  have hbegins : begins q (l.drop i) = false := by
    rcases Nat.lt_or_ge i l.length with hlt | hge
    · simpa using hnone i hlt
    · rwa [List.drop_of_length_le hge]
  rw [begins, Bool.not_eq_false', List.isEmpty_iff] at hbegins
  simp [attempts_eq_drop q _ hle, hbegins]

/-! ## Repeating -/

/-- A block of kinds that a pattern goes through first, whatever is behind it. -/
structure Takes (q : Pattern) (block : List Kind) : Prop where
  ne_nil : block ≠ []
  head? : ∀ later, (attempts (block ++ later).toArray q 0).head? = some ⟨block.length, []⟩

/-- The first way of a greedy repetition goes on with the first way of an iteration. -/
theorem head?_attempts_again {l : List Kind} {minimum stop : Nat} {found : Hit} (hpos : 0 < stop)
    (hfirst : (attempts l.toArray q 0).head? = some ⟨stop, []⟩)
    (hlater : (attempts l.toArray (repeated true (minimum - 1) q) stop).head? = some found) :
    (attempts l.toArray (repeated true minimum q) 0).head? = some found := by
  obtain ⟨others, hways⟩ := List.head?_eq_some_iff.mp hfirst
  obtain ⟨more, hmore⟩ := List.head?_eq_some_iff.mp hlater
  rw [attempts_repeated, hways]
  simp [consuming, arrange, hpos, hmore]

/-- A greedy repetition goes through all blocks, if it cannot go on behind them. -/
theorem head?_attempts_greedy {blocks : List (List Kind)} {rest : List Kind} {minimum : Nat}
    (hblocks : ∀ block ∈ blocks, Takes q block) (hrest : attempts rest.toArray q 0 = [])
    (hminimum : minimum ≤ blocks.length) :
    (attempts (blocks.flatten ++ rest).toArray (repeated true minimum q) 0).head? =
      some ⟨blocks.flatten.length, []⟩ := by
  induction blocks generalizing minimum with
  | nil =>
      obtain rfl := Nat.le_zero.mp hminimum
      rw [attempts_repeated, List.flatten_nil, List.nil_append, hrest]
      rfl
  | cons block blocks ih =>
      have hblock := hblocks block List.mem_cons_self
      have hfewer : minimum - 1 ≤ blocks.length := by
        rw [List.length_cons] at hminimum
        omega
      have hlater := ih (fun later hmem => hblocks later (List.mem_cons_of_mem _ hmem)) hfewer
      have hbehind := attempts_append_left block (blocks.flatten ++ rest)
        (repeated true (minimum - 1) q) 0
      rw [List.flatten_cons, List.append_assoc]
      apply head?_attempts_again (List.length_pos_iff.mpr hblock.ne_nil) (hblock.head? _)
      rw [Nat.add_zero] at hbehind
      rw [hbehind, List.head?_map, hlater]
      simp [Hit.shift]

/-- A run of some kinds is gone through to its end. -/
theorem head?_attempts_run {among : Text} {l : List Kind} (hne : l.takeWhile among.contains ≠ []) :
    (attempts l.toArray (plus (kinds among)) 0).head? =
      some ⟨(l.takeWhile among.contains).length, []⟩ := by
  have hblocks : ∀ block ∈ (l.takeWhile among.contains).map ([·]), Takes (kinds among) block := by
    intro block hmem
    obtain ⟨k, hk, rfl⟩ := List.mem_map.mp hmem
    have hamong : among.contains k = true := List.mem_takeWhile_imp hk
    refine ⟨List.cons_ne_nil k [], fun later => ?_⟩
    simp only [attempts, List.getElem?_toArray, List.singleton_append, List.getElem?_cons_zero,
      isAmong, hamong]
    rfl
  have hrest : attempts (l.dropWhile among.contains).toArray (kinds among) 0 = [] := by
    have hhead := List.head?_dropWhile_not among.contains l
    cases hdrop : l.dropWhile among.contains with
    | nil => rfl
    | cons k rest =>
        rw [hdrop] at hhead
        have hrefused : isAmong among (some k) = false := hhead
        simp [attempts, hrefused]
  have hminimum : 1 ≤ ((l.takeWhile among.contains).map ([·])).length := by
    rw [List.length_map]
    exact List.length_pos_iff.mpr hne
  have hflatten :
      ((l.takeWhile among.contains).map ([·])).flatten = l.takeWhile among.contains := by
    rw [← List.flatMap_def, List.flatMap_singleton']
  have hgreedy := head?_attempts_greedy hblocks hrest hminimum
  rwa [hflatten, List.takeWhile_append_dropWhile] at hgreedy

theorem attempts_run_eq_nil {among : Text} {l : List Kind} (h : l.takeWhile among.contains = []) :
    attempts l.toArray (plus (kinds among)) 0 = [] := by
  have hfirst : attempts l.toArray (kinds among) 0 = [] := by
    cases l with
    | nil => rfl
    | cons k l =>
        have hrefused : isAmong among (some k) = false := by
          rw [Bool.eq_false_iff]
          intro hamong
          have hcontains : among.contains k = true := hamong
          rw [List.takeWhile_cons_of_pos hcontains] at h
          simp at h
        simp [attempts, hrefused]
  rw [plus, attempts_repeated, hfirst]
  rfl

end Pattern

end CommentMacro
