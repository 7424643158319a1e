import CommentMacro.Proofs.Pattern.Scan
import Mathlib.Data.List.Chain

/-!
# The matches and the gaps cover a sequence

Scanning finds matches from left to right that do not overlap, each of them the match at
the offset where it starts, and leaves out no other offset at which something matches.
The matches and the gaps between them follow upon one another from the first item to the
last, every gap holds something, and no gap follows upon a gap (`segments_cover`). So
putting the items of each match in its place gives the items again.
-/

namespace CommentMacro

namespace Segment

def start : Segment → Nat
  | found m => m.start
  | gap start _ => start

def stop : Segment → Nat
  | found m => m.stop
  | gap _ stop => stop

def match? : Segment → Option Match
  | found m => some m
  | gap .. => none

/-- Segments follow upon one another from an offset to another one. -/
def Tile (start stop : Nat) : List Segment → Prop
  | [] => start = stop
  | segment :: later =>
    segment.start = start ∧ segment.start ≤ segment.stop ∧ Tile segment.stop stop later

theorem tile_gapBetween_append {start middle stop : Nat} {later : List Segment}
    (h : start ≤ middle) (hlater : Tile middle stop later) :
    Tile start stop (gapBetween start middle ++ later) := by
  unfold gapBetween
  split
  · exact ⟨rfl, h, hlater⟩
  · obtain rfl : start = middle := by omega
    exact hlater

/-- A segment is not a gap behind a gap. -/
def Alternate (segment later : Segment) : Prop :=
  segment.match?.isSome ∨ later.match?.isSome

end Segment

namespace Pattern

variable {p : Pattern} {ks : Array Kind} {start : Nat} {matches' : List Match}

/-! ## The matches -/

theorem Scanned.bounds (h : Scanned p ks start matches') :
    ∀ m ∈ matches', m.start ≤ m.stop ∧ m.stop ≤ ks.size ∧ p.matchAt? ks m.start = some m := by
  induction h with
  | ended h => exact fun m hm => nomatch hm
  | passed _ _ _ ih => exact ih
  | found hle h _ ih =>
      refine List.forall_mem_cons.mpr ⟨?_, ih⟩
      obtain rfl := start_of_matchAt? h
      have hbounds := bounds_of_matchAt? hle h
      exact ⟨hbounds.1, hbounds.2, h⟩

/-- A match starts behind the ones in front of it, and not where one of them starts. -/
theorem Scanned.apart (h : Scanned p ks start matches') :
    matches'.Pairwise fun m later => m.stop ≤ later.start ∧ m.start < later.start := by
  induction h with
  | ended h => exact .nil
  | passed _ _ _ ih => exact ih
  | found hle h hlater ih =>
      refine .cons (fun later hmem => ?_) ih
      have hstart := hlater.le_start later hmem
      rw [start_of_matchAt? h]
      omega

/-- Nothing matches at an offset that is passed. -/
theorem Scanned.eq_none (h : Scanned p ks start matches') {offset : Nat} (hle : start ≤ offset)
    (hsize : offset ≤ ks.size)
    (hfree : ∀ m ∈ matches', offset ≠ m.start ∧ ¬ (m.start < offset ∧ offset < m.stop)) :
    p.matchAt? ks offset = none := by
  induction h with
  | ended h => omega
  | passed _ h _ ih =>
      rcases Nat.eq_or_lt_of_le hle with rfl | hlt
      · exact h
      · exact ih hlt hfree
  | found _ h _ ih =>
      obtain ⟨hhere, hlater⟩ := List.forall_mem_cons.mp hfree
      rw [start_of_matchAt? h] at hhere
      exact ih (by omega) hlater

/-! ## The segments -/

theorem filterMap_gapBetween (start stop : Nat) :
    (Segment.gapBetween start stop).filterMap Segment.match? = [] := by
  unfold Segment.gapBetween
  split <;> rfl

/-- The matches among the segments are those that were found. -/
theorem filterMap_segmentsFrom (size last : Nat) (matches' : List Match) :
    (segmentsFrom size last matches').filterMap Segment.match? = matches' := by
  induction matches' generalizing last with
  | nil => exact filterMap_gapBetween last size
  | cons m later ih =>
      have hfound : (Segment.found m).match? = some m := rfl
      rw [segmentsFrom, List.filterMap_append, filterMap_gapBetween, List.nil_append,
        List.filterMap_cons_some hfound, ih]

theorem tile_segmentsFrom {size last : Nat} (hlast : last ≤ size)
    (hstart : ∀ m ∈ matches', last ≤ m.start)
    (hbounds : ∀ m ∈ matches', m.start ≤ m.stop ∧ m.stop ≤ size)
    (hapart : matches'.Pairwise fun m later => m.stop ≤ later.start) :
    Segment.Tile last size (segmentsFrom size last matches') := by
  induction matches' generalizing last with
  | nil =>
      rw [segmentsFrom, ← List.append_nil (Segment.gapBetween last size)]
      exact Segment.tile_gapBetween_append hlast rfl
  | cons m later ih =>
      obtain ⟨hm, hlater⟩ := List.forall_mem_cons.mp hbounds
      obtain ⟨hbehind, hapart⟩ := List.pairwise_cons.mp hapart
      rw [segmentsFrom]
      exact Segment.tile_gapBetween_append (hstart m List.mem_cons_self)
        ⟨rfl, hm.1, ih hm.2 hbehind hlater hapart⟩

theorem lt_of_gap_mem_gapBetween {last size start stop : Nat}
    (h : .gap start stop ∈ Segment.gapBetween last size) : start < stop := by
  unfold Segment.gapBetween at h
  split at h
  · obtain ⟨rfl, rfl⟩ := Segment.gap.inj (List.mem_singleton.mp h)
    assumption
  · simp at h

/-- Every gap holds something. -/
theorem lt_of_gap_mem_segmentsFrom {size last start stop : Nat}
    (h : .gap start stop ∈ segmentsFrom size last matches') : start < stop := by
  induction matches' generalizing last with
  | nil => exact lt_of_gap_mem_gapBetween h
  | cons m later ih =>
      rw [segmentsFrom, List.mem_append, List.mem_cons] at h
      rcases h with h | h | h
      · exact lt_of_gap_mem_gapBetween h
      · simp at h
      · exact ih h

/-- No gap follows upon a gap. -/
theorem isChain_segmentsFrom (size last : Nat) (matches' : List Match) :
    (segmentsFrom size last matches').IsChain Segment.Alternate := by
  induction matches' generalizing last with
  | nil =>
      rw [segmentsFrom, Segment.gapBetween]
      split <;> simp
  | cons m later ih =>
      have hfound : (.found m :: segmentsFrom size m.stop later).IsChain Segment.Alternate :=
        List.isChain_cons.mpr ⟨fun _ _ => .inl rfl, ih m.stop⟩
      rw [segmentsFrom, Segment.gapBetween]
      split
      · refine List.isChain_cons.mpr ⟨fun segment hmem => .inr ?_, hfound⟩
        obtain rfl := Option.some.inj hmem
        rfl
      · exact hfound

/-- A sequence begins with a gap or with a match at its front, if it is not empty. -/
theorem segments_cases (p : Pattern) (ks : List Kind) :
    p.segments ks.toArray = [] ∨
      (∃ stop later, p.segments ks.toArray = .gap 0 stop :: later) ∨
      ∃ m later, p.matchAt? ks.toArray 0 = some m ∧ p.segments ks.toArray = .found m :: later := by
  have hscanned := scanned_occurrencesFrom p ks.toArray 0
  rw [segments_eq]
  cases hmatches : p.occurrencesFrom ks.toArray 0 with
  | nil =>
      rw [segmentsFrom, Segment.gapBetween]
      split
      · exact .inr (.inl ⟨_, _, rfl⟩)
      · exact .inl rfl
  | cons m later =>
      rw [hmatches] at hscanned
      rw [segmentsFrom, Segment.gapBetween]
      split
      · exact .inr (.inl ⟨_, _, rfl⟩)
      · next hstart =>
          have hm := (hscanned.bounds m List.mem_cons_self).2.2
          rw [Nat.eq_zero_of_not_pos hstart] at hm
          exact .inr (.inr ⟨m, _, hm, rfl⟩)

/-- Segments that follow upon one another make up the items between their ends. -/
theorem flatMap_of_tile {α : Type} (items : List α) {start stop : Nat} {segments' : List Segment}
    (h : Segment.Tile start stop segments') :
    start ≤ stop ∧
      segments'.flatMap (Segment.replace (fun m => m.items items) (Text.slice items)) =
        Text.slice items start stop := by
  induction segments' generalizing start with
  | nil =>
      obtain rfl : start = stop := h
      exact ⟨Nat.le_refl _, (slice_self items start).symm⟩
  | cons segment later ih =>
      obtain ⟨rfl, hle, hlater⟩ := h
      obtain ⟨hstop, hjoined⟩ := ih hlater
      refine ⟨Nat.le_trans hle hstop, ?_⟩
      rw [← slice_append_slice items hle hstop, ← hjoined]
      cases segment <;> rfl

/-- The matches that are found in a list of items, read by their kinds, stand from left
to right without overlap, start at different offsets and are each the match at its
offset; at no other offset does the pattern match, except inside a match. They are the
matches among the segments. The segments follow upon one another from the first item to
the last, no gap is empty, and none follows upon a gap; so with the items of each match
in its place the list is what it was. -/
theorem segments_cover {α : Type} (p : Pattern) (kindOf : α → Kind) (items : List α) :
    let ks := (items.map kindOf).toArray
    let found := p.occurrences ks
    let cut := p.segments ks
    (∀ m ∈ found, m.start ≤ m.stop ∧ m.stop ≤ items.length ∧ p.matchAt? ks m.start = some m) ∧
    (found.Pairwise fun m later => m.stop ≤ later.start ∧ m.start < later.start) ∧
    (∀ offset ≤ items.length,
      (∀ m ∈ found, offset ≠ m.start ∧ ¬ (m.start < offset ∧ offset < m.stop)) →
        p.matchAt? ks offset = none) ∧
    cut.filterMap Segment.match? = found ∧
    Segment.Tile 0 items.length cut ∧
    (∀ start stop, .gap start stop ∈ cut → start < stop) ∧
    cut.IsChain Segment.Alternate ∧
    p.rebuild kindOf (fun m => m.items items) items = items := by
  intro ks found cut
  have hscanned : Scanned p ks 0 found := by
    show Scanned p ks 0 (p.occurrences ks)
    rw [occurrences_eq]
    exact scanned_occurrencesFrom p ks 0
  have hsize : ks.size = items.length := by simp [ks]
  have htile : Segment.Tile 0 items.length cut := by
    rw [← hsize]
    exact tile_segmentsFrom (Nat.zero_le _) (fun m _ => Nat.zero_le _)
      (fun m hm => ⟨(hscanned.bounds m hm).1, (hscanned.bounds m hm).2.1⟩)
      (hscanned.apart.imp And.left)
  rw [← hsize] at htile ⊢
  refine ⟨hscanned.bounds, hscanned.apart, fun offset => hscanned.eq_none (Nat.zero_le _),
    filterMap_segmentsFrom _ _ _, htile, fun start stop => lt_of_gap_mem_segmentsFrom,
    isChain_segmentsFrom _ _ _, ?_⟩
  have hjoined := (flatMap_of_tile items htile).2
  rw [hsize, Text.slice, List.drop_zero, Nat.sub_zero, List.take_length] at hjoined
  exact hjoined

end Pattern

end CommentMacro
