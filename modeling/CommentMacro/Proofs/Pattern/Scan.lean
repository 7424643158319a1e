import CommentMacro.Proofs.Pattern.Suffix

/-!
# Scanning goes on behind what was read

The segments of a sequence are read from its front: where a pattern matches, the match
is the first segment (`segments_append`), and where it does not, the first item joins the
gap behind it, if there is one (`segments_cons`). What is made of the segments follows:
an item that starts no match stays (`rebuild_cons`), and the items of a match are replaced
(`rebuild_append`). A pass is proved about with these equations only.

What becomes of a match may depend on the items that the match spans, and on no
others: `Local` says so.

The scan itself is described by its steps (`Scanned`), so that what holds of all matches
is an induction with one case for each kind of step.
-/

namespace CommentMacro.Pattern

variable {α : Type}

/-! ## The match at an offset -/

theorem matchAt?_eq (p : Pattern) (ks : Array Kind) (start : Nat) :
    p.matchAt? ks start =
      (attempts ks p start).head?.map fun hit => ⟨start, hit.stop, hit.captures⟩ := by
  rw [matchAt?, Choices.head?_eq, toList_choices]

theorem matchAt?_append_left (front rest : List Kind) (p : Pattern) (start : Nat) :
    p.matchAt? (front ++ rest).toArray (front.length + start) =
      (p.matchAt? rest.toArray start).map (Match.shift front.length) := by
  rw [matchAt?_eq, matchAt?_eq, attempts_append_left, List.head?_map, Option.map_map,
    Option.map_map]
  rfl

theorem start_of_matchAt? {p : Pattern} {ks : Array Kind} {start : Nat} {m : Match}
    (h : p.matchAt? ks start = some m) : m.start = start := by
  rw [matchAt?_eq] at h
  obtain ⟨hit, -, rfl⟩ := Option.map_eq_some_iff.mp h
  rfl

theorem bounds_of_matchAt? {p : Pattern} {ks : Array Kind} {start : Nat} {m : Match}
    (hle : start ≤ ks.size) (h : p.matchAt? ks start = some m) :
    start ≤ m.stop ∧ m.stop ≤ ks.size := by
  rw [matchAt?_eq] at h
  obtain ⟨hit, hhit, rfl⟩ := Option.map_eq_some_iff.mp h
  exact bounds_of_mem_attempts hle (List.mem_of_head? hhit)

/-! ## One step of the scan -/

/-- The matches that a scan starting at an offset finds. -/
def occurrencesFrom (p : Pattern) (ks : Array Kind) (start : Nat) : List Match :=
  p.scan ks start (List.range' start (ks.size + 1 - start))

theorem occurrences_eq (p : Pattern) (ks : Array Kind) :
    p.occurrences ks = p.occurrencesFrom ks 0 := by
  rw [occurrences, occurrencesFrom, List.range_eq_range', Nat.sub_zero]

/-- Offsets inside the last match are passed over. -/
theorem scan_range' (p : Pattern) (ks : Array Kind) :
    ∀ n start resume, start + n = ks.size + 1 →
      p.scan ks resume (List.range' start n) = p.occurrencesFrom ks (max resume start) := by
  intro n
  induction n with
  | zero =>
      intro start resume h
      have hempty : ks.size + 1 - max resume start = 0 := by omega
      simp [occurrencesFrom, hempty, scan]
  | succ n ih =>
      intro start resume h
      rw [List.range'_succ]
      -- an offset inside the last match is passed over on both sides
      by_cases hlt : start < resume
      · rw [scan, if_pos hlt, ih (start + 1) resume (by omega)]
        congr 1
        omega
      · have hmax : max resume start = start := by omega
        have hcount : ks.size + 1 - start = n + 1 := by omega
        rw [hmax, occurrencesFrom, hcount, List.range'_succ, scan, scan, if_neg hlt,
          if_neg (Nat.lt_irrefl start)]
        cases p.matchAt? ks start with
        | some m => rfl
        | none =>
            simp only
            rw [ih (start + 1) resume (by omega), ih (start + 1) start (by omega)]
            congr 1
            omega

theorem occurrencesFrom_of_no_match {p : Pattern} {ks : Array Kind} {start : Nat}
    (hle : start ≤ ks.size) (h : p.matchAt? ks start = none) :
    p.occurrencesFrom ks start = p.occurrencesFrom ks (start + 1) := by
  have hcount : ks.size + 1 - start = (ks.size - start) + 1 := by omega
  rw [occurrencesFrom, hcount, List.range'_succ, scan, if_neg (Nat.lt_irrefl start), h]
  simp only
  rw [scan_range' p ks _ _ start (by omega)]
  congr 1
  omega

theorem occurrencesFrom_of_match {p : Pattern} {ks : Array Kind} {start : Nat} {m : Match}
    (hle : start ≤ ks.size) (h : p.matchAt? ks start = some m) :
    p.occurrencesFrom ks start = m :: p.occurrencesFrom ks (max m.stop (start + 1)) := by
  have hcount : ks.size + 1 - start = (ks.size - start) + 1 := by omega
  rw [occurrencesFrom, hcount, List.range'_succ, scan, if_neg (Nat.lt_irrefl start), h]
  simp only
  rw [scan_range' p ks _ _ m.stop (by omega)]

theorem occurrencesFrom_of_lt {p : Pattern} {ks : Array Kind} {start : Nat}
    (h : ks.size < start) : p.occurrencesFrom ks start = [] := by
  have hcount : ks.size + 1 - start = 0 := by omega
  simp [occurrencesFrom, hcount, scan]

/-- What a scan finds from an offset on, one offset after another: it ends behind the
last offset, passes an offset where nothing matches, and goes on behind a match. -/
inductive Scanned (p : Pattern) (ks : Array Kind) : Nat → List Match → Prop
  | ended {start : Nat} (h : ks.size < start) : Scanned p ks start []
  | passed {start : Nat} {later : List Match} (hle : start ≤ ks.size)
      (h : p.matchAt? ks start = none) (hlater : Scanned p ks (start + 1) later) :
      Scanned p ks start later
  | found {start : Nat} {m : Match} {later : List Match} (hle : start ≤ ks.size)
      (h : p.matchAt? ks start = some m) (hlater : Scanned p ks (max m.stop (start + 1)) later) :
      Scanned p ks start (m :: later)

theorem scanned_occurrencesFrom (p : Pattern) (ks : Array Kind) (start : Nat) :
    Scanned p ks start (p.occurrencesFrom ks start) := by
  -- the induction is on the offsets left: behind a match the scan goes on several ahead
  induction hn : ks.size + 1 - start using Nat.strongRecOn generalizing start with
  | ind n ih =>
      rcases Nat.lt_or_ge ks.size start with hlt | hle
      · rw [occurrencesFrom_of_lt hlt]
        exact .ended hlt
      · cases hmatch : p.matchAt? ks start with
        | none =>
            rw [occurrencesFrom_of_no_match hle hmatch]
            exact .passed hle hmatch (ih _ (by omega) _ rfl)
        | some m =>
            rw [occurrencesFrom_of_match hle hmatch]
            exact .found hle hmatch (ih _ (by omega) _ rfl)

theorem Scanned.eq_occurrencesFrom {p : Pattern} {ks : Array Kind} {start : Nat}
    {matches' : List Match} (h : Scanned p ks start matches') :
    matches' = p.occurrencesFrom ks start := by
  induction h with
  | ended h => rw [occurrencesFrom_of_lt h]
  | passed hle h _ ih => rw [occurrencesFrom_of_no_match hle h, ih]
  | found hle h _ ih => rw [occurrencesFrom_of_match hle h, ih]

/-- Every match starts where the scan has got to. -/
theorem Scanned.le_start {p : Pattern} {ks : Array Kind} {start : Nat}
    {matches' : List Match} (h : Scanned p ks start matches') :
    ∀ m ∈ matches', start ≤ m.start := by
  induction h with
  | ended h => exact fun m hm => nomatch hm
  | passed _ _ _ ih => exact fun m hm => Nat.le_of_succ_le (ih m hm)
  | found _ h _ ih =>
      intro m hm
      rcases List.mem_cons.mp hm with rfl | hm
      · exact Nat.le_of_eq (start_of_matchAt? h).symm
      · have := ih m hm
        omega

/-- A scan finds the same matches, moved, with further kinds in front. -/
theorem Scanned.shift {p : Pattern} {front rest : List Kind} {start : Nat}
    {matches' : List Match} (h : Scanned p rest.toArray start matches') :
    Scanned p (front ++ rest).toArray (front.length + start)
      (matches'.map (Match.shift front.length)) := by
  have hsize : (front ++ rest).toArray.size = front.length + rest.toArray.size := by simp
  induction h with
  | ended h => exact .ended (by omega)
  | passed hle h _ ih => exact .passed (by omega) (by rw [matchAt?_append_left, h]; rfl) ih
  | @found start m later hle h _ ih =>
      have hnext : max (m.shift front.length).stop (front.length + start + 1) =
          front.length + max m.stop (start + 1) := by
        simp only [Match.shift]
        omega
      exact .found (by omega) (by rw [matchAt?_append_left, h]; rfl) (hnext ▸ ih)

theorem occurrencesFrom_append_left (p : Pattern) (front rest : List Kind) (start : Nat) :
    p.occurrencesFrom (front ++ rest).toArray (front.length + start) =
      (p.occurrencesFrom rest.toArray start).map (Match.shift front.length) :=
  (scanned_occurrencesFrom p rest.toArray start).shift.eq_occurrencesFrom.symm

/-! ## Segments from the front -/

theorem gapBetween_shift (k start stop : Nat) :
    Segment.gapBetween (k + start) (k + stop) =
      (Segment.gapBetween start stop).map (Segment.shift k) := by
  by_cases h : start < stop <;> simp [Segment.gapBetween, h, Segment.shift]

theorem segmentsFrom_shift (k size last : Nat) (matches' : List Match) :
    segmentsFrom (k + size) (k + last) (matches'.map (Match.shift k)) =
      (segmentsFrom size last matches').map (Segment.shift k) := by
  induction matches' generalizing last with
  | nil => exact gapBetween_shift k last size
  | cons m later ih =>
      rw [List.map_cons, segmentsFrom, segmentsFrom, List.map_append, List.map_cons, ← ih m.stop,
        ← gapBetween_shift]
      rfl

theorem segments_eq (p : Pattern) (ks : List Kind) :
    p.segments ks.toArray = segmentsFrom ks.length 0 (p.occurrencesFrom ks.toArray 0) := by
  rw [segments, occurrences_eq, List.size_toArray]

variable {p : Pattern}

theorem segments_nil (h : p.matchAt? #[] 0 = none) : p.segments #[] = [] := by
  have hnone : p.occurrencesFrom #[] 0 = [] := by
    rw [occurrencesFrom_of_no_match (Nat.zero_le _) h]
    exact occurrencesFrom_of_lt (by simp)
  rw [segments, occurrences_eq, hnone]
  rfl

/-- A match at the front is the first segment. -/
theorem segments_append {run ks : List Kind} {m : Match}
    (h : p.matchAt? (run ++ ks).toArray 0 = some m) (hstop : m.stop = run.length)
    (hne : run ≠ []) :
    p.segments (run ++ ks).toArray =
      .found m :: (p.segments ks.toArray).map (Segment.shift run.length) := by
  have hpos : 0 < run.length := List.length_pos_iff.mpr hne
  -- the scan goes on where the match ends, as it is not empty
  have hnext : max m.stop (0 + 1) = run.length + 0 := by omega
  have hbehind := segmentsFrom_shift run.length ks.length 0 (p.occurrencesFrom ks.toArray 0)
  rw [Nat.add_zero] at hbehind
  rw [segments_eq, occurrencesFrom_of_match (Nat.zero_le _) h, hnext, occurrencesFrom_append_left,
    segmentsFrom, start_of_matchAt? h, hstop, List.length_append, hbehind, segments_eq]
  rfl

theorem segments_cons {k : Kind} {ks : List Kind} (h : p.matchAt? (k :: ks).toArray 0 = none) :
    p.segments (k :: ks).toArray = Segment.widen (p.segments ks.toArray) := by
  have hlater : p.occurrencesFrom (k :: ks).toArray (1 + 0) =
      (p.occurrencesFrom ks.toArray 0).map (Match.shift 1) :=
    occurrencesFrom_append_left p [k] ks 0
  rw [segments_eq, segments_eq, occurrencesFrom_of_no_match (Nat.zero_le _) h, Nat.add_comm, hlater,
    List.length_cons, Nat.add_comm]
  cases p.occurrencesFrom ks.toArray 0 with
  | nil =>
      rcases Nat.eq_zero_or_pos ks.length with hzero | hpos
      · simp [segmentsFrom, Segment.gapBetween, Segment.widen, hzero]
      · simp [segmentsFrom, Segment.gapBetween, Segment.widen, hpos]
  | cons m later =>
      rw [List.map_cons, segmentsFrom, segmentsFrom]
      have hbehind := segmentsFrom_shift 1 ks.length m.stop later
      have hstart : (m.shift 1).start = 1 + m.start := rfl
      have hstop : (m.shift 1).stop = 1 + m.stop := rfl
      rw [hstart, hstop, hbehind]
      have hgap : 0 < 1 + m.start := by omega
      rcases Nat.eq_zero_or_pos m.start with hzero | hpos
      · simp [Segment.gapBetween, Segment.widen, Segment.shift, hzero]
      · simp [Segment.gapBetween, Segment.widen, Segment.shift, hpos, hgap]

/-! ## What is made of them -/

section Chunk

variable {β : Type} {onMatch onMatch' : Match → List β} {onGap onGap' : Nat → Nat → List β}
  {k : Nat}

theorem flatMap_replace_shift (hmatch : ∀ m, onMatch' (m.shift k) = onMatch m)
    (hgap : ∀ start stop, onGap' (k + start) (k + stop) = onGap start stop)
    (segments' : List Segment) :
    (segments'.map (Segment.shift k)).flatMap (Segment.replace onMatch' onGap') =
      segments'.flatMap (Segment.replace onMatch onGap) := by
  rw [List.flatMap_map]
  congr 1
  funext segment
  cases segment with
  | found m => exact hmatch m
  | gap start stop => exact hgap start stop

theorem chunk_append {run ks : List Kind} {m : Match}
    (hmatch : ∀ m, onMatch' (m.shift run.length) = onMatch m)
    (hgap : ∀ start stop, onGap' (run.length + start) (run.length + stop) = onGap start stop)
    (h : p.matchAt? (run ++ ks).toArray 0 = some m) (hstop : m.stop = run.length)
    (hne : run ≠ []) :
    p.chunk (run ++ ks).toArray onMatch' onGap' =
      onMatch' m ++ p.chunk ks.toArray onMatch onGap := by
  rw [chunk, segments_append h hstop hne, List.flatMap_cons, flatMap_replace_shift hmatch hgap]
  rfl

end Chunk

theorem slice_append_left (front items : List α) (start stop : Nat) :
    Text.slice (front ++ items) (front.length + start) (front.length + stop) =
      Text.slice items start stop := by
  rw [Text.slice, Text.slice, List.drop_length_add_append, Nat.add_sub_add_left]

theorem items_shift (front items : List α) (m : Match) :
    (m.shift front.length).items (front ++ items) = m.items items :=
  slice_append_left front items m.start m.stop

/-- What a name remembers is the same with further items in front. -/
theorem group?_shift (front items : List α) (m : Match) (name : Text) :
    (m.shift front.length).group? name (front ++ items) = m.group? name items := by
  have hextent : (m.shift front.length).extent? name =
      (m.extent? name).map (Extent.shift front.length) := by
    simp only [Match.extent?, Match.shift]
    rw [← List.map_reverse, List.find?_map]
    rfl
  rw [Match.group?, Match.group?, hextent, Option.map_map]
  congr 1
  funext extent
  exact slice_append_left front items extent.start extent.stop

theorem slice_append_slice (items : List α) {start middle stop : Nat} (h : start ≤ middle)
    (h' : middle ≤ stop) :
    Text.slice items start middle ++ Text.slice items middle stop =
      Text.slice items start stop := by
  have hdrop : items.drop middle = (items.drop start).drop (middle - start) := by
    rw [List.drop_drop]
    congr 1
    omega
  have hcount : stop - start = (middle - start) + (stop - middle) := by omega
  rw [Text.slice, Text.slice, Text.slice, hdrop, hcount, List.take_add]

theorem slice_self (items : List α) (start : Nat) : Text.slice items start start = [] := by
  simp [Text.slice]

theorem slice_map {β : Type} (f : α → β) (items : List α) (start stop : Nat) :
    Text.slice (items.map f) start stop = (Text.slice items start stop).map f := by
  rw [Text.slice, Text.slice, List.map_take, List.map_drop]

/-! ## Rebuilding from the front -/

/-- What becomes of a match is the same with further items in front. -/
def Local (onMatch : List α → Match → List α) : Prop :=
  ∀ front items m, onMatch (front ++ items) (m.shift front.length) = onMatch items m

section Rebuild

variable {kindOf : α → Kind} {onMatch : List α → Match → List α}

/-- An item at which no match starts stays. -/
theorem rebuild_cons (hlocal : Local onMatch) {item : α} {items : List α}
    (h : p.matchAt? ((item :: items).map kindOf).toArray 0 = none) :
    p.rebuild kindOf (onMatch (item :: items)) (item :: items) =
      item :: p.rebuild kindOf (onMatch items) items := by
  have hbehind := flatMap_replace_shift (hlocal [item] items) (slice_append_left [item] items)
  rw [rebuild, rebuild, chunk, chunk, List.map_cons, segments_cons h]
  generalize p.segments (items.map kindOf).toArray = segments'
  unfold Segment.widen
  split
  · next stop later =>
      rw [List.flatMap_cons, List.flatMap_cons, ← hbehind]
      have hgap : Text.slice (item :: items) 0 (1 + stop) = item :: Text.slice items 0 stop := by
        rw [Text.slice, Nat.sub_zero, Nat.add_comm, List.drop_zero, List.take_succ_cons]
        rfl
      exact congrArg (· ++ _) hgap
  · rw [List.flatMap_cons, ← hbehind]
    rfl

/-- The items of a match are replaced by what becomes of it. -/
theorem rebuild_append (hlocal : Local onMatch) {run items : List α} {m : Match}
    (h : p.matchAt? ((run ++ items).map kindOf).toArray 0 = some m)
    (hstop : m.stop = run.length) (hne : run ≠ []) :
    p.rebuild kindOf (onMatch (run ++ items)) (run ++ items) =
      onMatch (run ++ items) m ++ p.rebuild kindOf (onMatch items) items := by
  have hlength : (run.map kindOf).length = run.length := List.length_map kindOf
  rw [List.map_append] at h
  rw [rebuild, List.map_append]
  apply chunk_append _ _ h (hstop.trans hlength.symm) (by simpa using hne)
  · intro m
    rw [hlength]
    exact hlocal run items m
  · intro start stop
    rw [hlength]
    exact slice_append_left run items start stop

theorem rebuild_nil (h : p.matchAt? #[] 0 = none) :
    p.rebuild kindOf (onMatch []) [] = [] := by
  rw [rebuild, chunk, List.map_nil, segments_nil h]
  rfl

end Rebuild

theorem items_map {β : Type} (f : α → β) (m : Match) (items : List α) :
    m.items (items.map f) = (m.items items).map f :=
  slice_map f items m.start m.stop

theorem getD_group?_map {β : Type} (f : α → β) (m : Match) (name : Text) (items : List α) :
    (m.group? name (items.map f)).getD [] = ((m.group? name items).getD []).map f := by
  rw [Match.group?, Match.group?]
  cases m.extent? name with
  | none => rfl
  | some extent => exact slice_map f items extent.start extent.stop

/-- Rebuilding does the same to other items of the same kinds. -/
theorem rebuild_map {β : Type} (p : Pattern) {kindOf : α → Kind} {kindOf' : β → Kind}
    {onMatch : Match → List α} {onMatch' : Match → List β} {f : α → β}
    (hkind : ∀ item, kindOf' (f item) = kindOf item)
    (hmatch : ∀ m, onMatch' m = (onMatch m).map f) (items : List α) :
    p.rebuild kindOf' onMatch' (items.map f) = (p.rebuild kindOf onMatch items).map f := by
  have hkinds : kindOf' ∘ f = kindOf := funext hkind
  rw [rebuild, rebuild, chunk, chunk, List.map_map, hkinds, List.map_flatMap]
  congr 1
  funext segment
  cases segment with
  | found m => exact hmatch m
  | gap start stop => exact slice_map f items start stop

end CommentMacro.Pattern
