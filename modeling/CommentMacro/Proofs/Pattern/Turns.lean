import CommentMacro.Pattern.Search
import Mathlib.Data.List.Basic

/-!
# The loop of a repetition

The stack of a repetition finds what the recursion over its iterations lists, in the same
order (`hits_repetition`). At every moment the levels stand for what is still to come: the
ways to go on from the uppermost, then those from the one below it, and so on
(`Level.left`). A turn offers the first of these or none, and leaves the others
(`left_turn`); so the whole run offers all of them (`hits_loop`).

Since the search for the other operators follows the lists word for word, a search finds
the attempts of its pattern (`hits_search`), and as often as asked for (`toList_choices`).
-/

namespace CommentMacro.Pattern

variable {size origin start : Nat}

def hits (options : Choices (Way size start)) : List Hit :=
  options.toList.map Way.toHit

theorem bounds_of_mem_hits {options : Choices (Way size start)} {hit : Hit}
    (h : hit ∈ hits options) : start ≤ hit.stop ∧ hit.stop ≤ max start size := by
  obtain ⟨way, -, rfl⟩ := List.mem_map.mp h
  exact ⟨way.start_le, way.stop_le⟩

/-! ## Repetitions without a bound -/

@[simp] theorem follow_nil (later : Nat → List Hit) : follow [] later = [] :=
  rfl

@[simp] theorem follow_cons (hit : Hit) (first : List Hit) (later : Nat → List Hit) :
    follow (hit :: first) later = (later hit.stop).map hit.after ++ follow first later :=
  List.flatMap_cons

theorem follow_congr {first : List Hit} {later later' : Nat → List Hit}
    (h : ∀ hit ∈ first, later hit.stop = later' hit.stop) :
    follow first later = follow first later' := by
  apply List.flatMap_congr
  intro hit hmem
  rw [h hit hmem]

theorem mem_consuming {start : Nat} {ways : List Hit} {hit : Hit} :
    hit ∈ consuming start ways ↔ hit ∈ ways ∧ start < hit.stop := by
  simp [consuming]

theorem mem_stopsHere {minimum start : Nat} {hit : Hit} :
    hit ∈ stopsHere minimum start ↔ minimum = 0 ∧ hit = ⟨start, []⟩ := by
  by_cases h : minimum = 0 <;> simp [stopsHere, h]

/-- Where no iteration consumes anything, a repetition can only stop. -/
theorem repetitions_of_consuming_nil {greedy : Bool} {step : Nat → List Hit} {start : Nat}
    (h : consuming start (step start) = []) (room minimum : Nat) :
    repetitions greedy step room minimum start = stopsHere minimum start := by
  cases room with
  | zero => rfl
  | succ room =>
      rw [repetitions, h]
      cases greedy <;> simp [arrange]

section

variable {greedy : Bool} {step : Nat → List Hit}
  (hstep : ∀ {start hit}, hit ∈ step start → hit.stop ≤ max start size)
include hstep

theorem consuming_at_end {start : Nat} (hle : size ≤ start) :
    consuming start (step start) = [] := by
  rw [List.eq_nil_iff_forall_not_mem]
  intro hit hmem
  obtain ⟨hmem, hlt⟩ := mem_consuming.mp hmem
  have := hstep hmem
  omega

/-- More room than there are tokens left makes no difference. -/
theorem repetitions_room {room room' minimum start : Nat} (hroom : size - start ≤ room)
    (hroom' : size - start ≤ room') :
    repetitions greedy step room minimum start = repetitions greedy step room' minimum start := by
  induction room generalizing room' minimum start with
  | zero =>
      have hend : consuming start (step start) = [] := consuming_at_end hstep (by omega)
      rw [repetitions_of_consuming_nil hend, repetitions_of_consuming_nil hend]
  | succ room ih =>
      cases room' with
      | zero =>
          have hend : consuming start (step start) = [] := consuming_at_end hstep (by omega)
          rw [repetitions_of_consuming_nil hend, repetitions_of_consuming_nil hend]
      | succ room' =>
          rw [repetitions, repetitions]
          congr 1
          -- an iteration that is taken leaves less room to be filled
          apply follow_congr
          intro hit hmem
          obtain ⟨hmem, hlt⟩ := mem_consuming.mp hmem
          have hstop := hstep hmem
          exact ih (by omega) (by omega)

/-- The ways to repeat a step with as much room as is needed. -/
theorem repetitions_eq (minimum start : Nat) :
    repetitions greedy step (size - start) minimum start =
      arrange greedy
        (follow (consuming start (step start)) fun stop =>
          repetitions greedy step (size - stop) (minimum - 1) stop)
        (stopsHere minimum start) := by
  rw [repetitions_room hstep (Nat.le_refl _) (Nat.le_succ _), repetitions]
  congr 1
  apply follow_congr
  intro hit hmem
  obtain ⟨hmem, hlt⟩ := mem_consuming.mp hmem
  have hstop := hstep hmem
  exact repetitions_room hstep (by omega) (Nat.le_refl _)

end

/-! ## One turn -/

section

variable (greedy : Bool) (minimum : Nat) (step : Walk size)

/-- The ways to go on from an offset at which `count` iterations have been taken, of which
the next is one of `first`. -/
def goingOn (count start : Nat) (first : List Hit) : List Hit :=
  follow (consuming start first) fun stop =>
    repetitions greedy (fun start => hits (step start)) (size - stop) (minimum - (count + 1)) stop

/-- What is still to come of a level. A lazy repetition has offered the level itself when it
was put upon the stack, a greedy one will when it is taken off. -/
def Level.left (level : Level size origin) : List Hit :=
  (goingOn greedy minimum step level.count level.taken.stop (hits (level.options ())) ++
    if greedy then stopsHere (minimum - level.count) level.taken.stop else []).map
      level.taken.toHit.after

variable {greedy minimum step}

theorem goingOn_cons (count start : Nat) (hit : Hit) (later : List Hit) :
    goingOn greedy minimum step count start (hit :: later) =
      (if start < hit.stop then
        (repetitions greedy (fun start => hits (step start)) (size - hit.stop)
          (minimum - (count + 1)) hit.stop).map hit.after
      else []) ++ goingOn greedy minimum step count start later := by
  by_cases hlt : start < hit.stop <;> simp [goingOn, consuming, hlt]

theorem after_stay (hit : Hit) : hit.after ⟨hit.stop, []⟩ = hit := by
  simp [Hit.after]

theorem map_after_stopsHere (hit : Hit) (minimum count : Nat) :
    (stopsHere (minimum - count) hit.stop).map hit.after =
      if minimum ≤ count then [hit] else [] := by
  by_cases h : minimum ≤ count
  · rw [if_pos h, stopsHere, if_pos (Nat.sub_eq_zero_of_le h), List.map_singleton, after_stay]
  · rw [if_neg h, stopsHere, if_neg (by omega), List.map_nil]

/-- What is behind a way through an iteration: the level that it is put upon the stack as,
which a lazy repetition offers first. -/
theorem repetitions_deeper (taken : Way size origin) (count : Nat) (way : Way size taken.stop) :
    ((repetitions greedy (fun start => hits (step start)) (size - way.stop)
        (minimum - (count + 1)) way.stop).map way.toHit.after).map taken.toHit.after =
      (if greedy = false ∧ minimum ≤ count + 1 then [(taken.after way).toHit] else []) ++
        Level.left greedy minimum step
          ⟨taken.after way, count + 1, fun _ => step (taken.after way).stop⟩ := by
  have hafter : taken.toHit.after ∘ way.toHit.after = (taken.after way).toHit.after := by
    funext hit
    simp [Way.after, Hit.after]
  have hleft : Level.left greedy minimum step
        ⟨taken.after way, count + 1, fun _ => step (taken.after way).stop⟩ =
      (goingOn greedy minimum step (count + 1) way.stop (hits (step way.stop)) ++
        if greedy then stopsHere (minimum - (count + 1)) way.stop else []).map
          (taken.after way).toHit.after := rfl
  have hmore : (follow (consuming way.stop (hits (step way.stop))) fun stop =>
        repetitions greedy (fun start => hits (step start)) (size - stop)
          (minimum - (count + 1) - 1) stop) =
      goingOn greedy minimum step (count + 1) way.stop (hits (step way.stop)) := rfl
  have hhere := map_after_stopsHere (taken.after way).toHit minimum (count + 1)
  have hstop : (taken.after way).stop = way.stop := rfl
  rw [hstop] at hhere
  rw [repetitions_eq fun h => (bounds_of_mem_hits h).2, List.map_map, hafter, hmore, hleft]
  cases greedy
  · simp [arrange, hhere]
  · simp [arrange]

/-- A turn offers the first of what is still to come, or nothing, and leaves the rest. -/
theorem left_turn (top : Level size origin) (below : List (Level size origin)) :
    (top :: below).flatMap (Level.left greedy minimum step) =
      (turn greedy minimum step top below).1.toList.map Way.toHit ++
        (turn greedy minimum step top below).2.flatMap (Level.left greedy minimum step) := by
  obtain ⟨taken, count, options⟩ := top
  rw [List.flatMap_cons]
  cases hoptions : options () with
  | none =>
      have hnil : hits (options ()) = [] := by rw [hoptions]; rfl
      simp only [turn, hoptions]
      rw [Level.left, hnil]
      have hhere := map_after_stopsHere taken.toHit minimum count
      cases greedy
      · simp [goingOn, consuming]
      · simp only [goingOn, consuming, List.filter_nil, follow_nil, List.nil_append, if_true, hhere,
          true_and]
        split <;> rfl
  | wait next =>
      have hsame : hits (options ()) = hits (next ()) := by rw [hoptions]; rfl
      simp only [turn, hoptions]
      rw [List.flatMap_cons]
      simp only [Level.left, hsame]
      rfl
  | cons way later =>
      have hcons : hits (options ()) = way.toHit :: hits (later ()) := by rw [hoptions]; rfl
      by_cases hlt : taken.stop < way.stop
      · simp only [turn, hoptions, if_pos hlt, List.flatMap_cons]
        rw [Level.left, hcons, goingOn_cons, if_pos hlt, List.append_assoc, List.map_append,
          repetitions_deeper]
        by_cases hoffered : greedy = false ∧ minimum ≤ count + 1
        · simp [hoffered, Level.left]
        · simp [hoffered, Level.left]
      · simp only [turn, hoptions, if_neg hlt, List.flatMap_cons]
        rw [Level.left, hcons, goingOn_cons, if_neg hlt]
        rfl

/-! ## The whole run -/

theorem hits_loop (stack : List (Level size origin)) :
    hits (loop greedy minimum step stack) = stack.flatMap (Level.left greedy minimum step) := by
  fun_induction loop greedy minimum step stack with
  | case1 => rfl
  | case2 top below way hturn ih =>
      rw [left_turn, hturn, ← ih]
      rfl
  | case3 top below hturn ih =>
      rw [left_turn, hturn, ← ih]
      rfl

/-- The stack finds the repetitions, in their order. -/
theorem hits_repetition (start : Nat) :
    hits (repetition greedy minimum step start) =
      repetitions greedy (fun start => hits (step start)) (size - start) minimum start := by
  have hground : hits (loop greedy minimum step [⟨.stay size start, 0, fun _ => step start⟩]) =
      goingOn greedy minimum step 0 start (hits (step start)) ++
        if greedy then stopsHere minimum start else [] := by
    have hstay : (Way.stay size start).toHit.after = id := by
      funext hit
      simp [Way.stay, Hit.after]
    rw [hits_loop, List.flatMap_singleton, Level.left, hstay, List.map_id]
    rfl
  rw [repetitions_eq fun h => (bounds_of_mem_hits h).2]
  unfold repetition arrange
  cases greedy
  · by_cases hminimum : minimum = 0
    · rw [if_pos ⟨rfl, hminimum⟩]
      have hcons : hits (.cons (.stay size start) fun _ =>
            loop false minimum step [⟨.stay size start, 0, fun _ => step start⟩]) =
          ⟨start, []⟩ ::
            hits (loop false minimum step [⟨.stay size start, 0, fun _ => step start⟩]) := rfl
      rw [hcons, hground]
      simp [stopsHere, hminimum, goingOn]
    · rw [if_neg fun h => hminimum h.2, hground]
      simp [stopsHere, hminimum, goingOn]
  · rw [if_neg (by simp), hground]
    rfl

end

/-! ## The search finds the attempts -/

theorem hits_only (way? : Option (Way size start)) :
    hits (.only way?) = way?.toList.map Way.toHit := by
  rw [hits, Choices.toList_only]

theorem hits_search (ks : Array Kind) (p : Pattern) (start : Nat) :
    hits (search ks p start) = attempts ks p start := by
  induction p generalizing start with
  | kinds among =>
      rw [search, attempts, hits_only]
      split <;> rfl
  | other refused =>
      rw [search, attempts, hits_only]
      split <;> rfl
  | any =>
      rw [search, attempts, hits_only]
      split <;> rfl
  | finish =>
      rw [search, attempts, hits_only]
      split <;> rfl
  | notAhead word =>
      rw [search, attempts, hits_only]
      split <;> rfl
  | empty => rfl
  | both first second ihFirst ihSecond =>
      rw [search, attempts, ← ihFirst, hits, Choices.toList_flatMap, hits, follow,
        List.map_flatMap, List.flatMap_map]
      congr 1
      funext way
      rw [← ihSecond, hits, Choices.toList_map, List.map_map, List.map_map]
      rfl
  | either first second ihFirst ihSecond =>
      rw [search, attempts, ← ihFirst, ← ihSecond, hits, Choices.toList_append, List.map_append]
      rfl
  | repeated greedy minimum inner ih =>
      have hinner : (fun start => hits (search ks inner start)) = attempts ks inner := funext ih
      rw [search, attempts, hits_repetition, hinner]
  | capture name inner ih =>
      rw [search, attempts, ← ih, hits, Choices.toList_map, hits, List.map_map, List.map_map]
      rfl

/-- The choices of a pattern are its attempts, in their order. -/
@[simp] theorem toList_choices (ks : Array Kind) (p : Pattern) (start : Nat) :
    (p.choices ks start).toList = p.attempts ks start := by
  rw [choices, Choices.toList_map, ← hits_search]
  rfl

/-- A way to match ends behind its start and not behind the end of the sequence. -/
theorem bounds_of_mem_attempts {ks : Array Kind} {p : Pattern} {start : Nat} {hit : Hit}
    (hle : start ≤ ks.size) (h : hit ∈ attempts ks p start) :
    start ≤ hit.stop ∧ hit.stop ≤ ks.size := by
  rw [← hits_search] at h
  obtain ⟨hstart, hstop⟩ := bounds_of_mem_hits h
  exact ⟨hstart, by omega⟩

/-- The attempts of a repetition without a bound on the iterations. -/
theorem attempts_repeated {ks : Array Kind} (greedy : Bool) (minimum : Nat) (inner : Pattern)
    (start : Nat) :
    attempts ks (repeated greedy minimum inner) start =
      arrange greedy
        (follow (consuming start (attempts ks inner start))
          (attempts ks (repeated greedy (minimum - 1) inner)))
        (stopsHere minimum start) := by
  have hbounds : ∀ {start hit}, hit ∈ attempts ks inner start → hit.stop ≤ max start ks.size := by
    intro start hit hmem
    rw [← hits_search] at hmem
    exact (bounds_of_mem_hits hmem).2
  exact repetitions_eq hbounds minimum start

end CommentMacro.Pattern
