import CommentMacro.Proofs.Pattern.Suffix
import Mathlib.Data.List.Basic

/-!
# The search follows the priorities

What a backtracking search has to find is said twice here, and never how it is
found.

- `ByPriority` gives the ways of each pattern in order of preference by those of
  its parts. A repetition is told by itself: no bound on the iterations occurs.
- `Derives` has a rule for each way to match, without an order.

The search of `Pattern.choices` lists what the priorities say, no other list does,
and the ways in it are those that have a derivation (`choices_byPriority`). Each of
them ends behind its start and within the sequence, and remembers nothing but parts
of what it spans.
-/

namespace CommentMacro

def Extent.Inside (start stop : Nat) (extent : Extent) : Prop :=
  start ≤ extent.start ∧ extent.start ≤ extent.stop ∧ extent.stop ≤ stop

theorem Extent.Inside.mono {start stop start' stop' : Nat} {extent : Extent}
    (h : extent.Inside start stop) (hstart : start' ≤ start) (hstop : stop ≤ stop') :
    extent.Inside start' stop' :=
  ⟨Nat.le_trans hstart h.1, h.2.1, Nat.le_trans h.2.2 hstop⟩

namespace Pattern

/-! ## The priorities -/

/-- The lists of ways that the priorities give to patterns over a sequence. -/
structure ByPriority (ks : Array Kind) (ways : Pattern → Nat → List Hit) : Prop where
  kinds : ∀ among start, ways (kinds among) start =
    if isAmong among ks[start]? then [⟨start + 1, []⟩] else []
  other : ∀ refused start, ways (other refused) start =
    if isOther refused ks[start]? then [⟨start + 1, []⟩] else []
  any : ∀ start, ways any start = if start < ks.size then [⟨start + 1, []⟩] else []
  finish : ∀ start, ways finish start = if start = ks.size then [⟨start, []⟩] else []
  notAhead : ∀ word start, ways (notAhead word) start =
    if isAhead ks word start then [] else [⟨start, []⟩]
  empty : ∀ start, ways empty start = [⟨start, []⟩]
  /-- Each way of the first part in order, followed by the rest. -/
  both : ∀ first second start,
    ways (both first second) start = follow (ways first start) (ways second)
  /-- One choice after the other. -/
  either : ∀ first second start,
    ways (either first second) start = ways first start ++ ways second start
  /-- Each way to consume a token by an iteration, followed by the repetition from
  its end, and the way that stops here. -/
  repeated : ∀ greedy minimum inner start, start ≤ ks.size →
    ways (repeated greedy minimum inner) start =
      arrange greedy
        (follow (consuming start (ways inner start)) (ways (repeated greedy (minimum - 1) inner)))
        (stopsHere minimum start)
  capture : ∀ name inner start, ways (capture name inner) start =
    (ways inner start).map fun hit => ⟨hit.stop, hit.captures ++ [⟨name, start, hit.stop⟩]⟩

section

variable {ks : Array Kind} {ways : Pattern → Nat → List Hit} (h : ByPriority ks ways)
include h

/-- A sequence takes each way of its first part in order, followed by the rest. -/
theorem ByPriority.seq (first : Pattern) (parts : List Pattern) (start : Nat) :
    ways (.seq (first :: parts)) start = follow (ways first start) (ways (.seq parts)) :=
  h.both first (.seq parts) start

/-- An alternative has the ways of its choices, one choice after another. -/
theorem ByPriority.alt (options : List Pattern) (start : Nat) :
    ways (.alt options) start = options.flatMap fun option => ways option start := by
  induction options with
  | nil =>
      have hnever : isAmong [] ks[start]? = false := by
        cases ks[start]? <;> rfl
      have := h.kinds [] start
      rwa [hnever] at this
  | cons option options ih =>
      have := h.either option (.alt options) start
      rw [ih] at this
      exact this

end

/-! ## The attempts follow the priorities -/

variable {ks : Array Kind}

theorem byPriority_attempts (ks : Array Kind) : ByPriority ks (attempts ks) where
  kinds _ _ := rfl
  other _ _ := rfl
  any _ := rfl
  finish _ := rfl
  notAhead _ _ := rfl
  empty _ := rfl
  both _ _ _ := rfl
  either _ _ _ := rfl
  repeated greedy minimum inner start _ := attempts_repeated greedy minimum inner start
  capture _ _ _ := rfl

/-- The priorities leave no choice. -/
theorem ByPriority.eq_attempts {ways : Pattern → Nat → List Hit} (h : ByPriority ks ways)
    (p : Pattern) : ∀ {start : Nat}, start ≤ ks.size → ways p start = attempts ks p start := by
  induction p with
  | kinds among => exact fun _ => h.kinds among _
  | other refused => exact fun _ => h.other refused _
  | any => exact fun _ => h.any _
  | finish => exact fun _ => h.finish _
  | notAhead word => exact fun _ => h.notAhead word _
  | empty => exact fun _ => h.empty _
  | both first second ihFirst ihSecond =>
      intro start hle
      rw [h.both, ihFirst hle]
      apply follow_congr
      intro hit hmem
      exact ihSecond (bounds_of_mem_attempts hle hmem).2
  | either first second ihFirst ihSecond =>
      intro start hle
      rw [h.either, ihFirst hle, ihSecond hle]
      rfl
  | repeated greedy minimum inner ih =>
      intro start
      -- an iteration brings the end of the sequence nearer, and the minimum may change
      induction hroom : ks.size - start using Nat.strongRecOn generalizing minimum start with
      | ind room ihRoom =>
          intro hle
          rw [h.repeated _ _ _ _ hle, attempts_repeated, ih hle]
          congr 1
          apply follow_congr
          intro hit hmem
          obtain ⟨hmem, hlt⟩ := mem_consuming.mp hmem
          have hstop := (bounds_of_mem_attempts hle hmem).2
          exact ihRoom (ks.size - hit.stop) (by omega) (minimum - 1) rfl hstop
  | capture name inner ih =>
      intro start hle
      rw [h.capture, ih hle]
      rfl

/-! ## Matching without an order -/

/-- The ways of a pattern to match, from one offset to another, with what is
remembered. -/
inductive Derives (ks : Array Kind) : Pattern → (start stop : Nat) → List Extent → Prop where
  | kinds {among : Text} {k : Kind} {start : Nat} (hget : ks[start]? = some k)
      (hmem : k ∈ among) : Derives ks (.kinds among) start (start + 1) []
  | other {refused : Text} {k : Kind} {start : Nat} (hget : ks[start]? = some k)
      (hmem : k ∉ refused) : Derives ks (.other refused) start (start + 1) []
  | any {start : Nat} (hlt : start < ks.size) : Derives ks .any start (start + 1) []
  | finish : Derives ks .finish ks.size ks.size []
  | notAhead {word : Text} {start : Nat} (h : ∃ i k, word[i]? = some k ∧ ks[start + i]? ≠ some k) :
      Derives ks (.notAhead word) start start []
  | empty (start : Nat) : Derives ks .empty start start []
  | both {first second : Pattern} {start middle stop : Nat} {early later : List Extent}
      (hfirst : Derives ks first start middle early)
      (hsecond : Derives ks second middle stop later) :
      Derives ks (.both first second) start stop (early ++ later)
  | first {first : Pattern} (second : Pattern) {start stop : Nat} {found : List Extent}
      (h : Derives ks first start stop found) : Derives ks (.either first second) start stop found
  | second (first : Pattern) {second : Pattern} {start stop : Nat} {found : List Extent}
      (h : Derives ks second start stop found) : Derives ks (.either first second) start stop found
  /-- A repetition may stop once no further iteration is asked for. -/
  | stop (greedy : Bool) (inner : Pattern) (start : Nat) :
      Derives ks (.repeated greedy 0 inner) start start []
  /-- It may always go on with an iteration that consumes a token. -/
  | again {greedy : Bool} {minimum : Nat} {inner : Pattern} {start middle stop : Nat}
      {early later : List Extent} (hinner : Derives ks inner start middle early)
      (hlt : start < middle)
      (hmore : Derives ks (.repeated greedy (minimum - 1) inner) middle stop later) :
      Derives ks (.repeated greedy minimum inner) start stop (early ++ later)
  | capture (name : Text) {inner : Pattern} {start stop : Nat} {found : List Extent}
      (h : Derives ks inner start stop found) :
      Derives ks (.capture name inner) start stop (found ++ [⟨name, start, stop⟩])

theorem isAmong_iff {among : Text} {k? : Option Kind} :
    isAmong among k? = true ↔ ∃ k, k? = some k ∧ k ∈ among := by
  cases k? <;> simp [isAmong]

theorem isOther_iff {refused : Text} {k? : Option Kind} :
    isOther refused k? = true ↔ ∃ k, k? = some k ∧ k ∉ refused := by
  cases k? <;> simp [isOther]

theorem isAhead_eq_false_iff {word : Text} {start : Nat} :
    isAhead ks word start = false ↔ ∃ i k, word[i]? = some k ∧ ks[start + i]? ≠ some k := by
  induction word generalizing start with
  | nil => simp [isAhead]
  | cons k word ih =>
      rw [isAhead, Bool.and_eq_false_iff, ih, beq_eq_false_iff_ne]
      constructor
      · rintro (hhere | ⟨i, k', hword, hlater⟩)
        · exact ⟨0, k, rfl, hhere⟩
        · refine ⟨i + 1, k', hword, ?_⟩
          rwa [Nat.add_comm i, ← Nat.add_assoc]
      · rintro ⟨i, k', hword, hlater⟩
        cases i with
        | zero =>
            obtain rfl := Option.some.inj hword
            exact Or.inl hlater
        | succ i =>
            rw [Nat.add_comm i, ← Nat.add_assoc] at hlater
            exact Or.inr ⟨i, k', hword, hlater⟩

theorem derives_of_mem_attempts {p : Pattern} :
    ∀ {start : Nat} {hit : Hit}, hit ∈ attempts ks p start →
      Derives ks p start hit.stop hit.captures := by
  induction p with
  | kinds among =>
      intro start hit h
      rw [attempts, List.mem_ite_nil_right, isAmong_iff, List.mem_singleton] at h
      obtain ⟨⟨k, hget, hmem⟩, rfl⟩ := h
      exact .kinds hget hmem
  | other refused =>
      intro start hit h
      rw [attempts, List.mem_ite_nil_right, isOther_iff, List.mem_singleton] at h
      obtain ⟨⟨k, hget, hmem⟩, rfl⟩ := h
      exact .other hget hmem
  | any =>
      intro start hit h
      rw [attempts, List.mem_ite_nil_right, List.mem_singleton] at h
      obtain ⟨hlt, rfl⟩ := h
      exact .any hlt
  | finish =>
      intro start hit h
      rw [attempts, List.mem_ite_nil_right, List.mem_singleton] at h
      obtain ⟨rfl, rfl⟩ := h
      exact .finish
  | notAhead word =>
      intro start hit h
      rw [attempts, List.mem_ite_nil_left, Bool.not_eq_true, isAhead_eq_false_iff,
        List.mem_singleton] at h
      obtain ⟨hbeside, rfl⟩ := h
      exact .notAhead hbeside
  | empty =>
      intro start hit h
      obtain rfl := List.mem_singleton.mp h
      exact .empty start
  | both first second ihFirst ihSecond =>
      intro start hit h
      obtain ⟨early, hearly, later, hlater, rfl⟩ := mem_follow.mp h
      exact .both (ihFirst hearly) (ihSecond hlater)
  | either first second ihFirst ihSecond =>
      intro start hit h
      rcases List.mem_append.mp h with h | h
      · exact .first second (ihFirst h)
      · exact .second first (ihSecond h)
  | repeated greedy minimum inner ih =>
      intro start hit h
      simp only [attempts] at h
      generalize ks.size - start = room at h
      induction room generalizing minimum start hit with
      | zero =>
          obtain ⟨rfl, rfl⟩ := mem_stopsHere.mp h
          exact .stop greedy inner start
      | succ room ihRoom =>
          rcases mem_repetitions_succ.mp h with
            ⟨rfl, rfl⟩ | ⟨early, hearly, hlt, later, hlater, rfl⟩
          · exact .stop greedy inner start
          · exact .again (ih hearly) hlt (ihRoom (minimum - 1) hlater)
  | capture name inner ih =>
      intro start hit h
      obtain ⟨inside, hinside, rfl⟩ := List.mem_map.mp h
      exact .capture name (ih hinside)

theorem Derives.mem_attempts {p : Pattern} {start stop : Nat} {found : List Extent}
    (h : Derives ks p start stop found) (hle : start ≤ ks.size) :
    ⟨stop, found⟩ ∈ attempts ks p start := by
  induction h with
  | kinds hget hmem => simp [attempts, isAmong_iff.mpr ⟨_, hget, hmem⟩]
  | other hget hmem => simp [attempts, isOther_iff.mpr ⟨_, hget, hmem⟩]
  | any hlt => simp [attempts, hlt]
  | finish => simp [attempts]
  | notAhead h => simp [attempts, isAhead_eq_false_iff.mpr h]
  | empty start => simp [attempts]
  | @both first second start middle stop early later _ _ ihFirst ihSecond =>
      have hfirst := ihFirst hle
      have hsecond := ihSecond (bounds_of_mem_attempts hle hfirst).2
      exact mem_follow.mpr ⟨⟨middle, early⟩, hfirst, ⟨stop, later⟩, hsecond, rfl⟩
  | first second _ ih => exact List.mem_append_left _ (ih hle)
  | second first _ ih => exact List.mem_append_right _ (ih hle)
  | stop greedy inner start =>
      rw [attempts_repeated, mem_arrange]
      exact Or.inr List.mem_cons_self
  | @again greedy minimum inner start middle stop early later _ hlt _ ihInner ihMore =>
      have hinner := ihInner hle
      have hmore := ihMore (bounds_of_mem_attempts hle hinner).2
      rw [attempts_repeated, mem_arrange, mem_follow]
      exact Or.inl ⟨⟨middle, early⟩, mem_consuming.mpr ⟨hinner, hlt⟩, ⟨stop, later⟩, hmore, rfl⟩
  | capture name _ ih => exact List.mem_map.mpr ⟨_, ih hle, rfl⟩

theorem mem_attempts_iff {p : Pattern} {start : Nat} {hit : Hit} (hle : start ≤ ks.size) :
    hit ∈ attempts ks p start ↔ Derives ks p start hit.stop hit.captures :=
  ⟨derives_of_mem_attempts, fun h => h.mem_attempts hle⟩

/-! ## What is remembered -/

theorem Derives.inside {p : Pattern} {start stop : Nat} {found : List Extent}
    (h : Derives ks p start stop found) :
    start ≤ stop ∧ ∀ extent ∈ found, extent.Inside start stop := by
  have hjoin : ∀ {start middle stop : Nat} {early later : List Extent},
      (start ≤ middle ∧ ∀ extent ∈ early, extent.Inside start middle) →
      (middle ≤ stop ∧ ∀ extent ∈ later, extent.Inside middle stop) →
      start ≤ stop ∧ ∀ extent ∈ early ++ later, extent.Inside start stop := by
    rintro start middle stop early later ⟨hle, hearly⟩ ⟨hle', hlater⟩
    refine ⟨Nat.le_trans hle hle', fun extent hmem => ?_⟩
    rcases List.mem_append.mp hmem with hmem | hmem
    · exact (hearly extent hmem).mono (Nat.le_refl _) hle'
    · exact (hlater extent hmem).mono hle (Nat.le_refl _)
  induction h with
  | kinds _ _ => simp
  | other _ _ => simp
  | any _ => simp
  | finish => simp
  | notAhead _ => simp
  | empty _ => simp
  | both _ _ ihFirst ihSecond => exact hjoin ihFirst ihSecond
  | first _ _ ih => exact ih
  | second _ _ ih => exact ih
  | stop _ _ _ => simp
  | again _ _ _ ihInner ihMore => exact hjoin ihInner ihMore
  | capture name _ ih =>
      refine ⟨ih.1, fun extent hmem => ?_⟩
      rcases List.mem_append.mp hmem with hmem | hmem
      · exact ih.2 extent hmem
      · obtain rfl := List.mem_singleton.mp hmem
        exact ⟨Nat.le_refl _, ih.1, Nat.le_refl _⟩

/-! ## The search -/

/-- The search of a pattern lists what the priorities say, also for sequences and
alternatives of any length, and nothing else does. Its ways are those that have a
derivation; they end within the sequence and remember parts of what they span. -/
theorem choices_byPriority (ks : Array Kind) :
    ByPriority ks (fun p start => (p.choices ks start).toList) ∧
      (∀ first parts start, ((seq (first :: parts)).choices ks start).toList =
        follow (first.choices ks start).toList fun stop =>
          ((seq parts).choices ks stop).toList) ∧
      (∀ options start, ((alt options).choices ks start).toList =
        options.flatMap fun option => (option.choices ks start).toList) ∧
      (∀ ways, ByPriority ks ways → ∀ p start, start ≤ ks.size →
        ways p start = (p.choices ks start).toList) ∧
      ∀ (p : Pattern) (start : Nat), start ≤ ks.size →
        (∀ hit ∈ (p.choices ks start).toList, start ≤ hit.stop ∧ hit.stop ≤ ks.size ∧
          ∀ extent ∈ hit.captures, extent.Inside start hit.stop) ∧
        ∀ stop found, ⟨stop, found⟩ ∈ (p.choices ks start).toList ↔
          Derives ks p start stop found := by
  simp only [toList_choices]
  have hattempts := byPriority_attempts ks
  refine ⟨hattempts, hattempts.seq, hattempts.alt,
    fun ways h p start hle => h.eq_attempts p hle, ?_⟩
  intro p start hle
  refine ⟨fun hit hmem => ?_, fun stop found => mem_attempts_iff hle⟩
  obtain ⟨hstart, hstop⟩ := bounds_of_mem_attempts hle hmem
  exact ⟨hstart, hstop, (derives_of_mem_attempts hmem).inside.2⟩

def partName : Text :=
  "part".toList

/-- As few parts as possible between two tokens of one kind, each of them as long as
possible or, failing that, empty. -/
def parted : Pattern :=
  .seq [.kind 'C', .lazyStar (.capture partName (.optional (.plus .any))), .kind 'C']

def fourKinds : Array Kind :=
  #['C', 'X', 'C', 'C']

theorem choices_parted :
    ByPriority fourKinds (attempts fourKinds) ∧ 0 ≤ fourKinds.size ∧
      attempts fourKinds parted 0 = (parted.choices fourKinds 0).toList ∧
      (parted.choices fourKinds 0).toList =
        [⟨4, [⟨partName, 1, 3⟩]⟩, ⟨3, [⟨partName, 1, 2⟩]⟩,
          ⟨4, [⟨partName, 1, 2⟩, ⟨partName, 2, 3⟩]⟩] ∧
      Derives fourKinds parted 0 4 [⟨partName, 1, 2⟩, ⟨partName, 2, 3⟩] := by
  obtain ⟨-, -, -, hunique, hways⟩ := choices_byPriority fourKinds
  have hpriority := byPriority_attempts fourKinds
  have hle : 0 ≤ fourKinds.size := Nat.zero_le _
  have hlist : (parted.choices fourKinds 0).toList =
      [⟨4, [⟨partName, 1, 3⟩]⟩, ⟨3, [⟨partName, 1, 2⟩]⟩,
        ⟨4, [⟨partName, 1, 2⟩, ⟨partName, 2, 3⟩]⟩] := by decide +kernel
  refine ⟨hpriority, hle, hunique _ hpriority parted 0 hle, hlist, ?_⟩
  apply ((hways parted 0 hle).2 4 _).mp
  rw [hlist]
  simp

end Pattern

end CommentMacro
