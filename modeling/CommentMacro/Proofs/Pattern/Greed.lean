import CommentMacro.Proofs.Pattern.Priority
import CommentMacro.Proofs.Pattern.Scan
import Mathlib.Data.List.Perm.Basic

/-!
# Greediness is a matter of order

Patterns that differ at most in which of their repetitions are greedy (`Turned`) have the same
ways to match from every offset, each as often in the one as in the other; only the order may
be another. So they match at the same offsets (`choices_turned`).

What the order becomes is told for the simplest case: where an iteration leaves no choice, the
ways of a lazy repetition are those of the greedy one from the last to the first
(`reverse_repetitions`).
-/

namespace CommentMacro.Pattern

/-- Two patterns that are alike, but for which of their repetitions are greedy. -/
inductive Turned : Pattern → Pattern → Prop where
  | kinds (among : Text) : Turned (.kinds among) (.kinds among)
  | other (refused : Text) : Turned (.other refused) (.other refused)
  | any : Turned .any .any
  | finish : Turned .finish .finish
  | notAhead (word : Text) : Turned (.notAhead word) (.notAhead word)
  | empty : Turned .empty .empty
  | both {first first' second second' : Pattern} (hfirst : Turned first first')
      (hsecond : Turned second second') : Turned (.both first second) (.both first' second')
  | either {first first' second second' : Pattern} (hfirst : Turned first first')
      (hsecond : Turned second second') : Turned (.either first second) (.either first' second')
  /-- A repetition may be turned, and within it others. -/
  | repeated (greedy greedy' : Bool) (minimum : Nat) {inner inner' : Pattern}
      (hinner : Turned inner inner') :
      Turned (.repeated greedy minimum inner) (.repeated greedy' minimum inner')
  | capture (name : Text) {inner inner' : Pattern} (hinner : Turned inner inner') :
      Turned (.capture name inner) (.capture name inner')

/-! ## The same ways in another order -/

theorem perm_follow {first first' : List Hit} {later later' : Nat → List Hit}
    (hfirst : first.Perm first') (hlater : ∀ stop, (later stop).Perm (later' stop)) :
    (follow first later).Perm (follow first' later') :=
  hfirst.flatMap fun hit _ => (hlater hit.stop).map hit.after

theorem perm_arrange {α : Type} (greedy greedy' : Bool) {goOn goOn' : List α}
    (h : goOn.Perm goOn') (stopHere : List α) :
    (arrange greedy goOn stopHere).Perm (arrange greedy' goOn' stopHere) := by
  have hgoOn : ∀ (greedy : Bool) (goOn : List α),
      (arrange greedy goOn stopHere).Perm (goOn ++ stopHere) := by
    intro greedy goOn
    cases greedy
    · exact List.perm_append_comm
    · exact .refl _
  have hfront := (hgoOn greedy goOn).trans (h.append_right stopHere)
  exact hfront.trans (hgoOn greedy' goOn').symm

/-- Repetitions of iterations that have the same ways have the same ways. -/
theorem perm_repetitions {step step' : Nat → List Hit}
    (hstep : ∀ start, (step start).Perm (step' start)) (greedy greedy' : Bool)
    (room minimum start : Nat) :
    (repetitions greedy step room minimum start).Perm
      (repetitions greedy' step' room minimum start) := by
  induction room generalizing minimum start with
  | zero => exact .refl _
  | succ room ih =>
      rw [repetitions, repetitions]
      have hconsuming : (consuming start (step start)).Perm (consuming start (step' start)) :=
        (hstep start).filter _
      exact perm_arrange greedy greedy' (perm_follow hconsuming (ih (minimum - 1))) _

theorem Turned.perm_attempts {p q : Pattern} (h : Turned p q) (ks : Array Kind) :
    ∀ start, (attempts ks p start).Perm (attempts ks q start) := by
  induction h with
  | kinds among => exact fun _ => .refl _
  | other refused => exact fun _ => .refl _
  | any => exact fun _ => .refl _
  | finish => exact fun _ => .refl _
  | notAhead word => exact fun _ => .refl _
  | empty => exact fun _ => .refl _
  | both _ _ ihFirst ihSecond => exact fun start => perm_follow (ihFirst start) ihSecond
  | either _ _ ihFirst ihSecond => exact fun start => (ihFirst start).append (ihSecond start)
  | repeated greedy greedy' minimum _ ih =>
      exact fun start => perm_repetitions ih greedy greedy' (ks.size - start) minimum start
  | capture name _ ih => exact fun start => (ih start).map _

/-! ## The opposite order -/

theorem reverse_stopsHere (minimum start : Nat) :
    (stopsHere minimum start).reverse = stopsHere minimum start := by
  rw [stopsHere]
  split <;> rfl

/-- Behind at most one way, the others come in the opposite order. -/
theorem reverse_follow {first : List Hit} (hone : first.length ≤ 1) (later : Nat → List Hit) :
    (follow first later).reverse = follow first fun stop => (later stop).reverse := by
  match first, hone with
  | [], _ => rfl
  | [hit], _ => simp [follow]

/-- Where every iteration leaves no choice, being lazy is being greedy the other way
round. -/
theorem reverse_repetitions {size : Nat} {step : Nat → List Hit}
    (hbounds : ∀ {start hit}, start ≤ size → hit ∈ step start → start ≤ hit.stop ∧ hit.stop ≤ size)
    (hone : ∀ start ≤ size, (step start).length ≤ 1) (room minimum : Nat) {start : Nat}
    (hle : start ≤ size) :
    repetitions false step room minimum start =
      (repetitions true step room minimum start).reverse := by
  induction room generalizing minimum start with
  | zero => exact (reverse_stopsHere minimum start).symm
  | succ room ih =>
      have hconsuming : (consuming start (step start)).length ≤ 1 :=
        Nat.le_trans (List.length_filter_le _ _) (hone start hle)
      have hlater :
          follow (consuming start (step start)) (repetitions false step room (minimum - 1)) =
            follow (consuming start (step start))
              fun stop => (repetitions true step room (minimum - 1) stop).reverse := by
        apply follow_congr
        intro hit hmem
        exact ih (minimum - 1) (hbounds hle (mem_consuming.mp hmem).1).2
      rw [repetitions, repetitions, hlater, ← reverse_follow hconsuming]
      simp only [arrange, Bool.false_eq_true, if_false, if_true]
      rw [List.reverse_append, reverse_stopsHere]

/-! ## The search -/

/-- Which repetitions of a pattern are greedy makes a difference to the order of its ways to
match and to nothing else. Where the inner pattern of a repetition has at most one way from
each offset, the lazy order is the greedy one reversed. -/
theorem choices_turned (ks : Array Kind) :
    (∀ p q, Turned p q → ∀ start,
      (p.choices ks start).toList.Perm (q.choices ks start).toList ∧
        (p.matchAt? ks start).isSome = (q.matchAt? ks start).isSome) ∧
      ∀ inner, (∀ start ≤ ks.size, (inner.choices ks start).toList.length ≤ 1) →
        ∀ minimum start, start ≤ ks.size →
          ((repeated false minimum inner).choices ks start).toList =
            ((repeated true minimum inner).choices ks start).toList.reverse := by
  simp only [toList_choices]
  refine ⟨fun p q h start => ?_, fun inner hone minimum start hle => ?_⟩
  · have hperm := h.perm_attempts ks start
    refine ⟨hperm, ?_⟩
    rw [matchAt?_eq, matchAt?_eq, Option.isSome_map, Option.isSome_map, Bool.eq_iff_iff,
      List.isSome_head?, List.isSome_head?, ne_eq, ne_eq, ← List.isEmpty_iff, ← List.isEmpty_iff,
      hperm.isEmpty_eq]
  · exact reverse_repetitions bounds_of_mem_attempts hone (ks.size - start) minimum hle

/-- As many parts as possible between two tokens of one kind, each of them as long as
possible. -/
def partedOften : Pattern :=
  .seq [.kind 'C', .star (.capture partName (.optional (.plus .any))), .kind 'C']

/-- Turning the outer repetition alone moves one way behind another: that is not the opposite
order. To skip tokens lazily is to skip them greedily in the opposite order. -/
theorem choices_turned_parted :
    Turned parted partedOften ∧
      (parted.choices fourKinds 0).toList.Perm
        [⟨4, [⟨partName, 1, 3⟩]⟩, ⟨4, [⟨partName, 1, 2⟩, ⟨partName, 2, 3⟩]⟩,
          ⟨3, [⟨partName, 1, 2⟩]⟩] ∧
      (∀ start ≤ fourKinds.size, (any.choices fourKinds start).toList.length ≤ 1) ∧
      ((lazyPlus any).choices fourKinds 1).toList = [⟨4, []⟩, ⟨3, []⟩, ⟨2, []⟩].reverse := by
  have hturned : Turned parted partedOften := by
    have hkind : Turned (.kind 'C') (.kind 'C') := .kinds _
    have hpart : Turned (.optional (.plus .any)) (.optional (.plus .any)) :=
      .either (.repeated _ _ _ .any) (.either .empty (.kinds _))
    exact .both hkind (.both (.repeated _ _ _ (.capture _ hpart)) (.both hkind .empty))
  have hone : ∀ start ≤ fourKinds.size, (any.choices fourKinds start).toList.length ≤ 1 := by
    decide
  have hoften : (partedOften.choices fourKinds 0).toList =
      [⟨4, [⟨partName, 1, 3⟩]⟩, ⟨4, [⟨partName, 1, 2⟩, ⟨partName, 2, 3⟩]⟩,
        ⟨3, [⟨partName, 1, 2⟩]⟩] := by decide +kernel
  have hgreedy : ((plus any).choices fourKinds 1).toList = [⟨4, []⟩, ⟨3, []⟩, ⟨2, []⟩] := by
    decide +kernel
  obtain ⟨hperm, hreverse⟩ := choices_turned fourKinds
  refine ⟨hturned, ?_, hone, ?_⟩
  · rw [← hoften]
    exact (hperm parted partedOften hturned 0).1
  · rw [← hgreedy]
    exact hreverse any hone 1 1 (by decide)

end CommentMacro.Pattern
