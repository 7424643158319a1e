import CommentMacro.Proofs.Pattern.Priority

/-!
# What a pattern may read

Three things about a match are told by the pattern alone, whatever it is matched
against. Each is a predicate on patterns that can be decided, with one lemma about
every way to match:

- `Over among p`: it spans no kinds but the given ones (`Derives.spans`);
- `Starts k p`: its first kind is `k` (`Derives.starts`);
- `Ends k p`: its last kind is `k` (`Derives.ends`).

The last two also say that a match is not empty.
-/

namespace CommentMacro.Pattern

variable {ks : Array Kind} {p : Pattern} {start stop : Nat} {found : List Extent}

/-! ## The kinds a pattern names -/

/-- Every kind that a pattern may match is among the given ones. -/
def Over (among : Text) : Pattern → Prop
  | kinds named => ∀ k ∈ named, k ∈ among
  | other _ => False
  | any => False
  | finish => True
  | notAhead _ => True
  | empty => True
  | both first second => Over among first ∧ Over among second
  | either first second => Over among first ∧ Over among second
  | repeated _ _ inner => Over among inner
  | capture _ inner => Over among inner

instance decidableOver (among : Text) : (p : Pattern) → Decidable (Over among p)
  | kinds named => List.decidableBAll (fun k => k ∈ among) named
  | other _ => inferInstanceAs (Decidable False)
  | any => inferInstanceAs (Decidable False)
  | finish => inferInstanceAs (Decidable True)
  | notAhead _ => inferInstanceAs (Decidable True)
  | empty => inferInstanceAs (Decidable True)
  | both first second => @instDecidableAnd _ _ (decidableOver among first)
      (decidableOver among second)
  | either first second => @instDecidableAnd _ _ (decidableOver among first)
      (decidableOver among second)
  | repeated _ _ inner => decidableOver among inner
  | capture _ inner => decidableOver among inner

/-- Between two offsets stand only the given kinds. -/
def Spans (among : Text) (ks : Array Kind) (start stop : Nat) : Prop :=
  ∀ i, start ≤ i → i < stop → ∃ k ∈ among, ks[i]? = some k

theorem Spans.trans {among : Text} {ks : Array Kind} {start middle stop : Nat}
    (first : Spans among ks start middle) (second : Spans among ks middle stop) :
    Spans among ks start stop := by
  intro i hstart hstop
  rcases Nat.lt_or_ge i middle with hlt | hge
  · exact first i hstart hlt
  · exact second i hge hstop

theorem spans_self (among : Text) (ks : Array Kind) (start : Nat) :
    Spans among ks start start := by
  intro i hstart hstop
  omega

/-- A pattern over given kinds matches nothing but these. -/
theorem Derives.spans {among : Text} (h : Derives ks p start stop found) (hover : Over among p) :
    Spans among ks start stop := by
  induction h with
  | @kinds named k start hget hmem =>
      intro i hstart hstop
      obtain rfl : i = start := Nat.le_antisymm (Nat.le_of_lt_succ hstop) hstart
      exact ⟨k, hover k hmem, hget⟩
  | other _ _ => exact hover.elim
  | any _ => exact hover.elim
  | finish => exact spans_self among ks _
  | notAhead _ => exact spans_self among ks _
  | empty _ => exact spans_self among ks _
  | both _ _ ihFirst ihSecond => exact (ihFirst hover.1).trans (ihSecond hover.2)
  | first _ _ ih => exact ih hover.1
  | second _ _ ih => exact ih hover.2
  | stop _ _ _ => exact spans_self among ks _
  | again _ _ _ ihInner ihMore => exact (ihInner hover).trans (ihMore hover)
  | capture _ _ ih => exact ih hover

/-! ## The first kind -/

/-- Every match has a first kind, and it is the given one. -/
def Starts (k : Kind) : Pattern → Prop
  | kinds named => ∀ found ∈ named, found = k
  | other _ => False
  | any => False
  | finish => False
  | notAhead _ => False
  | empty => False
  | both first _ => Starts k first
  | either first second => Starts k first ∧ Starts k second
  | repeated _ minimum inner => 0 < minimum ∧ Starts k inner
  | capture _ inner => Starts k inner

instance decidableStarts (k : Kind) : (p : Pattern) → Decidable (Starts k p)
  | kinds named => List.decidableBAll (fun found => found = k) named
  | other _ => inferInstanceAs (Decidable False)
  | any => inferInstanceAs (Decidable False)
  | finish => inferInstanceAs (Decidable False)
  | notAhead _ => inferInstanceAs (Decidable False)
  | empty => inferInstanceAs (Decidable False)
  | both first _ => decidableStarts k first
  | either first second => @instDecidableAnd _ _ (decidableStarts k first)
      (decidableStarts k second)
  | repeated _ minimum inner => @instDecidableAnd _ _ (Nat.decLt 0 minimum)
      (decidableStarts k inner)
  | capture _ inner => decidableStarts k inner

theorem Derives.starts {k : Kind} (h : Derives ks p start stop found) (hstarts : Starts k p) :
    start < stop ∧ ks[start]? = some k := by
  induction h with
  | @kinds named k' start hget hmem =>
      obtain rfl := hstarts k' hmem
      exact ⟨Nat.lt_succ_self start, hget⟩
  | other _ _ => exact hstarts.elim
  | any _ => exact hstarts.elim
  | finish => exact hstarts.elim
  | notAhead _ => exact hstarts.elim
  | empty _ => exact hstarts.elim
  | both _ hsecond ihFirst _ =>
      obtain ⟨hlt, hget⟩ := ihFirst hstarts
      exact ⟨Nat.lt_of_lt_of_le hlt hsecond.inside.1, hget⟩
  | first _ _ ih => exact ih hstarts.1
  | second _ _ ih => exact ih hstarts.2
  | stop _ _ _ => exact absurd hstarts.1 (Nat.lt_irrefl 0)
  | again _ hlt hmore ihInner _ =>
      exact ⟨Nat.lt_of_lt_of_le hlt hmore.inside.1, (ihInner hstarts.2).2⟩
  | capture _ _ ih => exact ih hstarts

/-! ## The last kind -/

def Ends (k : Kind) : Pattern → Prop
  | kinds named => ∀ found ∈ named, found = k
  | other _ => False
  | any => False
  | finish => False
  | notAhead _ => False
  | empty => False
  | both first second => Ends k second ∨ (second = empty ∧ Ends k first)
  | either first second => Ends k first ∧ Ends k second
  | repeated _ minimum inner => 0 < minimum ∧ Ends k inner
  | capture _ inner => Ends k inner

instance decidableEnds (k : Kind) : (p : Pattern) → Decidable (Ends k p)
  | kinds named => List.decidableBAll (fun found => found = k) named
  | other _ => inferInstanceAs (Decidable False)
  | any => inferInstanceAs (Decidable False)
  | finish => inferInstanceAs (Decidable False)
  | notAhead _ => inferInstanceAs (Decidable False)
  | empty => inferInstanceAs (Decidable False)
  | both first second => @instDecidableOr _ _ (decidableEnds k second)
      (@instDecidableAnd _ _ (decEq second empty) (decidableEnds k first))
  | either first second => @instDecidableAnd _ _ (decidableEnds k first)
      (decidableEnds k second)
  | repeated _ minimum inner => @instDecidableAnd _ _ (Nat.decLt 0 minimum)
      (decidableEnds k inner)
  | capture _ inner => decidableEnds k inner

/-- A match that is not empty, with the given last kind. -/
def EndsAt (k : Kind) (ks : Array Kind) (start stop : Nat) : Prop :=
  start < stop ∧ ks[stop - 1]? = some k

theorem EndsAt.of_le {k : Kind} {ks : Array Kind} {start middle stop : Nat}
    (h : EndsAt k ks middle stop) (hle : start ≤ middle) : EndsAt k ks start stop :=
  ⟨Nat.lt_of_le_of_lt hle h.1, h.2⟩

/-- Repeating stops where it starts, or where the last iteration does. -/
theorem Derives.exists_last {greedy : Bool} {minimum : Nat} {inner : Pattern}
    (h : Derives ks (.repeated greedy minimum inner) start stop found) :
    (minimum = 0 ∧ stop = start) ∨
      ∃ middle last, start ≤ middle ∧ Derives ks inner middle stop last := by
  generalize hp : Pattern.repeated greedy minimum inner = p at h
  induction h generalizing minimum with
  | stop _ _ _ =>
      cases hp
      exact Or.inl ⟨rfl, rfl⟩
  | again hinner hlt _ _ ihMore =>
      cases hp
      rcases ihMore rfl with ⟨-, rfl⟩ | ⟨middle, last, hle, hlast⟩
      · exact Or.inr ⟨_, _, Nat.le_refl _, hinner⟩
      · exact Or.inr ⟨middle, last, Nat.le_trans (Nat.le_of_lt hlt) hle, hlast⟩
  | _ => cases hp

-- Not by induction on the derivation: behind the first iteration less is asked for, and
-- the end of what follows may not be known any more.
theorem Derives.ends {k : Kind} (h : Derives ks p start stop found) (hends : Ends k p) :
    EndsAt k ks start stop := by
  induction p generalizing start stop found with
  | kinds named =>
      cases h with
      | kinds hget hmem =>
          obtain rfl := hends _ hmem
          exact ⟨Nat.lt_succ_self start, hget⟩
  | other _ => exact hends.elim
  | any => exact hends.elim
  | finish => exact hends.elim
  | notAhead _ => exact hends.elim
  | empty => exact hends.elim
  | both first second ihFirst ihSecond =>
      cases h with
      | both hfirst hsecond =>
          rcases hends with hends | ⟨rfl, hends⟩
          · exact (ihSecond hsecond hends).of_le hfirst.inside.1
          · cases hsecond
            exact ihFirst hfirst hends
  | either first second ihFirst ihSecond =>
      cases h with
      | first _ h => exact ihFirst h hends.1
      | second _ h => exact ihSecond h hends.2
  | repeated greedy minimum inner ih =>
      rcases h.exists_last with ⟨hzero, -⟩ | ⟨middle, last, hle, hlast⟩
      · exact absurd hzero (Nat.ne_of_gt hends.1)
      · exact (ih hlast hends.2).of_le hle
  | capture name inner ih =>
      cases h with
      | capture _ h => exact ih h hends

end CommentMacro.Pattern
