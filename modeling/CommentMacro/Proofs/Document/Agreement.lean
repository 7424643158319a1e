import CommentMacro.Proofs.Document.Quiet
import Mathlib.Data.List.Forall2

/-!
# The order of markers and the regions

The order of the markers is checked on the markers alone, while a region asks for a
comment sign and a line break around its markers. So a document may be accepted
although a generate marker opens no region (`not_correspond_trailing`).

`Matches` says that a region holds its generate marker and the end marker that the
order of markers gives to it. The two views of a document agree if its
regions match its generate markers one by one. They do if, and only if, every
generate marker stands directly between a comment sign and a line break, and every
end marker directly behind a comment sign (`correspond_iff`).
-/

namespace CommentMacro.Document

/-! ## The two views of a document -/

/-- The offsets between which something stands. -/
structure Span where
  start : Nat
  stop : Nat
  deriving DecidableEq, Repr, Inhabited

def Span.Within (inner outer : Span) : Prop :=
  outer.start ≤ inner.start ∧ inner.stop ≤ outer.stop

instance decidableWithin (inner outer : Span) : Decidable (inner.Within outer) :=
  inferInstanceAs (Decidable (outer.start ≤ inner.start ∧ inner.stop ≤ outer.stop))

/-- Where a region opens and where it ends. -/
structure PlacedRegion where
  opening : Span
  closing : Span
  deriving DecidableEq, Repr, Inhabited

def placedFrom : (offset : Nat) → List Token → List PlacedRegion
  | _, [] => []
  | offset, token :: tokens =>
    let later := placedFrom (offset + token.text.length) tokens
    match token with
    | .region opening body closing =>
      let inside := offset + opening.length
      let ending := inside + body.length
      ⟨⟨offset, inside⟩, ⟨ending, ending + closing.length⟩⟩ :: later
    | _ => later

/-- The end marker that takes the phase back from generating to outside, among
tokens that start at an offset in a phase. -/
def returnFrom : Phase → (offset : Nat) → List Token → Option Span
  | _, _, [] => none
  | phase, offset, token :: tokens =>
    let stop := offset + token.text.length
    match token.marker? with
    | none => returnFrom phase stop tokens
    | some marker =>
      match phase.next marker with
      | .error _ => none
      | .ok next =>
        if phase = .generating ∧ next = .outside then some ⟨offset, stop⟩
        else returnFrom next stop tokens

/-- A generate marker, and the end marker that takes the phase back. -/
structure Generation where
  generate : Span
  finish : Option Span
  deriving DecidableEq, Repr, Inhabited

def generationsFrom : (offset : Nat) → List Token → List Generation
  | _, [] => []
  | offset, token :: tokens =>
    let stop := offset + token.text.length
    let later := generationsFrom stop tokens
    if token.marker? = some .generate then
      ⟨⟨offset, stop⟩, returnFrom .generating stop tokens⟩ :: later
    else later

/-- The opening of a region holds the generate marker, and its end holds the end
marker; only without an end marker is there no end. -/
structure Matches (region : PlacedRegion) (generation : Generation) : Prop where
  opens : generation.generate.Within region.opening
  ends : ∀ finish ∈ generation.finish, finish.Within region.closing
  open_iff : region.closing.start = region.closing.stop ↔ generation.finish = none

theorem matches_iff {region : PlacedRegion} {generation : Generation} :
    Matches region generation ↔ generation.generate.Within region.opening ∧
      (∀ finish ∈ generation.finish, finish.Within region.closing) ∧
      (region.closing.start = region.closing.stop ↔ generation.finish = none) :=
  ⟨fun h => ⟨h.opens, h.ends, h.open_iff⟩, fun h => ⟨h.1, h.2.1, h.2.2⟩⟩

instance decidableMatches (region : PlacedRegion) (generation : Generation) :
    Decidable (Matches region generation) :=
  decidable_of_iff' _ matches_iff

abbrev Correspond : List PlacedRegion → List Generation → Prop :=
  List.Forall₂ Matches

/-- Every marker of a kind stands directly in front of a line break. -/
def BeforeBreak (which : Marker) (tokens : List Token) : Prop :=
  ∀ front m rest, tokens = front ++ .marker m which :: rest →
    ∃ r, rest.head? = some (.lineBreak r)

theorem beforeBreak_cons {which : Marker} {token : Token} {tokens : List Token} :
    BeforeBreak which (token :: tokens) ↔
      (token.marker? = some which → tokens.head?.map Token.kind = some 'R') ∧
        BeforeBreak which tokens := by
  have hbreak : tokens.head?.map Token.kind = some 'R' ↔
      ∃ r, tokens.head? = some (.lineBreak r) := by
    rw [Option.map_eq_some_iff]
    constructor
    · rintro ⟨next, hnext, hkind⟩
      obtain ⟨r, rfl⟩ := kind_eq_lineBreak.mp hkind
      exact ⟨r, hnext⟩
    · rintro ⟨r, hr⟩
      exact ⟨_, hr, rfl⟩
  rw [marker?_eq_some, hbreak]
  constructor
  · intro h
    refine ⟨?_, fun front m rest heq => h (token :: front) m rest (by rw [heq]; rfl)⟩
    rintro ⟨m, rfl⟩
    exact h [] m tokens rfl
  · rintro ⟨hhere, hlater⟩ front m rest heq
    cases front with
    | nil =>
        obtain ⟨rfl, rfl⟩ := List.cons.inj heq
        exact hhere ⟨m, rfl⟩
    | cons first front =>
        obtain ⟨rfl, rfl⟩ := List.cons.inj heq
        exact hlater front m rest rfl

instance decidableBeforeBreak (which : Marker) :
    (tokens : List Token) → Decidable (BeforeBreak which tokens)
  | [] => isTrue fun front _ _ heq => absurd heq (by simp)
  | token :: tokens =>
    have := decidableBeforeBreak which tokens
    decidable_of_iff' _ beforeBreak_cons

/-- Every generate marker stands directly between a comment sign and a line break,
and every end marker directly behind a comment sign. -/
structure Aligned (tokens : List Token) : Prop where
  generate_behind : BehindSign .generate tokens
  generate_before : BeforeBreak .generate tokens
  finish_behind : BehindSign .finish tokens

instance decidableAligned (tokens : List Token) : Decidable (Aligned tokens) :=
  decidable_of_iff (BehindSign .generate tokens ∧ BeforeBreak .generate tokens ∧
      BehindSign .finish tokens)
    ⟨fun h => ⟨h.1, h.2.1, h.2.2⟩, fun h => ⟨h.generate_behind, h.generate_before, h.finish_behind⟩⟩

/-! ## Reading the views from the front -/

variable {phase : Phase} {offset : Nat} {front tokens : List Token}

theorem placedFrom_append (h : bodiesOf front = []) :
    placedFrom offset (front ++ tokens) = placedFrom (offset + (textOf front).length) tokens := by
  induction front generalizing offset with
  | nil => rfl
  | cons token front ih =>
      cases hbody : token.body? with
      | some body => simp [bodiesOf, hbody] at h
      | none =>
          rw [bodiesOf_cons hbody] at h
          rw [textOf_cons, List.length_append, ← Nat.add_assoc, ← ih h]
          cases token with
          | region => simp [Token.body?] at hbody
          | _ => rfl

theorem length_placedFrom (offset : Nat) (tokens : List Token) :
    (placedFrom offset tokens).length = (bodiesOf tokens).length := by
  induction tokens generalizing offset with
  | nil => rfl
  | cons token tokens ih =>
      cases token with
      | region opening body closing =>
          rw [placedFrom, List.length_cons, ih, bodiesOf_region, List.length_cons]
      | _ => exact ih _

theorem generationsFrom_append (h : Marker.generate ∉ markersOf front) :
    generationsFrom offset (front ++ tokens) =
      generationsFrom (offset + (textOf front).length) tokens := by
  induction front generalizing offset with
  | nil => rfl
  | cons token front ih =>
      have htoken : token.marker? ≠ some .generate := by
        intro hmarker
        simp [markersOf, hmarker] at h
      have hfront : Marker.generate ∉ markersOf front := by
        intro hmem
        apply h
        rw [markersOf, List.filterMap_cons]
        split
        · exact hmem
        · exact List.mem_cons_of_mem _ hmem
      rw [List.cons_append, generationsFrom, if_neg htoken, ih hfront, textOf_cons,
        List.length_append, Nat.add_assoc]

theorem length_generationsFrom (offset : Nat) (tokens : List Token) :
    (generationsFrom offset tokens).length = (markersOf tokens).count .generate := by
  induction tokens generalizing offset with
  | nil => rfl
  | cons token tokens ih =>
      have hlater := ih (offset + token.text.length)
      rw [markersOf] at hlater
      rw [generationsFrom, markersOf, List.filterMap_cons]
      cases hmarker : token.marker? with
      | none => simpa using hlater
      | some which => cases which <;> simpa using hlater

theorem returnFrom_append (h : markersOf front = []) :
    returnFrom phase offset (front ++ tokens) =
      returnFrom phase (offset + (textOf front).length) tokens := by
  induction front generalizing offset with
  | nil => rfl
  | cons token front ih =>
      cases hmarker : token.marker? with
      | some which => simp [markersOf, hmarker] at h
      | none =>
          have hfront : markersOf front = [] := by
            rwa [markersOf, List.filterMap_cons, hmarker] at h
          rw [List.cons_append, returnFrom, hmarker]
          simp only
          rw [ih hfront, textOf_cons, List.length_append, Nat.add_assoc]

theorem returnFrom_finish (m : Text) (tokens : List Token) :
    returnFrom .generating offset (.marker m .finish :: tokens) =
      some ⟨offset, offset + m.length⟩ := by
  simp [returnFrom, Token.marker?, Phase.next, Token.text]

theorem generationsFrom_opening (c m r : Text) :
    generationsFrom offset (.comment c :: .marker m .generate :: .lineBreak r :: tokens) =
      ⟨⟨offset + c.length, offset + c.length + m.length⟩,
        returnFrom .generating (offset + c.length + m.length + r.length) tokens⟩ ::
        generationsFrom (offset + c.length + m.length + r.length) tokens := by
  simp [generationsFrom, returnFrom, Token.marker?, Token.text]

/-! ## Part by part -/

theorem beforeBreak_of_not_mem {which : Marker} (h : which ∉ markersOf tokens) :
    BeforeBreak which tokens := by
  rintro before m rest rfl
  exact absurd (marker_mem_markersOf (m := m) (by simp)) h

theorem BeforeBreak.append {which : Marker} (hfront : BeforeBreak which front)
    (h : BeforeBreak which tokens) : BeforeBreak which (front ++ tokens) := by
  intro before m rest heq
  rcases List.append_eq_append_iff.mp heq with ⟨between, rfl, htokens⟩ | ⟨between, rfl, hrest⟩
  · exact h between m rest htokens
  · cases between with
    | nil => exact h [] m rest hrest.symm
    | cons token between =>
        obtain ⟨rfl, rfl⟩ := List.cons.inj hrest
        obtain ⟨r, hr⟩ := hfront before m between rfl
        refine ⟨r, ?_⟩
        show (between ++ tokens).head? = _
        rw [List.head?_append, hr]
        rfl

theorem Aligned.append (hfront : Aligned front) (h : Aligned tokens) :
    Aligned (front ++ tokens) where
  generate_behind := hfront.generate_behind.append h.generate_behind
  generate_before := hfront.generate_before.append h.generate_before
  finish_behind := hfront.finish_behind.append h.finish_behind

theorem aligned_of_not_mem (hgenerate : Marker.generate ∉ markersOf tokens)
    (hfinish : Marker.finish ∉ markersOf tokens) : Aligned tokens where
  generate_behind := behindSign_of_not_mem hgenerate
  generate_before := beforeBreak_of_not_mem hgenerate
  finish_behind := behindSign_of_not_mem hfinish

theorem aligned_openingLine (c m r : Text) : Aligned (openingLine c m r) where
  generate_behind := behindSign_iff.mpr rfl
  finish_behind := behindSign_iff.mpr rfl
  generate_before := by
    intro before m' rest heq
    match before with
    | [] => simp [openingLine] at heq
    | [_] =>
        obtain ⟨-, htail⟩ := List.cons.inj heq
        obtain ⟨-, rfl⟩ := List.cons.inj htail
        exact ⟨r, rfl⟩
    | [_, _] => simp [openingLine] at heq
    | _ :: _ :: _ :: before => simp [openingLine] at heq

theorem Closing.markersOf_eq {closing rest : List Token} (h : Closing closing rest) :
    markersOf closing = [] ∨ markersOf closing = [.finish] := by
  cases h with
  | atEnd => exact Or.inl rfl
  | bare c m _ => exact Or.inr rfl
  | line c m r _ => exact Or.inr rfl

theorem Closing.aligned {closing rest : List Token} (h : Closing closing rest) :
    Aligned closing where
  generate_behind := by
    apply behindSign_of_not_mem
    rcases h.markersOf_eq with hmarkers | hmarkers <;> simp [hmarkers]
  generate_before := by
    apply beforeBreak_of_not_mem
    rcases h.markersOf_eq with hmarkers | hmarkers <;> simp [hmarkers]
  finish_behind := by
    cases h with
    | atEnd => exact behindSign_iff.mpr rfl
    | bare c m _ => exact behindSign_iff.mpr rfl
    | line c m r _ => exact behindSign_iff.mpr rfl

theorem BehindSign.of_append {which : Marker} (h : BehindSign which (front ++ tokens))
    (hlast : ∀ c, front.getLast? ≠ some (.comment c)) : BehindSign which tokens := by
  rintro before m rest rfl
  obtain ⟨c, hc⟩ := h (front ++ before) m rest (by rw [List.append_assoc])
  rw [List.getLast?_append] at hc
  cases hbefore : before.getLast? with
  | none =>
      rw [hbefore] at hc
      exact absurd hc (hlast c)
  | some last =>
      rw [hbefore] at hc
      exact ⟨c, hc⟩

theorem BeforeBreak.of_append {which : Marker} (h : BeforeBreak which (front ++ tokens)) :
    BeforeBreak which tokens := by
  rintro before m rest rfl
  exact h (front ++ before) m rest (by rw [List.append_assoc])

/-- What stands behind anything but a comment sign is aligned by itself. -/
theorem Aligned.of_append (h : Aligned (front ++ tokens))
    (hlast : ∀ c, front.getLast? ≠ some (.comment c)) : Aligned tokens where
  generate_behind := h.generate_behind.of_append hlast
  generate_before := h.generate_before.of_append
  finish_behind := h.finish_behind.of_append hlast

theorem Closing.aligned_of_append {closing rest : List Token} (h : Closing closing rest)
    (haligned : Aligned (front ++ (closing ++ rest))) : Aligned rest := by
  rw [← List.append_assoc] at haligned
  cases h with
  | atEnd => exact aligned_of_not_mem (by simp [markersOf]) (by simp [markersOf])
  | bare c m _ => exact haligned.of_append (by simp)
  | line c m r _ => exact haligned.of_append (by simp)

/-- An aligned generate marker opens a region. -/
theorem Aligned.not_mem (h : Aligned (front ++ tokens))
    (hnone : NoneBefore (opensWith .generate) front tokens) :
    Marker.generate ∉ markersOf front := by
  intro hmem
  obtain ⟨token, htoken, hsome⟩ := List.mem_filterMap.mp hmem
  obtain ⟨m, rfl⟩ := marker?_eq_some.mp hsome
  obtain ⟨before, behind, rfl⟩ := List.append_of_mem htoken
  have hsplit : before ++ .marker m .generate :: behind ++ tokens =
      before ++ .marker m .generate :: (behind ++ tokens) := by
    rw [List.append_assoc, List.cons_append]
  obtain ⟨c, hc⟩ := h.generate_behind before m _ hsplit
  obtain ⟨r, hr⟩ := h.generate_before before m _ hsplit
  -- the comment sign in front of the marker is where the region would open
  obtain ⟨earlier, rfl⟩ := List.getLast?_eq_some_iff.mp hc
  obtain ⟨later, hlater⟩ := List.head?_eq_some_iff.mp hr
  have hopens := hnone earlier.length (by simp)
  rw [hsplit, hlater, List.append_assoc, List.drop_left] at hopens
  simp [opensWith] at hopens

/-! ## Aligned markers correspond to regions -/

def placedRegion (offset : Nat) (c m r : Text) (stale closing : List Token) : PlacedRegion :=
  let inside := offset + (c.length + m.length + r.length)
  let ending := inside + (textOf stale).length
  ⟨⟨offset, inside⟩, ⟨ending, ending + (textOf closing).length⟩⟩

def generationOf (offset : Nat) (c m r : Text) (behind : List Token) : Generation :=
  let start := offset + c.length
  ⟨⟨start, start + m.length⟩,
    returnFrom .generating (offset + (c.length + m.length + r.length)) behind⟩

/-- A region is compared with the generate marker of its opening line, if none stands
in the region. -/
theorem correspond_region_iff {c m r : Text} {stale closing lines : List Token}
    (h : Marker.generate ∉ markersOf (stale ++ closing)) (offset : Nat) :
    Correspond
        (placedFrom offset (.region (textOf [.comment c, .marker m .generate, .lineBreak r])
          (textOf stale) (textOf closing) :: tokens))
        (generationsFrom offset (.comment c :: .marker m .generate :: .lineBreak r ::
          (stale ++ (closing ++ lines)))) ↔
      Matches (placedRegion offset c m r stale closing)
          (generationOf offset c m r (stale ++ (closing ++ lines))) ∧
        Correspond (placedFrom (placedRegion offset c m r stale closing).closing.stop tokens)
          (generationsFrom (placedRegion offset c m r stale closing).closing.stop lines) := by
  have hopening : (textOf [.comment c, .marker m .generate, .lineBreak r]).length =
      c.length + m.length + r.length := by
    simp [Token.text, Nat.add_assoc]
  have hplaced : placedFrom offset (.region (textOf [.comment c, .marker m .generate, .lineBreak r])
      (textOf stale) (textOf closing) :: tokens) = placedRegion offset c m r stale closing ::
        placedFrom (placedRegion offset c m r stale closing).closing.stop tokens := by
    rw [placedFrom, hopening]
    simp [placedRegion, Token.text, Nat.add_assoc]
  have hgenerations : generationsFrom offset (.comment c :: .marker m .generate :: .lineBreak r ::
      (stale ++ (closing ++ lines))) = generationOf offset c m r (stale ++ (closing ++ lines)) ::
        generationsFrom (placedRegion offset c m r stale closing).closing.stop lines := by
    rw [generationsFrom_opening, ← List.append_assoc, generationsFrom_append h]
    simp [generationOf, placedRegion, Nat.add_assoc]
  rw [hplaced, hgenerations]
  exact List.forall₂_cons

/-- The end marker of a region is the next one, unless the region has no end. -/
theorem Closing.returnFrom_eq {closing lines : List Token} (h : Closing closing lines)
    (offset : Nat) :
    (closing = [] ∧ returnFrom .generating offset (closing ++ lines) = none) ∨
      ∃ finish m, returnFrom .generating offset (closing ++ lines) = some finish ∧
        .marker m .finish ∈ closing ∧ finish.stop = finish.start + m.length ∧
        finish.Within ⟨offset, offset + (textOf closing).length⟩ := by
  have hreturn : ∀ (c m : Text) (rest : List Token),
      returnFrom .generating offset (.comment c :: .marker m .finish :: rest) =
        some ⟨offset + c.length, offset + c.length + m.length⟩ := by
    intro c m rest
    exact returnFrom_finish m rest
  cases h with
  | atEnd => exact Or.inl ⟨rfl, rfl⟩
  | bare c m _ =>
      refine Or.inr ⟨_, m, hreturn c m lines, by simp, rfl, ?_⟩
      constructor
      · exact Nat.le_add_right _ _
      · show offset + c.length + m.length ≤ _
        simp [Token.text]
        omega
  | line c m r _ =>
      refine Or.inr ⟨_, m, hreturn c m (.lineBreak r :: lines), by simp, rfl, ?_⟩
      constructor
      · exact Nat.le_add_right _ _
      · show offset + c.length + m.length ≤ _
        simp [Token.text]
        omega

/-- A region without markers in it and the generate marker of its opening line
match. -/
theorem Closing.matches {stale closing lines : List Token} (h : Closing closing lines)
    (hquiet : markersOf stale = []) (hnonempty : ∀ m, .marker m .finish ∈ closing → m ≠ [])
    (offset : Nat) (c m r : Text) :
    Matches (placedRegion offset c m r stale closing)
      (generationOf offset c m r (stale ++ (closing ++ lines))) := by
  have hinside : (generationOf offset c m r (stale ++ (closing ++ lines))).generate.Within
      (placedRegion offset c m r stale closing).opening := by
    constructor
    · exact Nat.le_add_right _ _
    · show offset + c.length + m.length ≤ offset + (c.length + m.length + r.length)
      omega
  refine ⟨hinside, ?_, ?_⟩
  all_goals
    simp only [generationOf, placedRegion]
    rw [returnFrom_append hquiet]
    generalize offset + (c.length + m.length + r.length) + (textOf stale).length = ending
    rcases h.returnFrom_eq ending with ⟨rfl, hreturn⟩ | ⟨finish, e, hreturn, hmem, hstop, hwithin⟩
    all_goals rw [hreturn]
  · simp
  · simpa using hwithin
  · simp
  · have hpositive := List.length_pos_iff.mpr (hnonempty e hmem)
    obtain ⟨hearly, hlate⟩ := hwithin
    simp only at hearly hlate
    simp only [reduceCtorEq, iff_false]
    omega

theorem QuietReading.correspond_of_aligned {lines tokens : List Token}
    (h : QuietReading lines tokens) (hbodies : bodiesOf lines = [])
    (hnonempty : ∀ m, .marker m .finish ∈ lines → m ≠ []) (haligned : Aligned lines)
    (offset : Nat) : Correspond (placedFrom offset tokens) (generationsFrom offset lines) := by
  induction h generalizing offset with
  | @rest lines hnone =>
      rw [← List.append_nil lines] at haligned ⊢
      rw [placedFrom_append hbodies, generationsFrom_append (haligned.not_mem hnone)]
      exact .nil
  | @region c m r front grouped stale closing lines tokens hnone hgroup hquiet hclosing _ ih =>
      have hgroups := groups_of_grouped_opening hgroup
      simp only [bodiesOf_append, List.append_eq_nil_iff] at hbodies
      have hgrouped : bodiesOf grouped = [] := by
        rw [hgroups.bodiesOf_eq]
        exact hbodies.1
      have hfront : Marker.generate ∉ markersOf front :=
        haligned.not_mem ((noneBefore_openingLine_append _).mpr hnone)
      have hinside : Marker.generate ∉ markersOf (stale ++ closing) := by
        rw [markersOf_append, hquiet, List.nil_append]
        rcases hclosing.markersOf_eq with hmarkers | hmarkers <;> simp [hmarkers]
      have hlines : Aligned lines := by
        rw [← List.append_assoc, ← List.append_assoc, List.append_assoc front] at haligned
        exact hclosing.aligned_of_append haligned
      rw [placedFrom_append hgrouped, generationsFrom_append hfront, hgroups.textOf_eq]
      refine (correspond_region_iff hinside _).mpr ⟨?_, ?_⟩
      · refine hclosing.matches hquiet ?_ _ c m r
        intro e hmem
        exact hnonempty e (by simp [hmem])
      · refine ih hbodies.2.2.2.2 ?_ hlines _
        intro e hmem
        exact hnonempty e (by simp [hmem])

/-! ## Only aligned markers do -/

/-- Each region takes a generate marker. -/
theorem Reading.length_bodiesOf_le {lines tokens : List Token} (h : Reading lines tokens)
    (hbodies : bodiesOf lines = []) :
    (bodiesOf tokens).length ≤ (markersOf lines).count .generate := by
  induction h with
  | nil => exact Nat.zero_le _
  | @keep token lines tokens _ _ ih =>
      rw [← List.singleton_append, bodiesOf_append, List.append_eq_nil_iff] at hbodies
      rw [← List.singleton_append (l := tokens), ← List.singleton_append (l := lines),
        bodiesOf_append, hbodies.1, List.nil_append, markersOf_append, List.count_append]
      exact Nat.le_trans (ih hbodies.2) (Nat.le_add_left _ _)
  | @declaration run lines tokens _ _ ih =>
      rw [bodiesOf_append, List.append_eq_nil_iff] at hbodies
      rw [bodiesOf_cons (body?_declare run), markersOf_append, List.count_append]
      exact Nat.le_trans (ih hbodies.2) (Nat.le_add_left _ _)
  | @region c m r stale closing lines tokens _ _ _ ih =>
      simp only [← List.cons_append, bodiesOf_append, List.append_eq_nil_iff] at hbodies
      have hlater := ih hbodies.2.2
      have hmarkers : markersOf (.comment c :: .marker m .generate :: .lineBreak r ::
          (stale ++ (closing ++ lines))) = .generate :: markersOf (stale ++ (closing ++ lines)) :=
        rfl
      rw [bodiesOf_region, List.length_cons, hmarkers, List.count_cons_self, markersOf_append,
        markersOf_append, List.count_append, List.count_append]
      omega

/-- As many regions as generate markers leave no generate marker within a region. -/
theorem Reading.not_mem_of_correspond {c m r : Text} {stale closing lines : List Token}
    (h : Reading lines tokens) (hbodies : bodiesOf lines = [])
    (hcorrespond : Correspond
      (placedFrom offset (.region (textOf [.comment c, .marker m .generate, .lineBreak r])
        (textOf stale) (textOf closing) :: tokens))
      (generationsFrom offset (.comment c :: .marker m .generate :: .lineBreak r ::
        (stale ++ (closing ++ lines))))) :
    Marker.generate ∉ markersOf (stale ++ closing) := by
  have hlength := hcorrespond.length_eq
  have hmarkers : markersOf (.comment c :: .marker m .generate :: .lineBreak r ::
      (stale ++ (closing ++ lines))) = .generate :: markersOf (stale ++ (closing ++ lines)) :=
    rfl
  have hlater := h.length_bodiesOf_le hbodies
  rw [length_placedFrom, length_generationsFrom, bodiesOf_region, List.length_cons, hmarkers,
    List.count_cons_self, ← List.append_assoc, markersOf_append, List.count_append] at hlength
  rw [← List.count_eq_zero]
  omega

/-- No end marker stands within a region that ends where the next end marker says. -/
theorem Matches.quiet {c m r : Text} {stale rest closing : List Token}
    (h : Matches (placedRegion offset c m r stale closing)
      (generationOf offset c m r (stale ++ rest)))
    (haccepts : Accepts .generating (stale ++ rest))
    (hnonempty : ∀ e, .marker e .finish ∈ stale → e ≠ []) : markersOf stale = [] := by
  rcases markersOf_eq_nil_or stale with hnil | ⟨before, e, which, behind, rfl, hbefore⟩
  · exact hnil
  · exfalso
    rw [List.append_assoc, accepts_append_of_quiet hbefore, List.cons_append, accepts_marker]
      at haccepts
    obtain ⟨next, hnext, -⟩ := haccepts
    obtain ⟨rfl, -⟩ := next_generating hnext
    have hpositive := List.length_pos_iff.mpr (hnonempty e (by simp))
    have hreturn : (generationOf offset c m r
        (before ++ .marker e .finish :: behind ++ rest)).finish =
          some ⟨offset + (c.length + m.length + r.length) + (textOf before).length,
            offset + (c.length + m.length + r.length) + (textOf before).length + e.length⟩ := by
      rw [generationOf, List.append_assoc, returnFrom_append hbefore]
      exact returnFrom_finish e (behind ++ rest)
    have hlength : (textOf (before ++ .marker e .finish :: behind)).length =
        (textOf before).length + (e.length + (textOf behind).length) := by
      rw [textOf_append, textOf_cons, List.length_append, List.length_append]
      rfl
    -- the end marker would stand in front of the end of the region
    have hearly : offset + (c.length + m.length + r.length) +
        (textOf (before ++ .marker e .finish :: behind)).length ≤
          offset + (c.length + m.length + r.length) + (textOf before).length :=
      (h.ends _ hreturn).1
    omega

/-- Outside of a region no end marker may come, and only a generate marker leads into
one. -/
theorem Accepts.of_cons {phase : Phase} {token : Token} (h : Accepts phase (token :: tokens))
    (hphase : phase ≠ .generating) (hgenerate : Marker.generate ∉ markersOf [token]) :
    Marker.finish ∉ markersOf [token] ∧ ∃ next, next ≠ .generating ∧ Accepts next tokens := by
  cases hmarker : token.marker? with
  | none =>
      have hmarkers : markersOf [token] = [] := by simp [markersOf, hmarker]
      exact ⟨by simp [hmarkers], phase, hphase, (accepts_cons_of_none hmarker).mp h⟩
  | some which =>
      obtain ⟨m, rfl⟩ := marker?_eq_some.mp hmarker
      obtain ⟨next, hnext, htokens⟩ := accepts_marker.mp h
      have hmarkers : markersOf [.marker m which] = [which] := rfl
      rw [hmarkers] at hgenerate ⊢
      cases which with
      | start =>
          refine ⟨by simp, next, ?_, htokens⟩
          rintro rfl
          cases phase <;> simp [Phase.next] at hnext
      | generate => simp at hgenerate
      | finish => cases phase <;> simp [Phase.next] at hnext hphase

/-- Behind the end of a region the phase is outside. -/
theorem Closing.accepts {stale closing lines : List Token} (h : Closing closing lines)
    (haccepts : Accepts .generating (stale ++ (closing ++ lines))) (hquiet : markersOf stale = []) :
    Accepts .outside lines := by
  rw [accepts_append_of_quiet hquiet] at haccepts
  cases h with
  | atEnd => exact accepts_nil .outside
  | bare c m _ =>
      rw [List.cons_append, accepts_cons_of_none rfl] at haccepts
      obtain ⟨next, hnext, hlines⟩ := accepts_marker.mp haccepts
      obtain ⟨-, rfl⟩ := next_generating hnext
      exact hlines
  | line c m r _ =>
      rw [List.cons_append, accepts_cons_of_none rfl] at haccepts
      obtain ⟨next, hnext, hlines⟩ := accepts_marker.mp haccepts
      obtain ⟨-, rfl⟩ := next_generating hnext
      exact (accepts_cons_of_none rfl).mp hlines

theorem Reading.aligned_of_correspond {lines tokens : List Token} (h : Reading lines tokens)
    {phase : Phase} (hbodies : bodiesOf lines = [])
    (hnonempty : ∀ m, .marker m .finish ∈ lines → m ≠ []) (haccepts : Accepts phase lines)
    (hphase : phase ≠ .generating) {offset : Nat}
    (hcorrespond : Correspond (placedFrom offset tokens) (generationsFrom offset lines)) :
    Aligned lines := by
  induction h generalizing phase offset with
  | nil => exact aligned_of_not_mem (by simp [markersOf]) (by simp [markersOf])
  | @keep token lines tokens _ hrest ih =>
      rw [← List.singleton_append, bodiesOf_append, List.append_eq_nil_iff] at hbodies
      have hgenerate : Marker.generate ∉ markersOf [token] := by
        -- else there are too few regions for the generate markers
        intro hmem
        have hfew := hrest.length_bodiesOf_le hbodies.2
        have hlength := hcorrespond.length_eq
        rw [length_placedFrom, length_generationsFrom, ← List.singleton_append (l := tokens),
          ← List.singleton_append (l := lines), bodiesOf_append, hbodies.1, List.nil_append,
          markersOf_append, List.count_append] at hlength
        have hpositive := List.count_pos_iff.mpr hmem
        omega
      obtain ⟨hfinish, next, hnext, hlines⟩ := haccepts.of_cons hphase hgenerate
      change Correspond (placedFrom offset ([token] ++ tokens))
        (generationsFrom offset ([token] ++ lines)) at hcorrespond
      rw [placedFrom_append hbodies.1, generationsFrom_append hgenerate] at hcorrespond
      refine (aligned_of_not_mem hgenerate hfinish).append (ih hbodies.2 ?_ hlines hnext hcorrespond)
      intro m hmem
      exact hnonempty m (List.mem_cons_of_mem _ hmem)
  | @declaration run lines tokens hrun _ ih =>
      rw [bodiesOf_append, List.append_eq_nil_iff] at hbodies
      have hdeclare : bodiesOf [declare run] = [] := bodiesOf_cons (body?_declare run) []
      have hgenerate : Marker.generate ∉ markersOf run := by simp [hrun.markersOf_eq]
      have hfinish : Marker.finish ∉ markersOf run := by simp [hrun.markersOf_eq]
      have htext : textOf [declare run] = textOf run := by simp
      change Correspond (placedFrom offset ([declare run] ++ tokens)) _ at hcorrespond
      rw [placedFrom_append hdeclare, generationsFrom_append hgenerate, htext] at hcorrespond
      refine (aligned_of_not_mem hgenerate hfinish).append (ih hbodies.2 ?_
        ((accepts_append_of_quiet hrun.markersOf_eq).mp haccepts) hphase hcorrespond)
      intro m hmem
      exact hnonempty m (List.mem_append_right _ hmem)
  | @region c m r stale closing lines tokens hnone hclosing hrest ih =>
      have hbodies' : bodiesOf lines = [] := by
        simp only [← List.cons_append, bodiesOf_append, List.append_eq_nil_iff] at hbodies
        exact hbodies.2.2
      have hgenerate := hrest.not_mem_of_correspond hbodies' hcorrespond
      obtain ⟨hmatches, hlater⟩ := (correspond_region_iff hgenerate offset).mp hcorrespond
      rw [accepts_cons_of_none rfl, accepts_marker] at haccepts
      obtain ⟨next, hnext, haccepts⟩ := haccepts
      obtain ⟨-, rfl⟩ := next_generate hnext
      rw [accepts_cons_of_none rfl] at haccepts
      -- the end marker of the region is the next one, so none stands in the region
      have hquiet : markersOf stale = [] := by
        apply hmatches.quiet haccepts
        intro e hmem
        exact hnonempty e (by simp [hmem])
      have hstale : Aligned stale :=
        aligned_of_not_mem (by simp [hquiet]) (by simp [hquiet])
      have hlines : Aligned lines := by
        refine ih hbodies' ?_ (hclosing.accepts haccepts hquiet) (by simp) hlater
        intro e hmem
        exact hnonempty e (by simp [hmem])
      exact (aligned_openingLine c m r).append (hstale.append (hclosing.aligned.append hlines))

/-! ## When the two views agree -/

theorem finish_ne_nil_of_mem {sign source m : Text}
    (h : .marker m .finish ∈ splitLines sign source) : m ≠ [] := by
  obtain rfl : m = Marker.finish.text := fromLine_of_mem h
  decide

/-- The regions of a document correspond to its generate markers if, and only if, its
markers are aligned. -/
theorem correspond_iff {sign source : Text} (h : parse sign source = .ok tokens) :
    Correspond (placedFrom 0 tokens) (generationsFrom 0 (splitLines sign source)) ↔
      Aligned (splitLines sign source) := by
  have hreading := reading_of_parse h
  obtain ⟨haccepts, -⟩ := parse_eq_ok_iff.mp h
  have hbodies := bodiesOf_splitLines sign source
  constructor
  · exact hreading.aligned_of_correspond hbodies (fun _ => finish_ne_nil_of_mem) haccepts (by simp)
  · intro haligned
    exact (quietReading_of_finish_behind h haligned.finish_behind).correspond_of_aligned hbodies
      (fun _ => finish_ne_nil_of_mem) haligned 0

def twoLines : Text :=
  "// #metacode\n// #metagen\nold\n// #metaend\n".toList

def twoLinesTokens : List Token :=
  collectRegions (groupDeclarations (splitLines "//".toList twoLines))

theorem correspond_twoLines :
    parse "//".toList twoLines = .ok twoLinesTokens ∧
      (Correspond (placedFrom 0 twoLinesTokens)
          (generationsFrom 0 (splitLines "//".toList twoLines)) ↔
        Aligned (splitLines "//".toList twoLines)) := by
  have hparse : parse "//".toList twoLines = .ok twoLinesTokens := by decide +kernel
  exact ⟨hparse, correspond_iff hparse⟩

def trailing : Text :=
  "// #metacode\n// #metagen foo\n".toList

/-- A document may be accepted although a generate marker in it opens no region. -/
theorem not_correspond_trailing :
    ∃ tokens, parse "//".toList trailing = .ok tokens ∧
      ¬ Correspond (placedFrom 0 tokens) (generationsFrom 0 (splitLines "//".toList trailing)) := by
  refine ⟨collectRegions (groupDeclarations (splitLines "//".toList trailing)), ?_, ?_⟩
  · decide +kernel
  · decide +kernel

end CommentMacro.Document
