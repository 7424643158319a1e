import CommentMacro.Document.Parse
import CommentMacro.Proofs.Document.Groups
import CommentMacro.Proofs.Document.Lines

/-!
# Which documents are accepted

Whether the markers of a document are in order depends on the markers alone: on
which they are, and not on where they stand (`validateFrom_eq_ok_iff`). `Accepts`
says so of any part of a document, with the phase in front of it. If they are not,
the fault is that of the first marker out of order (`validateFrom_eq_error_iff`).

Between a generate marker and the end marker that follows it there is no other
(`Accepts.quiet_of_finish_behind`, if every end marker stands behind a comment
sign).
-/

namespace CommentMacro.Document

/-- The markers among tokens are in order, in a phase. -/
def Accepts (phase : Phase) (tokens : List Token) : Prop :=
  ∃ last, (markersOf tokens).foldlM Phase.next phase = .ok last

variable {phase : Phase} {tokens : List Token}

theorem accepts_nil (phase : Phase) : Accepts phase [] :=
  ⟨phase, rfl⟩

theorem accepts_cons_of_none {token : Token} (h : token.marker? = none) :
    Accepts phase (token :: tokens) ↔ Accepts phase tokens := by
  rw [Accepts, markersOf, List.filterMap_cons, h]
  rfl

theorem accepts_marker {m : Text} {which : Marker} :
    Accepts phase (.marker m which :: tokens) ↔
      ∃ next, phase.next which = .ok next ∧ Accepts next tokens := by
  have hmarkers : markersOf (.marker m which :: tokens) = which :: markersOf tokens := rfl
  rw [Accepts, hmarkers, List.foldlM_cons]
  cases hnext : phase.next which with
  | error misplacement => simp [bind, Except.bind]
  | ok next => simp [bind, Except.bind, Accepts]

theorem accepts_append_of_quiet {front : List Token} (h : markersOf front = []) :
    Accepts phase (front ++ tokens) ↔ Accepts phase tokens := by
  rw [Accepts, markersOf_append, h, List.nil_append]
  rfl

/-- What stands behind a part is in order, in the phase that the part leads to. -/
theorem Accepts.of_append {front : List Token} (h : Accepts phase (front ++ tokens)) :
    ∃ next, Accepts next tokens := by
  obtain ⟨last, hlast⟩ := h
  rw [markersOf_append, List.foldlM_append] at hlast
  cases hnext : (markersOf front).foldlM Phase.next phase with
  | error misplacement =>
      rw [hnext] at hlast
      simp [bind, Except.bind] at hlast
  | ok next =>
      rw [hnext] at hlast
      exact ⟨next, last, hlast⟩

theorem accepts_congr {tokens' : List Token} (h : markersOf tokens' = markersOf tokens) :
    Accepts phase tokens' ↔ Accepts phase tokens := by
  rw [Accepts, Accepts, h]

theorem marker?_eq_some {token : Token} {which : Marker} :
    token.marker? = some which ↔ ∃ m, token = .marker m which := by
  cases token <;> simp [Token.marker?]

/-- Where the markers stand does not matter. -/
theorem validateFrom_eq_ok_iff (offset : Nat) (last : Phase) :
    validateFrom phase offset tokens = .ok last ↔
      (markersOf tokens).foldlM Phase.next phase = .ok last := by
  induction tokens generalizing phase offset with
  | nil => simp [validateFrom, markersOf, pure, Except.pure]
  | cons token tokens ih =>
      rw [markersOf, List.filterMap_cons, validateFrom]
      cases hmarker : token.marker? with
      | none => exact ih _
      | some marker =>
          simp only
          rw [List.foldlM_cons]
          cases hnext : phase.next marker with
          | ok next => exact ih _
          | error misplacement => simp [bind, Except.bind]

theorem validateFrom_append {front : List Token} {phase next : Phase} {offset : Nat}
    (h : validateFrom phase offset front = .ok next) (tokens : List Token) :
    validateFrom phase offset (front ++ tokens) =
      validateFrom next (offset + (textOf front).length) tokens := by
  induction front generalizing phase offset with
  | nil =>
      obtain rfl := Except.ok.inj h
      rfl
  | cons token front ih =>
      rw [validateFrom] at h
      rw [List.cons_append, validateFrom, textOf_cons, List.length_append, ← Nat.add_assoc]
      cases hmarker : token.marker? with
      | none =>
          rw [hmarker] at h
          exact ih h
      | some which =>
          rw [hmarker] at h
          simp only at h ⊢
          cases hnext : phase.next which with
          | ok middle =>
              rw [hnext] at h
              exact ih h
          | error misplacement =>
              rw [hnext] at h
              simp at h

/-- A fault is that of the first marker that is out of order, with the offsets between
which it stands. -/
theorem validateFrom_eq_error_iff {offset : Nat} {fault : MarkerFault} :
    validateFrom phase offset tokens = .error fault ↔
      ∃ front m which rest next, tokens = front ++ .marker m which :: rest ∧
        (markersOf front).foldlM Phase.next phase = .ok next ∧
        next.next which = .error fault.misplacement ∧
        fault.start = offset + (textOf front).length ∧ fault.stop = fault.start + m.length := by
  constructor
  · induction tokens generalizing phase offset with
    | nil => simp [validateFrom]
    | cons token tokens ih =>
        intro h
        rw [validateFrom] at h
        cases hmarker : token.marker? with
        | none =>
            rw [hmarker] at h
            obtain ⟨front, m, which, rest, next, rfl, hfront, hnext, hstart, hstop⟩ := ih h
            refine ⟨token :: front, m, which, rest, next, rfl, ?_, hnext, ?_, hstop⟩
            · rwa [markersOf, List.filterMap_cons, hmarker]
            · rw [hstart, textOf_cons, List.length_append, Nat.add_assoc]
        | some which =>
            obtain ⟨m, rfl⟩ := marker?_eq_some.mp hmarker
            rw [hmarker] at h
            simp only at h
            cases hnext : phase.next which with
            | error misplacement =>
                rw [hnext] at h
                obtain rfl := Except.error.inj h
                exact ⟨[], m, which, tokens, phase, rfl, rfl, hnext, rfl, rfl⟩
            | ok middle =>
                rw [hnext] at h
                obtain ⟨front, m', which', rest, next, rfl, hfront, hnext', hstart, hstop⟩ := ih h
                refine ⟨.marker m which :: front, m', which', rest, next, rfl, ?_, hnext', ?_, hstop⟩
                · rw [markersOf, List.filterMap_cons, hmarker, List.foldlM_cons, hnext]
                  exact hfront
                · rw [hstart, textOf_cons, List.length_append, Nat.add_assoc]
  · rintro ⟨front, m, which, rest, next, rfl, hfront, hnext, hstart, hstop⟩
    rw [validateFrom_append ((validateFrom_eq_ok_iff offset next).mpr hfront), validateFrom]
    obtain ⟨misplacement, start, stop⟩ := fault
    simp_all [Token.marker?, Token.text]

/-- The offsets of a fault cut the marker out of the document. -/
theorem exists_marker_of_validate {sign source : Text} {fault : MarkerFault}
    (h : validate (splitLines sign source) = .error fault) :
    ∃ (before : Text) (which : Marker) (after : Text),
      source = before ++ (which.text ++ after) ∧ fault.start = before.length ∧
        fault.stop = before.length + which.text.length := by
  obtain ⟨front, m, which, rest, -, hlines, -, -, hstart, hstop⟩ :=
    validateFrom_eq_error_iff.mp h
  have hmarker : FromLine sign (.marker m which) := fromLine_of_mem (by rw [hlines]; simp)
  obtain rfl : m = which.text := hmarker
  rw [Nat.zero_add] at hstart
  refine ⟨textOf front, which, textOf rest, ?_, hstart, by rw [hstop, hstart]⟩
  rw [← textOf_splitLines sign source, hlines, textOf_append, textOf_cons]
  rfl

instance decidableEqOutcome {ε α : Type} [DecidableEq ε] [DecidableEq α] :
    DecidableEq (Except ε α)
  | .ok a, .ok b => decidable_of_iff (a = b) ⟨fun h => h ▸ rfl, Except.ok.inj⟩
  | .error a, .error b => decidable_of_iff (a = b) ⟨fun h => h ▸ rfl, Except.error.inj⟩
  | .ok _, .error _ => isFalse (fun h => nomatch h)
  | .error _, .ok _ => isFalse (fun h => nomatch h)

/-- A document is accepted if its markers are in order. -/
theorem parse_eq_ok_iff {sign source : Text} :
    parse sign source = .ok tokens ↔ Accepts .outside (splitLines sign source) ∧
      tokens = collectRegions (groupDeclarations (splitLines sign source)) := by
  simp only [parse, bind, Except.bind, pure, Except.pure]
  cases hvalidate : validate (splitLines sign source) with
  | ok last =>
      have haccepts : Accepts .outside (splitLines sign source) :=
        ⟨last, (validateFrom_eq_ok_iff 0 last).mp hvalidate⟩
      simp only [Except.ok.injEq]
      exact ⟨fun h => ⟨haccepts, h.symm⟩, fun h => h.2.symm⟩
  | error fault =>
      constructor
      · intro h
        simp at h
      · rintro ⟨⟨last, hlast⟩, -⟩
        have := (validateFrom_eq_ok_iff 0 last).mpr hlast
        rw [← validate, hvalidate] at this
        simp at this

/-! ## Between a generate marker and the next end marker -/

/-- Every marker of a kind stands directly behind a comment sign. -/
def BehindSign (which : Marker) (tokens : List Token) : Prop :=
  ∀ front m rest, tokens = front ++ .marker m which :: rest →
    ∃ c, front.getLast? = some (.comment c)

def Token.isComment : Token → Bool
  | comment _ => true
  | _ => false

/-- The same, read from the front. `behind` says whether a comment sign stands in
front of the first token. -/
def behindSigns (which : Marker) : (behind : Bool) → List Token → Bool
  | _, [] => true
  | behind, token :: tokens =>
    (token.marker? != some which || behind) && behindSigns which token.isComment tokens

theorem isComment_iff {token : Token} : token.isComment = true ↔ ∃ c, token = .comment c := by
  cases token <;> simp [Token.isComment]

theorem behindSigns_iff {which : Marker} {behind : Bool} :
    behindSigns which behind tokens = true ↔
      ∀ front m rest, tokens = front ++ .marker m which :: rest →
        (front = [] ∧ behind = true) ∨ ∃ c, front.getLast? = some (.comment c) := by
  induction tokens generalizing behind with
  | nil => simp [behindSigns]
  | cons token tokens ih =>
      have hhere : (token.marker? != some which || behind) = true ↔
          ∀ m, token = .marker m which → behind = true := by
        rw [Bool.or_eq_true, bne_iff_ne, ne_eq, marker?_eq_some]
        cases behind <;> simp
      rw [behindSigns, Bool.and_eq_true, hhere, ih]
      constructor
      · rintro ⟨hfirst, hlater⟩ front m rest heq
        cases front with
        | nil =>
            obtain ⟨rfl, rfl⟩ := List.cons.inj heq
            exact Or.inl ⟨rfl, hfirst m rfl⟩
        | cons first front =>
            obtain ⟨rfl, rfl⟩ := List.cons.inj heq
            apply Or.inr
            rcases hlater front m rest rfl with ⟨rfl, hcomment⟩ | ⟨c, hc⟩
            · obtain ⟨c, rfl⟩ := isComment_iff.mp hcomment
              exact ⟨c, rfl⟩
            · refine ⟨c, ?_⟩
              rw [List.getLast?_cons, hc]
              rfl
      · intro h
        refine ⟨?_, ?_⟩
        · rintro m rfl
          rcases h [] m tokens rfl with ⟨-, hbehind⟩ | ⟨c, hc⟩
          · exact hbehind
          · simp at hc
        · rintro front m rest rfl
          rcases h (token :: front) m rest rfl with ⟨hnil, -⟩ | ⟨c, hc⟩
          · simp at hnil
          · cases front with
            | nil => exact Or.inl ⟨rfl, isComment_iff.mpr ⟨c, Option.some.inj hc⟩⟩
            | cons second front => exact Or.inr ⟨c, by rwa [List.getLast?_cons_cons] at hc⟩

theorem behindSign_iff {which : Marker} :
    BehindSign which tokens ↔ behindSigns which false tokens = true := by
  simp [behindSigns_iff, BehindSign]

instance decidableBehindSign (which : Marker) (tokens : List Token) :
    Decidable (BehindSign which tokens) :=
  decidable_of_iff (behindSigns which false tokens = true) behindSign_iff.symm

theorem marker_mem_markersOf {m : Text} {which : Marker} (h : .marker m which ∈ tokens) :
    which ∈ markersOf tokens :=
  List.mem_filterMap.mpr ⟨_, h, rfl⟩

theorem behindSign_of_not_mem {which : Marker} (h : which ∉ markersOf tokens) :
    BehindSign which tokens := by
  rintro front m rest rfl
  exact absurd (marker_mem_markersOf (m := m) (by simp)) h

theorem BehindSign.append {which : Marker} {front : List Token} (hfront : BehindSign which front)
    (h : BehindSign which tokens) : BehindSign which (front ++ tokens) := by
  intro before m rest heq
  rcases List.append_eq_append_iff.mp heq with ⟨between, rfl, htokens⟩ | ⟨between, rfl, hrest⟩
  · obtain ⟨c, hc⟩ := h between m rest htokens
    refine ⟨c, ?_⟩
    rw [List.getLast?_append, hc]
    rfl
  · cases between with
    | nil =>
        obtain ⟨c, hc⟩ := h [] m rest hrest.symm
        simp at hc
    | cons token between =>
        obtain ⟨rfl, -⟩ := List.cons.inj hrest
        exact hfront before m between rfl

theorem next_generate {phase next : Phase} (h : phase.next .generate = .ok next) :
    phase = .declaring ∧ next = .generating := by
  cases phase <;> simp [Phase.next] at h
  exact ⟨rfl, h.symm⟩

theorem next_generating {which : Marker} {next : Phase}
    (h : Phase.generating.next which = .ok next) : which = .finish ∧ next = .outside := by
  cases which <;> simp [Phase.next] at h
  exact ⟨rfl, h.symm⟩

/-- The first marker of a list cuts it in two. -/
theorem markersOf_eq_nil_or (tokens : List Token) :
    markersOf tokens = [] ∨ ∃ front m which rest,
      tokens = front ++ .marker m which :: rest ∧ markersOf front = [] := by
  induction tokens with
  | nil => exact Or.inl rfl
  | cons token tokens ih =>
      cases hmarker : token.marker? with
      | some which =>
          cases token with
          | marker m found => exact Or.inr ⟨[], m, found, tokens, rfl, rfl⟩
          | _ => simp [Token.marker?] at hmarker
      | none =>
          have hmarkers : ∀ behind, markersOf (token :: behind) = markersOf behind := by
            intro behind
            rw [markersOf, List.filterMap_cons, hmarker]
            rfl
          rcases ih with hnil | ⟨front, m, which, rest, rfl, hfront⟩
          · exact Or.inl (by rw [hmarkers, hnil])
          · exact Or.inr ⟨token :: front, m, which, rest, rfl, by rw [hmarkers, hfront]⟩

/-- What stands in front of the first end behind a comment sign holds no marker at
all, if no end marker stands elsewhere. -/
theorem Accepts.quiet_of_finish_behind {front stale rest : List Token}
    (h : Accepts .generating (stale ++ rest)) (hnone : NoneBefore closes stale rest)
    (hbehind : BehindSign .finish (front ++ (stale ++ rest)))
    (hfront : ∀ c, front.getLast? ≠ some (.comment c)) : markersOf stale = [] := by
  rcases markersOf_eq_nil_or stale with hnil | ⟨before, m, which, behind, rfl, hbefore⟩
  · exact hnil
  · exfalso
    -- the first marker would be an end marker, and with its comment sign an end
    rw [List.append_assoc, accepts_append_of_quiet hbefore, List.cons_append, accepts_marker] at h
    obtain ⟨next, hnext, -⟩ := h
    obtain ⟨rfl, -⟩ := next_generating hnext
    obtain ⟨c, hc⟩ := hbehind (front ++ before) m (behind ++ rest) (by simp)
    rcases List.eq_nil_or_concat before with rfl | ⟨earlier, last, rfl⟩
    · exact hfront c (by simpa using hc)
    · rw [List.concat_eq_append, ← List.append_assoc, List.getLast?_concat] at hc
      obtain rfl := Option.some.inj hc
      have := hnone earlier.length (by simp)
      simp [closes] at this

end CommentMacro.Document
