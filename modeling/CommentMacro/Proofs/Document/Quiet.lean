import CommentMacro.Proofs.Document.Order
import CommentMacro.Proofs.Document.Reading

/-!
# Documents whose regions hold no markers

As long as no marker stands in a region, what is in it plays no part in how the
document is read. `QuietReading lines tokens` cuts the lines at the regions and
gives the tokens part by part; it is how the document is read
(`QuietReading.collect_eq`).

- A document with every end marker behind a comment sign has such a reading
  (`quietReading_of_finish_behind`), and so does one whose regions hold no markers
  (`quietReading_of_bodies`).
- It stays one with other texts in the regions, if these hold no markers and end
  where a line starts (`QuietReading.refill`).
-/

namespace CommentMacro.Document

open Pattern

/-! ## Grouping part by part -/

def openingLine (c m r : Text) : List Token :=
  [.comment c, .marker m .generate, .lineBreak r]

theorem opensWith_append {which : Marker} {tokens : List Token} (h : 3 ≤ tokens.length)
    (rest : List Token) : opensWith which (tokens ++ rest) = opensWith which tokens := by
  match tokens with
  | [] => simp at h
  | [_] => simp at h
  | [_, _] => simp at h
  | first :: second :: third :: tokens =>
      rw [Bool.eq_iff_iff, opensWith_iff, opensWith_iff]
      simp

/-- Three tokens tell whether a line with a marker alone starts. -/
theorem noneBefore_opensWith_append {which : Marker} {front next : List Token}
    (h : 2 ≤ next.length) (rest : List Token) :
    NoneBefore (opensWith which) front (next ++ rest) ↔
      NoneBefore (opensWith which) front next := by
  have hdrop : ∀ i, i < front.length →
      opensWith which ((front ++ (next ++ rest)).drop i) =
        opensWith which ((front ++ next).drop i) := by
    intro i hi
    have hle : i ≤ (front ++ next).length := by
      rw [List.length_append]
      omega
    rw [← List.append_assoc, List.drop_append_of_le_length hle, opensWith_append]
    rw [List.length_drop, List.length_append]
    omega
  constructor
  · intro hnone i hi
    rw [← hdrop i hi]
    exact hnone i hi
  · intro hnone i hi
    rw [hdrop i hi]
    exact hnone i hi

theorem noneBefore_openingLine_append {which : Marker} {front : List Token} {c m r : Text}
    (rest : List Token) :
    NoneBefore (opensWith which) front (openingLine c m r ++ rest) ↔
      NoneBefore (opensWith which) front (openingLine c m r) :=
  noneBefore_opensWith_append (by simp [openingLine]) rest

theorem groupDeclarations_append_of_none {front rest : List Token}
    (h : NoneBefore (opensWith .start) front rest) :
    groupDeclarations (front ++ rest) = front ++ groupDeclarations rest := by
  induction front with
  | nil => rfl
  | cons token front ih =>
      obtain ⟨hhere, hlater⟩ := noneBefore_cons.mp h
      rw [List.cons_append, groupDeclarations_cons hhere, ih hlater, List.cons_append]

/-- Without a line that holds a generate marker there are no declarations. -/
theorem groupDeclarations_of_no_generate {tokens : List Token}
    (h : NoneBefore (opensWith .generate) tokens []) : groupDeclarations tokens = tokens := by
  induction tokens with
  | nil => exact groupDeclarations_nil
  | cons token tokens ih =>
      obtain ⟨-, hlater⟩ := noneBefore_cons.mp h
      have htail := ih hlater
      cases hopens : opensWith .start (token :: tokens) with
      | false => rw [groupDeclarations_cons hopens, htail]
      | true =>
          obtain ⟨c, s, r, rest, heq⟩ := opensWith_iff.mp hopens
          obtain ⟨rfl, rfl⟩ := List.cons.inj heq
          have hrest := (noneBefore_cons.mp (noneBefore_cons.mp hlater).2).2
          rw [groupDeclarations_cons_of_none hrest, htail]

/-- The first line with a start marker alone, if there is one, lies in front of a
line with another marker. -/
theorem exists_start_within (front : List Token) (c m r : Text) :
    NoneBefore (opensWith .start) front (openingLine c m r) ∨
      ∃ before c' s r' middle, front = before ++ .comment c' :: .marker s .start ::
        .lineBreak r' :: middle ∧ NoneBefore (opensWith .start) before
          (.comment c' :: .marker s .start :: .lineBreak r' :: middle ++ openingLine c m r) := by
  have hfirst := exists_first (fun tokens => opensWith .start (tokens ++ openingLine c m r)) front
  rcases hfirst with ⟨hnone, -⟩ | ⟨before, behind, rfl, hnone, hopens⟩
  · refine Or.inl fun i hi => ?_
    have := hnone i hi
    rw [List.append_nil] at this
    rw [List.drop_append_of_le_length (Nat.le_of_lt hi)]
    exact this
  · apply Or.inr
    obtain ⟨c', s, r', middle, rfl⟩ : ∃ c' s r' middle, behind =
        Token.comment c' :: .marker s .start :: .lineBreak r' :: middle := by
      obtain ⟨c', s, r', rest, heq⟩ := opensWith_iff.mp hopens
      match behind with
      | [] => simp [openingLine] at heq
      | [_] => simp [openingLine] at heq
      | [_, _] => simp [openingLine] at heq
      | first :: second :: third :: behind =>
          simp only [List.cons_append, List.cons.injEq] at heq
          obtain ⟨rfl, rfl, rfl, -⟩ := heq
          exact ⟨c', s, r', behind, rfl⟩
    refine ⟨before, c', s, r', middle, rfl, fun i hi => ?_⟩
    rw [← List.append_assoc, List.drop_append_of_le_length (by rw [List.length_append]; omega)]
    exact hnone i hi

theorem groupDeclarations_openingLine (c m r : Text) (rest : List Token) :
    groupDeclarations (openingLine c m r ++ rest) =
      openingLine c m r ++ groupDeclarations rest := by
  apply groupDeclarations_append_of_none
  simp [openingLine, noneBefore_cons, opensWith]

theorem groupDeclarations_of_no_start {front : List Token} {c m r : Text}
    (h : NoneBefore (opensWith .start) front (openingLine c m r)) :
    groupDeclarations (front ++ openingLine c m r) = front ++ openingLine c m r := by
  have halone := groupDeclarations_openingLine c m r []
  rw [List.append_nil, groupDeclarations_nil, List.append_nil] at halone
  rw [groupDeclarations_append_of_none h, halone]

/-- What is in front of a line with a generate marker is grouped together with that
line, and apart from what is behind it. -/
theorem groupDeclarations_opening {front : List Token} {c m r : Text}
    (h : NoneBefore (opensWith .generate) front (openingLine c m r)) (rest : List Token) :
    groupDeclarations (front ++ (openingLine c m r ++ rest)) =
      groupDeclarations (front ++ openingLine c m r) ++ groupDeclarations rest := by
  rcases exists_start_within front c m r with hnone | ⟨before, c', s, r', middle, rfl, hnone⟩
  · have hnone' := (noneBefore_openingLine_append rest).mpr hnone
    rw [groupDeclarations_append_of_none hnone', groupDeclarations_of_no_start hnone,
      groupDeclarations_openingLine, List.append_assoc]
  · have hmiddle : NoneBefore (opensWith .generate) middle (openingLine c m r) := by
      have := (noneBefore_append.mp h).2
      exact (noneBefore_cons.mp (noneBefore_cons.mp (noneBefore_cons.mp this).2).2).2
    -- the block from the start marker on ends with the opening line, whatever is behind it
    have hblock : ∀ behind, groupDeclarations (before ++ (.comment c' :: .marker s .start ::
        .lineBreak r' :: (middle ++ (openingLine c m r ++ behind)))) =
        before ++ (groupRun (.comment c' :: .marker s .start :: .lineBreak r' ::
          (middle ++ openingLine c m r)) ++ groupDeclarations behind) := by
      intro behind
      have hmiddle' := (noneBefore_openingLine_append behind).mpr hmiddle
      have hbefore := (noneBefore_opensWith_append (by simp) behind).mpr hnone
      simp only [List.cons_append, List.append_assoc] at hbefore
      rw [groupDeclarations_append_of_none hbefore]
      congr 1
      exact groupDeclarations_block hmiddle'
    have halone := hblock []
    simp only [List.append_nil, groupDeclarations_nil] at halone
    have hall := hblock rest
    simp only [List.append_assoc, List.cons_append] at halone hall ⊢
    rw [halone, hall, List.append_assoc]

theorem exists_grouped_opening (front : List Token) (c m r : Text) :
    ∃ grouped, groupDeclarations (front ++ openingLine c m r) = grouped ++ openingLine c m r ∧
      Groups front grouped := by
  obtain ⟨grouped, later, heq, hgroups, hlater⟩ :=
    (groups_groupDeclarations (front ++ openingLine c m r)).exists_split_marked
  obtain ⟨later, rfl, hnil⟩ := hlater.keeps (by simp)
  rw [hnil.eq_nil] at heq
  exact ⟨grouped, heq, hgroups⟩

/-! ## Reading region by region -/

/-- Tokens of a document, as read off its lines region by region: what is in front
of a region is grouped by itself, and no marker stands in the region. -/
inductive QuietReading : List Token → List Token → Prop where
  | rest {lines : List Token} (hnone : NoneBefore (opensWith .generate) lines []) :
      QuietReading lines lines
  | region (c m r : Text) {front grouped stale closing lines tokens : List Token}
      (hnone : NoneBefore (opensWith .generate) front (openingLine c m r))
      (hgroup : groupDeclarations (front ++ openingLine c m r) = grouped ++ openingLine c m r)
      (hquiet : markersOf stale = []) (hclosing : Closing closing lines)
      (rest : QuietReading lines tokens) :
      QuietReading (front ++ (openingLine c m r ++ (stale ++ (closing ++ lines))))
        (grouped ++ .region (textOf (openingLine c m r)) (textOf stale) (textOf closing) ::
          tokens)

theorem groups_of_grouped_opening {front grouped : List Token} {c m r : Text}
    (h : groupDeclarations (front ++ openingLine c m r) = grouped ++ openingLine c m r) :
    Groups front grouped := by
  obtain ⟨grouped', heq, hgroups⟩ := exists_grouped_opening front c m r
  rw [h] at heq
  rwa [List.append_cancel_right heq]

/-- An end starts with a comment sign, or it is the end of everything. -/
theorem Closing.eq_nil_or {closing rest : List Token} (h : Closing closing rest) :
    (closing = [] ∧ rest = []) ∨ ∃ c more, closing = .comment c :: more := by
  cases h with
  | atEnd => exact Or.inl ⟨rfl, rfl⟩
  | bare c m _ => exact Or.inr ⟨c, _, rfl⟩
  | line c m r _ => exact Or.inr ⟨c, _, rfl⟩

theorem Closing.head?_ne_marker {closing rest : List Token} (h : Closing closing rest)
    (m : Text) (which : Marker) : (closing ++ rest).head? ≠ some (.marker m which) := by
  rcases h.eq_nil_or with ⟨rfl, rfl⟩ | ⟨c, more, rfl⟩ <;> simp

/-- Within a region and at its end no line with a marker starts that would begin or
end anything else. -/
theorem Closing.noneBefore_closes {stale closing rest : List Token} (h : Closing closing rest)
    (hquiet : markersOf stale = []) : NoneBefore closes stale (closing ++ rest) :=
  atMarkers_closes.noneBefore hquiet fun _ m which _ => h.head?_ne_marker m which

theorem Closing.noneBefore_opensWith {stale closing rest : List Token} {which : Marker}
    (h : Closing closing rest) (hquiet : markersOf stale = []) (hwhich : which ≠ .finish) :
    NoneBefore (opensWith which) (stale ++ closing) rest := by
  have hfinish : (Marker.finish == which) = false := by
    rw [beq_eq_false_iff_ne]
    exact hwhich.symm
  refine noneBefore_append.mpr ⟨?_, ?_⟩
  · exact AtMarkers.noneBefore (atMarkers_opensWith which) hquiet
      fun _ m which _ => h.head?_ne_marker m which
  · cases h with
    | atEnd => exact noneBefore_nil _ _
    | bare c m hno =>
        cases rest with
        | nil => simp [noneBefore_cons, opensWith]
        | cons token rest => cases token <;> simp [noneBefore_cons, opensWith, hfinish]
    | line c m r rest => simp [noneBefore_cons, opensWith, hfinish]

/-- A region without markers in it is collected with what is in front of it, and apart
from what is behind it. -/
theorem collect_region {front grouped stale closing lines : List Token} {c m r : Text}
    (hnone : NoneBefore (opensWith .generate) front (openingLine c m r))
    (hgroup : groupDeclarations (front ++ openingLine c m r) = grouped ++ openingLine c m r)
    (hquiet : markersOf stale = []) (hclosing : Closing closing lines) :
    collectRegions (groupDeclarations (front ++ (openingLine c m r ++
        (stale ++ (closing ++ lines))))) =
      grouped ++ .region (textOf (openingLine c m r)) (textOf stale) (textOf closing) ::
        collectRegions (groupDeclarations lines) := by
  have hgroups := groups_of_grouped_opening hgroup
  have hclosing' : Closing closing (groupDeclarations lines) :=
    (groups_groupDeclarations lines).closing_iff.mpr hclosing
  have hbehind : groupDeclarations (stale ++ (closing ++ lines)) =
      stale ++ (closing ++ groupDeclarations lines) := by
    rw [← List.append_assoc, groupDeclarations_append_of_none
      (hclosing.noneBefore_opensWith hquiet (by simp)), List.append_assoc]
  have hgrouped : NoneBefore (opensWith .generate) grouped (openingLine c m r) :=
    (hgroups.noneBefore_iff (atMarkers_opensWith .generate) (Groups.opensWith_eq .generate)
      (.refl _)).mpr hnone
  rw [groupDeclarations_opening hnone, hgroup, hbehind, List.append_assoc]
  rw [collectRegions_append ((noneBefore_openingLine_append _).mpr hgrouped)]
  congr 1
  exact collectRegions_region (hclosing'.noneBefore_closes hquiet) hclosing'

/-- Reading region by region is how a document is read. -/
theorem QuietReading.collect_eq {lines tokens : List Token} (h : QuietReading lines tokens) :
    collectRegions (groupDeclarations lines) = tokens := by
  induction h with
  | @rest lines hnone =>
      have hcollect := collectRegions_append hnone
      rw [List.append_nil, collectRegions_nil, List.append_nil] at hcollect
      rw [groupDeclarations_of_no_generate hnone, hcollect]
  | region c m r hnone hgroup hquiet hclosing _ ih =>
      rw [collect_region hnone hgroup hquiet hclosing, ih]

/-- A reading goes on behind its first opening line with a region. -/
theorem QuietReading.of_opening {front grouped behind tokens : List Token} {c m r : Text}
    (h : QuietReading (front ++ (openingLine c m r ++ behind)) tokens)
    (hnone : NoneBefore (opensWith .generate) front (openingLine c m r))
    (hgroup : groupDeclarations (front ++ openingLine c m r) = grouped ++ openingLine c m r) :
    ∃ stale closing lines later, behind = stale ++ (closing ++ lines) ∧ markersOf stale = [] ∧
      Closing closing lines ∧ QuietReading lines later ∧
      tokens = grouped ++ .region (textOf (openingLine c m r)) (textOf stale) (textOf closing) ::
        later := by
  have hopens : ∀ c m r rest, opensWith .generate (openingLine c m r ++ rest) = true :=
    fun _ _ _ _ => rfl
  generalize hlines : front ++ (openingLine c m r ++ behind) = lines at h
  cases h with
  | rest hnone' =>
      have := hnone' front.length (by rw [← hlines]; simp [openingLine])
      rw [List.append_nil, ← hlines, List.drop_left, hopens] at this
      simp at this
  | @region c' m' r' front' grouped' stale closing lines' later hnone' hgroup' hquiet hclosing hrest =>
      obtain ⟨rfl, hbehind⟩ := NoneBefore.unique
        ((noneBefore_openingLine_append _).mpr hnone) ((noneBefore_openingLine_append _).mpr hnone')
        (hopens c m r _) (hopens c' m' r' _) hlines
      simp only [openingLine, List.cons_append, List.nil_append, List.cons.injEq,
        Token.comment.injEq, Token.marker.injEq, Token.lineBreak.injEq, and_true] at hbehind
      obtain ⟨rfl, rfl, rfl, rfl⟩ := hbehind
      rw [hgroup] at hgroup'
      obtain rfl := List.append_cancel_right hgroup'
      exact ⟨stale, closing, lines', later, rfl, hquiet, hclosing, hrest, rfl⟩

/-! ## Which documents are read so -/

/-- Lines in front of which nothing opens a region may be put before. -/
theorem exists_quietReading_append {front lines : List Token}
    (hnone : NoneBefore (opensWith .generate) front lines)
    (h : ∃ tokens, QuietReading lines tokens) : ∃ tokens, QuietReading (front ++ lines) tokens := by
  obtain ⟨tokens, h⟩ := h
  cases h with
  | rest hnone' =>
      refine ⟨front ++ lines, .rest (noneBefore_append.mpr ⟨?_, hnone'⟩)⟩
      rwa [List.append_nil]
  | @region c m r front' grouped stale closing lines tokens hnone' hgroup hquiet hclosing rest =>
      have hfront : NoneBefore (opensWith .generate) (front ++ front') (openingLine c m r) := by
        refine noneBefore_append.mpr ⟨?_, hnone'⟩
        refine (noneBefore_opensWith_append (by simp [openingLine])
          (stale ++ (closing ++ lines))).mp ?_
        rwa [List.append_assoc]
      obtain ⟨grouped', hgroup', -⟩ := exists_grouped_opening (front ++ front') c m r
      have hreading := QuietReading.region c m r hfront hgroup' hquiet hclosing rest
      rw [List.append_assoc] at hreading
      exact ⟨_, hreading⟩

theorem exists_quietReading_region (c m r : Text) {stale closing lines : List Token}
    (hquiet : markersOf stale = []) (hclosing : Closing closing lines)
    (h : ∃ tokens, QuietReading lines tokens) :
    ∃ tokens, QuietReading (openingLine c m r ++ (stale ++ (closing ++ lines))) tokens := by
  obtain ⟨tokens, h⟩ := h
  obtain ⟨grouped, hgroup, -⟩ := exists_grouped_opening [] c m r
  exact ⟨_, .region c m r (noneBefore_nil _ _) hgroup hquiet hclosing h⟩

/-- If every end marker stands behind a comment sign, no marker stands in a
region. -/
theorem Reading.exists_quiet_of_finish_behind {lines tokens : List Token}
    (h : Reading lines tokens) {phase : Phase} {before : List Token}
    (haccepts : Accepts phase lines) (hbehind : BehindSign .finish (before ++ lines)) :
    ∃ tokens', QuietReading lines tokens' := by
  -- `before` is carried along for the comment sign in front of the first line
  induction h generalizing phase before with
  | nil => exact ⟨[], .rest (noneBefore_nil _ _)⟩
  | @keep token lines tokens hopens _ ih =>
      have hnone : NoneBefore (opensWith .generate) [token] lines :=
        noneBefore_cons.mpr ⟨hopens, noneBefore_nil _ _⟩
      apply exists_quietReading_append hnone
      have hbehind' : BehindSign .finish ((before ++ [token]) ++ lines) := by simpa using hbehind
      cases hmarker : token.marker? with
      | none => exact ih ((accepts_cons_of_none hmarker).mp haccepts) hbehind'
      | some which =>
          cases token with
          | marker m found =>
              obtain ⟨next, -, hnext⟩ := accepts_marker.mp haccepts
              exact ih hnext hbehind'
          | _ => simp [Token.marker?] at hmarker
  | @declaration run lines tokens hrun _ ih =>
      apply exists_quietReading_append (hrun.noneBefore (atMarkers_opensWith .generate))
      have hbehind' : BehindSign .finish ((before ++ run) ++ lines) := by rwa [List.append_assoc]
      exact ih ((accepts_append_of_quiet hrun.markersOf_eq).mp haccepts) hbehind'
  | @region c m r stale closing lines tokens hnone hclosing _ ih =>
      rw [accepts_cons_of_none rfl, accepts_marker] at haccepts
      obtain ⟨next, hnext, haccepts⟩ := haccepts
      obtain ⟨-, rfl⟩ := next_generate hnext
      rw [accepts_cons_of_none rfl] at haccepts
      have hbehind' : BehindSign .finish ((before ++ openingLine c m r) ++
          (stale ++ (closing ++ lines))) := by
        simpa [openingLine] using hbehind
      have hquiet : markersOf stale = [] := by
        apply haccepts.quiet_of_finish_behind hnone hbehind'
        intro c' hlast
        rw [List.getLast?_append] at hlast
        simp [openingLine] at hlast
      apply exists_quietReading_region c m r hquiet hclosing
      rw [accepts_append_of_quiet hquiet] at haccepts
      have hbehind'' : BehindSign .finish ((before ++ openingLine c m r ++ (stale ++ closing)) ++
          lines) := by
        simpa [openingLine] using hbehind
      obtain ⟨phase', hphase⟩ := haccepts.of_append
      exact ih hphase hbehind''

/-- A document with every end marker behind a comment sign is read region by
region. -/
theorem quietReading_of_finish_behind {sign source : Text} {tokens : List Token}
    (h : parse sign source = .ok tokens) (hbehind : BehindSign .finish (splitLines sign source)) :
    QuietReading (splitLines sign source) tokens := by
  obtain ⟨haccepts, heq⟩ := parse_eq_ok_iff.mp h
  obtain ⟨tokens', hquiet⟩ :=
    (reading_of_parse h).exists_quiet_of_finish_behind haccepts (by rwa [List.nil_append])
  rw [hquiet.collect_eq] at heq
  rwa [heq]

end CommentMacro.Document
