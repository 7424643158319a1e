import CommentMacro.Proofs.Document.Grouping

/-!
# What grouping does to tokens

`Groups lines tokens` says that the tokens are those of the lines, where runs of
whole lines without markers may have been put together into declarations. Grouping
is such a step (`groups_groupDeclarations`).

The step is invisible from outside: texts (`Groups.textOf_eq`) and the places where a
marker stands behind a comment sign (`Groups.opensWith_eq`, `Groups.closes_eq`) are
those of the lines.
-/

namespace CommentMacro.Document

open Pattern

/-! ## Runs that are declarations -/

def plainKinds : Text :=
  ['C', 'M', 'T', '2', 'X', 'R']

/-- A run of whole lines that hold no marker. -/
structure DeclarationRun (run : List Token) : Prop where
  first : ∃ c, run.head? = some (.comment c)
  last : ∃ r, run.getLast? = some (.lineBreak r)
  plain : ∀ token ∈ run, token.kind ∈ plainKinds

theorem DeclarationRun.ne_nil {run : List Token} (h : DeclarationRun run) : run ≠ [] := by
  rintro rfl
  obtain ⟨c, hc⟩ := h.first
  simp at hc

theorem over_declaration : Over plainKinds declaration := by decide

theorem starts_declaration : Starts 'C' declaration := by decide

theorem ends_declaration : Ends 'R' declaration := by decide

/-- What the pattern of a declaration matches is such a run. -/
theorem exists_run_of_matchAt? {tokens : List Token} {m : Match}
    (h : declaration.matchAt? (tokens.map Token.kind).toArray 0 = some m) :
    ∃ run rest, tokens = run ++ rest ∧ m.start = 0 ∧ m.stop = run.length ∧
      DeclarationRun run := by
  rw [matchAt?_eq] at h
  obtain ⟨hit, hhead, rfl⟩ := Option.map_eq_some_iff.mp h
  have hhit := List.mem_of_head? hhead
  have hbounds := bounds_of_mem_attempts (Nat.zero_le _) hhit
  have hderives := derives_of_mem_attempts hhit
  obtain ⟨hlt, hfirst⟩ := hderives.starts starts_declaration
  obtain ⟨-, hlast⟩ := hderives.ends ends_declaration
  have hspans := hderives.spans over_declaration
  simp only [List.size_toArray, List.length_map, List.getElem?_toArray, List.getElem?_map,
    Option.map_eq_some_iff, Spans] at hbounds hfirst hlast hspans
  refine ⟨tokens.take hit.stop, tokens.drop hit.stop, (List.take_append_drop _ _).symm, rfl, ?_,
    ?_, ?_, ?_⟩
  · rw [List.length_take, Nat.min_eq_left hbounds.2]
  · obtain ⟨token, hget, hkind⟩ := hfirst
    obtain ⟨c, rfl⟩ := kind_eq_comment.mp hkind
    refine ⟨c, ?_⟩
    rw [List.head?_eq_getElem?, List.getElem?_take_of_lt hlt, hget]
  · obtain ⟨token, hget, hkind⟩ := hlast
    obtain ⟨r, rfl⟩ := kind_eq_lineBreak.mp hkind
    refine ⟨r, ?_⟩
    rw [List.getLast?_eq_getElem?, List.length_take, Nat.min_eq_left hbounds.2,
      List.getElem?_take_of_lt (by omega), hget]
  · intro token hmem
    obtain ⟨i, hget⟩ := List.mem_iff_getElem?.mp hmem
    rw [List.getElem?_take] at hget
    split at hget
    · next hi =>
        obtain ⟨k, hk, found, hfound, rfl⟩ := hspans i (Nat.zero_le i) hi
        rw [hget] at hfound
        obtain rfl := Option.some.inj hfound
        exact hk
    · simp at hget

/-! ## The declaration that a run makes -/

@[simp] theorem text_declare (run : List Token) : (declare run).text = textOf run := by
  unfold declare
  split <;> rfl

/-- A declaration is not one of the tokens of a line. -/
theorem kind_declare (run : List Token) : (declare run).kind ∈ ['F', 'A', '0'] := by
  unfold declare
  split <;> simp [Token.kind]

/-! ## Grouping as a relation -/

/-- Tokens that are those of lines, apart from runs put together into
declarations. -/
inductive Groups : List Token → List Token → Prop where
  | nil : Groups [] []
  | keep (token : Token) {lines tokens : List Token} (rest : Groups lines tokens) :
      Groups (token :: lines) (token :: tokens)
  | declare {run lines tokens : List Token} (hrun : DeclarationRun run)
      (rest : Groups lines tokens) : Groups (run ++ lines) (declare run :: tokens)

variable {lines tokens lines' tokens' : List Token}

theorem Groups.refl (tokens : List Token) : Groups tokens tokens := by
  induction tokens with
  | nil => exact .nil
  | cons token tokens ih => exact .keep token ih

theorem Groups.append (first : Groups lines tokens) (second : Groups lines' tokens') :
    Groups (lines ++ lines') (tokens ++ tokens') := by
  induction first with
  | nil => exact second
  | keep token _ ih => exact .keep token ih
  | declare hrun _ ih =>
      rw [List.append_assoc]
      exact .declare hrun ih

theorem matchAt?_declaration_eq_none {tokens : List Token}
    (h : ∀ run rest, tokens = run ++ rest → ¬ DeclarationRun run) :
    declaration.matchAt? (tokens.map Token.kind).toArray 0 = none := by
  cases hmatch : declaration.matchAt? (tokens.map Token.kind).toArray 0 with
  | none => rfl
  | some m =>
      obtain ⟨run, rest, htokens, -, -, hrun⟩ := exists_run_of_matchAt? hmatch
      exact absurd hrun (h run rest htokens)

theorem matchAt?_declaration_nil : declaration.matchAt? #[] 0 = none := by
  apply @matchAt?_declaration_eq_none []
  intro run rest heq hrun
  exact hrun.ne_nil (List.append_eq_nil_iff.mp heq.symm).1

/-! ## One step within a run -/

@[simp] theorem groupRun_nil : groupRun [] = [] :=
  @rebuild_nil _ _ _ (fun tokens m => [declare (m.items tokens)]) matchAt?_declaration_nil

theorem groupRun_cons {token : Token} {tokens : List Token}
    (h : declaration.matchAt? ((token :: tokens).map Token.kind).toArray 0 = none) :
    groupRun (token :: tokens) = token :: groupRun tokens :=
  rebuild_cons local_declare h

/-- What the pattern of a declaration matches is put together. -/
theorem groupRun_append {run rest : List Token} {m : Match}
    (h : declaration.matchAt? ((run ++ rest).map Token.kind).toArray 0 = some m)
    (hstop : m.stop = run.length) (hne : run ≠ []) :
    groupRun (run ++ rest) = declare run :: groupRun rest := by
  have hitems : m.items (run ++ rest) = run := by
    rw [Match.items, start_of_matchAt? h, hstop]
    simp [Text.slice]
  have happend : groupRun (run ++ rest) = [declare (m.items (run ++ rest))] ++ groupRun rest :=
    rebuild_append local_declare h hstop hne
  rw [happend, hitems, List.singleton_append]

theorem groups_groupRun (tokens : List Token) : Groups tokens (groupRun tokens) := by
  -- a declaration takes several tokens at once, so the induction is on the length
  induction hlength : tokens.length using Nat.strongRecOn generalizing tokens with
  | ind n ih =>
      subst hlength
      cases tokens with
      | nil =>
          rw [groupRun_nil]
          exact .nil
      | cons token tokens =>
          cases h : declaration.matchAt? ((token :: tokens).map Token.kind).toArray 0 with
          | none =>
              rw [groupRun_cons h]
              exact .keep token (ih tokens.length (by simp) tokens rfl)
          | some m =>
              obtain ⟨run, rest, htokens, -, hstop, hrun⟩ := exists_run_of_matchAt? h
              rw [htokens] at h ⊢
              have hshorter : rest.length < (token :: tokens).length := by
                have := List.length_pos_iff.mpr hrun.ne_nil
                rw [htokens, List.length_append]
                omega
              rw [groupRun_append h hstop hrun.ne_nil]
              exact .declare hrun (ih rest.length hshorter rest rfl)

/-- Grouping keeps tokens, or puts runs of lines together. -/
theorem groups_groupDeclarations (lines : List Token) : Groups lines (groupDeclarations lines) := by
  induction hlength : lines.length using Nat.strongRecOn generalizing lines with
  | ind n ih =>
      subst hlength
      cases lines with
      | nil => simpa using Groups.nil
      | cons token lines =>
          cases hopens : opensWith .start (token :: lines) with
          | false =>
              rw [groupDeclarations_cons hopens]
              exact .keep token (ih lines.length (by simp) lines rfl)
          | true =>
              obtain ⟨c, s, r, behind, hlines⟩ := opensWith_iff.mp hopens
              rw [hlines]
              have hshorter : behind.length + 3 = (token :: lines).length := by
                rw [hlines]
                rfl
              rcases exists_first (opensWith .generate) behind with
                ⟨hnone, -⟩ | ⟨middle, rest, rfl, hnone, hgenerate⟩
              · rw [groupDeclarations_cons_of_none hnone]
                exact .keep _ (ih (behind.length + 2) (by omega) _ rfl)
              · obtain ⟨c', g, r', rest, rfl⟩ := opensWith_iff.mp hgenerate
                rw [groupDeclarations_block hnone]
                have hblock := groups_groupRun (.comment c :: .marker s .start :: .lineBreak r ::
                  (middle ++ [.comment c', .marker g .generate, .lineBreak r']))
                have hrest := ih rest.length (by simp at hshorter ⊢; omega) rest rfl
                simpa using hblock.append hrest

/-! ## Texts and markers stay -/

theorem Groups.textOf_eq (h : Groups lines tokens) : textOf tokens = textOf lines := by
  induction h with
  | nil => rfl
  | keep token _ ih => rw [textOf_cons, textOf_cons, ih]
  | declare _ _ ih => rw [textOf_cons, textOf_append, text_declare, ih]

theorem marker?_eq_none_of_plain {token : Token} (h : token.kind ∈ plainKinds) :
    token.marker? = none := by
  cases token with
  | marker t which => cases which <;> simp [Token.kind, Marker.kind, plainKinds] at h
  | _ => rfl

/-- A declaration starts at a comment sign. -/
theorem groupRun_cons_of_not_comment {token : Token} (h : ∀ c, token ≠ .comment c)
    (tokens : List Token) : groupRun (token :: tokens) = token :: groupRun tokens := by
  apply groupRun_cons (matchAt?_declaration_eq_none _)
  intro run rest heq hrun
  obtain ⟨c, hc⟩ := hrun.first
  cases run with
  | nil => simp at hc
  | cons head run =>
      obtain ⟨rfl, -⟩ := List.cons.inj heq
      exact h c (Option.some.inj hc)

theorem groupRun_append_of_not_comment {front : List Token}
    (h : ∀ token ∈ front, ∀ c, token ≠ .comment c) (rest : List Token) :
    groupRun (front ++ rest) = front ++ groupRun rest := by
  induction front with
  | nil => rfl
  | cons token front ih =>
      rw [List.forall_mem_cons] at h
      rw [List.cons_append, groupRun_cons_of_not_comment h.1, ih h.2, List.cons_append]

/-- A line that holds a marker alone is kept. -/
theorem groupRun_markerLine (c m r : Text) (which : Marker) (rest : List Token) :
    groupRun (.comment c :: .marker m which :: .lineBreak r :: rest) =
      .comment c :: .marker m which :: .lineBreak r :: groupRun rest := by
  rw [groupRun_cons (matchAt?_declaration_eq_none _), groupRun_cons_of_not_comment (by simp),
    groupRun_cons_of_not_comment (by simp)]
  intro run rest heq hrun
  obtain ⟨r, hr⟩ := hrun.last
  match run with
  | [] => simp at hr
  | [only] =>
      obtain ⟨rfl, -⟩ := List.cons.inj heq
      simp at hr
  | head :: second :: run =>
      obtain ⟨-, hsecond⟩ := List.cons.inj heq
      obtain ⟨rfl, -⟩ := List.cons.inj hsecond
      have := marker?_eq_none_of_plain (hrun.plain (.marker m which) (by simp))
      simp [Token.marker?] at this

def markersOf (tokens : List Token) : List Marker :=
  tokens.filterMap Token.marker?

theorem markersOf_append (first second : List Token) :
    markersOf (first ++ second) = markersOf first ++ markersOf second :=
  List.filterMap_append

theorem DeclarationRun.markersOf_eq {run : List Token} (h : DeclarationRun run) :
    markersOf run = [] := by
  rw [markersOf, List.filterMap_eq_nil_iff]
  intro token hmem
  exact marker?_eq_none_of_plain (h.plain token hmem)

/-! ## What a kept token says about the lines, and the other way round -/

theorem Groups.eq_nil (h : Groups [] tokens) : tokens = [] := by
  generalize hlines : ([] : List Token) = all at h
  cases h with
  | nil => rfl
  | keep _ _ => simp at hlines
  | declare hrun _ => exact absurd (List.append_eq_nil_iff.mp hlines.symm).1 hrun.ne_nil

/-- Tokens split as they stand come from lines split in the same place. -/
theorem Groups.exists_split {first second : List Token} (h : Groups lines (first ++ second)) :
    ∃ firstLines secondLines, lines = firstLines ++ secondLines ∧ Groups firstLines first ∧
      Groups secondLines second := by
  induction first generalizing lines with
  | nil => exact ⟨[], lines, rfl, .nil, h⟩
  | cons token first ih =>
      cases h with
      | keep _ rest =>
          obtain ⟨firstLines, secondLines, rfl, hfirst, hsecond⟩ := ih rest
          exact ⟨token :: firstLines, secondLines, rfl, .keep token hfirst, hsecond⟩
      | @declare run _ _ hrun rest =>
          obtain ⟨firstLines, secondLines, rfl, hfirst, hsecond⟩ := ih rest
          exact ⟨run ++ firstLines, secondLines, (List.append_assoc _ _ _).symm,
            .declare hrun hfirst, hsecond⟩

theorem Groups.of_kept {token : Token} (hkind : token.kind ∉ ['F', 'A', '0'])
    (h : Groups lines (token :: tokens)) :
    ∃ lines', lines = token :: lines' ∧ Groups lines' tokens := by
  cases h with
  | keep _ rest => exact ⟨_, rfl, rest⟩
  | @declare run _ _ hrun rest => exact absurd (kind_declare run) hkind

theorem Groups.keeps {token : Token} (hcomment : ∀ c, token ≠ .comment c)
    (h : Groups (token :: lines) tokens) :
    ∃ tokens', tokens = token :: tokens' ∧ Groups lines tokens' := by
  generalize hlines : token :: lines = all at h
  cases h with
  | nil => simp at hlines
  | keep _ rest =>
      obtain ⟨rfl, rfl⟩ := List.cons.inj hlines
      exact ⟨_, rfl, rest⟩
  | @declare run lines' _ hrun _ =>
      obtain ⟨c, hc⟩ := hrun.first
      cases run with
      | nil => simp at hc
      | cons head run =>
          obtain ⟨rfl, -⟩ := List.cons.inj hlines
          exact absurd (Option.some.inj hc) (hcomment c)

/-- Lines split in front of a comment sign with a marker behind it are grouped
separately. -/
theorem Groups.exists_split_marked {front rest : List Token} {c m : Text} {which : Marker}
    (h : Groups (front ++ .comment c :: .marker m which :: rest) tokens) :
    ∃ grouped later, tokens = grouped ++ .comment c :: .marker m which :: later ∧
      Groups front grouped ∧ Groups rest later := by
  generalize hlines : front ++ .comment c :: .marker m which :: rest = all at h
  induction h generalizing front with
  | nil => simp at hlines
  | @keep token lines tokens hrest ih =>
      cases front with
      | nil =>
          obtain ⟨rfl, rfl⟩ := List.cons.inj hlines
          obtain ⟨later, rfl, hlater⟩ := hrest.keeps (by simp)
          exact ⟨[], later, rfl, .nil, hlater⟩
      | cons first front =>
          obtain ⟨rfl, hfront⟩ := List.cons.inj hlines
          obtain ⟨grouped, later, rfl, hgrouped, hlater⟩ := ih hfront
          exact ⟨first :: grouped, later, rfl, .keep first hgrouped, hlater⟩
  | @declare run lines tokens hrun hrest ih =>
      rcases List.append_eq_append_iff.mp hlines with ⟨inside, rfl, hinside⟩ | ⟨behind, rfl, hbehind⟩
      · -- the comment sign would stand in the run, with a marker or nothing behind it
        match inside with
        | [] =>
            rw [← List.nil_append (_ :: _)] at hinside
            obtain ⟨grouped, later, rfl, hgrouped, hlater⟩ := ih hinside
            exact ⟨Document.declare (front ++ []) :: grouped, later, rfl,
              by simpa using Groups.declare hrun hgrouped, hlater⟩
        | [only] =>
            obtain ⟨r, hr⟩ := hrun.last
            obtain ⟨rfl, -⟩ := List.cons.inj hinside
            simp at hr
        | first :: second :: inside =>
            obtain ⟨rfl, htail⟩ := List.cons.inj hinside
            obtain ⟨rfl, -⟩ := List.cons.inj htail
            have := marker?_eq_none_of_plain (hrun.plain (.marker m which) (by simp))
            simp [Token.marker?] at this
      · obtain ⟨grouped, later, rfl, hgrouped, hlater⟩ := ih hbehind.symm
        exact ⟨Document.declare run :: grouped, later, rfl, .declare hrun hgrouped, hlater⟩

/-- A comment sign with a marker behind it does not start a declaration. -/
theorem Groups.keeps_marked {c m : Text} {which : Marker}
    (h : Groups (.comment c :: .marker m which :: lines) tokens) :
    ∃ tokens', tokens = .comment c :: .marker m which :: tokens' ∧ Groups lines tokens' := by
  rw [← List.nil_append (_ :: _)] at h
  obtain ⟨grouped, tokens', rfl, hnil, hlater⟩ := h.exists_split_marked
  obtain rfl := hnil.eq_nil
  exact ⟨tokens', rfl, hlater⟩

theorem Groups.opensWith_eq (which : Marker) (h : Groups lines tokens) :
    opensWith which tokens = opensWith which lines := by
  rw [Bool.eq_iff_iff, opensWith_iff, opensWith_iff]
  constructor
  · rintro ⟨c, m, r, rest, rfl⟩
    obtain ⟨_, rfl, hmarker⟩ := h.of_kept (by simp [Token.kind])
    obtain ⟨_, rfl, hbreak⟩ := hmarker.of_kept (by cases which <;> simp [Token.kind, Marker.kind])
    obtain ⟨lines', rfl, -⟩ := hbreak.of_kept (by simp [Token.kind])
    exact ⟨c, m, r, lines', rfl⟩
  · rintro ⟨c, m, r, rest, rfl⟩
    obtain ⟨_, rfl, hbreak⟩ := h.keeps_marked
    obtain ⟨tokens', rfl, -⟩ := hbreak.keeps (by simp)
    exact ⟨c, m, r, tokens', rfl⟩

theorem Groups.closes_eq (h : Groups lines tokens) : closes tokens = closes lines := by
  rw [Bool.eq_iff_iff, closes_iff, closes_iff]
  constructor
  · rintro ⟨c, m, rest, rfl⟩
    obtain ⟨_, rfl, hmarker⟩ := h.of_kept (by simp [Token.kind])
    obtain ⟨lines', rfl, -⟩ := hmarker.of_kept (by simp [Token.kind, Marker.kind])
    exact ⟨c, m, lines', rfl⟩
  · rintro ⟨c, m, rest, rfl⟩
    obtain ⟨tokens', rfl, -⟩ := h.keeps_marked
    exact ⟨c, m, tokens', rfl⟩

/-- A region that ends in front of tokens ends in front of their lines. -/
theorem Groups.closing_iff {closing : List Token} (h : Groups lines tokens) :
    Closing closing tokens ↔ Closing closing lines := by
  have hbreak : ∀ r, tokens.head? = some (.lineBreak r) ↔ lines.head? = some (.lineBreak r) := by
    intro r
    cases h with
    | nil => rfl
    | keep _ _ => simp
    | @declare run _ _ hrun rest =>
        obtain ⟨c, hc⟩ := hrun.first
        have hkind := kind_declare run
        constructor
        · intro hhead
          rw [List.head?_cons, Option.some.injEq] at hhead
          rw [hhead] at hkind
          simp [Token.kind] at hkind
        · intro hhead
          rw [List.head?_append, hc] at hhead
          simp at hhead
  constructor
  · intro hclosing
    cases hclosing with
    | atEnd =>
        cases h
        exact .atEnd
    | bare c m hno => exact .bare c m fun r hr => hno r ((hbreak r).mpr hr)
    | line c m r rest => exact .line c m r lines
  · intro hclosing
    cases hclosing with
    | atEnd =>
        obtain rfl := h.eq_nil
        exact .atEnd
    | bare c m hno => exact .bare c m fun r hr => hno r ((hbreak r).mp hr)
    | line c m r rest => exact .line c m r tokens

/-- The end of a region holds no declaration. -/
theorem Closing.eq_of_groups {closing rest closingLines : List Token} (h : Closing closing rest)
    (hgroups : Groups closingLines closing) : closing = closingLines := by
  have hkept : ∀ {part partLines : List Token}, (∀ token ∈ part, token.kind ∉ ['F', 'A', '0']) →
      Groups partLines part → part = partLines := by
    intro part
    induction part with
    | nil =>
        intro partLines _ hpart
        cases hpart
        rfl
    | cons token part ih =>
        intro partLines hkinds hpart
        obtain ⟨partLines, rfl, hrest⟩ := hpart.of_kept (hkinds token List.mem_cons_self)
        rw [ih (fun token hmem => hkinds token (List.mem_cons_of_mem _ hmem)) hrest]
  apply hkept _ hgroups
  cases h <;> simp [Token.kind, Marker.kind]

/-! ## Where no marker stands -/

/-- A test that can only succeed at a comment sign with a marker behind it. -/
def AtMarkers (test : List Token → Bool) : Prop :=
  ∀ {tokens}, test tokens = true →
    ∃ c m which rest, tokens = .comment c :: .marker m which :: rest

theorem atMarkers_opensWith (which : Marker) : AtMarkers (opensWith which) := by
  intro tokens h
  obtain ⟨c, m, r, rest, rfl⟩ := opensWith_iff.mp h
  exact ⟨c, m, which, _, rfl⟩

theorem atMarkers_closes : AtMarkers closes := by
  intro tokens h
  obtain ⟨c, m, rest, rfl⟩ := closes_iff.mp h
  exact ⟨c, m, .finish, rest, rfl⟩

/-- Among tokens without markers, a test for markers can succeed only at a comment
sign in front of what follows. -/
theorem AtMarkers.noneBefore {test : List Token → Bool} (htest : AtMarkers test) :
    ∀ {part rest : List Token}, markersOf part = [] →
      (∀ c m which, part.getLast? = some (.comment c) → rest.head? ≠ some (.marker m which)) →
      NoneBefore test part rest := by
  intro part
  induction part with
  | nil =>
      intro rest _ _
      exact noneBefore_nil test rest
  | cons token part ih =>
      intro rest hmarkers hedge
      have hpart : markersOf part = [] := by
        rw [markersOf, List.filterMap_cons] at hmarkers
        split at hmarkers
        · exact hmarkers
        · simp at hmarkers
      refine noneBefore_cons.mpr ⟨?_, ?_⟩
      · rw [Bool.eq_false_iff]
        intro hsuccess
        obtain ⟨c, m, which, behind, heq⟩ := htest hsuccess
        obtain ⟨rfl, hpartEq⟩ := List.cons.inj heq
        cases part with
        | nil =>
            rw [List.nil_append] at hpartEq
            exact hedge c m which rfl (by rw [hpartEq]; rfl)
        | cons second part =>
            obtain ⟨rfl, -⟩ := List.cons.inj hpartEq
            simp [markersOf, Token.marker?] at hpart
      · apply ih hpart
        intro c m which hc
        cases part with
        | nil => simp at hc
        | cons second part => exact hedge c m which (by rw [List.getLast?_cons_cons]; exact hc)

theorem DeclarationRun.noneBefore {test : List Token → Bool} (htest : AtMarkers test)
    {run rest : List Token} (h : DeclarationRun run) : NoneBefore test run rest := by
  obtain ⟨r, hr⟩ := h.last
  apply htest.noneBefore h.markersOf_eq
  intro c m which hc
  rw [hr] at hc
  simp at hc

/-- Where a test for markers fails does not depend on grouping. -/
theorem Groups.noneBefore_iff {test : List Token → Bool} (htest : AtMarkers test)
    (hgroups : ∀ {lines tokens}, Groups lines tokens → test tokens = test lines)
    (h : Groups lines tokens) (h' : Groups lines' tokens') :
    NoneBefore test tokens tokens' ↔ NoneBefore test lines lines' := by
  induction h with
  | nil => simp
  | keep token rest ih =>
      rw [noneBefore_cons, noneBefore_cons, ih, hgroups (.keep token (rest.append h'))]
  | @declare run lines tokens hrun rest ih =>
      have hdeclare : test (Document.declare run :: (tokens ++ tokens')) = false := by
        rw [Bool.eq_false_iff]
        intro hsuccess
        obtain ⟨c, m, which, behind, heq⟩ := htest hsuccess
        have hkind := kind_declare run
        rw [(List.cons.inj heq).1] at hkind
        simp [Token.kind] at hkind
      rw [noneBefore_cons, noneBefore_append, ih]
      simp [hdeclare, hrun.noneBefore htest]

end CommentMacro.Document
