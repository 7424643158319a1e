import CommentMacro.Document.Region
import CommentMacro.Proofs.Pattern.Shapes

/-!
# Collecting regions, read from the front

`Document.collectRegions` is a scan for a pattern. Read from the front it says:

- a token at which no region opens stays (`collectRegions_cons`);
- a region opens with a line that holds a generate marker alone, and goes on to
  the first end marker behind a comment sign, with the line break behind it if
  there is one, or else to the end (`collectRegions_region`).

Every list of tokens behind an opening has such an end (`exists_closing`).
-/

namespace CommentMacro.Document

open Pattern

/-! ## Tokens and their kinds -/

theorem kind_eq_comment {token : Token} : token.kind = 'C' ↔ ∃ t, token = .comment t := by
  cases token with
  | marker t which => cases which <;> simp [Token.kind, Marker.kind]
  | _ => simp [Token.kind]

theorem kind_eq_lineBreak {token : Token} : token.kind = 'R' ↔ ∃ t, token = .lineBreak t := by
  cases token with
  | marker t which => cases which <;> simp [Token.kind, Marker.kind]
  | _ => simp [Token.kind]

theorem kind_eq_marker {token : Token} {which : Marker} :
    token.kind = which.kind ↔ ∃ t, token = .marker t which := by
  cases token with
  | marker t found => cases found <;> cases which <;> simp [Token.kind, Marker.kind]
  | _ => cases which <;> simp [Token.kind, Marker.kind]

/-! ## Where a line with a marker stands -/

def opensWith (which : Marker) : List Token → Bool
  | .comment _ :: .marker _ found :: .lineBreak _ :: _ => found == which
  | _ => false

def closes : List Token → Bool
  | .comment _ :: .marker _ .finish :: _ => true
  | _ => false

theorem opensWith_iff {which : Marker} {tokens : List Token} :
    opensWith which tokens = true ↔
      ∃ c m r rest, tokens = .comment c :: .marker m which :: .lineBreak r :: rest := by
  constructor
  · intro h
    unfold opensWith at h
    split at h
    · next c m found r rest =>
        obtain rfl := eq_of_beq h
        exact ⟨c, m, r, rest, rfl⟩
    · simp at h
  · rintro ⟨c, m, r, rest, rfl⟩
    simp [opensWith]

theorem closes_iff {tokens : List Token} :
    closes tokens = true ↔
      ∃ c m rest, tokens = .comment c :: .marker m .finish :: rest := by
  constructor
  · intro h
    unfold closes at h
    split at h
    · next c m rest => exact ⟨c, m, rest, rfl⟩
    · simp at h
  · rintro ⟨c, m, rest, rfl⟩
    rfl

def lineKinds (which : Marker) : Text :=
  ['C', which.kind, 'R']

theorem isPrefixOf_kinds_opening (which : Marker) (tokens : List Token) :
    (lineKinds which).isPrefixOf (tokens.map Token.kind) = opensWith which tokens := by
  rw [Bool.eq_iff_iff, opensWith_iff, lineKinds]
  match tokens with
  | [] => simp
  | [_] => simp
  | [_, _] => simp
  | first :: second :: third :: rest =>
      simp only [List.map_cons, List.isPrefixOf_cons_cons, List.isPrefixOf_nil_left,
        Bool.and_true, Bool.and_eq_true, beq_iff_eq, List.cons.injEq]
      rw [eq_comm, kind_eq_comment, eq_comm, kind_eq_marker, eq_comm, kind_eq_lineBreak]
      constructor
      · rintro ⟨⟨c, rfl⟩, ⟨m, rfl⟩, ⟨r, rfl⟩⟩
        exact ⟨c, m, r, rest, rfl, rfl, rfl, rfl⟩
      · rintro ⟨c, m, r, _, rfl, rfl, rfl, rfl⟩
        exact ⟨⟨c, rfl⟩, ⟨m, rfl⟩, ⟨r, rfl⟩⟩

theorem isPrefixOf_kinds_closing (tokens : List Token) :
    ['C', 'E'].isPrefixOf (tokens.map Token.kind) = closes tokens := by
  rw [Bool.eq_iff_iff, closes_iff]
  match tokens with
  | [] => simp
  | [_] => simp
  | first :: second :: rest =>
      simp only [List.map_cons, List.isPrefixOf_cons_cons, List.isPrefixOf_nil_left,
        Bool.and_true, Bool.and_eq_true, beq_iff_eq, List.cons.injEq]
      rw [eq_comm, kind_eq_comment, eq_comm]
      have hmarker : second.kind = Marker.finish.kind ↔ ∃ t, second = .marker t .finish :=
        kind_eq_marker
      rw [Marker.kind] at hmarker
      rw [hmarker]
      constructor
      · rintro ⟨⟨c, rfl⟩, ⟨m, rfl⟩⟩
        exact ⟨c, m, rest, rfl, rfl, rfl⟩
      · rintro ⟨c, m, _, rfl, rfl, rfl⟩
        exact ⟨⟨c, rfl⟩, ⟨m, rfl⟩⟩

/-! ## The end of a region -/

/-- What may end a region, with what follows it: an end marker behind a comment
sign, with the line break behind it if there is one, or the end of everything. -/
inductive Closing : List Token → List Token → Prop where
  | atEnd : Closing [] []
  | bare (c m : Text) {rest : List Token} (h : ∀ r, rest.head? ≠ some (.lineBreak r)) :
      Closing [.comment c, .marker m .finish] rest
  | line (c m r : Text) (rest : List Token) :
      Closing [.comment c, .marker m .finish, .lineBreak r] rest

/-- Behind every place there is a first end. -/
theorem exists_closing (tokens : List Token) :
    ∃ body closing rest, tokens = body ++ (closing ++ rest) ∧
      NoneBefore closes body (closing ++ rest) ∧ Closing closing rest := by
  rcases exists_first closes tokens with ⟨hnone, -⟩ | ⟨body, ending, rfl, hnone, hcloses⟩
  · exact ⟨tokens, [], [], by simp, by simpa using hnone, .atEnd⟩
  · obtain ⟨c, m, rest, rfl⟩ := closes_iff.mp hcloses
    cases rest with
    | nil =>
        exact ⟨body, [.comment c, .marker m .finish], [], by simp, hnone, .bare c m (by simp)⟩
    | cons token rest =>
        by_cases hbreak : ∃ r, token = .lineBreak r
        · obtain ⟨r, rfl⟩ := hbreak
          exact ⟨body, [.comment c, .marker m .finish, .lineBreak r], rest, rfl, hnone,
            .line c m r rest⟩
        · refine ⟨body, [.comment c, .marker m .finish], token :: rest, rfl, hnone,
            .bare c m ?_⟩
          intro r hr
          exact hbreak ⟨r, Option.some.inj hr⟩

/-! ## The pattern of a region -/

def ending : Pattern :=
  .seq [.capture endName (.alt [.seq [.word ['C', 'E'], .optional (.kind 'R')], .finish])]

theorem generated_eq :
    generated =
      .both (.word (lineKinds .generate)) (.both (.capture bodyName (.lazyStar .any)) ending) :=
  rfl

/-- A way to end a region, of a given length. -/
def endingHit (length : Nat) : Hit :=
  ⟨length, [⟨endName, 0, length⟩]⟩

theorem attempts_ending (l : List Kind) :
    attempts l.toArray ending 0 =
      (if ['C', 'E'].isPrefixOf l then
        (if l[2]? = some 'R' then [endingHit 3] else []) ++ [endingHit 2]
      else []) ++ if l = [] then [endingHit 0] else [] := by
  have hshape : ending = both (capture endName
      (either (both (word ['C', 'E']) (both (Pattern.optional (kind 'R')) empty))
        (either .finish never))) empty := rfl
  have hsize : 0 = l.toArray.size ↔ l = [] := by
    rw [List.size_toArray, eq_comm, List.length_eq_zero_iff]
  rw [hshape]
  simp only [attempts, attempts_never, attempts_optional_kind, attempts_word, hsize]
  -- the marker with its line break comes first, then the marker alone, then the end of all
  by_cases hbegins : ['C', 'E'].isPrefixOf l = true
  · have hne : l ≠ [] := by
      rintro rfl
      simp at hbegins
    by_cases hbreak : l[2]? = some 'R' <;>
      simp [hbegins, hbreak, hne, endingHit, Hit.after]
  · by_cases hnil : l = [] <;>
      simp [hbegins, hnil, endingHit, Hit.after]

theorem begins_ending (tokens : List Token) :
    begins ending (tokens.map Token.kind) = (closes tokens || tokens.isEmpty) := by
  rw [begins, attempts_ending, isPrefixOf_kinds_closing]
  cases closes tokens <;> cases tokens <;> simp

/-- The first way to end a region takes the line break if there is one. -/
theorem head?_attempts_ending {closing rest : List Token} (h : Closing closing rest) :
    (attempts ((closing ++ rest).map Token.kind).toArray ending 0).head? =
      some (endingHit closing.length) := by
  rw [attempts_ending]
  cases h with
  | atEnd => simp
  | line c m r rest => simp [Token.kind, Marker.kind]
  | bare c m h =>
      cases rest with
      | nil => simp [Token.kind, Marker.kind]
      | cons token rest =>
          have hkind : token.kind ≠ 'R' := by
            intro hkind
            obtain ⟨r, rfl⟩ := kind_eq_lineBreak.mp hkind
            exact h r rfl
          have hkinds : ([Token.comment c, .marker m .finish] ++ token :: rest).map Token.kind =
              'C' :: 'E' :: token.kind :: rest.map Token.kind := rfl
          rw [hkinds]
          simp [hkind]

theorem matchAt?_generated_eq_none {tokens : List Token}
    (h : opensWith .generate tokens = false) :
    generated.matchAt? (tokens.map Token.kind).toArray 0 = none := by
  rw [matchAt?_eq, generated_eq]
  simp only [attempts]
  rw [attempts_word, isPrefixOf_kinds_opening, h]
  rfl

theorem matchAt?_generated {c m r : Text} {body closing rest : List Token}
    (hnone : NoneBefore closes body (closing ++ rest)) (hclosing : Closing closing rest) :
    generated.matchAt? ((.comment c :: .marker m .generate :: .lineBreak r ::
        (body ++ (closing ++ rest))).map Token.kind).toArray 0 =
      some ⟨0, 3 + (body.length + closing.length),
        [⟨bodyName, 3, 3 + body.length⟩,
          ⟨endName, 3 + body.length, 3 + (body.length + closing.length)⟩]⟩ := by
  have hkinds : (Token.comment c :: .marker m .generate :: .lineBreak r ::
      (body ++ (closing ++ rest))).map Token.kind =
      lineKinds .generate ++
        (body.map Token.kind ++ (closing ++ rest).map Token.kind) := by
    simp [lineKinds, Token.kind, Marker.kind]
  have hbefore : NoneBefore (begins ending) (body.map Token.kind)
      ((closing ++ rest).map Token.kind) := by
    intro i hi
    rw [List.length_map] at hi
    rw [← List.map_append, ← List.map_drop, begins_ending, hnone i hi, Bool.false_or,
      List.isEmpty_eq_false_iff]
    intro hdrop
    have := congrArg List.length hdrop
    simp at this
    omega
  have hupTo := head?_attempts_upTo (skips_capture bodyName) hbefore
    (head?_attempts_ending hclosing)
  -- what stands behind the opening line is matched as if it stood alone
  have hbehind := attempts_append_left (lineKinds .generate)
    (body.map Token.kind ++ (closing ++ rest).map Token.kind)
    (.both (.capture bodyName (.lazyStar .any)) ending) 0
  have hword : (lineKinds .generate).isPrefixOf (lineKinds .generate ++
      (body.map Token.kind ++ (closing ++ rest).map Token.kind)) = true :=
    List.isPrefixOf_iff_prefix.mpr (List.prefix_append _ _)
  rw [matchAt?_eq, generated_eq, hkinds, attempts, attempts_word, if_pos hword]
  rw [Nat.add_zero] at hbehind
  rw [follow_cons, follow_nil, List.append_nil, hbehind, List.map_map, List.head?_map, hupTo]
  simp [Hit.after, Hit.shift, Extent.shift, endingHit, lineKinds]

/-! ## One step of collecting -/

theorem local_regionOf : Local fun tokens m => [regionOf tokens m] := by
  intro front tokens m
  have hopening : Text.slice (front ++ tokens) (m.shift front.length).start
      ((m.shift front.length).start + 3) = Text.slice tokens m.start (m.start + 3) := by
    have hstart : (m.shift front.length).start = front.length + m.start := rfl
    rw [hstart, Nat.add_assoc]
    exact slice_append_left front tokens m.start (m.start + 3)
  simp only [regionOf, group?_shift, hopening]

theorem collectRegions_nil : collectRegions [] = [] := by
  have hnone : generated.matchAt? #[] 0 = none :=
    @matchAt?_generated_eq_none [] rfl
  exact @rebuild_nil _ _ _ (fun tokens m => [regionOf tokens m]) hnone

theorem collectRegions_cons {token : Token} {tokens : List Token}
    (h : opensWith .generate (token :: tokens) = false) :
    collectRegions (token :: tokens) = token :: collectRegions tokens :=
  rebuild_cons local_regionOf (matchAt?_generated_eq_none h)

/-- A region reaches from its opening line to its first end. -/
theorem collectRegions_region {c m r : Text} {body closing rest : List Token}
    (hnone : NoneBefore closes body (closing ++ rest)) (hclosing : Closing closing rest) :
    collectRegions (.comment c :: .marker m .generate :: .lineBreak r ::
        (body ++ (closing ++ rest))) =
      .region (textOf [.comment c, .marker m .generate, .lineBreak r]) (textOf body)
        (textOf closing) :: collectRegions rest := by
  let run := .comment c :: .marker m .generate :: .lineBreak r :: (body ++ closing)
  have htokens : Token.comment c :: .marker m .generate :: .lineBreak r ::
      (body ++ (closing ++ rest)) = run ++ rest := by
    simp [run]
  have hmatch := matchAt?_generated (c := c) (m := m) (r := r) hnone hclosing
  have hname : bodyName ≠ endName := by decide
  have hlength : 3 + (body.length + closing.length) = run.length := by
    simp [run]
    omega
  rw [htokens] at hmatch ⊢
  apply (rebuild_append local_regionOf hmatch hlength (by simp [run])).trans
  rw [List.singleton_append]
  congr 1
  have hopening : Text.slice (run ++ rest) 0 (0 + 3) =
      [.comment c, .marker m .generate, .lineBreak r] := by
    simp [run, Text.slice]
  have hbody : Text.slice (run ++ rest) 3 (3 + body.length) = body := by
    simp [run, Text.slice]
  have hclosing : Text.slice (run ++ rest) (3 + body.length)
      (3 + (body.length + closing.length)) = closing := by
    simp [run, Text.slice, Nat.add_comm]
  simp [regionOf, Match.group?, Match.extent?, hname.symm, hopening, hbody, hclosing]

theorem collectRegions_append {front rest : List Token}
    (h : NoneBefore (opensWith .generate) front rest) :
    collectRegions (front ++ rest) = front ++ collectRegions rest := by
  induction front with
  | nil => rfl
  | cons token front ih =>
      obtain ⟨hhere, hlater⟩ := noneBefore_cons.mp h
      rw [List.cons_append, collectRegions_cons hhere, ih hlater, List.cons_append]

end CommentMacro.Document
