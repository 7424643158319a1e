import CommentMacro.Document.Declaration
import CommentMacro.Proofs.Document.Collecting
import CommentMacro.Proofs.Pattern.Reach

/-!
# Grouping declarations, read from the front

`Document.groupDeclarations` is a scan for a pattern, and so is what it does within
a match. Read from the front it says:

- a token at which no block of declarations starts stays (`groupDeclarations_cons`),
  and so does one behind which no line with a generate marker comes
  (`groupDeclarations_cons_of_none`);
- a block reaches from its first line to the next line with a generate marker, and
  is grouped by itself (`groupDeclarations_block`).

What grouping may do to tokens is the relation `Groups`: it keeps a token, or it
puts a run of whole lines without markers together into one declaration. Texts,
markers and the lines that hold a marker alone are not affected.
-/

namespace CommentMacro.Document

open Pattern

/-! ## The pattern of a block of declarations -/

theorem declarations_eq :
    declarations = .both (.word (lineKinds .start))
      (.both (.lazyStar .any) (.both (.word (lineKinds .generate)) .empty)) :=
  rfl

theorem attempts_opening (which : Marker) (tokens : List Token) :
    attempts (tokens.map Token.kind).toArray (.both (.word (lineKinds which)) .empty) 0 =
      if opensWith which tokens then [⟨3, []⟩] else [] := by
  simp only [attempts, attempts_word, isPrefixOf_kinds_opening]
  split <;> simp [lineKinds, Hit.after]

theorem begins_opening (which : Marker) (tokens : List Token) :
    begins (.both (.word (lineKinds which)) .empty) (tokens.map Token.kind) =
      opensWith which tokens := by
  rw [begins, attempts_opening]
  cases opensWith which tokens <;> rfl

theorem noneBefore_begins {which : Marker} {part rest : List Token}
    (h : NoneBefore (opensWith which) part rest) :
    NoneBefore (begins (.both (.word (lineKinds which)) .empty)) (part.map Token.kind)
      (rest.map Token.kind) := by
  intro i hi
  rw [List.length_map] at hi
  rw [← List.map_append, ← List.map_drop, begins_opening]
  exact h i hi

theorem matchAt?_declarations_eq_none {tokens : List Token}
    (h : opensWith .start tokens = false) :
    declarations.matchAt? (tokens.map Token.kind).toArray 0 = none := by
  rw [matchAt?_eq, declarations_eq, attempts, attempts_word, isPrefixOf_kinds_opening, h]
  rfl

theorem map_kind_opening (which : Marker) (c m r : Text) (tokens : List Token) :
    (Token.comment c :: .marker m which :: .lineBreak r :: tokens).map Token.kind =
      lineKinds which ++ tokens.map Token.kind :=
  rfl

theorem head?_attempts_declarations (c s r : Text) (tokens : List Token) :
    (attempts ((Token.comment c :: .marker s .start :: .lineBreak r :: tokens).map
        Token.kind).toArray declarations 0).head? =
      (attempts (tokens.map Token.kind).toArray (.both (.lazyStar .any)
        (.both (.word (lineKinds .generate)) .empty)) 0).head?.map (Hit.shift 3) := by
  have hword : (lineKinds .start).isPrefixOf
      (lineKinds .start ++ tokens.map Token.kind) = true :=
    List.isPrefixOf_iff_prefix.mpr (List.prefix_append _ _)
  have hbehind := attempts_append_left (lineKinds .start) (tokens.map Token.kind)
    (.both (.lazyStar .any) (.both (.word (lineKinds .generate)) .empty)) 0
  have hlength : (lineKinds .start).length = 3 := rfl
  rw [hlength, Nat.add_zero] at hbehind
  rw [map_kind_opening, declarations_eq, attempts, attempts_word, if_pos hword]
  rw [follow_cons, follow_nil, List.append_nil, hlength, hbehind, List.map_map, List.head?_map]
  rfl

theorem matchAt?_declarations_of_none {c s r : Text} {tokens : List Token}
    (h : NoneBefore (opensWith .generate) tokens []) :
    declarations.matchAt? ((Token.comment c :: .marker s .start :: .lineBreak r :: tokens).map
      Token.kind).toArray 0 = none := by
  rw [matchAt?_eq, head?_attempts_declarations,
    attempts_upTo_eq_nil skips_lazyStar (noneBefore_begins h) (begins_opening .generate [])]
  rfl

theorem matchAt?_declarations {c s r c' g r' : Text} {middle rest : List Token}
    (h : NoneBefore (opensWith .generate) middle
      (.comment c' :: .marker g .generate :: .lineBreak r' :: rest)) :
    declarations.matchAt? ((Token.comment c :: .marker s .start :: .lineBreak r ::
        (middle ++ .comment c' :: .marker g .generate :: .lineBreak r' :: rest)).map
          Token.kind).toArray 0 = some ⟨0, 6 + middle.length, []⟩ := by
  have hat : (attempts ((Token.comment c' :: .marker g .generate :: .lineBreak r' :: rest).map
      Token.kind).toArray (.both (.word (lineKinds .generate)) .empty) 0).head? =
      some ⟨3, []⟩ := by
    rw [attempts_opening]
    rfl
  have hupTo := head?_attempts_upTo skips_lazyStar (noneBefore_begins h) hat
  rw [matchAt?_eq, head?_attempts_declarations, List.map_append, hupTo]
  simp [Hit.shift]
  omega

/-! ## One step of grouping -/

theorem items_shift {α : Type} (front items : List α) (m : Match) :
    (m.shift front.length).items (front ++ items) = m.items items :=
  slice_append_left front items m.start m.stop

theorem local_groupRun : Local fun tokens m => groupRun (m.items tokens) := by
  intro front tokens m
  simp only [items_shift]

theorem local_declare : Local fun tokens m => [declare (m.items tokens)] := by
  intro front tokens m
  simp only [items_shift]

@[simp] theorem groupDeclarations_nil : groupDeclarations [] = [] := by
  have hnone : declarations.matchAt? #[] 0 = none :=
    @matchAt?_declarations_eq_none [] rfl
  exact @rebuild_nil _ _ _ (fun tokens m => groupRun (m.items tokens)) hnone

theorem groupDeclarations_cons {token : Token} {tokens : List Token}
    (h : opensWith .start (token :: tokens) = false) :
    groupDeclarations (token :: tokens) = token :: groupDeclarations tokens :=
  rebuild_cons local_groupRun (matchAt?_declarations_eq_none h)

/-- A block of declarations has to come to an end. -/
theorem groupDeclarations_cons_of_none {c s r : Text} {tokens : List Token}
    (h : NoneBefore (opensWith .generate) tokens []) :
    groupDeclarations (.comment c :: .marker s .start :: .lineBreak r :: tokens) =
      .comment c :: groupDeclarations (.marker s .start :: .lineBreak r :: tokens) :=
  rebuild_cons local_groupRun (matchAt?_declarations_of_none h)

/-- A block of declarations is grouped by itself. -/
theorem groupDeclarations_block {c s r c' g r' : Text} {middle rest : List Token}
    (h : NoneBefore (opensWith .generate) middle
      (.comment c' :: .marker g .generate :: .lineBreak r' :: rest)) :
    groupDeclarations (.comment c :: .marker s .start :: .lineBreak r ::
        (middle ++ .comment c' :: .marker g .generate :: .lineBreak r' :: rest)) =
      groupRun (.comment c :: .marker s .start :: .lineBreak r ::
        (middle ++ [.comment c', .marker g .generate, .lineBreak r'])) ++
        groupDeclarations rest := by
  let run := Token.comment c :: .marker s .start :: .lineBreak r ::
    (middle ++ [.comment c', .marker g .generate, .lineBreak r'])
  have htokens : Token.comment c :: .marker s .start :: .lineBreak r ::
      (middle ++ .comment c' :: .marker g .generate :: .lineBreak r' :: rest) = run ++ rest := by
    simp [run]
  have hmatch := matchAt?_declarations (c := c) (s := s) (r := r) h
  have hlength : 6 + middle.length = run.length := by
    simp [run]
    omega
  rw [htokens] at hmatch ⊢
  apply (rebuild_append local_groupRun hmatch hlength (by simp [run])).trans
  have hitems : (⟨0, 6 + middle.length, []⟩ : Match).items (run ++ rest) = run := by
    rw [hlength]
    simp [Match.items, Text.slice]
  simp only [hitems]
  rfl

end CommentMacro.Document
