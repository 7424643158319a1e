import CommentMacro.Proofs.Document.Collecting

/-!
# The regions of a list of tokens

Whatever the tokens are, and in whatever order, collecting goes through them once from the
front (`Collects`): where no region opens the token is passed on, and where one opens, all
tokens through its end are taken. What comes out holds no opening any more, so that
collecting a second time finds nothing (`Collects.noneBefore`).

`Part` tells the tokens that were passed on from the regions that were put together: a list
may hold regions beforehand, and these are not taken apart.
-/

namespace CommentMacro.Document

/-! ## Collecting as a relation -/

/-- Tokens, and what collecting makes of them. -/
inductive Collects : List Token → List Token → Prop where
  | nil : Collects [] []
  | keep (token : Token) {tokens collected : List Token}
      (hopens : opensWith .generate (token :: tokens) = false) (rest : Collects tokens collected) :
      Collects (token :: tokens) (token :: collected)
  | region (c m r : Text) {body closing tokens collected : List Token}
      (hnone : NoneBefore closes body (closing ++ tokens)) (hclosing : Closing closing tokens)
      (rest : Collects tokens collected) :
      Collects (.comment c :: .marker m .generate :: .lineBreak r :: (body ++ (closing ++ tokens)))
        (.region (textOf [.comment c, .marker m .generate, .lineBreak r]) (textOf body)
          (textOf closing) :: collected)

theorem collects_collectRegions (tokens : List Token) :
    Collects tokens (collectRegions tokens) := by
  -- a region takes several tokens at once, so the induction is on the length
  induction hlength : tokens.length using Nat.strongRecOn generalizing tokens with
  | ind n ih =>
      subst hlength
      cases tokens with
      | nil =>
          rw [collectRegions_nil]
          exact .nil
      | cons token tokens =>
          cases hopens : opensWith .generate (token :: tokens) with
          | false =>
              rw [collectRegions_cons hopens]
              exact .keep token hopens (ih tokens.length (by simp) tokens rfl)
          | true =>
              obtain ⟨c, m, r, behind, heq⟩ := opensWith_iff.mp hopens
              obtain ⟨body, closing, rest, rfl, hnone, hclosing⟩ := exists_closing behind
              have hshorter : rest.length < (token :: tokens).length := by
                simp only [heq, List.length_cons, List.length_append]
                omega
              rw [heq, collectRegions_region hnone hclosing]
              exact .region c m r hnone hclosing (ih rest.length hshorter rest rfl)

section

variable {tokens collected : List Token}

theorem Collects.textOf_eq (h : Collects tokens collected) :
    textOf collected = textOf tokens := by
  induction h with
  | nil => rfl
  | keep token _ _ ih => rw [textOf_cons, textOf_cons, ih]
  | region c m r _ _ _ ih => simp [Token.text, ih]

/-- A token that is no region was there before. -/
theorem Collects.of_kept {token : Token} (hkind : token.kind ≠ 'Z')
    (h : Collects tokens (token :: collected)) :
    ∃ tokens', tokens = token :: tokens' ∧ Collects tokens' collected := by
  cases h with
  | keep _ _ rest => exact ⟨_, rfl, rest⟩
  | region c m r _ _ _ => exact absurd rfl hkind

/-- What opens a region behind collecting did so before. -/
theorem Collects.opensWith_of (h : Collects tokens collected)
    (hopens : opensWith .generate collected = true) : opensWith .generate tokens = true := by
  obtain ⟨c, m, r, rest, rfl⟩ := opensWith_iff.mp hopens
  obtain ⟨_, rfl, hmarker⟩ := h.of_kept (by simp [Token.kind])
  obtain ⟨_, rfl, hbreak⟩ := hmarker.of_kept (by simp [Token.kind, Marker.kind])
  obtain ⟨tokens', rfl, -⟩ := hbreak.of_kept (by simp [Token.kind])
  exact opensWith_iff.mpr ⟨c, m, r, tokens', rfl⟩

/-- No region opens any more. -/
theorem Collects.noneBefore (h : Collects tokens collected) :
    NoneBefore (opensWith .generate) collected [] := by
  induction h with
  | nil => exact noneBefore_nil _ _
  | keep token hopens rest ih =>
      refine noneBefore_cons.mpr ⟨?_, ih⟩
      rw [List.append_nil, Bool.eq_false_iff]
      intro hcollected
      rw [(Collects.keep token hopens rest).opensWith_of hcollected] at hopens
      simp at hopens
  | region c m r _ _ _ ih => exact noneBefore_cons.mpr ⟨rfl, ih⟩

/-- Collecting has nothing to do where it has been done. -/
theorem collectRegions_of_noneBefore (h : NoneBefore (opensWith .generate) tokens []) :
    collectRegions tokens = tokens := by
  have happend := collectRegions_append h
  rwa [collectRegions_nil, List.append_nil] at happend

end

/-! ## The parts that collecting cuts a list into -/

/-- A part of a list: a token that is passed on, or the tokens of a region. -/
inductive Part where
  | kept (token : Token)
  | region (opening body closing : List Token)
  deriving DecidableEq, Repr, Inhabited

def Part.tokens : Part → List Token
  | kept token => [token]
  | region opening body closing => opening ++ (body ++ closing)

def Part.token : Part → Token
  | kept token => token
  | region opening body closing => .region (textOf opening) (textOf body) (textOf closing)

/-- What a region is made of, with `rest` behind it: its opening line, and all tokens up to
the first end marker behind a comment sign, or to the end. -/
structure IsRegion (opening body closing rest : List Token) : Prop where
  opening_eq : ∃ c m r, opening = [.comment c, .marker m .generate, .lineBreak r]
  /-- The end is the marker behind a comment sign, with the line break behind it if there
  is one, or it is nothing and nothing follows. -/
  ends : Closing closing rest
  /-- The end is the first one: none starts in the body, nor reaches out of it. -/
  first : NoneBefore closes body (closing ++ rest)
  /-- It is nothing only if there is no other. -/
  nothing_iff : (closing = [] ∧ rest = []) ↔ NoneBefore closes (body ++ (closing ++ rest)) []

theorem isRegion_of_closing {c m r : Text} {body closing rest : List Token}
    (hnone : NoneBefore closes body (closing ++ rest)) (hclosing : Closing closing rest) :
    IsRegion [.comment c, .marker m .generate, .lineBreak r] body closing rest where
  opening_eq := ⟨c, m, r, rfl⟩
  ends := hclosing
  first := hnone
  nothing_iff := by
    constructor
    · rintro ⟨rfl, rfl⟩
      simpa using hnone
    · intro hall
      rw [noneBefore_append, List.append_nil] at hall
      -- an end that is something starts with what the tokens do not hold
      cases hclosing with
      | atEnd => exact ⟨rfl, rfl⟩
      | bare c m _ => exact absurd (noneBefore_cons.mp hall.2).1 (by simp [closes])
      | line c m r rest => exact absurd (noneBefore_cons.mp hall.2).1 (by simp [closes])

theorem Collects.exists_parts {tokens collected : List Token} (h : Collects tokens collected) :
    ∃ parts : List Part, parts.flatMap Part.tokens = tokens ∧ parts.map Part.token = collected ∧
      ∀ before opening body closing after, parts = before ++ .region opening body closing :: after →
        IsRegion opening body closing (after.flatMap Part.tokens) := by
  induction h with
  | nil =>
      refine ⟨[], rfl, rfl, ?_⟩
      intro before opening body closing after heq
      simp at heq
  | keep token _ _ ih =>
      obtain ⟨parts, rfl, rfl, hregions⟩ := ih
      refine ⟨.kept token :: parts, rfl, rfl, ?_⟩
      intro before opening body closing after heq
      cases before with
      | nil => simp at heq
      | cons part before =>
          exact hregions before opening body closing after (List.cons.inj heq).2
  | @region c m r body closing _ _ hnone hclosing _ ih =>
      obtain ⟨parts, rfl, rfl, hregions⟩ := ih
      refine ⟨.region [.comment c, .marker m .generate, .lineBreak r] body closing :: parts, ?_, rfl,
        ?_⟩
      · simp [Part.tokens]
      · intro before opening' body' closing' after heq
        cases before with
        | nil =>
            obtain ⟨hpart, rfl⟩ := List.cons.inj heq
            obtain ⟨rfl, rfl, rfl⟩ := Part.region.inj hpart
            exact isRegion_of_closing hnone hclosing
        | cons part before =>
            exact hregions before opening' body' closing' after (List.cons.inj heq).2

/-- Collecting cuts a list of tokens, of whatever kinds in whatever order, into parts. The
texts stay; a part that is put together is a region from its opening line through its first
end; no opening line is left among the tokens that are passed on; and what comes out stays as
it is when it is collected again. -/
theorem collectRegions_exact (tokens : List Token) :
    textOf (collectRegions tokens) = textOf tokens ∧
    (∃ parts : List Part,
      parts.flatMap Part.tokens = tokens ∧ parts.map Part.token = collectRegions tokens ∧
      ∀ before opening body closing after, parts = before ++ .region opening body closing :: after →
        IsRegion opening body closing (after.flatMap Part.tokens)) ∧
    NoneBefore (opensWith .generate) (collectRegions tokens) [] ∧
    collectRegions (collectRegions tokens) = collectRegions tokens := by
  have hcollects := collects_collectRegions tokens
  have hnone := hcollects.noneBefore
  exact ⟨hcollects.textOf_eq, hcollects.exists_parts, hnone, collectRegions_of_noneBefore hnone⟩

end CommentMacro.Document
