import CommentMacro.Proofs.Pattern.Scan
import CommentMacro.Template.Directive
import Mathlib.Data.List.Induction

/-!
# Trimming looks at the neighbours only

White space is dropped by a scan from left to right, which goes through up to three
tokens at a time. What it leaves is told without the scan: a run of white space is
dropped if the token in front of it is a directive that asks for what is on its right,
and a run of spaces or tabs also if the token behind it is a directive that asks for
what is on its left (`trimBlanks_eq_filter`). The tokens that the scan has gone through
could not have been of use to the next directive (`Settled`).
-/

namespace CommentMacro.Template

/-! ## What is dropped -/

namespace Trim

def takesRight : Trim → Bool
  | both => true
  | right => true
  | _ => false

def takesLeft : Trim → Bool
  | both => true
  | left => true
  | _ => false

end Trim

namespace Token

/-- Whether a token is a directive that drops white space on its right. -/
def takesRight : Token .raw → Bool
  | directive _ trim _ => trim.takesRight
  | _ => false

def takesLeft : Token .raw → Bool
  | directive _ trim _ => trim.takesLeft
  | _ => false

def isBlank : Token .raw → Bool
  | blank _ => true
  | _ => false

def isIndent : Token .raw → Bool
  | blank text => text.head?.any fun c => c == ' ' || c == '\t'
  | _ => false

end Token

def isDropped (before : Option (Token .raw)) (token : Token .raw) (behind : Option (Token .raw)) :
    Bool :=
  (token.isBlank && before.any Token.takesRight) ||
    (token.isIndent && behind.any Token.takesLeft)

def tokenBefore? (tokens : List (Token .raw)) : (position : Nat) → Option (Token .raw)
  | 0 => none
  | position + 1 => tokens[position]?

def isDroppedAt (tokens : List (Token .raw)) (position : Nat) : Bool :=
  tokens[position]?.any fun token =>
    isDropped (tokenBefore? tokens position) token tokens[position + 1]?

/-- The tokens that are not dropped, behind a given one. -/
def keptBehind : (before : Option (Token .raw)) → List (Token .raw) → List (Token .raw)
  | _, [] => []
  | before, token :: later =>
    if isDropped before token later.head? then keptBehind (some token) later
    else token :: keptBehind (some token) later

/-! ## Tokens and their kinds -/

namespace Token

theorem isBlank_of_isIndent {token : Token .raw} (h : token.isIndent = true) :
    token.isBlank = true := by
  cases token <;> simp_all [isIndent, isBlank]

theorem takesRight_of_isBlank {token : Token .raw} (h : token.isBlank = true) :
    token.takesRight = false := by
  cases token <;> simp_all [isBlank, takesRight]

theorem isBlank_of_takesLeft {token : Token .raw} (h : token.takesLeft = true) :
    token.isBlank = false := by
  cases token <;> simp_all [isBlank, takesLeft]

theorem isBlank_of_takesRight {token : Token .raw} (h : token.takesRight = true) :
    token.isBlank = false := by
  cases token <;> simp_all [isBlank, takesRight]

theorem isIndent_of_takesRight {token : Token .raw} (h : token.takesRight = true) :
    token.isIndent = false := by
  cases token <;> simp_all [isIndent, takesRight]

theorem blankKind_cases (text : Text) :
    (text.head? = some ' ' ∧ blankKind text = 'S') ∨
      (text.head? = some '\t' ∧ blankKind text = 'T') ∨
      ((text.head?.any fun c => c == ' ' || c == '\t') = false ∧ blankKind text = 'N') := by
  unfold blankKind
  split
  · exact .inl ⟨rfl, rfl⟩
  · exact .inr (.inl ⟨rfl, rfl⟩)
  · next hspace htab =>
      refine .inr (.inr ⟨?_, rfl⟩)
      cases text with
      | nil => rfl
      | cons c text =>
          have hc : c ≠ ' ' := fun h => hspace text (by rw [h])
          have hc' : c ≠ '\t' := fun h => htab text (by rw [h])
          simp [hc, hc']

/-- What the kinds in the pattern say of a token. -/
theorem isAmong_kind (token : Token .raw) :
    Pattern.isAmong ['S', 'T', 'N'] (some token.kind) = token.isBlank ∧
      Pattern.isAmong ['S', 'T'] (some token.kind) = token.isIndent ∧
      Pattern.isAmong ['B', 'R'] (some token.kind) = token.takesRight ∧
      Pattern.isAmong ['B', 'L'] (some token.kind) = token.takesLeft ∧
      Pattern.isAmong ['B'] (some token.kind) = (token.takesLeft && token.takesRight) := by
  cases token with
  | blank text =>
      rcases blankKind_cases text with ⟨hhead, hkind⟩ | ⟨hhead, hkind⟩ | ⟨hhead, hkind⟩ <;>
        simp [kind, hhead, hkind, Pattern.isAmong, isBlank, isIndent, takesRight, takesLeft]
  | directive text trim content => cases trim <;> exact ⟨rfl, rfl, rfl, rfl, rfl⟩
  | _ => exact ⟨rfl, rfl, rfl, rfl, rfl⟩

end Token

open Pattern

theorem isAmong_getElem? {among : Text} {test : Token .raw → Bool}
    (h : ∀ token : Token .raw, isAmong among (some token.kind) = test token)
    (tokens : List (Token .raw))
    (i : Nat) : isAmong among (tokens.map Token.kind)[i]? = tokens[i]?.any test := by
  rw [List.getElem?_map]
  cases tokens[i]? with
  | none => rfl
  | some token => exact h token

/-! ## The match at the front -/

/-- There is one way at most for each alternative. -/
theorem attempts_trimPattern (tokens : List (Token .raw)) :
    attempts (tokens.map Token.kind).toArray trimPattern 0 =
      (if tokens[0]?.any Token.isIndent ∧
          (tokens[1]?.any fun token => token.takesLeft && token.takesRight) ∧
          tokens[2]?.any Token.isBlank then [⟨3, [⟨trimName, 1, 2⟩]⟩] else []) ++
      ((if tokens[0]?.any Token.takesRight ∧ tokens[1]?.any Token.isBlank then
          [⟨2, [⟨trimName, 0, 1⟩]⟩] else []) ++
        if tokens[0]?.any Token.isIndent ∧ tokens[1]?.any Token.takesLeft then
          [⟨2, [⟨trimName, 1, 2⟩]⟩] else []) := by
  have hnone : isAmong [] (tokens.map Token.kind)[0]? = false := by
    cases (tokens.map Token.kind)[0]? <;> rfl
  simp only [trimPattern, alt, seq, kind, never, List.foldr_cons, List.foldr_nil, attempts,
    List.getElem?_toArray, hnone, Bool.false_eq_true, if_false, List.append_nil,
    isAmong_getElem? fun token => (Token.isAmong_kind token).1,
    isAmong_getElem? fun token => (Token.isAmong_kind token).2.1,
    isAmong_getElem? fun token => (Token.isAmong_kind token).2.2.1,
    isAmong_getElem? fun token => (Token.isAmong_kind token).2.2.2.1,
    isAmong_getElem? fun token => (Token.isAmong_kind token).2.2.2.2]
  congr 1
  · by_cases hindent : tokens[0]?.any Token.isIndent
    · by_cases hboth : tokens[1]?.any fun token => token.takesLeft && token.takesRight
      · by_cases hblank : tokens[2]?.any Token.isBlank <;> simp [hindent, hboth, hblank, Hit.after]
      · simp [hindent, hboth]
    · simp [hindent]
  congr 1
  · by_cases hright : tokens[0]?.any Token.takesRight
    · by_cases hblank : tokens[1]?.any Token.isBlank <;> simp [hright, hblank, Hit.after]
    · simp [hright]
  · by_cases hindent : tokens[0]?.any Token.isIndent
    · by_cases hleft : tokens[1]?.any Token.takesLeft <;> simp [hindent, hleft, Hit.after]
    · simp [hindent]

/-- The scan tries both sides first, then the right, then the left. -/
theorem matchAt?_trimPattern (tokens : List (Token .raw)) :
    trimPattern.matchAt? (tokens.map Token.kind).toArray 0 =
      if tokens[0]?.any Token.isIndent ∧
          (tokens[1]?.any fun token => token.takesLeft && token.takesRight) ∧
          tokens[2]?.any Token.isBlank then some ⟨0, 3, [⟨trimName, 1, 2⟩]⟩
      else if tokens[0]?.any Token.takesRight ∧ tokens[1]?.any Token.isBlank then
        some ⟨0, 2, [⟨trimName, 0, 1⟩]⟩
      else if tokens[0]?.any Token.isIndent ∧ tokens[1]?.any Token.takesLeft then
        some ⟨0, 2, [⟨trimName, 1, 2⟩]⟩
      else none := by
  rw [matchAt?_eq, attempts_trimPattern]
  split
  · rfl
  · split
    · rfl
    · split <;> rfl

theorem local_trimmed :
    Local fun (tokens : List (Token .raw)) m => (m.group? trimName tokens).getD [] := by
  intro front tokens m
  exact congrArg (fun found => found.getD []) (group?_shift front tokens m trimName)

variable {first second third : Token .raw} {later : List (Token .raw)}

/-! ## One step of the scan -/

theorem trimBlanks_nil : trimBlanks [] = [] :=
  @rebuild_nil _ _ Token.kind (fun tokens m => (m.group? trimName tokens).getD [])
    (matchAt?_trimPattern [])

/-- A directive that takes both sides, between white space. -/
theorem trimBlanks_both (hfirst : first.isIndent = true) (hleft : second.takesLeft = true)
    (hright : second.takesRight = true) (hthird : third.isBlank = true) :
    trimBlanks (first :: second :: third :: later) = second :: trimBlanks later := by
  have hmatch := matchAt?_trimPattern ([first, second, third] ++ later)
  rw [if_pos ⟨by simpa using hfirst, by simp [hleft, hright], by simpa using hthird⟩] at hmatch
  exact rebuild_append local_trimmed hmatch rfl (List.cons_ne_nil _ _)

/-- A directive that takes what is on its right, in front of white space. -/
theorem trimBlanks_right (hfirst : first.takesRight = true) (hsecond : second.isBlank = true) :
    trimBlanks (first :: second :: later) = first :: trimBlanks later := by
  have hmatch := matchAt?_trimPattern ([first, second] ++ later)
  have hindent := Token.isIndent_of_takesRight hfirst
  rw [if_neg (by simp [hindent]), if_pos ⟨by simpa using hfirst, by simpa using hsecond⟩] at hmatch
  exact rebuild_append local_trimmed hmatch rfl (List.cons_ne_nil _ _)

/-- A directive that takes what is on its left, behind spaces or tabs; on its right is
nothing that it takes as well. -/
theorem trimBlanks_left (hfirst : first.isIndent = true) (hsecond : second.takesLeft = true)
    (hright : second.takesRight = true → later.head?.any Token.isBlank = false) :
    trimBlanks (first :: second :: later) = second :: trimBlanks later := by
  have hmatch := matchAt?_trimPattern ([first, second] ++ later)
  have hfirst' : first.takesRight = false :=
    Token.takesRight_of_isBlank (Token.isBlank_of_isIndent hfirst)
  have hboth : ¬ ((second.takesLeft && second.takesRight) = true ∧
      later.head?.any Token.isBlank = true) := by
    rintro ⟨hboth, hblank⟩
    rw [hright (Bool.and_eq_true_iff.mp hboth).2] at hblank
    simp at hblank
  rw [if_neg (fun h => hboth ⟨by simpa using h.2.1, by simpa [List.head?_eq_getElem?] using h.2.2⟩),
    if_neg (by simp [hfirst']), if_pos ⟨by simpa using hfirst, by simpa using hsecond⟩] at hmatch
  exact rebuild_append local_trimmed hmatch rfl (List.cons_ne_nil _ _)

/-- A token that takes nothing from the one behind it, nor is taken by it. -/
theorem trimBlanks_cons (hleft : first.isIndent = true → later.head?.any Token.takesLeft = false)
    (hright : first.takesRight = true → later.head?.any Token.isBlank = false) :
    trimBlanks (first :: later) = first :: trimBlanks later := by
  rw [List.head?_eq_getElem?] at hleft hright
  have hmatch := matchAt?_trimPattern (first :: later)
  have hnone : ¬ (first.isIndent = true ∧ later[0]?.any Token.takesLeft = true) := by
    rintro ⟨hindent, htakes⟩
    rw [hleft hindent] at htakes
    simp at htakes
  have hnone' : ¬ (first.takesRight = true ∧ later[0]?.any Token.isBlank = true) := by
    rintro ⟨htakes, hblank⟩
    rw [hright htakes] at hblank
    simp at hblank
  rw [if_neg, if_neg (by simpa using hnone'), if_neg (by simpa using hnone)] at hmatch
  · exact rebuild_cons local_trimmed hmatch
  · rintro ⟨hindent, hboth, -⟩
    refine hnone ⟨by simpa using hindent, ?_⟩
    simp only [List.getElem?_cons_succ] at hboth
    cases hnext : later[0]? with
    | none => simp [hnext] at hboth
    | some next =>
        rw [hnext] at hboth
        exact (Bool.and_eq_true_iff.mp hboth).1

/-! ## The scan leaves what is kept -/

/-- The token in front takes nothing from the tokens behind it: the scan may go on
there without a look back. -/
def Settled (before : Option (Token .raw)) (tokens : List (Token .raw)) : Prop :=
  before.any Token.takesRight = true → tokens.head?.any Token.isBlank = false

theorem settled_blank {token : Token .raw} (h : token.isBlank = true) (tokens : List (Token .raw)) :
    Settled (some token) tokens := by
  intro htakes
  rw [Option.any_some, Token.takesRight_of_isBlank h] at htakes
  simp at htakes

theorem isDropped_of_not_blank {token : Token .raw} (h : token.isBlank = false)
    (before behind : Option (Token .raw)) : isDropped before token behind = false := by
  have hindent : token.isIndent = false := by
    cases hindent : token.isIndent with
    | false => rfl
    | true => rw [Token.isBlank_of_isIndent hindent] at h; simp at h
  simp [isDropped, h, hindent]

theorem keptBehind_dropped {before : Option (Token .raw)} {token : Token .raw}
    {later : List (Token .raw)}
    (h : isDropped before token later.head? = true) :
    keptBehind before (token :: later) = keptBehind (some token) later := by
  rw [keptBehind, if_pos h]

theorem keptBehind_kept {before : Option (Token .raw)} {token : Token .raw}
    {later : List (Token .raw)}
    (h : isDropped before token later.head? = false) :
    keptBehind before (token :: later) = token :: keptBehind (some token) later := by
  rw [keptBehind, if_neg (by simp [h])]

theorem exists_of_head?_any {test : Token .raw → Bool} {tokens : List (Token .raw)}
    (h : tokens.head?.any test = true) :
    ∃ token later, tokens = token :: later ∧ test token = true := by
  cases tokens with
  | nil => simp at h
  | cons token later => exact ⟨token, later, rfl, h⟩

theorem trimBlanks_eq_keptBehind {before : Option (Token .raw)} {tokens : List (Token .raw)}
    (h : Settled before tokens) : trimBlanks tokens = keptBehind before tokens := by
  -- the induction is on the length: the scan goes through several tokens at a time
  induction hlength : tokens.length using Nat.strongRecOn generalizing before tokens with
  | ind n ih =>
      subst hlength
      cases tokens with
      | nil => exact trimBlanks_nil
      | cons first rest =>
          by_cases hleft : first.isIndent = true ∧ rest.head?.any Token.takesLeft = true
          · obtain ⟨hfirst, hnext⟩ := hleft
            obtain ⟨second, later, rfl, hsecond⟩ := exists_of_head?_any hnext
            have hdropped : isDropped before first (some second) = true := by
              simp [isDropped, hfirst, hsecond]
            rw [keptBehind_dropped hdropped, keptBehind_kept
              (isDropped_of_not_blank (Token.isBlank_of_takesLeft hsecond) _ _)]
            by_cases hright : second.takesRight = true ∧ later.head?.any Token.isBlank = true
            · obtain ⟨hright, hnext⟩ := hright
              obtain ⟨third, later, rfl, hthird⟩ := exists_of_head?_any hnext
              have hdropped : isDropped (some second) third later.head? = true := by
                simp [isDropped, hright, hthird]
              rw [trimBlanks_both hfirst hsecond hright hthird, keptBehind_dropped hdropped,
                ih later.length (by simp only [List.length_cons]; omega)
                  (settled_blank hthird later) rfl]
            · have hsettled : Settled (some second) later := by
                intro htakes
                rw [← Bool.not_eq_true]
                exact fun hblank => hright ⟨htakes, hblank⟩
              rw [trimBlanks_left hfirst hsecond hsettled,
                ih later.length (by simp only [List.length_cons]; omega) hsettled rfl]
          by_cases hright : first.takesRight = true ∧ rest.head?.any Token.isBlank = true
          · obtain ⟨hfirst, hnext⟩ := hright
            obtain ⟨second, later, rfl, hsecond⟩ := exists_of_head?_any hnext
            have hdropped : isDropped (some first) second later.head? = true := by
              simp [isDropped, hfirst, hsecond]
            rw [trimBlanks_right hfirst hsecond, keptBehind_kept
              (isDropped_of_not_blank (Token.isBlank_of_takesRight hfirst) _ _),
              keptBehind_dropped hdropped,
              ih later.length (by simp only [List.length_cons]; omega)
                (settled_blank hsecond later) rfl]
          · have hsettled : Settled (some first) rest := by
              intro htakes
              rw [← Bool.not_eq_true]
              exact fun hblank => hright ⟨htakes, hblank⟩
            have hindent : first.isIndent = true → rest.head?.any Token.takesLeft = false := by
              intro hindent
              rw [← Bool.not_eq_true]
              exact fun htakes => hleft ⟨hindent, htakes⟩
            have hkept : isDropped before first rest.head? = false := by
              rw [isDropped, Bool.or_eq_false_iff, Bool.and_eq_false_imp, Bool.and_eq_false_imp]
              refine ⟨fun hblank => ?_, hindent⟩
              rw [← Bool.not_eq_true]
              intro htakes
              have hsettled := h htakes
              rw [List.head?_cons, Option.any_some, hblank] at hsettled
              simp at hsettled
            rw [trimBlanks_cons hindent hsettled, keptBehind_kept hkept,
              ih rest.length (by simp) hsettled rfl]

/-! ## Positions -/

theorem tokenBefore?_length (front rest : List (Token .raw)) :
    tokenBefore? (front ++ rest) front.length = front.getLast? := by
  cases front using List.reverseRecOn with
  | nil => rfl
  | append_singleton front token =>
      rw [List.length_append, List.length_singleton, tokenBefore?, List.append_assoc]
      simp

theorem isDroppedAt_length (front : List (Token .raw)) (token : Token .raw)
    (later : List (Token .raw)) :
    isDroppedAt (front ++ token :: later) front.length =
      isDropped front.getLast? token later.head? := by
  have hbehind : (front ++ token :: later)[front.length + 1]? = later.head? := by
    rw [List.getElem?_append_right (Nat.le_add_right ..), Nat.add_sub_cancel_left,
      List.getElem?_cons_succ, List.head?_eq_getElem?]
  rw [isDroppedAt, tokenBefore?_length, hbehind, List.getElem?_append_right (Nat.le_refl _),
    Nat.sub_self]
  rfl

/-- What is kept behind some tokens is what is not dropped where it stands. -/
theorem keptBehind_getLast? (front rest : List (Token .raw)) :
    keptBehind front.getLast? rest =
      ((rest.zipIdx front.length).filter fun entry =>
        !isDroppedAt (front ++ rest) entry.2).map (·.1) := by
  induction rest generalizing front with
  | nil => rfl
  | cons token later ih =>
      have hlater := ih (front ++ [token])
      rw [List.getLast?_concat, List.length_append, List.length_singleton, List.append_assoc,
        List.singleton_append] at hlater
      rw [List.zipIdx_cons, List.filter_cons, isDroppedAt_length]
      cases hdropped : isDropped front.getLast? token later.head? with
      | true => rw [keptBehind_dropped hdropped, hlater]; rfl
      | false => rw [keptBehind_kept hdropped, hlater]; rfl

/-! ## What is never dropped -/

theorem filter_keptBehind (before : Option (Token .raw)) (tokens : List (Token .raw)) :
    (keptBehind before tokens).filter (!·.isBlank) = tokens.filter (!·.isBlank) := by
  induction tokens generalizing before with
  | nil => rfl
  | cons token later ih =>
      cases hdropped : isDropped before token later.head? with
      | true =>
          have hblank : token.isBlank = true := by
            cases hblank : token.isBlank with
            | true => rfl
            | false => rw [isDropped_of_not_blank hblank] at hdropped; simp at hdropped
          rw [keptBehind_dropped hdropped, ih, List.filter_cons]
          simp [hblank]
      | false =>
          rw [keptBehind_kept hdropped, List.filter_cons, List.filter_cons, ih]

theorem countP_head? (test : Token .raw → Bool) (tokens : List (Token .raw)) :
    tokens.countP test = tokens.tail.countP test + if tokens.head?.any test then 1 else 0 := by
  cases tokens with
  | nil => rfl
  | cons token later => rw [List.countP_cons]; rfl

theorem countP_toList (test : Token .raw → Bool) (before : Option (Token .raw)) :
    before.toList.countP test = if before.any test then 1 else 0 := by
  cases before with
  | none => rfl
  | some token => simp [List.countP_cons]

/-- Each token that is dropped is charged to the side of a directive that drops it. -/
theorem length_le_keptBehind (before : Option (Token .raw)) (tokens : List (Token .raw)) :
    tokens.length ≤ (keptBehind before tokens).length +
      ((before.toList ++ tokens).countP Token.takesRight + tokens.tail.countP Token.takesLeft) := by
  induction tokens generalizing before with
  | nil => simp
  | cons token later ih =>
      have hlater := ih (some token)
      have hhead := countP_head? Token.takesLeft later
      rw [Option.toList_some, List.singleton_append] at hlater
      rw [List.countP_append, countP_toList, List.length_cons, List.tail_cons]
      cases hdropped : isDropped before token later.head? with
      | true =>
          rw [keptBehind_dropped hdropped]
          rw [isDropped, Bool.or_eq_true, Bool.and_eq_true, Bool.and_eq_true] at hdropped
          rcases hdropped with ⟨-, hright⟩ | ⟨-, hleft⟩
          · rw [if_pos hright]
            omega
          · rw [if_pos hleft] at hhead
            omega
      | false =>
          rw [keptBehind_kept hdropped, List.length_cons]
          omega

/-- White space is trimmed by a rule that looks at the neighbours only: a token is
dropped just if it is white space behind a directive that takes what is on its right, or
spaces or tabs in front of one that takes what is on its left. All others stay in their
order, plain text and directives among them, and no directive drops more than one token
on a side that it asks for. -/
theorem trimBlanks_eq_filter (tokens : List (Token .raw)) :
    trimBlanks tokens =
      (tokens.zipIdx.filter fun entry => !isDroppedAt tokens entry.2).map (·.1) ∧
    (trimBlanks tokens).filter (!·.isBlank) = tokens.filter (!·.isBlank) ∧
    tokens.length ≤ (trimBlanks tokens).length +
      (tokens.countP Token.takesRight + tokens.countP Token.takesLeft) := by
  have hkept : trimBlanks tokens = keptBehind none tokens :=
    trimBlanks_eq_keptBehind (by intro h; simp at h)
  rw [hkept]
  refine ⟨keptBehind_getLast? [] tokens, filter_keptBehind none tokens, ?_⟩
  have hlength := length_le_keptBehind none tokens
  have hhead := countP_head? Token.takesLeft tokens
  rw [Option.toList_none, List.nil_append] at hlength
  omega

-- the first directive takes the line break on its right, and the space behind that is still
-- there for the second one
example :
    trimBlanks [.blank [' '], .directive [] .right [], .blank ['\n'], .blank [' '],
      .directive [] .left [], .blank [' ']] =
    [.blank [' '], .directive [] .right [], .directive [] .left [], .blank [' ']] := by
  decide +kernel

end CommentMacro.Template
