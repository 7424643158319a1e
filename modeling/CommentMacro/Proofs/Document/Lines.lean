import CommentMacro.Document.Line
import CommentMacro.Proofs.Text.Lines

/-!
# Lines are read one by one

The tokens of the lines of a text, with a sign that is neither empty nor holds a
line feed (`ProperSign`):

- a text may be cut behind a line feed, and its parts read by themselves
  (`splitLines_append`); so may the tokens (`splitLines_cut`);
- a comment sign stands at the start of a line only (`atLineStart_of_comment`);
- no token is empty (`text_ne_nil_of_mem`).

What the tokens of lines look like is told by `FromLine`, whatever the sign is.
-/

namespace CommentMacro.Document

/-! ## What the tokens of a line look like -/

def Marker.text : Marker → Text
  | start => ' ' :: startWord
  | generate => " #metagen".toList
  | finish => " #metaend".toList

/-- A token as it is read off a line. -/
def FromLine (sign : Text) : Token → Prop
  | .comment t => t = sign
  | .lineBreak t => t = ['\n'] ∨ t = ['\r', '\n']
  | .block t => t ≠ []
  | .marker t which => t = which.text
  | .macroHeader t _ _ => t ≠ []
  | .tableHeader t _ => t ≠ []
  | .indent t => t = "   ".toList
  | _ => False

/-- A token as it is read off a piece between the comment sign and the line
break. -/
def FromPiece (token : Token) : Prop :=
  (∀ sign, FromLine sign token) ∧ (∀ t, token ≠ .comment t) ∧ ∀ t, token ≠ .lineBreak t

/-- A sign as it is read off the front of a piece. -/
def IsSign : Token → Prop
  | .marker t which => t = which.text
  | .macroHeader t _ _ => t ≠ []
  | .tableHeader t _ => t ≠ []
  | .indent t => t = "   ".toList
  | _ => False

theorem IsSign.fromPiece {token : Token} (h : IsSign token) : FromPiece token := by
  cases token with
  | marker t which => exact ⟨fun _ => h, by simp, by simp⟩
  | macroHeader t name parameters => exact ⟨fun _ => h, by simp, by simp⟩
  | tableHeader t name => exact ⟨fun _ => h, by simp, by simp⟩
  | indent t => exact ⟨fun _ => h, by simp, by simp⟩
  | _ => exact h.elim

theorem isSign_of_fixed? {word t rest : Text} {make : Text → Token} {token : Token}
    (h : fixed? word make t = some (token, rest)) (hmake : IsSign (make word)) :
    IsSign token := by
  obtain ⟨after, -, heq⟩ := Option.map_eq_some_iff.mp h
  obtain ⟨rfl, -⟩ := Prod.mk.inj heq
  exact hmake

theorem isSign_of_macroHeader? {t rest : Text} {token : Token}
    (h : macroHeader? t = some (token, rest)) : IsSign token := by
  simp only [macroHeader?, Option.bind_eq_bind, Option.bind_eq_some_iff] at h
  obtain ⟨named, -, h⟩ := h
  split at h
  · simp at h
  · simp only [Option.bind_eq_some_iff] at h
    obtain ⟨listed, -, h⟩ := h
    split at h
    · simp at h
    · simp only [Option.bind_eq_some_iff] at h
      obtain ⟨tail, -, h⟩ := h
      simp only [Option.pure_def, Option.some.injEq, Prod.mk.injEq] at h
      obtain ⟨rfl, -⟩ := h
      have hlead : macroLead ≠ [] := by decide
      simp [IsSign, hlead]

theorem isSign_of_tableHeader? {t rest : Text} {token : Token}
    (h : tableHeader? t = some (token, rest)) : IsSign token := by
  simp only [tableHeader?, Option.bind_eq_bind, Option.bind_eq_some_iff] at h
  obtain ⟨named, -, h⟩ := h
  split at h
  · simp at h
  · simp only [Option.pure_def, Option.some.injEq, Prod.mk.injEq] at h
    obtain ⟨rfl, -⟩ := h
    have hlead : tableLead ≠ [] := by decide
    simp [IsSign, hlead]

theorem isSign_of_sign? {t rest : Text} {token : Token} (h : sign? t = some (token, rest)) :
    IsSign token := by
  obtain ⟨read, hread, h⟩ := List.exists_of_findSome?_eq_some h
  simp only [signReaders, List.mem_cons, List.not_mem_nil, or_false] at hread
  rcases hread with rfl | rfl | rfl | rfl | rfl | rfl
  · exact isSign_of_fixed? h rfl
  · exact isSign_of_macroHeader? h
  · exact isSign_of_tableHeader? h
  · exact isSign_of_fixed? h rfl
  · exact isSign_of_fixed? h rfl
  · exact isSign_of_fixed? h rfl

theorem fromPiece_of_mem_blockTokens {t : Text} {token : Token} (h : token ∈ blockTokens t) :
    FromPiece token := by
  rw [blockTokens] at h
  split at h
  · simp at h
  · next hne =>
      obtain rfl := List.mem_singleton.mp h
      simpa [FromPiece, FromLine] using hne

theorem fromPiece_of_mem_splitPiece {t : Text} {token : Token} (h : token ∈ splitPiece t) :
    FromPiece token := by
  unfold splitPiece at h
  split at h
  · next first rest hsign =>
      rcases List.mem_cons.mp h with rfl | h
      · exact (isSign_of_sign? hsign).fromPiece
      · exact fromPiece_of_mem_blockTokens h
  · exact fromPiece_of_mem_blockTokens h

/-- A piece that is no sign but the given one, and no line break but the two; there is no
line feed between them. -/
def Piece.Plain (sign : Text) : Piece → Prop
  | .sign t => t = sign
  | .lineBreak t => t = ['\n'] ∨ t = ['\r', '\n']
  | .inner t => '\n' ∉ t

theorem eq_of_lineBreak? {t stop : Text} (h : lineBreak? t = some stop) :
    stop = ['\n'] ∨ stop = ['\r', '\n'] := by
  unfold lineBreak? at h
  split at h
  · exact Or.inl (Option.some.inj h).symm
  · exact Or.inr (Option.some.inj h).symm
  · simp at h

theorem plain_of_mem_emptySign {sign : Text} {fresh : Bool} {piece : Piece}
    (h : piece ∈ emptySign sign fresh) : piece.Plain sign := by
  unfold emptySign at h
  split at h
  · next hempty =>
      obtain rfl := List.mem_singleton.mp h
      simp only [Bool.and_eq_true, List.isEmpty_iff] at hempty
      exact hempty.2.symm
  · simp at h

theorem plain_of_mem_piecesFrom {sign : Text} {covered : Nat} {fresh : Bool} {t : Text} :
    ∀ piece ∈ piecesFrom sign covered fresh t, piece.Plain sign := by
  fun_induction piecesFrom sign covered fresh t with
  | case1 => exact fun piece => plain_of_mem_emptySign
  | case2 _ _ _ _ ih => exact ih
  | case3 fresh c t h ih =>
      intro piece hmem
      rcases List.mem_cons.mp hmem with rfl | hmem
      · rfl
      · exact ih piece hmem
  | case4 fresh c t h ihBreak ihInner =>
      intro piece hmem
      rcases List.mem_append.mp hmem with hmem | hmem
      · exact plain_of_mem_emptySign hmem
      · split at hmem
        · next stop hstop =>
            rcases List.mem_cons.mp hmem with rfl | hmem
            · exact eq_of_lineBreak? hstop
            · exact ihBreak stop piece hmem
        · next hnone =>
            have hfeed : '\n' ≠ c := by
              rintro rfl
              simp [lineBreak?] at hnone
            unfold pushInner at hmem
            split at hmem
            · next inner later heq =>
                rw [heq, List.forall_mem_cons] at ihInner
                rcases List.mem_cons.mp hmem with rfl | hmem
                · exact List.not_mem_cons_of_ne_of_not_mem hfeed ihInner.1
                · exact ihInner.2 piece hmem
            · rcases List.mem_cons.mp hmem with rfl | hmem
              · simpa [Piece.Plain] using hfeed
              · exact ihInner piece hmem

theorem fromLine_of_mem {sign source : Text} {token : Token}
    (h : token ∈ splitLines sign source) : FromLine sign token := by
  obtain ⟨piece, hpiece, hmem⟩ := List.mem_flatMap.mp h
  have hplain := plain_of_mem_piecesFrom piece hpiece
  cases piece with
  | sign t =>
      obtain rfl := List.mem_singleton.mp hmem
      exact hplain
  | lineBreak t =>
      obtain rfl := List.mem_singleton.mp hmem
      exact hplain
  | inner t => exact (fromPiece_of_mem_splitPiece hmem).1 sign

/-! ## Where a comment sign stands -/

def Token.isBreak : Token → Bool
  | lineBreak _ => true
  | _ => false

/-- A sign that is neither empty nor holds a line feed. -/
structure ProperSign (sign : Text) : Prop where
  ne_nil : sign ≠ []
  no_lineFeed : '\n' ∉ sign

/-- A text that ends where a line starts. -/
def Fresh (t : Text) : Prop :=
  t = [] ∨ t.getLast? = some '\n'

/-- Tokens that end where a line starts. -/
def AtLineStart (tokens : List Token) : Prop :=
  tokens = [] ∨ ∃ r, tokens.getLast? = some (.lineBreak r)

/-- Every comment sign stands at the start of a line. `fresh` says whether a line
starts at the first token. -/
def SignsLead : (fresh : Bool) → List Token → Prop
  | _, [] => True
  | fresh, .comment _ :: tokens => fresh = true ∧ SignsLead false tokens
  | _, .lineBreak _ :: tokens => SignsLead true tokens
  | _, _ :: tokens => SignsLead false tokens

def SignsLeadPieces : (fresh : Bool) → List Piece → Prop
  | _, [] => True
  | fresh, .sign _ :: pieces => fresh = true ∧ SignsLeadPieces false pieces
  | _, .lineBreak _ :: pieces => SignsLeadPieces true pieces
  | _, .inner _ :: pieces => SignsLeadPieces false pieces

theorem signsLeadPieces_pushInner {fresh : Bool} {c : Char} {pieces : List Piece}
    (h : SignsLeadPieces false pieces) : SignsLeadPieces fresh (pushInner c pieces) := by
  unfold pushInner
  split
  · exact h
  · exact h

section

variable {sign : Text} (hsign : ProperSign sign)
include hsign

theorem emptySign_eq_nil (fresh : Bool) : emptySign sign fresh = [] := by
  have := hsign.ne_nil
  cases fresh <;> simp [emptySign, this]

theorem getLast?_ne_lineFeed : (sign.getLast? == some '\n') = false := by
  rw [beq_eq_false_iff_ne]
  intro h
  exact hsign.no_lineFeed (List.mem_of_getLast? h)

theorem signsLeadPieces_piecesFrom (covered : Nat) (fresh : Bool) (t : Text) :
    SignsLeadPieces fresh (piecesFrom sign covered fresh t) := by
  fun_induction piecesFrom sign covered fresh t with
  | case1 _ fresh =>
      rw [emptySign_eq_nil hsign]
      trivial
  | case2 _ _ _ _ ih => exact ih
  | case3 fresh c t h ih =>
      simp only [Bool.and_eq_true] at h
      rw [getLast?_ne_lineFeed hsign] at ih ⊢
      exact ⟨h.1.1, ih⟩
  | case4 fresh c t h ihBreak ihInner =>
      rw [emptySign_eq_nil hsign, List.nil_append]
      split
      · next stop _ => exact ihBreak stop
      · exact signsLeadPieces_pushInner ihInner

omit hsign in
theorem signsLead_of_false {fresh : Bool} {tokens : List Token} (h : SignsLead false tokens) :
    SignsLead fresh tokens := by
  cases tokens with
  | nil => trivial
  | cons token tokens =>
      cases token with
      | comment t => exact absurd h.1 (by simp)
      | _ => exact h

omit hsign in
theorem signsLead_splitPiece {fresh : Bool} {t : Text} {tokens : List Token}
    (h : SignsLead false tokens) : SignsLead fresh (splitPiece t ++ tokens) := by
  have hplain := fun token => @fromPiece_of_mem_splitPiece t token
  generalize splitPiece t = front at hplain ⊢
  induction front generalizing fresh with
  | nil => exact signsLead_of_false h
  | cons token front ih =>
      have htoken := hplain token List.mem_cons_self
      have hlater : SignsLead false (front ++ tokens) :=
        ih fun token hmem => hplain token (List.mem_cons_of_mem _ hmem)
      cases token with
      | comment t => exact absurd rfl (htoken.2.1 t)
      | lineBreak t => exact absurd rfl (htoken.2.2 t)
      | _ => exact hlater

omit hsign in
theorem signsLead_of_pieces {fresh : Bool} {pieces : List Piece}
    (h : SignsLeadPieces fresh pieces) : SignsLead fresh (pieces.flatMap Piece.tokens) := by
  induction pieces generalizing fresh with
  | nil => trivial
  | cons piece pieces ih =>
      cases piece with
      | sign t => exact ⟨h.1, ih h.2⟩
      | lineBreak t =>
          have hlater : SignsLead true (pieces.flatMap Piece.tokens) := ih h
          exact hlater
      | inner t =>
          have hlater : SignsLead false (pieces.flatMap Piece.tokens) := ih h
          exact signsLead_splitPiece hlater

omit hsign in
theorem atLineStart_of_signsLead {fresh : Bool} {front rest : List Token} {c : Text}
    (h : SignsLead fresh (front ++ .comment c :: rest)) :
    (front = [] ∧ fresh = true) ∨ ∃ r, front.getLast? = some (.lineBreak r) := by
  induction front generalizing fresh with
  | nil => exact Or.inl ⟨rfl, h.1⟩
  | cons token front ih =>
      have hlater : ∀ fresh', SignsLead fresh' (front ++ .comment c :: rest) →
          (fresh' = true → ∃ r, token = .lineBreak r) →
          ∃ r, (token :: front).getLast? = some (.lineBreak r) := by
        intro fresh' hrest hbreak
        rcases ih hrest with ⟨rfl, hfresh⟩ | ⟨r, hr⟩
        · obtain ⟨r, rfl⟩ := hbreak hfresh
          exact ⟨r, rfl⟩
        · refine ⟨r, ?_⟩
          rw [List.getLast?_cons, hr]
          rfl
      apply Or.inr
      cases token with
      | comment t => exact hlater false h.2 (by simp)
      | lineBreak t => exact hlater true h fun _ => ⟨t, rfl⟩
      | _ => exact hlater false h (by simp)

/-- A comment sign stands at the start of a line. -/
theorem atLineStart_of_comment {source c : Text} {front rest : List Token}
    (h : splitLines sign source = front ++ .comment c :: rest) : AtLineStart front := by
  have hlead := signsLead_of_pieces (signsLeadPieces_piecesFrom hsign 0 true source)
  rw [← splitLines, h] at hlead
  rcases atLineStart_of_signsLead hlead with ⟨hnil, -⟩ | hlast
  · exact Or.inl hnil
  · exact Or.inr hlast

/-! ## Reading a comment sign -/

omit hsign in
theorem piecesFrom_covered (fresh : Bool) (front t : Text) :
    piecesFrom sign front.length fresh (front ++ t) = piecesFrom sign 0 fresh t := by
  induction front with
  | nil => rfl
  | cons c front ih => rw [List.cons_append, List.length_cons, piecesFrom, ih]

theorem piecesFrom_sign (t : Text) :
    piecesFrom sign 0 true (sign ++ t) = .sign sign :: piecesFrom sign 0 false t := by
  obtain ⟨c, later, hlater⟩ := List.exists_cons_of_ne_nil hsign.ne_nil
  have hbegins : sign.isPrefixOf (c :: (later ++ t)) = true := by
    rw [← List.cons_append, ← hlater, List.isPrefixOf_iff_prefix]
    exact List.prefix_append sign t
  have hopens : (true && !sign.isEmpty && sign.isPrefixOf (c :: (later ++ t))) = true := by
    simp [hbegins, hsign.ne_nil]
  have hlength : sign.length - 1 = later.length := by simp [hlater]
  have htext : sign ++ t = c :: (later ++ t) := by rw [hlater, List.cons_append]
  rw [htext, piecesFrom, if_pos hopens, getLast?_ne_lineFeed hsign, hlength,
    piecesFrom_covered]

theorem splitLines_sign (t : Text) :
    splitLines sign (sign ++ t) =
      .comment sign :: (piecesFrom sign 0 false t).flatMap Piece.tokens := by
  rw [splitLines, piecesFrom_sign hsign]
  rfl

omit hsign in
theorem lineBreak?_eq_none {c : Char} {t : Text} (hfeed : c ≠ '\n')
    (hreturn : c = '\r' → t.head? ≠ some '\n') : lineBreak? (c :: t) = none := by
  unfold lineBreak?
  split
  · next heq => exact absurd (List.cons.inj heq).1 hfeed
  · next heq =>
      obtain ⟨rfl, rfl⟩ := List.cons.inj heq
      exact absurd rfl (hreturn rfl)
  · rfl

omit hsign in
/-- What is between the comment sign and the line break is one piece. -/
theorem piecesFrom_inner {t stop : Text} (h : Text.IsLine t stop) (rest : Text) :
    piecesFrom sign 0 false (t ++ (stop ++ rest)) =
      (if t = [] then [] else [.inner t]) ++ .lineBreak stop :: piecesFrom sign 0 true rest := by
  induction t with
  | nil => rcases h.stop_eq with rfl | rfl <;> simp [piecesFrom, emptySign, lineBreak?]
  | cons c t ih =>
      obtain ⟨hfeed, hreturn⟩ := h.head?_ne rest
      rw [List.cons_append, piecesFrom, lineBreak?_eq_none hfeed hreturn, ih h.of_cons]
      cases t <;> simp [emptySign, pushInner]

/-! ## Cutting a text behind a line feed -/

theorem text_ne_nil_of_mem {source : Text} {token : Token} (h : token ∈ splitLines sign source) :
    token.text ≠ [] := by
  have hfrom := fromLine_of_mem h
  cases token with
  | comment t =>
      obtain rfl : t = sign := hfrom
      exact hsign.ne_nil
  | lineBreak t => rcases hfrom with rfl | rfl <;> simp [Token.text]
  | block t => exact hfrom
  | marker t which =>
      obtain rfl : t = which.text := hfrom
      cases which <;> decide
  | macroHeader t name parameters => exact hfrom
  | tableHeader t name => exact hfrom
  | indent t =>
      obtain rfl : t = "   ".toList := hfrom
      decide
  | _ => exact hfrom.elim

theorem eq_nil_of_textOf {source : Text} {front rest : List Token}
    (h : splitLines sign source = front ++ rest) (hempty : textOf front = []) : front = [] := by
  cases front with
  | nil => rfl
  | cons token front =>
      have hmem : token ∈ splitLines sign source := by
        rw [h]
        exact List.mem_cons_self
      rw [textOf_cons, List.append_eq_nil_iff] at hempty
      exact absurd hempty.1 (text_ne_nil_of_mem hsign hmem)

omit hsign in
theorem Fresh.of_cons {c : Char} {t : Text} (h : Fresh (c :: t)) : Fresh t := by
  rcases h with h | h
  · simp at h
  · cases t with
    | nil => exact Or.inl rfl
    | cons d t => exact Or.inr (by rwa [List.getLast?_cons_cons] at h)

omit hsign in
theorem Fresh.eq_lineFeed {c : Char} (h : Fresh [c]) : c = '\n' := by
  rcases h with h | h
  · simp at h
  · simpa using h

/-- The sign of a line does not reach over its end. -/
theorem isPrefixOf_append_of_fresh {a : Text} (hfresh : Fresh a) (hne : a ≠ []) (b : Text) :
    sign.isPrefixOf (a ++ b) = sign.isPrefixOf a ∧
      (sign.isPrefixOf a = true → sign.length < a.length) := by
  -- the sign holds no line feed, and the line ends in one
  have hfeed : '\n' ∈ a := by
    rcases hfresh with h | h
    · exact absurd h hne
    · exact List.mem_of_getLast? h
  have hnot : ∀ t, sign ≠ a ++ t := by
    rintro t rfl
    exact hsign.no_lineFeed (List.mem_append_left _ hfeed)
  constructor
  · rw [Bool.eq_iff_iff, List.isPrefixOf_iff_prefix, List.isPrefixOf_iff_prefix]
    constructor
    · intro h
      rcases List.prefix_or_prefix_of_prefix h (List.prefix_append a b) with h | ⟨t, heq⟩
      · exact h
      · exact absurd heq.symm (hnot t)
    · exact fun h => h.trans (List.prefix_append a b)
  · intro h
    have hbegins := List.isPrefixOf_iff_prefix.mp h
    rcases Nat.lt_or_ge sign.length a.length with hlt | hge
    · exact hlt
    · have heq := hbegins.eq_of_length_le hge
      exact absurd heq (by simpa using hnot [])

omit hsign in
theorem lineBreak?_append {a : Text} (hfresh : Fresh a) (hne : a ≠ []) (b : Text) :
    lineBreak? (a ++ b) = lineBreak? a := by
  match a with
  | [] => exact absurd rfl hne
  | [c] =>
      obtain rfl := hfresh.eq_lineFeed
      rfl
  | c :: d :: a =>
      by_cases hc : c = '\n'
      · subst hc
        rfl
      · by_cases hd : c = '\r' ∧ d = '\n'
        · obtain ⟨rfl, rfl⟩ := hd
          rfl
        · have hnone : ∀ t, lineBreak? (c :: d :: t) = none := fun t =>
            lineBreak?_eq_none hc fun hreturn heq => hd ⟨hreturn, Option.some.inj heq⟩
          rw [List.cons_append, List.cons_append, hnone, hnone]

omit hsign in
theorem pushInner_append (c : Char) {pieces : List Piece} (hne : pieces ≠ [])
    (later : List Piece) : pushInner c (pieces ++ later) = pushInner c pieces ++ later := by
  cases pieces with
  | nil => exact absurd rfl hne
  | cons piece pieces => cases piece <;> rfl

omit hsign in
theorem piecesFrom_ne_nil {fresh : Bool} {t : Text} (h : t ≠ []) :
    piecesFrom sign 0 fresh t ≠ [] := by
  intro hnil
  have := text_piecesFrom sign 0 fresh t
  rw [hnil] at this
  exact h this.symm

/-- What is covered does not reach behind the line feed, unless a line starts
there. -/
theorem piecesFrom_append {a : Text} (hfresh : Fresh a) (b : Text) {covered : Nat} {fresh : Bool}
    (hcovered : covered ≤ a.length) (hstart : covered = a.length → fresh = true) :
    piecesFrom sign covered fresh (a ++ b) =
      piecesFrom sign covered fresh a ++ piecesFrom sign 0 true b := by
  induction a generalizing covered fresh with
  | nil =>
      obtain rfl : covered = 0 := Nat.le_zero.mp hcovered
      rw [hstart rfl]
      simp [piecesFrom, emptySign_eq_nil hsign]
  | cons c a ih =>
      cases covered with
      | succ covered =>
          rw [List.cons_append, piecesFrom, piecesFrom]
          refine ih hfresh.of_cons (Nat.le_of_succ_le_succ hcovered) fun h => hstart ?_
          rw [h, List.length_cons]
      | zero =>
          -- a sign or a line break that starts here ends within the first text
          obtain ⟨hbegins, hshort⟩ :=
            isPrefixOf_append_of_fresh hsign hfresh (List.cons_ne_nil c a) b
          have hbreak := lineBreak?_append hfresh (List.cons_ne_nil c a) b
          rw [List.cons_append] at hbegins hbreak ⊢
          simp only [piecesFrom, emptySign_eq_nil hsign, List.nil_append, hbegins, hbreak]
          split
          · next hopens =>
              simp only [Bool.and_eq_true] at hopens
              have hlt := hshort hopens.2
              rw [List.length_cons] at hlt
              have hpos := List.length_pos_iff.mpr hsign.ne_nil
              rw [List.cons_append, ih hfresh.of_cons (by omega) (by omega)]
          · cases hstop : lineBreak? (c :: a) with
            | some stop =>
                simp only
                have hlength : stop.length ≤ (c :: a).length :=
                  (prefix_of_lineBreak? hstop).1.length_le
                rw [List.length_cons] at hlength
                rw [List.cons_append, ih hfresh.of_cons (by omega) fun _ => rfl]
            | none =>
                simp only
                have hne : a ≠ [] := by
                  rintro rfl
                  rw [hfresh.eq_lineFeed] at hstop
                  simp [lineBreak?] at hstop
                have hpos := List.length_pos_iff.mpr hne
                rw [ih hfresh.of_cons (Nat.zero_le _) (by omega),
                  pushInner_append c (piecesFrom_ne_nil hne)]

/-- A text may be cut behind a line feed. -/
theorem splitLines_append {a : Text} (hfresh : Fresh a) (b : Text) :
    splitLines sign (a ++ b) = splitLines sign a ++ splitLines sign b := by
  rw [splitLines, splitLines, splitLines,
    piecesFrom_append hsign hfresh b (Nat.zero_le _) fun _ => rfl, List.flatMap_append]

theorem splitLines_nil : splitLines sign [] = [] := by
  simp [splitLines, piecesFrom, emptySign_eq_nil hsign]

/-- A text that ends where a line starts has tokens that do. -/
theorem atLineStart_splitLines {source : Text} (hfresh : Fresh source) :
    AtLineStart (splitLines sign source) := by
  -- a comment sign put behind the text stands at the start of a line
  have hsplit := splitLines_append hsign hfresh (sign ++ [])
  rw [splitLines_sign hsign] at hsplit
  exact atLineStart_of_comment hsign hsplit

omit hsign in
/-- Tokens that are not empty are told apart by their texts. -/
theorem eq_of_append_eq {first second first' second' : List Token}
    (hne : ∀ token ∈ first ++ second, token.text ≠ [])
    (h : first ++ second = first' ++ second') (htext : textOf first = textOf first') :
    first = first' ∧ second = second' := by
  have hnil : ∀ {part between : List Token}, (∀ token ∈ between, token.text ≠ []) →
      textOf (part ++ between) = textOf part → between = [] := by
    intro part between hall heq
    rw [textOf_append, List.append_right_eq_self] at heq
    cases between with
    | nil => rfl
    | cons token between =>
        rw [textOf_cons, List.append_eq_nil_iff] at heq
        exact absurd heq.1 (hall token List.mem_cons_self)
  rcases List.append_eq_append_iff.mp h with ⟨between, rfl, rfl⟩ | ⟨between, rfl, rfl⟩
  · have hbetween : between = [] := by
      apply hnil _ htext.symm
      intro token hmem
      exact hne token (by simp [hmem])
    simp [hbetween]
  · have hbetween : between = [] := by
      apply hnil _ htext
      intro token hmem
      exact hne token (by simp [hmem])
    simp [hbetween]

omit hsign in
theorem fresh_of_atLineStart {source : Text} {front rest : List Token}
    (h : splitLines sign source = front ++ rest) (hstart : AtLineStart front) :
    Fresh (textOf front) := by
  rcases hstart with rfl | ⟨r, hr⟩
  · exact Or.inl rfl
  · obtain ⟨before, rfl⟩ := List.getLast?_eq_some_iff.mp hr
    have hmem : Token.lineBreak r ∈ splitLines sign source := by
      rw [h]
      simp
    apply Or.inr
    rw [textOf_append]
    rcases fromLine_of_mem hmem with rfl | rfl <;> simp [Token.text]

/-- Tokens of lines may be cut where a line starts, and belong to the lines of
their texts. -/
theorem splitLines_cut {source : Text} {front rest : List Token}
    (h : splitLines sign source = front ++ rest) (hstart : AtLineStart front) :
    splitLines sign (textOf front) = front ∧ splitLines sign (textOf rest) = rest := by
  have hsource : source = textOf front ++ textOf rest := by
    rw [← textOf_append, ← h, textOf_splitLines]
  have hsplit := splitLines_append hsign (fresh_of_atLineStart h hstart) (textOf rest)
  rw [← hsource] at hsplit
  have hne : ∀ token ∈ front ++ rest, token.text ≠ [] := by
    rw [← h]
    exact fun token hmem => text_ne_nil_of_mem hsign hmem
  obtain ⟨hfront, hrest⟩ := eq_of_append_eq hne (h.symm.trans hsplit)
    (textOf_splitLines sign (textOf front)).symm
  exact ⟨hfront.symm, hrest.symm⟩

end

end CommentMacro.Document
