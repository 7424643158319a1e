import CommentMacro.Document.Sign

/-!
# The lines of a document

A document is cut at its line breaks and at the comment signs with which its
lines start; each piece between them is then read by itself. A line break is a
line feed together with the carriage return directly before it, if there is one.

The comment sign may be any text. An empty one stands at the start of every line,
also of an empty last one; one that itself ends in a line feed may follow upon
itself.
-/

namespace CommentMacro.Document

/-- A part of a line: its comment sign, its line break, or what is between. -/
inductive Piece where
  | sign (text : Text)
  | lineBreak (text : Text)
  | inner (text : Text)
  deriving DecidableEq, Repr, Inhabited

def pushInner (c : Char) : List Piece → List Piece
  | .inner t :: pieces => .inner (c :: t) :: pieces
  | pieces => .inner [c] :: pieces

/-- The empty comment sign at the start of a line, where the sign is empty. -/
def emptySign (sign : Text) (fresh : Bool) : List Piece :=
  if fresh && sign.isEmpty then [.sign []] else []

def lineBreak? : Text → Option Text
  | '\n' :: _ => some ['\n']
  | '\r' :: '\n' :: _ => some ['\r', '\n']
  | _ => none

/-- The pieces of a text, from the character behind the first `covered` ones on:
these belong to the piece before. `fresh` says whether a line starts there. -/
def piecesFrom (sign : Text) : (covered : Nat) → (fresh : Bool) → Text → List Piece
  | _, fresh, [] => emptySign sign fresh
  | covered + 1, fresh, _ :: t => piecesFrom sign covered fresh t
  | 0, fresh, c :: t =>
    if fresh && !sign.isEmpty && sign.isPrefixOf (c :: t) then
      .sign sign :: piecesFrom sign (sign.length - 1) (sign.getLast? == some '\n') t
    else emptySign sign fresh ++
      match lineBreak? (c :: t) with
      | some stop => .lineBreak stop :: piecesFrom sign (stop.length - 1) true t
      | none => pushInner c (piecesFrom sign 0 false t)

def Piece.tokens : Piece → List Token
  | sign t => [.comment t]
  | lineBreak t => [.lineBreak t]
  | inner t => splitPiece t

def Piece.text : Piece → Text
  | sign t => t
  | lineBreak t => t
  | inner t => t

/-- The tokens of the lines of a document with the given comment sign. -/
def splitLines (sign source : Text) : List Token :=
  (piecesFrom sign 0 true source).flatMap Piece.tokens

/-! ## Nothing is lost -/

theorem text_pushInner (c : Char) (pieces : List Piece) :
    (pushInner c pieces).flatMap Piece.text = c :: pieces.flatMap Piece.text := by
  unfold pushInner
  split <;> simp [Piece.text]

theorem text_emptySign (sign : Text) (fresh : Bool) :
    (emptySign sign fresh).flatMap Piece.text = [] := by
  unfold emptySign
  split <;> simp [Piece.text]

theorem prefix_of_lineBreak? {t stop : Text} (h : lineBreak? t = some stop) :
    stop <+: t ∧ stop ≠ [] := by
  unfold lineBreak? at h
  split at h <;> simp only [Option.some.injEq, reduceCtorEq] at h
  all_goals
    subst h
    exact ⟨⟨_, rfl⟩, by simp⟩

theorem append_drop_tail {stop t : Text} {c : Char} (h : stop <+: c :: t) (hne : stop ≠ []) :
    stop ++ t.drop (stop.length - 1) = c :: t := by
  obtain ⟨rest, hrest⟩ := h
  cases stop with
  | nil => exact absurd rfl hne
  | cons x stop =>
      simp only [List.cons_append, List.cons.injEq] at hrest
      obtain ⟨rfl, rfl⟩ := hrest
      simp

/-- The pieces make up the text behind the characters that are covered. -/
theorem text_piecesFrom (sign : Text) (covered : Nat) (fresh : Bool) (t : Text) :
    (piecesFrom sign covered fresh t).flatMap Piece.text = t.drop covered := by
  fun_induction piecesFrom sign covered fresh t with
  | case1 => simp [text_emptySign]
  | case2 covered fresh _ t ih => simpa using ih
  | case3 fresh c t h ih =>
      simp only [Bool.and_eq_true, List.isPrefixOf_iff_prefix, Bool.not_eq_true',
        List.isEmpty_eq_false_iff] at h
      simpa [Piece.text, ih] using append_drop_tail h.2 h.1.2
  | case4 fresh c t h ihBreak ihInner =>
      simp only [List.flatMap_append, text_emptySign, List.nil_append, List.drop_zero] at ihInner ⊢
      split
      · next stop hstop =>
          obtain ⟨hbegins, hne⟩ := prefix_of_lineBreak? hstop
          simpa [Piece.text, ihBreak] using append_drop_tail hbegins hne
      · rw [text_pushInner, ihInner]

theorem textOf_tokens (piece : Piece) : textOf piece.tokens = piece.text := by
  cases piece with
  | sign t => simp [Piece.tokens, Piece.text, Token.text]
  | lineBreak t => simp [Piece.tokens, Piece.text, Token.text]
  | inner t => exact textOf_splitPiece t

/-- The tokens of the lines make up the document. -/
theorem textOf_splitLines (sign source : Text) : textOf (splitLines sign source) = source := by
  calc textOf (splitLines sign source)
      = (piecesFrom sign 0 true source).flatMap Piece.text := by
        simp only [splitLines, textOf, List.flatMap_assoc]
        congr 1
        funext piece
        exact textOf_tokens piece
    _ = source := by simpa using text_piecesFrom sign 0 true source

end CommentMacro.Document
