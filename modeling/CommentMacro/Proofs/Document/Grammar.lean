import CommentMacro.Proofs.Document.LineEnds
import Mathlib.Computability.RegularExpressions

/-!
# The grammar of lines

The tokens of a document are those of its lines, one line after another, with the line
breaks between them (`splitLines_line`, `splitLines_last`). Within a line there is at most
one token of each sort, in a fixed order: the comment sign, which is there if the line
starts with it, a sign, and plain text (`lineWord`).

The line breaks of the tokens are the line ends of the text. This asks for a comment sign
without a carriage return: one that ends in it would take it away from the line break.
-/

namespace CommentMacro.Document

open RegularExpression
open scoped Computability

def lineFront (sign line : Text) : List Token :=
  match Text.after? sign line with
  | some inner => .comment sign :: splitPiece inner
  | none => splitPiece line

/-! ## One line -/

/-- What a line holds besides its comment sign and plain text. -/
def directive : RegularExpression Kind :=
  char 'S' + char 'M' + char 'T' + char 'G' + char 'E' + char '2'

def lineWord : RegularExpression Kind :=
  (1 + char 'C') * ((1 + directive) * (1 + char 'X'))

def documentWord : RegularExpression Kind :=
  star (lineWord * char 'R') * lineWord

theorem nil_mem_optional (r : RegularExpression Kind) : [] ∈ (1 + r).matches' :=
  Or.inl rfl

theorem mem_optional {r : RegularExpression Kind} {w : Text} (h : w ∈ r.matches') :
    w ∈ (1 + r).matches' :=
  Or.inr h

theorem append_mem_matches {r r' : RegularExpression Kind} {w w' : Text} (h : w ∈ r.matches')
    (h' : w' ∈ r'.matches') : w ++ w' ∈ (r * r').matches' :=
  Language.append_mem_mul h h'

theorem mem_star_mul {r r' : RegularExpression Kind} {w : Text} (h : w ∈ r'.matches') :
    w ∈ (star r * r').matches' :=
  Language.append_mem_mul (Language.nil_mem_kstar _) h

theorem append_mem_star_mul {r r' : RegularExpression Kind} {w w' : Text} (h : w ∈ r.matches')
    (h' : w' ∈ (star r * r').matches') : w ++ w' ∈ (star r * r').matches' := by
  obtain ⟨repeated, hrepeated, last, hlast, rfl⟩ := h'
  obtain ⟨words, rfl, hwords⟩ := Language.mem_kstar.mp hrepeated
  have hmore := Language.join_mem_kstar (List.forall_mem_cons.mpr ⟨h, hwords⟩)
  exact ⟨_, hmore, last, hlast, List.append_assoc _ _ _⟩

theorem singleton_mem_char_iff {k k' : Kind} :
    [k] ∈ (char k' : RegularExpression Kind).matches' ↔ k = k' := by
  constructor
  · intro h
    exact (List.cons.inj h).1
  · rintro rfl
    rfl

theorem kind_mem_directive {token : Token} (h : IsSign token) :
    [token.kind] ∈ directive.matches' := by
  simp only [directive, matches'_add, Language.mem_add, singleton_mem_char_iff]
  cases token with
  | marker t which => cases which <;> simp [Token.kind, Marker.kind]
  | macroHeader t name parameters => simp [Token.kind]
  | tableHeader t name => simp [Token.kind]
  | indent t => simp [Token.kind]
  | _ => exact h.elim

theorem kinds_blockTokens (t : Text) :
    (blockTokens t).map Token.kind ∈ (1 + char 'X' : RegularExpression Kind).matches' := by
  rw [blockTokens]
  split
  · exact nil_mem_optional _
  · exact mem_optional rfl

theorem kinds_splitPiece (t : Text) :
    (splitPiece t).map Token.kind ∈
      ((1 + directive) * (1 + char 'X') : RegularExpression Kind).matches' := by
  unfold splitPiece
  split
  · next token rest hsign =>
      have htoken := mem_optional (kind_mem_directive (isSign_of_sign? hsign))
      exact append_mem_matches htoken (kinds_blockTokens rest)
  · exact append_mem_matches (nil_mem_optional _) (kinds_blockTokens t)

theorem kinds_lineFront (sign line : Text) :
    (lineFront sign line).map Token.kind ∈ lineWord.matches' := by
  unfold lineFront
  split
  · next inner _ =>
      have hcomment : ['C'] ∈ (1 + char 'C' : RegularExpression Kind).matches' := mem_optional rfl
      exact append_mem_matches hcomment (kinds_splitPiece inner)
  · exact append_mem_matches (nil_mem_optional _) (kinds_splitPiece line)

theorem textOf_lineFront (sign line : Text) : textOf (lineFront sign line) = line := by
  unfold lineFront
  split
  · next inner hafter =>
      rw [textOf_cons, textOf_splitPiece]
      exact (Text.eq_append_of_after? hafter).symm
  · exact textOf_splitPiece line

theorem lineFront_sign (sign inner : Text) :
    lineFront sign (sign ++ inner) = .comment sign :: splitPiece inner := by
  rw [lineFront, Text.after?_append]

theorem lineFront_bare {sign line : Text} (h : ¬ sign <+: line) :
    lineFront sign line = splitPiece line := by
  unfold lineFront
  split
  · next inner hafter =>
      rw [Text.eq_append_of_after? hafter] at h
      exact absurd (List.prefix_append sign inner) h
  · rfl

theorem isBreak_of_mem_lineFront {sign line : Text} {token : Token}
    (h : token ∈ lineFront sign line) : token.isBreak = false := by
  have hpiece : ∀ t, token ∈ splitPiece t → token.isBreak = false := by
    intro t hmem
    have hfrom := fromPiece_of_mem_splitPiece hmem
    cases token with
    | lineBreak t => exact absurd rfl (hfrom.2.2 t)
    | _ => rfl
  by_cases hbegins : sign <+: line
  · obtain ⟨inner, rfl⟩ := hbegins
    rw [lineFront_sign] at h
    rcases List.mem_cons.mp h with rfl | h
    · rfl
    · exact hpiece inner h
  · rw [lineFront_bare hbegins] at h
    exact hpiece line h

/-- A line has a comment sign if it starts with it. -/
theorem comment_mem_lineFront_iff {sign line : Text} :
    (∃ c, .comment c ∈ lineFront sign line) ↔ sign <+: line := by
  constructor
  · rintro ⟨c, hmem⟩
    by_contra hnot
    rw [lineFront_bare hnot] at hmem
    exact (fromPiece_of_mem_splitPiece hmem).2.1 c rfl
  · rintro ⟨inner, rfl⟩
    rw [lineFront_sign]
    exact ⟨sign, List.mem_cons_self⟩

/-! ## One line after another -/

theorem piecesFrom_bare {sign t : Text} (h : ¬ sign <+: t) :
    piecesFrom sign 0 true t = piecesFrom sign 0 false t := by
  have hne : sign ≠ [] := by
    rintro rfl
    exact h List.nil_prefix
  cases t with
  | nil => simp [piecesFrom, emptySign, hne]
  | cons c t =>
      have hnot : sign.isPrefixOf (c :: t) = false := by
        rw [Bool.eq_false_iff]
        exact fun hbegins => h (List.isPrefixOf_iff_prefix.mp hbegins)
      simp [piecesFrom, emptySign, hne, hnot]

theorem piecesFrom_last {sign t : Text} (h : '\n' ∉ t) :
    piecesFrom sign 0 false t = if t = [] then [] else [.inner t] := by
  induction t with
  | nil => simp [piecesFrom, emptySign]
  | cons c t ih =>
      rw [List.mem_cons, not_or] at h
      have hreturn : c = '\r' → t.head? ≠ some '\n' :=
        fun _ hhead => h.2 (List.mem_of_head? hhead)
      rw [piecesFrom, lineBreak?_eq_none (Ne.symm h.1) hreturn, ih h.2]
      cases t <;> simp [emptySign, pushInner]

/-- The tokens of a piece that may be missing. -/
theorem tokens_inner (t : Text) :
    (if t = [] then [] else [Piece.inner t]).flatMap Piece.tokens = splitPiece t := by
  split
  · next hnil =>
      subst hnil
      rfl
  · rw [List.flatMap_singleton, Piece.tokens]

section

variable {sign : Text} (hsign : OneLineSign sign)
include hsign

/-- The comment sign of a line ends in front of the line end. -/
theorem prefix_line_iff {line stop : Text} (h : Text.IsLine line stop) (rest : Text) :
    sign <+: line ++ (stop ++ rest) ↔ sign <+: line := by
  refine ⟨fun hbegins => ?_, fun hbegins => hbegins.trans (List.prefix_append line _)⟩
  rcases List.prefix_or_prefix_of_prefix hbegins (List.prefix_append line (stop ++ rest)) with
    hshort | ⟨tail, rfl⟩
  · exact hshort
  · have htail := (List.prefix_append_right_inj line).mp hbegins
    cases tail with
    | nil => simp
    | cons c tail =>
        have hreturn := hsign.no_return
        have hfeed := hsign.no_lineFeed
        rcases h.stop_eq with rfl | rfl
        · obtain rfl := (List.cons_prefix_cons.mp htail).1
          simp at hfeed
        · obtain rfl := (List.cons_prefix_cons.mp htail).1
          simp at hreturn

/-- The last line. -/
theorem splitLines_last {line : Text} (h : '\n' ∉ line) :
    splitLines sign line = lineFront sign line := by
  by_cases hbegins : sign <+: line
  · obtain ⟨inner, rfl⟩ := hbegins
    rw [List.mem_append, not_or] at h
    rw [splitLines_sign hsign.toProperSign, piecesFrom_last h.2, tokens_inner, lineFront_sign]
  · rw [splitLines, piecesFrom_bare hbegins, piecesFrom_last h, tokens_inner,
      lineFront_bare hbegins]

/-- A line is read by itself, whatever follows its line end. -/
theorem splitLines_line {line stop : Text} (h : Text.IsLine line stop) (rest : Text) :
    splitLines sign (line ++ (stop ++ rest)) =
      lineFront sign line ++ .lineBreak stop :: splitLines sign rest := by
  have htokens : ∀ t, ((if t = [] then [] else [Piece.inner t]) ++
      .lineBreak stop :: piecesFrom sign 0 true rest).flatMap Piece.tokens =
        splitPiece t ++ .lineBreak stop :: splitLines sign rest := by
    intro t
    rw [List.flatMap_append, tokens_inner]
    rfl
  by_cases hbegins : sign <+: line
  · obtain ⟨inner, rfl⟩ := hbegins
    rw [List.append_assoc, splitLines_sign hsign.toProperSign, piecesFrom_inner h.of_append,
      htokens, lineFront_sign]
    rfl
  · have hnot := hbegins
    rw [← prefix_line_iff hsign h rest] at hnot
    rw [splitLines, piecesFrom_bare hnot, piecesFrom_inner h, htokens,
      lineFront_bare hbegins]

/-- Between the line breaks stand the tokens of the lines. -/
theorem splitOnP_splitLines (source : Text) :
    (splitLines sign source).splitOnP Token.isBreak =
      (Text.splitLines source).map (lineFront sign) := by
  induction source using Text.linesInduction with
  | last line hfeed =>
      rw [splitLines_last hsign hfeed, Text.splitLines_of_not_mem hfeed,
        List.splitOnP_eq_singleton fun _ => isBreak_of_mem_lineFront]
      rfl
  | line line stop rest h ih =>
      rw [splitLines_line hsign h, Text.splitLines_line h,
        List.splitOnP_append_cons_of_forall_mem fun _ => isBreak_of_mem_lineFront]
      · rw [ih, List.map_cons]
      · rfl

/-- The kinds of the tokens of a document are a word of the grammar. -/
theorem kinds_splitLines (source : Text) :
    (splitLines sign source).map Token.kind ∈ documentWord.matches' := by
  induction source using Text.linesInduction with
  | last line hfeed =>
      rw [splitLines_last hsign hfeed]
      exact mem_star_mul (kinds_lineFront sign line)
  | line line stop rest h ih =>
      have hfirst : (lineFront sign line).map Token.kind ++ ['R'] ∈
          (lineWord * char 'R').matches' :=
        append_mem_matches (kinds_lineFront sign line) rfl
      have hmore := append_mem_star_mul hfirst ih
      rw [List.append_assoc] at hmore
      rw [splitLines_line hsign h, List.map_append]
      exact hmore

/-- A line break is a line end, and stands for all line feeds. -/
theorem lineFeed_not_mem_of_mem {source : Text} {token : Token}
    (h : token ∈ splitLines sign source) (hbreak : token.isBreak = false) :
    '\n' ∉ token.text := by
  obtain ⟨piece, hpiece, hmem⟩ := List.mem_flatMap.mp h
  have hplain := plain_of_mem_piecesFrom piece hpiece
  cases piece with
  | sign t =>
      obtain rfl := List.mem_singleton.mp hmem
      obtain rfl : t = sign := hplain
      exact hsign.no_lineFeed
  | lineBreak t =>
      obtain rfl := List.mem_singleton.mp hmem
      simp [Token.isBreak] at hbreak
  | inner t => exact lineFeed_not_mem_of_mem_splitPiece hplain hmem

/-- The tokens of a document follow the grammar of lines, and lines are read one by one.
The tokens make up the document; their kinds are a word of the grammar; between the line
breaks stand the tokens of the lines of the document, with a comment sign if, and only if,
the line starts with it; a line break is a line end, and no other token holds a line feed.
Of two texts in a row the tokens are those of the one and then those of the other, if the
first is empty or ends with a line feed. -/
theorem splitLines_grammar :
    (∀ source,
      textOf (splitLines sign source) = source ∧
      (splitLines sign source).map Token.kind ∈ documentWord.matches' ∧
      List.Forall₂ (fun line tokens =>
          textOf tokens = line ∧ ((∃ c, .comment c ∈ tokens) ↔ sign <+: line))
        (Text.splitLines source) ((splitLines sign source).splitOnP Token.isBreak) ∧
      (∀ t, .lineBreak t ∈ splitLines sign source → t = ['\n'] ∨ t = ['\r', '\n']) ∧
      ∀ token ∈ splitLines sign source, token.isBreak = false → '\n' ∉ token.text) ∧
    ∀ a b, Fresh a → splitLines sign (a ++ b) = splitLines sign a ++ splitLines sign b := by
  constructor
  · intro source
    refine ⟨textOf_splitLines sign source, kinds_splitLines hsign source, ?_,
      fun t hmem => fromLine_of_mem hmem, fun token => lineFeed_not_mem_of_mem hsign⟩
    rw [splitOnP_splitLines hsign, List.forall₂_map_right_iff, List.forall₂_same]
    intro line _
    exact ⟨textOf_lineFront sign line, comment_mem_lineFront_iff⟩
  · intro a b hfresh
    exact splitLines_append hsign.toProperSign hfresh b

end

/-- Three lines, with both line ends. The second one has the comment sign only behind its
start. -/
def threeLines : Text :=
  "// #metacode\r\nx // #metagen\n//   a".toList

theorem splitLines_grammar_threeLines :
    OneLineSign "//".toList ∧
      splitLines "//".toList threeLines =
        [.comment "//".toList, .marker " #metacode".toList .start, .lineBreak "\r\n".toList,
          .block "x // #metagen".toList, .lineBreak "\n".toList,
          .comment "//".toList, .indent "   ".toList, .block "a".toList] ∧
      "CSRXRC2X".toList ∈ documentWord.matches' ∧
      Fresh (threeLines.take 14) ∧
      splitLines "//".toList threeLines =
        splitLines "//".toList (threeLines.take 14) ++
          splitLines "//".toList (threeLines.drop 14) := by
  have hsign : OneLineSign "//".toList := ⟨⟨by decide, by decide⟩, by decide⟩
  obtain ⟨hread, hlocal⟩ := splitLines_grammar hsign
  obtain ⟨-, hword, -⟩ := hread threeLines
  have hfresh : Fresh (threeLines.take 14) := Or.inr rfl
  have hparts := hlocal _ (threeLines.drop 14) hfresh
  rw [List.take_append_drop] at hparts
  exact ⟨hsign, rfl, hword, hfresh, hparts⟩

end CommentMacro.Document
