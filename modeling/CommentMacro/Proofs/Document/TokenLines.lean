import CommentMacro.Proofs.Document.Declarations
import CommentMacro.Proofs.Document.Groups
import CommentMacro.Proofs.Document.Lines

/-!
# The lines of a list of tokens

Tokens that were read line by line are cut into lines again behind their line breaks
(`cutLines`). A comment sign leads its line, so a pattern that starts with one can match
only where a line starts; and a line break ends its line, so a pattern that ends with the
first one it meets can match only as a whole line (`WholeLine.isPrefixOf_kinds`).
-/

namespace CommentMacro.Document

open Pattern

def cutLines : List Token → List (List Token)
  | [] => []
  | token :: tokens =>
    if token.isBreak then [token] :: cutLines tokens
    else match cutLines tokens with
      | [] => [[token]]
      | line :: lines => (token :: line) :: lines

theorem flatten_cutLines (tokens : List Token) : (cutLines tokens).flatten = tokens := by
  fun_induction cutLines tokens with
  | case1 => rfl
  | case2 token tokens hbreak ih => rw [List.flatten_cons, ih, List.singleton_append]
  | case3 token tokens hbreak hnil ih =>
      rw [hnil] at ih
      rw [← ih]
      rfl
  | case4 token tokens hbreak line lines hlines ih =>
      rw [hlines] at ih
      rw [List.flatten_cons, List.cons_append, ← ih, List.flatten_cons]

/-! ## Lines -/

/-- No comment sign stands in a line but at its front, and there only if `fresh`. -/
def Led : (fresh : Bool) → List Token → Prop
  | _, [] => True
  | fresh, token :: line =>
    (∀ c, token = .comment c → fresh = true) ∧ ∀ later ∈ line, ∀ c, later ≠ .comment c

def Ended (line : List Token) : Prop :=
  ∃ front r, line = front ++ [.lineBreak r] ∧ ∀ token ∈ front, token.isBreak = false

/-- The lines of a list of tokens. All but the last one end with a line break; `fresh` says
whether the first one is read from its start. -/
inductive Lined : (fresh : Bool) → List (List Token) → Prop where
  | nil {fresh : Bool} : Lined fresh []
  | last {fresh : Bool} (line : List Token) (hled : Led fresh line)
      (hopen : ∀ token ∈ line, token.isBreak = false) : Lined fresh [line]
  | cons {fresh : Bool} (line : List Token) {lines : List (List Token)} (hled : Led fresh line)
      (hended : Ended line) (rest : Lined true lines) : Lined fresh (line :: lines)

theorem Led.cons {fresh : Bool} {token : Token} {line : List Token}
    (hlead : ∀ c, token = .comment c → fresh = true) (h : Led false line) :
    Led fresh (token :: line) := by
  refine ⟨hlead, ?_⟩
  cases line with
  | nil => simp
  | cons second line =>
      rw [List.forall_mem_cons]
      refine ⟨fun c heq => ?_, h.2⟩
      simpa using h.1 c heq

theorem signsLead_cons {fresh : Bool} {token : Token} {tokens : List Token}
    (h : SignsLead fresh (token :: tokens)) :
    (∀ c, token = .comment c → fresh = true) ∧ SignsLead token.isBreak tokens := by
  cases token with
  | comment t => exact ⟨fun _ _ => h.1, h.2⟩
  | _ => exact ⟨by simp, h⟩

theorem lined_cutLines {fresh : Bool} {tokens : List Token} (h : SignsLead fresh tokens) :
    Lined fresh (cutLines tokens) := by
  induction tokens generalizing fresh with
  | nil => exact .nil
  | cons token tokens ih =>
      obtain ⟨hlead, hlater⟩ := signsLead_cons h
      have hlines := ih hlater
      cases hbreak : token.isBreak with
      | true =>
          obtain ⟨r, rfl⟩ : ∃ r, token = .lineBreak r := by
            cases token <;> simp_all [Token.isBreak]
          exact .cons _ ⟨hlead, by simp⟩ ⟨[], r, rfl, by simp⟩ hlines
      | false =>
          rw [hbreak] at hlines
          rw [cutLines, if_neg (by simp [hbreak])]
          -- the token goes to the line behind it, which is not read from its start
          generalize cutLines tokens = lines at hlines
          cases hlines with
          | nil => exact .last _ (.cons hlead trivial) (by simpa using hbreak)
          | last line hled hopen =>
              exact .last _ (.cons hlead hled) (List.forall_mem_cons.mpr ⟨hbreak, hopen⟩)
          | cons line hled hended hrest =>
              obtain ⟨front, r, rfl, hfront⟩ := hended
              have hended : Ended (token :: (front ++ [.lineBreak r])) :=
                ⟨token :: front, r, rfl, List.forall_mem_cons.mpr ⟨hbreak, hfront⟩⟩
              exact .cons _ (.cons hlead hled) hended hrest

/-- The tokens of a document are lines. -/
theorem lined_splitLines {sign : Text} (hsign : ProperSign sign) (source : Text) :
    Lined true (cutLines (splitLines sign source)) :=
  lined_cutLines (signsLead_of_pieces (signsLeadPieces_piecesFrom hsign 0 true source))

/-! ## Whole lines -/

/-- A line from its start to its line break. -/
structure WholeLine (line : List Token) : Prop where
  led : Led true line
  ended : Ended line

theorem WholeLine.ne_nil {line : List Token} (h : WholeLine line) : line ≠ [] := by
  obtain ⟨front, r, rfl, -⟩ := h.ended
  simp

/-- The kinds of a whole line hold one line break, at their end. -/
theorem WholeLine.lineWord {line : List Token} (h : WholeLine line) :
    LineWord (line.map Token.kind) := by
  obtain ⟨front, r, rfl, hfront⟩ := h.ended
  have hkinds : (front ++ [Token.lineBreak r]).map Token.kind = front.map Token.kind ++ ['R'] :=
    List.map_append
  rw [hkinds]
  refine ⟨?_, List.getLast?_concat⟩
  rw [List.dropLast_concat]
  intro hmem
  obtain ⟨token, htoken, hkind⟩ := List.mem_map.mp hmem
  obtain ⟨t, rfl⟩ := kind_eq_lineBreak.mp hkind
  simpa [Token.isBreak] using hfront _ htoken

/-- A line of kinds stands at the front of a whole line only as that line. -/
theorem WholeLine.isPrefixOf_kinds {line : List Token} (h : WholeLine line) {w : Text}
    (hw : LineWord w) (rest : List Token) :
    w.isPrefixOf ((line ++ rest).map Token.kind) = true ↔ line.map Token.kind = w := by
  rw [List.isPrefixOf_iff_prefix, List.map_append, hw.isPrefix_append_iff h.lineWord]

theorem WholeLine.not_comment {line : List Token} (h : WholeLine line) :
    ∀ token ∈ line.tail, ∀ c, token ≠ .comment c := by
  have hled := h.led
  cases line with
  | nil => simp
  | cons token line => exact hled.2

/-! ## Lines with a marker -/

def isMarkerLine (which : Marker) : List Token → Bool
  | [.comment _, .marker _ found, .lineBreak _] => found == which
  | _ => false

theorem isMarkerLine_iff {which : Marker} {line : List Token} :
    isMarkerLine which line = true ↔
      ∃ c m r, line = [.comment c, .marker m which, .lineBreak r] := by
  constructor
  · intro h
    unfold isMarkerLine at h
    split at h
    · next c m found r =>
        obtain rfl := eq_of_beq h
        exact ⟨c, m, r, rfl⟩
    · simp at h
  · rintro ⟨c, m, r, rfl⟩
    simp [isMarkerLine]

theorem isMarkerLine_iff_kinds {which : Marker} {line : List Token} :
    isMarkerLine which line = true ↔ line.map Token.kind = lineKinds which := by
  rw [isMarkerLine_iff, lineKinds]
  constructor
  · rintro ⟨c, m, r, rfl⟩
    rfl
  · intro hkinds
    obtain ⟨first, _, rfl, hfirst, hkinds⟩ := List.map_eq_cons_iff.mp hkinds
    obtain ⟨second, _, rfl, hsecond, hkinds⟩ := List.map_eq_cons_iff.mp hkinds
    obtain ⟨third, _, rfl, hthird, hkinds⟩ := List.map_eq_cons_iff.mp hkinds
    obtain rfl := List.map_eq_nil_iff.mp hkinds
    obtain ⟨c, rfl⟩ := kind_eq_comment.mp hfirst
    obtain ⟨m, rfl⟩ := kind_eq_marker.mp hsecond
    obtain ⟨r, rfl⟩ := kind_eq_lineBreak.mp hthird
    exact ⟨c, m, r, rfl⟩

theorem opensWith_line {line : List Token} (h : WholeLine line) (which : Marker)
    (rest : List Token) : opensWith which (line ++ rest) = isMarkerLine which line := by
  have hw : LineWord (lineKinds which) := by cases which <;> decide
  rw [Bool.eq_iff_iff, ← isPrefixOf_kinds_opening, h.isPrefixOf_kinds hw, isMarkerLine_iff_kinds]

theorem opensWith_of_not_comment {which : Marker} {token : Token} (h : ∀ c, token ≠ .comment c)
    (rest : List Token) : opensWith which (token :: rest) = false := by
  rw [Bool.eq_false_iff]
  intro hopens
  obtain ⟨c, m, r, behind, heq⟩ := opensWith_iff.mp hopens
  exact h c (List.cons.inj heq).1

/-- Where a line with a marker stands among tokens, a line starts. -/
theorem noneBefore_line {line : List Token} (h : WholeLine line) {which : Marker}
    (hmarker : isMarkerLine which line = false) (rest : List Token) :
    NoneBefore (opensWith which) line rest := by
  have hopens := opensWith_line h which rest
  have hrest := h.not_comment
  obtain ⟨token, later, rfl⟩ := List.exists_cons_of_ne_nil h.ne_nil
  refine noneBefore_cons.mpr ⟨by rw [← hmarker]; exact hopens, ?_⟩
  have hnone : ∀ part : List Token, (∀ token ∈ part, ∀ c, token ≠ .comment c) →
      NoneBefore (opensWith which) part rest := by
    intro part hpart
    induction part with
    | nil => exact noneBefore_nil _ _
    | cons token part ih =>
        rw [List.forall_mem_cons] at hpart
        exact noneBefore_cons.mpr ⟨opensWith_of_not_comment hpart.1 _, ih hpart.2⟩
  exact hnone later hrest

theorem noneBefore_lines {lines : List (List Token)} {which : Marker}
    (h : ∀ line ∈ lines, WholeLine line ∧ isMarkerLine which line = false) (rest : List Token) :
    NoneBefore (opensWith which) lines.flatten rest := by
  induction lines with
  | nil => exact noneBefore_nil _ _
  | cons line lines ih =>
      rw [List.forall_mem_cons] at h
      rw [List.flatten_cons]
      exact noneBefore_append.mpr ⟨noneBefore_line h.1.1 h.1.2 _, ih h.2⟩

/-- A marker alone on its line has a line break behind it. -/
theorem noneBefore_of_no_break {tokens : List Token} (h : ∀ token ∈ tokens, token.isBreak = false)
    (which : Marker) : NoneBefore (opensWith which) tokens [] := by
  intro i _
  rw [Bool.eq_false_iff]
  intro hopens
  obtain ⟨c, m, r, rest, heq⟩ := opensWith_iff.mp hopens
  have hmem : Token.lineBreak r ∈ tokens := by
    apply List.mem_of_mem_drop (i := i)
    rw [List.append_nil] at heq
    simp [heq]
  simpa [Token.isBreak] using h _ hmem

/-- A line is not mixed up with what is behind it, and behind the last one there is nothing. -/
theorem Lined.noneBefore {line : List Token} {lines : List (List Token)}
    (h : Lined true (line :: lines)) {which : Marker} (hno : isMarkerLine which line = false)
    {rest : List Token} (hrest : lines = [] → rest = []) :
    NoneBefore (opensWith which) line rest := by
  cases h with
  | last _ _ hopen =>
      rw [hrest rfl]
      exact noneBefore_of_no_break hopen which
  | cons _ hled hended _ => exact noneBefore_line ⟨hled, hended⟩ hno rest

theorem Lined.tail {line : List Token} {lines : List (List Token)}
    (h : Lined true (line :: lines)) : Lined true lines := by
  cases h with
  | last => exact .nil
  | cons _ _ _ hlater => exact hlater

theorem Lined.noneBefore_flatten {lines : List (List Token)} (h : Lined true lines)
    {which : Marker} (hno : ∀ line ∈ lines, isMarkerLine which line = false) :
    NoneBefore (opensWith which) lines.flatten [] := by
  induction lines with
  | nil => exact noneBefore_nil _ _
  | cons line lines ih =>
      rw [List.forall_mem_cons] at hno
      rw [List.flatten_cons, noneBefore_append]
      refine ⟨h.noneBefore hno.1 ?_, ih h.tail hno.2⟩
      rintro rfl
      rfl

/-- In front of a line all lines are whole. -/
theorem Lined.of_append {front : List (List Token)} {line : List Token}
    {behind : List (List Token)} (h : Lined true (front ++ line :: behind)) :
    (∀ first ∈ front, WholeLine first) ∧ Lined true (line :: behind) := by
  induction front with
  | nil => exact ⟨by simp, h⟩
  | cons first front ih =>
      generalize hlines : front ++ line :: behind = lines at h ih
      rw [List.cons_append, hlines] at h
      cases h with
      | last => simp at hlines
      | cons _ hled hended hlater =>
          obtain ⟨hwhole, hbehind⟩ := ih hlater
          exact ⟨List.forall_mem_cons.mpr ⟨⟨hled, hended⟩, hwhole⟩, hbehind⟩

end CommentMacro.Document
