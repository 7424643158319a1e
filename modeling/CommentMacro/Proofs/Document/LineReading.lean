import CommentMacro.Proofs.Document.Declarations
import CommentMacro.Proofs.Document.Quiet
import CommentMacro.Proofs.Document.TokenLines
import Mathlib.Data.List.TakeWhile

/-!
# Declarations, line by line

What becomes of the lines between two markers is told here without patterns
(`readLines`): a header takes all body lines directly behind it, plain lines in a row are one
call, and every other line stays. The scan for declarations does the same to them
(`groupRun_lines`), and nothing to what comes out (`groupRun_readLines`).

A pattern that goes through the lines of a sort, and through nothing else where a line starts
(`ReadsLines`), takes as many lines of that sort as there are when it is repeated.
-/

namespace CommentMacro.Document

open Pattern

/-! ## Lines of a declaration -/

/-- What makes a definition of its text and its body, if a line is the header of one. -/
def header? : List Token → Option (Text → Text → Token)
  | [.comment _, .macroHeader _ name parameters, .lineBreak _] =>
    some fun text body => .macroDefinition text name parameters body
  | [.comment _, .tableHeader _ name, .lineBreak _] =>
    some fun text body => .tableDefinition text name body
  | _ => none

/-- The text behind the indent of a body line, and the line break, if a line is one. A line
that is empty behind the comment sign is one as well. -/
def bodyLine? : List Token → Option (Text × Text)
  | [.comment _, .indent _, .block t, .lineBreak r] => some (t, r)
  | [.comment _, .indent _, .lineBreak r] => some ([], r)
  | [.comment _, .lineBreak r] => some ([], r)
  | _ => none

/-- The text of a plain comment line, without a space in front, and the line break, if a line
is one. -/
def callLine? : List Token → Option (Text × Text)
  | [.comment _, .block (' ' :: t), .lineBreak r] => some (t, r)
  | [.comment _, .block t, .lineBreak r] => some (t, r)
  | [.comment _, .lineBreak r] => some ([], r)
  | _ => none

def isBodyLine (line : List Token) : Bool :=
  (bodyLine? line).isSome

def isCallLine (line : List Token) : Bool :=
  (callLine? line).isSome

/-- Texts, each with its line break behind it, but for the last one. -/
def joinLines : List (Text × Text) → Text
  | [] => []
  | [(t, _)] => t
  | (t, r) :: later => t ++ r ++ joinLines later

theorem length_dropWhile_lt {α : Type} (p : α → Bool) (item : α) (items : List α) :
    (items.dropWhile p).length < (item :: items).length :=
  Nat.lt_succ_of_le (List.dropWhile_sublist p).length_le

/-- What is read off the lines between two markers. -/
def readLines : List (List Token) → List Token
  | [] => []
  | line :: lines =>
    match header? line with
    | some define =>
      let body := lines.takeWhile isBodyLine
      if body = [] then line ++ readLines lines
      else
        define (textOf (line :: body).flatten) (joinLines (body.filterMap bodyLine?)) ::
          readLines (lines.dropWhile isBodyLine)
    | none =>
      if isCallLine line then
        let call := line :: lines.takeWhile isCallLine
        .invocation (textOf call.flatten)
            ((call.filterMap callLine?).flatMap fun (t, r) => t ++ r) ::
          readLines (lines.dropWhile isCallLine)
      else line ++ readLines lines
termination_by lines => lines.length
decreasing_by all_goals first | exact length_dropWhile_lt _ _ _ | exact Nat.lt_succ_self _

/-! ## Sorts of lines are told by their kinds -/

theorem kind_eq_block {token : Token} : token.kind = 'X' ↔ ∃ t, token = .block t := by
  cases token with
  | marker t which => cases which <;> simp [Token.kind, Marker.kind]
  | _ => simp [Token.kind]

theorem kind_eq_indent {token : Token} : token.kind = '2' ↔ ∃ t, token = .indent t := by
  cases token with
  | marker t which => cases which <;> simp [Token.kind, Marker.kind]
  | _ => simp [Token.kind]

theorem kind_eq_macroHeader {token : Token} :
    token.kind = 'M' ↔ ∃ t name parameters, token = .macroHeader t name parameters := by
  cases token with
  | marker t which => cases which <;> simp [Token.kind, Marker.kind]
  | _ => simp [Token.kind]

theorem kind_eq_tableHeader {token : Token} :
    token.kind = 'T' ↔ ∃ t name, token = .tableHeader t name := by
  cases token with
  | marker t which => cases which <;> simp [Token.kind, Marker.kind]
  | _ => simp [Token.kind]

def headerWords : List Text :=
  [['C', 'M', 'R'], ['C', 'T', 'R']]

theorem isBodyLine_iff {line : List Token} :
    isBodyLine line = true ↔ line.map Token.kind ∈ bodyWords := by
  simp only [bodyWords, List.mem_cons, List.not_mem_nil, or_false]
  constructor
  · intro h
    unfold isBodyLine bodyLine? at h
    split at h
    · exact Or.inl rfl
    · exact Or.inr (Or.inl rfl)
    · exact Or.inr (Or.inr rfl)
    · simp at h
  · intro h
    simp only [List.map_eq_cons_iff, List.map_eq_nil_iff, kind_eq_comment, kind_eq_indent,
      kind_eq_block, kind_eq_lineBreak] at h
    rcases h with
      ⟨_, _, rfl, ⟨c, rfl⟩, _, _, rfl, ⟨i, rfl⟩, _, _, rfl, ⟨t, rfl⟩, _, _, rfl, ⟨r, rfl⟩, rfl⟩ |
      ⟨_, _, rfl, ⟨c, rfl⟩, _, _, rfl, ⟨i, rfl⟩, _, _, rfl, ⟨r, rfl⟩, rfl⟩ |
      ⟨_, _, rfl, ⟨c, rfl⟩, _, _, rfl, ⟨r, rfl⟩, rfl⟩
    · rfl
    · rfl
    · rfl

theorem isCallLine_iff {line : List Token} :
    isCallLine line = true ↔ line.map Token.kind ∈ callWords := by
  simp only [callWords, List.mem_cons, List.not_mem_nil, or_false]
  constructor
  · intro h
    unfold isCallLine callLine? at h
    split at h
    · exact Or.inl rfl
    · exact Or.inl rfl
    · exact Or.inr rfl
    · simp at h
  · intro h
    simp only [List.map_eq_cons_iff, List.map_eq_nil_iff, kind_eq_comment, kind_eq_block,
      kind_eq_lineBreak] at h
    rcases h with
      ⟨_, _, rfl, ⟨c, rfl⟩, _, _, rfl, ⟨t, rfl⟩, _, _, rfl, ⟨r, rfl⟩, rfl⟩ |
      ⟨_, _, rfl, ⟨c, rfl⟩, _, _, rfl, ⟨r, rfl⟩, rfl⟩
    · unfold isCallLine callLine?
      split <;> simp_all
    · rfl

theorem isSome_header?_iff {line : List Token} :
    (header? line).isSome = true ↔ line.map Token.kind ∈ headerWords := by
  simp only [headerWords, List.mem_cons, List.not_mem_nil, or_false]
  constructor
  · intro h
    unfold header? at h
    split at h
    · exact Or.inl rfl
    · exact Or.inr rfl
    · simp at h
  · intro h
    simp only [List.map_eq_cons_iff, List.map_eq_nil_iff, kind_eq_comment, kind_eq_macroHeader,
      kind_eq_tableHeader, kind_eq_lineBreak] at h
    rcases h with
      ⟨_, _, rfl, ⟨c, rfl⟩, _, _, rfl, ⟨t, name, parameters, rfl⟩, _, _, rfl, ⟨r, rfl⟩, rfl⟩ |
      ⟨_, _, rfl, ⟨c, rfl⟩, _, _, rfl, ⟨t, name, rfl⟩, _, _, rfl, ⟨r, rfl⟩, rfl⟩
    · rfl
    · rfl

/-! ## Going through lines -/

/-- A pattern does not match where tokens start. -/
def Refused (q : Pattern) (tokens : List Token) : Prop :=
  attempts (tokens.map Token.kind).toArray q 0 = []

/-- A line of a body starts with a comment sign. -/
theorem refused_of_not_comment {token : Token} (h : ∀ c, token ≠ .comment c)
    (tokens : List Token) : Refused bodyLine (token :: tokens) := by
  have hkind : token.kind ≠ 'C' := by
    intro hkind
    obtain ⟨c, rfl⟩ := kind_eq_comment.mp hkind
    exact h c rfl
  apply readsWords_bodyLine.eq_nil
  simp [bodyWords, Ne.symm hkind]

/-- A pattern that goes through the lines of a sort, and through no other ones. -/
structure ReadsLines (q : Pattern) (is : List Token → Bool) : Prop where
  takes : ∀ {line}, is line = true → Takes q (line.map Token.kind)
  refused : ∀ {line}, WholeLine line → is line = false → ∀ rest, Refused q (line ++ rest)

theorem ReadsWords.readsLines {q : Pattern} {words : List Text} {is : List Token → Bool}
    (h : ReadsWords q words) (hlines : ∀ w ∈ words, LineWord w)
    (his : ∀ {line}, is line = true ↔ line.map Token.kind ∈ words) : ReadsLines q is where
  takes hline := h.takes hlines (his.mp hline)
  refused hwhole hno rest := by
    apply h.eq_nil
    intro w hw hbegins
    rw [List.map_append, (hlines w hw).isPrefix_append_iff hwhole.lineWord] at hbegins
    rw [← hbegins, ← his, hno] at hw
    simp at hw

theorem readsLines_bodyLine : ReadsLines bodyLine isBodyLine :=
  readsWords_bodyLine.readsLines (by decide) isBodyLine_iff

theorem readsLines_plainLine : ReadsLines plainLine isCallLine :=
  readsWords_plainLine.readsLines (by decide) isCallLine_iff

section

variable {q : Pattern} {is : List Token → Bool} (h : ReadsLines q is)
include h

/-- Behind the lines of a sort none of them is left. -/
theorem ReadsLines.refused_dropWhile {lines : List (List Token)} {rest : List Token}
    (hwhole : ∀ line ∈ lines, WholeLine line) (hrest : Refused q rest) :
    Refused q ((lines.dropWhile is).flatten ++ rest) := by
  cases hleft : lines.dropWhile is with
  | nil => exact hrest
  | cons line later =>
      have hno : is line = false := by
        have := List.head?_dropWhile_not is lines
        simpa [hleft] using this
      have hmem : line ∈ lines := by
        apply (List.dropWhile_sublist is).subset
        rw [hleft]
        exact List.mem_cons_self
      rw [List.flatten_cons, List.append_assoc]
      exact h.refused (hwhole line hmem) hno _

/-- A repeated pattern goes through as many lines of its sort as there are. -/
theorem ReadsLines.head?_attempts_plus {lines : List (List Token)} {rest : List Token}
    (hwhole : ∀ line ∈ lines, WholeLine line) (hrest : Refused q rest)
    (hne : lines.takeWhile is ≠ []) :
    (attempts ((lines.flatten ++ rest).map Token.kind).toArray (.plus q) 0).head? =
      some ⟨(lines.takeWhile is).flatten.length, []⟩ := by
  let blocks := (lines.takeWhile is).map fun line => line.map Token.kind
  let left := (lines.dropWhile is).flatten ++ rest
  have hkinds : (lines.flatten ++ rest).map Token.kind =
      blocks.flatten ++ left.map Token.kind := by
    have hsplit : lines.flatten = (lines.takeWhile is).flatten ++ (lines.dropWhile is).flatten := by
      rw [← List.flatten_append, List.takeWhile_append_dropWhile]
    rw [hsplit, List.append_assoc, List.map_append, List.map_flatten]
  have hlength : blocks.flatten.length = (lines.takeWhile is).flatten.length := by
    rw [← List.map_flatten, List.length_map]
  have hblocks : ∀ block ∈ blocks, Takes q block := by
    intro block hmem
    obtain ⟨line, hline, rfl⟩ := List.mem_map.mp hmem
    exact h.takes (List.mem_takeWhile_imp hline)
  have hmany : 1 ≤ blocks.length := by
    rw [List.length_map]
    exact List.length_pos_iff.mpr hne
  rw [hkinds, ← hlength]
  exact head?_attempts_greedy hblocks (h.refused_dropWhile hwhole hrest) hmany

end

/-! ## What the lines of a declaration make -/

theorem header?_eq_some {line : List Token} {define : Text → Text → Token}
    (h : header? line = some define) :
    (∃ c t name parameters r, line = [.comment c, .macroHeader t name parameters, .lineBreak r] ∧
      define = fun text body => .macroDefinition text name parameters body) ∨
    ∃ c t name r, line = [.comment c, .tableHeader t name, .lineBreak r] ∧
      define = fun text body => .tableDefinition text name body := by
  unfold header? at h
  split at h
  · next c t name parameters r =>
      exact Or.inl ⟨c, t, name, parameters, r, rfl, (Option.some.inj h).symm⟩
  · next c t name r => exact Or.inr ⟨c, t, name, r, rfl, (Option.some.inj h).symm⟩
  · simp at h

theorem bodyLine?_eq_some {line : List Token} {t r : Text} (h : bodyLine? line = some (t, r)) :
    ∃ front, line = front ++ [.lineBreak r] ∧ front.flatMap bodyText = t := by
  unfold bodyLine? at h
  split at h
  · next c i t' r' =>
      obtain ⟨rfl, rfl⟩ := Prod.mk.inj (Option.some.inj h)
      exact ⟨[.comment c, .indent i, .block t'], rfl, by simp [bodyText]⟩
  · next c i r' =>
      obtain ⟨rfl, rfl⟩ := Prod.mk.inj (Option.some.inj h)
      exact ⟨[.comment c, .indent i], rfl, rfl⟩
  · next c r' =>
      obtain ⟨rfl, rfl⟩ := Prod.mk.inj (Option.some.inj h)
      exact ⟨[.comment c], rfl, rfl⟩
  · simp at h

theorem callLine?_eq_some {line : List Token} {t r : Text} (h : callLine? line = some (t, r)) :
    line.flatMap callText = t ++ r := by
  unfold callLine? at h
  split at h
  · obtain ⟨rfl, rfl⟩ := Prod.mk.inj (Option.some.inj h)
    simp [callText]
  · obtain ⟨rfl, rfl⟩ := Prod.mk.inj (Option.some.inj h)
    simp [callText]
  · obtain ⟨rfl, rfl⟩ := Prod.mk.inj (Option.some.inj h)
    simp [callText]
  · simp at h

/-- The body of a definition is what its lines hold, without the last line break. -/
theorem bodyText_lines {body : List (List Token)} (hbody : ∀ line ∈ body, isBodyLine line = true)
    (hne : body ≠ []) :
    body.flatten.dropLast.flatMap bodyText = joinLines (body.filterMap bodyLine?) := by
  induction body with
  | nil => exact absurd rfl hne
  | cons line body ih =>
      rw [List.forall_mem_cons] at hbody
      obtain ⟨⟨t, r⟩, hline⟩ := Option.isSome_iff_exists.mp hbody.1
      obtain ⟨front, rfl, rfl⟩ := bodyLine?_eq_some hline
      cases body with
      | nil =>
          rw [List.flatten_singleton, List.dropLast_concat]
          simp [hline, joinLines]
      | cons next body =>
          have hlater := ih hbody.2 (by simp)
          obtain ⟨⟨t', r'⟩, hnext⟩ := Option.isSome_iff_exists.mp (hbody.2 next List.mem_cons_self)
          have hfull : (next :: body).flatten ≠ [] := by
            obtain ⟨front', rfl, -⟩ := bodyLine?_eq_some hnext
            simp
          rw [List.flatten_cons, List.dropLast_append_of_ne_nil hfull, List.flatMap_append, hlater]
          simp [hline, hnext, joinLines, bodyText]

theorem callText_lines {call : List (List Token)}
    (hcall : ∀ line ∈ call, isCallLine line = true) :
    call.flatten.flatMap callText =
      (call.filterMap callLine?).flatMap fun (t, r) => t ++ r := by
  induction call with
  | nil => rfl
  | cons line call ih =>
      rw [List.forall_mem_cons] at hcall
      obtain ⟨⟨t, r⟩, hline⟩ := Option.isSome_iff_exists.mp hcall.1
      rw [List.flatten_cons, List.flatMap_append, ih hcall.2, callLine?_eq_some hline,
        List.filterMap_cons_some hline, List.flatMap_cons]

/-- The definition that a header and a body make. -/
theorem declare_definition {line : List Token} {body : List (List Token)}
    {define : Text → Text → Token} (hheader : header? line = some define)
    (hbody : ∀ line ∈ body, isBodyLine line = true) (hne : body ≠ []) :
    declare (line ++ body.flatten) =
      define (textOf (line :: body).flatten) (joinLines (body.filterMap bodyLine?)) := by
  rw [← bodyText_lines hbody hne]
  rcases header?_eq_some hheader with
    ⟨c, t, name, parameters, r, rfl, rfl⟩ | ⟨c, t, name, r, rfl, rfl⟩
  · rfl
  · rfl

/-- The call that plain lines make. -/
theorem declare_call {line : List Token} {call : List (List Token)}
    (hcall : ∀ line' ∈ line :: call, isCallLine line' = true) :
    declare (line ++ call.flatten) = .invocation (textOf (line :: call).flatten)
      (((line :: call).filterMap callLine?).flatMap fun (t, r) => t ++ r) := by
  have htext := callText_lines hcall
  obtain ⟨⟨t, r⟩, hline⟩ := Option.isSome_iff_exists.mp (hcall line List.mem_cons_self)
  rw [← htext]
  unfold callLine? at hline
  split at hline
  · rfl
  · rfl
  · rfl
  · simp at hline

/-! ## Grouping a run of lines -/

theorem groupRun_append_of_head? {run rest : List Token} {name : Text}
    (h : (attempts ((run ++ rest).map Token.kind).toArray declaration 0).head? =
      some (declaredHit name run.length)) (hne : run ≠ []) :
    groupRun (run ++ rest) = declare run :: groupRun rest := by
  have hmatch : declaration.matchAt? ((run ++ rest).map Token.kind).toArray 0 =
      some ⟨0, run.length, (declaredHit name run.length).captures⟩ := by
    rw [matchAt?_eq, h]
    rfl
  exact groupRun_append hmatch rfl hne

theorem head?_attempts_definition {line tokens : List Token} {define : Text → Text → Token}
    {length : Nat} (hheader : header? line = some define)
    (h : (attempts (tokens.map Token.kind).toArray (.plus bodyLine) 0).head? =
      some ⟨length, []⟩) :
    ∃ name, (attempts ((line ++ tokens).map Token.kind).toArray declaration 0).head? =
      some (declaredHit name (line.length + length)) := by
  rcases header?_eq_some hheader with
    ⟨c, t, name, parameters, r, rfl, -⟩ | ⟨c, t, name, r, rfl, -⟩
  · exact ⟨macroName, head?_attempts_macro h⟩
  · exact ⟨tableName, head?_attempts_table h⟩

theorem isCallLine_of_header? {line : List Token} {define : Text → Text → Token}
    (h : header? line = some define) : isCallLine line = false := by
  rcases header?_eq_some h with ⟨c, t, name, parameters, r, rfl, -⟩ | ⟨c, t, name, r, rfl, -⟩
  · rfl
  · rfl

/-- A definition is not a comment sign. -/
theorem not_comment_of_header? {line : List Token} {define : Text → Text → Token}
    (h : header? line = some define) (text body : Text) :
    ∀ c, define text body ≠ .comment c := by
  rcases header?_eq_some h with ⟨_, _, _, _, _, -, rfl⟩ | ⟨_, _, _, _, -, rfl⟩
  · simp
  · simp

theorem ne_nil_of_header? {line : List Token} {define : Text → Text → Token}
    (h : header? line = some define) : line ≠ [] := by
  rintro rfl
  simp [header?] at h

section

variable {line : List Token} {lines : List (List Token)} {rest : List Token}

/-- A header goes with all body lines directly behind it. -/
theorem groupRun_definition {define : Text → Text → Token} (hheader : header? line = some define)
    (hwhole : ∀ later ∈ lines, WholeLine later) (hrest : Refused bodyLine rest)
    (hne : lines.takeWhile isBodyLine ≠ []) :
    groupRun (line ++ (lines.flatten ++ rest)) =
      define (textOf (line :: lines.takeWhile isBodyLine).flatten)
        (joinLines ((lines.takeWhile isBodyLine).filterMap bodyLine?)) ::
          groupRun ((lines.dropWhile isBodyLine).flatten ++ rest) := by
  let body := lines.takeWhile isBodyLine
  let left := (lines.dropWhile isBodyLine).flatten ++ rest
  have hbody : ∀ later ∈ body, isBodyLine later = true := fun later hmem =>
    List.mem_takeWhile_imp hmem
  have hsplit : lines.flatten ++ rest = body.flatten ++ left := by
    rw [← List.append_assoc, ← List.flatten_append, List.takeWhile_append_dropWhile]
  have hplus := readsLines_bodyLine.head?_attempts_plus hwhole hrest hne
  obtain ⟨name, hhead⟩ := head?_attempts_definition hheader hplus
  rw [hsplit, ← List.append_assoc, ← List.length_append] at hhead
  have hrun : line ++ body.flatten ≠ [] := by
    simp [ne_nil_of_header? hheader]
  rw [hsplit, ← List.append_assoc, groupRun_append_of_head? hhead hrun,
    declare_definition hheader hbody hne]

/-- A plain line goes with all plain lines directly behind it. -/
theorem groupRun_call (hcall : isCallLine line = true)
    (hwhole : ∀ later ∈ line :: lines, WholeLine later) (hrest : Refused plainLine rest) :
    groupRun (line ++ (lines.flatten ++ rest)) =
      .invocation (textOf (line :: lines.takeWhile isCallLine).flatten)
        (((line :: lines.takeWhile isCallLine).filterMap callLine?).flatMap fun (t, r) => t ++ r) ::
          groupRun ((lines.dropWhile isCallLine).flatten ++ rest) := by
  let call := lines.takeWhile isCallLine
  let left := (lines.dropWhile isCallLine).flatten ++ rest
  have htake : (line :: lines).takeWhile isCallLine = line :: call :=
    List.takeWhile_cons_of_pos hcall
  have hlines : ∀ later ∈ line :: call, isCallLine later = true := by
    rw [← htake]
    exact fun later hmem => List.mem_takeWhile_imp hmem
  have hsplit : line ++ (lines.flatten ++ rest) = line ++ call.flatten ++ left := by
    rw [List.append_assoc, ← List.append_assoc call.flatten, ← List.flatten_append,
      List.takeWhile_append_dropWhile]
  have hplus := readsLines_plainLine.head?_attempts_plus hwhole hrest (by simp [htake])
  have hhead : (attempts ((line ++ (lines.flatten ++ rest)).map Token.kind).toArray
      declaration 0).head? = some (declaredHit invocationName (line ++ call.flatten).length) := by
    rw [List.flatten_cons, List.append_assoc, htake] at hplus
    have hno : ∀ w, LineWord w → w ∉ callWords →
        w.isPrefixOf ((line ++ (lines.flatten ++ rest)).map Token.kind) = false := by
      intro w hw hother
      rw [Bool.eq_false_iff]
      intro hbegins
      rw [(hwhole line List.mem_cons_self).isPrefixOf_kinds hw] at hbegins
      rw [← hbegins] at hother
      exact hother (isCallLine_iff.mp hcall)
    exact head?_attempts_call (hno _ (by decide) (by decide)) (hno _ (by decide) (by decide)) hplus
  have hne : line ++ call.flatten ≠ [] := by
    simp [(hwhole line List.mem_cons_self).ne_nil]
  rw [hsplit] at hhead ⊢
  rw [groupRun_append_of_head? hhead hne, declare_call hlines]

/-- Any other line stays, and so does a header without a body. -/
theorem groupRun_line (hwhole : WholeLine line) (hcall : isCallLine line = false)
    (hheader : (header? line).isSome = true → Refused bodyLine rest) :
    groupRun (line ++ rest) = line ++ groupRun rest := by
  have hheaded : ∀ name, ∀ w ∈ headerWords, LineWord w →
      attempts ((line ++ rest).map Token.kind).toArray (headed name w) 0 = [] := by
    intro name w hw hline
    by_cases hkinds : line.map Token.kind = w
    · have hsome : (header? line).isSome = true := by
        rw [isSome_header?_iff, hkinds]
        exact hw
      rw [List.map_append, hkinds]
      exact attempts_headed_append_eq_nil name w (hheader hsome)
    · apply attempts_headed_eq_nil
      rw [Bool.eq_false_iff]
      intro hbegins
      exact hkinds ((hwhole.isPrefixOf_kinds hline rest).mp hbegins)
  have hnone : declaration.matchAt? ((line ++ rest).map Token.kind).toArray 0 = none := by
    have hplain := attempts_plus_eq_nil (readsLines_plainLine.refused hwhole hcall rest)
    rw [matchAt?_eq, attempts_declaration, hheaded _ _ (by decide) (by decide),
      hheaded _ _ (by decide) (by decide), attempts, hplain]
    rfl
  have hlater := hwhole.not_comment
  obtain ⟨token, later, rfl⟩ := List.exists_cons_of_ne_nil hwhole.ne_nil
  rw [List.tail_cons] at hlater
  rw [List.cons_append] at hnone ⊢
  rw [groupRun_cons hnone, groupRun_append_of_not_comment hlater, List.cons_append]

end

/-! ## Reading a run of lines -/

section

variable {lines : List (List Token)} {rest : List Token}

theorem wholeLines_dropWhile {is : List Token → Bool} (hwhole : ∀ line ∈ lines, WholeLine line) :
    ∀ line ∈ lines.dropWhile is, WholeLine line := by
  intro line hmem
  exact hwhole line ((List.dropWhile_sublist is).subset hmem)

theorem refused_of_takeWhile_eq_nil {q : Pattern} {is : List Token → Bool} (h : ReadsLines q is)
    (hwhole : ∀ line ∈ lines, WholeLine line) (hnone : lines.takeWhile is = [])
    (hrest : Refused q rest) : Refused q (lines.flatten ++ rest) := by
  have hdrop : lines.dropWhile is = lines := by
    conv => rhs; rw [← List.takeWhile_append_dropWhile (p := is) (l := lines), hnone]
    rfl
  rw [← hdrop]
  exact h.refused_dropWhile hwhole hrest

/-- Lines between two markers are grouped as they are read. -/
theorem groupRun_lines (hwhole : ∀ line ∈ lines, WholeLine line) (hbody : Refused bodyLine rest)
    (hcall : Refused plainLine rest) :
    groupRun (lines.flatten ++ rest) = readLines lines ++ groupRun rest := by
  fun_induction readLines lines with
  | case1 => rfl
  | case2 line lines define hheader body hempty ih =>
      rw [List.forall_mem_cons] at hwhole
      have hno := isCallLine_of_header? hheader
      have hrefused := refused_of_takeWhile_eq_nil readsLines_bodyLine hwhole.2 hempty hbody
      rw [List.flatten_cons, List.append_assoc, groupRun_line hwhole.1 hno fun _ => hrefused,
        ih hwhole.2, List.append_assoc]
  | case3 line lines define hheader body hne ih =>
      rw [List.forall_mem_cons] at hwhole
      rw [List.flatten_cons, List.append_assoc, groupRun_definition hheader hwhole.2 hbody hne,
        ih (wholeLines_dropWhile hwhole.2), List.cons_append]
  | case4 line lines hheader hline call ih =>
      rw [List.flatten_cons, List.append_assoc, groupRun_call hline hwhole hcall,
        ih (wholeLines_dropWhile (List.forall_mem_cons.mp hwhole).2), List.cons_append]
  | case5 line lines hheader hline ih =>
      rw [List.forall_mem_cons] at hwhole
      rw [Bool.not_eq_true] at hline
      -- only a header asks for what is behind it
      have hrefused : (header? line).isSome = true → Refused bodyLine (lines.flatten ++ rest) := by
        rw [hheader]
        simp
      rw [List.flatten_cons, List.append_assoc, groupRun_line hwhole.1 hline hrefused,
        ih hwhole.2, List.append_assoc]

/-- A body does not start in front of what was read, if it does not in front of the lines. -/
theorem refused_readLines (hwhole : ∀ line ∈ lines, WholeLine line)
    (hnone : lines.takeWhile isBodyLine = []) (hrest : Refused bodyLine rest) :
    Refused bodyLine (readLines lines ++ rest) := by
  have hfirst : ∀ {line : List Token} {later : List (List Token)} {tokens : List Token},
      WholeLine line → (line :: later).takeWhile isBodyLine = [] →
        Refused bodyLine (line ++ tokens) := by
    intro line later tokens hwhole hnone
    apply readsLines_bodyLine.refused hwhole
    rw [Bool.eq_false_iff]
    intro hline
    simp [hline] at hnone
  fun_cases readLines lines with
  | case1 => exact hrest
  | case2 line lines define hheader body hempty =>
      rw [List.append_assoc]
      exact hfirst (hwhole line List.mem_cons_self) hnone
  | case3 line lines define hheader body hne =>
      exact refused_of_not_comment (not_comment_of_header? hheader _ _) _
  | case4 line lines hheader hline call => exact refused_of_not_comment (by simp) _
  | case5 line lines hheader hline =>
      rw [List.append_assoc]
      exact hfirst (hwhole line List.mem_cons_self) hnone

/-- What was read is not read in another way. A header that stayed without a body does not get
one, and the lines that stayed are no plain ones. -/
theorem groupRun_readLines (hwhole : ∀ line ∈ lines, WholeLine line)
    (hrest : Refused bodyLine rest) :
    groupRun (readLines lines ++ rest) = readLines lines ++ groupRun rest := by
  fun_induction readLines lines with
  | case1 => rfl
  | case2 line lines define hheader body hempty ih =>
      rw [List.forall_mem_cons] at hwhole
      have hno := isCallLine_of_header? hheader
      have hrefused := refused_readLines hwhole.2 hempty hrest
      rw [List.append_assoc, groupRun_line hwhole.1 hno fun _ => hrefused, ih hwhole.2,
        List.append_assoc]
  | case3 line lines define hheader body hne ih =>
      rw [List.forall_mem_cons] at hwhole
      rw [List.cons_append, groupRun_cons_of_not_comment (not_comment_of_header? hheader _ _),
        ih (wholeLines_dropWhile hwhole.2), List.cons_append]
  | case4 line lines hheader hline call ih =>
      rw [List.forall_mem_cons] at hwhole
      rw [List.cons_append, groupRun_cons_of_not_comment (by simp),
        ih (wholeLines_dropWhile hwhole.2), List.cons_append]
  | case5 line lines hheader hline ih =>
      rw [List.forall_mem_cons] at hwhole
      rw [Bool.not_eq_true] at hline
      have hrefused : (header? line).isSome = true →
          Refused bodyLine (readLines lines ++ rest) := by
        rw [hheader]
        simp
      rw [List.append_assoc, groupRun_line hwhole.1 hline hrefused, ih hwhole.2, List.append_assoc]

end

end CommentMacro.Document
