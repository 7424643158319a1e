import CommentMacro.Document.Token
import CommentMacro.Text.Blank
import CommentMacro.Text.Word

/-!
# Signs at the start of a piece of a line

Behind the comment sign of a line may stand a marker, the header of a definition
or the indent of a body line, each after one space. `Document.sign?` reads it;
whatever follows on the line is plain block text.
-/

namespace CommentMacro.Document

/-- The longest name that a definition may have, and the longest list of
parameters. -/
def nameLimit : Nat :=
  99

def startWord : Text :=
  "#metacode".toList

/-- The names between commas, without the blanks around them; empty ones do not
count. -/
def parseParameters (t : Text) : List Text :=
  ((Text.splitBy (· == ',') t).map Text.strip).filter (!·.isEmpty)

def isParameterChar (c : Char) : Bool :=
  Text.isWord c || c == ',' || c == ' '

/-- What a known word makes, if a text begins with it. -/
def fixed? (word : Text) (make : Text → Token) (t : Text) : Option (Token × Text) :=
  (Text.after? word t).map fun rest => (make word, rest)

def macroLead : Text :=
  " #macro ".toList

def tableLead : Text :=
  " #table ".toList

/-- The header of a macro definition: a name, and parameters in parentheses
directly behind it. -/
def macroHeader? (t : Text) : Option (Token × Text) := do
  let rest ← Text.after? macroLead t
  let (name, rest) := Text.spanWord rest
  if name.isEmpty || nameLimit < name.length then none
  else
    let rest ← Text.after? ['('] rest
    let parameters := rest.takeWhile isParameterChar
    if nameLimit < parameters.length then none
    else
      let rest ← Text.after? [')'] (rest.dropWhile isParameterChar)
      return (.macroHeader (macroLead ++ name ++ '(' :: parameters ++ [')']) name
        (parseParameters parameters), rest)

/-- The header of a table definition. A name that is too long is cut off. -/
def tableHeader? (t : Text) : Option (Token × Text) := do
  let rest ← Text.after? tableLead t
  let name := (Text.spanWord rest).1.take nameLimit
  if name.isEmpty then none
  else return (.tableHeader (tableLead ++ name) name, rest.drop name.length)

/-- The signs, each as a reader of the start of a text. -/
def signReaders : List (Text → Option (Token × Text)) :=
  [fixed? (' ' :: startWord) (.marker · .start),
   macroHeader?,
   tableHeader?,
   fixed? " #metagen".toList (.marker · .generate),
   fixed? " #metaend".toList (.marker · .finish),
   fixed? "   ".toList .indent]

/-- The sign at the start of a piece of a line, and what follows it. -/
def sign? (t : Text) : Option (Token × Text) :=
  signReaders.findSome? fun read => read t

def blockTokens (t : Text) : List Token :=
  if t.isEmpty then [] else [.block t]

def splitPiece (t : Text) : List Token :=
  match sign? t with
  | some (token, rest) => token :: blockTokens rest
  | none => blockTokens t

/-! ## Nothing is lost -/

theorem eq_append_of_fixed? {word t rest : Text} {make : Text → Token} {token : Token}
    (hmake : ∀ w, (make w).text = w) (h : fixed? word make t = some (token, rest)) :
    t = token.text ++ rest := by
  obtain ⟨after, hafter, heq⟩ := Option.map_eq_some_iff.1 h
  simp only [Prod.mk.injEq] at heq
  obtain ⟨rfl, rfl⟩ := heq
  rw [hmake]
  exact Text.eq_append_of_after? hafter

theorem eq_append_of_macroHeader? {t rest : Text} {token : Token}
    (h : macroHeader? t = some (token, rest)) : t = token.text ++ rest := by
  simp only [macroHeader?, Option.bind_eq_bind, Option.bind_eq_some_iff] at h
  obtain ⟨named, hlead, h⟩ := h
  split at h
  · simp at h
  · simp only [Option.bind_eq_some_iff] at h
    obtain ⟨listed, hopen, h⟩ := h
    split at h
    · simp at h
    · simp only [Option.bind_eq_some_iff] at h
      obtain ⟨tail, hclose, h⟩ := h
      simp only [Option.pure_def, Option.some.injEq, Prod.mk.injEq] at h
      obtain ⟨rfl, rfl⟩ := h
      have hnamed := Text.spanWord_append named
      have hlisted := List.takeWhile_append_dropWhile (p := isParameterChar) (l := listed)
      rw [Text.eq_append_of_after? hopen] at hnamed
      rw [Text.eq_append_of_after? hclose] at hlisted
      calc t = macroLead ++ named := Text.eq_append_of_after? hlead
        _ = macroLead ++ ((Text.spanWord named).1 ++ (['('] ++ listed)) := by rw [hnamed]
        _ = macroLead ++ ((Text.spanWord named).1 ++
              (['('] ++ (listed.takeWhile isParameterChar ++ ([')'] ++ tail)))) := by rw [hlisted]
        _ = _ := by simp [Token.text]

theorem eq_append_of_tableHeader? {t rest : Text} {token : Token}
    (h : tableHeader? t = some (token, rest)) : t = token.text ++ rest := by
  simp only [tableHeader?, Option.bind_eq_bind, Option.bind_eq_some_iff] at h
  obtain ⟨named, hlead, h⟩ := h
  split at h
  · simp at h
  · simp only [Option.pure_def, Option.some.injEq, Prod.mk.injEq] at h
    obtain ⟨rfl, rfl⟩ := h
    rw [Text.eq_append_of_after? hlead]
    simp only [Token.text, List.append_assoc, List.append_cancel_left_eq]
    have hnamed : named = (Text.spanWord named).1.take nameLimit ++
        ((Text.spanWord named).1.drop nameLimit ++ (Text.spanWord named).2) := by
      rw [← List.append_assoc, List.take_append_drop, Text.spanWord_append]
    generalize (Text.spanWord named).1.take nameLimit = name at hnamed ⊢
    rw [hnamed, List.drop_left]

/-- A sign and what follows it make up the text. -/
theorem eq_append_of_sign? {t rest : Text} {token : Token} (h : sign? t = some (token, rest)) :
    t = token.text ++ rest := by
  obtain ⟨read, hread, h⟩ := List.exists_of_findSome?_eq_some h
  simp only [signReaders, List.mem_cons, List.not_mem_nil, or_false] at hread
  rcases hread with rfl | rfl | rfl | rfl | rfl | rfl
  · exact eq_append_of_fixed? (fun _ => rfl) h
  · exact eq_append_of_macroHeader? h
  · exact eq_append_of_tableHeader? h
  · exact eq_append_of_fixed? (fun _ => rfl) h
  · exact eq_append_of_fixed? (fun _ => rfl) h
  · exact eq_append_of_fixed? (fun _ => rfl) h

theorem textOf_blockTokens (t : Text) : textOf (blockTokens t) = t := by
  cases t <;> simp [blockTokens, Token.text]

theorem textOf_splitPiece (t : Text) : textOf (splitPiece t) = t := by
  unfold splitPiece
  split
  · next token rest h =>
      rw [textOf_cons, textOf_blockTokens]
      exact (eq_append_of_sign? h).symm
  · exact textOf_blockTokens t

end CommentMacro.Document
