import CommentMacro.Proofs.Template.Runs
import Mathlib.Data.List.Chain

/-!
# The parts of a template

Cutting out the directives and then the white space gives the parts of a template in one way
only, told without the cutting: a directive stands at an offset where one starts
(`OpensDirective`) and that no earlier one covers, its tildes are told by the two ends of
its inside (`sides`), and what is between the directives is cut into longest runs of white
space and the text around them (`Factored`).

Both passes are followed from the front of the template. A character that starts no
directive moves the directives behind it by one (`directiveAt_pushPlain`), and joins the
first part if that is of its class (`Factored.pushRun`).
-/

namespace CommentMacro.Template

/-! ## Where the directives stand -/

/-- Whether a token is a directive that nobody has looked inside. -/
def Token.isDirective : Token .raw → Bool
  | directive .. => true
  | _ => false

/-- A directive stands among tokens, at an offset in their text. -/
def DirectiveAt (tokens : List (Token .raw)) (offset : Nat) (token : Token .raw) : Prop :=
  token.isDirective = true ∧
    ∃ front rest, tokens = front ++ token :: rest ∧ (textOf front).length = offset

theorem length_textOf_cons (token : Token .raw) (tokens : List (Token .raw)) :
    (textOf (token :: tokens)).length = token.text.length + (textOf tokens).length := by
  rw [textOf, List.flatMap_cons, List.length_append]
  rfl

theorem not_directiveAt_nil {offset : Nat} {token : Token .raw} :
    ¬ DirectiveAt [] offset token := by
  rintro ⟨-, front, rest, heq, -⟩
  simp at heq

theorem directiveAt_cons {first token : Token .raw} {tokens : List (Token .raw)} {offset : Nat} :
    DirectiveAt (first :: tokens) offset token ↔
      (first.isDirective = true ∧ token = first ∧ offset = 0) ∨
        ∃ behind, offset = first.text.length + behind ∧ DirectiveAt tokens behind token := by
  constructor
  · rintro ⟨hdirective, front, rest, heq, rfl⟩
    cases front with
    | nil =>
        obtain ⟨rfl, -⟩ := List.cons.inj heq
        exact Or.inl ⟨hdirective, rfl, rfl⟩
    | cons head front =>
        obtain ⟨rfl, rfl⟩ := List.cons.inj heq
        exact Or.inr ⟨_, length_textOf_cons first front, hdirective, front, rest, rfl, rfl⟩
  · rintro (⟨hdirective, rfl, rfl⟩ | ⟨behind, rfl, hdirective, front, rest, rfl, rfl⟩)
    · exact ⟨hdirective, [], tokens, rfl, rfl⟩
    · exact ⟨hdirective, first :: front, rest, rfl, length_textOf_cons first front⟩

/-- Tokens that are no directives move the directives behind them. -/
theorem directiveAt_append {front tokens : List (Token .raw)} {token : Token .raw} {offset : Nat}
    (h : ∀ other ∈ front, other.isDirective = false) :
    DirectiveAt (front ++ tokens) offset token ↔
      ∃ behind, offset = (textOf front).length + behind ∧ DirectiveAt tokens behind token := by
  induction front generalizing offset with
  | nil => simp [textOf]
  | cons first front ih =>
      rw [List.forall_mem_cons] at h
      rw [List.cons_append, directiveAt_cons, length_textOf_cons]
      simp only [h.1, Bool.false_eq_true, false_and, false_or, ih h.2]
      constructor
      · rintro ⟨_, rfl, behind, rfl, hat⟩
        exact ⟨behind, (Nat.add_assoc _ _ _).symm, hat⟩
      · rintro ⟨behind, rfl, hat⟩
        exact ⟨_, Nat.add_assoc _ _ _, behind, rfl, hat⟩

theorem directiveAt_plain {t : Text} {tokens : List (Token .raw)} {offset : Nat}
    {token : Token .raw} :
    DirectiveAt (.plain t :: tokens) offset token ↔
      ∃ behind, offset = t.length + behind ∧ DirectiveAt tokens behind token := by
  simpa [Token.isDirective, Token.text] using @directiveAt_cons (.plain t) token tokens offset

theorem directiveAt_pushPlain {c : Char} {tokens : List (Token .raw)} {offset : Nat}
    {token : Token .raw} :
    DirectiveAt (pushPlain c tokens) offset token ↔
      ∃ behind, offset = 1 + behind ∧ DirectiveAt tokens behind token := by
  unfold pushPlain
  split
  · next t tokens =>
      rw [directiveAt_plain, List.length_cons]
      simp only [directiveAt_plain]
      constructor
      · rintro ⟨behind, rfl, hat⟩
        exact ⟨t.length + behind, by omega, behind, rfl, hat⟩
      · rintro ⟨_, rfl, behind, rfl, hat⟩
        exact ⟨behind, by omega, hat⟩
  · next tokens _ => exact directiveAt_plain

theorem directiveAt_ofInside {inside : Text} {tokens : List (Token .raw)} {offset : Nat}
    {token : Token .raw} :
    DirectiveAt (.ofInside inside :: tokens) offset token ↔
      (token = .ofInside inside ∧ offset = 0) ∨
        ∃ behind, offset = (inBraces inside).length + behind ∧ DirectiveAt tokens behind token := by
  rw [directiveAt_cons]
  simp [Token.ofInside, Token.isDirective, Token.text]

/-- A directive among tokens covers an offset behind its first character. -/
def Covered (tokens : List (Token .raw)) (offset : Nat) : Prop :=
  ∃ start token, DirectiveAt tokens start token ∧ start < offset ∧
    offset < start + token.text.length

theorem not_covered_zero {tokens : List (Token .raw)} : ¬ Covered tokens 0 := by
  rintro ⟨start, token, -, hlt, -⟩
  omega

theorem covered_pushPlain {c : Char} {tokens : List (Token .raw)} {behind : Nat} :
    Covered (pushPlain c tokens) (1 + behind) ↔ Covered tokens behind := by
  constructor
  · rintro ⟨_, token, hat, hstart, hstop⟩
    obtain ⟨start, rfl, hbehind⟩ := directiveAt_pushPlain.mp hat
    exact ⟨start, token, hbehind, by omega, by omega⟩
  · rintro ⟨start, token, hat, hstart, hstop⟩
    exact ⟨1 + start, token, directiveAt_pushPlain.mpr ⟨start, rfl, hat⟩, by omega, by omega⟩

theorem covered_within {inside : Text} {tokens : List (Token .raw)} {offset : Nat}
    (hpos : 0 < offset)
    (hlt : offset < (inBraces inside).length) : Covered (.ofInside inside :: tokens) offset := by
  refine ⟨0, .ofInside inside, directiveAt_ofInside.mpr (Or.inl ⟨rfl, rfl⟩), hpos, ?_⟩
  rwa [Nat.zero_add]

theorem covered_behind {inside : Text} {tokens : List (Token .raw)} {behind : Nat} :
    Covered (.ofInside inside :: tokens) ((inBraces inside).length + behind) ↔
      Covered tokens behind := by
  constructor
  · rintro ⟨_, token, hat, hstart, hstop⟩
    rcases directiveAt_ofInside.mp hat with ⟨rfl, rfl⟩ | ⟨start, rfl, hbehind⟩
    · have htext : (Token.ofInside inside).text = inBraces inside := rfl
      rw [htext] at hstop
      omega
    · exact ⟨start, token, hbehind, by omega, by omega⟩
  · rintro ⟨start, token, hat, hstart, hstop⟩
    exact ⟨_, token, directiveAt_ofInside.mpr (Or.inr ⟨start, rfl, hat⟩), by omega, by omega⟩

/-! ## A directive stands where one starts -/

/-- A directive stands where one starts that no earlier one covers, and nowhere else. -/
theorem exists_directiveAt_iff (source : Text) (offset : Nat) :
    (∃ token, DirectiveAt (splitDirectives source) offset token) ↔
      ¬ Covered (splitDirectives source) offset ∧
        ∃ inside, OpensDirective (source.drop offset) inside := by
  simp only [← inside?_eq_some_iff]
  induction source using directivesInduction generalizing offset with
  | nil =>
      have hinside : inside? [] = none := rfl
      simp [splitDirectives_nil, not_directiveAt_nil, hinside]
  | directive inside rest h ih =>
      rw [splitDirectives_inBraces h]
      rcases Nat.lt_or_ge offset (inBraces inside).length with hlt | hge
      · rcases Nat.eq_zero_or_pos offset with rfl | hpos
        · -- here it starts
          have hhere :
              DirectiveAt (.ofInside inside :: splitDirectives rest) 0 (.ofInside inside) :=
            directiveAt_ofInside.mpr (Or.inl ⟨rfl, rfl⟩)
          exact iff_of_true ⟨_, hhere⟩ ⟨not_covered_zero, inside, h⟩
        · -- here it covers what starts
          refine iff_of_false ?_ fun hright => hright.1 (covered_within hpos hlt)
          rintro ⟨token, hat⟩
          rcases directiveAt_ofInside.mp hat with ⟨-, rfl⟩ | ⟨behind, rfl, -⟩ <;> omega
      · obtain ⟨behind, rfl⟩ := Nat.exists_eq_add_of_le hge
        have hne : inBraces inside ≠ [] := by simp [inBraces]
        rw [covered_behind, List.drop_length_add_append, ← ih behind]
        simp [directiveAt_ofInside, hne]
  | cons c t h ih =>
      rw [splitDirectives_cons h]
      rcases Nat.eq_zero_or_pos offset with rfl | hpos
      · refine iff_of_false ?_ ?_
        · rintro ⟨token, hat⟩
          obtain ⟨behind, heq, -⟩ := directiveAt_pushPlain.mp hat
          omega
        · rintro ⟨-, inside, hinside⟩
          rw [List.drop_zero, h] at hinside
          simp at hinside
      · obtain ⟨behind, rfl⟩ := Nat.exists_eq_add_of_le hpos
        rw [covered_pushPlain, Nat.add_comm, List.drop_succ_cons, ← ih behind]
        simp [directiveAt_pushPlain, Nat.add_comm 1]

/-! ## What a directive says -/

/-- What stands at an offset is the directive that starts there. -/
theorem DirectiveAt.exists_inside {source : Text} {offset : Nat} {token : Token .raw}
    (h : DirectiveAt (splitDirectives source) offset token) :
    ∃ inside, OpensDirective (source.drop offset) inside ∧ token = .ofInside inside := by
  simp only [← inside?_eq_some_iff]
  induction source using directivesInduction generalizing offset with
  | nil => exact absurd h not_directiveAt_nil
  | directive inside rest hinside ih =>
      rw [splitDirectives_inBraces hinside] at h
      rcases directiveAt_ofInside.mp h with ⟨rfl, rfl⟩ | ⟨behind, rfl, hbehind⟩
      · exact ⟨inside, hinside, rfl⟩
      · rw [List.drop_length_add_append]
        exact ih hbehind
  | cons c t hinside ih =>
      rw [splitDirectives_cons hinside] at h
      obtain ⟨behind, rfl, hbehind⟩ := directiveAt_pushPlain.mp h
      rw [Nat.add_comm, List.drop_succ_cons]
      exact ih hbehind

/-! ## White space and what is between it -/

def isSpacing (c : Char) : Bool :=
  c ∈ [' ', '\t', '\r', '\n']

def OneClass (t : Text) : Prop :=
  (∀ c ∈ t, c = ' ') ∨ (∀ c ∈ t, c = '\t') ∨ ∀ c ∈ t, c = '\r' ∨ c = '\n'

/-- A part of a template: text without white space, white space of one class, or a
directive. -/
def IsPart : Token .raw → Prop
  | .plain t => t ≠ [] ∧ ∀ c ∈ t, isSpacing c = false
  | .blank t => t ≠ [] ∧ OneClass t
  | .directive t _ _ => t ≠ []
  | _ => False

/-- Neighbours that could not be one part. -/
def Apart : Token .raw → Token .raw → Prop
  | .plain _, .plain _ => False
  | .blank run, .blank run' => blankKind run ≠ blankKind run'
  | _, _ => True

/-- The parts of a template, none of which could be longer. -/
structure Factored (tokens : List (Token .raw)) : Prop where
  parts : ∀ token ∈ tokens, IsPart token
  apart : tokens.IsChain Apart

theorem factored_nil : Factored [] :=
  ⟨by simp, .nil⟩

theorem Factored.cons {token : Token .raw} {tokens : List (Token .raw)} (h : Factored tokens)
    (hpart : IsPart token) (hapart : ∀ second ∈ tokens.head?, Apart token second) :
    Factored (token :: tokens) :=
  ⟨List.forall_mem_cons.mpr ⟨hpart, h.parts⟩, List.isChain_cons.mpr ⟨hapart, h.apart⟩⟩

/-- Another part at the front, which is apart from all that the first one is apart from. -/
theorem Factored.replace {first token : Token .raw} {tokens : List (Token .raw)}
    (h : Factored (first :: tokens)) (hpart : IsPart token)
    (hapart : ∀ second, Apart first second → Apart token second) :
    Factored (token :: tokens) := by
  obtain ⟨hfirst, hchain⟩ := List.isChain_cons.mp h.apart
  have hrest : Factored tokens := ⟨(List.forall_mem_cons.mp h.parts).2, hchain⟩
  exact hrest.cons hpart fun second hmem => hapart second (hfirst second hmem)

theorem isSpacing_of_blankClass?_eq_none {c : Char} (h : blankClass? c = none) :
    isSpacing c = false := by
  rw [Bool.eq_false_iff]
  intro hspacing
  simp only [isSpacing, List.mem_cons, List.not_mem_nil, or_false, decide_eq_true_eq] at hspacing
  rcases hspacing with rfl | rfl | rfl | rfl <;> simp [blankClass?] at h

theorem oneClass_singleton {c : Char} {k : Kind} (h : blankClass? c = some k) :
    OneClass [c] := by
  rcases class_cases h with ⟨-, rfl⟩ | ⟨-, rfl⟩ | ⟨-, rfl | rfl⟩ <;> simp [OneClass]

theorem OneClass.cons {c : Char} {run : Text} (h : OneClass run) (hne : run ≠ [])
    (hclass : blankClass? c = some (blankKind run)) : OneClass (c :: run) := by
  obtain ⟨d, run, rfl⟩ := List.exists_cons_of_ne_nil hne
  have hcases := class_cases hclass
  rcases h with h | h | h
  · obtain rfl := h d List.mem_cons_self
    obtain rfl : c = ' ' := by simpa [blankKind] using hcases
    exact Or.inl (List.forall_mem_cons.mpr ⟨rfl, h⟩)
  · obtain rfl := h d List.mem_cons_self
    obtain rfl : c = '\t' := by simpa [blankKind] using hcases
    exact Or.inr (Or.inl (List.forall_mem_cons.mpr ⟨rfl, h⟩))
  · have hc : c = '\r' ∨ c = '\n' := by
      rcases h d List.mem_cons_self with rfl | rfl <;> simpa [blankKind] using hcases
    exact Or.inr (Or.inr (List.forall_mem_cons.mpr ⟨hc, h⟩))

theorem Factored.pushPlain {tokens : List (Token .raw)} (h : Factored tokens) {c : Char}
    (hspacing : isSpacing c = false) : Factored (pushPlain c tokens) := by
  unfold Template.pushPlain
  split
  · next t rest =>
      obtain ⟨hne, hplain⟩ := (List.forall_mem_cons.mp h.parts).1
      refine h.replace ⟨by simp, List.forall_mem_cons.mpr ⟨hspacing, hplain⟩⟩ ?_
      intro second hapart
      cases second <;> exact hapart
  · next hplain =>
      refine h.cons ⟨by simp, by simpa using hspacing⟩ ?_
      intro second hmem
      cases second with
      | plain t =>
          obtain ⟨rest, heq⟩ := List.head?_eq_some_iff.mp hmem
          exact absurd heq (hplain t rest)
      | _ => trivial

/-- A character in front of the parts of a text joins the first one, or is a new one. -/
theorem Factored.pushRun {tokens : List (Token .raw)} (h : Factored tokens) (c : Char) :
    Factored (pushRun c tokens) := by
  unfold Template.pushRun
  split
  · next k run rest hclass =>
      have hkind := blankKind_of_blankClass? hclass
      obtain ⟨hne, hone⟩ := (List.forall_mem_cons.mp h.parts).1
      split
      · next heq =>
          subst heq
          refine h.replace ⟨by simp, hone.cons hne hclass⟩ ?_
          intro second hapart
          cases second with
          | blank run' => simpa [Apart, hkind] using hapart
          | _ => trivial
      · next hdiffers =>
          refine h.cons ⟨by simp, oneClass_singleton hclass⟩ ?_
          intro second hmem
          obtain rfl := Option.some.inj hmem
          simpa [Apart, hkind] using Ne.symm hdiffers
  · next k tokens hclass hblank =>
      refine h.cons ⟨by simp, oneClass_singleton hclass⟩ ?_
      intro second hmem
      cases second with
      | blank run =>
          obtain ⟨rest, heq⟩ := List.head?_eq_some_iff.mp hmem
          exact absurd heq (hblank run rest)
      | _ => trivial
  · next tokens hclass => exact h.pushPlain (isSpacing_of_blankClass?_eq_none hclass)

/-! ## Both passes, read from the front -/

theorem splitBlanks_cons (token : Token .raw) (tokens : List (Token .raw)) :
    splitBlanks (token :: tokens) = splitBlanks [token] ++ splitBlanks tokens := by
  simp only [splitBlanks, List.flatMap_cons, List.flatMap_nil, List.append_nil]

theorem splitBlanks_plain (t : Text) : splitBlanks [.plain t] = splitRuns t := by
  simp only [splitBlanks, List.flatMap_cons, List.flatMap_nil, List.append_nil]

theorem pushRun_append (c : Char) {tokens : List (Token .raw)} (hne : tokens ≠ [])
    (later : List (Token .raw)) :
    pushRun c (tokens ++ later) = pushRun c tokens ++ later := by
  obtain ⟨token, tokens, rfl⟩ := List.exists_cons_of_ne_nil hne
  cases hclass : blankClass? c with
  | none => cases token <;> simp [pushRun, hclass, pushPlain]
  | some k =>
      cases token with
      | blank run => by_cases hkind : blankKind run = k <;> simp [pushRun, hclass, hkind]
      | _ => simp [pushRun, hclass]

/-- The parts before white space is cut out: text that is not empty, and directives. -/
def IsPiece : Token .raw → Prop
  | .plain t => t ≠ []
  | token => token.isDirective = true

theorem isPiece_of_mem_splitDirectives {source : Text} :
    ∀ token ∈ splitDirectives source, IsPiece token := by
  induction source using directivesInduction with
  | nil => simp [splitDirectives_nil]
  | directive inside rest h ih =>
      rw [splitDirectives_inBraces h, List.forall_mem_cons]
      exact ⟨rfl, ih⟩
  | cons c t h ih =>
      rw [splitDirectives_cons h]
      unfold pushPlain
      split
      · next first rest heq =>
          rw [heq, List.forall_mem_cons] at ih
          exact List.forall_mem_cons.mpr ⟨by simp [IsPiece], ih.2⟩
      · exact List.forall_mem_cons.mpr ⟨by simp [IsPiece], ih⟩

/-- A character that starts no directive is cut in front of the parts behind it. -/
theorem splitBlanks_pushPlain (c : Char) {tokens : List (Token .raw)}
    (h : ∀ token ∈ tokens, IsPiece token) :
    splitBlanks (pushPlain c tokens) = pushRun c (splitBlanks tokens) := by
  have hcons : ∀ t, splitBlanks [.plain (c :: t)] = pushRun c (splitBlanks [.plain t]) := by
    intro t
    rw [splitBlanks_plain, splitBlanks_plain, splitRuns_cons]
  have hempty : splitBlanks [.plain []] = [] := by rw [splitBlanks_plain, splitRuns_nil]
  cases tokens with
  | nil =>
      have hone := hcons []
      rw [hempty] at hone
      exact hone
  | cons token tokens =>
      have hpiece := h token List.mem_cons_self
      cases token with
      | plain t =>
          have hne : splitBlanks [.plain t] ≠ [] := by
            intro hnil
            have htext := textOf_splitBlanks [.plain t]
            rw [hnil] at htext
            exact hpiece (by simpa [textOf, Token.text] using htext.symm)
          rw [pushPlain, splitBlanks_cons, splitBlanks_cons (.plain t), hcons,
            pushRun_append c hne]
      | directive t trim content =>
          have hpush : pushPlain c (.directive t trim content :: tokens) =
              .plain [c] :: .directive t trim content :: tokens := rfl
          rw [hpush, splitBlanks_cons, hcons, hempty]
          cases hclass : blankClass? c <;> simp [splitBlanks, pushRun, hclass, pushPlain]
      | _ => simp [IsPiece, Token.isDirective] at hpiece

theorem factored_splitBlanks (source : Text) : Factored (splitBlanks (splitDirectives source)) := by
  induction source using directivesInduction with
  | nil =>
      rw [splitDirectives_nil]
      exact factored_nil
  | directive inside rest h ih =>
      rw [splitDirectives_inBraces h]
      refine ih.cons (by simp [Token.ofInside, IsPart, inBraces]) ?_
      intro second _
      exact trivial
  | cons c t h ih =>
      rw [splitDirectives_cons h, splitBlanks_pushPlain c isPiece_of_mem_splitDirectives]
      exact ih.pushRun c

theorem isDirective_of_mem_pushRun {c : Char} {tokens : List (Token .raw)}
    (h : ∀ token ∈ tokens, token.isDirective = false) :
    ∀ token ∈ pushRun c tokens, token.isDirective = false := by
  unfold pushRun
  split
  · split
    · exact List.forall_mem_cons.mpr ⟨rfl, (List.forall_mem_cons.mp h).2⟩
    · exact List.forall_mem_cons.mpr ⟨rfl, h⟩
  · exact List.forall_mem_cons.mpr ⟨rfl, h⟩
  · unfold pushPlain
    split
    · exact List.forall_mem_cons.mpr ⟨rfl, (List.forall_mem_cons.mp h).2⟩
    · exact List.forall_mem_cons.mpr ⟨rfl, h⟩

theorem isDirective_of_mem_splitRuns {t : Text} :
    ∀ token ∈ splitRuns t, token.isDirective = false := by
  induction t with
  | nil => simp [splitRuns_nil]
  | cons c t ih =>
      rw [splitRuns_cons]
      exact isDirective_of_mem_pushRun ih

/-- White space is cut out between the directives, which stay where they are. -/
theorem directiveAt_splitBlanks {tokens : List (Token .raw)} {offset : Nat} {token : Token .raw} :
    DirectiveAt (splitBlanks tokens) offset token ↔ DirectiveAt tokens offset token := by
  induction tokens generalizing offset with
  | nil => rfl
  | cons first tokens ih =>
      have hkept : splitBlanks (first :: tokens) = first :: splitBlanks tokens →
          (DirectiveAt (splitBlanks (first :: tokens)) offset token ↔
            DirectiveAt (first :: tokens) offset token) := by
        intro heq
        rw [heq, directiveAt_cons, directiveAt_cons]
        simp only [ih]
      cases first with
      | plain t =>
          have hruns : splitBlanks (.plain t :: tokens) = splitRuns t ++ splitBlanks tokens := rfl
          rw [hruns, directiveAt_append isDirective_of_mem_splitRuns, textOf_splitRuns,
            directiveAt_plain]
          simp only [ih]
      | _ => exact hkept rfl

/-- The first two passes cut a template into its parts. No text is lost. A directive is made
at an offset that no earlier one covers exactly when opening braces stand there, and the
first closing braces behind them come before any line feed; its text runs through these, and
its trim and content are told by the tildes at the ends of its inside. Cutting out the white
space leaves the directives where they are; every part is then a directive, white space of
one class or text without white space, none is empty, and no two neighbours could be one. -/
theorem template_factoring (source : Text) :
    textOf (splitDirectives source) = source ∧
    textOf (splitBlanks (splitDirectives source)) = source ∧
    (∀ offset, (∃ token, DirectiveAt (splitDirectives source) offset token) ↔
      ¬ Covered (splitDirectives source) offset ∧
        ∃ inside, OpensDirective (source.drop offset) inside) ∧
    (∀ offset token, DirectiveAt (splitDirectives source) offset token →
      ∃ inside, OpensDirective (source.drop offset) inside ∧
        token = .directive (inBraces inside) (sides inside).1 (sides inside).2) ∧
    (∀ offset token, DirectiveAt (splitBlanks (splitDirectives source)) offset token ↔
      DirectiveAt (splitDirectives source) offset token) ∧
    Factored (splitBlanks (splitDirectives source)) := by
  refine ⟨textOf_splitDirectives source, ?_, exists_directiveAt_iff source, ?_,
    fun offset token => directiveAt_splitBlanks, factored_splitBlanks source⟩
  · rw [textOf_splitBlanks, textOf_splitDirectives]
  · intro offset token hat
    obtain ⟨inside, hopens, rfl⟩ := hat.exists_inside
    exact ⟨inside, hopens, rfl⟩

end CommentMacro.Template
