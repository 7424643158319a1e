import CommentMacro.Proofs.Template.Directives

/-!
# Runs of white space

Cut at its white space, a text is told character by character from the end: a character
joins the run or the plain text behind it if that is of its own class, and otherwise
begins a token of its own (`pushRun`). The pattern, which takes each run in one match,
gives the same tokens (`splitRuns_cons`).
-/

namespace CommentMacro.Template

open Pattern

/-! ## The classes of white space -/

/-- The class of white space that a character belongs to. -/
def blankClass? : Char → Option Kind
  | ' ' => some 'S'
  | '\t' => some 'T'
  | '\n' => some 'N'
  | '\r' => some 'N'
  | _ => none

def blankChars : Kind → Text
  | 'S' => [' ']
  | 'T' => ['\t']
  | _ => ['\r', '\n']

/-- The three classes of white space. -/
theorem class_cases {c : Char} {k : Kind} (h : blankClass? c = some k) :
    (k = 'S' ∧ c = ' ') ∨ (k = 'T' ∧ c = '\t') ∨ k = 'N' ∧ (c = '\r' ∨ c = '\n') := by
  unfold blankClass? at h
  split at h
  · exact Or.inl ⟨(Option.some.inj h).symm, rfl⟩
  · exact Or.inr (Or.inl ⟨(Option.some.inj h).symm, rfl⟩)
  · exact Or.inr (Or.inr ⟨(Option.some.inj h).symm, Or.inr rfl⟩)
  · exact Or.inr (Or.inr ⟨(Option.some.inj h).symm, Or.inl rfl⟩)
  · simp at h

theorem blankKind_of_blankClass? {c : Char} {k : Kind} (h : blankClass? c = some k) (t : Text) :
    blankKind (c :: t) = k := by
  rcases class_cases h with ⟨rfl, rfl⟩ | ⟨rfl, rfl⟩ | ⟨rfl, rfl | rfl⟩ <;> rfl

/-- The run of a class at the start of a text. -/
def runOf (k : Kind) (t : Text) : Text :=
  t.takeWhile (blankChars k).contains

theorem mem_classes {c : Char} {k : Kind} (h : blankClass? c = some k) : k ∈ ['S', 'T', 'N'] := by
  rcases class_cases h with ⟨rfl, -⟩ | ⟨rfl, -⟩ | ⟨rfl, -⟩ <;> simp

theorem contains_blankChars {k : Kind} (hk : k ∈ ['S', 'T', 'N']) (c : Char) :
    (blankChars k).contains c = (blankClass? c == some k) := by
  simp only [List.mem_cons, List.not_mem_nil, or_false] at hk
  rcases hk with rfl | rfl | rfl <;> unfold blankClass? <;> split <;> simp_all [blankChars]

theorem runOf_cons {k : Kind} (hk : k ∈ ['S', 'T', 'N']) (c : Char) (t : Text) :
    runOf k (c :: t) = if blankClass? c = some k then c :: runOf k t else [] := by
  rw [runOf, List.takeWhile_cons, contains_blankChars hk]
  simp only [beq_iff_eq]
  rfl

/-- Puts a character before the tokens, into the run they begin with if it is of
the same class. -/
def pushRun (c : Char) (tokens : List (Token .raw)) : List (Token .raw) :=
  match blankClass? c, tokens with
  | some k, .blank run :: rest =>
    if blankKind run = k then .blank (c :: run) :: rest else .blank [c] :: .blank run :: rest
  | some _, tokens => .blank [c] :: tokens
  | none, tokens => pushPlain c tokens

theorem textOf_pushRun (c : Char) (tokens : List (Token .raw)) :
    textOf (pushRun c tokens) = c :: textOf tokens := by
  unfold pushRun
  split
  · split <;> simp [textOf, Token.text]
  · simp [textOf, Token.text]
  · exact textOf_pushPlain c _

/-! ## The match at the front -/

theorem head?_attempts_class (k : Kind) (t : Text) :
    (attempts t.toArray (plus (kinds (blankChars k))) 0).head? =
      if runOf k t = [] then none else some ⟨(runOf k t).length, []⟩ := by
  split
  · next hnil => rw [attempts_run_eq_nil hnil, List.head?_nil]
  · next hne => exact head?_attempts_run hne

/-- The match at the front is the whole run, whatever its class. -/
theorem matchAt?_blankPattern (t : Text) :
    blankPattern.matchAt? t.toArray 0 = (t.head?.bind blankClass?).map fun k =>
      ⟨0, (runOf k t).length, []⟩ := by
  have hclasses : blankPattern = .alt (['S', 'T', 'N'].map fun k => plus (kinds (blankChars k))) :=
    rfl
  rw [matchAt?_eq, hclasses, attempts_alt, List.flatMap_map, List.head?_flatMap]
  simp only [head?_attempts_class]
  cases t with
  | nil => rfl
  | cons c t =>
      rw [List.head?_cons, Option.bind_some]
      cases hclass : blankClass? c with
      | none => simp [runOf_cons, hclass]
      | some k =>
          rcases class_cases hclass with ⟨rfl, -⟩ | ⟨rfl, -⟩ | ⟨rfl, -⟩ <;>
            simp [runOf_cons, hclass]

/-! ## Cutting from the front -/

theorem blankOf_append (front source : Text) (m : Match) :
    blankOf (front ++ source) (m.shift front.length) = blankOf source m := by
  rw [blankOf, blankOf, items_shift]

theorem splitRuns_nil : splitRuns [] = [] := by
  have hmatch : blankPattern.matchAt? #[] 0 = none := matchAt?_blankPattern []
  rw [splitRuns, cutPlain, chunk, segments_nil hmatch]
  rfl

/-- A run at the start of a text is read to its end. -/
theorem splitRuns_run {c : Char} {k : Kind} (h : blankClass? c = some k) (t : Text) :
    splitRuns (c :: t) =
      .blank (c :: runOf k t) :: splitRuns (t.dropWhile (blankChars k).contains) := by
  have hk := mem_classes h
  have hrun : runOf k (c :: t) = c :: runOf k t := by rw [runOf_cons hk, if_pos h]
  have hsplit : c :: t = (c :: runOf k t) ++ t.dropWhile (blankChars k).contains := by
    rw [List.cons_append, runOf, List.takeWhile_append_dropWhile]
  have hmatch := matchAt?_blankPattern (c :: t)
  rw [List.head?_cons, Option.bind_some, h, Option.map_some, hrun, hsplit] at hmatch
  have hcut := cutPlain_append blankOf_append hmatch rfl (List.cons_ne_nil _ _)
  rw [← hsplit] at hcut
  rw [splitRuns, hcut, hsplit]
  simp [blankOf, Match.items, Text.slice, splitRuns]

theorem splitRuns_plain {c : Char} (h : blankClass? c = none) (t : Text) :
    splitRuns (c :: t) = pushPlain c (splitRuns t) := by
  have hmatch := matchAt?_blankPattern (c :: t)
  rw [List.head?_cons, Option.bind_some, h] at hmatch
  exact cutPlain_cons blankOf_append hmatch fun m _ => ⟨_, [], rfl, by simp⟩

theorem splitRuns_cons (c : Char) (t : Text) : splitRuns (c :: t) = pushRun c (splitRuns t) := by
  cases hclass : blankClass? c with
  | none =>
      simp only [pushRun, hclass]
      exact splitRuns_plain hclass t
  | some k =>
      have hk := mem_classes hclass
      rw [splitRuns_run hclass]
      cases t with
      | nil => simp [runOf, splitRuns_nil, pushRun, hclass]
      | cons d t =>
          by_cases hsame : blankClass? d = some k
          · -- the run goes on
            have hcontains : (blankChars k).contains d = true := by
              rw [contains_blankChars hk, hsame, BEq.rfl]
            have hkind : blankKind (d :: runOf k t) = k := blankKind_of_blankClass? hsame _
            rw [splitRuns_run hsame, runOf_cons hk, if_pos hsame,
              List.dropWhile_cons_of_pos hcontains]
            simp [pushRun, hclass, hkind]
          · -- the run ends here
            have hcontains : ¬ (blankChars k).contains d = true := by
              rw [contains_blankChars hk]
              simpa using hsame
            rw [runOf_cons hk, if_neg hsame, List.dropWhile_cons_of_neg hcontains]
            cases hother : blankClass? d with
            | none =>
                rw [splitRuns_plain hother]
                unfold pushPlain
                split <;> simp [pushRun, hclass]
            | some k' =>
                have hkind : blankKind (d :: runOf k' t) = k' := blankKind_of_blankClass? hother _
                have hne : k' ≠ k := fun heq => hsame (heq ▸ hother)
                rw [splitRuns_run hother]
                simp [pushRun, hclass, hkind, hne]

/-! ## Nothing is lost -/

theorem textOf_splitRuns (t : Text) : textOf (splitRuns t) = t := by
  induction t with
  | nil => rw [splitRuns_nil]; rfl
  | cons c t ih => rw [splitRuns_cons, textOf_pushRun, ih]

/-- Cutting out the white space keeps the text of the tokens. -/
theorem textOf_splitBlanks (tokens : List (Token .raw)) :
    textOf (splitBlanks tokens) = textOf tokens := by
  induction tokens with
  | nil => rfl
  | cons token tokens ih =>
      simp only [textOf, splitBlanks, List.flatMap_cons, List.flatMap_append] at ih ⊢
      rw [ih]
      congr 1
      cases token with
      | plain t => exact textOf_splitRuns t
      | _ => simp [Token.text]

end CommentMacro.Template
