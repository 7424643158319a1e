import CommentMacro.Document.Declaration
import CommentMacro.Proofs.Pattern.Shapes

/-!
# How the pattern of a declaration matches

A definition is a header with body lines behind it, as many as there are, and a call is
a run of plain lines (`attempts_declaration`). Which lines belong to a body or to a call is
told by the kinds of their tokens (`readsWords_bodyLine`, `readsWords_plainLine`): these are
words that end with their only line break, so each is gone through as it stands
(`ReadsWords.takes`), and where no such line stands a body or a call ends.
-/

namespace CommentMacro.Document

open Pattern

/-! ## Headers and calls -/

def plainLine : Pattern :=
  .alt [.word ['C', 'X', 'R'], .word ['C', 'R']]

def headed (name w : Text) : Pattern :=
  .capture name (.both (.word w) (.both (.plus bodyLine) .empty))

theorem declaration_eq :
    declaration =
      .either (headed macroName ['C', 'M', 'R'])
        (.either (headed tableName ['C', 'T', 'R'])
          (.either (.capture invocationName (.plus plainLine)) .never)) :=
  rfl

/-- What a declaration remembers of its lines. -/
def declaredHit (name : Text) (length : Nat) : Hit :=
  ⟨length, [⟨name, 0, length⟩]⟩

theorem head?_attempts_capture {l : List Kind} {p : Pattern} {length : Nat} (name : Text)
    (h : (attempts l.toArray p 0).head? = some ⟨length, []⟩) :
    (attempts l.toArray (.capture name p) 0).head? = some (declaredHit name length) := by
  rw [attempts, List.head?_map, h]
  rfl

theorem attempts_plus_eq_nil {q : Pattern} {l : List Kind} (h : attempts l.toArray q 0 = []) :
    attempts l.toArray (.plus q) 0 = [] := by
  rw [plus, attempts_repeated, h]
  rfl

theorem head?_attempts_headed (name w : Text) {l : Text} {length : Nat}
    (h : (attempts l.toArray (.plus bodyLine) 0).head? = some ⟨length, []⟩) :
    (attempts (w ++ l).toArray (headed name w) 0).head? =
      some (declaredHit name (w.length + length)) := by
  obtain ⟨others, hways⟩ := List.head?_eq_some_iff.mp h
  have hword : w.isPrefixOf (w ++ l) = true :=
    List.isPrefixOf_iff_prefix.mpr (List.prefix_append _ _)
  have hbehind := attempts_append_left w l (.plus bodyLine) 0
  rw [Nat.add_zero, hways] at hbehind
  apply head?_attempts_capture
  simp [attempts, attempts_word, hword, hbehind, Hit.shift, Hit.after]

theorem attempts_headed_eq_nil {name w l : Text} (h : w.isPrefixOf l = false) :
    attempts l.toArray (headed name w) 0 = [] := by
  simp [headed, attempts, attempts_word, h]

/-- A header without a body is no definition. -/
theorem attempts_headed_append_eq_nil (name w : Text) {l : Text}
    (h : attempts l.toArray bodyLine 0 = []) :
    attempts (w ++ l).toArray (headed name w) 0 = [] := by
  have hword : w.isPrefixOf (w ++ l) = true :=
    List.isPrefixOf_iff_prefix.mpr (List.prefix_append _ _)
  have hbehind := attempts_append_left w l (.plus bodyLine) 0
  rw [Nat.add_zero, attempts_plus_eq_nil h] at hbehind
  simp [headed, attempts, attempts_word, hword, hbehind]

theorem attempts_declaration (l : List Kind) :
    attempts l.toArray declaration 0 =
      attempts l.toArray (headed macroName ['C', 'M', 'R']) 0 ++
        (attempts l.toArray (headed tableName ['C', 'T', 'R']) 0 ++
          attempts l.toArray (.capture invocationName (.plus plainLine)) 0) := by
  rw [declaration_eq]
  simp only [attempts, attempts_never, List.append_nil]

theorem head?_attempts_macro {l : Text} {length : Nat}
    (h : (attempts l.toArray (.plus bodyLine) 0).head? = some ⟨length, []⟩) :
    (attempts (['C', 'M', 'R'] ++ l).toArray declaration 0).head? =
      some (declaredHit macroName (3 + length)) := by
  rw [attempts_declaration, List.head?_append, head?_attempts_headed macroName _ h]
  rfl

theorem head?_attempts_table {l : Text} {length : Nat}
    (h : (attempts l.toArray (.plus bodyLine) 0).head? = some ⟨length, []⟩) :
    (attempts (['C', 'T', 'R'] ++ l).toArray declaration 0).head? =
      some (declaredHit tableName (3 + length)) := by
  rw [attempts_declaration, attempts_headed_eq_nil rfl, List.nil_append, List.head?_append,
    head?_attempts_headed tableName _ h]
  rfl

theorem head?_attempts_call {l : Text} {length : Nat}
    (hfirst : ['C', 'M', 'R'].isPrefixOf l = false)
    (hsecond : ['C', 'T', 'R'].isPrefixOf l = false)
    (h : (attempts l.toArray (.plus plainLine) 0).head? = some ⟨length, []⟩) :
    (attempts l.toArray declaration 0).head? = some (declaredHit invocationName length) := by
  rw [attempts_declaration, attempts_headed_eq_nil hfirst, attempts_headed_eq_nil hsecond]
  exact head?_attempts_capture invocationName h

/-! ## Words that are lines -/

/-- A word of kinds that holds no line break but the one at its end. -/
def LineWord (w : Text) : Prop :=
  'R' ∉ w.dropLast ∧ w.getLast? = some 'R'

instance (w : Text) : Decidable (LineWord w) :=
  inferInstanceAs (Decidable (_ ∧ _))

theorem LineWord.ne_nil {w : Text} (h : LineWord w) : w ≠ [] := by
  rintro rfl
  simpa using h.2

theorem concat_isPrefix_iff {k : Kind} {w u v : Text} (hw : k ∉ w) (hu : k ∉ u) :
    w ++ [k] <+: u ++ k :: v ↔ w = u := by
  constructor
  · intro h
    induction w generalizing u with
    | nil =>
        cases u with
        | nil => rfl
        | cons d u =>
            obtain rfl := (List.cons_prefix_cons.mp h).1
            exact absurd List.mem_cons_self hu
    | cons c w ih =>
        rw [List.mem_cons, not_or] at hw
        cases u with
        | nil => exact absurd (List.cons_prefix_cons.mp h).1.symm hw.1
        | cons d u =>
            rw [List.mem_cons, not_or] at hu
            obtain ⟨rfl, hrest⟩ := List.cons_prefix_cons.mp h
            rw [ih hw.2 hu.2 hrest]
  · rintro rfl
    exact ⟨v, by simp⟩

/-- Of two lines the one stands in front of what starts with the other only if they are the
same. -/
theorem LineWord.isPrefix_append_iff {w u : Text} (hw : LineWord w) (hu : LineWord u)
    (v : Text) : w <+: u ++ v ↔ u = w := by
  obtain ⟨w, rfl⟩ := List.getLast?_eq_some_iff.mp hw.2
  obtain ⟨u, rfl⟩ := List.getLast?_eq_some_iff.mp hu.2
  have hw := hw.1
  have hu := hu.1
  rw [List.dropLast_concat] at hw hu
  rw [List.append_assoc, List.singleton_append, concat_isPrefix_iff hw hu,
    List.append_cancel_right_eq, eq_comm]

/-- A pattern goes through one of some words of kinds, and remembers nothing. -/
def ReadsWords (q : Pattern) (words : List Text) : Prop :=
  ∀ l : List Kind, attempts l.toArray q 0 =
    words.flatMap fun w => if w <+: l then [⟨w.length, []⟩] else []

section

variable {q : Pattern} {words : List Text} (h : ReadsWords q words)
include h

theorem ReadsWords.eq_nil {l : List Kind} (hnone : ∀ w ∈ words, ¬ w <+: l) :
    attempts l.toArray q 0 = [] := by
  rw [h, List.flatMap_eq_nil_iff]
  intro w hmem
  simp [hnone w hmem]

/-- A line that is one of the words is gone through first. -/
theorem ReadsWords.takes (hlines : ∀ w ∈ words, LineWord w) {w : Text} (hw : w ∈ words) :
    Takes q w where
  ne_nil := (hlines w hw).ne_nil
  head? later := by
    have hmem : (⟨w.length, []⟩ : Hit) ∈ attempts (w ++ later).toArray q 0 := by
      rw [h, List.mem_flatMap]
      exact ⟨w, hw, by simp⟩
    -- no other word stands there
    have hall : ∀ hit ∈ attempts (w ++ later).toArray q 0, hit = ⟨w.length, []⟩ := by
      intro hit hhit
      rw [h, List.mem_flatMap] at hhit
      obtain ⟨u, hu, hhit⟩ := hhit
      split at hhit
      · next hfront =>
          rw [(hlines u hu).isPrefix_append_iff (hlines w hw)] at hfront
          rw [hfront]
          exact List.mem_singleton.mp hhit
      · simp at hhit
    cases hways : attempts (w ++ later).toArray q 0 with
    | nil =>
        rw [hways] at hmem
        simp at hmem
    | cons hit others =>
        rw [List.head?_cons, hall hit (hways ▸ List.mem_cons_self)]

end

/-! ## Lines of a body and of a call -/

def bodyWords : List Text :=
  [['C', '2', 'X', 'R'], ['C', '2', 'R'], ['C', 'R']]

def callWords : List Text :=
  [['C', 'X', 'R'], ['C', 'R']]

theorem readsWords_bodyLine : ReadsWords bodyLine bodyWords := by
  have hshape : bodyLine =
      .either (.both (.word ['C', '2']) (.both (.optional (.kind 'X')) (.both (.kind 'R') .empty)))
        (.either (.word ['C', 'R']) .never) :=
    rfl
  intro l
  rw [hshape]
  simp only [attempts, attempts_never, attempts_word, attempts_optional_kind, attempts_kind]
  by_cases hindent : ['C', '2'] <+: l
  · obtain ⟨behind, rfl⟩ := hindent
    rcases behind with _ | ⟨c, behind⟩
    · simp [bodyWords]
    · by_cases hplain : c = 'X'
      · subst hplain
        rcases behind with _ | ⟨d, behind⟩
        · simp [bodyWords]
        · by_cases hbreak : d = 'R'
          · simp [bodyWords, Hit.after, hbreak]
          · simp [bodyWords, hbreak, Ne.symm hbreak]
      · by_cases hbreak : c = 'R'
        · simp [bodyWords, Hit.after, hbreak]
        · simp [bodyWords, hplain, Ne.symm hplain, hbreak, Ne.symm hbreak]
  · have hlonger : ∀ w, ['C', '2'] <+: w → ¬ w <+: l := by
      intro w hw hbegins
      exact hindent (hw.trans hbegins)
    simp [bodyWords, hindent, hlonger ['C', '2', 'X', 'R'] (by decide),
      hlonger ['C', '2', 'R'] (by decide)]

theorem readsWords_plainLine : ReadsWords plainLine callWords := by
  have hshape : plainLine =
      .either (.word ['C', 'X', 'R']) (.either (.word ['C', 'R']) .never) :=
    rfl
  intro l
  rw [hshape]
  simp [attempts, attempts_word, callWords]

theorem attempts_bodyLine_eq_nil {k : Kind} (h : k ∉ ['2', 'R']) (l : Text) :
    attempts ('C' :: k :: l).toArray bodyLine 0 = [] := by
  simp only [List.mem_cons, List.not_mem_nil, or_false, not_or] at h
  apply readsWords_bodyLine.eq_nil
  simp [bodyWords, Ne.symm h.1, Ne.symm h.2]

theorem attempts_plainLine_eq_nil {k : Kind} (h : k ∉ ['X', 'R']) (l : Text) :
    attempts ('C' :: k :: l).toArray plainLine 0 = [] := by
  simp only [List.mem_cons, List.not_mem_nil, or_false, not_or] at h
  apply readsWords_plainLine.eq_nil
  simp [callWords, Ne.symm h.1, Ne.symm h.2]

end CommentMacro.Document
