/-!
# Text

A text is the list of its characters, so that a position counts code points and
every scan is a recursion on the data. The module holds the cuts that the rest of
the library shares.
-/

namespace CommentMacro

abbrev Text := List Char

namespace Text

/-- What follows `head` in a text that begins with it. -/
def after? : (head : Text) → Text → Option Text
  | [], t => some t
  | _ :: _, [] => none
  | h :: head, c :: t => if h = c then after? head t else none

theorem after?_append (head t : Text) : after? head (head ++ t) = some t := by
  induction head with
  | nil => rfl
  | cons h head ih => simp [after?, ih]

theorem eq_append_of_after? {head t rest : Text} (h : after? head t = some rest) :
    t = head ++ rest := by
  induction head generalizing t with
  | nil => simpa [after?] using h
  | cons x head ih =>
      cases t with
      | nil => simp [after?] at h
      | cons c t =>
          simp only [after?] at h
          split at h
          · next hx => subst hx; simp [ih h]
          · simp at h

theorem after?_append_left (first second t : Text) :
    after? (first ++ second) t = (after? first t).bind (after? second) := by
  induction first generalizing t with
  | nil => rfl
  | cons h first ih =>
      cases t with
      | nil => rfl
      | cons c t =>
          rw [List.cons_append, after?, after?, ih]
          split <;> rfl

theorem isPrefixOf_eq (head t : Text) : head.isPrefixOf t = (after? head t).isSome := by
  induction head generalizing t with
  | nil => simp [after?]
  | cons c head ih =>
      cases t with
      | nil => rfl
      | cons d t =>
          by_cases hc : c = d
          · simp [List.isPrefixOf, after?, hc, ih]
          · simp [List.isPrefixOf, after?, hc]

/-- The pieces of a text between the characters that `p` accepts. There is
one piece more than there are such characters. -/
def splitBy (p : Char → Bool) : Text → List Text
  | [] => [[]]
  | c :: t =>
    if p c then [] :: splitBy p t
    else match splitBy p t with
      | [] => [[c]]
      | piece :: pieces => (c :: piece) :: pieces

/-- The lines of a text: it is cut at every line feed, and a carriage return
directly before the line feed belongs to the cut. -/
def splitLines : Text → List Text
  | [] => [[]]
  | '\r' :: '\n' :: t => [] :: splitLines t
  | '\n' :: t => [] :: splitLines t
  | c :: t => match splitLines t with
    | [] => [[c]]
    | line :: lines => (c :: line) :: lines

theorem splitBy_ne_nil (p : Char → Bool) (t : Text) : splitBy p t ≠ [] := by
  cases t with
  | nil => simp [splitBy]
  | cons c t =>
      simp only [splitBy]
      split
      · simp
      · split <;> simp

/-- The characters from offset `start` up to offset `stop`. -/
def slice {α : Type} (t : List α) (start stop : Nat) : List α :=
  (t.drop start).take (stop - start)

theorem slice_append {α : Type} (first middle last : List α) :
    slice (first ++ (middle ++ last)) first.length (first.length + middle.length) = middle := by
  rw [slice, List.drop_left, Nat.add_sub_cancel_left, List.take_left]

/-- An element cuts a list in two. -/
theorem exists_append_of_getElem? {α : Type} {t : List α} {i : Nat} {x : α} (h : t[i]? = some x) :
    ∃ front behind, t = front ++ x :: behind ∧ front.length = i := by
  obtain ⟨hlt, hget⟩ := List.getElem?_eq_some_iff.mp h
  refine ⟨t.take i, t.drop (i + 1), ?_, ?_⟩
  · rw [← hget, List.getElem_cons_drop, List.take_append_drop]
  · rw [List.length_take]
    omega

def ofNat (n : Nat) : Text := Nat.toDigits 10 n

/-- The decimal digits of an integer, after a minus sign if it is negative. -/
def ofInt : Int → Text
  | .ofNat n => ofNat n
  | .negSucc n => '-' :: ofNat (n + 1)

def join (separator : Text) : List Text → Text
  | [] => []
  | [t] => t
  | t :: ts => t ++ separator ++ join separator ts

end Text

end CommentMacro
