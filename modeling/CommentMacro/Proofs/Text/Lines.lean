import CommentMacro.Text.Basic
import Mathlib.Data.List.Basic

/-!
# A text, line by line

`Text.splitLines` cuts a text at its line ends. Read from the front, a text is a line
that nothing follows, or a line with its line end (`IsLine`) and a text behind it
(`linesInduction`); in either case that line is the first one (`splitLines_of_not_mem`,
`splitLines_line`).
-/

namespace CommentMacro

namespace Text

/-- A line, and what ends it: a line feed and the carriage return directly before it, if
there is one. -/
structure IsLine (line stop : Text) : Prop where
  no_feed : '\n' ∉ line
  stop_eq : stop = ['\n'] ∨ stop = ['\r', '\n']
  no_return : stop = ['\n'] → line.getLast? ≠ some '\r'

variable {line stop : Text}

theorem IsLine.of_cons {c : Char} (h : IsLine (c :: line) stop) : IsLine line stop where
  no_feed hmem := h.no_feed (List.mem_cons_of_mem _ hmem)
  stop_eq := h.stop_eq
  no_return := by
    intro hstop hlast
    apply h.no_return hstop
    rw [List.getLast?_cons, hlast]
    rfl

/-- No line end starts within a line. -/
theorem IsLine.head?_ne {c : Char} (h : IsLine (c :: line) stop) (rest : Text) :
    c ≠ '\n' ∧ (c = '\r' → (line ++ (stop ++ rest)).head? ≠ some '\n') := by
  have hfeed := h.no_feed
  rw [List.mem_cons, not_or] at hfeed
  refine ⟨Ne.symm hfeed.1, ?_⟩
  rintro rfl
  cases line with
  | nil =>
      rcases h.stop_eq with rfl | rfl
      · exact absurd rfl (h.no_return rfl)
      · simp
  | cons d line =>
      intro heq
      apply hfeed.2
      rw [← Option.some.inj heq]
      exact List.mem_cons_self

/-- What is left of a line behind its beginning. -/
theorem IsLine.of_append {front : Text} (h : IsLine (front ++ line) stop) : IsLine line stop := by
  induction front with
  | nil => exact h
  | cons c front ih => exact ih h.of_cons

/-! ## The first line -/

theorem splitLines_ne_nil (t : Text) : splitLines t ≠ [] := by
  fun_induction splitLines t <;> simp_all

/-- A character in front of a text goes to its first line. -/
theorem splitLines_cons {c : Char} {t : Text} (hfeed : c ≠ '\n')
    (hreturn : c = '\r' → t.head? ≠ some '\n') :
    ∃ line lines, splitLines t = line :: lines ∧ splitLines (c :: t) = (c :: line) :: lines := by
  obtain ⟨line, lines, hlines⟩ := List.exists_cons_of_ne_nil (splitLines_ne_nil t)
  refine ⟨line, lines, hlines, ?_⟩
  unfold splitLines
  split
  · next heq => simp at heq
  · next heq =>
      obtain ⟨rfl, rfl⟩ := List.cons.inj heq
      exact absurd rfl (hreturn rfl)
  · next heq => exact absurd (List.cons.inj heq).1 hfeed
  · next heq =>
      obtain ⟨rfl, rfl⟩ := List.cons.inj heq
      rw [hlines]

theorem splitLines_of_not_mem (h : '\n' ∉ line) : splitLines line = [line] := by
  induction line with
  | nil => rfl
  | cons c line ih =>
      rw [List.mem_cons, not_or] at h
      have hreturn : c = '\r' → line.head? ≠ some '\n' :=
        fun _ hhead => h.2 (List.mem_of_head? hhead)
      obtain ⟨first, lines, hlines, hcons⟩ := splitLines_cons (Ne.symm h.1) hreturn
      rw [ih h.2] at hlines
      obtain ⟨rfl, rfl⟩ := List.cons.inj hlines
      exact hcons

/-- A line in front of a text, with its line end between them, is the first one. -/
theorem splitLines_line (h : IsLine line stop) (rest : Text) :
    splitLines (line ++ (stop ++ rest)) = line :: splitLines rest := by
  induction line with
  | nil => rcases h.stop_eq with rfl | rfl <;> rfl
  | cons c line ih =>
      obtain ⟨hfeed, hreturn⟩ := h.head?_ne rest
      obtain ⟨first, lines, hlines, hcons⟩ := splitLines_cons hfeed hreturn
      rw [ih h.of_cons] at hlines
      obtain ⟨rfl, rfl⟩ := List.cons.inj hlines
      exact hcons

/-- A text is a single line, or begins with one that has a line end. -/
theorem exists_line (t : Text) :
    '\n' ∉ t ∨ ∃ line stop rest, t = line ++ (stop ++ rest) ∧ IsLine line stop := by
  by_cases hmem : '\n' ∈ t
  · obtain ⟨front, rest, rfl, hfeed⟩ := List.eq_append_cons_of_mem hmem
    apply Or.inr
    by_cases hlast : front.getLast? = some '\r'
    · obtain ⟨line, rfl⟩ := List.getLast?_eq_some_iff.mp hlast
      refine ⟨line, ['\r', '\n'], rest, by simp, ?_, Or.inr rfl, by simp⟩
      exact fun hmem => hfeed (List.mem_append_left _ hmem)
    · exact ⟨front, ['\n'], rest, rfl, hfeed, Or.inl rfl, fun _ => hlast⟩
  · exact Or.inl hmem

/-- What holds of a single line, and of a line with its line end in front of a text of
which it holds, holds of every text. -/
@[elab_as_elim]
theorem linesInduction {motive : Text → Prop} (last : ∀ line, '\n' ∉ line → motive line)
    (line : ∀ line stop rest, IsLine line stop → motive rest → motive (line ++ (stop ++ rest)))
    (t : Text) : motive t := by
  induction hlength : t.length using Nat.strongRecOn generalizing t with
  | ind n ih =>
      subst hlength
      rcases exists_line t with hfeed | ⟨first, stop, rest, rfl, hfirst⟩
      · exact last t hfeed
      · refine line first stop rest hfirst (ih rest.length ?_ rest rfl)
        have hpos : 0 < stop.length := by
          rcases hfirst.stop_eq with rfl | rfl <;> simp
        rw [List.length_append, List.length_append]
        omega

/-- The lines of a text hold no line feed. -/
theorem lineFeed_not_mem_of_mem_splitLines {t line : Text} (h : line ∈ splitLines t) :
    '\n' ∉ line := by
  induction t using linesInduction with
  | last single hfeed =>
      rw [splitLines_of_not_mem hfeed, List.mem_singleton] at h
      rwa [h]
  | line first stop rest hfirst ih =>
      rw [splitLines_line hfirst] at h
      rcases List.mem_cons.mp h with rfl | h
      · exact hfirst.no_feed
      · exact ih h

end Text

end CommentMacro
