import CommentMacro.Proofs.Text.Lines
import CommentMacro.Proofs.Text.Words
import CommentMacro.Text.Quoted
import Mathlib.Data.List.Forall2
import Mathlib.Data.List.Induction

/-!
# Line feeds written with a carriage return

A text may end its lines with a line feed alone, or with a carriage return and a line
feed. `Text.crlf` turns the one into the other. Whatever does not look at line ends does
not see the difference, and neither does what takes both for the same.
-/

namespace CommentMacro

namespace Text

/-- A text with a carriage return in front of every line feed. -/
def crlf (t : Text) : Text :=
  t.flatMap fun c => if c = '\n' then ['\r', '\n'] else [c]

@[simp] theorem crlf_nil : crlf [] = [] :=
  rfl

theorem crlf_append (first second : Text) : crlf (first ++ second) = crlf first ++ crlf second :=
  List.flatMap_append

theorem crlf_lineFeed (t : Text) : crlf ('\n' :: t) = '\r' :: '\n' :: crlf t :=
  rfl

theorem crlf_cons {c : Char} (h : c ≠ '\n') (t : Text) : crlf (c :: t) = c :: crlf t := by
  rw [crlf, List.flatMap_cons, if_neg h]
  rfl

theorem crlf_of_not_mem {t : Text} (h : '\n' ∉ t) : crlf t = t := by
  induction t with
  | nil => rfl
  | cons c t ih =>
      rw [List.mem_cons, not_or] at h
      rw [crlf_cons (Ne.symm h.1), ih h.2]

theorem crlf_flatMap {α : Type} (f : α → Text) (items : List α) :
    crlf (items.flatMap f) = items.flatMap fun item => crlf (f item) := by
  induction items with
  | nil => rfl
  | cons item items ih => rw [List.flatMap_cons, crlf_append, ih, List.flatMap_cons]

/-! ## Beginnings -/

theorem head?_crlf (t : Text) : (crlf t).head? ≠ some '\n' := by
  cases t with
  | nil => simp
  | cons c t =>
      by_cases hc : c = '\n'
      · subst hc
        simp [crlf_lineFeed]
      · simpa [crlf_cons hc] using hc

theorem head?_crlf_eq_some {c : Char} (hreturn : c ≠ '\r') (hfeed : c ≠ '\n') (t : Text) :
    (crlf t).head? = some c ↔ t.head? = some c := by
  cases t with
  | nil => rfl
  | cons d t =>
      by_cases hd : d = '\n'
      · subst hd
        simp [crlf_lineFeed, Ne.symm hreturn, Ne.symm hfeed]
      · rw [crlf_cons hd, List.head?_cons, List.head?_cons]

/-- A text without line ends is found at the beginning all the same. -/
theorem after?_crlf {head : Text} (hreturn : '\r' ∉ head) (hfeed : '\n' ∉ head) (t : Text) :
    after? head (crlf t) = (after? head t).map crlf := by
  induction head generalizing t with
  | nil => rfl
  | cons c head ih =>
      rw [List.mem_cons, not_or] at hreturn hfeed
      cases t with
      | nil => rfl
      | cons d t =>
          by_cases hd : d = '\n'
          · subst hd
            rw [crlf_lineFeed, after?, after?, if_neg (Ne.symm hreturn.1), if_neg (Ne.symm hfeed.1),
              Option.map_none]
          · rw [crlf_cons hd, after?, after?]
            split
            · exact ih hreturn.2 hfeed.2 t
            · rfl

theorem isPrefixOf_crlf {head : Text} (hreturn : '\r' ∉ head) (hfeed : '\n' ∉ head) (t : Text) :
    head.isPrefixOf (crlf t) = head.isPrefixOf t := by
  rw [isPrefixOf_eq, isPrefixOf_eq, after?_crlf hreturn hfeed, Option.isSome_map]

/-! ## What passes over line ends -/

theorem filter_crlf {p : Char → Bool} (hreturn : p '\r' = false) (hfeed : p '\n' = false)
    (t : Text) : (crlf t).filter p = t.filter p := by
  induction t with
  | nil => rfl
  | cons c t ih =>
      by_cases hc : c = '\n'
      · subst hc
        rw [crlf_lineFeed, List.filter_cons_of_neg (by simp [hreturn]),
          List.filter_cons_of_neg (by simp [hfeed]), List.filter_cons_of_neg (by simp [hfeed]), ih]
      · rw [crlf_cons hc, List.filter_cons, List.filter_cons, ih]

theorem dropWhile_crlf {p : Char → Bool} (hreturn : p '\r' = true) (hfeed : p '\n' = true)
    (t : Text) : (crlf t).dropWhile p = crlf (t.dropWhile p) := by
  induction t with
  | nil => rfl
  | cons c t ih =>
      by_cases hc : c = '\n'
      · subst hc
        rw [crlf_lineFeed, List.dropWhile_cons_of_pos hreturn, List.dropWhile_cons_of_pos hfeed,
          List.dropWhile_cons_of_pos hfeed, ih]
      · rw [crlf_cons hc, List.dropWhile_cons, List.dropWhile_cons]
        split
        · exact ih
        · rw [crlf_cons hc]

theorem stripEnd_crlf (t : Text) : stripEnd (crlf t) = crlf (stripEnd t) := by
  induction t using List.reverseRecOn with
  | nil => rfl
  | append_singleton t c ih =>
      cases hc : isBlank c with
      | false =>
          have hfeed : c ≠ '\n' := by
            rintro rfl
            exact absurd hc (by decide)
          rw [stripEnd_append_of_not_blank hc, crlf_append, crlf_cons hfeed, crlf_nil,
            stripEnd_append_of_not_blank hc]
      | true =>
          rw [stripEnd_append_of_blank hc, ← ih, crlf_append]
          by_cases hfeed : c = '\n'
          · subst hfeed
            rw [crlf_lineFeed, crlf_nil, List.append_cons,
              stripEnd_append_of_blank (by decide), stripEnd_append_of_blank (by decide)]
          · rw [crlf_cons hfeed, crlf_nil, stripEnd_append_of_blank hc]

/-- Taking the blanks off both ends does not depend on the line ends. -/
theorem strip_crlf (t : Text) : strip (crlf t) = crlf (strip t) := by
  rw [strip, dropWhile_crlf (by decide) (by decide), stripEnd_crlf, strip]

/-! ## Lines -/

/-- A text has the same lines with both line ends, up to a carriage return at the end of
a line. -/
theorem forall₂_splitLines_crlf (t : Text) :
    List.Forall₂ (fun line line' => line = line' ∨ line = line' ++ ['\r'])
      (splitLines (crlf t)) (splitLines t) := by
  fun_induction splitLines t with
  | case1 => exact .cons (.inl rfl) .nil
  | case2 t ih =>
      -- the second carriage return belongs to the line end, and the first one to the line
      have hfront :
          splitLines ('\r' :: '\r' :: '\n' :: crlf t) = ['\r'] :: splitLines (crlf t) := rfl
      rw [crlf_cons (by decide), crlf_lineFeed, hfront]
      exact .cons (.inr rfl) ih
  | case3 t ih => exact .cons (.inl rfl) ih
  | case4 c t hreturn hfeed hnil ih => exact absurd hnil (splitLines_ne_nil t)
  | case5 c t hreturn hfeed line' lines' hlines ih =>
      obtain ⟨line, lines, hcrlf, hcons⟩ := splitLines_cons hfeed fun _ => head?_crlf t
      rw [hlines, hcrlf] at ih
      rw [crlf_cons hfeed, hcons]
      cases ih with
      | cons hline hlines =>
          refine .cons (hline.imp (fun heq => ?_) fun heq => ?_) hlines
          · rw [heq]
          · rw [heq, List.cons_append]

/-- A piece behind which no separator follows is one longer. -/
theorem splitBy_append_singleton {p : Char → Bool} {c : Char} (hc : p c = false) (t : Text) :
    ∃ front last, splitBy p t = front ++ [last] ∧
      splitBy p (t ++ [c]) = front ++ [last ++ [c]] := by
  induction t with
  | nil => exact ⟨[], [], rfl, by simp [splitBy, hc]⟩
  | cons d t ih =>
      obtain ⟨front, last, ht, htc⟩ := ih
      rw [List.cons_append, splitBy, splitBy, ht, htc]
      cases hd : p d with
      | true => exact ⟨[] :: front, last, by simp, by simp⟩
      | false =>
          cases front with
          | nil => exact ⟨[], d :: last, by simp, by simp⟩
          | cons first front => exact ⟨(d :: first) :: front, last, by simp, by simp⟩

theorem subset_of_mem_splitBy {p : Char → Bool} {t piece : Text} (h : piece ∈ splitBy p t) :
    piece ⊆ t := by
  induction t generalizing piece with
  | nil => simp_all [splitBy]
  | cons c t ih =>
      obtain ⟨first, pieces, hpieces⟩ := List.exists_cons_of_ne_nil (splitBy_ne_nil p t)
      rw [hpieces] at ih
      rw [splitBy, hpieces] at h
      have hlater : ∀ later ∈ first :: pieces, later ⊆ c :: t := fun later hmem =>
        List.subset_cons_of_subset c (ih hmem)
      split at h
      · rcases List.mem_cons.mp h with rfl | h
        · exact List.nil_subset _
        · exact hlater piece h
      · rcases List.mem_cons.mp h with rfl | h
        · exact List.cons_subset_cons c (ih List.mem_cons_self)
        · exact hlater piece (List.mem_cons_of_mem _ h)

theorem strip_subset (t : Text) : strip t ⊆ t := by
  intro c hmem
  rw [strip, stripEnd, List.mem_reverse] at hmem
  have hmem := (List.dropWhile_sublist isBlank).subset hmem
  exact (List.dropWhile_sublist isBlank).subset (List.mem_reverse.mp hmem)

/-! ## Texts without line feeds -/

theorem eq_digitChar_of_mem_toDigitsCore {base fuel n : Nat} {digits : List Char} {c : Char}
    (h : c ∈ Nat.toDigitsCore base fuel n digits) : c ∈ digits ∨ ∃ d, c = Nat.digitChar d := by
  induction fuel generalizing n digits with
  | zero => exact .inl h
  | succ fuel ih =>
      have hfirst : ∀ {later : List Char}, c ∈ Nat.digitChar (n % base) :: later →
          c ∈ later ∨ ∃ d, c = Nat.digitChar d := fun hmem =>
        (List.mem_cons.mp hmem).symm.imp_right fun heq => ⟨_, heq⟩
      rw [Nat.toDigitsCore] at h
      split at h
      · exact hfirst h
      · rcases ih h with h | h
        · exact hfirst h
        · exact .inr h

theorem digitChar_ne_lineFeed (d : Nat) : Nat.digitChar d ≠ '\n' := by
  rcases Nat.lt_or_ge d 16 with hd | hd
  · revert d
    decide
  · unfold Nat.digitChar
    repeat rw [if_neg (by omega)]
    decide

theorem lineFeed_not_mem_toDigits (base n : Nat) : '\n' ∉ Nat.toDigits base n := by
  intro h
  rcases eq_digitChar_of_mem_toDigitsCore h with h | ⟨d, h⟩
  · simp at h
  · exact digitChar_ne_lineFeed d h.symm

theorem lineFeed_not_mem_ofInt (n : Int) : '\n' ∉ ofInt n := by
  cases n with
  | ofNat n => exact lineFeed_not_mem_toDigits 10 n
  | negSucc n =>
      rw [ofInt, List.mem_cons, not_or]
      exact ⟨by decide, lineFeed_not_mem_toDigits 10 (n + 1)⟩

theorem lineFeed_not_mem_hexadecimal (width n : Nat) : '\n' ∉ hexadecimal width n := by
  rw [hexadecimal, List.mem_append, not_or]
  exact ⟨by simp [List.mem_replicate], lineFeed_not_mem_toDigits 16 n⟩

theorem quotationMark_ne_lineFeed (t : Text) : quotationMark t ≠ '\n' := by
  unfold quotationMark
  split <;> decide

theorem lineFeed_not_mem_escapeChar {mark : Char} (hmark : mark ≠ '\n') (c : Char) :
    '\n' ∉ escapeChar mark c := by
  have hcode : ∀ width n, ∀ letter, letter ≠ '\n' →
      '\n' ∉ '\\' :: letter :: hexadecimal width n := by
    intro width n letter hletter
    simp [lineFeed_not_mem_hexadecimal, Ne.symm hletter]
  unfold escapeChar
  split_ifs with hmarked htab hfeed
  · have hfeed : c ≠ '\n' := by
      rcases hmarked with rfl | rfl
      · exact hmark
      · decide
    simp [Ne.symm hfeed]
  · decide
  · decide
  · decide
  · simpa using Ne.symm hfeed
  · exact hcode 2 _ 'x' (by decide)
  · exact hcode 4 _ 'u' (by decide)
  · exact hcode 8 _ 'U' (by decide)

/-- A quoted text stands on one line. -/
theorem lineFeed_not_mem_quoted (t : Text) : '\n' ∉ quoted t := by
  have hmark := quotationMark_ne_lineFeed t
  intro hmem
  simp only [quoted, List.cons_append, List.mem_cons, List.mem_append, List.mem_flatMap,
    List.not_mem_nil, or_false] at hmem
  rcases hmem with heq | ⟨c, -, hmem⟩ | heq
  · exact hmark heq.symm
  · exact lineFeed_not_mem_escapeChar hmark c hmem
  · exact hmark heq.symm

end Text

end CommentMacro
