import CommentMacro.Document.Sign
import Mathlib.Data.List.Induction

/-!
# Words, and lists of words

A `Word` is read to its end and no further (`Word.spanWord_append`), and no blank
stands in it, so taking blanks off leaves it as it is (`Word.strip_eq`). Words joined
by commas are read back by `parseParameters` (`parseParameters_join`).

Blanks at either end of a text do not matter once they are taken off
(`strip_blanks_append`, `strip_append_blanks`), and there are none to take off if no
blank stands at an end (`strip_eq_self`).
-/

namespace CommentMacro

namespace Text

/-! ## No word character is a blank -/

theorem ranges_apart : ∀ blank ∈ blankRanges, 128 ≤ blank.1 ∧
    ∀ word ∈ wordRanges, blank.2 < word.1 ∨ word.2 < blank.1 := by
  decide +kernel

theorem isWord_of_control : ∀ n ≤ 0x20, isWord (Char.ofNat n) = false := by
  decide

theorem isBlank_of_isWord {c : Char} (h : isWord c = true) : isBlank c = false := by
  rw [Bool.eq_false_iff]
  intro hblank
  have hcontrol : ¬ c.toNat ≤ 0x20 := by
    intro hle
    have := isWord_of_control c.toNat hle
    rw [Char.ofNat_toNat, h] at this
    simp at this
  -- beyond the controls a blank is told by its table, and so is a word character by its own
  simp only [isBlank, Bool.or_eq_true, Bool.and_eq_true, decide_eq_true_eq, or_assoc] at hblank
  rcases hblank with hblank | hblank | hblank
  · omega
  · omega
  · obtain ⟨blank, hmem, hrange⟩ := CodeRanges.contains_iff.mp hblank
    obtain ⟨hbeyond, hapart⟩ := ranges_apart blank hmem
    have hascii : ¬ c.toNat < 128 := by omega
    rw [isWord, if_neg hascii] at h
    obtain ⟨word, hword, hin⟩ := CodeRanges.contains_iff.mp h
    have := hapart word hword
    omega

theorem ne_of_isWord {c d : Char} (h : isWord c = true) (hd : isWord d = false) : c ≠ d := by
  rintro rfl
  rw [h] at hd
  simp at hd

/-! ## Words -/

/-- A text of word characters that is not empty. -/
structure Word (t : Text) : Prop where
  ne_nil : t ≠ []
  isWord : ∀ c ∈ t, isWord c = true

instance decidableWord (t : Text) : Decidable (Word t) :=
  decidable_of_iff (t ≠ [] ∧ t.all Text.isWord = true)
    ⟨fun h => ⟨h.1, List.all_eq_true.mp h.2⟩, fun h => ⟨h.ne_nil, List.all_eq_true.mpr h.isWord⟩⟩

variable {t : Text}

theorem Word.not_mem (h : Word t) {c : Char} (hc : Text.isWord c = false) : c ∉ t :=
  fun hmem => ne_of_isWord (h.isWord c hmem) hc rfl

theorem takeWhile_append_of_head? {p : Char → Bool} {rest : Text} (ht : ∀ c ∈ t, p c = true)
    (hrest : ∀ c ∈ rest.head?, p c = false) :
    (t ++ rest).takeWhile p = t ∧ (t ++ rest).dropWhile p = rest := by
  rw [List.takeWhile_append_of_pos ht, List.dropWhile_append_of_pos ht]
  cases rest with
  | nil => simp
  | cons c rest => simp [hrest c rfl]

/-- A word is read to its end. -/
theorem Word.spanWord_append (h : Word t) {rest : Text}
    (hrest : ∀ c ∈ rest.head?, Text.isWord c = false) : spanWord (t ++ rest) = (t, rest) := by
  obtain ⟨htake, hdrop⟩ := takeWhile_append_of_head? h.isWord hrest
  rw [spanWord, htake, hdrop]

/-! ## Blanks at the ends -/

theorem stripEnd_append_of_blank {c : Char} (hc : isBlank c = true) (t : Text) :
    stripEnd (t ++ [c]) = stripEnd t := by
  rw [stripEnd, List.reverse_append, List.reverse_singleton, List.singleton_append,
    List.dropWhile_cons_of_pos hc, stripEnd]

theorem stripEnd_append_of_not_blank {c : Char} (hc : isBlank c = false) (t : Text) :
    stripEnd (t ++ [c]) = t ++ [c] := by
  rw [stripEnd, List.reverse_append, List.reverse_singleton, List.singleton_append,
    List.dropWhile_cons_of_neg (by simp [hc]), List.reverse_cons, List.reverse_reverse]

section

variable {blanks : Text} (h : ∀ c ∈ blanks, isBlank c = true)
include h

theorem stripEnd_append_blanks (t : Text) : stripEnd (t ++ blanks) = stripEnd t := by
  induction blanks using List.reverseRecOn with
  | nil => rw [List.append_nil]
  | append_singleton blanks c ih =>
      rw [← List.append_assoc, stripEnd_append_of_blank (h c (by simp))]
      exact ih fun d hd => h d (List.mem_append_left _ hd)

theorem strip_blanks_append (t : Text) : strip (blanks ++ t) = strip t := by
  rw [strip, List.dropWhile_append_of_pos h, strip]

theorem strip_append_blanks (t : Text) : strip (t ++ blanks) = strip t := by
  rw [strip, List.dropWhile_append]
  split
  · next hempty =>
      have hnone : (blanks ++ []).dropWhile isBlank = [] := List.dropWhile_append_of_pos h
      rw [List.append_nil] at hnone
      rw [strip, List.isEmpty_iff.mp hempty, hnone]
  · rw [stripEnd_append_blanks h, strip]

end

/-- A text that neither begins nor ends with a blank keeps all its characters. -/
theorem strip_eq_self (hhead : ∀ c ∈ t.head?, isBlank c = false)
    (hlast : ∀ c ∈ t.getLast?, isBlank c = false) : strip t = t := by
  have hfront : t.dropWhile isBlank = t := by
    cases t with
    | nil => rfl
    | cons c t => simp [hhead c rfl]
  rw [strip, hfront]
  rcases List.eq_nil_or_concat t with rfl | ⟨front, c, rfl⟩
  · rfl
  · rw [List.concat_eq_append] at hlast ⊢
    exact stripEnd_append_of_not_blank (hlast c (by simp)) front

/-- There are no blanks to take off a word. -/
theorem Word.strip_eq (h : Word t) : strip t = t :=
  strip_eq_self (fun c hc => isBlank_of_isWord (h.isWord c (List.mem_of_head? hc)))
    fun c hc => isBlank_of_isWord (h.isWord c (List.mem_of_getLast? hc))

/-! ## Cutting at separators -/

theorem splitBy_append_cons {p : Char → Bool} {c : Char} (ht : ∀ x ∈ t, p x = false)
    (hc : p c = true) (rest : Text) : splitBy p (t ++ c :: rest) = t :: splitBy p rest := by
  induction t with
  | nil => simp [splitBy, hc]
  | cons x t ih =>
      have hx := ht x List.mem_cons_self
      rw [List.cons_append, splitBy, ih fun y hmem => ht y (List.mem_cons_of_mem _ hmem)]
      simp [hx]

theorem splitBy_of_forall {p : Char → Bool} (ht : ∀ x ∈ t, p x = false) : splitBy p t = [t] := by
  induction t with
  | nil => rfl
  | cons x t ih =>
      have hx := ht x List.mem_cons_self
      rw [splitBy, ih fun y hmem => ht y (List.mem_cons_of_mem _ hmem)]
      simp [hx]

/-- Texts joined by a comma and a space keep the space when they are cut at the
commas. -/
theorem splitBy_join {ts : List Text} (h : ∀ t ∈ ts, ',' ∉ t) (hne : ts ≠ []) :
    (splitBy (· == ',') (join ", ".toList ts)).map strip = ts.map strip := by
  have hcomma : ∀ t ∈ ts, ∀ x ∈ t, (x == ',') = false := by
    intro t ht x hx
    rw [beq_eq_false_iff_ne]
    rintro rfl
    exact h t ht hx
  induction ts with
  | nil => exact absurd rfl hne
  | cons t ts ih =>
      have ht := hcomma t List.mem_cons_self
      cases ts with
      | nil => simp [join, splitBy_of_forall ht]
      | cons t' ts =>
          have hlater := ih (fun t ht => h t (List.mem_cons_of_mem _ ht)) (by simp)
            (fun t ht => hcomma t (List.mem_cons_of_mem _ ht))
          have hjoin : join ", ".toList (t :: t' :: ts) =
              t ++ ',' :: ' ' :: join ", ".toList (t' :: ts) := by
            simp [join]
          rw [hjoin, splitBy_append_cons ht (by simp), List.map_cons, List.map_cons (l := t' :: ts),
            ← hlater]
          congr 1
          generalize join ", ".toList (t' :: ts) = rest
          have hsplit := splitBy_ne_nil (· == ',') rest
          rw [splitBy]
          cases hpieces : splitBy (· == ',') rest with
          | nil => exact absurd hpieces hsplit
          | cons piece pieces =>
              have hblank : ∀ c ∈ [' '], isBlank c = true :=
                List.forall_mem_singleton.mpr (by decide)
              have hspace : strip (' ' :: piece) = strip piece := strip_blanks_append hblank piece
              simp [hspace]

theorem mem_join {separator : Text} {ts : List Text} {c : Char} (h : c ∈ join separator ts) :
    c ∈ separator ∨ ∃ t ∈ ts, c ∈ t := by
  induction ts with
  | nil => simp [join] at h
  | cons t ts ih =>
      cases ts with
      | nil => exact Or.inr ⟨t, by simp, h⟩
      | cons t' ts =>
          rw [join, List.mem_append, List.mem_append] at h
          · rcases h with (h | h) | h
            · exact Or.inr ⟨t, by simp, h⟩
            · exact Or.inl h
            · rcases ih h with hmem | ⟨later, hlater, hmem⟩
              · exact Or.inl hmem
              · exact Or.inr ⟨later, List.mem_cons_of_mem _ hlater, hmem⟩
          · simp

end Text

namespace Document

/-- The parameters of a macro as they are written in its header. -/
theorem parseParameters_join {parameters : List Text} (h : ∀ p ∈ parameters, Text.Word p) :
    parseParameters (Text.join ", ".toList parameters) = parameters := by
  have hcomma : ∀ p ∈ parameters, ',' ∉ p := fun p hmem => (h p hmem).not_mem (by decide)
  have hstrip : parameters.map Text.strip = parameters := by
    conv => rhs; rw [← List.map_id parameters]
    exact List.map_congr_left fun p hmem => (h p hmem).strip_eq
  have hkept : parameters.filter (!·.isEmpty) = parameters := by
    rw [List.filter_eq_self]
    intro p hmem
    simpa using (h p hmem).ne_nil
  by_cases hne : parameters = []
  · subst hne
    decide
  · rw [parseParameters, Text.splitBy_join hcomma hne, hstrip, hkept]

end Document

end CommentMacro
