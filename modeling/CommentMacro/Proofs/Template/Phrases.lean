import CommentMacro.Proofs.Text.Words
import CommentMacro.Template.Form
import Mathlib.Data.Option.Basic

/-!
# Directives written down and read back

A `Phrase` is what a directive says as it is written, with the names that stand in it.
It is read back as what it says (`interpret?_phrase`), whatever stands in front of it
that no form starts with, and whatever stands behind it that no name is made of. The
names may be any words, those with which the forms are written among them.

Nothing is read where there is no word character at all (`read?_eq_none_iff`).
-/

namespace CommentMacro

namespace Text

def Wordless (t : Text) : Prop :=
  ∀ c ∈ t, isWord c = false

instance decidableWordless (t : Text) : Decidable (Wordless t) :=
  decidable_of_iff (t.all (fun c => !isWord c) = true) (by simp [Wordless])

theorem Wordless.head? {t : Text} (h : Wordless t) : ∀ c ∈ t.head?, isWord c = false :=
  fun c hc => h c (List.mem_of_head? hc)

theorem Wordless.of_append {front t : Text} (h : Wordless (front ++ t)) : Wordless t :=
  fun c hc => h c (List.mem_append_right front hc)

end Text

namespace Template

open Text (Word Wordless isWord)

/-! ## Phrases -/

structure Name where
  text : Text
  word : Word text

/-- The names in the head of a loop. -/
inductive LoopHead where
  | pair (key value table : Name)
  | index (key table : Name)
  | named (value table : Name)
  | unnamed (table : Name)

/-- What a directive says. A number sign may stand in front of a loop. -/
inductive Phrase where
  | loop (signed : Bool) (head : LoopHead)
  | endLoop
  | member (name field : Name)
  | count (name : Name)
  | reference (name : Name)

/-- The head of a loop as it is written behind `for`. -/
def LoopHead.text : LoopHead → Text
  | pair key value table => key.text ++ ",".toList ++ value.text ++ " of ".toList ++ table.text
  | index key table => key.text ++ " in ".toList ++ table.text
  | named value table => value.text ++ " of ".toList ++ table.text
  | unnamed table => table.text

def Phrase.text : Phrase → Text
  | loop signed head => (if signed then ['#'] else []) ++ "for ".toList ++ head.text
  | endLoop => "/for".toList
  | member name field => name.text ++ ".".toList ++ field.text
  | count name => "#".toList ++ name.text
  | reference name => name.text

def LoopHead.form : LoopHead → Form
  | pair key value table => .loop (some key.text) (some value.text) table.text
  | index key table => .loop (some key.text) none table.text
  | named value table => .loop none (some value.text) table.text
  | unnamed table => .loop none (some "this".toList) table.text

def Phrase.form : Phrase → Form
  | loop _ head => head.form
  | endLoop => .endLoop
  | member name field => .member name.text field.text
  | count name => .count name.text
  | reference name => .reference name.text

theorem Name.head?_append (name : Name) (rest : Text) :
    (name.text ++ rest).head? = name.text.head? := by
  obtain ⟨c, t, heq⟩ := List.exists_cons_of_ne_nil name.word.ne_nil
  rw [heq]
  rfl

namespace Form

variable {t rest : Text}

/-! ## One word -/

theorem word?_name (name : Name) (hrest : ∀ c ∈ rest.head?, isWord c = false) :
    word? (name.text ++ rest) = some (name.text, rest) := by
  unfold word?
  rw [name.word.spanWord_append hrest]
  simp [name.word.ne_nil]

theorem word?_eq_none (h : ∀ c ∈ t.head?, isWord c = false) : word? t = none := by
  cases t with
  | nil => rfl
  | cons c t => simp [word?, Text.spanWord, h c rfl]

theorem wordAfter?_name (lead : Text) (name : Name)
    (hrest : ∀ c ∈ rest.head?, isWord c = false) :
    wordAfter? lead (lead ++ (name.text ++ rest)) = some (name.text, rest) := by
  rw [wordAfter?, Text.after?_append, Option.bind_some, word?_name name hrest]

/-- There is no word to be read from a text without word characters. -/
theorem wordAfter?_wordless (lead : Text) (h : Wordless t) : wordAfter? lead t = none := by
  cases hafter : Text.after? lead t with
  | none => simp [wordAfter?, hafter]
  | some behind =>
      obtain rfl := Text.eq_append_of_after? hafter
      rw [wordAfter?, hafter, Option.bind_some, word?_eq_none h.of_append.head?]

/-- A word is not read behind a text that begins otherwise. -/
theorem wordAfter?_cons_of_ne {c d : Char} (lead : Text) (h : c ≠ d) :
    wordAfter? (c :: lead) (d :: t) = none := by
  simp [wordAfter?, Text.after?, h]

/-! ## The head of a loop -/

theorem pairLoop?_eq_none {key : Text} (h : wordAfter? ",".toList rest = none) :
    pairLoop? key rest = none := by
  rw [pairLoop?, h]
  rfl

theorem indexLoop?_eq_none {key : Text} (h : wordAfter? " in ".toList rest = none) :
    indexLoop? key rest = none := by
  rw [indexLoop?, h]
  rfl

theorem valueLoop?_eq_none {value : Text} (h : wordAfter? " of ".toList rest = none) :
    valueLoop? value rest = none := by
  rw [valueLoop?, h]
  rfl

theorem dropSign_eq (signed : Bool) (h : t.head? ≠ some '#') :
    dropSign ((if signed then ['#'] else []) ++ t) = t := by
  cases signed with
  | true => rfl
  | false =>
      show dropSign t = t
      unfold dropSign
      split
      · exact absurd rfl h
      · rfl

/-- A loop is read by its first name and by what follows this name. -/
theorem loop?_name (signed : Bool) (first : Name) (hrest : ∀ c ∈ rest.head?, isWord c = false) :
    loop? ((if signed then ['#'] else []) ++ ("for ".toList ++ (first.text ++ rest))) =
      (pairLoop? first.text rest <|> indexLoop? first.text rest <|> valueLoop? first.text rest <|>
        some (.loop none (some this) first.text)) := by
  have hsign : ("for ".toList ++ (first.text ++ rest)).head? ≠ some '#' := by simp
  rw [loop?, dropSign_eq signed hsign, wordAfter?_name _ first hrest]
  rfl

section

variable {behind : Text} (h : Wordless behind)
include h

theorem pairLoop?_names (key : Text) (value table : Name) :
    pairLoop? key (",".toList ++ (value.text ++ (" of ".toList ++ (table.text ++ behind)))) =
      some (.loop (some key) (some value.text) table.text) := by
  have hblank : ∀ c ∈ (" of ".toList ++ (table.text ++ behind)).head?, isWord c = false := by
    simp
    decide
  rw [pairLoop?, wordAfter?_name ",".toList value hblank]
  simp only [Option.bind_eq_bind, Option.bind_some, wordAfter?_name " of ".toList table h.head?,
    Option.pure_def]

theorem indexLoop?_name (key : Text) (table : Name) :
    indexLoop? key (" in ".toList ++ (table.text ++ behind)) =
      some (.loop (some key) none table.text) := by
  rw [indexLoop?, wordAfter?_name " in ".toList table h.head?]
  rfl

theorem valueLoop?_name (value : Text) (table : Name) :
    valueLoop? value (" of ".toList ++ (table.text ++ behind)) =
      some (.loop none (some value) table.text) := by
  rw [valueLoop?, wordAfter?_name " of ".toList table h.head?]
  rfl

/-- The head of a loop is read back, with the number sign and without it. Which loop it
is shows in the character behind the first name, or in the one behind that. -/
theorem loop?_head (signed : Bool) (head : LoopHead) :
    loop? ((if signed then ['#'] else []) ++ ("for ".toList ++ (head.text ++ behind))) =
      some head.form := by
  cases head with
  | pair key value table =>
      simp only [LoopHead.text, List.append_assoc]
      rw [loop?_name signed key (by simp; decide), pairLoop?_names h]
      rfl
  | index key table =>
      have hpair : wordAfter? ",".toList (" in ".toList ++ (table.text ++ behind)) = none :=
        wordAfter?_cons_of_ne _ (by decide)
      simp only [LoopHead.text, List.append_assoc]
      rw [loop?_name signed key (by simp; decide), pairLoop?_eq_none hpair, indexLoop?_name h]
      rfl
  | named value table =>
      have hpair : wordAfter? ",".toList (" of ".toList ++ (table.text ++ behind)) = none :=
        wordAfter?_cons_of_ne _ (by decide)
      have hindex : wordAfter? " in ".toList (" of ".toList ++ (table.text ++ behind)) = none :=
        by simp [wordAfter?, Text.after?]
      simp only [LoopHead.text, List.append_assoc]
      rw [loop?_name signed value (by simp; decide), pairLoop?_eq_none hpair,
        indexLoop?_eq_none hindex, valueLoop?_name h]
      rfl
  | unnamed table =>
      rw [LoopHead.text, loop?_name signed table h.head?,
        pairLoop?_eq_none (wordAfter?_wordless _ h), indexLoop?_eq_none (wordAfter?_wordless _ h),
        valueLoop?_eq_none (wordAfter?_wordless _ h)]
      rfl

end

/-! ## Names that begin like a loop -/

/-- A text that begins with a name begins with `for` and a space only if the name is
`for`, and the space follows it. -/
theorem eq_cons_of_after?_for {name : Name} {behind : Text}
    (hrest : ∀ c ∈ rest.head?, isWord c = false)
    (h : Text.after? "for ".toList (name.text ++ rest) = some behind) : rest = ' ' :: behind := by
  have hfor : Word "for".toList := by decide
  have hspan := name.word.spanWord_append hrest
  rw [Text.eq_append_of_after? h] at hspan
  have hspan' : Text.spanWord ("for".toList ++ ' ' :: behind) = ("for".toList, ' ' :: behind) :=
    hfor.spanWord_append (by simp; decide)
  exact (Prod.mk.inj (hspan.symm.trans hspan')).2

/-- A name is not the head of a loop, unless a space and a word follow it. -/
theorem loop?_name_eq_none (signed : Bool) (name : Name)
    (hrest : ∀ c ∈ rest.head?, isWord c = false) (h : wordAfter? [' '] rest = none) :
    loop? ((if signed then ['#'] else []) ++ (name.text ++ rest)) = none := by
  have hsign : (name.text ++ rest).head? ≠ some '#' := by
    intro hhead
    rw [name.head?_append] at hhead
    exact name.word.not_mem (by decide) (List.mem_of_head? hhead)
  have hnone : wordAfter? "for ".toList (name.text ++ rest) = none := by
    cases hafter : Text.after? "for ".toList (name.text ++ rest) with
    | none => rw [wordAfter?, hafter]; rfl
    | some behind =>
        obtain rfl := eq_cons_of_after?_for hrest hafter
        rw [wordAfter?, hafter]
        exact h
  rw [loop?, dropSign_eq signed hsign, hnone]
  rfl

/-! ## The form at a place -/

theorem at?_eq_of_loop? {form : Form} (h : loop? t = some form) : at? t = some form := by
  rw [at?, h]
  rfl

/-- What is no loop is read by the first of the other forms. -/
theorem at?_of_loop?_eq_none (h : loop? t = none) :
    at? t = (endLoop? t <|> member? t <|> count? t <|> reference? t) := by
  rw [at?, h]
  rfl

theorem endLoop?_cons_of_ne {c : Char} (h : c ≠ '/') : endLoop? (c :: t) = none := by
  simp [endLoop?, Text.after?, Ne.symm h]

theorem endLoop?_name (name : Name) : endLoop? (name.text ++ rest) = none := by
  obtain ⟨c, t, heq⟩ := List.exists_cons_of_ne_nil name.word.ne_nil
  have hc : isWord c = true := name.word.isWord c (by simp [heq])
  rw [heq]
  exact endLoop?_cons_of_ne (Text.ne_of_isWord hc (by decide))

theorem member?_eq_none_of_word? (h : word? t = none) : member? t = none := by
  rw [member?, h]
  rfl

theorem reference?_eq_none_of_word? (h : word? t = none) : reference? t = none := by
  rw [reference?, h]
  rfl

theorem count?_eq_none (h : wordAfter? "#".toList t = none) : count? t = none := by
  rw [count?, h]
  rfl

theorem count?_name (name : Name) : count? (name.text ++ rest) = none := by
  obtain ⟨c, t, heq⟩ := List.exists_cons_of_ne_nil name.word.ne_nil
  have hc : isWord c = true := name.word.isWord c (by simp [heq])
  rw [heq]
  exact count?_eq_none (wordAfter?_cons_of_ne [] (Ne.symm (Text.ne_of_isWord hc (by decide))))

/-- No form starts with a character that is neither a word character nor one of the two
signs. -/
def StartsNone (c : Char) : Prop :=
  isWord c = false ∧ c ≠ '#' ∧ c ≠ '/'

instance decidableStartsNone (c : Char) : Decidable (StartsNone c) :=
  inferInstanceAs (Decidable (_ ∧ _ ∧ _))

theorem at?_cons_eq_none {c : Char} (h : StartsNone c) : at? (c :: t) = none := by
  obtain ⟨hword, hsign, hslash⟩ := h
  have hfor : c ≠ 'f' := by
    rintro rfl
    exact absurd hword (by decide)
  have hdrop : dropSign (c :: t) = c :: t := dropSign_eq false (by simpa using hsign)
  have hloop : loop? (c :: t) = none := by
    have hnone : wordAfter? "for ".toList (c :: t) = none :=
      wordAfter?_cons_of_ne "or ".toList (Ne.symm hfor)
    rw [loop?, hdrop, hnone]
    rfl
  have hnone : word? (c :: t) = none := word?_eq_none (by simpa using hword)
  rw [at?_of_loop?_eq_none hloop, endLoop?_cons_of_ne hslash, member?_eq_none_of_word? hnone,
    reference?_eq_none_of_word? hnone, count?_eq_none (wordAfter?_cons_of_ne [] (Ne.symm hsign))]
  rfl

/-- A phrase is read back as its form. -/
theorem at?_phrase (phrase : Phrase) {behind : Text} (h : Wordless behind) :
    at? (phrase.text ++ behind) = some phrase.form := by
  cases phrase with
  | loop signed head =>
      apply at?_eq_of_loop?
      simp only [Phrase.text, List.append_assoc]
      exact loop?_head h signed head
  | endLoop =>
      have hloop : loop? ("/for".toList ++ behind) = none := rfl
      rw [Phrase.text, at?_of_loop?_eq_none hloop]
      rfl
  | member name field =>
      have hpoint : ∀ c ∈ (".".toList ++ (field.text ++ behind)).head?, isWord c = false := by
        simp
        decide
      have hloop : loop? (name.text ++ (".".toList ++ (field.text ++ behind))) = none :=
        loop?_name_eq_none false name hpoint (wordAfter?_cons_of_ne [] (by decide))
      have hfield := wordAfter?_name ".".toList field h.head?
      simp only [Phrase.text, List.append_assoc]
      rw [at?_of_loop?_eq_none hloop, endLoop?_name, member?, word?_name name hpoint]
      simp only [Option.bind_eq_bind, Option.bind_some, hfield]
      rfl
  | count name =>
      have hloop : loop? ("#".toList ++ (name.text ++ behind)) = none :=
        loop?_name_eq_none true name h.head? (wordAfter?_wordless _ h)
      have hnone : word? ("#".toList ++ (name.text ++ behind)) = none :=
        word?_eq_none (by simp; decide)
      have hcount := wordAfter?_name "#".toList name h.head?
      simp only [Phrase.text, List.append_assoc]
      rw [at?_of_loop?_eq_none hloop, member?_eq_none_of_word? hnone, count?, hcount]
      rfl
  | reference name =>
      have hloop : loop? (name.text ++ behind) = none :=
        loop?_name_eq_none false name h.head? (wordAfter?_wordless _ h)
      have hname := word?_name name h.head?
      rw [Phrase.text, at?_of_loop?_eq_none hloop, endLoop?_name, member?, reference?, hname,
        count?_name]
      simp only [Option.bind_eq_bind, Option.bind_some, wordAfter?_wordless ".".toList h]
      rfl

/-! ## The leftmost place -/

theorem read?_append {before : Text} (h : ∀ c ∈ before, StartsNone c) (t : Text) :
    read? (before ++ t) = read? t := by
  induction before with
  | nil => rfl
  | cons c before ih =>
      rw [List.cons_append, read?, at?_cons_eq_none (h c List.mem_cons_self),
        ih fun d hd => h d (List.mem_cons_of_mem c hd)]
      rfl

theorem read?_of_at? {form : Form} (h : at? t = some form) : read? t = some form := by
  cases t with
  | nil =>
      have hnil : at? [] = none := rfl
      rw [hnil] at h
      simp at h
  | cons c t =>
      rw [read?, h]
      rfl

/-- Where a name starts, something is read. -/
theorem isSome_at? {c : Char} (hc : isWord c = true) : (at? (c :: t)).isSome = true := by
  have href : (reference? (c :: t)).isSome = true := by
    simp [reference?, word?, Text.spanWord, hc]
  simp [at?, href]

theorem dropSign_subset (t : Text) : dropSign t ⊆ t := by
  unfold dropSign
  split
  · exact List.subset_cons_self _ _
  · exact List.Subset.refl t

theorem endLoop?_wordless (h : Wordless t) : endLoop? t = none := by
  cases hafter : Text.after? "/for".toList t with
  | none =>
      rw [endLoop?, hafter]
      rfl
  | some behind =>
      obtain rfl := Text.eq_append_of_after? hafter
      exact absurd (h 'f' (by simp)) (by decide)

theorem at?_wordless (h : Wordless t) : at? t = none := by
  have hunsigned : Wordless (dropSign t) := fun c hc => h c (dropSign_subset t hc)
  have hloop : loop? t = none := by
    rw [loop?, wordAfter?_wordless _ hunsigned]
    rfl
  have hnone : word? t = none := word?_eq_none h.head?
  rw [at?_of_loop?_eq_none hloop, endLoop?_wordless h, member?_eq_none_of_word? hnone,
    reference?_eq_none_of_word? hnone, count?_eq_none (wordAfter?_wordless _ h)]
  rfl

/-- Nothing is read where there is no word character, and only there. -/
theorem read?_eq_none_iff : read? t = none ↔ Wordless t := by
  induction t with
  | nil => simp [read?, Wordless]
  | cons c t ih =>
      rw [read?, Option.orElse_eq_none, ih]
      constructor
      · rintro ⟨hhere, hlater⟩
        have hc : isWord c = false := by
          rw [Bool.eq_false_iff]
          intro hc
          have hsome := isSome_at? (t := t) hc
          rw [hhere] at hsome
          simp at hsome
        exact List.forall_mem_cons.mpr ⟨hc, hlater⟩
      · intro h
        exact ⟨at?_wordless h, (List.forall_mem_cons.mp h).2⟩

end Form

/-- Directives are read back as what was written down: a phrase with nothing in front of
it that starts a form, and no word character behind it. Only a directive without word
characters says nothing. -/
theorem interpret?_phrase (source : Text) :
    (∀ (before : Text) (phrase : Phrase) (behind : Text),
      (∀ c ∈ before, Form.StartsNone c) → Wordless behind →
        interpret? source (before ++ phrase.text ++ behind) =
          some (phrase.form.token source)) ∧
      ∀ content, interpret? source content = none ↔ Wordless content := by
  constructor
  · intro before phrase behind hbefore hbehind
    rw [interpret?, List.append_assoc, Form.read?_append hbefore,
      Form.read?_of_at? (Form.at?_phrase phrase hbehind)]
    rfl
  · intro content
    rw [interpret?, Option.map_eq_none_iff, Form.read?_eq_none_iff]

/-- A loop in which the words of the form itself are the names. -/
def keywordLoop : Phrase :=
  .loop true (.pair ⟨"for".toList, by decide⟩ ⟨"of".toList, by decide⟩ ⟨"in".toList, by decide⟩)

theorem interpret?_phrase_keywords :
    let source := "\x7b\x7b$#for for,of of in.\x7d\x7d".toList
    (∀ c ∈ "$".toList, Form.StartsNone c) ∧ Wordless ".".toList ∧
      interpret? source "$#for for,of of in.".toList =
        some (.loop ⟨source, some "for".toList, some "of".toList, "in".toList⟩) ∧
      interpret? source "#.".toList = none := by
  intro source
  have hbefore : ∀ c ∈ "$".toList, Form.StartsNone c :=
    List.forall_mem_singleton.mpr (by decide)
  have hbehind : Wordless ".".toList := by decide
  obtain ⟨hphrase, hnone⟩ := interpret?_phrase source
  exact ⟨hbefore, hbehind, hphrase "$".toList keywordLoop ".".toList hbefore hbehind,
    (hnone "#.".toList).mpr (by decide)⟩

end Template

end CommentMacro
