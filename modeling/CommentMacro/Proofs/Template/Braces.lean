import CommentMacro.Proofs.Pattern.Shapes
import CommentMacro.Template.Directive

/-!
# Directives by a direct scan

`directivePattern` has four alternatives, each of which tries contents from short to long
and looks for its own closing braces behind them. What they find together is told without
any trying: the inside of a directive runs through the first closing braces behind the
opening ones, if these come before any line feed (`inside?`), and the tildes at the two ends
of the inside say which sides are trimmed (`sides`). The match of the pattern is this
directive (`matchAt?_directivePattern`).

That the shortest content wins does not decide anything here, since no content runs past
closing braces (`attempts_content`); the order of the alternatives does.
-/

namespace CommentMacro.Template

open Pattern

/-! ## The direct scan -/

def closesBraces (t : Text) : Bool :=
  ['\x7d', '\x7d'].isPrefixOf t

/-- The text up to the first closing braces, if no line feed comes first. -/
def untilClosed? : Text → Option Text
  | [] => none
  | c :: t =>
    if closesBraces (c :: t) then some []
    else if c = '\n' then none
    else (untilClosed? t).map (c :: ·)

/-- The inside of the directive at the start of a text. -/
def inside? (t : Text) : Option Text :=
  (Text.after? ['\x7b', '\x7b'] t).bind untilClosed?

def inBraces (inside : Text) : Text :=
  '\x7b' :: '\x7b' :: inside ++ ['\x7d', '\x7d']

/-- The sides on which the tildes at the ends of an inside ask for a trim, and the content
without them. -/
def sides (inside : Text) : Trim × Text :=
  if 2 ≤ inside.length ∧ inside.head? = some '~' ∧ inside.getLast? = some '~' then
    (.both, inside.tail.dropLast)
  else if inside.head? = some '~' then (.left, inside.tail)
  else if inside.getLast? = some '~' then (.right, inside.dropLast)
  else (.neither, inside)

def Token.ofInside (inside : Text) : Token .raw :=
  .directive (inBraces inside) (sides inside).1 (sides inside).2

theorem closesBraces_cons_iff {c : Char} {t : Text} :
    closesBraces (c :: t) = true ↔ c = '\x7d' ∧ t.head? = some '\x7d' := by
  rcases t with _ | ⟨d, t⟩
  · simp [closesBraces]
  · simp [closesBraces, @eq_comm _ c, @eq_comm _ d]

theorem untilClosed?_eq_some_nil {t : Text} :
    untilClosed? t = some [] ↔ closesBraces t = true := by
  cases t with
  | nil => simp [untilClosed?, closesBraces]
  | cons c t =>
      rw [untilClosed?]
      split
      · next hcloses => simp [hcloses]
      · next hcloses => split <;> simp [hcloses]

/-! ## The ways to read a content -/

/-- Whether no content goes on at the start of a text. -/
def endsContent : Text → Bool
  | [] => true
  | c :: t => closesBraces (c :: t) || c == '\n'

/-- How long a content may be. -/
def reach : Text → Nat
  | [] => 0
  | c :: t => if endsContent (c :: t) then 0 else reach t + 1

theorem reach_le_length (t : Text) : reach t ≤ t.length := by
  induction t with
  | nil => exact Nat.le_refl 0
  | cons c t ih =>
      unfold reach
      split
      · exact Nat.zero_le _
      · simpa using ih

/-- One character of a content. -/
theorem attempts_contentStep (t : Text) :
    attempts t.toArray (.seq [.notAhead ['\x7d', '\x7d'], .other ['\n']]) 0 =
      if endsContent t then [] else [⟨1, []⟩] := by
  have hahead : isAhead t.toArray ['\x7d', '\x7d'] 0 = closesBraces t :=
    isAhead_toArray t _
  simp only [seq, List.foldr_cons, List.foldr_nil, attempts, hahead]
  cases t with
  | nil => simp [endsContent, closesBraces, isOther]
  | cons c t =>
      cases hcloses : closesBraces (c :: t) with
      | true => simp [endsContent, hcloses]
      | false =>
          by_cases hfeed : c = '\n' <;> simp [endsContent, hcloses, isOther, hfeed, Hit.after]

/-- Every length up to the longest one is a way to read a content, the shorter ones first. -/
theorem attempts_content (t : Text) :
    attempts t.toArray contentPattern 0 = (List.range (reach t + 1)).map fun n => ⟨n, []⟩ := by
  induction t with
  | nil =>
      have hstep := attempts_contentStep []
      rw [contentPattern, lazyStar, attempts_repeated, hstep]
      rfl
  | cons c t ih =>
      have hstep := attempts_contentStep (c :: t)
      rw [contentPattern, lazyStar, attempts_repeated, hstep]
      cases hends : endsContent (c :: t) with
      | true => simp [reach, hends, consuming, arrange, stopsHere]
      | false =>
          have hlater := attempts_append_left [c] t contentPattern 0
          rw [ih, contentPattern, lazyStar] at hlater
          have hone : consuming 0 [(⟨1, []⟩ : Hit)] = [⟨1, []⟩] := rfl
          have hafter : (⟨1, []⟩ : Hit).after = id := by
            funext hit
            exact Hit.after_empty hit 1
          have hreach : reach (c :: t) = reach t + 1 := by simp [reach, hends]
          rw [if_neg (by simp), hone, follow_cons, follow_nil, List.append_nil, hafter, List.map_id,
            hreach]
          conv => rhs; rw [List.range_succ_eq_map, List.map_cons, List.map_map]
          simp only [arrange, Bool.false_eq_true, if_false, stopsHere, if_true,
            List.singleton_append]
          congr 1
          refine Eq.trans hlater ?_
          rw [List.map_map]
          apply List.map_congr_left
          intro n _
          simp [Hit.shift, Nat.add_comm]

/-! ## Closing braces behind a content -/

def closedAt? (closing t : Text) : Option Nat :=
  (List.range (reach t + 1)).find? fun n => closing.isPrefixOf (t.drop n)

theorem closedAt?_cons (closing : Text) (c : Char) (t : Text) :
    closedAt? closing (c :: t) =
      if closing.isPrefixOf (c :: t) then some 0
      else if endsContent (c :: t) then none
      else (closedAt? closing t).map (· + 1) := by
  rw [closedAt?, reach]
  by_cases hends : endsContent (c :: t) = true
  · simp [hends]
  · rw [if_neg hends, if_neg hends, List.range_succ_eq_map, List.find?_cons, List.find?_map]
    cases hclosing : closing.isPrefixOf (c :: t) with
    | true => simp [hclosing]
    | false =>
        rw [List.drop_zero, hclosing]
        rfl

/-- Closing braces are where the inside ends. -/
theorem closedAt?_braces (t : Text) :
    closedAt? ['\x7d', '\x7d'] t = (untilClosed? t).map List.length := by
  induction t with
  | nil => rfl
  | cons c t ih =>
      have hclosing : ['\x7d', '\x7d'].isPrefixOf (c :: t) = closesBraces (c :: t) := rfl
      rw [closedAt?_cons, hclosing, ih, untilClosed?]
      cases hcloses : closesBraces (c :: t) with
      | true => simp
      | false =>
          by_cases hfeed : c = '\n' <;> simp [endsContent, hcloses, hfeed, Function.comp_def]

/-- An inside without the tilde at its start. -/
def afterTilde? (inside : Text) : Option Text :=
  Text.after? ['~'] inside

def beforeTilde? (inside : Text) : Option Text :=
  if inside.getLast? = some '~' then some inside.dropLast else none

theorem closedAt?_tilde (t : Text) :
    closedAt? ['~', '\x7d', '\x7d'] t = ((untilClosed? t).bind beforeTilde?).map List.length := by
  induction t with
  | nil => rfl
  | cons c t ih =>
      have hclosing : ['~', '\x7d', '\x7d'].isPrefixOf (c :: t) = (c == '~' && closesBraces t) := by
        rw [Bool.beq_comm]
        rfl
      rw [closedAt?_cons, hclosing, ih, untilClosed?]
      cases hcloses : closesBraces (c :: t) with
      | true =>
          have hc : c = '\x7d' := (closesBraces_cons_iff.mp hcloses).1
          subst hc
          simp [endsContent, hcloses, beforeTilde?]
      | false =>
          by_cases hfeed : c = '\n'
          · simp [endsContent, hfeed]
          by_cases htilde : c = '~' ∧ closesBraces t = true
          · -- the tilde is the whole inside
            rw [untilClosed?_eq_some_nil.mpr htilde.2, htilde.1]
            simp [htilde.2, beforeTilde?]
          · have hgoes : endsContent (c :: t) = false := by simp [endsContent, hcloses, hfeed]
            rw [if_neg (by simpa using htilde), if_neg (by simp [hgoes]), if_neg (by simp),
              if_neg hfeed]
            cases hinside : untilClosed? t with
            | none => rfl
            | some inside =>
                cases inside with
                | nil =>
                    have hc : c ≠ '~' := fun hc => htilde ⟨hc, untilClosed?_eq_some_nil.mp hinside⟩
                    simp [beforeTilde?, hc]
                | cons d inside => by_cases hlast : (d :: inside).getLast? = some '~' <;>
                    simp [beforeTilde?, hlast]

/-! ## One alternative -/

theorem attempts_closing (closing t : Text) {n : Nat} (h : n ≤ t.length) :
    attempts t.toArray (both (word closing) empty) n =
      if closing.isPrefixOf (t.drop n) then [⟨n + closing.length, []⟩] else [] := by
  rw [attempts_eq_drop _ t h, attempts, attempts_word]
  split
  · simp [attempts, Hit.after, Hit.shift]
  · rfl

theorem flatMap_ite {α β : Type} (test : α → Bool) (f : α → β) (items : List α) :
    (items.flatMap fun item => if test item then [f item] else []) =
      (items.filter test).map f := by
  induction items with
  | nil => rfl
  | cons item items ih => by_cases h : test item <;> simp [h, ih]

/-- The ways to read a content that has the closing text behind it. -/
theorem attempts_closedContent (name closing t : Text) :
    attempts t.toArray (both (capture name contentPattern) (both (word closing) empty)) 0 =
      ((List.range (reach t + 1)).filter fun n => closing.isPrefixOf (t.drop n)).map fun n =>
        ⟨n + closing.length, [⟨name, 0, n⟩]⟩ := by
  rw [← flatMap_ite, attempts, attempts, attempts_content, follow, List.map_map, List.flatMap_map]
  apply List.flatMap_congr
  intro n hn
  have hle : n ≤ t.length := by
    have := reach_le_length t
    have := List.mem_range.mp hn
    omega
  simp only [Function.comp_apply, Hit.after]
  rw [attempts_closing closing t hle]
  split <;> simp [Hit.after]

/-- An alternative looks for its closing text behind one content after another. -/
theorem head?_attempts_enclosed (trim : Trim) (t : Text) :
    (attempts t.toArray (enclosed trim) 0).head? =
      (Text.after? trim.opening t).bind fun behind =>
        (closedAt? trim.closing behind).map fun n =>
          let stop := trim.opening.length + n
          ⟨stop + trim.closing.length, [⟨[trim.kind], trim.opening.length, stop⟩]⟩ := by
  simp only [enclosed, seq, List.foldr_cons, List.foldr_nil]
  rw [attempts, attempts_word, Text.isPrefixOf_eq]
  cases hbehind : Text.after? trim.opening t with
  | none => simp
  | some behind =>
      obtain rfl := Text.eq_append_of_after? hbehind
      have hlater := attempts_append_left trim.opening behind
        (both (capture [trim.kind] contentPattern) (both (word trim.closing) empty)) 0
      rw [Nat.add_zero, attempts_closedContent] at hlater
      have hafter : (⟨trim.opening.length, []⟩ : Hit).after = id := by
        funext hit
        exact Hit.after_empty hit _
      rw [Option.isSome_some, if_pos rfl, follow_cons, follow_nil, List.append_nil, hafter,
        List.map_id, hlater, List.map_map, List.head?_map, List.head?_filter, Option.bind_some,
        closedAt?]
      congr 1
      funext n
      simp [Hit.shift, Extent.shift, Nat.add_assoc]

namespace Trim

/-- An inside without the tilde that the trim asks for at its start. -/
def fromLeft? : Trim → Text → Option Text
  | both => afterTilde?
  | left => afterTilde?
  | right => some
  | neither => some

def fromRight? : Trim → Text → Option Text
  | both => beforeTilde?
  | left => some
  | right => beforeTilde?
  | neither => some

/-- The content of a directive with a given inside, if it has the tildes of the trim. -/
def content? (trim : Trim) (inside : Text) : Option Text :=
  (trim.fromLeft? inside).bind trim.fromRight?

/-- How a directive with a given content is matched. -/
def hit (trim : Trim) (content : Text) : Hit :=
  let stop := trim.opening.length + content.length
  ⟨stop + trim.closing.length, [⟨[trim.kind], trim.opening.length, stop⟩]⟩

end Trim

theorem closedAt?_closing (trim : Trim) (t : Text) :
    closedAt? trim.closing t = ((untilClosed? t).bind trim.fromRight?).map List.length := by
  have hplain : closedAt? ['\x7d', '\x7d'] t = ((untilClosed? t).bind some).map List.length := by
    rw [closedAt?_braces, Option.bind_fun_some]
  cases trim with
  | both => exact closedAt?_tilde t
  | left => exact hplain
  | right => exact closedAt?_tilde t
  | neither => exact hplain

section

variable {β : Type} (found : Text → Option β)

/-- A tilde behind the opening braces is the first character of the inside. -/
theorem after?_tilde_bind (t : Text) :
    ((Text.after? ['~'] t).bind fun behind => (untilClosed? behind).bind found) =
      (untilClosed? t).bind fun inside => (afterTilde? inside).bind found := by
  cases t with
  | nil => rfl
  | cons c t =>
      by_cases hc : c = '~'
      · subst hc
        have hcloses : closesBraces ('~' :: t) = false := rfl
        rw [untilClosed?, hcloses, if_neg (by simp), if_neg (by decide), Option.bind_map]
        simp [Text.after?, afterTilde?, Function.comp_def]
      · have hnone : Text.after? ['~'] (c :: t) = none := by simp [Text.after?, Ne.symm hc]
        rw [hnone, untilClosed?]
        split
        · rfl
        · split
          · rfl
          · rw [Option.bind_map]
            simp [Text.after?, afterTilde?, Function.comp_def, Ne.symm hc]

theorem after?_opening_bind (trim : Trim) (t : Text) :
    ((Text.after? trim.opening t).bind fun behind => (untilClosed? behind).bind found) =
      (inside? t).bind fun inside => (trim.fromLeft? inside).bind found := by
  have htilde : Text.after? ['\x7b', '\x7b', '~'] t =
      (Text.after? ['\x7b', '\x7b'] t).bind (Text.after? ['~']) :=
    Text.after?_append_left ['\x7b', '\x7b'] ['~'] t
  have hleft : ((Text.after? ['\x7b', '\x7b', '~'] t).bind fun behind =>
      (untilClosed? behind).bind found) =
        (inside? t).bind fun inside => (afterTilde? inside).bind found := by
    rw [htilde, inside?, Option.bind_assoc, Option.bind_assoc]
    simp only [after?_tilde_bind]
  have hplain : ((Text.after? ['\x7b', '\x7b'] t).bind fun behind =>
      (untilClosed? behind).bind found) =
        (inside? t).bind fun inside => (some inside).bind found := by
    rw [inside?, Option.bind_assoc]
    rfl
  cases trim with
  | both => exact hleft
  | left => exact hleft
  | right => exact hplain
  | neither => exact hplain

end

/-! ## The first alternative -/

/-- An alternative matches a directive that has its tildes. -/
theorem head?_attempts_trim (trim : Trim) (t : Text) :
    (attempts t.toArray (enclosed trim) 0).head? =
      (inside? t).bind fun inside => (trim.content? inside).map trim.hit := by
  have hhit : ∀ behind, (closedAt? trim.closing behind).map (fun n =>
      let stop := trim.opening.length + n
      (⟨stop + trim.closing.length, [⟨[trim.kind], trim.opening.length, stop⟩]⟩ : Hit)) =
        (untilClosed? behind).bind fun inside => (trim.fromRight? inside).map trim.hit := by
    intro behind
    rw [closedAt?_closing, Option.map_map, Option.map_bind]
    rfl
  rw [head?_attempts_enclosed]
  simp only [hhit, after?_opening_bind, Trim.content?, Option.map_bind]
  rfl

/-- The sides are those of the first alternative that an inside has the tildes of. -/
theorem findSome?_content? {β : Type} (inside : Text) (found : Trim → Text → β) :
    Trim.all.findSome? (fun trim => (trim.content? inside).map (found trim)) =
      some (found (sides inside).1 (sides inside).2) := by
  cases inside with
  | nil => rfl
  | cons c rest =>
      by_cases hc : c = '~'
      · subst hc
        cases rest with
        | nil => rfl
        | cons d rest =>
            by_cases hlast : (d :: rest).getLast? = some '~' <;>
              simp [Trim.all, Trim.content?, Trim.fromLeft?, Trim.fromRight?, afterTilde?,
                beforeTilde?, Text.after?, sides, hlast]
      · by_cases hlast : (c :: rest).getLast? = some '~' <;>
          simp [Trim.all, Trim.content?, Trim.fromLeft?, Trim.fromRight?, afterTilde?,
            beforeTilde?, Text.after?, sides, hlast, hc, Ne.symm hc]

/-- The match of the pattern is the directive that the direct scan finds. -/
theorem matchAt?_directivePattern (t : Text) :
    directivePattern.matchAt? t.toArray 0 = (inside? t).map fun inside =>
      let hit := (sides inside).1.hit (sides inside).2
      ⟨0, hit.stop, hit.captures⟩ := by
  have halternatives : directivePattern = .alt (Trim.all.map enclosed) := rfl
  rw [matchAt?_eq, halternatives, attempts_alt, List.flatMap_map, List.head?_flatMap]
  simp only [head?_attempts_trim]
  cases inside? t with
  | none => rfl
  | some inside =>
      simp only [Option.bind_some, Option.map_some]
      rw [findSome?_content? inside Trim.hit]
      rfl

end CommentMacro.Template
