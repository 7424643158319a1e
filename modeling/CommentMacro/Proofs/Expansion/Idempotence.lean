import CommentMacro.Proofs.Document.Offsets
import CommentMacro.Proofs.Expansion.Recompiling

/-!
# Expanding twice

A second expansion of a document should leave it as the first one made it. It does
so if the injected texts leave the lines around the regions alone, and it may fail
to do so otherwise: an output without a line break at its end runs into the line
that ends its region (`expand_twice_differs`).

For documents whose regions hold no markers this is exactly the condition
(`expand_twice_iff`).
-/

namespace CommentMacro

open Document

variable {σ : Type} {listener : Listener σ}

namespace Expansion

/-! ## What the regions receive, part by part -/

/-- Tokens in front of the first region only change the state. -/
theorem exists_fillings_front (h : listener.Patient) {front : List Document.Token}
    (hfront : bodiesOf front = []) (state : Expansion σ) :
    ∃ state', ∀ tokens, fillings listener (front ++ tokens) state =
      fillings listener tokens state' := by
  induction front generalizing state with
  | nil => exact ⟨state, fun _ => rfl⟩
  | cons token front ih =>
      cases hbody : token.body? with
      | some body => simp [bodiesOf, hbody] at hfront
      | none =>
          rw [bodiesOf_cons hbody] at hfront
          obtain ⟨text, middle, hvisit⟩ := completes_visit h token state
          obtain ⟨state', hstate'⟩ := ih hfront middle
          refine ⟨state', fun tokens => ?_⟩
          rw [List.cons_append, fillings_cons_apply hbody, hvisit]
          exact hstate' tokens

theorem fillings_region {opening body closing : Text} {tokens : List Document.Token}
    {state state' : Expansion σ} {outputs : List Text}
    (h : fillings listener (.region opening body closing :: tokens) state = .ok outputs state') :
    ∃ later, outputs = state.pending :: later ∧
      fillings listener tokens state = .ok later state' := by
  rw [fillings_region_apply] at h
  cases hlater : fillings listener tokens state with
  | error anomaly state'' => simp [hlater] at h
  | ok later state'' =>
      simp only [hlater, EStateM.Result.ok.injEq] at h
      obtain ⟨rfl, rfl⟩ := h
      exact ⟨later, rfl, rfl⟩

theorem fillings_lines {sign : Text} {front : List Document.Token}
    (hfront : ∀ token ∈ front, FromLine sign token) (tokens : List Document.Token) :
    fillings listener (front ++ tokens) = fillings listener tokens := by
  induction front with
  | nil => rfl
  | cons token front ih =>
      have htoken := hfront token List.mem_cons_self
      have hlater := ih fun token hmem => hfront token (List.mem_cons_of_mem _ hmem)
      rw [List.cons_append, fillings_cons htoken.body?_eq_none, ← hlater]
      cases token <;> first | rfl | exact htoken.elim

end Expansion

/-! ## Documents that hold nothing to expand -/

theorem hasDeclarations_append {t : Text} (h : hasDeclarations t = true) (front : Text) :
    hasDeclarations (front ++ t) = true := by
  induction front with
  | nil => exact h
  | cons c front ih =>
      rw [List.cons_append, hasDeclarations, ih, Bool.or_true]

/-- A start marker at the end of a line is something to expand. -/
theorem hasDeclarations_of_start (front rest : Text) {stop : Text}
    (hstop : stop = ['\n'] ∨ stop = ['\r', '\n']) :
    hasDeclarations (front ++ (Marker.start.text ++ (stop ++ rest))) = true := by
  have hword : hasDeclarations (startWord ++ (stop ++ rest)) = true := by
    have hstart : startWord ++ (stop ++ rest) =
        '#' :: ("metacode".toList ++ (stop ++ rest)) := rfl
    have hafter := Text.after?_append startWord (stop ++ rest)
    rw [hstart] at hafter ⊢
    rw [hasDeclarations, hafter]
    rcases hstop with rfl | rfl <;> rfl
  have htext : Marker.start.text ++ (stop ++ rest) = [' '] ++ (startWord ++ (stop ++ rest)) := rfl
  rw [htext, ← List.append_assoc]
  exact hasDeclarations_append hword _

/-- Without anything to expand, no block of declarations starts in front of a
region. -/
theorem noneBefore_of_undeclared {sign text rest : Text} {front : List Document.Token}
    (hfrom : ∀ token ∈ front, FromLine sign token) (c m r : Text)
    (h : hasDeclarations (text ++ (textOf front ++ rest)) = false) :
    NoneBefore (opensWith .start) front (openingLine c m r) := by
  rcases exists_start_within front c m r with hnone | ⟨earlier, c', s, r', middle, rfl, -⟩
  · exact hnone
  · exfalso
    obtain rfl : s = Marker.start.text := hfrom (.marker s .start) (by simp)
    have hstop := hfrom (.lineBreak r') (by simp)
    have hdeclared := hasDeclarations_of_start (text ++ (textOf earlier ++ c'))
      (textOf middle ++ rest) hstop
    rw [Bool.eq_false_iff] at h
    apply h
    simpa [Token.text] using hdeclared

section

variable {sign : Text} (hsign : ProperSign sign)
include hsign

/-- Without anything to expand, nothing is put into the regions. -/
theorem outputs_eq_nil_of_undeclared {before lines tokens : List Document.Token}
    (h : QuietReading lines tokens)
    (hlines : ReadsBack sign (before ++ lines))
    {state state' : Expansion Unit} (hpending : state.pending = []) {outputs : List Text}
    (hfillings : Expansion.fillings .silent tokens state = .ok outputs state') {text : Text}
    (hundeclared : hasDeclarations (text ++ textOf (refill tokens outputs)) = false) :
    ∀ output ∈ outputs, output = [] := by
  have hlength := Expansion.length_of_fillings hfillings
  induction h generalizing before outputs text with
  | @rest lines _ =>
      obtain rfl := hlines.eq_nil hlength
      intro output hmem
      simp at hmem
  | @region c m r front grouped stale closing lines tokens _ hgroup _ hclosing _ ih =>
      have hgroups := groups_of_grouped_opening hgroup
      have hfront := bodiesOf_grouped hlines hgroups
      have hend := splitLines_behind_region hsign hlines hclosing
      have hfrom : ∀ token ∈ front, FromLine sign token := by
        intro token hmem
        have hall := List.mem_append_right before
          (List.mem_append_left (openingLine c m r ++ (stale ++ (closing ++ lines))) hmem)
        rw [← hlines] at hall
        exact fromLine_of_mem hall
      cases outputs with
      | nil => simp [bodiesOf_append] at hlength
      | cons output outputs =>
          rw [textOf_refill_region hfront, hgroups.textOf_eq] at hundeclared
          have hnone := noneBefore_of_undeclared hfrom c m r hundeclared
          rw [groupDeclarations_of_no_start hnone] at hgroup
          obtain rfl := List.append_cancel_right hgroup
          rw [Expansion.fillings_lines hfrom] at hfillings
          obtain ⟨later, heq, hlater⟩ := Expansion.fillings_region hfillings
          obtain ⟨rfl, rfl⟩ := List.cons.inj heq
          intro output hmem
          rcases List.mem_cons.mp hmem with rfl | hmem
          · exact hpending
          · have hbehind : hasDeclarations ((text ++ (textOf front ++ (textOf (openingLine c m r) ++
                (state.pending ++ textOf closing)))) ++ textOf (refill tokens outputs)) = false := by
              simpa only [List.append_assoc] using hundeclared
            exact ih hend hlater hbehind (Expansion.length_of_fillings hlater) output hmem

/-! ## Documents that an expansion does not change -/

/-- If an expanded document holds what an expansion would put into it, the texts
that were put there do not disturb the lines around them. -/
theorem allSettled_of_fixed {before lines tokens : List Document.Token}
    (h : QuietReading lines tokens)
    (hlines : ReadsBack sign (before ++ lines))
    {state last last' : Expansion Unit} {outputs : List Text}
    (hfillings : Expansion.fillings .silent tokens state = .ok outputs last)
    {lines' tokens' : List Document.Token} (h' : QuietReading lines' tokens')
    (hlines' : splitLines sign (textOf before ++ textOf (refill tokens outputs)) =
      before ++ lines')
    (hfillings' : Expansion.fillings .silent tokens' state = .ok (bodiesOf tokens') last') :
    AllSettled sign tokens outputs := by
  have hlength := Expansion.length_of_fillings hfillings
  induction h generalizing before state outputs lines' tokens' with
  | @rest lines _ =>
      simp [AllSettled, regionsOf_eq_nil hlines.bodiesOf_eq]
  | @region c m r front grouped stale closing lines tokens hnone hgroup _ hclosing hrest ih =>
      have hgroups := groups_of_grouped_opening hgroup
      have hfront := bodiesOf_grouped hlines hgroups
      have hend := splitLines_behind_region hsign hlines hclosing
      obtain ⟨middle, hmiddle⟩ :=
        Expansion.exists_fillings_front Listener.patient_silent hfront state
      cases outputs with
      | nil => simp [bodiesOf_append] at hlength
      | cons output outputs =>
          rw [hmiddle] at hfillings
          obtain ⟨later, heq, hlater⟩ := Expansion.fillings_region hfillings
          obtain ⟨rfl, rfl⟩ := List.cons.inj heq
          -- the second reading goes on behind the same opening line
          rw [splitLines_refill_region hsign hlines hgroups] at hlines'
          obtain rfl := List.append_cancel_left hlines'
          obtain ⟨stale', closing', behind, later', hbehind, hquiet', hclosing', hrest', rfl⟩ :=
            h'.of_opening hnone hgroup
          rw [hmiddle] at hfillings'
          obtain ⟨outputs', heq', hlater'⟩ := Expansion.fillings_region hfillings'
          rw [bodiesOf_append, hfront, List.nil_append, bodiesOf_region] at heq'
          obtain ⟨hstale, rfl⟩ := List.cons.inj heq'
          obtain ⟨hlinesStale, hend'⟩ := splitLines_cut_closing hsign hbehind hclosing'
          have htext : textOf closing ++ textOf (refill tokens outputs) =
              textOf (closing' ++ behind) := by
            have := congrArg textOf hbehind
            rw [textOf_splitLines, textOf_append stale', hstale] at this
            exact List.append_cancel_left this
          rw [allSettled_region hfront]
          refine ⟨⟨?_, ?_⟩, ?_⟩
          · rw [QuietText, ← hstale, hlinesStale]
            exact hquiet'
          · rcases hclosing'.eq_nil_or with ⟨rfl, rfl⟩ | ⟨c', more, rfl⟩
            · rw [List.append_nil, textOf_nil, List.append_eq_nil_iff] at htext
              exact Or.inr (congrArg some htext.1)
            · have hfresh := fresh_of_atLineStart hbehind (atLineStart_of_comment hsign hbehind)
              rw [hstale] at hfresh
              exact Or.inl hfresh
          · have hlength' := Expansion.length_of_fillings hlater
            obtain ⟨next, hnext, hhead⟩ := hrest.exists_head hsign hend hlength'
            have hsame : closing ++ next = closing' ++ behind := by
              rw [← hnext, htext, hend']
            obtain ⟨-, rfl⟩ := (hclosing.congr_head hhead).unique hclosing' hsame
            exact ih hend hlater hrest' hnext hlater' hlength'

omit hsign in
theorem text_of_expand_silent (scoping : Scoping) {source out : Text}
    {tokens : List Document.Token} (hdeclared : hasDeclarations source = true)
    (hparse : parse sign source = .ok tokens)
    (hexpand : expand ⟨sign, scoping.name⟩ .silent () source = .ok (out, ())) :
    textOf (refill tokens (injected scoping tokens)) = out := by
  have hboth := (expand_silent scoping hdeclared hparse).symm.trans hexpand
  simpa using hboth

/-- If a second expansion changes nothing, the injected texts do not disturb the lines
around the regions. -/
theorem allSettled_of_expand_twice (scoping : Scoping) {source out : Text}
    {tokens tokens' : List Document.Token} (hreading : QuietReading (splitLines sign source) tokens)
    (hout : textOf (refill tokens (injected scoping tokens)) = out)
    (hparse' : parse sign out = .ok tokens') (hquiet' : QuietBodies sign tokens')
    (hfixed : expand ⟨sign, scoping.name⟩ .silent () out = .ok (out, ())) :
    AllSettled sign tokens (injected scoping tokens) := by
  have hlines : ReadsBack sign ([] ++ splitLines sign source) := readsBack_splitLines sign source
  have hreading' := quietReading_of_bodies hsign hparse' hquiet'
  obtain ⟨state, hfillings⟩ := fillings_silent scoping tokens
  cases hdeclared' : hasDeclarations out with
  | true =>
      have htokens : textOf tokens' = out := by
        rw [(reading_of_parse hparse').textOf_eq, textOf_splitLines]
      -- as the text has not changed, the texts in the regions have not either
      have hsame : injected scoping tokens' = bodiesOf tokens' :=
        hreading'.eq_bodiesOf hsign htokens (length_injected scoping tokens')
          (text_of_expand_silent scoping hdeclared' hparse' hfixed)
      obtain ⟨state', hfillings'⟩ := fillings_silent scoping tokens'
      rw [hsame] at hfillings'
      refine allSettled_of_fixed hsign hreading hlines hfillings hreading' ?_ hfillings'
      rw [hout]
      rfl
  | false =>
      -- the document holds no declarations, so nothing was put into its regions
      have hnil : ∀ output ∈ injected scoping tokens, output = [] := by
        rw [← hout, ← List.nil_append (textOf _)] at hdeclared'
        exact outputs_eq_nil_of_undeclared hsign hreading hlines rfl hfillings hdeclared'
      intro pair hmem
      have hempty := hnil pair.2 (List.of_mem_zip hmem).2
      refine ⟨?_, Or.inl (Or.inl hempty)⟩
      rw [QuietText, hempty, splitLines_nil hsign]
      rfl

/-- A document whose regions hold no markers is expanded to one of its kind that a
second expansion does not change if, and only if, the injected texts do not disturb
the lines around the regions. -/
theorem expand_twice_iff (scoping : Scoping) {source out : Text}
    {tokens : List Document.Token} (hdeclared : hasDeclarations source = true)
    (hparse : parse sign source = .ok tokens) (hquiet : QuietBodies sign tokens)
    (hexpand : expand ⟨sign, scoping.name⟩ .silent () source = .ok (out, ())) :
    (expand ⟨sign, scoping.name⟩ .silent () out = .ok (out, ()) ∧
      ∃ tokens', parse sign out = .ok tokens' ∧ QuietBodies sign tokens') ↔
      AllSettled sign tokens (injected scoping tokens) := by
  have hreading := quietReading_of_bodies hsign hparse hquiet
  have hlength := length_injected scoping tokens
  have hout := text_of_expand_silent scoping hdeclared hparse hexpand
  constructor
  · rintro ⟨hfixed, tokens', hparse', hquiet'⟩
    exact allSettled_of_expand_twice hsign scoping hreading hout hparse' hquiet' hfixed
  · intro hsettled
    have hparse' := parse_refill hsign hparse hreading hlength hsettled
    rw [hout] at hparse'
    refine ⟨?_, _, hparse', ?_⟩
    · cases hdeclared' : hasDeclarations out with
      | true =>
          rw [expand_silent scoping hdeclared' hparse', injected_refill, refill_refill hlength, hout]
      | false => simp [expand, hdeclared']
    · rw [QuietBodies, bodiesOf_refill hlength]
      exact hsettled.quiet hlength

end

theorem expand_twice_greeting :
    ProperSign Settings.default.sign ∧ hasDeclarations greeting = true ∧
      parse Settings.default.sign greeting = .ok greetingTokens ∧
      QuietBodies Settings.default.sign greetingTokens ∧
      expand .default .silent () greeting = .ok (greeted, ()) ∧
      ((expand .default .silent () greeted = .ok (greeted, ()) ∧
        ∃ tokens', parse Settings.default.sign greeted = .ok tokens' ∧
          QuietBodies Settings.default.sign tokens') ↔
        AllSettled Settings.default.sign greetingTokens (injected .flat greetingTokens)) := by
  have hquiet : QuietBodies Settings.default.sign greetingTokens := by decide +kernel
  exact ⟨properSign_default, hasDeclarations_greeting, parse_greeting, hquiet, expand_greeting,
    expand_twice_iff properSign_default .flat hasDeclarations_greeting parse_greeting hquiet
      expand_greeting⟩

/-- The document again, with a macro whose output does not end in a line break. -/
def mumbling : Text :=
  ("// #metacode\n// #macro HI(x)\n//   hi \x7b\x7bx\x7d\x7d\n// HI(a)\n" ++
    "// #metagen\n// #metaend\n").toList

/-- Its output runs into the line that ends the region. -/
def mumbled : Text :=
  ("// #metacode\n// #macro HI(x)\n//   hi \x7b\x7bx\x7d\x7d\n// HI(a)\n" ++
    "// #metagen\nhi a// #metaend\n").toList

/-- Without that line the region runs to the end of the document. -/
def mumbledTwice : Text :=
  ("// #metacode\n// #macro HI(x)\n//   hi \x7b\x7bx\x7d\x7d\n// HI(a)\n" ++
    "// #metagen\nhi a").toList

/-- A second expansion may change a document. -/
theorem expand_twice_differs :
    expand .default .silent () mumbling = .ok (mumbled, ()) ∧
      expand .default .silent () mumbled = .ok (mumbledTwice, ()) ∧ mumbledTwice ≠ mumbled := by
  decide +kernel

end CommentMacro
