import CommentMacro.Proofs.Document.Reparsing
import CommentMacro.Proofs.Expansion.Hearing
import CommentMacro.Proofs.Expansion.Rewriting

/-!
# Reading an expanded document

What an expansion puts into the regions of a document is `injected`. If these texts
do not disturb the lines around the regions, the expanded document is read as the
document was, with these texts in its regions (`parse_expand`).
-/

namespace CommentMacro

open Document

/-- The texts that an expansion to which nobody listens puts into the regions. -/
def injected (scoping : Scoping) (tokens : List Document.Token) : List Text :=
  match Expansion.fillings .silent tokens (.start scoping ()) with
  | .ok outputs _ => outputs
  | .error _ _ => []

theorem fillings_silent (scoping : Scoping) (tokens : List Document.Token) :
    ∃ state, Expansion.fillings .silent tokens (.start scoping ()) =
      .ok (injected scoping tokens) state := by
  obtain ⟨outputs, state, h⟩ :=
    Expansion.completes_fillings Listener.patient_silent tokens (.start scoping ())
  refine ⟨state, ?_⟩
  rw [injected, h]

theorem length_injected (scoping : Scoping) (tokens : List Document.Token) :
    (injected scoping tokens).length = (bodiesOf tokens).length := by
  obtain ⟨state, h⟩ := fillings_silent scoping tokens
  exact Expansion.length_of_fillings h

/-- What is in the regions does not matter for what is put there. -/
theorem injected_refill (scoping : Scoping) (tokens : List Document.Token) (outputs : List Text) :
    injected scoping (refill tokens outputs) = injected scoping tokens := by
  rw [injected, injected, Expansion.fillings_refill]

/-- With nobody listening, an expansion puts the injected texts into the regions. -/
theorem expand_silent {sign source : Text} (scoping : Scoping) {tokens : List Document.Token}
    (hdeclared : hasDeclarations source = true) (h : parse sign source = .ok tokens) :
    expand ⟨sign, scoping.name⟩ .silent () source =
      .ok (textOf (refill tokens (injected scoping tokens)), ()) := by
  obtain ⟨state, hfillings⟩ := fillings_silent scoping tokens
  rw [expand, if_pos hdeclared, h]
  simp only [scopingNamed_name]
  exact expandTokens_eq_ok_iff.mpr ⟨_, state, hfillings, rfl, rfl⟩

/-- An expanded document is read as the document was, with the injected texts in its
regions, if these do not disturb the lines around them. Every end marker has to stand
behind a comment sign; the other markers may stand anywhere. -/
theorem parse_expand {sign source : Text} (hsign : ProperSign sign) (scoping : Scoping)
    {tokens : List Document.Token} (hdeclared : hasDeclarations source = true)
    (h : parse sign source = .ok tokens) (hbehind : BehindSign .finish (splitLines sign source))
    (hsettled : AllSettled sign tokens (injected scoping tokens)) :
    ∃ out, expand ⟨sign, scoping.name⟩ .silent () source = .ok (out, ()) ∧
      parse sign out = .ok (refill tokens (injected scoping tokens)) ∧
      bodiesOf (refill tokens (injected scoping tokens)) = injected scoping tokens := by
  have hlength := length_injected scoping tokens
  exact ⟨_, expand_silent scoping hdeclared h,
    parse_refill hsign h (quietReading_of_finish_behind h hbehind) hlength hsettled,
    bodiesOf_refill hlength⟩

def greetingTokens : List Document.Token :=
  collectRegions (groupDeclarations (splitLines Settings.default.sign greeting))

theorem properSign_default : ProperSign Settings.default.sign :=
  ⟨by decide, by decide⟩

theorem parse_greeting : parse Settings.default.sign greeting = .ok greetingTokens := by
  decide +kernel

theorem parse_expand_greeting :
    ProperSign Settings.default.sign ∧ hasDeclarations greeting = true ∧
      parse Settings.default.sign greeting = .ok greetingTokens ∧
      BehindSign .finish (splitLines Settings.default.sign greeting) ∧
      AllSettled Settings.default.sign greetingTokens (injected .flat greetingTokens) ∧
      ∃ out, expand .default .silent () greeting = .ok (out, ()) ∧
        parse Settings.default.sign out =
          .ok (refill greetingTokens (injected .flat greetingTokens)) ∧
        bodiesOf (refill greetingTokens (injected .flat greetingTokens)) =
          injected .flat greetingTokens := by
  have hbehind : BehindSign .finish (splitLines Settings.default.sign greeting) := by
    decide +kernel
  have hsettled : AllSettled Settings.default.sign greetingTokens
      (injected .flat greetingTokens) := by
    decide +kernel
  exact ⟨properSign_default, hasDeclarations_greeting, parse_greeting, hbehind, hsettled,
    parse_expand properSign_default .flat hasDeclarations_greeting parse_greeting hbehind hsettled⟩

end CommentMacro
