import CommentMacro.Expansion
import CommentMacro.Proofs.Computation
import CommentMacro.Proofs.Document.Refill

/-!
# What the regions of a document receive

Visiting the tokens of a document does two things at once: it runs the
declarations, and it writes the text. `Expansion.fillings` runs the declarations
only and keeps what each region receives; the text is then that of the tokens with
these outputs put in (`visitAll_eq`). What was in the regions before plays no part
in it (`fillings_refill`).
-/

namespace CommentMacro.Expansion

open Document

variable {σ : Type} {listener : Listener σ}

/-- Visits tokens and gives the texts that the regions among them receive. -/
def fillings (listener : Listener σ) : List Document.Token → Step σ (List Text)
  | [] => return []
  | .region _ _ _ :: tokens => do
    let output := (← get).pending
    return output :: (← fillings listener tokens)
  | token :: tokens => do
    let _ ← visit listener token
    fillings listener tokens

/-! ## One token -/

theorem fillings_cons {token : Document.Token} (h : token.body? = none)
    (tokens : List Document.Token) :
    fillings listener (token :: tokens) =
      (do let _ ← visit listener token; fillings listener tokens) := by
  cases token with
  | region => simp [Token.body?] at h
  | _ => rfl

/-- A token that is no region is visited, and receives nothing. -/
theorem fillings_cons_apply {token : Document.Token} (h : token.body? = none)
    (tokens : List Document.Token) (state : Expansion σ) :
    fillings listener (token :: tokens) state =
      match visit listener token state with
      | .ok _ state' => fillings listener tokens state'
      | .error anomaly state' => .error anomaly state' := by
  rw [fillings_cons h, bind_apply]
  cases visit listener token state <;> rfl

/-- A region receives the output that was kept last. -/
theorem fillings_region_apply (opening body closing : Text) (tokens : List Document.Token)
    (state : Expansion σ) :
    fillings listener (.region opening body closing :: tokens) state =
      match fillings listener tokens state with
      | .ok outputs state' => .ok (state.pending :: outputs) state'
      | .error anomaly state' => .error anomaly state' := by
  show (fillings listener tokens >>= fun outputs => pure (state.pending :: outputs)) state = _
  rw [bind_apply]
  cases fillings listener tokens state <;> rfl

theorem visitAll_cons_apply (token : Document.Token) (tokens : List Document.Token)
    (state : Expansion σ) :
    visitAll listener (token :: tokens) state =
      match visit listener token state with
      | .ok first state' =>
        match visitAll listener tokens state' with
        | .ok later state'' => .ok (first ++ later) state''
        | .error anomaly state'' => .error anomaly state''
      | .error anomaly state' => .error anomaly state' := by
  rw [visitAll, bind_apply]
  cases visit listener token state with
  | error anomaly state' => rfl
  | ok first state' =>
      show (visitAll listener tokens >>= fun later => pure (first ++ later)) state' = _
      rw [bind_apply]
      simp only
      cases visitAll listener tokens state' <;> rfl

/-- A token that is no region is followed by itself. -/
theorem visit_eq {token : Document.Token} (h : token.body? = none) (state : Expansion σ) :
    visit listener token state =
      match visit listener token state with
      | .ok _ state' => .ok token.text state'
      | .error anomaly state' => .error anomaly state' := by
  have hkeep : ∀ (inner : Step σ Unit) (text : Text), (do inner; return text : Step σ Text) state =
      match (do inner; return text : Step σ Text) state with
      | .ok _ state' => .ok text state'
      | .error anomaly state' => .error anomaly state' := by
    intro inner text
    rw [bind_apply]
    cases inner state <;> rfl
  cases token with
  | region => simp [Token.body?] at h
  | tableDefinition text name body => exact hkeep (defineTable name body) text
  | macroDefinition text name parameters body =>
      rw [visit]
      generalize defineMacro listener name parameters body = inner
      exact hkeep inner text
  | invocation text call => exact hkeep (invoke listener call) text
  | _ => rfl

/-! ## All tokens -/

/-- The text of an expansion is that of the tokens with new texts in the regions. -/
theorem visitAll_eq (tokens : List Document.Token) (state : Expansion σ) :
    visitAll listener tokens state =
      match fillings listener tokens state with
      | .ok outputs state' => .ok (textOf (refill tokens outputs)) state'
      | .error anomaly state' => .error anomaly state' := by
  induction tokens generalizing state with
  | nil => rfl
  | cons token tokens ih =>
      cases h : token.body? with
      | none =>
          -- the token is written as it stands, so only the state matters
          rw [fillings_cons_apply h, visitAll_cons_apply, visit_eq h]
          cases visit listener token state with
          | error anomaly state' => rfl
          | ok text state' =>
              simp only
              rw [ih]
              cases fillings listener tokens state' with
              | error => rfl
              | ok outputs state'' =>
                  simp only
                  rw [refill_cons h, textOf_cons]
      | some body =>
          obtain ⟨opening, closing, rfl⟩ := body?_eq_some.mp h
          have hvisit : visit listener (.region opening body closing) state =
              .ok (opening ++ state.pending ++ closing) state := rfl
          rw [fillings_region_apply, visitAll_cons_apply, hvisit]
          simp only
          rw [ih]
          cases fillings listener tokens state with
          | error => rfl
          | ok outputs state' =>
              simp only
              rw [refill_region, textOf_cons]
              rfl

theorem length_of_fillings {tokens : List Document.Token} {state state' : Expansion σ}
    {outputs : List Text} (h : fillings listener tokens state = .ok outputs state') :
    outputs.length = (bodiesOf tokens).length := by
  induction tokens generalizing state state' outputs with
  | nil =>
      obtain ⟨rfl, -⟩ := EStateM.Result.ok.inj h
      rfl
  | cons token tokens ih =>
      cases hbody : token.body? with
      | none =>
          rw [fillings_cons_apply hbody] at h
          split at h
          · next text state'' _ =>
              rw [bodiesOf_cons hbody]
              exact ih h
          · simp at h
      | some body =>
          obtain ⟨opening, closing, rfl⟩ := body?_eq_some.mp hbody
          rw [fillings_region_apply] at h
          split at h
          · next later state'' hlater =>
              obtain ⟨rfl, -⟩ := EStateM.Result.ok.inj h
              rw [bodiesOf_region, List.length_cons, List.length_cons, ih hlater]
          · simp at h

/-- What was in the regions before plays no part in what they receive. -/
theorem fillings_refill (listener : Listener σ) (tokens : List Document.Token)
    (outputs : List Text) :
    fillings listener (refill tokens outputs) = fillings listener tokens := by
  induction tokens generalizing outputs with
  | nil => simp
  | cons token tokens ih =>
      cases hbody : token.body? with
      | none => rw [refill_cons hbody, fillings_cons hbody, fillings_cons hbody, ih]
      | some body =>
          obtain ⟨opening, closing, rfl⟩ := body?_eq_some.mp hbody
          cases outputs with
          | nil => simp
          | cons output outputs =>
              rw [refill_region]
              simp only [fillings]
              rw [ih]

end CommentMacro.Expansion

namespace CommentMacro

open Document Expansion

/-- The text of an expanded document is that of its tokens with new texts in the
regions. -/
theorem expandTokens_eq_ok_iff {σ : Type} {scoping : Scoping} {listener : Listener σ}
    {heard heard' : σ} {tokens : List Document.Token} {output : Text} :
    expandTokens scoping listener heard tokens = .ok (output, heard') ↔
      ∃ outputs state, fillings listener tokens (.start scoping heard) = .ok outputs state ∧
        output = textOf (refill tokens outputs) ∧ heard' = state.heard := by
  rw [expandTokens, visitAll_eq]
  cases hfillings : fillings listener tokens (.start scoping heard) with
  | ok outputs state =>
      simp only [Except.ok.injEq, Prod.mk.injEq, EStateM.Result.ok.injEq]
      constructor
      · rintro ⟨rfl, rfl⟩
        exact ⟨outputs, state, ⟨rfl, rfl⟩, rfl, rfl⟩
      · rintro ⟨_, _, ⟨rfl, rfl⟩, rfl, rfl⟩
        exact ⟨rfl, rfl⟩
  | error anomaly state => simp

end CommentMacro
