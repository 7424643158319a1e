import CommentMacro.Document.Token

/-!
# Putting texts into regions

`refill tokens outputs` puts one text after another into the regions among tokens
and leaves everything else as it is. What is in the regions can be read off again
(`bodiesOf_refill`), and what was there before does not matter (`refill_refill`).
-/

namespace CommentMacro.Document

def Token.body? : Token → Option Text
  | region _ body _ => some body
  | _ => none

def regionsOf (tokens : List Token) : List Token :=
  tokens.filter fun token => token.body?.isSome

def bodiesOf (tokens : List Token) : List Text :=
  tokens.filterMap Token.body?

def Token.withBody (output : Text) : Token → Token
  | region opening _ closing => region opening output closing
  | token => token

/-- Puts texts into the regions among tokens, in order. If there are too few, the
last regions stay. -/
def refill : List Token → List Text → List Token
  | [], _ => []
  | tokens, [] => tokens
  | token :: tokens, output :: outputs =>
    if token.body?.isSome then token.withBody output :: refill tokens outputs
    else token :: refill tokens (output :: outputs)

/-! ## One token -/

theorem body?_eq_some {token : Token} {body : Text} :
    token.body? = some body ↔ ∃ opening closing, token = .region opening body closing := by
  cases token <;> simp [Token.body?]

@[simp] theorem refill_nil (outputs : List Text) : refill [] outputs = [] := by
  cases outputs <;> rfl

@[simp] theorem refill_no_outputs (tokens : List Token) : refill tokens [] = tokens := by
  cases tokens <;> rfl

@[simp] theorem refill_region (opening body closing output : Text) (tokens : List Token)
    (outputs : List Text) :
    refill (.region opening body closing :: tokens) (output :: outputs) =
      .region opening output closing :: refill tokens outputs :=
  rfl

theorem refill_cons {token : Token} (h : token.body? = none) (tokens : List Token)
    (outputs : List Text) : refill (token :: tokens) outputs = token :: refill tokens outputs := by
  cases outputs with
  | nil => simp
  | cons output outputs => simp [refill, h]

@[simp] theorem bodiesOf_region (opening body closing : Text) (tokens : List Token) :
    bodiesOf (.region opening body closing :: tokens) = body :: bodiesOf tokens :=
  rfl

theorem bodiesOf_cons {token : Token} (h : token.body? = none) (tokens : List Token) :
    bodiesOf (token :: tokens) = bodiesOf tokens := by
  rw [bodiesOf, List.filterMap_cons, h]
  rfl

theorem bodiesOf_append (first second : List Token) :
    bodiesOf (first ++ second) = bodiesOf first ++ bodiesOf second :=
  List.filterMap_append

theorem regionsOf_cons {token : Token} (h : token.body? = none) (tokens : List Token) :
    regionsOf (token :: tokens) = regionsOf tokens := by
  simp [regionsOf, h]

theorem regionsOf_append (first second : List Token) :
    regionsOf (first ++ second) = regionsOf first ++ regionsOf second :=
  List.filter_append ..

@[simp] theorem regionsOf_region (opening body closing : Text) (tokens : List Token) :
    regionsOf (.region opening body closing :: tokens) =
      .region opening body closing :: regionsOf tokens :=
  rfl

/-! ## All tokens -/

theorem length_regionsOf (tokens : List Token) :
    (regionsOf tokens).length = (bodiesOf tokens).length := by
  induction tokens with
  | nil => rfl
  | cons token tokens ih =>
      cases h : token.body? with
      | none => rw [bodiesOf_cons h, regionsOf_cons h, ih]
      | some body =>
          obtain ⟨opening, closing, rfl⟩ := body?_eq_some.mp h
          simp [ih]

theorem regionsOf_eq_nil {tokens : List Token} (h : bodiesOf tokens = []) :
    regionsOf tokens = [] := by
  rw [bodiesOf, List.filterMap_eq_nil_iff] at h
  rw [regionsOf, List.filter_eq_nil_iff]
  intro token hmem
  simp [h token hmem]

theorem bodiesOf_eq_regionsOf (tokens : List Token) :
    bodiesOf tokens = bodiesOf (regionsOf tokens) := by
  induction tokens with
  | nil => rfl
  | cons token tokens ih =>
      cases h : token.body? with
      | none => rw [bodiesOf_cons h, regionsOf_cons h, ih]
      | some body =>
          obtain ⟨opening, closing, rfl⟩ := body?_eq_some.mp h
          rw [regionsOf_region, bodiesOf_region, bodiesOf_region, ih]

/-- Putting back what is there changes nothing. -/
theorem refill_bodiesOf (tokens : List Token) : refill tokens (bodiesOf tokens) = tokens := by
  induction tokens with
  | nil => rfl
  | cons token tokens ih =>
      cases h : token.body? with
      | none => rw [bodiesOf_cons h, refill_cons h, ih]
      | some body =>
          obtain ⟨opening, closing, rfl⟩ := body?_eq_some.mp h
          rw [bodiesOf_region, refill_region, ih]

/-- What was put into the regions is there. -/
theorem bodiesOf_refill {tokens : List Token} {outputs : List Text}
    (hlength : outputs.length = (bodiesOf tokens).length) :
    bodiesOf (refill tokens outputs) = outputs := by
  induction tokens generalizing outputs with
  | nil =>
      obtain rfl := List.length_eq_zero_iff.mp hlength
      rfl
  | cons token tokens ih =>
      cases h : token.body? with
      | none =>
          rw [bodiesOf_cons h] at hlength
          rw [refill_cons h, bodiesOf_cons h, ih hlength]
      | some body =>
          obtain ⟨opening, closing, rfl⟩ := body?_eq_some.mp h
          cases outputs with
          | nil => simp at hlength
          | cons output outputs =>
              rw [refill_region, bodiesOf_region, ih (by simpa using hlength)]

/-- What was in the regions before does not matter. -/
theorem refill_refill {tokens : List Token} {outputs outputs' : List Text}
    (hlength : outputs'.length = (bodiesOf tokens).length) :
    refill (refill tokens outputs) outputs' = refill tokens outputs' := by
  induction tokens generalizing outputs outputs' with
  | nil => simp
  | cons token tokens ih =>
      cases h : token.body? with
      | none =>
          rw [bodiesOf_cons h] at hlength
          rw [refill_cons h, refill_cons h, refill_cons h, ih hlength]
      | some body =>
          obtain ⟨opening, closing, rfl⟩ := body?_eq_some.mp h
          cases outputs' with
          | nil => simp at hlength
          | cons output' outputs' =>
              cases outputs with
              | nil => simp
              | cons output outputs =>
                  rw [refill_region, refill_region, refill_region, ih (by simpa using hlength)]

theorem refill_append {front : List Token} (h : bodiesOf front = []) (tokens : List Token)
    (outputs : List Text) : refill (front ++ tokens) outputs = front ++ refill tokens outputs := by
  induction front with
  | nil => rfl
  | cons token front ih =>
      cases hbody : token.body? with
      | none =>
          rw [bodiesOf_cons hbody] at h
          rw [List.cons_append, refill_cons hbody, ih h, List.cons_append]
      | some body =>
          rw [bodiesOf, List.filterMap_cons, hbody] at h
          simp at h

theorem textOf_refill_region {front : List Token} (h : bodiesOf front = [])
    (opening body closing output : Text) (tokens : List Token) (outputs : List Text) :
    textOf (refill (front ++ .region opening body closing :: tokens) (output :: outputs)) =
      textOf front ++ (opening ++ (output ++ (closing ++ textOf (refill tokens outputs)))) := by
  rw [refill_append h, refill_region, textOf_append, textOf_cons]
  simp [Token.text]

end CommentMacro.Document
