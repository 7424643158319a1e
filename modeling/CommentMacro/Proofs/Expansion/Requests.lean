import CommentMacro.Proofs.Expansion.Independence
import CommentMacro.Proofs.Template.Leftovers

/-!
# Requests that are refused

A listener may refuse to go on in the middle of a request. The expansion is then what the
request has left of it, and can be asked again. Whatever it is asked for, and whatever of
that is refused, it holds one frame of data and the macros of the definitions that were not
refused (`Sound.after`); and a request that is refused leaves the macros and the output of
the last call alone, unless it calls an unknown macro (`run_refused`).
-/

namespace CommentMacro

open Document

namespace Expansion

variable {σ : Type} {listener : Listener σ}

/-- What an expansion is asked for: to visit a token, or to render a call. -/
inductive Request where
  | visit (token : Document.Token)
  | invoke (source : Text)
  deriving DecidableEq, Repr, Inhabited

namespace Request

def run (listener : Listener σ) : Request → Step σ Unit
  | visit token => do
    let _ ← Expansion.visit listener token
    return
  | invoke source => Expansion.invoke listener source

def source? : Request → Option Text
  | visit (.invocation _ source) => some source
  | visit _ => none
  | invoke source => some source

/-- Whether a request calls, by a name, a macro that is not defined. -/
def CallsUnknown (request : Request) (state : Expansion σ) : Prop :=
  ∃ source ∈ request.source?, (Call.parse source).name ≠ [] ∧
    Bindings.get? (Call.parse source).name state.macros = none

def token? : Request → Option Document.Token
  | visit token => some token
  | invoke _ => none

/-- The token that a request visits without being refused. -/
def visited (listener : Listener σ) (request : Request) (state : Expansion σ) :
    List Document.Token :=
  match request.run listener state with
  | .ok _ _ => request.token?.toList
  | .error _ _ => []

end Request

def after (listener : Listener σ) : List Request → Expansion σ → Expansion σ
  | [], state => state
  | request :: requests, state =>
    after listener requests (stateAfter (request.run listener) state)

def visitedAll (listener : Listener σ) : List Request → Expansion σ → List Document.Token
  | [], _ => []
  | request :: requests, state =>
    request.visited listener state ++
      visitedAll listener requests (stateAfter (request.run listener) state)

/-! ## What a request does -/

namespace Request

/-- A visit does what its token says, and then only gives a text. -/
theorem visit_apply {inner : Step σ Unit} (text : Text) (state : Expansion σ) :
    (do
      let _ ← (do inner; return text : Step σ Text)
      return : Step σ Unit) state = inner state := by
  simp only [bind_apply]
  cases inner state <;> rfl

variable (state : Expansion σ)

theorem run_macroDefinition (text name : Text) (parameters : List Text) (body : Text) :
    (visit (.macroDefinition text name parameters body)).run listener state =
      defineMacro listener name parameters body state :=
  visit_apply text state

theorem run_invocation (text source : Text) :
    (visit (.invocation text source)).run listener state = Expansion.invoke listener source state :=
  visit_apply text state

end Request

/-! ## What requests keep -/

section

variable {holds : Expansion σ → Prop}

theorem keeps_listening {α : Type}
    (h : ∀ state heard, holds state → holds { state with heard := heard })
    (inner : Watched σ α) : Keeps holds (listening inner) := by
  intro state hstate
  rw [listening]
  cases inner state.heard <;> exact h _ _ hstate

/-- A call keeps what renderings, a new output and what is heard keep. -/
theorem keeps_invoke
    (hrender : ∀ definition arguments,
      Keeps holds (rendering (Template.Macro.render definition arguments listener)))
    (hpending : ∀ state output, holds state → holds { state with pending := output })
    (hheard : ∀ state heard, holds state → holds { state with heard := heard })
    (source : Text) : Keeps holds (invoke listener source) := by
  simp only [invoke]
  split
  · exact keeps_pure ()
  · refine keeps_bind keeps_get fun state => ?_
    split
    · exact keeps_bind (hrender _ _) fun output => keeps_modify fun _ => hpending _ output
    · exact keeps_bind (keeps_modify fun _ => hpending _ []) fun _ => keeps_listening hheard _

end

/-- A call leaves the macros alone. -/
theorem macros_invoke (listener : Listener σ) (source : Text) (state : Expansion σ) :
    (stateAfter (invoke listener source) state).macros = state.macros := by
  have hkeeps : Keeps (fun state' => state'.macros = state.macros) (invoke listener source) := by
    refine keeps_invoke (fun definition arguments state' h => ?_) (fun _ _ => id) (fun _ _ => id)
      source
    rw [rendering]
    cases definition.render arguments listener ⟨state'.scope, state'.heard⟩ <;> exact h
  exact hkeeps.stateAfter state rfl

/-- The scope holds one frame, the data. -/
def Framed (scoping : Scoping) (state : Expansion σ) : Prop :=
  ∃ data, state.scope = .ofData scoping data

variable {scoping : Scoping}

theorem framed_rendering (definition : Template.Macro) (arguments : List Value) :
    Keeps (Framed scoping) (rendering (definition.render arguments listener)) := by
  rintro state ⟨data, hdata⟩
  obtain ⟨data', hleft, -⟩ :=
    Template.sparing_render definition arguments listener scoping data state.heard
  rw [rendering, hdata]
  cases hrender : definition.render arguments listener ⟨.ofData scoping data, state.heard⟩ with
  | ok output machine =>
      rw [stateAfter_of_ok hrender] at hleft
      exact ⟨data', hleft⟩
  | error anomaly machine =>
      rw [stateAfter_of_error hrender] at hleft
      exact ⟨data', hleft⟩

theorem framed_invoke (source : Text) :
    Keeps (Framed scoping) (invoke listener source) :=
  keeps_invoke framed_rendering (fun _ _ => id) (fun _ _ => id) source

theorem framed_visit (token : Document.Token) :
    Keeps (Framed scoping) (visit listener token) := by
  cases token with
  | region opening body closing => exact keeps_bind keeps_get fun _ => keeps_pure _
  | tableDefinition text name body =>
      refine keeps_bind (keeps_modify fun state h => ?_) fun _ => keeps_pure text
      obtain ⟨data, hdata⟩ := h
      exact ⟨_, by rw [hdata]; rfl⟩
  | macroDefinition text name parameters body =>
      have hdefine : Keeps (Framed scoping) (defineMacro listener name parameters body) :=
        keeps_bind (keeps_listening (fun _ _ => id) _) fun _ => keeps_modify fun _ => id
      exact keeps_bind hdefine fun _ => keeps_pure text
  | invocation text source => exact keeps_bind (framed_invoke source) fun _ => keeps_pure text
  | _ => exact keeps_pure _

theorem framed_run : ∀ request : Request, Keeps (Framed scoping) (request.run listener)
  | .visit token => keeps_bind (framed_visit token) fun _ => keeps_pure ()
  | .invoke source => framed_invoke source

/-! ## Requests that are refused -/

variable {state state' : Expansion σ} {anomaly : Anomaly}

/-- If a call is refused, its macro is unknown, and the output is empty, or the macro is not
rendered, and the output is the old one. -/
theorem invoke_refused {source : Text} (h : invoke listener source state = .error anomaly state') :
    ((Call.parse source).name ≠ [] ∧
      Bindings.get? (Call.parse source).name state.macros = none ∧ state'.pending = []) ∨
    (Bindings.get? (Call.parse source).name state.macros ≠ none ∧
      state'.pending = state.pending) := by
  cases hname : (Call.parse source).name.isEmpty with
  | true =>
      rw [invoke_nameless hname] at h
      exact nomatch h
  | false =>
      cases hfind : Bindings.get? (Call.parse source).name state.macros with
      | none =>
          rw [invoke_undefined hname hfind] at h
          split at h
          · exact nomatch h
          · obtain ⟨-, rfl⟩ := EStateM.Result.error.inj h
            exact .inl ⟨List.isEmpty_eq_false_iff.mp hname, rfl, rfl⟩
      | some definition =>
          rw [invoke_defined hname hfind] at h
          split at h
          · exact nomatch h
          · obtain ⟨-, rfl⟩ := EStateM.Result.error.inj h
            exact .inr ⟨nofun, rfl⟩

theorem call_refused {source : Text} {request : Request} (hsource : request.source? = some source)
    (h : invoke listener source state = .error anomaly state') :
    state'.macros = state.macros ∧ (request.CallsUnknown state → state'.pending = []) ∧
      (¬ request.CallsUnknown state → state'.pending = state.pending) := by
  have hmacros := macros_invoke listener source state
  rw [stateAfter_of_error h] at hmacros
  obtain ⟨hname, hfind, hpending⟩ | ⟨hfind, hpending⟩ := invoke_refused h
  · exact ⟨hmacros, fun _ => hpending, fun hknown => absurd ⟨source, hsource, hname, hfind⟩ hknown⟩
  · refine ⟨hmacros, fun ⟨source', hsource', _, hfind'⟩ => ?_, fun _ => hpending⟩
    obtain rfl := Option.some.inj (hsource.symm.trans hsource')
    exact absurd hfind' hfind

/-- What is refused leaves the macros alone, and the output as well, but for a call of an
unknown macro, which empties it. -/
theorem run_refused {request : Request} (h : request.run listener state = .error anomaly state') :
    state'.macros = state.macros ∧ (request.CallsUnknown state → state'.pending = []) ∧
      (¬ request.CallsUnknown state → state'.pending = state.pending) := by
  cases request with
  | invoke source => exact call_refused rfl h
  | visit token =>
      cases token with
      | invocation text source => exact call_refused rfl (Request.run_invocation .. ▸ h)
      | macroDefinition text name parameters body =>
          rw [Request.run_macroDefinition, defineMacro_apply] at h
          split at h
          · exact nomatch h
          · obtain ⟨-, rfl⟩ := EStateM.Result.error.inj h
            exact ⟨rfl, fun ⟨_, hsource, _⟩ => (nomatch hsource), fun _ => rfl⟩
      | _ => exact nomatch h

/-! ## Whatever is asked for -/

/-- What holds of an expansion once the given tokens have been visited, whatever was called
or refused in between. -/
structure Sound (scoping : Scoping) (tokens : List Document.Token) (state : Expansion σ) :
    Prop where
  framed : Framed scoping state
  registers : Registers tokens state.macros

theorem sound_start (scoping : Scoping) (heard : σ) : Sound scoping [] (start scoping heard) :=
  ⟨⟨[], rfl⟩, fun _ => rfl⟩

variable {tokens : List Document.Token}

/-- Only a visit that defines a macro changes the macros. -/
theorem macros_run {request : Request} (state : Expansion σ)
    (h : ∀ token ∈ request.token?, ∀ name, token.macroNamed? name = none) :
    (stateAfter (request.run listener) state).macros = state.macros := by
  cases request with
  | invoke source => exact macros_invoke listener source state
  | visit token =>
      cases token with
      | macroDefinition text name parameters body =>
          have hnamed := h _ rfl name
          simp [Token.macroNamed?] at hnamed
      | invocation text source =>
          rw [stateAfter, Request.run_invocation]
          exact macros_invoke listener source state
      | _ => rfl

/-- A request adds the token that it visits, and nothing if it is refused. -/
theorem registers_run (h : Registers tokens state.macros) (request : Request) :
    Registers (tokens ++ request.visited listener state)
      (stateAfter (request.run listener) state).macros := by
  cases hrun : request.run listener state with
  | error anomaly state' =>
      rw [stateAfter_of_error hrun, (run_refused hrun).1, Request.visited, hrun, List.append_nil]
      exact h
  | ok _ state' =>
      rw [Request.visited, hrun]
      cases request with
      | invoke source =>
          rw [macros_run state (by rintro _ ⟨⟩)]
          simpa [Request.token?] using h
      | visit token =>
          cases token with
          | macroDefinition text name parameters body =>
              rw [stateAfter_of_ok hrun]
              rw [Request.run_macroDefinition, defineMacro_apply] at hrun
              split at hrun
              · next read heard hparse =>
                  obtain ⟨-, rfl⟩ := EStateM.Result.ok.inj hrun
                  rw [Template.eq_tokensOf_of_parse hparse]
                  exact h.insert text name parameters body
              · exact nomatch hrun
          | _ =>
              rw [macros_run state (by rintro _ ⟨⟩ name; rfl)]
              exact h.append fun _ => rfl

theorem Sound.run (h : Sound scoping tokens state) (request : Request) :
    Sound scoping (tokens ++ request.visited listener state)
      (stateAfter (request.run listener) state) :=
  ⟨(framed_run request).stateAfter state h.framed, registers_run h.registers request⟩

theorem Sound.after (h : Sound scoping tokens state) (requests : List Request) :
    Sound scoping (tokens ++ visitedAll listener requests state)
      (after listener requests state) := by
  induction requests generalizing tokens state with
  | nil =>
      rw [visitedAll, List.append_nil]
      exact h
  | cons request requests ih =>
      rw [visitedAll, ← List.append_assoc]
      exact ih (h.run request)

/-- Whatever an expansion is asked for, and whatever the listener refuses of it, the
expansion holds one frame of data, and for each name the macro of the last definition that
was not refused, with its template read. From there a rendering that is or is not refused
leaves the data as they were with nested scoping, and with flat scoping up to the names that
loops of its template bind; and what is refused next leaves the macros alone, and the output
as well, but for a call of an unknown macro, which empties it. -/
theorem survives_refusals (listener : Listener σ) (scoping : Scoping) (heard : σ)
    (requests : List Request) :
    let state := after listener requests (start scoping heard)
    let visited := visitedAll listener requests (start scoping heard)
    (∃ data, state.scope = .ofData scoping data) ∧
    (∀ name, Bindings.get? name state.macros =
      (lastMacro? name visited).map fun found =>
        ⟨name, found.1, Template.tokensOf found.2⟩) ∧
    (∀ (definition : Template.Macro) (arguments : List Value) (data : Frame) (heard' : σ),
      Template.Sparing (Template.boundNames definition.tokens) scoping data
        (stateAfter (definition.render arguments listener) ⟨.ofData scoping data, heard'⟩).scope) ∧
    ∀ (request : Request) (anomaly : Anomaly) (state' : Expansion σ),
      request.run listener state = .error anomaly state' →
      state'.macros = state.macros ∧ (request.CallsUnknown state → state'.pending = []) ∧
        (¬ request.CallsUnknown state → state'.pending = state.pending) := by
  intro state visited
  have hsound : Sound scoping visited state := (sound_start scoping heard).after requests
  refine ⟨hsound.framed, hsound.registers, fun definition arguments data heard' => ?_,
    fun request anomaly state' h => run_refused h⟩
  exact Template.sparing_render definition arguments listener scoping data heard'

/-- A macro, a table and a call; then the macro is defined with a directive that says
nothing, and a call meets a name that nothing binds when its loop has bound `k` and `r`. -/
def faulty : List Request :=
  [.visit (.macroDefinition [] "HI".toList ["x".toList] "hi \x7b\x7bx\x7d\x7d".toList),
    .visit (.tableDefinition [] "T".toList "n\n0".toList),
    .invoke "HI(a)".toList,
    .visit (.macroDefinition [] "HI".toList [] "\x7b\x7b!\x7d\x7d".toList),
    .visit (.macroDefinition [] "SHOW".toList ["t".toList]
      "\x7b\x7bfor k,r of t\x7d\x7d\x7b\x7bz\x7d\x7d\x7b\x7b/for\x7d\x7d".toList),
    .invoke "SHOW(T)".toList]

/-- The two refusals leave the first definition and its output, and a call of an unknown
macro empties the output. -/
theorem survives_refusals_faulty :
    let state := after .strict faulty (start .flat ())
    let unknown := Request.invoke "NONE()".toList
    Bindings.get? "HI".toList state.macros =
        some ⟨"HI".toList, ["x".toList], Template.tokensOf "hi \x7b\x7bx\x7d\x7d".toList⟩ ∧
      state.pending = "hi a".toList ∧
      ∃ state', unknown.run .strict state =
          .error (.undefinedMacro "NONE".toList "NONE()".toList) state' ∧
        state'.macros = state.macros ∧ state'.pending = [] := by
  intro state unknown
  obtain ⟨-, hmacros, -, hrefused⟩ := survives_refusals .strict .flat () faulty
  have hlast : lastMacro? "HI".toList (visitedAll .strict faulty (start .flat ())) =
      some (["x".toList], "hi \x7b\x7bx\x7d\x7d".toList) := by decide +kernel
  have hunknown : Bindings.get? (Call.parse "NONE()".toList).name state.macros = none := by
    decide +kernel
  have hrun : unknown.run .strict state =
      .error (.undefinedMacro "NONE".toList "NONE()".toList) { state with pending := [] } := by
    clear_value state
    exact invoke_undefined (by decide +kernel) hunknown
  obtain ⟨hsame, hempty, -⟩ := hrefused unknown _ _ hrun
  refine ⟨?_, by decide +kernel, _, hrun, hsame, hempty ⟨_, rfl, by decide +kernel, hunknown⟩⟩
  rw [hmacros, hlast, Option.map_some]

end Expansion

end CommentMacro
