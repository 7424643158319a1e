import CommentMacro.Anomaly

/-!
# Computations with a state

Reading a template, rendering it and expanding a document are computations with a
state, which an anomaly may end. What they have in common is put together from their
parts:

- `Completes`: the computation comes to a result from every state.
- `Keeps`: something that holds of the state before also holds after it, also if an
  anomaly ends the computation.
- `Agree`: two computations do the same from every state of which something holds.
- `Related`: two computations, each with states of its own, do the like from states of
  which something holds.
-/

namespace CommentMacro

/-- A computation goes on where the one in front of it stopped. -/
theorem bind_apply {ε τ α β : Type} (inner : EStateM ε τ α) (next : α → EStateM ε τ β)
    (state : τ) :
    (inner >>= next) state =
      match inner state with
      | .ok a state' => next a state'
      | .error fault state' => .error fault state' := by
  show EStateM.bind inner next state = _
  unfold EStateM.bind
  cases inner state <;> rfl

theorem get_bind_apply {ε τ β : Type} (next : τ → EStateM ε τ β) (state : τ) :
    (get >>= next) state = next state state :=
  rfl

/-! ## Computations that complete -/

def Completes {ε σ α : Type} (inner : EStateM ε σ α) : Prop :=
  ∀ state, ∃ a state', inner state = .ok a state'

section

variable {ε σ α β : Type}

/-! ## What a computation keeps -/

/-- What holds of the state before a computation also holds after it, however it
ends. -/
def Keeps (holds : σ → Prop) (inner : EStateM ε σ α) : Prop :=
  ∀ state, holds state →
    match inner state with
    | .ok _ state' => holds state'
    | .error _ state' => holds state'

variable {holds : σ → Prop}

theorem keeps_pure (a : α) : Keeps holds (pure a : EStateM ε σ α) :=
  fun _ h => h

theorem keeps_get : Keeps holds (get : EStateM ε σ σ) :=
  fun _ h => h

theorem keeps_modify {f : σ → σ} (hf : ∀ state, holds state → holds (f state)) :
    Keeps holds (modify f : EStateM ε σ PUnit) :=
  hf

theorem keeps_bind {inner : EStateM ε σ α} {next : α → EStateM ε σ β}
    (h : Keeps holds inner) (hnext : ∀ a, Keeps holds (next a)) : Keeps holds (inner >>= next) := by
  intro state hstate
  have hmiddle := h state hstate
  rw [bind_apply]
  cases hinner : inner state with
  | ok a middle =>
      rw [hinner] at hmiddle
      exact hnext a middle hmiddle
  | error fault middle =>
      rw [hinner] at hmiddle
      exact hmiddle

/-- What is kept in each of several cases is kept without a look at the case. -/
theorem keeps_exists {ι : Type} {holds : ι → σ → Prop} {inner : EStateM ε σ α}
    (h : ∀ i, Keeps (holds i) inner) : Keeps (fun state => ∃ i, holds i state) inner := by
  rintro state ⟨i, hstate⟩
  have hlast := h i state hstate
  cases hinner : inner state with
  | ok a last =>
      rw [hinner] at hlast
      exact ⟨i, hlast⟩
  | error fault last =>
      rw [hinner] at hlast
      exact ⟨i, hlast⟩

/-- The state that a computation leaves, however it ends. -/
def stateAfter (inner : EStateM ε σ α) (state : σ) : σ :=
  match inner state with
  | .ok _ state' => state'
  | .error _ state' => state'

theorem stateAfter_of_ok {inner : EStateM ε σ α} {state state' : σ} {a : α}
    (h : inner state = .ok a state') : stateAfter inner state = state' := by
  rw [stateAfter, h]

theorem stateAfter_of_error {inner : EStateM ε σ α} {state state' : σ} {fault : ε}
    (h : inner state = .error fault state') : stateAfter inner state = state' := by
  rw [stateAfter, h]

theorem Keeps.stateAfter {inner : EStateM ε σ α} (h : Keeps holds inner) (state : σ)
    (hstate : holds state) : holds (stateAfter inner state) := by
  have hlast := h state hstate
  rw [CommentMacro.stateAfter]
  cases hinner : inner state with
  | ok a state' => rwa [hinner] at hlast
  | error fault state' => rwa [hinner] at hlast

/-! ## Computations that agree -/

def Agree (holds : σ → Prop) (first second : EStateM ε σ α) : Prop :=
  ∀ state, holds state → first state = second state

theorem Agree.refl (inner : EStateM ε σ α) : Agree holds inner inner :=
  fun _ _ => rfl

theorem Agree.symm {first second : EStateM ε σ α} (h : Agree holds first second) :
    Agree holds second first :=
  fun state hstate => (h state hstate).symm

theorem Agree.trans {first second third : EStateM ε σ α} (h : Agree holds first second)
    (h' : Agree holds second third) : Agree holds first third :=
  fun state hstate => (h state hstate).trans (h' state hstate)

theorem Agree.bind {first second : EStateM ε σ α} {next next' : α → EStateM ε σ β}
    (h : Agree holds first second) (hkeeps : Keeps holds first)
    (hnext : ∀ a, Agree holds (next a) (next' a)) :
    Agree holds (first >>= next) (second >>= next') := by
  intro state hstate
  have hmiddle := hkeeps state hstate
  rw [bind_apply, bind_apply, ← h state hstate]
  cases hfirst : first state with
  | ok a middle =>
      rw [hfirst] at hmiddle
      exact hnext a middle hmiddle
  | error fault middle => rfl

/-! ## Computations side by side -/

variable {τ γ δ : Type}

/-- Both computations came to results, of which `results` holds, and left states of
which `after` holds, or both were ended by the same anomaly. -/
def EndAlike (results : α → γ → Prop) (after : σ → τ → Prop) :
    EStateM.Result ε σ α → EStateM.Result ε τ γ → Prop
  | .ok a last, .ok c last' => results a c ∧ after last last'
  | .error fault _, .error fault' _ => fault = fault'
  | _, _ => False

/-- Two computations with states of their own, side by side: from states of which
`before` holds they end alike. -/
def Related (before : σ → τ → Prop) (results : α → γ → Prop) (after : σ → τ → Prop)
    (first : EStateM ε σ α) (second : EStateM ε τ γ) : Prop :=
  ∀ state state', before state state' → EndAlike results after (first state) (second state')

variable {before middle after after' : σ → τ → Prop}

theorem EndAlike.ok_or_error {results : α → γ → Prop} {first : EStateM.Result ε σ α}
    {second : EStateM.Result ε τ γ} (h : EndAlike results after first second) :
    (∃ a c last last', first = .ok a last ∧ second = .ok c last' ∧ results a c ∧
      after last last') ∨
    ∃ fault last last', first = .error fault last ∧ second = .error fault last' := by
  cases first with
  | ok a last =>
      cases second with
      | ok c last' => exact .inl ⟨a, c, last, last', rfl, rfl, h.1, h.2⟩
      | error fault last' => exact False.elim h
  | error fault last =>
      cases second with
      | ok c last' => exact False.elim h
      | error fault' last' =>
          obtain rfl : fault = fault' := h
          exact .inr ⟨fault, last, last', rfl, rfl⟩

theorem EndAlike.mono {results results' : α → γ → Prop} {first : EStateM.Result ε σ α}
    {second : EStateM.Result ε τ γ} (h : EndAlike results after first second)
    (hresults : ∀ a c, results a c → results' a c)
    (hafter : ∀ state state', after state state' → after' state state') :
    EndAlike results' after' first second := by
  obtain ⟨a, c, last, last', rfl, rfl, hac, hlast⟩ | ⟨fault, last, last', rfl, rfl⟩ :=
    h.ok_or_error
  · exact ⟨hresults a c hac, hafter last last' hlast⟩
  · rfl

theorem Related.mono {results results' : α → γ → Prop} {first : EStateM ε σ α}
    {second : EStateM ε τ γ} (h : Related before results after first second)
    (hresults : ∀ a c, results a c → results' a c) :
    Related before results' after first second :=
  fun state state' hstate => (h state state' hstate).mono hresults fun _ _ => id

theorem related_pure {results : α → γ → Prop} {a : α} {c : γ} (h : results a c) :
    Related before results before (pure a : EStateM ε σ α) (pure c) :=
  fun _ _ hstate => ⟨h, hstate⟩

theorem related_get : Related before before before (get : EStateM ε σ σ) get :=
  fun _ _ hstate => ⟨hstate, hstate⟩

theorem related_modify {f : σ → σ} {g : τ → τ}
    (h : ∀ state state', before state state' → after (f state) (g state')) :
    Related before (fun _ _ => True) after (modify f : EStateM ε σ PUnit) (modify g) :=
  fun state state' hstate => ⟨trivial, h state state' hstate⟩

theorem Related.bind {results : α → γ → Prop} {results' : β → δ → Prop}
    {first : EStateM ε σ α} {second : EStateM ε τ γ} {next : α → EStateM ε σ β}
    {next' : γ → EStateM ε τ δ} (h : Related before results middle first second)
    (hnext : ∀ a c, results a c → Related middle results' after (next a) (next' c)) :
    Related before results' after (first >>= next) (second >>= next') := by
  intro state state' hstate
  rw [bind_apply, bind_apply]
  obtain ⟨a, c, last, last', hfirst, hsecond, hresults, hlast⟩ |
    ⟨fault, last, last', hfirst, hsecond⟩ := (h state state' hstate).ok_or_error
  · rw [hfirst, hsecond]
    exact hnext a c hresults last last' hlast
  · rw [hfirst, hsecond]
    rfl

end

/-- A listener that never refuses to go on. -/
def Listener.Patient {σ : Type} (listener : Listener σ) : Prop :=
  ∀ anomaly heard, ∃ heard', listener.hear anomaly heard = .ok heard'

theorem Listener.patient_silent : Listener.silent.Patient :=
  fun _ _ => ⟨(), rfl⟩

end CommentMacro
