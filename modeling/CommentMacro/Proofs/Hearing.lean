import CommentMacro.Proofs.Computation

/-!
# What listeners hear

No computation of the library looks at what has been heard: it tells its listener of
anomalies, and the listener refuses one of them or does not. So what a computation
does is foretold by the anomalies it meets (`Foretold`), one list of them for all
listeners: the listener hears them in order, and if it refuses none of them the result
is the same for everyone.

The states of the computations differ in what stands beside what has been heard. This
is `make`, which puts the two parts of a state together.
-/

namespace CommentMacro

/-- Hears of anomalies one after another, up to the first that is refused. -/
def Listener.hearAll {σ : Type} (listener : Listener σ) (anomalies : List Anomaly) (heard : σ) :
    Except Anomaly σ :=
  anomalies.foldlM (fun heard anomaly => listener.hear anomaly heard) heard

namespace Listener

variable {σ : Type} {listener : Listener σ}

@[simp] theorem hearAll_nil (heard : σ) : listener.hearAll [] heard = .ok heard :=
  rfl

theorem hearAll_cons (anomaly : Anomaly) (anomalies : List Anomaly) (heard : σ) :
    listener.hearAll (anomaly :: anomalies) heard =
      match listener.hear anomaly heard with
      | .ok heard' => listener.hearAll anomalies heard'
      | .error refused => .error refused := by
  rw [hearAll, List.foldlM_cons]
  cases listener.hear anomaly heard <;> rfl

theorem hearAll_append (first later : List Anomaly) (heard : σ) :
    listener.hearAll (first ++ later) heard =
      match listener.hearAll first heard with
      | .ok heard' => listener.hearAll later heard'
      | .error refused => .error refused := by
  rw [hearAll, List.foldlM_append]
  show (listener.hearAll first heard >>= fun heard' => listener.hearAll later heard') = _
  cases listener.hearAll first heard <;> rfl

/-- Who never refuses hears all. -/
theorem Patient.exists_hearAll (h : listener.Patient) (anomalies : List Anomaly) (heard : σ) :
    ∃ heard', listener.hearAll anomalies heard = .ok heard' := by
  induction anomalies generalizing heard with
  | nil => exact ⟨heard, rfl⟩
  | cons anomaly anomalies ih =>
      obtain ⟨heard', hhear⟩ := h anomaly heard
      rw [hearAll_cons, hhear]
      exact ih heard'

/-- The record of what was heard before grows by all of the anomalies. -/
theorem hearAll_recording (anomalies before : List Anomaly) :
    recording.hearAll anomalies before = .ok (before ++ anomalies) := by
  induction anomalies generalizing before with
  | nil => simp
  | cons anomaly anomalies ih =>
      rw [hearAll_cons]
      show recording.hearAll anomalies (before ++ [anomaly]) = _
      rw [ih, List.append_assoc, List.singleton_append]

theorem hearAll_silent (anomalies : List Anomaly) : silent.hearAll anomalies () = .ok () := by
  induction anomalies with
  | nil => rfl
  | cons anomaly anomalies ih => rw [hearAll_cons]; exact ih

def warningLine (anomaly : Anomaly) : Text :=
  "Warning: ".toList ++ anomaly.warning ++ ['\n']

theorem hear_reporting (anomaly : Anomaly) (before : Text) :
    reporting.hear anomaly before = .ok (before ++ warningLine anomaly) := by
  have hline : before ++ warningLine anomaly =
      before ++ "Warning: ".toList ++ anomaly.warning ++ ['\n'] := by
    unfold warningLine
    simp only [List.append_assoc]
  rw [hline]
  rfl

/-- There is one warning line for each anomaly. -/
theorem hearAll_reporting (anomalies : List Anomaly) (before : Text) :
    reporting.hearAll anomalies before = .ok (before ++ anomalies.flatMap warningLine) := by
  induction anomalies generalizing before with
  | nil => simp
  | cons anomaly anomalies ih =>
      rw [hearAll_cons, hear_reporting]
      simp only
      rw [ih, List.flatMap_cons, List.append_assoc]

/-- Only the first anomaly is heard of by who refuses it. -/
theorem hearAll_strict (anomalies : List Anomaly) :
    strict.hearAll anomalies () =
      match anomalies with
      | [] => .ok ()
      | first :: _ => .error first := by
  cases anomalies <;> rfl

end Listener

/-! ## Computations that are foretold -/

section

variable {State : Type → Type} {ρ α β : Type}

/-- From every state the anomalies that a computation meets, its result and what it
leaves beside what has been heard are the same for all listeners; so what each of them
makes of these anomalies says how the computation ends. -/
def Foretold (make : ∀ σ : Type, ρ → σ → State σ)
    (run : ∀ σ : Type, Listener σ → EStateM Anomaly (State σ) α) : Prop :=
  ∀ rest, ∃ result rest' anomalies, ∀ (σ : Type) (listener : Listener σ) (heard : σ),
    match listener.hearAll anomalies heard with
    | .ok heard' => run σ listener (make σ rest heard) = .ok result (make σ rest' heard')
    | .error refused => ∃ state, run σ listener (make σ rest heard) = .error refused state

variable {make : ∀ σ : Type, ρ → σ → State σ}

theorem foretold_pure (a : α) : Foretold make fun _ _ => pure a :=
  fun rest => ⟨a, rest, [], fun _ _ _ => rfl⟩

theorem foretold_bind {run : ∀ σ : Type, Listener σ → EStateM Anomaly (State σ) α}
    {next : α → ∀ σ : Type, Listener σ → EStateM Anomaly (State σ) β} (h : Foretold make run)
    (hnext : ∀ a, Foretold make (next a)) :
    Foretold make fun σ listener => run σ listener >>= fun a => next a σ listener := by
  intro rest
  obtain ⟨a, middle, first, hfirst⟩ := h rest
  obtain ⟨b, rest', later, hlater⟩ := hnext a middle
  refine ⟨b, rest', first ++ later, fun σ listener heard => ?_⟩
  have hrun := hfirst σ listener heard
  rw [Listener.hearAll_append]
  cases hheard : listener.hearAll first heard with
  | error refused =>
      rw [hheard] at hrun
      obtain ⟨state, hrun⟩ := hrun
      refine ⟨state, ?_⟩
      show (run σ listener >>= fun a => next a σ listener) (make σ rest heard) = _
      rw [bind_apply, hrun]
  | ok heard' =>
      rw [hheard] at hrun
      simp only [bind_apply, hrun]
      exact hlater σ listener heard'

/-- A computation that reads the state, but not what has been heard. -/
theorem foretold_get {next : ∀ σ : Type, Listener σ → State σ → EStateM Anomaly (State σ) α}
    (h : ∀ rest, ∃ view, Foretold make view ∧
      ∀ σ listener heard, next σ listener (make σ rest heard) = view σ listener) :
    Foretold make fun σ listener => get >>= next σ listener := by
  intro rest
  obtain ⟨view, hforetold, hview⟩ := h rest
  obtain ⟨result, rest', anomalies, htold⟩ := hforetold rest
  refine ⟨result, rest', anomalies, fun σ listener heard => ?_⟩
  have hget : (get >>= next σ listener) (make σ rest heard) =
      view σ listener (make σ rest heard) := by
    rw [bind_apply, ← hview σ listener heard]
    rfl
  simp only [hget]
  exact htold σ listener heard

/-- A change of the state, but not of what has been heard. -/
theorem foretold_modify {change : ∀ σ : Type, State σ → State σ} (f : ρ → ρ)
    (hf : ∀ σ rest heard, change σ (make σ rest heard) = make σ (f rest) heard) :
    Foretold make fun σ _ => modify (change σ) := by
  refine fun rest => ⟨⟨⟩, f rest, [], fun σ listener heard => ?_⟩
  show EStateM.Result.ok PUnit.unit (change σ (make σ rest heard)) = _
  rw [hf]

/-- Everyone who refuses nothing comes to the result that nobody listens to. -/
theorem Foretold.alike {run : ∀ σ : Type, Listener σ → EStateM Anomaly (State σ) α}
    (h : Foretold make run) (rest : ρ) :
    ∃ result rest', run Unit .silent (make Unit rest ()) = .ok result (make Unit rest' ()) ∧
      ∀ (σ : Type) (listener : Listener σ) (heard : σ), listener.Patient →
        ∃ heard', run σ listener (make σ rest heard) = .ok result (make σ rest' heard') := by
  obtain ⟨result, rest', anomalies, htold⟩ := h rest
  refine ⟨result, rest', ?_, fun σ listener heard hpatient => ?_⟩
  · have hrun := htold Unit .silent ()
    rw [Listener.hearAll_silent] at hrun
    exact hrun
  · obtain ⟨heard', hheard⟩ := hpatient.exists_hearAll anomalies heard
    have hrun := htold σ listener heard
    rw [hheard] at hrun
    exact ⟨heard', hrun⟩

/-- Whoever comes to a result comes to the one that nobody listens to. -/
theorem Foretold.result_eq {run : ∀ σ : Type, Listener σ → EStateM Anomaly (State σ) α}
    (h : Foretold make run) (rest : ρ) :
    ∃ result rest', run Unit .silent (make Unit rest ()) = .ok result (make Unit rest' ()) ∧
      ∀ (σ : Type) (listener : Listener σ) (heard : σ) (a : α) (state : State σ),
        run σ listener (make σ rest heard) = .ok a state → a = result := by
  obtain ⟨result, rest', anomalies, htold⟩ := h rest
  refine ⟨result, rest', ?_, fun σ listener heard a state hok => ?_⟩
  · have hrun := htold Unit .silent ()
    rw [Listener.hearAll_silent] at hrun
    exact hrun
  · have hrun := htold σ listener heard
    cases hheard : listener.hearAll anomalies heard with
    | ok heard' =>
        rw [hheard] at hrun
        exact (EStateM.Result.ok.inj (hok.symm.trans hrun)).1
    | error refused =>
        rw [hheard] at hrun
        obtain ⟨state', hrun⟩ := hrun
        exact nomatch hok.symm.trans hrun

/-- What is foretold completes, if nobody refuses to go on. -/
theorem Foretold.completes {run : ∀ σ : Type, Listener σ → EStateM Anomaly (State σ) α}
    (h : Foretold make run) {σ : Type} {listener : Listener σ} (hpatient : listener.Patient)
    (hmake : ∀ state, ∃ rest heard, state = make σ rest heard) : Completes (run σ listener) := by
  intro state
  obtain ⟨rest, heard, rfl⟩ := hmake state
  obtain ⟨result, rest', -, hrun⟩ := h.alike rest
  obtain ⟨heard', hrun⟩ := hrun σ listener heard hpatient
  exact ⟨result, make σ rest' heard', hrun⟩

end

def onlyHeard (σ : Type) (_ : Unit) (heard : σ) : σ :=
  heard

theorem foretold_report (anomaly : Anomaly) :
    Foretold onlyHeard fun _ listener => listener.report anomaly := by
  refine fun rest => ⟨(), (), [anomaly], fun σ listener heard => ?_⟩
  rw [Listener.hearAll_cons]
  simp only [Listener.report, onlyHeard]
  cases listener.hear anomaly heard with
  | ok heard' => rfl
  | error refused => exact ⟨heard, rfl⟩

end CommentMacro
