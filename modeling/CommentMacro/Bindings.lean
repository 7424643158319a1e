import CommentMacro.Text.Basic

/-!
# Bindings in insertion order

Names bound to values, in the order in which the names were first bound. Binding
a name again replaces its value and keeps its place, so the order that a reader
sees depends on the first binding and the value on the last.
-/

namespace CommentMacro

/-- Names with their values, in the order of first binding. -/
abbrev Bindings (α : Type) := List (Text × α)

namespace Bindings

variable {α : Type}

def get? (name : Text) : Bindings α → Option α
  | [] => none
  | (key, value) :: rest => if key = name then some value else get? name rest

/-- Binds a name: in its old place if it is bound already, else at the end. -/
def insert (name : Text) (value : α) : Bindings α → Bindings α
  | [] => [(name, value)]
  | (key, old) :: rest =>
    if key = name then (key, value) :: rest else (key, old) :: insert name value rest

def ofList (entries : List (Text × α)) : Bindings α :=
  entries.foldl (fun bindings entry => insert entry.1 entry.2 bindings) []

def names (bindings : Bindings α) : List Text :=
  bindings.map (·.1)

theorem mem_of_get? {name : Text} {value : α} {bindings : Bindings α}
    (h : get? name bindings = some value) : (name, value) ∈ bindings := by
  induction bindings with
  | nil => simp [get?] at h
  | cons entry rest ih =>
      obtain ⟨key, old⟩ := entry
      simp only [get?] at h
      split at h
      · next hkey =>
          obtain rfl := Option.some.inj h
          rw [hkey]
          exact List.mem_cons_self
      · exact List.mem_cons_of_mem _ (ih h)

/-- Binding a name adds its value and nothing else. -/
theorem mem_insert {name : Text} {value : α} {bindings : Bindings α} {entry : Text × α}
    (h : entry ∈ insert name value bindings) : entry.2 = value ∨ entry ∈ bindings := by
  induction bindings with
  | nil => simp_all [insert]
  | cons first rest ih =>
      obtain ⟨key, old⟩ := first
      simp only [insert] at h
      split at h
      · rcases List.mem_cons.mp h with rfl | h
        · exact .inl rfl
        · exact .inr (List.mem_cons_of_mem _ h)
      · rcases List.mem_cons.mp h with rfl | h
        · exact .inr List.mem_cons_self
        · exact (ih h).imp_right (List.mem_cons_of_mem _)

theorem mem_ofList {entries : List (Text × α)} {entry : Text × α} (h : entry ∈ ofList entries) :
    ∃ given ∈ entries, entry.2 = given.2 := by
  have hfold : ∀ (entries : List (Text × α)) (bindings : Bindings α),
      entry ∈ entries.foldl (fun bindings given => insert given.1 given.2 bindings) bindings →
      entry ∈ bindings ∨ ∃ given ∈ entries, entry.2 = given.2 := by
    intro entries
    induction entries with
    | nil => exact fun _ => .inl
    | cons given entries ih =>
        intro bindings hmem
        rcases ih _ hmem with hmem | ⟨later, hlater, heq⟩
        · rcases mem_insert hmem with heq | hmem
          · exact .inr ⟨given, List.mem_cons_self, heq⟩
          · exact .inl hmem
        · exact .inr ⟨later, List.mem_cons_of_mem _ hlater, heq⟩
  exact (hfold entries [] h).resolve_left List.not_mem_nil

theorem get?_map {β : Type} (f : α → β) (name : Text) (bindings : Bindings α) :
    get? name (bindings.map fun entry => (entry.1, f entry.2)) = (get? name bindings).map f := by
  induction bindings with
  | nil => rfl
  | cons entry rest ih =>
      simp only [List.map_cons, get?, ih]
      split <;> rfl

theorem insert_map {β : Type} (f : α → β) (name : Text) (value : α) (bindings : Bindings α) :
    insert name (f value) (bindings.map fun entry => (entry.1, f entry.2)) =
      (insert name value bindings).map fun entry => (entry.1, f entry.2) := by
  induction bindings with
  | nil => rfl
  | cons entry rest ih =>
      simp only [List.map_cons, insert, ih]
      split <;> rfl

@[simp] theorem get?_insert_self (name : Text) (value : α) (bindings : Bindings α) :
    get? name (insert name value bindings) = some value := by
  induction bindings with
  | nil => simp [insert, get?]
  | cons entry rest ih =>
      obtain ⟨key, old⟩ := entry
      by_cases h : key = name <;> simp [insert, get?, h, ih]

theorem get?_insert_of_ne {name other : Text} (h : other ≠ name) (value : α)
    (bindings : Bindings α) : get? other (insert name value bindings) = get? other bindings := by
  induction bindings with
  | nil => simp [insert, get?, Ne.symm h]
  | cons entry rest ih =>
      obtain ⟨key, old⟩ := entry
      by_cases hk : key = name
      · subst hk; simp [insert, get?, Ne.symm h]
      · simp [insert, get?, hk, ih]

/-- A name that is bound again keeps its place; a new one goes to the end. -/
theorem names_insert (name : Text) (value : α) (bindings : Bindings α) :
    names (insert name value bindings) =
      if name ∈ names bindings then names bindings else names bindings ++ [name] := by
  induction bindings with
  | nil => simp [insert, names]
  | cons entry rest ih =>
      obtain ⟨key, old⟩ := entry
      by_cases hk : key = name
      · simp [insert, names, hk]
      · simp only [names] at ih
        simp only [insert, hk, names, if_false, List.map_cons, ih, List.mem_cons,
          Ne.symm hk, false_or]
        split <;> simp [*]

end Bindings

end CommentMacro
