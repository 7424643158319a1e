import CommentMacro.Table
import Mathlib.Data.List.Induction

/-!
# The records of a table

A row becomes a record of the headers that are not empty, each one at its first place;
under a header stands the cell of the last column that has it (`isRecord_entry`). Both
follow from how bindings are made of a list of entries (`Bindings.names_ofList`,
`Bindings.get?_ofList`).

A row is left out if it has cells that are not empty, and each of these is a rule
(`isAlignment_iff`).
-/

namespace CommentMacro

namespace Bindings

variable {α : Type}

theorem ofList_concat (entries : List (Text × α)) (entry : Text × α) :
    ofList (entries ++ [entry]) = insert entry.1 entry.2 (ofList entries) := by
  rw [ofList, List.foldl_append]
  rfl

/-- The names are those of the entries, in the order of their first entries. -/
theorem names_ofList (entries : List (Text × α)) :
    names (ofList entries) = (entries.map Prod.fst).eraseDups := by
  induction entries using List.reverseRecOn with
  | nil => rfl
  | append_singleton entries entry ih =>
      have hmem : entry.1 ∈ names (ofList entries) ↔ entry.1 ∈ entries.map Prod.fst := by
        rw [ih, List.mem_eraseDups]
      rw [ofList_concat, names_insert, List.map_append, List.eraseDups_append, ← ih]
      by_cases h : entry.1 ∈ entries.map Prod.fst
      · rw [if_pos (hmem.mpr h)]
        simp [List.removeAll, List.mem_map.mp h]
      · rw [if_neg (mt hmem.mp h)]
        have hnone : ∀ value, (entry.1, value) ∉ entries := fun value hin =>
          h (List.mem_map.mpr ⟨_, hin, rfl⟩)
        simp [List.removeAll, hnone, List.eraseDups_cons]

/-- The value of a name is that of its last entry. -/
theorem get?_ofList (front : List (Text × α)) {name : Text} (value : α)
    {rest : List (Text × α)} (h : name ∉ rest.map Prod.fst) :
    get? name (ofList (front ++ (name, value) :: rest)) = some value := by
  induction rest using List.reverseRecOn with
  | nil => rw [ofList_concat, get?_insert_self]
  | append_singleton rest entry ih =>
      rw [List.map_append, List.mem_append, not_or] at h
      have hne : name ≠ entry.1 := by
        rintro rfl
        exact h.2 (by simp)
      rw [← List.cons_append, ← List.append_assoc, ofList_concat, get?_insert_of_ne hne, ih h.1]

end Bindings

namespace Table

/-! ## Alignment rows -/

/-- Dashes, with or without a colon at either end. -/
def IsRule (cell : Text) : Prop :=
  ∃ left right, (left = [] ∨ left = [':']) ∧ (right = [] ∨ right = [':']) ∧
    ∃ n, cell = left ++ List.replicate (n + 1) '-' ++ right

/-- Some cell is not empty, and all cells that are not empty are rules. -/
def IsAlignment (row : List Text) : Prop :=
  (∃ cell ∈ row, cell ≠ []) ∧ ∀ cell ∈ row, cell ≠ [] → IsRule cell

theorem dashes_iff {dashes : Text} :
    (!dashes.isEmpty && dashes.all (· == '-')) = true ↔
      ∃ n, dashes = List.replicate (n + 1) '-' := by
  rw [Bool.and_eq_true, List.all_eq_true]
  constructor
  · rintro ⟨hne, hall⟩
    have hlength : dashes.length ≠ 0 := by simpa using hne
    obtain ⟨n, hn⟩ := Nat.exists_eq_succ_of_ne_zero hlength
    exact ⟨n, List.eq_replicate_iff.mpr ⟨hn, fun c hc => by simpa using hall c hc⟩⟩
  · rintro ⟨n, rfl⟩
    simp

theorem isRule_iff {cell : Text} : isRule cell = true ↔ IsRule cell := by
  unfold isRule
  constructor
  · intro h
    obtain ⟨n, hdashes⟩ := dashes_iff.mp h
    -- what was taken off at either end is a colon or nothing
    have hleft : ∃ left, (left = [] ∨ left = [':']) ∧
        cell = left ++ if cell.head? = some ':' then cell.tail else cell := by
      split
      · next hhead =>
          obtain ⟨rest, rfl⟩ := List.head?_eq_some_iff.mp hhead
          exact ⟨[':'], Or.inr rfl, rfl⟩
      · exact ⟨[], Or.inl rfl, rfl⟩
    have hright : ∀ body : Text, ∃ right, (right = [] ∨ right = [':']) ∧
        body = (if body.getLast? = some ':' then body.dropLast else body) ++ right := by
      intro body
      split
      · next hlast =>
          obtain ⟨front, rfl⟩ := List.getLast?_eq_some_iff.mp hlast
          exact ⟨[':'], Or.inr rfl, by simp⟩
      · exact ⟨[], Or.inl rfl, by simp⟩
    obtain ⟨left, hcolon, hcell⟩ := hleft
    obtain ⟨right, hcolon', hbody⟩ := hright (if cell.head? = some ':' then cell.tail else cell)
    rw [hdashes] at hbody
    exact ⟨left, right, hcolon, hcolon', n, by rw [List.append_assoc, ← hbody, ← hcell]⟩
  · rintro ⟨left, right, hcolon, hcolon', n, rfl⟩
    have hleft : ∀ rest : Text, (if (left ++ '-' :: rest).head? = some ':' then
        (left ++ '-' :: rest).tail else left ++ '-' :: rest) = '-' :: rest := by
      intro rest
      rcases hcolon with rfl | rfl <;> simp
    have hright : (if (List.replicate (n + 1) '-' ++ right).getLast? = some ':' then
        (List.replicate (n + 1) '-' ++ right).dropLast
        else List.replicate (n + 1) '-' ++ right) = List.replicate (n + 1) '-' := by
      rcases hcolon' with rfl | rfl
      · rw [List.append_nil, if_neg (by simp [List.getLast?_replicate])]
      · simp
    apply dashes_iff.mpr
    refine ⟨n, ?_⟩
    rw [List.append_assoc, List.replicate_succ, List.cons_append, hleft, ← List.cons_append,
      ← List.replicate_succ]
    exact hright

instance decidableIsRule (cell : Text) : Decidable (IsRule cell) :=
  decidable_of_iff (isRule cell = true) isRule_iff

theorem isAlignment_iff {row : List Text} : isAlignment row = true ↔ IsAlignment row := by
  have hfilled : (!(row.filter (!·.isEmpty)).isEmpty) = true ↔ ∃ cell ∈ row, cell ≠ [] := by
    simp
  unfold isAlignment IsAlignment
  rw [Bool.and_eq_true, List.all_eq_true, hfilled]
  apply and_congr_right
  intro _
  constructor
  · intro h cell hcell hne
    exact isRule_iff.mp (h cell (List.mem_filter.mpr ⟨hcell, by simpa using hne⟩))
  · intro h cell hmem
    obtain ⟨hcell, hne⟩ := List.mem_filter.mp hmem
    exact isRule_iff.mpr (h cell hcell (by simpa using hne))

instance decidableIsAlignment (row : List Text) : Decidable (IsAlignment row) :=
  decidable_of_iff (isAlignment row = true) isAlignment_iff

/-! ## Records -/

/-- A column is the last one with its header. -/
def IsLastColumn (headers : List Text) (key : Text) (column : Nat) : Prop :=
  headers[column]? = some key ∧ ∀ later, column < later → headers[later]? ≠ some key

/-- The record of a row: its names are the headers that are not empty, each at its first
place; the value of a name is the cell in the last column with that header, and empty if
the row ends before it. -/
structure IsRecord (headers row : List Text) (record : Bindings Text) : Prop where
  names_eq : record.names = (headers.filter (!·.isEmpty)).eraseDups
  get?_eq : ∀ key column, key ≠ [] → IsLastColumn headers key column →
    record.get? key = some (row.getD column [])

theorem map_columns (headers : List Text) :
    (columns headers).map Prod.fst = headers.filter (!·.isEmpty) := by
  have hfilter : columns headers = headers.zipIdx.filter ((!·.isEmpty) ∘ Prod.fst) := rfl
  rw [hfilter, ← List.filter_map, List.zipIdx_map_fst]

/-- A last column cuts the headers in two. -/
theorem IsLastColumn.exists_append {headers : List Text} {key : Text} {column : Nat}
    (h : IsLastColumn headers key column) :
    ∃ front behind, headers = front ++ key :: behind ∧ front.length = column ∧ key ∉ behind := by
  obtain ⟨hkey, hlater⟩ := h
  obtain ⟨front, behind, rfl, rfl⟩ := Text.exists_append_of_getElem? hkey
  refine ⟨front, behind, rfl, rfl, ?_⟩
  intro hmem
  obtain ⟨i, hi⟩ := List.mem_iff_getElem?.mp hmem
  apply hlater (front.length + 1 + i) (by omega)
  rw [List.getElem?_append_right (by omega), Nat.add_assoc, Nat.add_sub_cancel_left,
    Nat.add_comm 1 i, List.getElem?_cons_succ, hi]

theorem isRecord_entry (headers row : List Text) : IsRecord headers row (entry headers row) where
  names_eq := by
    rw [entry, Bindings.names_ofList, List.map_map]
    exact congrArg List.eraseDups (map_columns headers)
  get?_eq := by
    intro key column hne hlast
    obtain ⟨front, behind, rfl, rfl, hbehind⟩ := hlast.exists_append
    have hcut : columns (front ++ key :: behind) = columns front ++ (key, front.length) ::
        (behind.zipIdx (front.length + 1)).filter fun column => !column.1.isEmpty := by
      simp [columns, List.zipIdx_append, List.zipIdx_cons, hne]
    rw [entry, hcut, List.map_append, List.map_cons, Bindings.get?_ofList]
    -- a later column of that header would be one behind
    rw [List.map_map]
    intro hmem
    obtain ⟨⟨header, i⟩, hin, rfl⟩ := List.mem_map.mp hmem
    exact hbehind (List.fst_mem_of_mem_zipIdx (List.mem_filter.mp hin).1)

end Table

end CommentMacro
