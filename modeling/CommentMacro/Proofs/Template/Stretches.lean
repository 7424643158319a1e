import CommentMacro.Template.LoopTree

/-!
# The loop tree from left to right

The heads and the ends of the loops cut a template into stretches (`stretches`). The
nodes of its loop tree are these stretches: a walk that visits each node before the
nodes below it comes upon them in the order in which they are written
(`preorder_build`), whether the loops are balanced or not.
-/

namespace CommentMacro.Template

variable {stage : Stage}

/-- Tokens without the head or the end of a loop, with the head in front of them; it
is missing at the start of a template and behind the end of a loop. -/
structure Stretch (stage : Stage) where
  loop : Option Loop
  tokens : List (Token stage)
  deriving DecidableEq, Repr, Inhabited

/-- The stretches of a template from within one: its head and the tokens before. -/
def stretchesFrom (loop : Option Loop) (before : List (Token stage)) :
    List (Token stage) → List (Stretch stage)
  | [] => [⟨loop, before⟩]
  | .loop head :: tokens => ⟨loop, before⟩ :: stretchesFrom (some head) [] tokens
  | .endLoop _ :: tokens => ⟨loop, before⟩ :: stretchesFrom none [] tokens
  | token :: tokens => stretchesFrom loop (before ++ [token]) tokens

/-- A template, cut at each head and each end of a loop. -/
def stretches (tokens : List (Token stage)) : List (Stretch stage) :=
  stretchesFrom none [] tokens

/-- What holds of all tokens of a template holds of the heads and the tokens of its
stretches. -/
theorem forall_stretches {holds : Token stage → Prop} {tokens : List (Token stage)}
    (h : ∀ token ∈ tokens, holds token) : ∀ stretch ∈ stretches tokens,
      (∀ head ∈ stretch.loop, holds (.loop head)) ∧ ∀ token ∈ stretch.tokens, holds token := by
  have hfrom : ∀ (tokens before : List (Token stage)) (loop : Option Loop),
      (∀ token ∈ tokens, holds token) →
      (∀ head ∈ loop, holds (.loop head)) ∧ (∀ token ∈ before, holds token) →
      ∀ stretch ∈ stretchesFrom loop before tokens,
        (∀ head ∈ stretch.loop, holds (.loop head)) ∧ ∀ token ∈ stretch.tokens, holds token := by
    intro tokens
    induction tokens with
    | nil =>
        intro before loop _ hbefore stretch hmem
        obtain rfl := List.mem_singleton.mp hmem
        exact hbefore
    | cons token tokens ih =>
        intro before loop htokens hbefore stretch hmem
        rw [List.forall_mem_cons] at htokens
        cases token with
        | loop head =>
            rcases List.mem_cons.mp hmem with rfl | hmem
            · exact hbefore
            · exact ih [] (some head) htokens.2 ⟨by simpa using htokens.1, by simp⟩ stretch hmem
        | endLoop text =>
            rcases List.mem_cons.mp hmem with rfl | hmem
            · exact hbefore
            · exact ih [] none htokens.2 ⟨by simp, by simp⟩ stretch hmem
        | _ =>
            refine ih _ loop htokens.2 ⟨hbefore.1, ?_⟩ stretch hmem
            exact List.forall_mem_append.mpr
              ⟨hbefore.2, List.forall_mem_singleton.mpr htokens.1⟩
  exact hfrom tokens [] none h ⟨by simp, by simp⟩

namespace LoopTree

mutual

def preorder : LoopTree stage → List (Stretch stage)
  | .node loop tokens children => ⟨loop, tokens⟩ :: preorderAll children

def preorderAll : List (LoopTree stage) → List (Stretch stage)
  | [] => []
  | tree :: trees => tree.preorder ++ preorderAll trees

end

theorem preorderAll_append (first second : List (LoopTree stage)) :
    preorderAll (first ++ second) = preorderAll first ++ preorderAll second := by
  induction first with
  | nil => rfl
  | cons tree first ih => rw [List.cons_append, preorderAll, preorderAll, ih, List.append_assoc]

theorem preorder_adopt (branch : Branch stage) (child : LoopTree stage) :
    (branch.adopt child).tree.preorder = branch.tree.preorder ++ child.preorder := by
  simp [Branch.adopt, Branch.tree, preorder, preorderAll_append, preorderAll]

/-! ## What a cursor has come upon -/

namespace Cursor

/-- The nodes that are there so far: those of the open loops from the outside in. -/
def preorder (cursor : Cursor stage) : List (Stretch stage) :=
  (cursor.outer.reverse.flatMap fun branch => branch.tree.preorder) ++
    cursor.settle.tree.preorder

theorem preorder_openLoop (cursor : Cursor stage) (head : Loop) :
    (cursor.openLoop head).preorder = cursor.preorder ++ [⟨some head, []⟩] := by
  simp [preorder, openLoop, settle, Branch.tree, LoopTree.preorder, preorderAll]

theorem preorder_closeLoop (cursor : Cursor stage) :
    cursor.closeLoop.preorder = cursor.preorder ++ [⟨none, []⟩] := by
  obtain ⟨outer, current, trailing⟩ := cursor
  have hfresh : (LoopTree.node none [] [] : LoopTree stage).preorder = [⟨none, []⟩] := rfl
  cases outer with
  | nil => simp [preorder, closeLoop, settle, preorder_adopt, hfresh]
  | cons parent outer =>
      have hsettle : ∀ (rest : List (Branch stage)) (branch : Branch stage),
          (⟨rest, branch, some []⟩ : Cursor stage).settle = branch.adopt (.node none [] []) :=
        fun _ _ => rfl
      simp [preorder, closeLoop, hsettle, preorder_adopt, hfresh]

/-- The cursor stands in the last node that is there: it has come upon `done` before
it, and holds the loop and the tokens of that node. -/
structure At (cursor : Cursor stage) (done : List (Stretch stage)) (loop : Option Loop)
    (before : List (Token stage)) :
    Prop where
  preorder_eq : cursor.preorder = done ++ [⟨loop, before⟩]
  /-- Without trailing tokens nothing stands below the innermost open loop. -/
  childless : cursor.trailing = none → cursor.current.children = []

theorem at_start : At (start : Cursor stage) [] none [] :=
  ⟨rfl, fun _ => rfl⟩

variable {cursor : Cursor stage} {done : List (Stretch stage)} {loop : Option Loop}
  {before : List (Token stage)}

theorem At.openLoop (h : At cursor done loop before) (head : Loop) :
    At (cursor.openLoop head) (done ++ [⟨loop, before⟩]) (some head) [] :=
  ⟨by rw [preorder_openLoop, h.preorder_eq], fun _ => rfl⟩

theorem At.closeLoop (h : At cursor done loop before) :
    At cursor.closeLoop (done ++ [⟨loop, before⟩]) none [] := by
  refine ⟨by rw [preorder_closeLoop, h.preorder_eq], ?_⟩
  obtain ⟨outer, current, trailing⟩ := cursor
  cases outer <;> simp [Cursor.closeLoop]

theorem At.append (h : At cursor done loop before) (token : Token stage) :
    At (cursor.append token) done loop (before ++ [token]) := by
  obtain ⟨outer, current, trailing⟩ := cursor
  have hpreorder := h.preorder_eq
  cases trailing with
  | none =>
      obtain ⟨currentLoop, tokens, children⟩ := current
      obtain rfl : children = [] := h.childless rfl
      refine ⟨?_, fun _ => rfl⟩
      simp only [preorder, settle, Branch.tree, LoopTree.preorder, preorderAll] at hpreorder
      obtain ⟨rfl, hlast⟩ := List.append_inj' hpreorder rfl
      simp only [List.cons.injEq, Stretch.mk.injEq, and_true] at hlast
      obtain ⟨rfl, rfl⟩ := hlast
      rfl
  | some tokens =>
      refine ⟨?_, by simp [Cursor.append]⟩
      have hnode : ∀ tokens : List (Token stage),
          (LoopTree.node none tokens []).preorder = [⟨none, tokens⟩] := fun _ => rfl
      simp only [preorder, settle, preorder_adopt, hnode, ← List.append_assoc] at hpreorder
      obtain ⟨rfl, hlast⟩ := List.append_inj' hpreorder rfl
      simp only [List.cons.injEq, Stretch.mk.injEq, and_true] at hlast
      obtain ⟨rfl, rfl⟩ := hlast
      simp only [Cursor.append, preorder, settle, preorder_adopt, hnode, List.append_assoc]

/-- Every open loop ends with the template, and nothing is added. -/
theorem preorder_finish (cursor : Cursor stage) : cursor.finish.preorder = cursor.preorder := by
  have hfold : ∀ (outer : List (Branch stage)) (inner : Branch stage),
      (outer.foldl (fun inner parent => parent.adopt inner.tree) inner).tree.preorder =
        (outer.reverse.flatMap fun branch => branch.tree.preorder) ++ inner.tree.preorder := by
    intro outer
    induction outer with
    | nil => exact fun _ => rfl
    | cons parent outer ih =>
        intro inner
        rw [List.foldl_cons, ih, preorder_adopt]
        simp
  exact hfold cursor.outer cursor.settle

/-- What is behind the cursor is cut as it is read. -/
theorem At.preorder_finish (h : At cursor done loop before) (tokens : List (Token stage)) :
    (tokens.foldl step cursor).finish.preorder = done ++ stretchesFrom loop before tokens := by
  induction tokens generalizing cursor done loop before with
  | nil => rw [List.foldl_nil, Cursor.preorder_finish, h.preorder_eq, stretchesFrom]
  | cons token tokens ih =>
      rw [List.foldl_cons]
      cases token with
      | loop head =>
          rw [step, ih (h.openLoop head), stretchesFrom, List.append_assoc, List.singleton_append]
      | endLoop text =>
          rw [step, ih h.closeLoop, stretchesFrom, List.append_assoc, List.singleton_append]
      | _ => exact ih (h.append _)

end Cursor

/-- The nodes of a loop tree are the stretches of the template, in their order. -/
theorem preorder_build (tokens : List (Token stage)) : (build tokens).preorder = stretches tokens :=
  Cursor.at_start.preorder_finish tokens

end LoopTree

end CommentMacro.Template
