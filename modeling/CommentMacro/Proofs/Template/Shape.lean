import CommentMacro.Proofs.Template.OpenLoops

/-!
# Templates of one shape

Tokens may be changed one by one such that heads and ends of loops stay what they are and
no other token becomes one of them (`KeepsShape`). The loop tree of the template is then
changed in the same way and nests as before (`build_map`).
-/

namespace CommentMacro.Template

variable {stage : Stage}

/-- A change of loops and one of tokens that go together, and keep the heads and the ends
of loops apart from the tokens in them. -/
structure KeepsShape (onLoop : Loop → Loop) (onToken : Token stage → Token stage) : Prop where
  loop : ∀ head, onToken (.loop head) = .loop (onLoop head)
  endLoop : ∀ text, ∃ text', onToken (.endLoop text) = .endLoop text'
  leaf : ∀ token, token.isLeaf = true → (onToken token).isLeaf = true

namespace LoopTree

mutual

/-- A node with its loop and its tokens changed, and the nodes below as well. -/
def map (onLoop : Loop → Loop) (onToken : Token stage → Token stage) :
    LoopTree stage → LoopTree stage
  | .node loop tokens children =>
    .node (loop.map onLoop) (tokens.map onToken) (mapAll onLoop onToken children)

def mapAll (onLoop : Loop → Loop) (onToken : Token stage → Token stage) :
    List (LoopTree stage) → List (LoopTree stage)
  | [] => []
  | tree :: trees => tree.map onLoop onToken :: mapAll onLoop onToken trees

end

theorem mapAll_id : ∀ trees : List (LoopTree stage), mapAll id id trees = trees
  | [] => by rw [mapAll]
  | .node loop tokens children :: trees => by
      rw [mapAll, map, mapAll_id children, mapAll_id trees, Option.map_id, List.map_id]
      rfl

variable (onLoop : Loop → Loop) (onToken : Token stage → Token stage)

def Branch.map (branch : Branch stage) : Branch stage :=
  ⟨branch.loop.map onLoop, branch.tokens.map onToken, mapAll onLoop onToken branch.children⟩

def Cursor.map (cursor : Cursor stage) : Cursor stage :=
  ⟨cursor.outer.map (Branch.map onLoop onToken), cursor.current.map onLoop onToken,
    cursor.trailing.map (List.map onToken)⟩

theorem mapAll_append (first second : List (LoopTree stage)) :
    mapAll onLoop onToken (first ++ second) =
      mapAll onLoop onToken first ++ mapAll onLoop onToken second := by
  induction first with
  | nil => rfl
  | cons tree first ih => rw [List.cons_append, mapAll, mapAll, ih, List.cons_append]

theorem Branch.adopt_map (branch : Branch stage) (child : LoopTree stage) :
    (branch.adopt child).map onLoop onToken =
      (branch.map onLoop onToken).adopt (child.map onLoop onToken) := by
  rw [Branch.adopt, Branch.adopt, Branch.map, Branch.map, mapAll_append]
  rfl

theorem Branch.tree_map (branch : Branch stage) :
    branch.tree.map onLoop onToken = (branch.map onLoop onToken).tree := by
  rw [Branch.tree, LoopTree.map]
  rfl

namespace Cursor

theorem settle_map (cursor : Cursor stage) :
    cursor.settle.map onLoop onToken = (cursor.map onLoop onToken).settle := by
  obtain ⟨outer, current, trailing⟩ := cursor
  cases trailing with
  | none => rfl
  | some tokens =>
      have hnode : (LoopTree.node none tokens []).map onLoop onToken =
          .node none (tokens.map onToken) [] := by
        rw [LoopTree.map, mapAll]
        rfl
      show (current.adopt _).map onLoop onToken = (current.map onLoop onToken).adopt _
      rw [Branch.adopt_map, hnode]

theorem openLoop_map (cursor : Cursor stage) (head : Loop) :
    (cursor.openLoop head).map onLoop onToken =
      (cursor.map onLoop onToken).openLoop (onLoop head) := by
  rw [openLoop, openLoop, ← settle_map]
  rfl

theorem closeLoop_map (cursor : Cursor stage) :
    cursor.closeLoop.map onLoop onToken = (cursor.map onLoop onToken).closeLoop := by
  have hsettle := settle_map onLoop onToken cursor
  obtain ⟨outer, current, trailing⟩ := cursor
  cases outer with
  | nil => exact congrArg (Cursor.mk [] · (some [])) hsettle
  | cons parent outer =>
      have hparent := Branch.adopt_map onLoop onToken parent
        (settle ⟨parent :: outer, current, trailing⟩).tree
      rw [Branch.tree_map, hsettle] at hparent
      exact congrArg (Cursor.mk (outer.map (Branch.map onLoop onToken)) · (some [])) hparent

theorem append_map (cursor : Cursor stage) (token : Token stage) :
    (cursor.append token).map onLoop onToken =
      (cursor.map onLoop onToken).append (onToken token) := by
  obtain ⟨outer, current, trailing⟩ := cursor
  cases trailing <;> simp [append, Cursor.map, Branch.map]

theorem step_of_isLeaf (cursor : Cursor stage) {token : Token stage} (h : token.isLeaf = true) :
    cursor.step token = cursor.append token := by
  cases token with
  | loop head => simp [Token.isLeaf] at h
  | endLoop text => simp [Token.isLeaf] at h
  | _ => rfl

variable {onLoop onToken}

theorem step_map (h : KeepsShape onLoop onToken) (cursor : Cursor stage) (token : Token stage) :
    (cursor.step token).map onLoop onToken =
      (cursor.map onLoop onToken).step (onToken token) := by
  cases hleaf : token.isLeaf with
  | true =>
      rw [step_of_isLeaf _ hleaf, step_of_isLeaf _ (h.leaf token hleaf)]
      exact append_map onLoop onToken cursor token
  | false =>
      cases token with
      | loop head =>
          rw [h.loop]
          exact openLoop_map onLoop onToken cursor head
      | endLoop text =>
          obtain ⟨text', htext⟩ := h.endLoop text
          rw [htext]
          exact closeLoop_map onLoop onToken cursor
      | _ => simp [Token.isLeaf] at hleaf

theorem finish_map (cursor : Cursor stage) :
    cursor.finish.map onLoop onToken = (cursor.map onLoop onToken).finish := by
  have hfold : ∀ (outer : List (Branch stage)) (inner : Branch stage),
      (outer.foldl (fun inner parent => parent.adopt inner.tree) inner).map onLoop onToken =
        (outer.map (Branch.map onLoop onToken)).foldl (fun inner parent => parent.adopt inner.tree)
          (inner.map onLoop onToken) := by
    intro outer
    induction outer with
    | nil => exact fun _ => rfl
    | cons parent outer ih =>
        intro inner
        rw [List.foldl_cons, ih, Branch.adopt_map, Branch.tree_map, List.map_cons, List.foldl_cons]
  rw [finish, finish, Branch.tree_map, hfold, settle_map]
  rfl

end Cursor

variable {onLoop onToken}

/-- The loop tree of a changed template is the changed loop tree. -/
theorem build_map (h : KeepsShape onLoop onToken) (tokens : List (Token stage)) :
    build (tokens.map onToken) = (build tokens).map onLoop onToken := by
  have hfold : ∀ (tokens : List (Token stage)) (cursor : Cursor stage),
      (tokens.map onToken).foldl Cursor.step (cursor.map onLoop onToken) =
        (tokens.foldl Cursor.step cursor).map onLoop onToken := by
    intro tokens
    induction tokens with
    | nil => exact fun _ => rfl
    | cons token tokens ih =>
        intro cursor
        rw [List.map_cons, List.foldl_cons, List.foldl_cons, ← Cursor.step_map h, ih]
  rw [build, build, Cursor.finish_map, ← hfold]
  rfl

end LoopTree

end CommentMacro.Template
