import CommentMacro.Template.Token

/-!
# The loop tree of a template

The loops of a template nest, and a `LoopTree` shows how: a node holds the
tokens that stand directly inside one loop, and below it the nodes that follow.
What comes after the end of a loop goes to a fresh node without a loop, the next
sibling of the loop. An end without an open loop only starts such a node below
the root; a loop that is never closed ends with the template.

The tree is built from left to right with a `Cursor` that holds the loops still
open.
-/

namespace CommentMacro.Template

/-- A node: the loop it stands for, if any, its own tokens, and the nodes below. -/
inductive LoopTree (stage : Stage) where
  | node (loop : Option Loop) (tokens : List (Token stage)) (children : List (LoopTree stage))
  deriving Inhabited

variable {stage : Stage}

namespace LoopTree

/-- A node whose loop is still open. -/
structure Branch (stage : Stage) where
  loop : Option Loop
  tokens : List (Token stage)
  children : List (LoopTree stage)
  deriving Inhabited

def Branch.tree (branch : Branch stage) : LoopTree stage :=
  .node branch.loop branch.tokens branch.children

def Branch.adopt (branch : Branch stage) (child : LoopTree stage) : Branch stage :=
  { branch with children := branch.children ++ [child] }

/-- The loops still open: the innermost, those around it from the inside out,
and the tokens since a loop was last closed in the innermost, if one was. -/
structure Cursor (stage : Stage) where
  outer : List (Branch stage)
  current : Branch stage
  trailing : Option (List (Token stage))
  deriving Inhabited

namespace Cursor

def start : Cursor stage :=
  ⟨[], ⟨none, [], []⟩, none⟩

/-- The innermost open node with the trailing tokens in a node of their own. -/
def settle (cursor : Cursor stage) : Branch stage :=
  match cursor.trailing with
  | none => cursor.current
  | some tokens => cursor.current.adopt (.node none tokens [])

def openLoop (cursor : Cursor stage) (head : Loop) : Cursor stage :=
  ⟨cursor.settle :: cursor.outer, ⟨some head, [], []⟩, none⟩

def closeLoop (cursor : Cursor stage) : Cursor stage :=
  match cursor.outer with
  | [] => ⟨[], cursor.settle, some []⟩
  | parent :: outer => ⟨outer, parent.adopt cursor.settle.tree, some []⟩

def append (cursor : Cursor stage) (token : Token stage) : Cursor stage :=
  match cursor.trailing with
  | none =>
    { cursor with current.tokens := cursor.current.tokens ++ [token] }
  | some tokens => { cursor with trailing := some (tokens ++ [token]) }

def step (cursor : Cursor stage) : Token stage → Cursor stage
  | .loop head => cursor.openLoop head
  | .endLoop _ => cursor.closeLoop
  | token => cursor.append token

/-- The tree, after the last token: every open loop ends here. -/
def finish (cursor : Cursor stage) : LoopTree stage :=
  (cursor.outer.foldl (fun inner parent => parent.adopt inner.tree) cursor.settle).tree

end Cursor

def build (tokens : List (Token stage)) : LoopTree stage :=
  (tokens.foldl Cursor.step Cursor.start).finish

end LoopTree

end CommentMacro.Template
