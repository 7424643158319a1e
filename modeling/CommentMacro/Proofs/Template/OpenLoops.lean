import CommentMacro.Proofs.Template.Stretches

/-!
# The loop tree and the loops that are open

From the loop tree of a template the template can be read again (`reading`), up to the
texts of the ends of loops, whether the loops are balanced or not. Nothing stands below
a node without a loop, the root apart. And the loops of a node and of those above it are
the ones that are open where its tokens stand in the template (`located`,
`openLoops`).

All this is carried through the building of the tree by the nodes that are still open:
the root, and a node for each loop that is open there (`Cursor.Within`).
-/

namespace CommentMacro.Template

variable {stage : Stage}

/-! ## Loops that are open at a place of a template -/

/-- Whether a token stands in a node of the tree: it is neither the head nor the end of
a loop. -/
def Token.isLeaf : Token stage → Bool
  | loop _ => false
  | endLoop _ => false
  | _ => true

/-- A token, an end of a loop without its text. -/
def Token.withoutEndText : Token stage → Token stage
  | endLoop _ => endLoop []
  | token => token

/-- The loops that are open behind a token, given those in front of it, the outermost
first. An end closes the innermost one, if one is open. -/
def loopsBehind (opened : List Loop) : Token stage → List Loop
  | .loop head => opened ++ [head]
  | .endLoop _ => opened.dropLast
  | _ => opened

/-- The loops that are open behind tokens, the outermost first. -/
def openLoops (tokens : List (Token stage)) : List Loop :=
  tokens.foldl loopsBehind []

theorem openLoops_append (tokens : List (Token stage)) (token : Token stage) :
    openLoops (tokens ++ [token]) = loopsBehind (openLoops tokens) token := by
  rw [openLoops, List.foldl_append]
  rfl

/-- The tokens of a template that stand in nodes, each with the loops that are open
where it stands. -/
def leaves (tokens : List (Token stage)) : List (Token stage × List Loop) :=
  (tokens.zipIdx.filter fun entry => entry.1.isLeaf).map fun entry =>
    (entry.1, openLoops (tokens.take entry.2))

theorem leaves_append (tokens : List (Token stage)) (token : Token stage) :
    leaves (tokens ++ [token]) =
      leaves tokens ++ if token.isLeaf then [(token, openLoops tokens)] else [] := by
  have hfront : (tokens.zipIdx.filter fun entry => entry.1.isLeaf).map (fun entry =>
      (entry.1, openLoops ((tokens ++ [token]).take entry.2))) = leaves tokens := by
    refine List.map_congr_left fun entry hmem => ?_
    have hlt := List.snd_lt_add_of_mem_zipIdx (List.mem_filter.mp hmem).1
    rw [List.take_append_of_le_length (by omega)]
  rw [leaves, List.zipIdx_append, List.filter_append, List.map_append, hfront]
  congr 1
  cases hleaf : token.isLeaf <;> simp [hleaf]

namespace LoopTree

def loop? : LoopTree stage → Option Loop
  | .node loop _ _ => loop

def tokens : LoopTree stage → List (Token stage)
  | .node _ tokens _ => tokens

def children : LoopTree stage → List (LoopTree stage)
  | .node _ _ children => children

mutual

/-- The nodes below a node, each before those below it. -/
def descendants : LoopTree stage → List (LoopTree stage)
  | .node _ _ children => descendantsOfAll children

def descendantsOfAll : List (LoopTree stage) → List (LoopTree stage)
  | [] => []
  | tree :: trees => tree :: tree.descendants ++ descendantsOfAll trees

end

/-- What starts a node below the root: the head of its loop or, if it has none, the end
of the loop in front of it. -/
def opening : LoopTree stage → Token stage
  | .node (some head) _ _ => .loop head
  | .node none _ _ => .endLoop []

/-- The template of a tree: each node in turn, what starts it and its tokens. -/
def reading (tree : LoopTree stage) : List (Token stage) :=
  tree.tokens ++ tree.descendants.flatMap fun node => node.opening :: node.tokens

mutual

/-- The tokens in a node and below it, each with the loops of its node and of those
above, the outermost first. -/
def located (around : List Loop) : LoopTree stage → List (Token stage × List Loop)
  | .node loop tokens children =>
    tokens.map (·, around ++ loop.toList) ++ locatedAll (around ++ loop.toList) children

def locatedAll (around : List Loop) : List (LoopTree stage) → List (Token stage × List Loop)
  | [] => []
  | tree :: trees => tree.located around ++ locatedAll around trees

end

/-! ## Reading the template again -/

mutual

theorem preorder_eq : ∀ tree : LoopTree stage,
    tree.preorder = ⟨tree.loop?, tree.tokens⟩ :: tree.descendants.map fun node =>
      ⟨node.loop?, node.tokens⟩
  | .node loop tokens children => by
      rw [preorder, descendants, preorderAll_eq children]
      rfl

theorem preorderAll_eq : ∀ trees : List (LoopTree stage),
    preorderAll trees = (descendantsOfAll trees).map fun node => ⟨node.loop?, node.tokens⟩
  | [] => rfl
  | tree :: trees => by
      rw [preorderAll, descendantsOfAll, preorder_eq tree, preorderAll_eq trees, List.map_append]
      rfl

end

theorem opening_eq (node : LoopTree stage) :
    node.opening = match node.loop? with
      | some head => .loop head
      | none => .endLoop [] := by
  obtain ⟨loop, tokens, children⟩ := node
  cases loop <;> rfl

/-- Put together again, the stretches of a template are the template. -/
theorem exists_stretchesFrom (loop : Option Loop) (before tokens : List (Token stage)) :
    ∃ first later, stretchesFrom loop before tokens = ⟨loop, first⟩ :: later ∧
      (first ++ later.flatMap fun stretch =>
        (match stretch.loop with
          | some head => Token.loop head
          | none => .endLoop []) :: stretch.tokens) =
        before ++ tokens.map Token.withoutEndText := by
  induction tokens generalizing loop before with
  | nil => exact ⟨before, [], rfl, rfl⟩
  | cons token tokens ih =>
      have hcut : ∀ head : Option Loop,
          (match head with
            | some head => Token.loop head
            | none => .endLoop []) = token.withoutEndText →
          stretchesFrom loop before (token :: tokens) =
            ⟨loop, before⟩ :: stretchesFrom head [] tokens →
          ∃ first later, stretchesFrom loop before (token :: tokens) = ⟨loop, first⟩ :: later ∧
            (first ++ later.flatMap fun stretch =>
              (match stretch.loop with
                | some head => Token.loop head
                | none => .endLoop []) :: stretch.tokens) =
              before ++ (token :: tokens).map Token.withoutEndText := by
        intro head htoken hstretches
        obtain ⟨first, later, hlater, hread⟩ := ih head []
        refine ⟨before, ⟨head, first⟩ :: later, by rw [hstretches, hlater], ?_⟩
        rw [List.flatMap_cons, List.map_cons, ← htoken, List.cons_append, hread, List.nil_append]
      cases token with
      | loop head => exact hcut (some head) rfl rfl
      | endLoop text => exact hcut none rfl rfl
      | _ =>
          obtain ⟨first, later, hlater, hread⟩ := ih loop (before ++ [_])
          refine ⟨first, later, hlater, ?_⟩
          rw [hread, List.append_assoc]
          rfl

theorem reading_build (tokens : List (Token stage)) :
    (build tokens).loop? = none ∧ (build tokens).reading = tokens.map Token.withoutEndText := by
  obtain ⟨first, later, hstretches, hread⟩ := exists_stretchesFrom none [] tokens
  have hpreorder := preorder_build tokens
  rw [stretches, hstretches, preorder_eq, List.cons.injEq, Stretch.mk.injEq] at hpreorder
  obtain ⟨⟨hloop, hfirst⟩, hlater⟩ := hpreorder
  refine ⟨hloop, ?_⟩
  rw [← hlater, List.flatMap_map] at hread
  rw [reading, hfirst]
  simpa only [opening_eq, List.nil_append] using hread

/-! ## Adding a node below another one -/

theorem descendantsOfAll_append (first second : List (LoopTree stage)) :
    descendantsOfAll (first ++ second) = descendantsOfAll first ++ descendantsOfAll second := by
  induction first with
  | nil => rfl
  | cons tree first ih =>
      rw [List.cons_append, descendantsOfAll, descendantsOfAll, ih, List.append_assoc]

theorem descendants_adopt (branch : Branch stage) (child : LoopTree stage) :
    (branch.adopt child).tree.descendants =
      branch.tree.descendants ++ child :: child.descendants := by
  simp [Branch.adopt, Branch.tree, descendants, descendantsOfAll_append, descendantsOfAll]

theorem locatedAll_append (around : List Loop) (first second : List (LoopTree stage)) :
    locatedAll around (first ++ second) = locatedAll around first ++ locatedAll around second := by
  induction first with
  | nil => rfl
  | cons tree first ih =>
      rw [List.cons_append, locatedAll, locatedAll, ih, List.append_assoc]

theorem located_adopt (around : List Loop) (branch : Branch stage) (child : LoopTree stage) :
    (branch.adopt child).tree.located around =
      branch.tree.located around ++ child.located (around ++ branch.loop.toList) := by
  simp [Branch.adopt, Branch.tree, located, locatedAll_append, locatedAll]

/-- Nothing stands below a node unless it has a loop. -/
def BareWithoutLoop (node : LoopTree stage) : Prop :=
  node.loop? = none → node.children = []

/-- Nothing stands below the nodes without a loop that are below a given one. -/
def Branch.Tidy (branch : Branch stage) : Prop :=
  ∀ node ∈ branch.tree.descendants, node.BareWithoutLoop

theorem Branch.Tidy.adopt {branch : Branch stage} {child : LoopTree stage} (h : branch.Tidy)
    (hchild : child.BareWithoutLoop) (hbelow : ∀ node ∈ child.descendants, node.BareWithoutLoop) :
    (branch.adopt child).Tidy := by
  intro node hmem
  rw [descendants_adopt, List.mem_append, List.mem_cons] at hmem
  rcases hmem with hmem | rfl | hmem
  · exact h node hmem
  · exact hchild
  · exact hbelow node hmem

/-! ## The nodes that are still open -/

/-- The tokens in nodes that are open, each of them inside the one before it, and below
these nodes. -/
def locatedInBranches (around : List Loop) : List (Branch stage) → List (Token stage × List Loop)
  | [] => []
  | branch :: inner =>
    branch.tree.located around ++ locatedInBranches (around ++ branch.loop.toList) inner

theorem locatedInBranches_append (around : List Loop) (first second : List (Branch stage)) :
    locatedInBranches around (first ++ second) =
      locatedInBranches around first ++
        locatedInBranches (around ++ first.filterMap Branch.loop) second := by
  induction first generalizing around with
  | nil => simp [locatedInBranches]
  | cons branch first ih =>
      rw [List.cons_append, locatedInBranches, locatedInBranches, ih]
      cases hloop : branch.loop <;> simp [hloop]

/-- A node is closed: what it holds stands inside the one around it as before. -/
theorem locatedInBranches_adopt (around : List Loop) (front : List (Branch stage))
    (parent inner : Branch stage) :
    locatedInBranches around (front ++ [parent.adopt inner.tree]) =
      locatedInBranches around (front ++ [parent, inner]) := by
  rw [locatedInBranches_append, locatedInBranches_append]
  simp [locatedInBranches, located_adopt]

theorem Branch.tidy_childless {branch : Branch stage} (h : branch.children = []) : branch.Tidy := by
  intro node hmem
  simp [Branch.tree, descendants, h, descendantsOfAll] at hmem

namespace Cursor

variable {cursor : Cursor stage} {before : List (Token stage)}

/-- The nodes that are open, from the inside out. -/
def branches (cursor : Cursor stage) : List (Branch stage) :=
  cursor.current :: cursor.outer

def located (cursor : Cursor stage) : List (Token stage × List Loop) :=
  locatedInBranches [] (cursor.outer.reverse ++ [cursor.settle])

/-- The cursor stands behind the given tokens. -/
structure Within (cursor : Cursor stage) (before : List (Token stage)) : Prop where
  /-- The root is open, and a node for each loop that is open. -/
  loops : cursor.branches.map Branch.loop = (openLoops before).reverse.map some ++ [none]
  located : cursor.located = leaves before
  /-- Without trailing tokens nothing stands below the innermost open loop. -/
  childless : cursor.trailing = none → cursor.current.children = []
  tidy : ∀ branch ∈ cursor.branches, branch.Tidy

theorem within_start : Within (start : Cursor stage) [] :=
  ⟨rfl, rfl, fun _ => rfl, by simp [branches, start, Branch.Tidy, Branch.tree, descendants,
    descendantsOfAll]⟩

theorem loop_settle (cursor : Cursor stage) : cursor.settle.loop = cursor.current.loop := by
  obtain ⟨outer, current, trailing⟩ := cursor
  cases trailing <;> rfl

/-- The loops of the open nodes, from the outside in. -/
theorem Within.opened (h : Within cursor before) :
    cursor.outer.reverse.filterMap Branch.loop ++ cursor.current.loop.toList =
      openLoops before := by
  have hloops := congrArg (List.filterMap id) h.loops
  rw [List.filterMap_map, List.filterMap_append, List.filterMap_map] at hloops
  have hinside : cursor.branches.filterMap Branch.loop = (openLoops before).reverse := by
    simpa using hloops
  rw [← List.reverse_reverse (openLoops before), ← hinside, branches]
  cases hloop : cursor.current.loop <;> simp [hloop]

theorem tidy_settle (h : cursor.current.Tidy) : cursor.settle.Tidy := by
  obtain ⟨outer, current, trailing⟩ := cursor
  cases trailing with
  | none => exact h
  | some tokens =>
      refine h.adopt (fun _ => rfl) fun node hmem => ?_
      simp [descendants, descendantsOfAll] at hmem

/-- A fresh node behind the end of a loop holds nothing yet. -/
theorem located_fresh (outer : List (Branch stage)) (current : Branch stage) :
    Cursor.located ⟨outer, current, some []⟩ =
      locatedInBranches [] (outer.reverse ++ [current]) := by
  have hsettle : (⟨outer, current, some []⟩ : Cursor stage).settle =
    current.adopt (.node none [] []) := rfl
  rw [Cursor.located, hsettle, locatedInBranches_append, locatedInBranches_append]
  simp [locatedInBranches, located_adopt, LoopTree.located, locatedAll]

theorem Within.openLoop (h : Within cursor before) (head : Loop) :
    Within (cursor.openLoop head) (before ++ [.loop head]) := by
  refine ⟨?_, ?_, fun _ => rfl, ?_⟩
  · rw [openLoops_append, loopsBehind, List.reverse_append, List.reverse_singleton,
      List.singleton_append, List.map_cons, List.cons_append, ← h.loops]
    simp only [Cursor.openLoop, branches, List.map_cons, loop_settle]
  · have hfresh : (cursor.openLoop head).settle = ⟨some head, [], []⟩ := rfl
    rw [leaves_append, ← h.located, Cursor.located, hfresh, Cursor.openLoop, List.reverse_cons,
      locatedInBranches_append]
    simp [locatedInBranches, Cursor.located, Branch.tree, LoopTree.located, locatedAll,
      Token.isLeaf]
  · intro branch hmem
    rcases List.mem_cons.mp hmem with rfl | hmem
    · exact Branch.tidy_childless rfl
    rcases List.mem_cons.mp hmem with rfl | hmem
    · exact tidy_settle (h.tidy _ List.mem_cons_self)
    · exact h.tidy branch (List.mem_cons_of_mem _ hmem)

/-- An end where only the root is open starts a node below the root. -/
theorem Within.closeRoot {current : Branch stage} {trailing : Option (List (Token stage))}
    (h : Within ⟨[], current, trailing⟩ before) (text : Text) :
    Within (Cursor.closeLoop ⟨[], current, trailing⟩) (before ++ [.endLoop text]) := by
  have hlength := congrArg List.length h.loops
  have hnone : openLoops before = [] := by
    simpa [branches] using hlength
  refine ⟨?_, ?_, by simp [Cursor.closeLoop], ?_⟩
  · have hloops := h.loops
    rw [openLoops_append, hnone]
    rw [hnone] at hloops
    simpa [Cursor.closeLoop, branches, loop_settle, loopsBehind] using hloops
  · rw [leaves_append, ← h.located, Cursor.closeLoop, located_fresh]
    simp [Cursor.located, Token.isLeaf]
  · intro branch hmem
    obtain rfl := List.mem_singleton.mp hmem
    exact tidy_settle (h.tidy _ List.mem_cons_self)

/-- An end where a loop is open starts a node beside the one of the loop. -/
theorem Within.closeBranch {parent current : Branch stage} {outer : List (Branch stage)}
    {trailing : Option (List (Token stage))}
    (h : Within ⟨parent :: outer, current, trailing⟩ before)
    (text : Text) :
    Within (Cursor.closeLoop ⟨parent :: outer, current, trailing⟩)
      (before ++ [.endLoop text]) := by
  have hloops := h.loops
  rcases List.eq_nil_or_concat (openLoops before) with hnone | ⟨around, head, hopened⟩
  · have hlength := congrArg List.length hloops
    simp [branches, hnone] at hlength
  rw [hopened, List.concat_eq_append, List.reverse_append, List.reverse_singleton,
    List.singleton_append, List.map_cons, List.cons_append, branches, List.map_cons] at hloops
  obtain ⟨hhead, houter⟩ := List.cons.inj hloops
  refine ⟨?_, ?_, by simp [Cursor.closeLoop], ?_⟩
  · rw [openLoops_append, hopened, loopsBehind, List.concat_eq_append, List.dropLast_concat,
      ← houter]
    rfl
  · rw [leaves_append, ← h.located, Cursor.closeLoop, located_fresh, locatedInBranches_adopt]
    simp [Cursor.located, Token.isLeaf]
  · intro branch hmem
    rcases List.mem_cons.mp hmem with rfl | hmem
    · have hsettle := tidy_settle (h.tidy _ List.mem_cons_self)
      have hparent := h.tidy parent (List.mem_cons_of_mem _ List.mem_cons_self)
      refine hparent.adopt (fun hnone => ?_) hsettle
      -- the node that is closed has a loop, so that nodes may stand below it
      have hloop : some head = none := by
        rw [← hhead, ← loop_settle ⟨parent :: outer, current, trailing⟩]
        exact hnone
      simp at hloop
    · exact h.tidy branch (List.mem_cons_of_mem _ (List.mem_cons_of_mem _ hmem))

theorem Within.closeLoop (h : Within cursor before) (text : Text) :
    Within cursor.closeLoop (before ++ [.endLoop text]) := by
  obtain ⟨outer, current, trailing⟩ := cursor
  cases outer with
  | nil => exact h.closeRoot text
  | cons parent outer => exact h.closeBranch text

theorem Within.append (h : Within cursor before) {token : Token stage}
    (hleaf : token.isLeaf = true) :
    Within (cursor.append token) (before ++ [token]) := by
  have hopened := h.opened
  have hsame : openLoops (before ++ [token]) = openLoops before := by
    rw [openLoops_append]
    cases token <;> simp_all [loopsBehind, Token.isLeaf]
  have hlocated := h.located
  obtain ⟨outer, current, trailing⟩ := cursor
  cases trailing with
  | none =>
      have hchildless := h.childless rfl
      refine ⟨?_, ?_, fun _ => hchildless, ?_⟩
      · rw [hsame]
        exact h.loops
      · obtain ⟨loop, tokens, children⟩ := current
        obtain rfl : children = [] := hchildless
        rw [leaves_append, ← hlocated, if_pos hleaf, ← hopened]
        simp [Cursor.append, Cursor.located, settle, locatedInBranches_append, locatedInBranches,
          Branch.tree, LoopTree.located, locatedAll]
      · intro branch hmem
        rcases List.mem_cons.mp hmem with rfl | hmem
        · exact Branch.tidy_childless hchildless
        · exact h.tidy branch (List.mem_cons_of_mem _ hmem)
  | some tokens =>
      refine ⟨?_, ?_, by simp [Cursor.append], ?_⟩
      · rw [hsame]
        exact h.loops
      · rw [leaves_append, ← hlocated, if_pos hleaf, ← hopened]
        simp [Cursor.append, Cursor.located, settle, locatedInBranches_append, locatedInBranches,
          located_adopt, LoopTree.located, locatedAll]
      · exact h.tidy

theorem Within.step (h : Within cursor before) (token : Token stage) :
    Within (cursor.step token) (before ++ [token]) := by
  cases token with
  | loop head => exact h.openLoop head
  | endLoop text => exact h.closeLoop text
  | _ => exact h.append rfl

theorem Within.foldl (h : Within cursor before) (tokens : List (Token stage)) :
    Within (tokens.foldl Cursor.step cursor) (before ++ tokens) := by
  induction tokens generalizing cursor before with
  | nil => rwa [List.append_nil]
  | cons token tokens ih =>
      rw [List.foldl_cons, List.append_cons]
      exact ih (h.step token)

/-! ## The tree is finished -/

theorem located_finish (cursor : Cursor stage) : cursor.finish.located [] = cursor.located := by
  have hfold : ∀ (outer : List (Branch stage)) (inner : Branch stage),
      (outer.foldl (fun inner parent => parent.adopt inner.tree) inner).tree.located [] =
        locatedInBranches [] (outer.reverse ++ [inner]) := by
    intro outer
    induction outer with
    | nil => simp [locatedInBranches]
    | cons parent outer ih =>
        intro inner
        rw [List.foldl_cons, ih, locatedInBranches_adopt, List.reverse_cons, List.append_assoc,
          List.singleton_append]
  exact hfold cursor.outer cursor.settle

theorem Within.tidy_finish (h : Within cursor before) :
    ∀ node ∈ cursor.finish.descendants, node.BareWithoutLoop := by
  have hfold : ∀ (outer : List (Branch stage)) (inner : Branch stage) (opened : List Loop),
      (inner :: outer).map Branch.loop = opened.map some ++ [none] →
      (∀ branch ∈ inner :: outer, branch.Tidy) →
      (outer.foldl (fun inner parent => parent.adopt inner.tree) inner).Tidy := by
    intro outer
    induction outer with
    | nil => exact fun inner _ _ htidy => htidy inner List.mem_cons_self
    | cons parent outer ih =>
        intro inner opened hloops htidy
        cases opened with
        | nil => simp at hloops
        | cons head opened =>
            obtain ⟨hhead, houter⟩ := List.cons.inj hloops
            have hinner := htidy inner List.mem_cons_self
            have hparent := htidy parent (List.mem_cons_of_mem _ List.mem_cons_self)
            have hadopt : (parent.adopt inner.tree).Tidy := by
              refine hparent.adopt (fun hnone => ?_) hinner
              simp [Branch.tree, loop?, hhead] at hnone
            refine ih (parent.adopt inner.tree) opened houter fun branch hmem => ?_
            rcases List.mem_cons.mp hmem with rfl | hmem
            · exact hadopt
            · exact htidy branch (List.mem_cons_of_mem _ (List.mem_cons_of_mem _ hmem))
  refine hfold cursor.outer cursor.settle (openLoops before).reverse ?_ fun branch hmem => ?_
  · rw [← h.loops, List.map_cons, loop_settle]
    rfl
  · rcases List.mem_cons.mp hmem with rfl | hmem
    · exact tidy_settle (h.tidy _ List.mem_cons_self)
    · exact h.tidy branch (List.mem_cons_of_mem _ hmem)

end Cursor

/-- The loop tree of a template, balanced or not, keeps all of it. Read node by node, it
gives the template again, up to the texts of the ends of loops; the root has no loop, and
nothing stands below any other node without one; and the loops of a node and of those
above it are the ones that are open where its tokens stand. -/
theorem build_keeps_nesting (tokens : List (Token stage)) :
    (build tokens).reading = tokens.map Token.withoutEndText ∧
    (build tokens).loop? = none ∧
    (∀ node ∈ (build tokens).descendants, node.loop? = none → node.children = []) ∧
    (build tokens).located [] = leaves tokens := by
  have hwithin : Cursor.Within (tokens.foldl Cursor.step Cursor.start) tokens :=
    Cursor.within_start.foldl tokens
  refine ⟨(reading_build tokens).2, (reading_build tokens).1, hwithin.tidy_finish, ?_⟩
  rw [build, Cursor.located_finish, hwithin.located]

-- an end of a loop too many is passed over, and a loop that is not ended stays open
example (head : Loop) :
    (build [.loop head, .plain ['a'], .endLoop [], .endLoop [], .plain ['b'], .loop head,
      .plain ['c']] : LoopTree stage).located [] =
    [(.plain ['a'], [head]), (.plain ['b'], []), (.plain ['c'], [head])] := rfl

end LoopTree

end CommentMacro.Template
