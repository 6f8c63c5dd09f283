import PageTemplate.Node.Shown
import PageTemplate.Proofs.NodeTokens

/-!
The positions of nodes. A node has the position of one of the tokens that have been read: of its own
opening delimiter, of the token behind the block that it follows, of the parenthesis that closes it,
or of its first leaf.
-/

namespace PageTemplate

namespace NodeKind

def isFree : NodeKind → Bool
  | .content | .elseClause | .argsList => false
  | _ => true

variable {kind : NodeKind}

theorem isFree_of_isExpression (h : kind.isExpression = true) : kind.isFree = true := by
  cases kind <;> first | rfl | cases h

theorem isFree_of_isItem (h : kind.isItem = true) : kind.isFree = true := by
  cases kind <;> first | rfl | cases h

theorem isItem_of_isExpression (h : kind.isExpression = true) : kind.isItem = false := by
  cases kind <;> first | rfl | cases h

theorem isFree_of_isLeaf (h : kind.isLeaf = true) : kind.isFree = true := by
  cases kind <;> first | rfl | cases h

theorem isFree_of_loopInput (h : Role.loopInput.admits kind = true) : kind.isFree = true := by
  cases kind <;> first | rfl | cases h

end NodeKind

theorem Token.MakesLeaf.eq_leaf {token : Token} {node : Node} (h : token.MakesLeaf node) :
    ∃ kind, kind.isLeaf = true ∧ node = .leaf kind token.pos := by
  cases h with
  | string | number | bool | text | simpleName | dottedName => exact ⟨_, rfl, rfl⟩
  | word h =>
    unfold Token.word? at h
    split at h <;> cases h <;> exact ⟨_, rfl, rfl⟩
  | operator h =>
    unfold Token.operator? at h
    split at h <;> cases h
    exact ⟨_, rfl, rfl⟩

namespace Node

/-- What stands around a node: a body follows a block and is followed by another one, as the body of
an else clause is, and where there are no arguments there are parentheses. -/
def Between (front back : List Token) (node : Node) : Prop :=
  match node.kind with
  | .content => (∃ before closing, front = before ++ [closing] ∧
      closing.terminal? = some .blockClose) ∧ back ≠ []
  | .elseClause => back ≠ []
  | .argsList => node.children = [] → ∃ before opening closing behind,
      front = before ++ [opening] ∧ back = closing :: behind ∧
        Token.AreOf [opening, closing] [.leftParen, .rightParen]
  | _ => True

/-- A node that has been read from a part of the tokens; `last` is the place behind all of them. -/
def Inside (last : Position) (whole : List Token) (node : Node) : Prop :=
  ∃ front own back, whole = front ++ own ++ back ∧ node.ReadFrom (placeOf last back) own ∧
    node.Between front back

variable {node child : Node} {last ahead : Position} {front own back after whole : List Token}

theorem between_of_isFree (h : node.kind.isFree = true) : node.Between front back := by
  obtain ⟨kind, children, pos⟩ := node
  cases kind <;> trivial

/-- A list with members takes its place from the first of them. -/
theorem between_of_members {separator : Terminal} (h : node.kind.Separated separator)
    (hne : node.children ≠ []) : node.Between front back := by
  rcases h with ⟨h, -⟩ | ⟨h, -⟩ <;> rw [Between, h]
  · exact fun hnil => absurd hnil hne
  · trivial

/-- What stands further in front of a node does not matter. -/
theorem Between.behind (h : node.Between front back) (earlier : List Token) :
    node.Between (earlier ++ front) back := by
  obtain ⟨kind, children, pos⟩ := node
  cases kind with
  | content =>
    obtain ⟨⟨before, closing, rfl, hclosing⟩, hne⟩ := h
    exact ⟨⟨earlier ++ before, closing, by simp, hclosing⟩, hne⟩
  | argsList =>
    intro hnil
    obtain ⟨before, opening, closing, behind, rfl, hback, hclasses⟩ := h hnil
    exact ⟨earlier ++ before, opening, closing, behind, by simp, hback, hclasses⟩
  | _ => exact h

/-- A body that another item has been added to was followed by this item. -/
theorem Between.earlier {content : Node} (h : node.Between front back)
    (hnode : node.kind = .content) (hcontent : content.kind = .content) (later : List Token) :
    content.Between front (later ++ back) := by
  rw [Between, hnode] at h
  rw [Between, hcontent]
  exact ⟨h.1, List.append_ne_nil_of_right_ne_nil _ h.2⟩

theorem inside_of (front back : List Token) (hread : node.ReadFrom (placeOf last back) own)
    (hbetween : node.Between front back) (hwhole : whole = front ++ (own ++ back)) :
    node.Inside last whole :=
  ⟨front, own, back, by rw [hwhole, List.append_assoc], hread, hbetween⟩

theorem inside_of_leaf {token : Token} (front back : List Token) (h : token.MakesLeaf node)
    (hwhole : whole = front ++ token :: back) : node.Inside last whole := by
  obtain ⟨kind, hleaf, rfl⟩ := h.eq_leaf
  have hbetween : (leaf kind token.pos).Between front back :=
    between_of_isFree (NodeKind.isFree_of_isLeaf hleaf)
  exact inside_of front back (.leaf _ h) hbetween hwhole

/-- A body stands behind the end of a block. -/
theorem inside_of_body {closing : Token} (before back : List Token) (hkind : node.kind = .content)
    (hclosing : closing.terminal? = some .blockClose)
    (hread : node.ReadFrom (placeOf last back) own) (hne : back ≠ [])
    (hwhole : whole = before ++ closing :: (own ++ back)) : node.Inside last whole := by
  refine inside_of (before ++ [closing]) back hread ?_ (by simp [hwhole])
  rw [Between, hkind]
  exact ⟨⟨before, closing, rfl, hclosing⟩, hne⟩

/-- What has been read from some of the tokens has been read from more of them. -/
theorem Inside.behind (h : node.Inside last whole) (before : List Token) :
    node.Inside last (before ++ whole) := by
  obtain ⟨front, own, back, rfl, hread, hbetween⟩ := h
  exact ⟨before ++ front, own, back, by simp, hread, hbetween.behind before⟩

end Node

/-- The nodes of a tail: its else_if branches, its else clause and the word at its end. -/
theorem Entry.mem_nodes_tail {rest : IfTail} {node : Node} : node ∈ (Entry.tail rest).nodes ↔
    node ∈ rest.elseIfs ∨ rest.elseClause = some node ∨ node = rest.endWord := by
  simp [Entry.nodes]

theorem IfTail.ReadFrom.ne_nil {rest : IfTail} {ahead : Position} {own : List Token}
    (h : rest.ReadFrom ahead own) : own ≠ [] := by
  cases h <;> simp

/-- The nodes behind the first branch of an if statement, among the tokens behind it. -/
theorem IfTail.ReadFrom.inside {rest : IfTail} {ahead last : Position} {own after : List Token}
    (h : rest.ReadFrom ahead own) (hahead : ahead = placeOf last after) {node : Node}
    (hmem : node ∈ (Entry.tail rest).nodes) : node.Inside last (own ++ after) := by
  match h, hmem with
  | @endOnly opening _ closing _ _ _ hword, hmem =>
    obtain rfl := List.mem_singleton.1 hmem
    exact Node.inside_of_leaf [opening] (closing :: after) (.word hword) rfl
  | @elseIf opening word closing condition body later front middle back _ hclasses hcondition hbody
      hfront hmiddle hlater, hmem =>
    rcases List.mem_cons.1 hmem with rfl | hmem
    · exact Node.inside_of [opening, word] (closing :: (middle ++ (back ++ after))) hfront
        (Node.between_of_isFree (NodeKind.isFree_of_isExpression hcondition)) (by simp)
    rcases List.mem_cons.1 hmem with rfl | hmem
    · have hne : back ++ after ≠ [] := List.append_ne_nil_of_left_ne_nil hlater.ne_nil _
      exact Node.inside_of_body (opening :: word :: front) (back ++ after) hbody
        hclasses.tail.tail.head (by rwa [placeOf_append, ← hahead]) hne (by simp)
    · have hinside := (hlater.inside hahead hmem).behind
        (opening :: word :: (front ++ closing :: middle))
      simpa using hinside
  | @elseEnd opening word closing _ _ own _ _ hword hclause hown, hmem =>
    rcases List.mem_pair.1 hmem with rfl | rfl
    · refine Node.inside_of [] (opening :: word :: closing :: after) hown ?_ (by simp)
      rw [Node.Between, hclause]
      exact List.cons_ne_nil _ _
    · exact Node.inside_of_leaf (own ++ [opening]) (closing :: after) (.word hword) (by simp)

namespace Node

variable {node child : Node} {last ahead : Position} {front own back after whole : List Token}

/-- What stands between blocks has tokens, and the position of the first of them. -/
theorem ReadFrom.item_begins (h : node.ReadFrom ahead own) (hitem : node.kind.isItem = true) :
    ∃ first rest, own = first :: rest ∧ node.pos = first.pos := by
  cases h with
  | leaf _ hleaf =>
    obtain ⟨kind, -, rfl⟩ := hleaf.eq_leaf
    exact ⟨_, _, rfl, rfl⟩
  | parenthesized _ _ hexpr =>
    rw [NodeKind.isItem_of_isExpression hexpr] at hitem
    cases hitem
  | first _ hkind => obtain ⟨rfl, -⟩ | ⟨rfl, -⟩ := hkind <;> cases hitem
  | further _ hkind => obtain ⟨h, -⟩ | ⟨h, -⟩ := hkind <;> rw [h] at hitem <;> cases hitem
  | trailing _ hkind =>
    rw [hkind] at hitem
    cases hitem
  | block | printBlock | ifStatement | forBare | forParenthesized => exact ⟨_, _, rfl, rfl⟩
  | _ => cases hitem

def ChildInside (last : Position) (whole : List Token) (node child : Node) : Prop :=
  child.Inside last whole ∨ node.kind = .ifStatement ∧ child.kind = .elseIfList ∧
    child.pos = node.pos ∧ ∀ branch ∈ child.children, branch.Inside last whole

theorem ChildInside.inside (h : ChildInside last whole node child)
    (hkind : node.kind ≠ .ifStatement) : child.Inside last whole :=
  h.resolve_right fun h => hkind h.1

/-- The children of a node have been read from parts of its tokens. -/
theorem ReadFrom.children_inside {node child : Node} {ahead : Position}
    {front own after : List Token} (h : node.ReadFrom ahead own) (last : Position)
    (hahead : ahead = placeOf last after) (hbetween : node.Between front after)
    (hmem : child ∈ node.children) : ChildInside last (own ++ after) node child := by
  have hfree {front back : List Token} {expr : Node} (hexpr : expr.kind.isExpression = true) :
      expr.Between front back := between_of_isFree (NodeKind.isFree_of_isExpression hexpr)
  -- along the derivation: where a node has grown, or parentheses stand around it, its earlier
  -- members have been read from the tokens that it had before
  match h, hahead, hbetween, hmem with
  | .leaf _ hleaf, _, _, hmem =>
    obtain ⟨kind, -, rfl⟩ := hleaf.eq_leaf
    cases hmem
  | .noArgs _, _, _, hmem => cases hmem
  | .noItems _, _, _, hmem => cases hmem
  | @parenthesized opening closing _ own _ _ hexpr hown, _, _, hmem =>
    have hinner : node.Between [] (closing :: after) := hfree hexpr
    have hinside := (hown.children_inside last rfl hinner hmem).inside fun hkind => by
      rw [hkind] at hexpr
      cases hexpr
    left
    simpa using hinside.behind [opening]
  | @trailing separator list own _ hkind _ hown, _, _, hmem =>
    have hinner : list.Between [] (separator :: after) := between_of_isFree (by rw [hkind]; rfl)
    have hinside := (hown.children_inside last rfl hinner hmem).inside (by rw [hkind]; decide)
    left
    simpa using hinside
  | @first _ _ member own _ _ hmember hown, hahead, _, hmem =>
    obtain rfl := List.mem_singleton.1 hmem
    exact .inl (inside_of [] after (hahead ▸ hown) (hfree hmember) rfl)
  | @further separator _ list member own more _ hkind hne _ hmember hown hmore, hahead, _, hmem =>
    left
    rcases List.mem_append.1 hmem with hmem | hmem
    · have hinner : list.Between [] (separator :: (more ++ after)) := between_of_members hkind hne
      have hinside := (hown.children_inside last rfl hinner hmem).inside
        (by obtain ⟨h, -⟩ | ⟨h, -⟩ := hkind <;> rw [h] <;> decide)
      simpa using hinside
    · obtain rfl := List.mem_singleton.1 hmem
      exact inside_of (own ++ [separator]) after (hahead ▸ hmore) (hfree hmember) (by simp)
  | @item content member own more _ hcontent hmember hown hmore, hahead, hbetween, hmem =>
    left
    rcases List.mem_append.1 hmem with hmem | hmem
    · have hplace : placeOf ahead more = placeOf last (more ++ after) := by
        rw [placeOf_append, hahead]
      have hinner := hbetween.earlier rfl hcontent more
      have hinside := (hown.children_inside last hplace hinner hmem).inside
        (by rw [hcontent]; decide)
      simpa using hinside
    · obtain rfl := List.mem_singleton.1 hmem
      exact inside_of own after (hahead ▸ hmore)
        (between_of_isFree (NodeKind.isFree_of_isItem hmember)) (by simp)
  | @unary op operator operand own _ hop hoperand hown, hahead, _, hmem =>
    left
    rcases List.mem_pair.1 hmem with rfl | rfl
    · exact inside_of_leaf [] (own ++ after) (.operator hop) rfl
    · exact inside_of [op] after (hahead ▸ hown) (hfree hoperand) rfl
  | @binary _ op left operator right own more _ hop hleft hright hown hmore, hahead, _, hmem =>
    have hnodes : child = left ∨ child = operator ∨ child = right := by simpa using hmem
    left
    rcases hnodes with rfl | rfl | rfl
    · exact inside_of [] (op :: (more ++ after)) hown (hfree hleft) (by simp)
    · exact inside_of_leaf own (more ++ after) (.operator hop) (by simp)
    · exact inside_of (own ++ [op]) after (hahead ▸ hmore) (hfree hright) (by simp)
  | @assignment equals target value own more _ _ htarget hvalue hown hmore, hahead, _, hmem =>
    left
    rcases List.mem_pair.1 hmem with rfl | rfl
    · exact inside_of [] (equals :: (more ++ after)) hown (hfree htarget) (by simp)
    · exact inside_of (own ++ [equals]) after (hahead ▸ hmore) (hfree hvalue) (by simp)
  | @funcCall name opening closing callee args own _ hname hclasses hargs hown, _, _, hmem =>
    left
    rcases List.mem_pair.1 hmem with rfl | rfl
    · exact inside_of_leaf [] (opening :: (own ++ [closing] ++ after)) (.word hname) rfl
    · refine inside_of [name, opening] (closing :: after) hown ?_ (by simp)
      rw [Between, hargs]
      exact fun _ => ⟨[name], opening, closing, after, rfl, rfl, hclasses⟩
  | @block opening closing list own _ _ hkind hown, _, _, hmem =>
    obtain rfl := List.mem_singleton.1 hmem
    exact .inl (inside_of [opening] (closing :: after) hown
      (between_of_isFree (by rw [hkind]; rfl)) (by simp))
  | @printBlock opening closing expr own _ _ hexpr hown, _, _, hmem =>
    obtain rfl := List.mem_singleton.1 hmem
    exact .inl (inside_of [opening] (closing :: after) hown (hfree hexpr) (by simp))
  | @elseClause opening word closing elseWord body own _ hclasses hword hbody hown, hahead,
      hbetween, hmem =>
    left
    rcases List.mem_pair.1 hmem with rfl | rfl
    · exact inside_of_leaf [opening] (closing :: (own ++ after)) (.word hword) (by simp)
    · exact inside_of_body [opening, word] after hbody hclasses.tail.tail.head (hahead ▸ hown)
        hbetween (by simp)
  | @ifStatement opening word closing ifWord condition body rest own middle back _ hclasses hword
      hcondition hbody hown hmiddle hrest, hahead, _, hmem =>
    have hne : back ++ after ≠ [] := List.append_ne_nil_of_left_ne_nil hrest.ne_nil _
    have hlater {node : Node} (hnode : node ∈ (Entry.tail rest).nodes) : node.Inside last
        (opening :: word :: (own ++ closing :: (middle ++ back)) ++ after) := by
      have hinside := (hrest.inside hahead hnode).behind
        (opening :: word :: (own ++ closing :: middle))
      simpa using hinside
    have hnodes : child = ifWord ∨ child = condition ∨ child = body ∨
        child = ⟨.elseIfList, rest.elseIfs, opening.pos⟩ ∨ child ∈ rest.elseClause.toList ∨
        child = rest.endWord := by simpa using hmem
    rcases hnodes with rfl | rfl | rfl | rfl | hnode | rfl
    · exact .inl (inside_of_leaf [opening] _ (.word hword) rfl)
    · exact .inl (inside_of [opening, word] (closing :: (middle ++ (back ++ after))) hown
        (hfree hcondition) (by simp))
    · exact .inl (inside_of_body (opening :: word :: own) (back ++ after) hbody
        hclasses.tail.tail.head (by rwa [placeOf_append, ← hahead]) hne (by simp))
    · exact .inr ⟨rfl, rfl, rfl, fun branch hbranch =>
        hlater (Entry.mem_nodes_tail.2 (.inl hbranch))⟩
    · exact .inl (hlater (Entry.mem_nodes_tail.2 (.inr (.inl (Option.mem_toList.1 hnode)))))
    · exact .inl (hlater (Entry.mem_nodes_tail.2 (.inr (.inr rfl))))
  | @forBare opening word var into closing second final ending name input body own more _ hclasses
      hname hinput hbody hown hmore, _, _, hmem =>
    left
    have hnodes : child = name ∨ child = input ∨ child = body := by simpa using hmem
    rcases hnodes with rfl | rfl | rfl
    · exact inside_of_leaf [opening, word] _ (.word hname) rfl
    · exact inside_of [opening, word, var, into]
        (closing :: (more ++ second :: final :: ending :: after)) hown
        (between_of_isFree (NodeKind.isFree_of_loopInput hinput)) (by simp)
    · exact inside_of_body (opening :: word :: var :: into :: own)
        (second :: final :: ending :: after) hbody hclasses.tail.tail.tail.tail.head hmore
        (List.cons_ne_nil _ _) (by simp)
  | @forParenthesized opening word leftParen var into rightParen closing second final ending name
      input body own more _ hclasses hname hinput hbody hown hmore, _, _, hmem =>
    left
    have hnodes : child = name ∨ child = input ∨ child = body := by simpa using hmem
    rcases hnodes with rfl | rfl | rfl
    · exact inside_of_leaf [opening, word, leftParen] _ (.word hname) rfl
    · exact inside_of [opening, word, leftParen, var, into]
        (rightParen :: closing :: (more ++ second :: final :: ending :: after)) hown
        (between_of_isFree (NodeKind.isFree_of_loopInput hinput)) (by simp)
    · exact inside_of_body (opening :: word :: leftParen :: var :: into :: (own ++ [rightParen]))
        (second :: final :: ending :: after) hbody hclasses.tail.tail.tail.tail.tail.tail.head hmore
        (List.cons_ne_nil _ _) (by simp)

/-- A node of a tree that has been read from tokens: it has been read from a part of them, or it is
the list of the else_if branches of an if statement and stands where this one does. -/
def Settled (last : Position) (whole : List Token) (root node : Node) : Prop :=
  node.Inside last whole ∨ ∃ conditional : Node, conditional.Within root ∧
    conditional.kind = .ifStatement ∧ conditional.Inside last whole ∧
      node ∈ conditional.children ∧ node.kind = .elseIfList ∧ node.pos = conditional.pos ∧
        ∀ branch ∈ node.children, branch.Inside last whole

variable {root : Node}

/-- A child of a settled node is settled, and the branches of an if statement are so with it. -/
theorem Settled.step (h : Settled last whole root node) (hnode : node.Within root)
    (hmem : child ∈ node.children) : Settled last whole root child := by
  rcases h with ⟨front, own, back, rfl, hread, hbetween⟩ | ⟨-, -, -, -, -, -, -, hbranches⟩
  · have hinside {inner : Node} (h : inner.Inside last (own ++ back)) :
        inner.Inside last (front ++ own ++ back) := by
      rw [List.append_assoc]
      exact h.behind front
    rcases hread.children_inside last rfl hbetween hmem with
      h | ⟨hif, hlist, hpos, hbranches⟩
    · exact .inl (hinside h)
    · exact .inr ⟨node, hnode, hif, ⟨front, own, back, rfl, hread, hbetween⟩, hmem, hlist, hpos,
        fun branch hbranch => hinside (hbranches branch hbranch)⟩
  · exact .inl (hbranches child hmem)

/-- By induction on the way down: all nodes of a settled tree are settled. -/
theorem Settled.within {inner : Node} (hinner : inner.Within node)
    (h : Settled last whole root node) (hnode : node.Within root) :
    Settled last whole root inner := by
  induction hinner with
  | self => exact h
  | child hmem _ ih => exact ih (h.step hnode hmem) (Within.trans (.child hmem (.self _)) hnode)

def leftmost : Node → Node
  | ⟨_, first :: _, _⟩ => first.leftmost
  | node => node

theorem leftmost_cons (kind : NodeKind) (first : Node) (rest : List Node) (pos : Position) :
    leftmost ⟨kind, first :: rest, pos⟩ = first.leftmost := by
  rw [leftmost]

theorem leftmost_within (node : Node) : node.leftmost.Within node := by
  fun_induction leftmost node with
  | case1 kind first rest pos ih => exact .child List.mem_cons_self ih
  | case2 node => exact .self node

def BeginsWithLeaf (node : Node) : Prop :=
  node.leftmost.kind.isLeaf = true ∧ node.pos = node.leftmost.pos

def OpensWith (own : List Token) (classes : List Terminal) (node : Node) : Prop :=
  ∃ opening rest, own = opening :: rest ∧ Token.AreOf (own.take classes.length) classes ∧
    node.pos = opening.pos

/-- The place of a node among the tokens. -/
def Placed (front own back : List Token) (node : Node) : Prop :=
  match node.kind with
  | .text _ | .varName _ | .stringLiteral _ | .numberLiteral _ | .boolLiteral _ | .identifier _
  | .operator _ => ∃ token ∈ own, token.MakesLeaf node ∧ node.pos = token.pos
  | .block => node.OpensWith own [.blockOpen]
  | .printBlock => node.OpensWith own [.printOpen]
  | .ifStatement => node.OpensWith own [.blockOpen, .ifWord]
  | .forLoop => node.OpensWith own [.blockOpen, .forWord]
  | .elseClause => node.OpensWith own [.blockOpen, .elseWord]
  | .content => ∃ before closing next behind, front = before ++ [closing] ∧
    closing.terminal? = some .blockClose ∧ own ++ back = next :: behind ∧ node.pos = next.pos
  | .argsList => if node.children = [] then
      own = [] ∧ ∃ before opening closing behind, front = before ++ [opening] ∧
        back = closing :: behind ∧ Token.AreOf [opening, closing] [.leftParen, .rightParen] ∧
          node.pos = closing.pos
    else node.BeginsWithLeaf
  | .statementList | .funcCall | .expression _ => node.BeginsWithLeaf
  | .elseIfList => False

theorem beginsWithLeaf_leaf {kind : NodeKind} (h : kind.isLeaf = true) (pos : Position) :
    (leaf kind pos).BeginsWithLeaf := by
  have hleaf : (leaf kind pos).leftmost = leaf kind pos := by
    rw [leaf, leftmost]
    simp
  exact ⟨by rw [hleaf]; exact h, by rw [hleaf]⟩

theorem BeginsWithLeaf.of_makesLeaf {token : Token} (h : token.MakesLeaf node) :
    node.BeginsWithLeaf ∧ node.pos = token.pos := by
  obtain ⟨kind, hleaf, rfl⟩ := h.eq_leaf
  exact ⟨beginsWithLeaf_leaf hleaf token.pos, rfl⟩

/-- A node that stands where its first child does begins with the leaf that the child begins
with. -/
theorem BeginsWithLeaf.cons {first : Node} (h : first.BeginsWithLeaf) (kind : NodeKind)
    (rest : List Node) : BeginsWithLeaf ⟨kind, first :: rest, first.pos⟩ := by
  rw [BeginsWithLeaf, leftmost_cons]
  exact h

/-- A list that has members begins as before when another one is added. -/
theorem BeginsWithLeaf.append (h : node.BeginsWithLeaf) (hne : node.children ≠ [])
    (more : List Node) : BeginsWithLeaf ⟨node.kind, node.children ++ more, node.pos⟩ := by
  obtain ⟨kind, _ | ⟨first, rest⟩, pos⟩ := node
  · exact absurd rfl hne
  · rw [BeginsWithLeaf, leftmost_cons] at h
    rw [BeginsWithLeaf, List.cons_append, leftmost_cons]
    exact h

/-- The place of a leaf, and of an expression that is none. -/
theorem placed_leaf_iff (h : node.kind.isLeaf = true) : node.Placed front own back ↔
    ∃ token ∈ own, token.MakesLeaf node ∧ node.pos = token.pos := by
  obtain ⟨kind, children, pos⟩ := node
  cases kind <;> first | exact Iff.rfl | cases h

theorem placed_compound_iff (h : node.kind.isExpression = true) (hleaf : node.kind.isLeaf = false) :
    node.Placed front own back ↔ node.BeginsWithLeaf := by
  obtain ⟨kind, children, pos⟩ := node
  cases kind with
  | funcCall | expression => exact Iff.rfl
  | varName | stringLiteral | numberLiteral | boolLiteral => cases hleaf
  | _ => cases h

theorem placed_of_token {token : Token} (h : token.MakesLeaf node) (hmem : token ∈ own) :
    node.Placed front own back := by
  obtain ⟨kind, hleaf, rfl⟩ := h.eq_leaf
  exact (placed_leaf_iff hleaf).2 ⟨token, hmem, h, rfl⟩

theorem Placed.begins (h : node.Placed front own back) (hexpr : node.kind.isExpression = true) :
    node.BeginsWithLeaf := by
  cases hleaf : node.kind.isLeaf with
  | false => exact (placed_compound_iff hexpr hleaf).1 h
  | true =>
    obtain ⟨token, -, hmakes, -⟩ := (placed_leaf_iff hleaf).1 h
    exact (BeginsWithLeaf.of_makesLeaf hmakes).1

/-- Parentheses around an expression leave it where it is. -/
theorem Placed.parenthesized {wider before behind : List Token} (h : node.Placed front own back)
    (hexpr : node.kind.isExpression = true) (hown : own ⊆ wider) :
    node.Placed before wider behind := by
  cases hleaf : node.kind.isLeaf with
  | false => exact (placed_compound_iff hexpr hleaf).2 ((placed_compound_iff hexpr hleaf).1 h)
  | true =>
    obtain ⟨token, hmem, hmakes, -⟩ := (placed_leaf_iff hleaf).1 h
    exact placed_of_token hmakes (hown hmem)

theorem placed_list_iff {separator : Terminal} (hkind : node.kind.Separated separator)
    (hne : node.children ≠ []) : node.Placed front own back ↔ node.BeginsWithLeaf := by
  rcases hkind with ⟨hkind, -⟩ | ⟨hkind, -⟩ <;> rw [Placed, hkind]
  simp [hne]

/-- A body is where the token is that the rules have seen ahead of its first item. -/
theorem placed_content_iff (hkind : node.kind = .content) (hbetween : node.Between front back)
    (last : Position) : node.Placed front own back ↔ node.pos = placeOf last (own ++ back) := by
  rw [Between, hkind] at hbetween
  obtain ⟨⟨before, closing, hfront, hclosing⟩, hback⟩ := hbetween
  have hne : own ++ back ≠ [] := List.append_ne_nil_of_right_ne_nil _ hback
  obtain ⟨next, behind, hnext⟩ := List.exists_cons_of_ne_nil hne
  rw [Placed, hkind, hnext]
  constructor
  · rintro ⟨-, -, next, behind, -, -, heq, hpos⟩
    cases heq
    exact hpos
  · intro hpos
    exact ⟨before, closing, next, behind, hfront, hclosing, rfl, hpos⟩

/-- A node that has been read from tokens is placed among them. -/
theorem ReadFrom.placed {node : Node} {ahead : Position} {front own back : List Token}
    (h : node.ReadFrom ahead own) (last : Position) (hahead : ahead = placeOf last back)
    (hbetween : node.Between front back) : node.Placed front own back := by
  have hfree {front back : List Token} {expr : Node} (hexpr : expr.kind.isExpression = true) :
      expr.Between front back := between_of_isFree (NodeKind.isFree_of_isExpression hexpr)
  -- along the derivation again: what is added to a node, or put around it, leaves it where it is
  match h, hahead, hbetween with
  | .leaf _ hleaf, _, _ => exact placed_of_token hleaf (List.mem_singleton_self _)
  | @parenthesized opening closing _ own _ hclasses hexpr hown, _, _ =>
    have hexpression : node.Placed [opening] own (closing :: back) :=
      hown.placed last rfl (hfree hexpr)
    exact hexpression.parenthesized hexpr (by simp)
  | .unary _ hop _ _, _, _ =>
    obtain ⟨hbegins, hpos⟩ := BeginsWithLeaf.of_makesLeaf (.operator hop)
    exact hpos ▸ hbegins.cons _ _
  | @binary _ op left _ _ own more _ _ hleft _ hown _, _, _ =>
    have hexpression : left.Placed [] own (op :: (more ++ back)) :=
      hown.placed last rfl (hfree hleft)
    exact (hexpression.begins hleft).cons _ _
  | @assignment equals target _ own more _ _ htarget _ hown _, _, _ =>
    have hexpression : target.Placed [] own (equals :: (more ++ back)) :=
      hown.placed last rfl (hfree htarget)
    exact (hexpression.begins htarget).cons _ _
  | .funcCall _ hname _ _ _, _, _ =>
    obtain ⟨hbegins, hpos⟩ := BeginsWithLeaf.of_makesLeaf (.word hname)
    exact hpos ▸ hbegins.cons _ _
  -- the two kinds of nodes without tokens: they stand at the token behind them
  | .noArgs _, hahead, hbetween =>
    obtain ⟨before, opening, closing, behind, rfl, rfl, hclasses⟩ := hbetween rfl
    exact ⟨rfl, before, opening, closing, behind, rfl, rfl, hclasses, hahead⟩
  | .noItems _, hahead, hbetween => exact (placed_content_iff rfl hbetween last).2 hahead
  | @first kind _ member own _ hkind hmember hown, hahead, _ =>
    have hexpression : member.Placed [] own back := hown.placed last hahead (hfree hmember)
    have hbegins := (hexpression.begins hmember).cons kind []
    exact (placed_list_iff hkind (List.cons_ne_nil _ _)).2 hbegins
  | @further separator t list member own more _ hkind hne _ _ hown _, _, _ =>
    have hlist : list.Placed [] own (separator :: (more ++ back)) := hown.placed last rfl
      (between_of_members hkind hne)
    have hbegins := (placed_list_iff hkind hne).1 hlist
    refine (placed_list_iff (?_ : NodeKind.Separated _ t) ?_).2 (hbegins.append hne [member])
    · exact hkind
    · exact List.append_ne_nil_of_left_ne_nil hne _
  | @trailing separator list own _ hkind _ hown, _, hbetween =>
    have hlist : list.Placed front own (separator :: back) := hown.placed last rfl
      (between_of_isFree (by rw [hkind]; rfl))
    rw [Placed, hkind] at hlist ⊢
    exact hlist
  | @item content member own more _ hcontent hmember hown hmore, hahead, hbetween =>
    have hwhole : placeOf ahead more = placeOf last (more ++ back) := by
      rw [placeOf_append, hahead]
    have hinner := hbetween.earlier rfl hcontent more
    have hplaced : content.Placed front own (more ++ back) := hown.placed last hwhole hinner
    have hpos := (placed_content_iff hcontent hinner last).1 hplaced
    rw [← List.append_assoc] at hpos
    exact (placed_content_iff rfl hbetween last).2 hpos
  | .block _ hclasses _ _, _, _ =>
    exact ⟨_, _, rfl, congrArg (List.take 1) hclasses, rfl⟩
  | .printBlock _ hclasses _ _, _, _ =>
    exact ⟨_, _, rfl, congrArg (List.take 1) hclasses, rfl⟩
  | .ifStatement _ hclasses _ _ _ _ _ _, _, _ =>
    exact ⟨_, _, rfl, congrArg (List.take 2) hclasses, rfl⟩
  | .elseClause _ hclasses _ _ _, _, _ =>
    exact ⟨_, _, rfl, congrArg (List.take 2) hclasses, rfl⟩
  | .forBare _ hclasses _ _ _ _ _, _, _ =>
    exact ⟨_, _, rfl, congrArg (List.take 2) hclasses, rfl⟩
  | .forParenthesized _ hclasses _ _ _ _ _, _, _ =>
    exact ⟨_, _, rfl, congrArg (List.take 2) hclasses, rfl⟩

/-- Each of the places that a node can have is that of a token or of a leaf. -/
theorem Placed.token_pos (h : node.Placed front own back) :
    node.BeginsWithLeaf ∨ ∃ token ∈ front ++ own ++ back, node.pos = token.pos := by
  obtain ⟨kind, children, pos⟩ := node
  have hopens {classes : List Terminal} (h : OpensWith own classes ⟨kind, children, pos⟩) :
      ∃ token ∈ front ++ own ++ back, pos = token.pos := by
    obtain ⟨opening, rest, rfl, -, hpos⟩ := h
    exact ⟨opening, by simp, hpos⟩
  cases kind with
  | text | varName | stringLiteral | numberLiteral | boolLiteral | identifier | operator =>
    obtain ⟨token, hmem, -, hpos⟩ := h
    exact .inr ⟨token, by simp [hmem], hpos⟩
  | block | printBlock | ifStatement | forLoop | elseClause => exact .inr (hopens h)
  | content =>
    obtain ⟨-, -, next, behind, -, -, hnext, hpos⟩ := h
    exact .inr ⟨next, by simp [List.append_assoc, hnext], hpos⟩
  | argsList =>
    -- without arguments the list stands where the parenthesis is closed
    by_cases hnil : children = []
    · obtain ⟨-, -, -, closing, behind, -, rfl, -, hpos⟩ := (if_pos hnil).mp h
      exact .inr ⟨closing, by simp, hpos⟩
    · exact .inl ((if_neg hnil).mp h)
  | statementList | funcCall | expression => exact .inl h
  | elseIfList => cases h

/-- Following the first leaves down, the place of a node is that of a token. -/
theorem Settled.token_pos (h : Settled last whole root node) (hnode : node.Within root) :
    ∃ token ∈ whole, node.pos = token.pos := by
  have hinside {inner : Node} (hinner : inner.Inside last whole) (hwithin : inner.Within root) :
      ∃ token ∈ whole, inner.pos = token.pos := by
    -- a position that is not that of a delimiter is that of the first leaf, a node of the tree too
    have hleft := Settled.within inner.leftmost_within (.inl hinner) hwithin
    obtain ⟨front, own, back, rfl, hread, hbetween⟩ := hinner
    rcases (hread.placed last rfl hbetween).token_pos with ⟨hleaf, hpos⟩ | htoken
    · rcases hleft with ⟨before, part, behind, hwhole, hread, hbetween⟩ | ⟨_, -, -, -, -, hkind, -⟩
      · have hplaced := hread.placed last rfl hbetween
        obtain ⟨token, hmem, -, htoken⟩ := (placed_leaf_iff hleaf).1 hplaced
        exact ⟨token, by simp [hwhole, hmem], hpos.trans htoken⟩
      · rw [hkind] at hleaf
        cases hleaf
    · exact htoken
  rcases h with hinner | ⟨conditional, hwithin, -, hinner, -, -, hpos, -⟩
  · exact hinside hinner hnode
  · obtain ⟨token, hmem, htoken⟩ := hinside hinner hwithin
    exact ⟨token, hmem, hpos.trans htoken⟩

end Node

/-- The tree of a piece has been read from its tokens. -/
theorem Piece.Makes.readFrom {piece : Piece} {root : Node} (h : piece.Makes root)
    (ahead : Position) : root.ReadFrom ahead piece.tokens ∧ root.kind.isItem = true := by
  cases piece with
  | text content pos =>
    cases h
    exact ⟨.leaf ahead (.text content pos), rfl⟩
  | unit tree =>
    have hreads := tree.reads (h ahead)
    exact ⟨hreads.readFrom, (hreads.ensures .unit root rfl rfl).1 rfl⟩

theorem Piece.inside_of_makes {pieces : List Piece} {roots : List Node}
    (h : List.Forall₂ Piece.Makes pieces roots) (last : Position) {root : Node}
    (hroot : root ∈ roots) : root.Inside last (pieces.flatMap Piece.tokens) := by
  induction h with
  | nil => cases hroot
  | @cons piece made pieces roots hmakes _ ih =>
    rw [List.flatMap_cons]
    rcases List.mem_cons.1 hroot with rfl | hroot
    · obtain ⟨hread, hitem⟩ := hmakes.readFrom (placeOf last (pieces.flatMap Piece.tokens))
      exact Node.inside_of [] _ hread (Node.between_of_isFree (NodeKind.isFree_of_isItem hitem)) rfl
    · exact (ih hroot).behind piece.tokens

/-- The trees of a sequence of tokens have the positions of the first tokens of its pieces. Every
node in them has been read from a part of the sequence and is placed among the tokens as its kind
asks for; only the list of the else_if branches has not, and stands where its if statement does. So
all positions are those of tokens. -/
theorem nodes_stand_at_tokens {tokens : List Token} {roots : List Node}
    (h : parse tokens = .ok roots) (last : Position) :
    (∃ pieces : List Piece, withoutLineEnds tokens = pieces.flatMap Piece.tokens ∧
      List.Forall₂ (fun piece root => piece.Makes root ∧
        ∃ first rest, piece.tokens = first :: rest ∧ root.pos = first.pos) pieces roots) ∧
    ∀ root ∈ roots, ∀ node : Node, node.Within root →
      ((∃ front own back, withoutLineEnds tokens = front ++ own ++ back ∧
          node.ReadFrom (placeOf last back) own ∧ node.Placed front own back) ∨
        node.kind = .elseIfList ∧ ∃ conditional : Node, conditional.Within root ∧
          conditional.kind = .ifStatement ∧ node ∈ conditional.children ∧
            node.pos = conditional.pos) ∧
      ∃ token ∈ tokens, node.pos = token.pos := by
  obtain ⟨pieces, hpieces, hmakes⟩ := Parser.idle_holds.pieces_of_readAll h
  have hwhole : withoutLineEnds tokens = pieces.flatMap Piece.tokens := hpieces
  have hbegins (piece : Piece) (root : Node) (hmade : piece.Makes root) : piece.Makes root ∧
      ∃ first rest, piece.tokens = first :: rest ∧ root.pos = first.pos := by
    obtain ⟨hread, hitem⟩ := hmade.readFrom last
    exact ⟨hmade, hread.item_begins hitem⟩
  refine ⟨⟨pieces, hwhole, hmakes.imp hbegins⟩, fun root hroot node hnode => ?_⟩
  have hsettled : Node.Settled last (withoutLineEnds tokens) root node :=
    Node.Settled.within hnode (.inl (hwhole ▸ Piece.inside_of_makes hmakes last hroot)) (.self root)
  refine ⟨?_, ?_⟩
  · rcases hsettled with ⟨front, own, back, heq, hread, hbetween⟩ |
      ⟨conditional, hwithin, hkind, -, hmem, hlist, hpos, -⟩
    · exact .inl ⟨front, own, back, heq, hread, hread.placed last rfl hbetween⟩
    · exact .inr ⟨hlist, conditional, hwithin, hkind, hmem, hpos⟩
  · obtain ⟨token, hmem, hpos⟩ := hsettled.token_pos hnode
    exact ⟨token, (List.mem_filter.1 hmem).1, hpos⟩

/-- A text, and a loop over a call that has no arguments, with no body but the end of a line. -/
def emptyLoop : List Token :=
  [⟨.text "a", ⟨1, 1⟩⟩, ⟨.delimiter .blockOpen, ⟨1, 2⟩⟩, ⟨.keyword .forWord, ⟨1, 5⟩⟩,
    ⟨.identifier "i", ⟨1, 9⟩⟩, ⟨.keyword .inWord, ⟨1, 11⟩⟩, ⟨.identifier "f", ⟨1, 14⟩⟩,
    ⟨.symbol '(', ⟨1, 15⟩⟩, ⟨.symbol ')', ⟨1, 16⟩⟩, ⟨.delimiter .blockClose, ⟨1, 18⟩⟩,
    ⟨.endOfLine, ⟨1, 20⟩⟩, ⟨.delimiter .blockOpen, ⟨2, 1⟩⟩, ⟨.keyword .endWord, ⟨2, 4⟩⟩,
    ⟨.delimiter .blockClose, ⟨2, 8⟩⟩]

def emptyLoopTrees : List Node :=
  [.leaf (.text "a") ⟨1, 1⟩,
    ⟨.forLoop, [.leaf (.identifier "i") ⟨1, 9⟩,
      ⟨.funcCall, [.leaf (.identifier "f") ⟨1, 14⟩, ⟨.argsList, [], ⟨1, 16⟩⟩], ⟨1, 14⟩⟩,
      ⟨.content, [], ⟨2, 1⟩⟩], ⟨1, 2⟩⟩]

/-- The empty body and the empty argument list stand at tokens behind them. -/
theorem nodes_stand_at_tokens_emptyLoop : parse emptyLoop = .ok emptyLoopTrees ∧
    ∀ root ∈ emptyLoopTrees, ∀ node : Node, node.Within root →
      ∃ token ∈ emptyLoop, node.pos = token.pos := by
  have hparse : parse emptyLoop = .ok emptyLoopTrees := by cbv
  have hnodes := (nodes_stand_at_tokens hparse ⟨2, 8⟩).2
  exact ⟨hparse, fun root hroot node hnode => (hnodes root hroot node hnode).2⟩

end PageTemplate
