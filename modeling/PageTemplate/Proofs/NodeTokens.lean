import PageTemplate.Proofs.Plans

/-!
The tokens of a node. A node that the rules build has been read from tokens that stand side by side:
those of its parts, with the delimiters, words and separators of its kind between them. Where a node
begins is decided when it is made, and nothing that is added to it later changes that.
-/

namespace PageTemplate

def Token.AreOf (tokens : List Token) (classes : List Terminal) : Prop :=
  tokens.map Token.terminal? = classes.map some

@[simp] theorem Token.areOf_nil : AreOf [] [] := rfl

@[simp] theorem Token.areOf_cons {token : Token} {tokens : List Token} {t : Terminal}
    {classes : List Terminal} : AreOf (token :: tokens) (t :: classes) ↔
      token.terminal? = some t ∧ AreOf tokens classes := by
  simp [AreOf]

theorem Token.AreOf.head {token : Token} {tokens : List Token} {t : Terminal}
    {classes : List Terminal} (h : AreOf (token :: tokens) (t :: classes)) :
    token.terminal? = some t := (areOf_cons.1 h).1

theorem Token.AreOf.tail {token : Token} {tokens : List Token} {t : Terminal}
    {classes : List Terminal} (h : AreOf (token :: tokens) (t :: classes)) :
    AreOf tokens classes := (areOf_cons.1 h).2

inductive Token.MakesLeaf : Token → Node → Prop
  | string (content : String) (pos : Position) :
    MakesLeaf ⟨.string content, pos⟩ (.leaf (.stringLiteral content) pos)
  | number (value : Int64) (pos : Position) :
    MakesLeaf ⟨.number value, pos⟩ (.leaf (.numberLiteral value) pos)
  | bool (value : Bool) (pos : Position) :
    MakesLeaf ⟨.bool value, pos⟩ (.leaf (.boolLiteral value) pos)
  | text (content : String) (pos : Position) :
    MakesLeaf ⟨.text content, pos⟩ (.leaf (.text content) pos)
  | simpleName (name : String) (pos : Position) :
    MakesLeaf ⟨.identifier name, pos⟩ (.leaf (.varName [name]) pos)
  | dottedName (parts : List String) (pos : Position) :
    MakesLeaf ⟨.dottedName parts, pos⟩ (.leaf (.varName parts) pos)
  | word {token : Token} {node : Node} : token.word? = some node → MakesLeaf token node
  | operator {token : Token} {node : Node} : token.operator? = some node → MakesLeaf token node

def NodeKind.Separated (kind : NodeKind) (separator : Terminal) : Prop :=
  kind = .argsList ∧ separator = .comma ∨ kind = .statementList ∧ separator = .semicolon

def NodeKind.isItem : NodeKind → Bool
  | .text _ | .block | .printBlock | .ifStatement | .forLoop => true
  | _ => false

mutual

/-- A node and the tokens that it has been read from. A body or an argument list without tokens has
the position `ahead` of the token behind it. -/
inductive Node.ReadFrom : Node → Position → List Token → Prop
  | leaf {token : Token} {node : Node} (ahead : Position) : token.MakesLeaf node →
    Node.ReadFrom node ahead [token]
  -- parentheses make no node, but they belong to the tokens of the expression
  | parenthesized {opening closing : Token} {expr : Node} {own : List Token} (ahead : Position) :
    Token.AreOf [opening, closing] [.leftParen, .rightParen] → expr.kind.isExpression = true →
    Node.ReadFrom expr closing.pos own →
    Node.ReadFrom expr ahead (opening :: (own ++ [closing]))
  | unary {op : Token} {operator operand : Node} {own : List Token} (ahead : Position) :
    op.operator? = some operator → operand.kind.isExpression = true →
    Node.ReadFrom operand ahead own →
    Node.ReadFrom ⟨.expression .unary, [operator, operand], op.pos⟩ ahead (op :: own)
  | binary {kind : ExprKind} {op : Token} {left operator right : Node} {front back : List Token}
    (ahead : Position) : op.operator? = some operator → left.kind.isExpression = true →
    right.kind.isExpression = true → Node.ReadFrom left op.pos front →
    Node.ReadFrom right ahead back →
    Node.ReadFrom ⟨.expression kind, [left, operator, right], left.pos⟩ ahead (front ++ op :: back)
  | assignment {equals : Token} {target value : Node} {front back : List Token}
    (ahead : Position) : Token.AreOf [equals] [.assign] → target.kind.isExpression = true →
    value.kind.isExpression = true → Node.ReadFrom target equals.pos front →
    Node.ReadFrom value ahead back →
    Node.ReadFrom ⟨.expression .assignment, [target, value], target.pos⟩ ahead
      (front ++ equals :: back)
  | funcCall {name opening closing : Token} {callee args : Node} {own : List Token}
    (ahead : Position) : name.word? = some callee →
    Token.AreOf [opening, closing] [.leftParen, .rightParen] → args.kind = .argsList →
    Node.ReadFrom args closing.pos own →
    Node.ReadFrom ⟨.funcCall, [callee, args], name.pos⟩ ahead
      (name :: opening :: (own ++ [closing]))
  -- lists: they begin with a member, which gives them their position, and grow behind separators
  | noArgs (ahead : Position) : Node.ReadFrom ⟨.argsList, [], ahead⟩ ahead []
  | first {kind : NodeKind} {separator : Terminal} {member : Node} {own : List Token}
    (ahead : Position) : kind.Separated separator → member.kind.isExpression = true →
    Node.ReadFrom member ahead own → Node.ReadFrom ⟨kind, [member], member.pos⟩ ahead own
  | further {separator : Token} {t : Terminal} {list member : Node} {front back : List Token}
    (ahead : Position) : list.kind.Separated t → list.children ≠ [] →
    Token.AreOf [separator] [t] → member.kind.isExpression = true →
    Node.ReadFrom list separator.pos front →
    Node.ReadFrom member ahead back →
    Node.ReadFrom ⟨list.kind, list.children ++ [member], list.pos⟩ ahead
      (front ++ separator :: back)
  | trailing {separator : Token} {list : Node} {own : List Token} (ahead : Position) :
    list.kind = .statementList → Token.AreOf [separator] [.semicolon] →
    Node.ReadFrom list separator.pos own → Node.ReadFrom list ahead (own ++ [separator])
  | block {opening closing : Token} {list : Node} {own : List Token} (ahead : Position) :
    Token.AreOf [opening, closing] [.blockOpen, .blockClose] → list.kind = .statementList →
    Node.ReadFrom list closing.pos own →
    Node.ReadFrom ⟨.block, [list], opening.pos⟩ ahead (opening :: (own ++ [closing]))
  | printBlock {opening closing : Token} {expr : Node} {own : List Token} (ahead : Position) :
    Token.AreOf [opening, closing] [.printOpen, .blockClose] → expr.kind.isExpression = true →
    Node.ReadFrom expr closing.pos own →
    Node.ReadFrom ⟨.printBlock, [expr], opening.pos⟩ ahead (opening :: (own ++ [closing]))
  -- bodies: they begin without tokens, ahead of what will be their first item
  | noItems (ahead : Position) : Node.ReadFrom ⟨.content, [], ahead⟩ ahead []
  | item {content item : Node} {front back : List Token} (ahead : Position) :
    content.kind = .content → item.kind.isItem = true →
    Node.ReadFrom content (placeOf ahead back) front → Node.ReadFrom item ahead back →
    Node.ReadFrom ⟨.content, content.children ++ [item], content.pos⟩ ahead (front ++ back)
  | ifStatement {opening word closing : Token} {ifWord condition body : Node} {rest : IfTail}
    {front middle back : List Token} (ahead : Position) :
    Token.AreOf [opening, word, closing] [.blockOpen, .ifWord, .blockClose] →
    word.word? = some ifWord → condition.kind.isExpression = true → body.kind = .content →
    Node.ReadFrom condition closing.pos front → Node.ReadFrom body (placeOf ahead back) middle →
    IfTail.ReadFrom rest ahead back →
    Node.ReadFrom ⟨.ifStatement, [ifWord, condition, body,
        ⟨.elseIfList, rest.elseIfs, opening.pos⟩] ++ rest.elseClause.toList ++ [rest.endWord],
        opening.pos⟩ ahead
      (opening :: word :: (front ++ closing :: (middle ++ back)))
  | elseClause {opening word closing : Token} {elseWord body : Node} {own : List Token}
    (ahead : Position) :
    Token.AreOf [opening, word, closing] [.blockOpen, .elseWord, .blockClose] →
    word.word? = some elseWord → body.kind = .content → Node.ReadFrom body ahead own →
    Node.ReadFrom ⟨.elseClause, [elseWord, body], opening.pos⟩ ahead
      (opening :: word :: closing :: own)
  | forBare {opening word var into closing second last final : Token} {name input body : Node}
    {front back : List Token} (ahead : Position) :
    Token.AreOf [opening, word, var, into, closing, second, last, final]
      [.blockOpen, .forWord, .identifier, .inWord, .blockClose, .blockOpen, .endWord,
        .blockClose] →
    var.word? = some name → Role.loopInput.admits input.kind = true → body.kind = .content →
    Node.ReadFrom input closing.pos front → Node.ReadFrom body second.pos back →
    Node.ReadFrom ⟨.forLoop, [name, input, body], opening.pos⟩ ahead
      (opening :: word :: var :: into ::
        (front ++ closing :: (back ++ [second, last, final])))
  | forParenthesized {opening word left var into right closing second last final : Token}
    {name input body : Node} {front back : List Token} (ahead : Position) :
    Token.AreOf [opening, word, left, var, into, right, closing, second, last, final]
      [.blockOpen, .forWord, .leftParen, .identifier, .inWord, .rightParen, .blockClose,
        .blockOpen, .endWord, .blockClose] →
    var.word? = some name → Role.loopInput.admits input.kind = true → body.kind = .content →
    Node.ReadFrom input right.pos front → Node.ReadFrom body second.pos back →
    Node.ReadFrom ⟨.forLoop, [name, input, body], opening.pos⟩ ahead
      (opening :: word :: left :: var :: into ::
        (front ++ right :: closing :: (back ++ [second, last, final])))

/-- What is behind the first branch of an if statement, and the tokens that it is read from. -/
inductive IfTail.ReadFrom : IfTail → Position → List Token → Prop
  | endOnly {opening word closing : Token} {endWord : Node} (ahead : Position) :
    Token.AreOf [opening, word, closing] [.blockOpen, .endWord, .blockClose] →
    word.word? = some endWord → IfTail.ReadFrom ⟨[], none, endWord⟩ ahead [opening, word, closing]
  | elseIf {opening word closing : Token} {condition body : Node} {rest : IfTail}
    {front middle back : List Token} (ahead : Position) :
    Token.AreOf [opening, word, closing] [.blockOpen, .elseIfWord, .blockClose] →
    condition.kind.isExpression = true → body.kind = .content →
    Node.ReadFrom condition closing.pos front → Node.ReadFrom body (placeOf ahead back) middle →
    IfTail.ReadFrom rest ahead back →
    IfTail.ReadFrom { rest with elseIfs := condition :: body :: rest.elseIfs } ahead
      (opening :: word :: (front ++ closing :: (middle ++ back)))
  | elseEnd {opening word closing : Token} {clause endWord : Node} {own : List Token}
    (ahead : Position) :
    Token.AreOf [opening, word, closing] [.blockOpen, .endWord, .blockClose] →
    word.word? = some endWord → clause.kind = .elseClause →
    Node.ReadFrom clause opening.pos own →
    IfTail.ReadFrom ⟨[], some clause, endWord⟩ ahead (own ++ [opening, word, closing])

end

def Entry.ReadFrom : Entry → Position → List Token → Prop
  | .token t, _, own => own = [t]
  | .node root, ahead, own => root.ReadFrom ahead own
  | .tail rest, ahead, own => rest.ReadFrom ahead own

def Nonterminal.isItem : Nonterminal → Bool
  | .start | .unit | .block | .printBlock | .ifStatement | .forLoop | .item => true
  | _ => false

/-- What is known of the node of a phrase besides that it fits: it may stand between blocks if the
phrase may, and the arguments of a call are there if they are read one by one. -/
def Nonterminal.Ensures (n : Nonterminal) (node : Node) : Prop :=
  (n.isItem = true → node.kind.isItem = true) ∧ (n = .argList → node.children ≠ [])

structure Entry.Reads (entry : Entry) (symbol : GrammarSymbol) (ahead : Position)
    (own : List Token) : Prop where
  fits : entry.Fits symbol
  readFrom : entry.ReadFrom ahead own
  ensures : ∀ n node, symbol = .phrase n → entry = .node node → n.Ensures node

def Entry.AllRead : List GrammarSymbol → Position → List Token → List Entry → Prop
  | [], _, tokens, entries => tokens = [] ∧ entries = []
  | symbol :: symbols, ahead, tokens, entries => ∃ own later entry others,
    tokens = own ++ later ∧ entries = entry :: others ∧
      entry.Reads symbol (placeOf ahead later) own ∧ AllRead symbols ahead later others

section

variable {symbols : List GrammarSymbol} {ahead : Position} {tokens : List Token}
  {entries : List Entry}

theorem Entry.allRead_terminal {t : Terminal}
    (h : AllRead (.terminal t :: symbols) ahead tokens entries) :
    ∃ token later others, tokens = token :: later ∧ entries = .token token :: others ∧
      token.terminal? = some t ∧ AllRead symbols ahead later others := by
  obtain ⟨own, later, entry, others, rfl, rfl, ⟨⟨token, rfl, hterminal⟩, hown, -⟩, hothers⟩ := h
  obtain rfl : own = [token] := hown
  exact ⟨token, later, others, rfl, rfl, hterminal, hothers⟩

/-- The tokens of a phrase come first, and its node is read from them. -/
theorem Entry.allRead_phrase {n : Nonterminal} (hn : n ≠ .ifRest)
    (h : AllRead (.phrase n :: symbols) ahead tokens entries) :
    ∃ node own later others, tokens = own ++ later ∧ entries = .node node :: others ∧
      n.Fits node ∧ node.ReadFrom (placeOf ahead later) own ∧
      n.Ensures node ∧ AllRead symbols ahead later others := by
  obtain ⟨own, later, entry, others, rfl, rfl, ⟨hfits, hown, hensures⟩, hothers⟩ := h
  obtain ⟨node, rfl, hnode⟩ := (Entry.fits_phrase hn).1 hfits
  exact ⟨node, own, later, others, rfl, rfl, hnode, hown, hensures n node rfl rfl, hothers⟩

/-- The last part is read from all the tokens that are left. -/
theorem Entry.allRead_last {n : Nonterminal} (hn : n ≠ .ifRest)
    (h : AllRead [.phrase n] ahead tokens entries) :
    ∃ node, entries = [.node node] ∧ n.Fits node ∧ node.ReadFrom ahead tokens ∧
      n.Ensures node := by
  obtain ⟨node, own, _, _, rfl, rfl, hfits, hown, hensures, rfl, rfl⟩ := allRead_phrase hn h
  rw [List.append_nil]
  exact ⟨node, rfl, hfits, hown, hensures⟩

theorem Entry.AllRead.fitAll (h : AllRead symbols ahead tokens entries) :
    FitAll symbols entries := by
  induction symbols generalizing tokens entries with
  | nil => exact h.2
  | cons symbol symbols ih =>
    obtain ⟨own, later, entry, others, -, rfl, hreads, hothers⟩ := h
    exact ⟨entry, others, rfl, hreads.fits, ih hothers⟩

theorem Entry.allRead_tail (h : AllRead [.phrase .ifRest] ahead tokens entries) :
    ∃ rest, entries = [.tail rest] ∧ rest.ReadFrom ahead tokens := by
  obtain ⟨own, _, _, _, rfl, rfl, ⟨⟨rest, rfl, -⟩, hown, -⟩, rfl, rfl⟩ := h
  rw [List.append_nil]
  exact ⟨rest, rfl, hown⟩

end

namespace Rule

variable {rule : Rule} {ahead : Position} {first : Entry} {parts : List Entry} {entry : Entry}
  {tokens : List Token}

/-- A plan is carried out at the place of the first part. -/
theorem carryOut_of_build {plan : Plan} (hplan : rule.plan (first :: parts) = .ok plan)
    (h : rule.build (first :: parts) ahead = .ok entry) : plan.carryOut first.pos = .ok entry := by
  rw [build, hplan] at h
  exact h

/-- What is ready is built as it is. -/
theorem eq_of_ready {made : Entry} (hplan : rule.plan parts = .ok (.ready made))
    (h : rule.build parts ahead = .ok entry) : entry = made := by
  obtain ⟨plan, pos, hready, hentry⟩ := plan_of_build h
  rw [hplan] at hready
  cases hready
  cases hentry
  rfl

/-- A node that is made of parts has the position of the first of them. -/
theorem node_of_make {kind : NodeKind} {children : List Node}
    (hplan : rule.plan (first :: parts) = .ok (.make kind children))
    (h : rule.build (first :: parts) ahead = .ok entry) :
    entry = .node ⟨kind, children, first.pos⟩ := by
  obtain ⟨node, hnode, rfl⟩ := Parser.map_eq_ok (carryOut_of_build hplan h)
  rw [eq_of_checked hnode]

/-- A list that grows stays where it is. -/
theorem node_of_push {list child : Node} (hplan : rule.plan parts = .ok (.push list child))
    (h : rule.build parts ahead = .ok entry) :
    entry = .node ⟨list.kind, list.children ++ [child], list.pos⟩ := by
  obtain ⟨plan, pos, hpush, hentry⟩ := plan_of_build h
  rw [hplan] at hpush
  cases hpush
  rw [Plan.carryOut] at hentry
  split at hentry <;> cases hentry
  next hnode => rw [(eq_of_push hnode).2]

/-- What is made without parts has the position of the token ahead. -/
theorem node_of_nil {kind : NodeKind} (hplan : rule.plan [] = .ok (.make kind []))
    (h : rule.build [] ahead = .ok entry) : entry = .node ⟨kind, [], ahead⟩ := by
  rw [build, hplan] at h
  obtain ⟨node, hnode, rfl⟩ := Parser.map_eq_ok h
  rw [eq_of_checked hnode]

/-- The list of the further branches stands where the statement does, even if there are none. -/
theorem node_of_ifElse {ifWord condition body : Node} {rest : IfTail}
    (hplan : rule.plan (first :: parts) = .ok (.ifElse ifWord condition body rest))
    (h : rule.build (first :: parts) ahead = .ok entry) :
    entry = .node ⟨.ifStatement, [ifWord, condition, body,
      ⟨.elseIfList, rest.elseIfs, first.pos⟩] ++ rest.elseClause.toList ++ [rest.endWord],
      first.pos⟩ := by
  have hentry := carryOut_of_build hplan h
  rw [Plan.carryOut] at hentry
  cases hbranches : checked .elseIfList rest.elseIfs first.pos with
  | error e =>
    rw [hbranches] at hentry
    cases hentry
  | ok elseIfs =>
    rw [hbranches] at hentry
    obtain ⟨node, hnode, rfl⟩ := Parser.map_eq_ok hentry
    rw [eq_of_checked hnode, eq_of_checked hbranches]

theorem tail_of_elseTail {children : List Node} {endWord : Node}
    (hplan : rule.plan (first :: parts) = .ok (.elseTail children endWord))
    (h : rule.build (first :: parts) ahead = .ok entry) :
    entry = .tail ⟨[], some ⟨.elseClause, children, first.pos⟩, endWord⟩ := by
  have hentry := carryOut_of_build hplan h
  rw [Plan.carryOut] at hentry
  cases hclause : checked .elseClause children first.pos with
  | error e =>
    rw [hclause] at hentry
    cases hentry
  | ok clause =>
    rw [hclause] at hentry
    cases hentry
    rw [eq_of_checked hclause]

/-- A rule that passes on its only part. -/
theorem reads_only {n : Nonterminal} (hrhs : rule.rhs = [.phrase n])
    (hreading : rule.reading = pass .node) (hn : n ≠ .ifRest)
    (hparts : Entry.AllRead rule.rhs ahead tokens parts)
    (h : rule.build parts ahead = .ok entry) : entry.ReadFrom ahead tokens := by
  rw [hrhs] at hparts
  obtain ⟨node, rfl, -, hown, -⟩ := Entry.allRead_last hn hparts
  rw [eq_of_ready (plan_pass hreading rfl) h]
  exact hown

/-- A rule that makes a leaf of a token of one class. -/
theorem reads_leaf {t : Terminal} (hrhs : rule.rhs = [.terminal t])
    (hleaf : ∀ token : Token, t.Holds token.kind → ∃ node, token.MakesLeaf node ∧
      rule.plan [.token token] = .ok (.ready (.node node)))
    (hparts : Entry.AllRead rule.rhs ahead tokens parts)
    (h : rule.build parts ahead = .ok entry) : entry.ReadFrom ahead tokens := by
  rw [hrhs] at hparts
  obtain ⟨token, _, _, rfl, rfl, hread, rfl, rfl⟩ := Entry.allRead_terminal hparts
  obtain ⟨node, hnode, hplan⟩ := hleaf token (token.holds_of_terminal hread)
  rw [eq_of_ready hplan h]
  exact .leaf ahead hnode

/-- A rule for an operator between two operands. -/
theorem reads_binary {left right : Nonterminal} {t : Terminal} {kind : ExprKind}
    (hrhs : rule.rhs = [.phrase left, .terminal t, .phrase right])
    (hreading : rule.reading = binary kind) (ht : t ∈ [Terminal.logicOp, .relationOp, .plus,
      .minus, .multOp, .bang])
    (hoperands : ∀ n ∈ [left, right], n ≠ .ifRest ∧
      ∀ node, n.Fits node → node.kind.isExpression = true)
    (hparts : Entry.AllRead rule.rhs ahead tokens parts)
    (h : rule.build parts ahead = .ok entry) : entry.ReadFrom ahead tokens := by
  rw [hrhs] at hparts
  obtain ⟨hl, hlexpr⟩ := hoperands left (by simp)
  obtain ⟨hr, hrexpr⟩ := hoperands right (by simp)
  obtain ⟨lnode, front, _, _, rfl, rfl, hleft, hfront, -, hparts⟩ := Entry.allRead_phrase hl hparts
  obtain ⟨op, back, _, rfl, rfl, hop, hparts⟩ := Entry.allRead_terminal hparts
  obtain ⟨rnode, rfl, hright, hback, -⟩ := Entry.allRead_last hr hparts
  obtain ⟨spelling, hspelling⟩ := Token.operator_of_terminal ht hop
  rw [node_of_make (plan_binary hreading hspelling) h]
  exact .binary ahead hspelling (hlexpr lnode hleft) (hrexpr rnode hright) hfront hback

/-- A rule for an operator in front of its operand. -/
theorem reads_unary {t : Terminal} (hrhs : rule.rhs = [.terminal t, .phrase .unaryExpr])
    (hreading : rule.reading = unary) (ht : t ∈ [Terminal.logicOp, .relationOp, .plus, .minus,
      .multOp, .bang]) (hparts : Entry.AllRead rule.rhs ahead tokens parts)
    (h : rule.build parts ahead = .ok entry) : entry.ReadFrom ahead tokens := by
  rw [hrhs] at hparts
  obtain ⟨op, own, _, rfl, rfl, hop, hparts⟩ := Entry.allRead_terminal hparts
  obtain ⟨operand, rfl, hoperand, hown, -⟩ := Entry.allRead_last (by decide) hparts
  obtain ⟨spelling, hspelling⟩ := Token.operator_of_terminal ht hop
  rw [node_of_make (plan_unary hreading hspelling) h]
  exact .unary ahead hspelling hoperand hown

/-- A rule that begins a list, and a rule that adds to one behind a separator. -/
theorem reads_first {kind : NodeKind} {separator : Terminal} (hkind : kind.Separated separator)
    (hrhs : rule.rhs = [.phrase .expression])
    (hplan : ∀ member, rule.plan [.node member] = .ok (.make kind [member]))
    (hparts : Entry.AllRead rule.rhs ahead tokens parts)
    (h : rule.build parts ahead = .ok entry) : entry.ReadFrom ahead tokens := by
  rw [hrhs] at hparts
  obtain ⟨member, rfl, hmember, hown, -⟩ := Entry.allRead_last (by decide) hparts
  rw [node_of_make (hplan member) h]
  exact .first ahead hkind hmember hown

/-- One more member of a list is read behind a separator. -/
theorem reads_further {n : Nonterminal} {separator : Terminal}
    (hrhs : rule.rhs = [.phrase n, .terminal separator, .phrase .expression]) (hn : n ≠ .ifRest)
    (hlist : ∀ list, n.Fits list → n.Ensures list →
      list.kind.Separated separator ∧ list.children ≠ [])
    (hplan : ∀ list token member, rule.plan [.node list, .token token, .node member] =
      .ok (.push list member)) (hparts : Entry.AllRead rule.rhs ahead tokens parts)
    (h : rule.build parts ahead = .ok entry) : entry.ReadFrom ahead tokens := by
  rw [hrhs] at hparts
  obtain ⟨list, front, _, _, rfl, rfl, hfits, hfront, hensures, hparts⟩ :=
    Entry.allRead_phrase hn hparts
  obtain ⟨hkind, hne⟩ := hlist list hfits hensures
  obtain ⟨token, back, _, rfl, rfl, htoken, hparts⟩ := Entry.allRead_terminal hparts
  obtain ⟨member, rfl, hmember, hback, -⟩ := Entry.allRead_last (by decide) hparts
  rw [node_of_push (hplan list token member) h]
  exact .further ahead hkind hne (congrArg ([·]) htoken) hmember hfront hback

theorem reads_statementTrailing (hparts : Entry.AllRead statementTrailing.rhs ahead tokens parts)
    (h : statementTrailing.build parts ahead = .ok entry) : entry.ReadFrom ahead tokens := by
  obtain ⟨list, own, _, _, rfl, rfl, ⟨hkind, -⟩, hown, -, hparts⟩ :=
    Entry.allRead_phrase (by decide) hparts
  obtain ⟨token, _, _, rfl, rfl, htoken, rfl, rfl⟩ := Entry.allRead_terminal hparts
  rw [eq_of_ready rfl h]
  exact .trailing ahead hkind (congrArg ([·]) htoken) hown

/-- Parentheses around a node are among the tokens that it is read from. -/
theorem reads_parenthesized (hparts : Entry.AllRead parenthesized.rhs ahead tokens parts)
    (h : parenthesized.build parts ahead = .ok entry) : entry.ReadFrom ahead tokens := by
  obtain ⟨opening, _, _, rfl, rfl, hopening, hparts⟩ := Entry.allRead_terminal hparts
  obtain ⟨expr, own, _, _, rfl, rfl, hexpr, hown, -, hparts⟩ :=
    Entry.allRead_phrase (by decide) hparts
  obtain ⟨closing, _, _, rfl, rfl, hclosing, rfl, rfl⟩ := Entry.allRead_terminal hparts
  rw [eq_of_ready rfl h]
  exact .parenthesized ahead (by simp [*]) hexpr hown

theorem reads_assignment (hparts : Entry.AllRead assignment.rhs ahead tokens parts)
    (h : assignment.build parts ahead = .ok entry) : entry.ReadFrom ahead tokens := by
  obtain ⟨target, front, _, _, rfl, rfl, htarget, hfront, -, hparts⟩ :=
    Entry.allRead_phrase (by decide) hparts
  obtain ⟨equals, back, _, rfl, rfl, hequals, hparts⟩ := Entry.allRead_terminal hparts
  obtain ⟨value, rfl, hvalue, hback, -⟩ := Entry.allRead_last (by decide) hparts
  rw [node_of_make rfl h]
  exact .assignment ahead (congrArg ([·]) hequals) (isExpression_of_varName htarget) hvalue hfront
    hback

/-- A call without arguments has a list that stands at the closing parenthesis. -/
theorem reads_funcCall (hparts : Entry.AllRead funcCall.rhs ahead tokens parts)
    (h : funcCall.build parts ahead = .ok entry) : entry.ReadFrom ahead tokens := by
  obtain ⟨name, _, _, rfl, rfl, hname, hparts⟩ := Entry.allRead_terminal hparts
  obtain ⟨opening, _, _, rfl, rfl, hopening, hparts⟩ := Entry.allRead_terminal hparts
  obtain ⟨args, own, _, _, rfl, rfl, hargs, hown, -, hparts⟩ :=
    Entry.allRead_phrase (by decide) hparts
  obtain ⟨closing, _, _, rfl, rfl, hclosing, rfl, rfl⟩ := Entry.allRead_terminal hparts
  obtain ⟨callee, pos, rfl⟩ := Token.eq_identifier hname
  rw [node_of_make rfl h]
  exact .funcCall ahead rfl (by simp [*]) hargs hown

theorem reads_block (hparts : Entry.AllRead block.rhs ahead tokens parts)
    (h : block.build parts ahead = .ok entry) : entry.ReadFrom ahead tokens := by
  obtain ⟨opening, _, _, rfl, rfl, hopening, hparts⟩ := Entry.allRead_terminal hparts
  obtain ⟨list, own, _, _, rfl, rfl, ⟨hkind, -⟩, hown, -, hparts⟩ :=
    Entry.allRead_phrase (by decide) hparts
  obtain ⟨closing, _, _, rfl, rfl, hclosing, rfl, rfl⟩ := Entry.allRead_terminal hparts
  rw [node_of_make rfl h]
  exact .block ahead (by simp [*]) hkind hown

theorem reads_printBlock (hparts : Entry.AllRead printBlock.rhs ahead tokens parts)
    (h : printBlock.build parts ahead = .ok entry) : entry.ReadFrom ahead tokens := by
  obtain ⟨opening, _, _, rfl, rfl, hopening, hparts⟩ := Entry.allRead_terminal hparts
  obtain ⟨expr, own, _, _, rfl, rfl, hexpr, hown, -, hparts⟩ :=
    Entry.allRead_phrase (by decide) hparts
  obtain ⟨closing, _, _, rfl, rfl, hclosing, rfl, rfl⟩ := Entry.allRead_terminal hparts
  rw [node_of_make rfl h]
  exact .printBlock ahead (by simp [*]) hexpr hown

/-- A body grows at its end, and the first item gives it a place. -/
theorem reads_contentAppend (hparts : Entry.AllRead contentAppend.rhs ahead tokens parts)
    (h : contentAppend.build parts ahead = .ok entry) : entry.ReadFrom ahead tokens := by
  obtain ⟨content, front, back, _, rfl, rfl, hkind, hfront, -, hparts⟩ :=
    Entry.allRead_phrase (by decide) hparts
  obtain ⟨item, rfl, -, hback, hitem, -⟩ := Entry.allRead_last (by decide) hparts
  have hcontent : content.kind = .content := hkind
  rw [node_of_push rfl h, hcontent]
  exact .item ahead hkind (hitem rfl) hfront hback

theorem reads_ifStatement (hparts : Entry.AllRead ifStatement.rhs ahead tokens parts)
    (h : ifStatement.build parts ahead = .ok entry) : entry.ReadFrom ahead tokens := by
  obtain ⟨opening, _, _, rfl, rfl, hopening, hparts⟩ := Entry.allRead_terminal hparts
  obtain ⟨word, _, _, rfl, rfl, hword, hparts⟩ := Entry.allRead_terminal hparts
  obtain ⟨condition, front, _, _, rfl, rfl, hcondition, hfront, -, hparts⟩ :=
    Entry.allRead_phrase (by decide) hparts
  obtain ⟨closing, _, _, rfl, rfl, hclosing, hparts⟩ := Entry.allRead_terminal hparts
  obtain ⟨body, middle, back, _, rfl, rfl, hbody, hmiddle, -, hparts⟩ :=
    Entry.allRead_phrase (by decide) hparts
  obtain ⟨rest, rfl, hback⟩ := Entry.allRead_tail hparts
  have hclasses : Token.AreOf [opening, word, closing] [.blockOpen, .ifWord, .blockClose] := by
    simp [*]
  obtain ⟨pos, rfl⟩ := Token.eq_keyword (word.holds_of_terminal hword)
  rw [node_of_ifElse rfl h]
  exact .ifStatement ahead hclasses rfl hcondition hbody hfront hmiddle hback

theorem reads_elseIfTail (hparts : Entry.AllRead elseIfTail.rhs ahead tokens parts)
    (h : elseIfTail.build parts ahead = .ok entry) : entry.ReadFrom ahead tokens := by
  obtain ⟨opening, _, _, rfl, rfl, hopening, hparts⟩ := Entry.allRead_terminal hparts
  obtain ⟨word, _, _, rfl, rfl, hword, hparts⟩ := Entry.allRead_terminal hparts
  obtain ⟨condition, front, _, _, rfl, rfl, hcondition, hfront, -, hparts⟩ :=
    Entry.allRead_phrase (by decide) hparts
  obtain ⟨closing, _, _, rfl, rfl, hclosing, hparts⟩ := Entry.allRead_terminal hparts
  obtain ⟨body, middle, back, _, rfl, rfl, hbody, hmiddle, -, hparts⟩ :=
    Entry.allRead_phrase (by decide) hparts
  obtain ⟨rest, rfl, hback⟩ := Entry.allRead_tail hparts
  rw [eq_of_ready rfl h]
  exact .elseIf ahead (by simp [*]) hcondition hbody hfront hmiddle hback

theorem reads_elseTail (hparts : Entry.AllRead elseTail.rhs ahead tokens parts)
    (h : elseTail.build parts ahead = .ok entry) : entry.ReadFrom ahead tokens := by
  obtain ⟨opening, _, _, rfl, rfl, hopening, hparts⟩ := Entry.allRead_terminal hparts
  obtain ⟨word, _, _, rfl, rfl, hword, hparts⟩ := Entry.allRead_terminal hparts
  obtain ⟨closing, _, _, rfl, rfl, hclosing, hparts⟩ := Entry.allRead_terminal hparts
  obtain ⟨body, own, _, _, rfl, rfl, hbody, hown, -, hparts⟩ :=
    Entry.allRead_phrase (by decide) hparts
  obtain ⟨second, _, _, rfl, rfl, hsecond, hparts⟩ := Entry.allRead_terminal hparts
  obtain ⟨last, _, _, rfl, rfl, hlast, hparts⟩ := Entry.allRead_terminal hparts
  obtain ⟨final, _, _, rfl, rfl, hfinal, rfl, rfl⟩ := Entry.allRead_terminal hparts
  have hhead : Token.AreOf [opening, word, closing] [.blockOpen, .elseWord, .blockClose] := by
    simp [*]
  have hback : Token.AreOf [second, last, final] [.blockOpen, .endWord, .blockClose] := by
    simp [*]
  obtain ⟨pos, rfl⟩ := Token.eq_keyword (word.holds_of_terminal hword)
  obtain ⟨endPos, rfl⟩ := Token.eq_keyword (last.holds_of_terminal hlast)
  rw [tail_of_elseTail rfl h]
  exact .elseEnd ahead hback rfl rfl (.elseClause second.pos hhead rfl hbody hown)

theorem reads_endTail (hparts : Entry.AllRead endTail.rhs ahead tokens parts)
    (h : endTail.build parts ahead = .ok entry) : entry.ReadFrom ahead tokens := by
  obtain ⟨opening, _, _, rfl, rfl, hopening, hparts⟩ := Entry.allRead_terminal hparts
  obtain ⟨word, _, _, rfl, rfl, hword, hparts⟩ := Entry.allRead_terminal hparts
  obtain ⟨closing, _, _, rfl, rfl, hclosing, rfl, rfl⟩ := Entry.allRead_terminal hparts
  have hclasses : Token.AreOf [opening, word, closing] [.blockOpen, .endWord, .blockClose] := by
    simp [*]
  obtain ⟨pos, rfl⟩ := Token.eq_keyword (word.holds_of_terminal hword)
  rw [eq_of_ready rfl h]
  exact .endOnly ahead hclasses rfl

theorem reads_forBare (hparts : Entry.AllRead forBare.rhs ahead tokens parts)
    (h : forBare.build parts ahead = .ok entry) : entry.ReadFrom ahead tokens := by
  obtain ⟨opening, _, _, rfl, rfl, hopening, hparts⟩ := Entry.allRead_terminal hparts
  obtain ⟨word, _, _, rfl, rfl, hword, hparts⟩ := Entry.allRead_terminal hparts
  obtain ⟨var, _, _, rfl, rfl, hvar, hparts⟩ := Entry.allRead_terminal hparts
  obtain ⟨into, _, _, rfl, rfl, hinto, hparts⟩ := Entry.allRead_terminal hparts
  obtain ⟨input, front, _, _, rfl, rfl, hinput, hfront, -, hparts⟩ :=
    Entry.allRead_phrase (by decide) hparts
  obtain ⟨closing, _, _, rfl, rfl, hclosing, hparts⟩ := Entry.allRead_terminal hparts
  obtain ⟨body, back, _, _, rfl, rfl, hbody, hback, -, hparts⟩ :=
    Entry.allRead_phrase (by decide) hparts
  obtain ⟨second, _, _, rfl, rfl, hsecond, hparts⟩ := Entry.allRead_terminal hparts
  obtain ⟨last, _, _, rfl, rfl, hlast, hparts⟩ := Entry.allRead_terminal hparts
  obtain ⟨final, _, _, rfl, rfl, hfinal, rfl, rfl⟩ := Entry.allRead_terminal hparts
  obtain ⟨name, pos, rfl⟩ := Token.eq_identifier hvar
  rw [node_of_make rfl h]
  exact .forBare ahead (by simp [*]) rfl hinput hbody hfront hback

theorem reads_forParenthesized (hparts : Entry.AllRead forParenthesized.rhs ahead tokens parts)
    (h : forParenthesized.build parts ahead = .ok entry) : entry.ReadFrom ahead tokens := by
  obtain ⟨opening, _, _, rfl, rfl, hopening, hparts⟩ := Entry.allRead_terminal hparts
  obtain ⟨word, _, _, rfl, rfl, hword, hparts⟩ := Entry.allRead_terminal hparts
  obtain ⟨left, _, _, rfl, rfl, hleft, hparts⟩ := Entry.allRead_terminal hparts
  obtain ⟨var, _, _, rfl, rfl, hvar, hparts⟩ := Entry.allRead_terminal hparts
  obtain ⟨into, _, _, rfl, rfl, hinto, hparts⟩ := Entry.allRead_terminal hparts
  obtain ⟨input, front, _, _, rfl, rfl, hinput, hfront, -, hparts⟩ :=
    Entry.allRead_phrase (by decide) hparts
  obtain ⟨right, _, _, rfl, rfl, hright, hparts⟩ := Entry.allRead_terminal hparts
  obtain ⟨closing, _, _, rfl, rfl, hclosing, hparts⟩ := Entry.allRead_terminal hparts
  obtain ⟨body, back, _, _, rfl, rfl, hbody, hback, -, hparts⟩ :=
    Entry.allRead_phrase (by decide) hparts
  obtain ⟨second, _, _, rfl, rfl, hsecond, hparts⟩ := Entry.allRead_terminal hparts
  obtain ⟨last, _, _, rfl, rfl, hlast, hparts⟩ := Entry.allRead_terminal hparts
  obtain ⟨final, _, _, rfl, rfl, hfinal, rfl, rfl⟩ := Entry.allRead_terminal hparts
  obtain ⟨name, pos, rfl⟩ := Token.eq_identifier hvar
  rw [node_of_make rfl h]
  exact .forParenthesized ahead (by simp [*]) rfl hinput hbody hfront hback

/-- What a rule makes of its parts has been read from their tokens. -/
theorem build_readFrom (hparts : Entry.AllRead rule.rhs ahead tokens parts)
    (h : rule.build parts ahead = .ok entry) : entry.ReadFrom ahead tokens := by
  have hoperands {left right : Nonterminal}
      (h : ∀ n ∈ [left, right], n ∈ [Nonterminal.logicExpr, .relationExpr, .addExpr, .multExpr,
        .unaryExpr]) : ∀ n ∈ [left, right], n ≠ .ifRest ∧
          ∀ node, n.Fits node → node.kind.isExpression = true := by
    intro n hn
    have hmem := h n hn
    simp only [List.mem_cons, List.not_mem_nil, or_false] at hmem
    rcases hmem with rfl | rfl | rfl | rfl | rfl <;> exact ⟨by decide, fun _ hfits => hfits⟩
  cases rule
  case logic | relation | plus | minus | mult =>
    exact reads_binary rfl rfl (by decide) (hoperands (by decide)) hparts h
  case not | negate => exact reads_unary rfl rfl (by decide) hparts h
  case stringLiteral | loopString =>
    refine reads_leaf rfl ?_ hparts h
    rintro ⟨_, pos⟩ ⟨content, rfl⟩
    exact ⟨_, .string content pos, rfl⟩
  case numberLiteral =>
    refine reads_leaf rfl ?_ hparts h
    rintro ⟨_, pos⟩ ⟨value, rfl⟩
    exact ⟨_, .number value pos, rfl⟩
  case boolLiteral =>
    refine reads_leaf rfl ?_ hparts h
    rintro ⟨_, pos⟩ ⟨value, rfl⟩
    exact ⟨_, .bool value pos, rfl⟩
  case dottedName =>
    refine reads_leaf rfl ?_ hparts h
    rintro ⟨_, pos⟩ ⟨names, rfl⟩
    exact ⟨_, .dottedName names pos, rfl⟩
  case simpleName =>
    refine reads_leaf rfl ?_ hparts h
    rintro ⟨_, pos⟩ ⟨name, rfl⟩
    exact ⟨_, .simpleName name pos, rfl⟩
  case itemText =>
    refine reads_leaf rfl ?_ hparts h
    rintro ⟨_, pos⟩ ⟨content, rfl⟩
    exact ⟨_, .text content pos, rfl⟩
  case argsNone =>
    obtain ⟨rfl, rfl⟩ := hparts
    rw [node_of_nil rfl h]
    exact .noArgs ahead
  case contentEmpty =>
    obtain ⟨rfl, rfl⟩ := hparts
    rw [node_of_nil rfl h]
    exact .noItems ahead
  case statementFirst => exact reads_first (.inr ⟨rfl, rfl⟩) rfl (fun _ => rfl) hparts h
  case argFirst => exact reads_first (.inl ⟨rfl, rfl⟩) rfl (fun _ => rfl) hparts h
  case statementAppend =>
    have hlist (list : Node) (h : Nonterminal.statementList.Fits list)
        (_ : Nonterminal.statementList.Ensures list) :
        list.kind.Separated .semicolon ∧ list.children ≠ [] := ⟨.inr ⟨h.1, rfl⟩, h.2.1⟩
    exact reads_further rfl (by decide) hlist (fun _ _ _ => rfl) hparts h
  case argAppend =>
    have hlist (list : Node) (h : Nonterminal.argList.Fits list)
        (hensures : Nonterminal.argList.Ensures list) :
        list.kind.Separated .comma ∧ list.children ≠ [] := ⟨.inl ⟨h, rfl⟩, hensures.2 rfl⟩
    exact reads_further rfl (by decide) hlist (fun _ _ _ => rfl) hparts h
  case statementTrailing => exact reads_statementTrailing hparts h
  case assignment => exact reads_assignment hparts h
  case parenthesized => exact reads_parenthesized hparts h
  case funcCall => exact reads_funcCall hparts h
  case block => exact reads_block hparts h
  case printBlock => exact reads_printBlock hparts h
  case contentAppend => exact reads_contentAppend hparts h
  case ifStatement => exact reads_ifStatement hparts h
  case elseIfTail => exact reads_elseIfTail hparts h
  case elseTail => exact reads_elseTail hparts h
  case endTail => exact reads_endTail hparts h
  case forBare => exact reads_forBare hparts h
  case forParenthesized => exact reads_forParenthesized hparts h
  -- What is left changes nothing but the name of a phrase.
  case start | unitBlock | unitPrintBlock | unitIf | unitFor | itemBlock | itemPrintBlock | itemIf
      | itemFor | exprLogic | logicRel | relAdd | addMult | multUnary | unaryTerm | argsSome |
      termVar | termCall | loopVar | loopCall => exact reads_only rfl rfl (by decide) hparts h

/-- The rule alone decides on the kind of the node that it makes. -/
theorem kind_of_made {kind : NodeKind} {node : Node} (hmade : rule.made? = some kind)
    (hparts : Entry.AllRead rule.rhs ahead tokens parts)
    (h : rule.build parts ahead = .ok (.node node)) : node.kind = kind := by
  obtain ⟨plan, pos, hplan, hentry⟩ := plan_of_build h
  obtain ⟨children, rfl⟩ := ((plan_fits hparts.fitAll hplan).made kind).2 hmade
  obtain ⟨made, hnode, heq⟩ := Parser.map_eq_ok hentry
  cases heq
  rw [eq_of_checked hnode]

/-- What stands between blocks comes of the rules for these phrases. -/
theorem build_isItem (hlhs : rule.lhs.isItem = true)
    (hparts : Entry.AllRead rule.rhs ahead tokens parts) {node : Node}
    (h : rule.build parts ahead = .ok (.node node)) : node.kind.isItem = true := by
  -- a rule with a single phrase passes on what that phrase has made
  have honly {n : Nonterminal} (hrhs : rule.rhs = [.phrase n])
      (hreading : rule.reading = pass .node) (hn : n ≠ .ifRest) (hitem : n.isItem = true) :
      node.kind.isItem = true := by
    rw [hrhs] at hparts
    obtain ⟨part, rfl, -, -, hpart, -⟩ := Entry.allRead_last hn hparts
    cases eq_of_ready (plan_pass hreading rfl) h
    exact hpart hitem
  cases rule
  case start | unitBlock | unitPrintBlock | unitIf | unitFor | itemBlock | itemPrintBlock | itemIf
      | itemFor => exact honly rfl rfl (by decide) rfl
  case itemText =>
    obtain ⟨token, _, _, rfl, rfl, htext, rfl, rfl⟩ := Entry.allRead_terminal hparts
    obtain ⟨content, hkind⟩ : ∃ content, token.kind = .text content :=
      token.holds_of_terminal htext
    obtain ⟨_, pos⟩ := token
    obtain rfl := hkind
    cases h
    rfl
  case ifStatement =>
    obtain ⟨_, _, _, rfl, rfl, -, hparts⟩ := Entry.allRead_terminal hparts
    obtain ⟨word, _, _, rfl, rfl, hword, hparts⟩ := Entry.allRead_terminal hparts
    obtain ⟨condition, _, _, _, rfl, rfl, -, -, -, hparts⟩ :=
      Entry.allRead_phrase (by decide) hparts
    obtain ⟨_, _, _, rfl, rfl, -, hparts⟩ := Entry.allRead_terminal hparts
    obtain ⟨body, _, _, _, rfl, rfl, -, -, -, hparts⟩ := Entry.allRead_phrase (by decide) hparts
    obtain ⟨rest, rfl, -⟩ := Entry.allRead_tail hparts
    obtain ⟨pos, rfl⟩ := Token.eq_keyword (word.holds_of_terminal hword)
    cases node_of_ifElse rfl h
    rfl
  case block | printBlock | forBare | forParenthesized => rw [kind_of_made rfl hparts h]; rfl
  all_goals cases hlhs

/-- No rule makes a node that its phrase does not promise. -/
theorem build_ensures (hparts : Entry.AllRead rule.rhs ahead tokens parts) {node : Node}
    (h : rule.build parts ahead = .ok (.node node)) : rule.lhs.Ensures node := by
  refine ⟨fun hitem => build_isItem hitem hparts h, fun hlhs => ?_⟩
  cases rule
  case argFirst =>
    obtain ⟨arg, rfl, -⟩ := Entry.allRead_last (by decide) hparts
    rw [(eq_of_make rfl h).2]
    exact List.cons_ne_nil _ _
  case argAppend =>
    obtain ⟨list, _, _, _, rfl, rfl, -, -, -, hparts⟩ := Entry.allRead_phrase (by decide) hparts
    obtain ⟨comma, _, _, rfl, rfl, -, hparts⟩ := Entry.allRead_terminal hparts
    obtain ⟨arg, rfl, -⟩ := Entry.allRead_last (by decide) hparts
    rw [children_of_push rfl h]
    exact List.append_ne_nil_of_right_ne_nil _ (List.cons_ne_nil _ _)
  all_goals cases hlhs

end Rule

mutual

/-- The entry of a derivation has been read from the tokens of the derivation. -/
theorem Derivation.reads {symbol : GrammarSymbol} (d : Derivation symbol) {ahead : Position}
    {entry : Entry} (h : d.entry ahead = .ok entry) : entry.Reads symbol ahead d.yield := by
  obtain ⟨same, hsame, hfits⟩ := d.entry_fits ahead
  rw [h] at hsame
  cases hsame
  cases d with
  | leaf token read =>
    cases h
    exact ⟨hfits, rfl, fun n node hsymbol => GrammarSymbol.noConfusion hsymbol⟩
  | node rule builds parts =>
    obtain ⟨entries, hentries, -, hbuild⟩ := Derivation.entry_eq_ok h
    have hparts := parts.allRead hentries
    refine ⟨hfits, Rule.build_readFrom hparts hbuild, ?_⟩
    rintro n node ⟨⟩ rfl
    exact builds ▸ Rule.build_ensures hparts hbuild

theorem Derivations.allRead {symbols : List GrammarSymbol} (ds : Derivations symbols)
    {ahead : Position} {entries : List Entry} (h : ds.entries ahead = .ok entries) :
    Entry.AllRead symbols ahead ds.yield entries := by
  cases ds with
  | nil =>
    cases h
    exact ⟨rfl, rfl⟩
  | cons first rest =>
    obtain ⟨entry, others, rfl, hentry, hothers⟩ := Derivations.entries_cons_eq_ok h
    exact ⟨first.yield, rest.yield, entry, others, rfl, rfl, first.reads hentry,
      rest.allRead hothers⟩

end

end PageTemplate
