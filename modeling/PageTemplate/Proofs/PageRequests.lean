import PageTemplate.Node.View
import PageTemplate.Pagination
import PageTemplate.Proofs.CallArguments
import PageTemplate.Proofs.Readings
import PageTemplate.Proofs.Stretches

/-!
Requests for pages, found in two ways. A scan of the tokens looks for eight of them in a row; the
trees have calls. Each request that the scan finds is a call of the trees, and where no argument
stands in parentheses the scan finds the first of them.
-/

namespace PageTemplate

/-- A call that asks for pages, with nothing but the literals for arguments. -/
def Node.Asks (call : Node) (request : Pagination.Request) : Prop :=
  ∃ args, call.view? = some (.call "paginate" args) ∧
    args.map view? = [some (.string request.contentPath), some (.string request.templateKey),
      some (.number request.perPage)]

namespace Pagination.Request

def tokens (request : Request) (place : Nat → Position) : List Token :=
  [⟨.identifier "paginate", place 0⟩, ⟨.symbol '(', place 1⟩,
    ⟨.string request.contentPath, place 2⟩, ⟨.symbol ',', place 3⟩,
    ⟨.string request.templateKey, place 4⟩, ⟨.symbol ',', place 5⟩,
    ⟨.number request.perPage, place 6⟩, ⟨.symbol ')', place 7⟩]

def node (request : Request) (place : Nat → Position) : Node :=
  let args := [.leaf (.stringLiteral request.contentPath) (place 2),
    .leaf (.stringLiteral request.templateKey) (place 4),
    .leaf (.numberLiteral request.perPage) (place 6)]
  ⟨.funcCall, [.leaf (.identifier "paginate") (place 0), ⟨.argsList, args, place 2⟩], place 0⟩

def call (request : Request) (place : Nat → Position) : Derivation (.phrase .funcCall) :=
  let content : Derivation (.phrase .term) :=
    .node .stringLiteral rfl (.cons (.leaf ⟨.string request.contentPath, place 2⟩ rfl) .nil)
  let template : Derivation (.phrase .term) :=
    .node .stringLiteral rfl (.cons (.leaf ⟨.string request.templateKey, place 4⟩ rfl) .nil)
  let perPage : Derivation (.phrase .term) :=
    .node .numberLiteral rfl (.cons (.leaf ⟨.number request.perPage, place 6⟩ rfl) .nil)
  let two : Derivation (.phrase .argList) :=
    .ofAppend (.ofFirst (.ofTerm content)) ⟨.symbol ',', place 3⟩ rfl (.ofTerm template)
  let all : Derivation (.phrase .argList) :=
    .ofAppend two ⟨.symbol ',', place 5⟩ rfl (.ofTerm perPage)
  .ofCall ⟨.identifier "paginate", place 0⟩ rfl ⟨.symbol '(', place 1⟩ rfl
    (.node .argsSome rfl (.cons all .nil)) ⟨.symbol ')', place 7⟩ rfl

variable (request : Request) (place : Nat → Position)

theorem call_yield : (request.call place).yield = request.tokens place := by
  simp [call, tokens, Derivation.ofCall, Derivation.ofAppend, Derivation.ofFirst,
    Derivation.ofTerm, Derivation.yield, Derivations.yield]

/-- Building makes this call of the tokens of a request. -/
theorem node_madeBy_call : (request.node place).MadeBy (request.call place) := by
  intro ahead
  rfl

theorem node_asks : (request.node place).Asks request := ⟨_, rfl, rfl⟩

variable {request place} {all : List Token}

/-- Tokens of the kinds that a request has are those of the request at their places. -/
theorem eq_tokens {front : List Token}
    (h : front.map Token.kind = (request.tokens place).map Token.kind) :
    ∃ place, front = request.tokens place := by
  refine ⟨fun i => (front.map Token.pos).getD i ⟨0, 0⟩, ?_⟩
  simp only [tokens, List.map_cons, List.map_nil, List.map_eq_cons_iff, List.map_eq_nil_iff] at h
  obtain ⟨⟨_, _⟩, _, rfl, rfl, ⟨_, _⟩, _, rfl, rfl, ⟨_, _⟩, _, rfl, rfl, ⟨_, _⟩, _, rfl, rfl,
    ⟨_, _⟩, _, rfl, rfl, ⟨_, _⟩, _, rfl, rfl, ⟨_, _⟩, _, rfl, rfl, ⟨_, _⟩, _, rfl, rfl, rfl⟩ := h
  rfl

/-- A request is found where its tokens stand. -/
theorem first?_eq_some_iff : first? (all.map Token.kind) = some request ↔
    ∃ place rest, all = request.tokens place ++ rest := by
  constructor
  · intro h
    unfold first? at h
    split at h
    · next content template perPage rest heq =>
      cases h
      have hfront : (all.take 8).map Token.kind =
          (tokens ⟨content, template, perPage⟩ fun _ => ⟨0, 0⟩).map Token.kind := by
        rw [List.map_take, heq]
        rfl
      obtain ⟨place, hplace⟩ := eq_tokens hfront
      exact ⟨place, all.drop 8, by rw [← hplace, List.take_append_drop]⟩
    · cases h
  · rintro ⟨place, rest, rfl⟩
    rfl

/-- The request that is found stands before all others. -/
theorem find?_eq_some (h : find? (all.map Token.kind) = some request) :
    ∃ place front rest, all = front ++ (request.tokens place ++ rest) ∧
      ∀ (other : Request) (place : Nat → Position) (before after : List Token),
        all = before ++ (other.tokens place ++ after) → front.length ≤ before.length := by
  induction all with
  | nil => cases h
  | cons token all ih =>
    rw [List.map_cons, find?, ← List.map_cons] at h
    cases hfirst : first? ((token :: all).map Token.kind) with
    | some found =>
      rw [hfirst] at h
      cases h
      obtain ⟨place, rest, hall⟩ := first?_eq_some_iff.1 hfirst
      exact ⟨place, [], rest, hall, fun _ _ before _ _ => Nat.zero_le before.length⟩
    | none =>
      rw [hfirst] at h
      obtain ⟨place, front, rest, hall, hleast⟩ := ih h
      refine ⟨place, token :: front, rest, by rw [hall]; rfl, ?_⟩
      intro other otherPlace before after hother
      cases before with
      | nil =>
        -- a call at the very front would have been found first
        rw [first?_eq_some_iff.2 ⟨otherPlace, after, hother⟩] at hfirst
        cases hfirst
      | cons _ before =>
        exact Nat.succ_le_succ (hleast other otherPlace before after (List.cons.inj hother).2)

/-- Whatever stands in front of a request, the search finds one. -/
theorem find?_isSome (request : Request) (place : Nat → Position) (front rest : List Token) :
    (find? ((front ++ (request.tokens place ++ rest)).map Token.kind)).isSome := by
  induction front with
  | nil => rfl
  | cons token front ih =>
    rw [List.cons_append, List.map_cons, find?, Option.orElse_eq_orElse, Option.orElse_eq_or,
      Option.isSome_or, ih, Bool.or_true]

/-- Nothing is found exactly if there are no tokens of a request. -/
theorem find?_eq_none_iff : find? (all.map Token.kind) = none ↔
    ∀ (request : Request) (place : Nat → Position) (front rest : List Token),
      all ≠ front ++ (request.tokens place ++ rest) := by
  constructor
  · rintro h request place front rest rfl
    exact absurd (find?_isSome request place front rest) (by rw [h]; decide)
  · intro h
    refine Option.eq_none_iff_forall_ne_some.2 fun request hfound => ?_
    obtain ⟨place, front, rest, hall, -⟩ := find?_eq_some hfound
    exact h request place front rest hall

/-- In a source that can be read, the scan sees the tokens that the grammar reads. -/
theorem scan?_eq {source : String} (h : tokenize source = .ok all) :
    scan? source = find? ((withoutLineEnds all).map Token.kind) := by
  rw [scan?, Lexer.readableLines_eq h, withoutLineEnds, List.filter_map]
  rfl

end Pagination.Request

namespace Piece

variable {pieces : List Piece} {roots : List Node} {call : Node} {request : Pagination.Request}

/-- The tokens of a request are those of a call. -/
theorem call_of_tokens {place : Nat → Position} {front rest : List Token}
    (h : pieces.flatMap tokens = front ++ (request.tokens place ++ rest)) :
    HaveCall pieces (request.call place) := by
  -- a call begins with these tokens; no other call does
  obtain ⟨found, hfound, others, hothers⟩ := call_of_name h rfl rfl
  have hyield : (request.call place).yield ++ rest = found.yield ++ others := by
    rw [Pagination.Request.call_yield]
    exact hothers
  rwa [Derivation.call_unique hyield]

/-- The calls in the tree of a piece are made of the calls in its derivation. -/
theorem Makes.within_iff {piece : Piece} {root : Node} (h : piece.Makes root)
    (hcall : call.kind = .funcCall) :
    call.Within root ↔ ∃ part, HaveCall [piece] part ∧ call.MadeBy part := by
  cases piece with
  | text content pos =>
    have hroot : root = .leaf (.text content) pos := h
    have hnot : ¬ call.Within (.leaf (.text content) pos) :=
      Node.not_within_leaf hcall (by simp) pos
    rw [hroot, iff_false_intro hnot, false_iff]
    rintro ⟨part, ⟨tree, hmem, -⟩, -⟩
    cases List.mem_singleton.1 hmem
  | unit tree =>
    have hentry : tree.entry ⟨0, 0⟩ = .ok (.node root) := h ⟨0, 0⟩
    have hholds := tree.holds_iff hcall hentry
    simp only [Entry.Holds, Entry.nodes, List.mem_singleton, exists_eq_left] at hholds
    rw [hholds]
    simp [HaveCall]

/-- The calls in the trees are those in the units. -/
theorem within_iff (hmakes : List.Forall₂ Makes pieces roots) (hcall : call.kind = .funcCall) :
    (∃ root ∈ roots, call.Within root) ↔ ∃ part, HaveCall pieces part ∧ call.MadeBy part := by
  induction hmakes with
  | nil => simp [HaveCall]
  | @cons piece root pieces roots hroot _ ih =>
    have hcons (part : Derivation (.phrase .funcCall)) :
        HaveCall (piece :: pieces) part ↔ HaveCall [piece] part ∨ HaveCall pieces part := by
      simp only [HaveCall, List.mem_cons, List.not_mem_nil, or_false, or_and_right, exists_or]
    rw [List.exists_mem_cons_iff, ih, hroot.within_iff hcall]
    simp only [hcons, or_and_right, exists_or]

end Piece

def NodeView.literal? : NodeView → Option TokenKind
  | .string characters => some (.string characters)
  | .number value => some (.number value)
  | .bool value => some (.bool value)
  | _ => none

/-- Literals and calls are seen where they are. -/
theorem Node.kind_of_view {node : Node} {view : NodeView} (h : node.view? = some view) :
    node.kind.literal? = view.literal? ∧
      ∀ name args, view = .call name args → node.kind = .funcCall := by
  unfold view? at h
  split at h
  -- Some views depend on a word or an operator among the children.
  all_goals
    first
    | obtain ⟨_, _, rfl⟩ := Option.map_eq_some_iff.1 h
    | cases h
  all_goals exact ⟨rfl, by simp⟩

theorem Node.view_of_call {call list : Node} {callee : String} {pos : Position}
    (hkind : call.kind = .funcCall)
    (hchildren : call.children = [.leaf (.identifier callee) pos, list]) :
    call.view? = some (.call callee list.children) := by
  obtain ⟨kind, children, pos⟩ := call
  subst hkind hchildren
  rfl

/-- The literals that a request is made of. -/
theorem Node.literals_of_views {args : List Node} {request : Pagination.Request}
    (h : args.map view? = [some (.string request.contentPath), some (.string request.templateKey),
      some (.number request.perPage)]) :
    args.map (fun arg => arg.kind.literal?) = [TokenKind.string request.contentPath,
      .string request.templateKey, .number request.perPage].map some := by
  simp only [List.map_eq_cons_iff, List.map_eq_nil_iff] at h
  obtain ⟨content, _, rfl, hcontent, template, _, rfl, htemplate, perPage, _, rfl, hperPage, rfl⟩ :=
    h
  simp [(kind_of_view hcontent).1, (kind_of_view htemplate).1, (kind_of_view hperPage).1,
    NodeView.literal?]

/-- A call that asks for pages, with no argument in parentheses, has the tokens of a request. -/
theorem Derivation.eq_call {part : Derivation (.phrase .funcCall)} {call : Node}
    {request : Pagination.Request} (hmade : call.MadeBy part) (hasks : call.Asks request)
    (hwraps : part.wrapsArgument = false) : ∃ place, part = request.call place := by
  obtain ⟨name, hname, opening, hopening, args, closing, hclosing, rfl⟩ := part.eq_ofCall
  obtain ⟨callee, list, hcallee, hentry, hkind, hchildren⟩ := children_of_call hmade
  obtain ⟨given, hview, hgiven⟩ := hasks
  rw [Node.view_of_call hkind hchildren] at hview
  cases hview
  have hargs : args.wrapsArgument = false := by
    simp only [ofCall, wrapsArgument, Derivations.wrapArgument, Bool.or_eq_false_iff] at hwraps
    exact hwraps.2.2.2.1
  have hkinds := args.yield_of_literal_args hargs hentry (Node.literals_of_views hgiven)
  have hyield : (ofCall name hname opening hopening args closing hclosing).yield =
      name :: opening :: (args.yield ++ [closing]) := by
    simp [ofCall, yield, Derivations.yield]
  have htokens : (name :: opening :: (args.yield ++ [closing])).map Token.kind =
      (request.tokens fun _ => ⟨0, 0⟩).map Token.kind := by
    simp [hkinds, hcallee, opening.kind_of_symbol hopening rfl,
      closing.kind_of_symbol hclosing rfl, Pagination.Request.tokens]
  obtain ⟨place, hplace⟩ := Pagination.Request.eq_tokens htokens
  have hsame : (ofCall name hname opening hopening args closing hclosing).yield ++ [] =
      (request.call place).yield ++ [] := by
    rw [hyield, hplace, Pagination.Request.call_yield]
  exact ⟨place, call_unique hsame⟩

/-- No argument of a call stands in parentheses. -/
def Template.Unwrapped (source : String) : Prop :=
  ∀ tokens, tokenize source = .ok tokens →
    ∀ pieces : List Piece, withoutLineEnds tokens = pieces.flatMap Piece.tokens →
      ∀ tree, Piece.unit tree ∈ pieces → tree.wrapsArgument = false

section Requests

variable {all : List Token} {pieces : List Piece} {roots : List Node} {call : Node}
  {request other : Pagination.Request} {place otherPlace : Nat → Position}
  {front before rest after : List Token}

theorem Node.Asks.kind_eq (h : call.Asks request) : call.kind = .funcCall := by
  obtain ⟨args, hview, -⟩ := h
  exact (kind_of_view hview).2 _ args rfl

/-- The tokens of a request are a call in the trees. -/
theorem Pagination.Request.node_within (hpieces : all = pieces.flatMap Piece.tokens)
    (hmakes : List.Forall₂ Piece.Makes pieces roots)
    (h : all = front ++ (request.tokens place ++ rest)) :
    ∃ root ∈ roots, (request.node place).Within root :=
  (Piece.within_iff hmakes rfl).2
    ⟨request.call place, Piece.call_of_tokens (hpieces ▸ h), request.node_madeBy_call place⟩

/-- A derivation makes one node. -/
theorem Node.MadeBy.unique {first second : Node} {part : Derivation (.phrase .funcCall)}
    (hfirst : first.MadeBy part) (hsecond : second.MadeBy part) : first = second := by
  have heq := (hfirst ⟨0, 0⟩).symm.trans (hsecond ⟨0, 0⟩)
  cases heq
  rfl

/-- A call in the trees that asks for pages has the tokens of a request. -/
theorem Node.Asks.tokens (hpieces : all = pieces.flatMap Piece.tokens)
    (hmakes : List.Forall₂ Piece.Makes pieces roots)
    (hwraps : ∀ tree, Piece.unit tree ∈ pieces → tree.wrapsArgument = false) {root : Node}
    (hroot : root ∈ roots) (hcall : call.Within root) (hasks : call.Asks request) :
    ∃ place front rest, call = request.node place ∧
      all = front ++ (request.tokens place ++ rest) := by
  obtain ⟨part, ⟨tree, hmem, hpart⟩, hmade⟩ :=
    (Piece.within_iff hmakes hasks.kind_eq).1 ⟨root, hroot, hcall⟩
  obtain ⟨place, rfl⟩ := part.eq_call hmade hasks (hpart.wrapsArgument (hwraps tree hmem))
  obtain ⟨left, right, hyield⟩ := hpart.yield_isInfix
  obtain ⟨earlier, later, rfl⟩ := List.mem_iff_append.1 hmem
  refine ⟨place, earlier.flatMap Piece.tokens ++ left, right ++ later.flatMap Piece.tokens,
    hmade.unique (request.node_madeBy_call place), ?_⟩
  rw [hpieces, List.flatMap_append, List.flatMap_cons, Piece.tokens, ← hyield,
    Pagination.Request.call_yield]
  simp only [List.append_assoc]

/-- Of two requests the one that begins first stands in front, if they are not the same. -/
theorem Pagination.Request.node_before (hordered : all.Pairwise fun a b => a.pos.Before b.pos)
    (hfirst : all = front ++ (request.tokens place ++ rest))
    (hsecond : all = before ++ (other.tokens otherPlace ++ after))
    (hlength : front.length ≤ before.length) :
    other.node otherPlace = request.node place ∨ (place 0).Before (otherPlace 0) := by
  have hboth : before ++ (other.tokens otherPlace ++ after) =
      front ++ (request.tokens place ++ rest) := hsecond.symm.trans hfirst
  rcases cut_append hboth with ⟨middle, rfl, -⟩ | ⟨middle, rfl, htokens⟩
  -- the other one begins behind the first token of this one, or with it
  · right
    rw [hsecond] at hordered
    have hapart := (List.pairwise_append.1 hordered).2.2
    exact hapart _ (List.mem_append_right _ List.mem_cons_self) _ List.mem_cons_self
  · left
    have hnil : middle = [] := by
      rw [List.length_append] at hlength
      exact List.length_eq_zero_iff.1 (by omega)
    subst hnil
    have hyield : (other.call otherPlace).yield ++ after =
        (request.call place).yield ++ rest := by
      rw [call_yield, call_yield]
      exact htokens
    have hcalls : other.call otherPlace = request.call place := Derivation.call_unique hyield
    exact (hcalls ▸ other.node_madeBy_call otherPlace).unique (request.node_madeBy_call place)

end Requests

theorem Template.tokens_of_read {source : String} {roots : List Node}
    (h : Template.read source = .ok roots) :
    ∃ tokens, tokenize source = .ok tokens ∧ parse tokens = .ok roots := by
  unfold Template.read at h
  split at h
  · cases h
  · next tokens hlex =>
    split at h <;> cases h
    next hparse => exact ⟨tokens, hlex, hparse⟩

/-- Where a source can be read, a request that is found by scanning it is a call in its trees.
Parentheses around an argument leave no trace in a tree but keep the scan from seeing the request;
where there are none, the scan finds the first of the calls that ask for pages, at whatever depth,
and it finds nothing only if there is no such call. -/
theorem scan_agrees_with_trees {source : String} {roots : List Node}
    (h : Template.read source = .ok roots) :
    (∀ request, Pagination.Request.scan? source = some request →
      ∃ root ∈ roots, ∃ call : Node, call.Within root ∧ call.Asks request) ∧
    (Template.Unwrapped source →
      (∀ request, Pagination.Request.scan? source = some request →
        ∃ root ∈ roots, ∃ call : Node, call.Within root ∧ call.Asks request ∧
          ∀ other ∈ roots, ∀ later : Node, later.Within other →
            (∃ request, later.Asks request) → later = call ∨ call.pos.Before later.pos) ∧
      (Pagination.Request.scan? source = none ↔
        ∀ root ∈ roots, ∀ call : Node, call.Within root → ∀ request, ¬ call.Asks request)) := by
  obtain ⟨tokens, hlex, hparse⟩ := Template.tokens_of_read h
  obtain ⟨pieces, hpieces, hmakes⟩ := Parser.idle_holds.pieces_of_readAll hparse
  have hordered : (withoutLineEnds tokens).Pairwise fun a b => a.pos.Before b.pos :=
    (Lexer.readLines_pairwise hlex).2.sublist List.filter_sublist
  rw [Pagination.Request.scan?_eq hlex]
  refine ⟨fun request hscan => ?_, fun hunwrapped => ⟨fun request hscan => ?_, ?_⟩⟩
  · obtain ⟨place, front, rest, htokens, -⟩ := Pagination.Request.find?_eq_some hscan
    obtain ⟨root, hroot, hcall⟩ := Pagination.Request.node_within hpieces hmakes htokens
    exact ⟨root, hroot, _, hcall, request.node_asks place⟩
  · obtain ⟨place, front, rest, htokens, hleast⟩ := Pagination.Request.find?_eq_some hscan
    obtain ⟨root, hroot, hcall⟩ := Pagination.Request.node_within hpieces hmakes htokens
    -- an earlier call in the trees would have earlier tokens, and the scan takes the first ones
    refine ⟨root, hroot, _, hcall, request.node_asks place, ?_⟩
    rintro other hother later hlater ⟨asked, hasks⟩
    obtain ⟨otherPlace, before, after, rfl, hotherTokens⟩ :=
      hasks.tokens hpieces hmakes (hunwrapped tokens hlex pieces hpieces) hother hlater
    exact Pagination.Request.node_before hordered htokens hotherTokens
      (hleast asked otherPlace before after hotherTokens)
  · rw [Pagination.Request.find?_eq_none_iff]
    constructor
    · intro hnone root hroot call hcall request hasks
      obtain ⟨place, front, rest, -, htokens⟩ :=
        hasks.tokens hpieces hmakes (hunwrapped tokens hlex pieces hpieces) hroot hcall
      exact hnone request place front rest htokens
    · intro hnone request place front rest htokens
      obtain ⟨root, hroot, hcall⟩ := Pagination.Request.node_within hpieces hmakes htokens
      exact hnone root hroot _ hcall request (request.node_asks place)

/-- Text and a request over two lines. -/
def spreadRequest : String := "all: \x7b\x7b: paginate(\"posts\",\n\"list\", 5) \x7d\x7d"

def spreadPlace (i : Nat) : Position :=
  [⟨1, 10⟩, ⟨1, 18⟩, ⟨1, 19⟩, ⟨1, 26⟩, ⟨2, 1⟩, ⟨2, 7⟩, ⟨2, 9⟩, ⟨2, 10⟩].getD i ⟨0, 0⟩

def spreadPieces : List Piece :=
  [.text "all: " ⟨1, 1⟩, .unit (.printed ⟨1, 6⟩ ⟨2, 12⟩
    (Pagination.Request.call ⟨"posts", "list", 5⟩ spreadPlace))]

theorem first_call_of_spreadRequest :
    ∃ roots, Template.read spreadRequest = .ok roots ∧ Template.Unwrapped spreadRequest ∧
      Pagination.Request.scan? spreadRequest = some ⟨"posts", "list", 5⟩ ∧
      ∃ root ∈ roots, ∃ call : Node, call.Within root ∧ call.Asks ⟨"posts", "list", 5⟩ ∧
        ∀ other ∈ roots, ∀ later : Node, later.Within other →
          (∃ request, later.Asks request) → later = call ∨ call.pos.Before later.pos := by
  have hlex : tokenize spreadRequest = .ok [⟨.text "all: ", ⟨1, 1⟩⟩,
      ⟨.delimiter .printOpen, ⟨1, 6⟩⟩, ⟨.identifier "paginate", ⟨1, 10⟩⟩, ⟨.symbol '(', ⟨1, 18⟩⟩,
      ⟨.string "posts", ⟨1, 19⟩⟩, ⟨.symbol ',', ⟨1, 26⟩⟩, ⟨.endOfLine, ⟨1, 28⟩⟩,
      ⟨.string "list", ⟨2, 1⟩⟩, ⟨.symbol ',', ⟨2, 7⟩⟩, ⟨.number 5, ⟨2, 9⟩⟩,
      ⟨.symbol ')', ⟨2, 10⟩⟩, ⟨.delimiter .blockClose, ⟨2, 12⟩⟩, ⟨.endOfLine, ⟨2, 14⟩⟩] := by
    cbv
  have hpieces {tokens : List Token} (htokens : tokenize spreadRequest = .ok tokens) :
      withoutLineEnds tokens = spreadPieces.flatMap Piece.tokens := by
    rw [hlex] at htokens
    cases htokens
    rfl
  obtain ⟨roots, hparse, -⟩ := trees_of_pieces (hpieces hlex)
  have hread : Template.read spreadRequest = .ok roots := by
    rw [Template.read, hlex]
    simp only [hparse]
  have hunwrapped : Template.Unwrapped spreadRequest := by
    intro tokens htokens pieces hcut tree htree
    have hsame : pieces = spreadPieces :=
      Piece.flatMap_tokens_inj (hcut.symm.trans (hpieces htokens))
    rw [hsame, spreadPieces, List.mem_cons, List.mem_singleton] at htree
    rcases htree with htree | htree
    · cases htree
    · cases htree
      rfl
  have hscan : Pagination.Request.scan? spreadRequest = some ⟨"posts", "list", 5⟩ := by
    rw [Pagination.Request.scan?_eq hlex]
    rfl
  exact ⟨roots, hread, hunwrapped, hscan,
    ((scan_agrees_with_trees hread).2 hunwrapped).1 _ hscan⟩

end PageTemplate
