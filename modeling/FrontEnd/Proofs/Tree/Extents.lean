import FrontEnd.Proofs.Diagnostic.Spans
import Mathlib.Data.List.Forall2

/-!
# Which tokens a tree stands for

Each part of a program was read from some of its tokens, one behind the other: its *extent*. The
place of the part is the join of the places of the first and the last of these tokens, and the form
of the part tells which tokens they are (`Node.Delimited`). `Placed` says this of a part and of
everything in it. The extents of what is in it lie inside of its own, one behind the other, with one
exception: a declaration with a value is two statements, and both of them have the name that is
declared (`Overlap`).

A call is joined to its callee and not to the first token, and the callee may have lost its end if
it goes over several lines. This makes no difference, as the end of the callee does not matter to
the join (`Location.span_span`).
-/

namespace FrontEnd

open List

/-! ### Nodes and their extents -/

/-- A part of a program that has a place: a name at one of its uses, an expression or a
statement. -/
inductive Node where
  | name (name : Name)
  | expression (value : Expr)
  | statement (stmt : Stmt)

/-- The tokens that a part of a program was read from, by the numbers of the first and the last
one. -/
structure Extent where
  first : Nat
  last : Nat

namespace Node

/-- Where a node stands. -/
def location : Node → Location
  | .name used => used.location
  | .expression value => value.location
  | .statement stmt => stmt.location

/-- The nodes that a statement consists of, as they are written. -/
def ofParts : Stmt → List Node
  | .expression value _ => [.expression value]
  | .declaration type _ _ => [.name type]
  | .assignment target value _ => [.name target, .expression value]
  | .conditional condition body _ => .expression condition :: body.map .statement
  | .result value _ => [.expression value]
  | .function _ parameters returnType body _ =>
    parameters.flatMap (fun parameter => [.name parameter.type, .name parameter.name]) ++
      (returnType.toList.map .name ++ body.map .statement)
  | .retain .. | .release .. => []

/-- The nodes that a node consists of, as they are written. -/
def children : Node → List Node
  | .expression (.call function arguments _) => .expression function :: arguments.map .expression
  | .statement stmt => ofParts stmt
  | _ => []

open Grammar

/-- The tokens that a node is derived from. A declaration with a value has no tokens of its own but
the type and name, the rest is an assignment. -/
def Derived (part : List Token) : Node → Prop
  | .name used => ∃ token, part = [token] ∧ IsName token used
  | .expression value => Expression part value
  | .statement stmt => Statement part [stmt] ∨ ∃ type declared location first second,
      stmt = .declaration type declared location ∧ part = [first, second] ∧ IsName first type ∧
        IsName second ⟨declared, second.location⟩

/-- The first and the last token of a node, by its form. `children` are the extents of the nodes
that it consists of, and `extent` is its own one. -/
def Delimited (tokens : List Token) (extent : Extent) (children : List Extent)
    (first last : Token) : Node → Prop
  -- from the callee on
  | .expression (.call ..) =>
    (children.head?.map Extent.first) = some extent.first ∧ last.isOperator ")" = true
  | .name _ | .expression _ => extent.first = extent.last
  -- from the value, the target or the type on
  | .statement (.expression ..) | .statement (.assignment ..) =>
    (children.head?.map Extent.first) = some extent.first ∧ last.isOperator ";" = true
  | .statement (.declaration _ declared _) =>
    (children.head?.map Extent.first) = some extent.first ∧
      (last.isOperator ";" = true ∨ IsName last ⟨declared, last.location⟩ ∧
        ∃ equals, tokens[extent.last + 1]? = some equals ∧ equals.isOperator "=" = true)
  | .statement (.result ..) => first.is .name "return" = true ∧ last.isOperator ";" = true
  | .statement (.conditional ..) => first.is .name "if" = true ∧ last.isOperator "\x7d" = true
  | .statement (.function ..) => first.is .name "function" = true ∧ last.isOperator "\x7d" = true
  | .statement _ => False

end Node

/-- Tokens that stand one behind the other among others, from a number on. -/
def At (tokens : List Token) (offset : Nat) (part : List Token) : Prop :=
  ∃ front back, tokens = front ++ (part ++ back) ∧ front.length = offset

/-- The tokens of an extent. -/
def Extent.Holds (extent : Extent) (tokens part : List Token) : Prop :=
  At tokens extent.first part ∧ extent.first + part.length = extent.last + 1

/-- A declaration with a value, of which both statements have the name that is declared. -/
def Overlap (tokens : List Token) (declared assigned : Node × Extent) : Prop :=
  declared.2.last = assigned.2.first ∧ ∃ part type name value location location',
    declared.1 = .statement (.declaration type name.text location) ∧
    assigned.1 = .statement (.assignment name value location') ∧
    Extent.Holds ⟨declared.2.first, assigned.2.last⟩ tokens part ∧
    Grammar.Statement part [.declaration type name.text location, .assignment name value location']

/-- Nodes one behind the other. -/
def InOrder (tokens : List Token) (first second : Node × Extent) : Prop :=
  first.2.last < second.2.first ∨ Overlap tokens first second

/-- **A node at its place.** It is derived from the tokens of its extent, its place is the join of
the first and the last of them, and so it is with the nodes that it consists of, which are one
behind the other inside of it. -/
inductive Placed (tokens : List Token) : Node → Extent → Prop
  | mk {node : Node} {extent : Extent} {children : List Extent} {part : List Token}
      {first last : Token} (holds : extent.Holds tokens part) (derived : node.Derived part)
      (isFirst : tokens[extent.first]? = some first) (isLast : tokens[extent.last]? = some last)
      (joined : first.location.between? last.location = some node.location)
      (located : node.location = ⟨first.location.line, first.location.start,
        if first.location.line = last.location.line then last.location.stop else none⟩)
      (delimited : node.Delimited tokens extent children first last)
      (parts : Forall₂ (Placed tokens) node.children children)
      (inside : ∀ child ∈ children, extent.first ≤ child.first ∧ child.last ≤ extent.last)
      (ordered : (node.children.zip children).Pairwise (InOrder tokens)) : Placed tokens node extent

/-! ### Tokens among others -/

/-- No token stands on a line above that of an earlier one. -/
def LineByLine (tokens : List Token) : Prop :=
  tokens.Pairwise fun first second => first.location.line ≤ second.location.line

/-- The join of two places, of which the second is not above the first. -/
theorem Location.span_eq {first last : Location} (h : first.line ≤ last.line) :
    first.span last =
      ⟨first.line, first.start, if first.line = last.line then last.stop else none⟩ := by
  unfold span
  split
  · next hlt => rw [if_neg (Nat.ne_of_lt hlt)]; rfl
  · next hge => rw [if_pos (by omega)]

namespace At

variable {tokens part other : List Token} {offset : Nat} {token : Token}

theorem left (h : At tokens offset (part ++ other)) : At tokens offset part := by
  obtain ⟨front, back, rfl, rfl⟩ := h
  exact ⟨front, other ++ back, by simp, rfl⟩

theorem right (h : At tokens offset (part ++ other)) : At tokens (offset + part.length) other := by
  obtain ⟨front, back, rfl, rfl⟩ := h
  exact ⟨front ++ part, back, by simp, by simp⟩

theorem tail (h : At tokens offset (token :: part)) : At tokens (offset + 1) part := by
  rw [← singleton_append] at h
  exact h.right

theorem head (h : At tokens offset (token :: part)) : At tokens offset [token] := by
  rw [← singleton_append] at h
  exact h.left

theorem getElem? (h : At tokens offset (token :: part)) : tokens[offset]? = some token := by
  obtain ⟨front, back, rfl, rfl⟩ := h
  simp

theorem getElem?_last (h : At tokens offset part) (hlast : part = other ++ [token]) :
    tokens[offset + part.length - 1]? = some token := by
  subst hlast
  simpa [Nat.add_sub_assoc] using h.right.getElem?

/-- Tokens among others that stand line by line do so too. -/
theorem lines (h : At tokens offset part) (hlines : LineByLine tokens) : LineByLine part := by
  obtain ⟨front, back, rfl, -⟩ := h
  exact Pairwise.sublist ((sublist_append_left part back).trans
    (sublist_append_right front _)) hlines

end At

/-- The extent of some tokens from a number on. -/
def Extent.of (offset : Nat) (part : List Token) : Extent :=
  ⟨offset, offset + part.length - 1⟩

/-- Nodes one behind the other, at their places, in front of the token number `high` and not in
front of `low`. -/
structure Row (tokens : List Token) (low high : Nat) (nodes : List Node)
    (extents : List Extent) : Prop where
  placed : Forall₂ (Placed tokens) nodes extents
  inside : ∀ extent ∈ extents, low ≤ extent.first ∧ extent.last < high
  ordered : (nodes.zip extents).Pairwise (InOrder tokens)

namespace Row

variable {tokens : List Token} {low middle high low' high' : Nat} {nodes nodes' : List Node}
  {extents extents' : List Extent}

theorem nil : Row tokens low high [] [] :=
  ⟨.nil, by simp, .nil⟩

theorem singleton {node : Node} {offset : Nat} {part : List Token} (hne : part ≠ [])
    (h : Placed tokens node (.of offset part)) :
    Row tokens offset (offset + part.length) [node] [.of offset part] := by
  refine ⟨.cons h .nil, ?_, pairwise_singleton _ _⟩
  have hpos := length_pos_iff.mpr hne
  refine forall_mem_singleton.mpr ⟨Nat.le_refl _, ?_⟩
  change offset + part.length - 1 < offset + part.length
  omega

theorem mono (h : Row tokens low high nodes extents) (hlow : low' ≤ low) (hhigh : high ≤ high') :
    Row tokens low' high' nodes extents where
  placed := h.placed
  inside extent hextent := by
    have := h.inside extent hextent
    omega
  ordered := h.ordered

theorem append (h : Row tokens low middle nodes extents)
    (h' : Row tokens middle high nodes' extents') (hlow : low ≤ middle) (hhigh : middle ≤ high) :
    Row tokens low high (nodes ++ nodes') (extents ++ extents') where
  placed := rel_append h.placed h'.placed
  inside extent hextent := by
    rcases mem_append.mp hextent with hextent | hextent
    · have := h.inside extent hextent
      omega
    · have := h'.inside extent hextent
      omega
  ordered := by
    rw [zip_append h.placed.length_eq, pairwise_append]
    refine ⟨h.ordered, h'.ordered, fun first hfirst second hsecond => .inl ?_⟩
    have hbefore := h.inside first.2 (of_mem_zip hfirst).2
    have hbehind := h'.inside second.2 (of_mem_zip hsecond).2
    omega

end Row

namespace Grammar

section Extents

variable {tokens : List Token} {offset : Nat} {part rest more front : List Token}
  {first token close equals semicolon : Token} {name : Name} {callee value : Expr}
  {arguments : List Expr}

/-- A node with what it consists of is at its place, if it has the place that its tokens give it. -/
theorem placed_of_row (hlines : LineByLine tokens) {node : Node} {init : List Token}
    {children : List Extent} {last : Token} (hat : At tokens offset part)
    (hfirst : part = first :: rest) (hlast : part = init ++ [last]) (hderived : node.Derived part)
    (hlocation : node.location = first.location.span last.location)
    (hdelimited : node.Delimited tokens (.of offset part) children first last)
    (hrow : Row tokens offset (offset + part.length) node.children children) :
    Placed tokens node (.of offset part) := by
  have hpos : 0 < part.length := by simp [hfirst]
  have hline : first.location.line ≤ last.location.line := by
    have hmem : last ∈ first :: rest := by rw [← hfirst, hlast]; simp
    rcases mem_cons.mp hmem with rfl | hmem
    · exact Nat.le_refl _
    · exact (pairwise_cons.mp (At.lines (hfirst ▸ hat) hlines)).1 last hmem
  have hsize : offset + part.length = offset + part.length - 1 + 1 := by omega
  have hisFirst : tokens[offset]? = some first := At.getElem? (hfirst ▸ hat)
  refine .mk ⟨hat, hsize⟩ hderived hisFirst (At.getElem?_last hat hlast) ?_ ?_ hdelimited
    hrow.placed ?_ hrow.ordered
  · exact Location.between?_eq_some_iff.mpr ⟨hline, hlocation.symm⟩
  · rw [hlocation, Location.span_eq hline]
  · intro child hchild
    have := hrow.inside child hchild
    exact ⟨this.1, Nat.le_sub_one_of_lt this.2⟩

theorem placed_name (hlines : LineByLine tokens) (hat : At tokens offset [token])
    (hname : IsName token name) :
    Placed tokens (.name name) (.of offset [token]) := by
  have hlast : [token] = [] ++ [token] := rfl
  refine placed_of_row hlines hat rfl hlast ⟨token, rfl, hname⟩ ?_ rfl .nil
  rw [Location.span_self]
  exact congrArg Name.location hname.2.2

/-! ### Lists -/

section Lists

variable {α : Type} {Element : List Token → α → Prop} {part : List Token} {found : List α}
  {close : Token} {nodes : α → List Node}

theorem Elements.ends (h : Elements Element part found close) :
    (∃ init, part = init ++ [close]) ∧ close.isOperator ")" = true := by
  induction h with
  | last element isClose => exact ⟨⟨_, rfl⟩, isClose⟩
  | @lastComma part _ comma close element isComma isClose =>
    exact ⟨⟨part ++ [comma], by simp⟩, isClose⟩
  | @more part rest _ others comma close element isComma elements ih =>
    obtain ⟨⟨init, rfl⟩, hclose⟩ := ih
    exact ⟨⟨part ++ comma :: init, by simp⟩, hclose⟩

theorem Listed.ends (h : Listed Element part found close) :
    (∃ init, part = init ++ [close]) ∧ close.isOperator ")" = true := by
  cases h with
  | @empty opening _ isOpen isClose => exact ⟨⟨[opening], rfl⟩, isClose⟩
  | @elements opening _ part _ isOpen elements =>
    obtain ⟨⟨init, rfl⟩, hclose⟩ := elements.ends
    exact ⟨⟨opening :: init, rfl⟩, hclose⟩

/-- The nodes of the elements of a list are one behind the other, if those of each element are. -/
theorem Elements.row (h : Elements Element part found close) (hat : At tokens offset part)
    (helement : ∀ {piece a start}, Element piece a → At tokens start piece →
      ∃ extents, Row tokens start (start + piece.length) (nodes a) extents) :
    ∃ extents, Row tokens offset (offset + part.length) (found.flatMap nodes) extents := by
  induction h generalizing offset with
  | last element | lastComma element =>
    obtain ⟨extents, hrow⟩ := helement element hat.left
    refine ⟨extents, ?_⟩
    rw [flatMap_singleton]
    exact hrow.mono (Nat.le_refl _) (by simp)
  | more element _ _ ih =>
    obtain ⟨extents, hrow⟩ := helement element hat.left
    obtain ⟨more, hmore⟩ := ih hat.right.tail
    refine ⟨extents ++ more, ?_⟩
    rw [flatMap_cons, length_append, length_cons]
    exact hrow.append (hmore.mono (by omega) (by omega)) (by omega) (by omega)

theorem Listed.row (h : Listed Element part found close) (hat : At tokens offset part)
    (helement : ∀ {piece a start}, Element piece a → At tokens start piece →
      ∃ extents, Row tokens start (start + piece.length) (nodes a) extents) :
    ∃ extents, Row tokens offset (offset + part.length) (found.flatMap nodes) extents := by
  cases h with
  | empty => exact ⟨[], .nil⟩
  | elements isOpen elements =>
    obtain ⟨extents, hrow⟩ := elements.row hat.tail helement
    refine ⟨extents, hrow.mono (Nat.le_succ _) ?_⟩
    rw [length_cons]
    omega

end Lists

/-! ### Expressions -/

/-- A call is behind those in front of it. -/
theorem Calls.snoc {Argument : List Token → Expr → Prop} (h : Calls Argument callee part value)
    (hlisted : Listed Argument more arguments close) :
    Calls Argument callee (part ++ more)
      (.call value arguments (value.location.span close.location)) := by
  induction h with
  | nil => simpa using Calls.cons hlisted .nil
  | cons listed calls ih =>
    rw [append_assoc]
    exact .cons listed ih

theorem Expression.call (h : Expression part callee)
    (hlisted : Listed Expression more arguments close) :
    Expression (part ++ more) (.call callee arguments (callee.location.span close.location)) := by
  cases h with
  | mk primary calls => exact .mk primary (calls.snoc hlisted)

theorem Expression.ne_nil (h : Expression part value) : part ≠ [] := by
  cases h
  simp

/-- An expression that is at its place wherever it stands. -/
abbrev Settles (tokens part : List Token) (value : Expr) : Prop :=
  ∃ _ : Expression part value, ∀ {start}, At tokens start part →
    Placed tokens (.expression value) (.of start part)

/-- One more call behind an expression that is at its place. -/
theorem placed_call (hlines : LineByLine tokens) (hfront : Expression front callee)
    (harguments : Listed (Settles tokens) more arguments close)
    (hat : At tokens offset (front ++ more))
    (hcallee : Placed tokens (.expression callee) (.of offset front)) :
    Placed tokens (.expression (.call callee arguments (callee.location.span close.location)))
      (.of offset (front ++ more)) := by
  obtain ⟨-, first, rest, last, hfirst, -, hlocation⟩ := hfront.everywhere
  have hlisted := harguments.mono fun {tokens a} (h : Settles _ tokens a) =>
    h.elim fun hargument _ => hargument
  obtain ⟨⟨init, rfl⟩, hclose⟩ := hlisted.ends
  have hhead : front ++ (init ++ [close]) = first :: (rest ++ (init ++ [close])) := by
    rw [hfirst]; rfl
  obtain ⟨extents, hrow⟩ : ∃ extents, Row tokens (offset + front.length)
      (offset + front.length + (init ++ [close]).length) (arguments.flatMap fun argument =>
        [.expression argument])
      extents :=
    harguments.row hat.right fun hargument hat => hargument.elim fun h hplaced =>
      ⟨_, .singleton h.ne_nil (hplaced hat)⟩
  rw [← map_eq_flatMap] at hrow
  have hchildren :=
    (Row.singleton hfront.ne_nil hcallee).append hrow (Nat.le_add_right _ _) (Nat.le_add_right _ _)
  rw [Nat.add_assoc, ← length_append] at hchildren
  have hend : front ++ (init ++ [close]) = front ++ init ++ [close] := (append_assoc _ _ _).symm
  refine placed_of_row hlines hat hhead hend (hfront.call hlisted) ?_ ⟨rfl, hclose⟩ hchildren
  change callee.location.span close.location = _
  rw [hlocation, Location.span_span]

theorem Calls.placed (hlines : LineByLine tokens) (h : Calls (Settles tokens) callee rest value)
    (hfront : Expression front callee) (hat : At tokens offset (front ++ rest))
    (hcallee : Placed tokens (.expression callee) (.of offset front)) :
    Placed tokens (.expression value) (.of offset (front ++ rest)) := by
  induction h generalizing front with
  | nil =>
    rw [append_nil]
    exact hcallee
  | @cons callee value more rest arguments close listed calls ih =>
    rw [← append_assoc] at hat ⊢
    refine ih (hfront.call (listed.mono (·.elim fun hargument _ => hargument))) hat ?_
    exact placed_call hlines hfront listed hat.left hcallee

/-- **Expressions are at their places.** -/
theorem Expression.placed (hlines : LineByLine tokens) (h : Expression part value)
    (hat : At tokens offset part) :
    Placed tokens (.expression value) (.of offset part) := by
  induction h using Expression.induct generalizing offset with
  | @mk token rest first value _ primary calls =>
    rw [← singleton_append] at hat ⊢
    refine calls.placed hlines (.mk primary .nil) hat ?_
    have hlocation : first.location = token.location.span token.location := by
      rw [Location.span_self, primary.location_eq]
    have hlast : [token] = [] ++ [token] := rfl
    cases primary with
    | name isName =>
      exact placed_of_row hlines hat.left rfl hlast (.mk (.name isName) .nil) hlocation rfl .nil
    | integer kind =>
      exact placed_of_row hlines hat.left rfl hlast (.mk (.integer kind) .nil) hlocation rfl .nil
    | string kind quoted =>
      exact placed_of_row hlines hat.left rfl hlast (.mk (.string kind quoted) .nil)
        hlocation rfl .nil

/-- An expression behind some tokens and in front of others. -/
theorem Expression.row (hlines : LineByLine tokens) (h : Expression part value)
    (hat : At tokens offset part) :
    Row tokens offset (offset + part.length) [.expression value] [.of offset part] :=
  .singleton h.ne_nil (h.placed hlines hat)

/-! ### Statements -/

theorem IsParameter.row (hlines : LineByLine tokens) {parameter : Parameter}
    (h : IsParameter part parameter) (hat : At tokens offset part) :
    ∃ extents, Row tokens offset (offset + part.length)
      [.name parameter.type, .name parameter.name] extents := by
  cases h with
  | @mk first second type name isType isName =>
    have hsecond : At tokens (offset + 1) [second] := hat.tail
    have htype := Row.singleton (cons_ne_nil _ _) (placed_name hlines hat.head isType)
    have hname := Row.singleton (cons_ne_nil _ _) (placed_name hlines hsecond isName)
    exact ⟨_, htype.append hname (Nat.le_succ _) (Nat.le_succ _)⟩

theorem ReturnType.row (hlines : LineByLine tokens) {returnType : Option Name}
    (h : ReturnType part returnType) (hat : At tokens offset part) :
    ∃ extents, Row tokens offset (offset + part.length) (returnType.toList.map .name) extents := by
  cases h with
  | nothing => exact ⟨[], .nil⟩
  | @type word token name isWord isName =>
    have htoken : At tokens (offset + 1) [token] := hat.tail
    have hname := Row.singleton (cons_ne_nil _ _) (placed_name hlines htoken isName)
    exact ⟨_, hname.mono (Nat.le_succ _) (Nat.le_refl _)⟩

section Bodies

variable {Inner : List Token → List Stmt → Prop} {part : List Token} {stmts : List Stmt}
  {close : Token}

theorem Sequence.row (h : Sequence Inner part stmts) (hat : At tokens offset part)
    (hinner : ∀ {piece group start}, Inner piece group → At tokens start piece →
      ∃ extents, Row tokens start (start + piece.length) (group.map .statement) extents) :
    ∃ extents, Row tokens offset (offset + part.length) (stmts.map .statement) extents := by
  induction h generalizing offset with
  | nil => exact ⟨[], .nil⟩
  | cons statement sequence ih =>
    obtain ⟨extents, hrow⟩ := hinner statement hat.left
    obtain ⟨more, hmore⟩ := ih hat.right
    refine ⟨extents ++ more, ?_⟩
    rw [map_append, length_append, ← Nat.add_assoc]
    exact hrow.append hmore (Nat.le_add_right _ _) (Nat.le_add_right _ _)

theorem Block.row (h : Block Inner part stmts close) (hat : At tokens offset part)
    (hinner : ∀ {piece group start}, Inner piece group → At tokens start piece →
      ∃ extents, Row tokens start (start + piece.length) (group.map .statement) extents) :
    ∃ extents, Row tokens offset (offset + part.length) (stmts.map .statement) extents := by
  cases h with
  | @mk opening _ part _ isOpen sequence isClose =>
    obtain ⟨extents, hrow⟩ := sequence.row hat.tail.left hinner
    refine ⟨extents, hrow.mono (Nat.le_succ _) ?_⟩
    simp only [length_cons, length_append]
    omega

theorem Block.ends (h : Block Statement part stmts close) :
    (∃ init, part = init ++ [close]) ∧ close.isOperator "\x7d" = true := by
  cases h with
  | @mk opening _ part _ isOpen sequence isClose => exact ⟨⟨opening :: part, rfl⟩, isClose⟩

end Bodies

/-- A group of one statement. -/
theorem row_of_placed {stmt : Stmt} (hne : part ≠ [])
    (h : Placed tokens (.statement stmt) (.of offset part)) :
    ∃ extents, Row tokens offset (offset + part.length) ([stmt].map .statement) extents :=
  ⟨_, .singleton hne h⟩

theorem placed_assignment (hlines : LineByLine tokens) (isName : IsName token name)
    (isEquals : equals.isOperator "=" = true) (expression : Expression more value)
    (isEnd : semicolon.isOperator ";" = true)
    (hat : At tokens offset (token :: equals :: (more ++ [semicolon]))) :
    Placed tokens (.statement (.assignment name value (token.location.span semicolon.location)))
      (.of offset (token :: equals :: (more ++ [semicolon]))) := by
  have htarget := Row.singleton (cons_ne_nil _ _) (placed_name hlines hat.head isName)
  have hvalue := expression.row hlines hat.tail.tail.left
  have hrow := htarget.append (hvalue.mono (Nat.le_succ _) (Nat.le_refl _)) (Nat.le_succ _)
    (show offset + 1 ≤ offset + 1 + 1 + more.length by omega)
  have hend : token :: equals :: (more ++ [semicolon]) = (token :: equals :: more) ++ [semicolon] :=
    rfl
  refine placed_of_row hlines hat rfl hend (.inl (.assignment isName isEquals expression isEnd))
    rfl ⟨rfl, isEnd⟩ (hrow.mono (Nat.le_refl _) ?_)
  simp only [length_cons, length_append]
  omega

/-- A declaration with a value is two statements, which have the name in common. -/
theorem row_initialised (hlines : LineByLine tokens) {second : Token} {type : Name}
    (isType : IsName first type) (isName : IsName second name)
    (isEquals : equals.isOperator "=" = true) (expression : Expression more value)
    (isEnd : semicolon.isOperator ";" = true)
    (hat : At tokens offset (first :: second :: equals :: (more ++ [semicolon]))) :
    ∃ extents, Row tokens offset
      (offset + (first :: second :: equals :: (more ++ [semicolon])).length)
      ([Stmt.declaration type name.text (first.location.span second.location),
        .assignment name value (second.location.span semicolon.location)].map
          .statement) extents := by
  have hboth : At tokens offset [first, second] :=
    At.left (show At tokens offset ([first, second] ++ equals :: (more ++ [semicolon])) from hat)
  have htype := Row.singleton (cons_ne_nil _ _) (placed_name hlines hat.head isType)
  have hvariable : IsName second ⟨name.text, second.location⟩ := by
    refine ⟨isName.1, isName.2.1, ?_⟩
    rw [isName.2.2]
  have hdeclared :
      Placed tokens (.statement (.declaration type name.text (first.location.span second.location)))
        (.of offset [first, second]) := by
    have hequals : tokens[offset + 1 + 1]? = some equals := hat.tail.tail.getElem?
    have hend : [first, second] = [first] ++ [second] := rfl
    exact placed_of_row hlines hboth rfl hend
      (.inr ⟨_, _, _, _, _, rfl, rfl, isType, hvariable⟩) rfl
      ⟨rfl, .inr ⟨hvariable, equals, hequals, isEquals⟩⟩ (htype.mono (Nat.le_refl _)
        (Nat.le_succ _))
  have hassigned := placed_assignment hlines isName isEquals expression isEnd hat.tail
  refine ⟨[.of offset [first, second],
    .of (offset + 1) (second :: equals :: (more ++ [semicolon]))],
    .cons hdeclared (.cons hassigned .nil), ?_, ?_⟩
  · simp only [forall_mem_cons, Extent.of, length_cons, length_append, length_nil]
    refine ⟨⟨?_, ?_⟩, ⟨?_, ?_⟩, forall_mem_nil _⟩
    all_goals omega
  · refine pairwise_pair.mpr (.inr ⟨rfl, _, _, _, _, _, _, rfl, rfl, ⟨hat, ?_⟩,
      .initialised isType isName isEquals expression isEnd⟩)
    simp only [Extent.of, length_cons, length_append, length_nil]
    omega

/-- **Statements are at their places.** -/
theorem Statement.row (hlines : LineByLine tokens) {group : List Stmt} (h : Statement part group)
    (hat : At tokens offset part) :
    ∃ extents, Row tokens offset (offset + part.length) (group.map .statement) extents := by
  induction h using Statement.induct generalizing offset with
  | step h hinner =>
    -- in each form, the row of the parts is inside of what its first and its last token enclose
    cases h with
    | @result word semicolon more value isWord expression isEnd =>
      have hvalue := expression.row hlines hat.tail.left
      have hend : word :: (more ++ [semicolon]) = (word :: more) ++ [semicolon] := rfl
      refine row_of_placed (cons_ne_nil _ _) (placed_of_row hlines hat rfl hend
        (.inl (.result isWord expression isEnd)) rfl ⟨isWord, isEnd⟩
        (hvalue.mono (Nat.le_succ _) ?_))
      simp only [length_cons, length_append]
      omega
    | @conditional word close more rest condition body isWord expression block =>
      have hcondition := expression.row hlines hat.tail.left
      obtain ⟨extents, hbody⟩ :=
        (hinner block (by grind)).row hat.tail.right (·.elim fun _ ih => ih)
      have hrow := hcondition.append hbody (Nat.le_add_right _ _) (Nat.le_add_right _ _)
      obtain ⟨⟨init, rfl⟩, hclose⟩ := block.ends
      have hend : word :: (more ++ (init ++ [close])) = word :: (more ++ init) ++ [close] := by simp
      refine row_of_placed (cons_ne_nil _ _) (placed_of_row hlines hat rfl hend
        (.inl (.conditional isWord expression block)) rfl ⟨isWord, hclose⟩
        (hrow.mono (Nat.le_succ _) ?_))
      simp only [length_cons, length_append]
      omega
    | @function word token close last name parameters returnType body listTokens typeTokens rest
        isWord isName listed type block =>
      have hlist := hat.tail.tail
      obtain ⟨first, hparameters⟩ :
          ∃ extents, Row tokens (offset + 1 + 1) (offset + 1 + 1 + listTokens.length)
            (parameters.flatMap fun parameter =>
              [.name parameter.type, .name parameter.name]) extents :=
        listed.row hlist.left fun element hat => element.row hlines hat
      obtain ⟨second, htype⟩ := type.row hlines hlist.right.left
      obtain ⟨third, hbody⟩ :=
        (hinner block (by grind)).row hlist.right.right (·.elim fun _ ih => ih)
      have hrow := hparameters.append (htype.append hbody (Nat.le_add_right _ _)
        (Nat.le_add_right _ _)) (Nat.le_add_right _ _) (by omega)
      obtain ⟨⟨init, rfl⟩, hclose⟩ := block.ends
      have hend : word :: token :: (listTokens ++ (typeTokens ++ (init ++ [close]))) =
          word :: token :: (listTokens ++ (typeTokens ++ init)) ++ [close] := by simp
      refine row_of_placed (cons_ne_nil _ _) (placed_of_row hlines hat rfl hend
        (.inl (.function isWord isName listed type block)) rfl ⟨isWord, hclose⟩
        (hrow.mono (by omega) ?_))
      simp only [length_cons, length_append]
      omega
    | assignment isName isEquals expression isEnd =>
      exact row_of_placed (cons_ne_nil _ _) (placed_assignment hlines isName isEquals
        expression isEnd hat)
    | @declaration first second semicolon type name isType isName isEnd =>
      have htype := Row.singleton (cons_ne_nil _ _) (placed_name hlines hat.head isType)
      have hend : [first, second, semicolon] = [first, second] ++ [semicolon] := rfl
      refine row_of_placed (cons_ne_nil _ _) (placed_of_row hlines hat rfl hend
        (.inl (.declaration isType isName isEnd)) rfl ⟨rfl, .inl isEnd⟩
        (htype.mono (Nat.le_refl _) ?_))
      simp
    | initialised isType isName isEquals expression isEnd =>
      exact row_initialised hlines isType isName isEquals expression isEnd hat
    | @expression semicolon more value expression isEnd =>
      have hvalue := expression.row hlines hat.left
      obtain ⟨-, first, rest, last, rfl, -, hlocation⟩ := expression.everywhere
      refine row_of_placed (by simp) (placed_of_row hlines hat rfl rfl
        (.inl (.expression expression isEnd)) ?_ ⟨rfl, isEnd⟩
        (hvalue.mono (Nat.le_refl _) (by simp)))
      change value.location.span semicolon.location = _
      rw [hlocation, Location.span_span]

end Extents

end Grammar

/-! ### Programs -/

/-- The tokens of a text stand line by line. -/
theorem lineByLine_tokenize {source : String} {tokens : List Token}
    (h : tokenize source = tokens.map .ok) :
    LineByLine tokens := by
  have hordered := (lexed_tokenize source).ordered
  rw [h, pairwise_map] at hordered
  exact hordered.imp fun hline => hline _ _ rfl rfl

open Grammar in
/-- **Everything that is read has the place that its tokens give it.** If a text is cut into tokens
and read without an error, each statement has an extent among the tokens, and so has each expression
and name in it: the place of each is the join of the first and the last token of its extent, what it
consists of has its extent inside, and neighbours have theirs one behind the other, but for the two
statements of a declaration with a value, which have one token in common. -/
theorem parse_extents {source : String} {tokens : List Token} {program : Program}
    (htokens : tokenize source = tokens.map .ok) (h : parse (tokenize source) = .ok program) :
    ∃ extents, List.Forall₂ (Placed tokens) (program.map .statement) extents ∧
      ((program.map .statement).zip extents).Pairwise (InOrder tokens) := by
  have hlexed := lexed_tokenize source
  rw [htokens] at h hlexed
  have hfile : Sequence Statement tokens program := (parse_eq_ok_iff hlexed program).mp h
  have hat : At tokens 0 tokens := ⟨[], [], by simp, rfl⟩
  obtain ⟨extents, hrow⟩ := hfile.row hat fun statement =>
    statement.row (lineByLine_tokenize htokens)
  exact ⟨extents, hrow.placed, hrow.ordered⟩

/-- A declaration with a value that goes over three lines: the call of the result of a call. -/
def brokenCall : String :=
  "Int x = f(1,
2)(y
);"

theorem parse_extents_brokenCall : ∃ tokens program extents, tokenize brokenCall = tokens.map .ok ∧
    parse (tokenize brokenCall) = .ok program ∧
    program.map Stmt.location = [⟨1, 0, some 5⟩, ⟨1, 4, none⟩] ∧
    List.Forall₂ (Placed tokens) (program.map .statement) extents ∧
    ((program.map .statement).zip extents).Pairwise (InOrder tokens) := by
  have hwithin : (Lexer.ofSource brokenCall).itemsWithin 30 = tokenize brokenCall :=
    Lexer.itemsWithin_eq (by decide +kernel)
  have htokens : (Program.tokens brokenCall).toOption.isSome = true := by
    rw [Program.tokens, ← hwithin]
    decide +kernel
  have hprogram : (parse (tokenize brokenCall)).map (·.map Stmt.location) =
      .ok [⟨1, 0, some 5⟩, ⟨1, 4, none⟩] := by
    rw [← hwithin]
    decide +kernel
  cases hcut : Program.tokens brokenCall with
  | error => rw [hcut] at htokens; cases htokens
  | ok tokens =>
    cases hparse : parse (tokenize brokenCall) with
    | error => rw [hparse] at hprogram; cases hprogram
    | ok program =>
      rw [hparse] at hprogram
      have heq : tokenize brokenCall = tokens.map .ok := mapM_id_eq_ok hcut
      obtain ⟨extents, hplaced, hordered⟩ := parse_extents heq hparse
      exact ⟨tokens, program, extents, heq, rfl, Except.ok.inj hprogram, hplaced, hordered⟩

end FrontEnd
