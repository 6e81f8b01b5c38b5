import FrontEnd.Compile
import FrontEnd.Proofs.Tree.Exact
import Mathlib.Data.List.Nodup

/-!
# Where variables are declared

No two variables of a function are declared at the same place, if the function comes from a text
(`read_places`). Tokens stand one behind the other in the text, a statement takes its tokens one
after the other, and what declares a variable starts with a token of its own. So the places of all
variables, in their order, are found among those of the tokens in the same order (`Founded`).

What comes from a text counts no references either.
-/

namespace FrontEnd

open List

variable {source : String} {program : Program}

mutual

/-- The variables that a statement declares in the body that it stands in or inside of it, by their
names and places. -/
def Stmt.places : Stmt → List (String × Location)
  | .declaration _ name location => [(name, location)]
  | .conditional _ body _ => Stmt.placesOfAll body
  | _ => []

/-- The variables that the statements of a body declare. -/
def Stmt.placesOfAll : List Stmt → List (String × Location)
  | [] => []
  | stmt :: block => stmt.places ++ placesOfAll block

end

/-- The variables of a function, parameters first. -/
def FunctionDef.places (function : FunctionDef) : List (String × Location) :=
  (function.parameters.map fun parameter => (parameter.name.text, parameter.name.location)) ++
    Stmt.placesOfAll function.body

mutual

/-- Whether a statement is one that can be written, as nothing in it counts references. -/
def Stmt.written : Stmt → Bool
  | .conditional _ body _ => Stmt.writtenAll body
  | .retain .. | .release .. => false
  | _ => true

/-- The same for all statements of a body. -/
def Stmt.writtenAll : List Stmt → Bool
  | [] => true
  | stmt :: block => stmt.written && writtenAll block

end

namespace Stmt

theorem placesOfAll_append (block rest : List Stmt) :
    placesOfAll (block ++ rest) = placesOfAll block ++ placesOfAll rest := by
  induction block with
  | nil => rfl
  | cons stmt block ih => rw [cons_append, placesOfAll, ih, placesOfAll, append_assoc]

theorem writtenAll_append (block rest : List Stmt) :
    writtenAll (block ++ rest) = (writtenAll block && writtenAll rest) := by
  induction block with
  | nil => rfl
  | cons stmt block ih => rw [cons_append, writtenAll, ih, writtenAll, Bool.and_assoc]

end Stmt

/-- The line and the column where something starts. -/
def Location.head (location : Location) : Nat × Nat :=
  (location.line, location.start)

@[simp] theorem Location.head_span (first last : Location) :
    (first.span last).head = first.head := by
  simp [head]

namespace Grammar

variable {tokens : List Token} {parameters : List Parameter} {close : Token}

/-- Where tokens start. -/
def heads (tokens : List Token) : List (Nat × Nat) :=
  tokens.map (·.location.head)

/-- Statements whose variables start where tokens do, in the same order, and so do those of each
function among them. -/
structure Founded (tokens : List Token) (stmts : List Stmt) : Prop where
  places : ((Stmt.placesOfAll stmts).map (·.2.head)).Sublist (heads tokens)
  written : Stmt.writtenAll stmts = true
  functions : ∀ function : FunctionDef, function.toStmt ∈ stmts →
    (function.places.map (·.2.head)).Sublist (heads tokens) ∧ Stmt.writtenAll function.body = true

namespace Founded

variable {tokens tokens' : List Token} {stmts stmts' : List Stmt} {location : Location}

theorem nil : Founded [] [] :=
  ⟨.slnil, rfl, by simp⟩

/-- More tokens do no harm. -/
theorem mono (h : Founded tokens stmts) (hsublist : tokens.Sublist tokens') :
    Founded tokens' stmts where
  places := h.places.trans (hsublist.map _)
  written := h.written
  functions := fun function hmem =>
    ⟨(h.functions function hmem).1.trans (hsublist.map _), (h.functions function hmem).2⟩

theorem append (h : Founded tokens stmts) (h' : Founded tokens' stmts') :
    Founded (tokens ++ tokens') (stmts ++ stmts') where
  places := by
    rw [Stmt.placesOfAll_append, map_append, heads, map_append]
    exact h.places.append h'.places
  written := by rw [Stmt.writtenAll_append, h.written, h'.written, Bool.and_self]
  functions := by
    intro function hmem
    rcases mem_append.mp hmem with hmem | hmem
    · exact (h.mono (sublist_append_left _ _)).functions function hmem
    · exact (h'.mono (sublist_append_right _ _)).functions function hmem

/-- A statement that declares nothing. -/
theorem of_places_eq_nil {stmt : Stmt} (hplaces : stmt.places = []) (hwritten : stmt.written = true)
    (hfunction : stmt.toFunctionDef? = none) : Founded tokens [stmt] := by
  refine ⟨?_, by rw [Stmt.writtenAll, hwritten]; rfl, fun function hmem => ?_⟩
  · rw [Stmt.placesOfAll, hplaces]
    exact nil_sublist _
  · rw [← mem_singleton.mp hmem] at hfunction
    cases hfunction

theorem declaration (first : Token) (type : Name) (name : String) (last : Location) :
    Founded [first] [.declaration type name (first.location.span last)] := by
  refine ⟨?_, rfl, by simp [FunctionDef.toStmt]⟩
  simp [Stmt.placesOfAll, Stmt.places, heads]

theorem conditional {condition : Expr} (h : Founded tokens stmts) :
    Founded tokens [.conditional condition stmts location] := by
  refine ⟨?_, ?_, by simp [FunctionDef.toStmt]⟩
  · rw [Stmt.placesOfAll, Stmt.places, Stmt.placesOfAll, append_nil]
    exact h.places
  · rw [Stmt.writtenAll, Stmt.written, h.written]
    rfl

/-- A function, with the tokens of its parameters in front of those of its body. -/
theorem function {name : String} {parameters : List Parameter} {returnType : Option Name}
    (h : Founded tokens' stmts)
    (hparameters : (parameters.map (·.name.location.head)).Sublist (heads tokens)) :
    Founded (tokens ++ tokens') [.function name parameters returnType stmts location] := by
  refine ⟨nil_sublist _, rfl, fun function hmem => ?_⟩
  obtain ⟨rfl, rfl, rfl, rfl, rfl⟩ := Stmt.function.inj (mem_singleton.mp hmem)
  refine ⟨?_, h.written⟩
  rw [FunctionDef.places, map_append, heads, map_append, map_map]
  exact hparameters.append h.places

end Founded

theorem Elements.heads_sublist (h : Elements IsParameter tokens parameters close) :
    (parameters.map (·.name.location.head)).Sublist (heads tokens) := by
  have hone : ∀ {tokens : List Token} {parameter : Parameter}, IsParameter tokens parameter →
      [parameter.name.location.head].Sublist (heads tokens) := by
    rintro _ _ ⟨isType, isName⟩
    rw [isName.2.2]
    exact sublist_cons_self _ _
  induction h with
  | last element isClose | lastComma element isComma isClose =>
    rw [heads, map_append]
    exact (hone element).trans (sublist_append_left _ _)
  | more element isComma elements ih =>
    rw [heads, map_append]
    exact (hone element).append (ih.cons _)

theorem Listed.heads_sublist (h : Listed IsParameter tokens parameters close) :
    (parameters.map (·.name.location.head)).Sublist (heads tokens) := by
  cases h with
  | empty => exact nil_sublist _
  | elements isOpen elements => exact elements.heads_sublist.cons _

theorem Sequence.founded {Inner : List Token → List Stmt → Prop} {stmts : List Stmt}
    (h : Sequence Inner tokens stmts)
    (hinner : ∀ {part group}, Inner part group → Founded part group) : Founded tokens stmts := by
  induction h with
  | nil => exact .nil
  | cons statement sequence ih => exact (hinner statement).append ih

/-- Everything that statements declare starts with a token of its own. -/
theorem Statement.founded {group : List Stmt} (h : Statement tokens group) :
    Founded tokens group := by
  induction h using Statement.induct with
  | @step tokens group h hinner =>
    have hblock {rest : List Token} {body : List Stmt} {close : Token}
        (block : Block Statement rest body close) (hlength : rest.length < tokens.length) :
        Founded rest body := by
      obtain ⟨isOpen, sequence, isClose⟩ := hinner block hlength
      refine (sequence.founded (·.elim fun _ hfounded => hfounded)).mono ?_
      exact (sublist_append_left _ _).cons _
    cases h with
    | result | assignment | expression => exact .of_places_eq_nil rfl rfl rfl
    | @declaration first second semicolon type name =>
      exact (Founded.declaration first type name.text _).mono (by simp)
    | @initialised first second equals semicolon type name tokens value =>
      exact ((Founded.declaration first type name.text _).append
        (.of_places_eq_nil rfl rfl rfl : Founded _ [.assignment name value _]))
    | conditional isWord expression block =>
      refine (hblock block (by grind)).conditional.mono ?_
      exact (sublist_append_right _ _).cons _
    | function isWord isName listed type block =>
      refine ((hblock block (by grind)).function listed.heads_sublist).mono ?_
      exact (((Sublist.refl _).append (sublist_append_right _ _)).cons _).cons _

end Grammar

/-! ### From texts -/

/-- A program that was read comes from tokens by the grammar. -/
theorem Program.read_eq_ok (h : Program.read source = .ok program) :
    ∃ tokens : List Token, tokenize source = tokens.map .ok ∧ Grammar.File tokens program := by
  unfold Program.read at h
  cases htokens : Program.tokens source with
  | error =>
    rw [htokens] at h
    cases h
  | ok tokens =>
    rw [htokens] at h
    have htokenize : tokenize source = tokens.map .ok := mapM_id_eq_ok htokens
    have hlexed : Lexed (tokens.map .ok) := htokenize ▸ lexed_tokenize source
    refine ⟨tokens, htokenize, (parse_eq_ok_iff hlexed program).mp ?_⟩
    change (Stop.ofError (Bracket.check tokens) >>= fun _ => parse (tokens.map .ok)) =
      .ok program at h
    cases hbracket : Bracket.check tokens with
    | error =>
      rw [hbracket] at h
      cases h
    | ok =>
      rw [hbracket] at h
      exact h

/-- Tokens start at different places. -/
theorem nodup_heads {tokens : List Token} (h : tokenize source = tokens.map .ok) :
    (Grammar.heads tokens).Nodup := by
  obtain ⟨pieces, hcut⟩ := cut_tokenize source
  have hpairwise := hcut.pairwise_precedes
  rw [h, pairwise_map] at hpairwise
  refine pairwise_map.mpr (hpairwise.imp ?_)
  rintro first second ⟨a, ha, b, hb, hprecedes⟩ heq
  obtain rfl := Option.some.inj ha
  obtain rfl := Option.some.inj hb
  obtain ⟨hline, hstart⟩ := Prod.mk.inj heq
  rcases hprecedes with hlt | ⟨-, hlt, -⟩ <;> omega

/-- **In a program that was read, no two variables of a function have one place**, and nothing
counts references. -/
theorem Program.read_places (h : Program.read source = .ok program) {function : FunctionDef}
    (hmem : function.toStmt ∈ program) :
    function.places.Nodup ∧ Stmt.writtenAll function.body = true := by
  obtain ⟨tokens, htokens, hfile⟩ := Program.read_eq_ok h
  have hfounded : Grammar.Founded tokens program := hfile.founded Grammar.Statement.founded
  obtain ⟨hplaces, hwritten⟩ := hfounded.functions function hmem
  exact ⟨Nodup.of_map _ (hplaces.nodup (nodup_heads htokens)), hwritten⟩

end FrontEnd
