import FrontEnd.Proofs.Diagnostic.Rows
import FrontEnd.Proofs.Tree.Places

/-!
# The places of what is read

Everything that is read from a text has a place that starts where a token starts and ends where a
token ends, the same one or a later one (`Covers`). For the trees of a program this follows from the
grammar (`Grammar.Statement.everywhere`), and the errors of reading are at a token, at two commas,
or right behind the last token (`Program.pinned_of_read`).

A token has no blank at either end, and neither has what is blamed for an error of the lexer. So all
these places are pinned to the code (`Location.Pinned`).
-/

namespace FrontEnd

open List Location

variable {text : List Char} {item : Item} {source : String} {P : Location → Prop} {error : Error}

/-! ### Tokens and blanks -/

namespace Text

theorem Solid.of_forall {stretch : List Char} (hne : stretch ≠ [])
    (h : ∀ c ∈ stretch, isBlank c = false) :
    Solid stretch where
  starts := ⟨_, head?_eq_some_head hne, h _ (head_mem hne)⟩
  ends := ⟨_, getLast?_eq_some_getLast hne, h _ (getLast_mem hne)⟩

end Text

/-- A token has no blank at either end. -/
theorem Token.Kind.Spells.solid {kind : Token.Kind} (h : kind.Spells text) : Text.Solid text := by
  have hne := h.ne_nil
  cases kind with
  | integer => exact .of_forall hne fun c hc => Text.not_isBlank_of_isDigit (h.2 c hc)
  | name =>
    obtain ⟨first, more, rfl, hfirst, hmore⟩ := h
    refine .of_forall hne
      (forall_mem_cons.mpr ⟨?_, fun c hc => Text.not_isBlank_of_isWord (hmore c hc)⟩)
    exact Text.not_isBlank_of_isWord (Text.isWord_of_isWordStart hfirst)
  | string =>
    obtain ⟨inner, rfl, -⟩ := h
    refine ⟨⟨'"', rfl, by decide⟩, ⟨'"', ?_, by decide⟩⟩
    rw [← cons_append, getLast?_append]
    rfl
  | operator =>
    refine .of_forall hne ?_
    rcases h with rfl | rfl | ⟨c, hc, rfl⟩
    · exact forall_mem_cons.mpr ⟨by decide, forall_mem_singleton.mpr (by decide)⟩
    · exact forall_mem_cons.mpr ⟨by decide, forall_mem_singleton.mpr (by decide)⟩
    · have hall : Lexeme.operatorMarks.all (fun c => !Text.isBlank c) = true := by decide
      exact forall_mem_singleton.mpr (by simpa using all_eq_true.mp hall c hc)

/-- What is blamed has no blank at either end, since a blank in front of it would be left out. -/
theorem Offends.solid {cause : Cause} {bad rest : List Char} (h : Offends cause bad)
    (unfit : ¬Fits (bad ++ rest)) :
    Text.Solid bad := by
  refine .of_forall h.ne_nil ?_
  cases h with
  | comment => exact forall_mem_cons.mpr ⟨by decide, forall_mem_singleton.mpr (by decide)⟩
  | quote => exact forall_mem_singleton.mpr (by decide)
  | character c =>
    refine forall_mem_singleton.mpr (Bool.eq_false_iff.mpr fun hblank => unfit (.inr ?_))
    exact ⟨[c], .blanks (cons_ne_nil _ _) (forall_mem_singleton.mpr hblank), rest, rfl⟩

/-- Every item of a text is about a stretch that stands at its place and has no blank at either
end. -/
theorem Cut.solid_of_mem {before : List Char} {pieces : List Piece} {items : List Item}
    (h : Cut before text pieces items) (hitem : item ∈ items) {location : Location}
    {stretch : List Char} (hmarks : item.Marks location stretch) : Text.Solid stretch := by
  induction h with
  | done => cases hitem
  | @token before rest token pieces items longest located more ih =>
    rcases mem_cons.mp hitem with rfl | hitem
    · exact hmarks.2.2.solid
    · exact ih hitem
  | skip longest more ih => exact ih hitem
  | @fault before bad rest cause offends unfit =>
    obtain rfl := mem_singleton.mp hitem
    -- the cause tells what is blamed
    have hbad : stretch = bad := by
      obtain ⟨-, hoffends⟩ := hmarks
      cases offends <;> cases hoffends <;> rfl
    exact hbad ▸ offends.solid unfit

theorem exists_shows_of_mem (h : item ∈ tokenize source) :
      ∃ location stretch, item.Marks location stretch ∧
        location.Shows (Text.expandTabs source).toList stretch ∧ Text.Solid stretch := by
  obtain ⟨pieces, hcut⟩ := cut_tokenize source
  obtain ⟨between, stretch, behind, heq, hline, -, hmarks⟩ := hcut.marks_of_mem h
  refine ⟨_, stretch, hmarks, ?_, hcut.solid_of_mem h hmarks⟩
  rw [Text.toList_expandTabs, heq, nil_append]
  exact shows_behind hline between behind

/-! ### Spans of tokens -/

namespace Location

theorem span_self (location : Location) : location.span location = location := by
  rw [span, if_neg (Nat.lt_irrefl _)]

/-- Where a span ends does not matter to a longer one. -/
theorem span_span (first middle last : Location) :
    (first.span middle).span last = first.span last := by
  rw [span, span_line, span_start]
  split
  · next hlt => rw [span, if_pos hlt]
  · next hge => rw [show first.span last = { first with stop := last.stop } from if_neg hge]

variable {first last : Location} {source : String} {stretch other : List Char}

/-- **From the start of a stretch to the end of a later one.** -/
theorem pinned_span (hfirst : first.Shows (Text.expandTabs source).toList stretch)
    (hsolid : Text.Solid stretch) (hlast : last.Shows (Text.expandTabs source).toList other)
    (hother : Text.Solid other) (horder : first = last ∨ first.Precedes last) :
    (first.span last).Pinned source := by
  have hindent := hfirst.indent_le hsolid
  obtain ⟨stop, -, hstop, hwidth⟩ := hfirst.stop_le hsolid
  refine hfirst.pinned hsolid (span_line _ _) (by rw [span_start]; exact hindent) ?_
  rw [span_start, span]
  split
  · -- the rest of the line
    rw [restOfLine, Option.getD_none, Nat.min_self]
    omega
  · next hline =>
    obtain ⟨stop', hlaststop, hstop', hwidth'⟩ := hlast.stop_le hother
    have hsame : first.line = last.line ∧ first.start ≤ last.start := by
      rcases horder with rfl | hlt | ⟨heq, hlt, -⟩
      · exact ⟨rfl, Nat.le_refl _⟩
      · exact absurd hlt hline
      · exact ⟨heq, Nat.le_of_lt hlt⟩
    have hrow : last.lineIn source = first.lineIn source := by rw [lineIn, lineIn, hsame.1]
    rw [hrow] at hwidth'
    simp only [hlaststop, Option.getD_some]
    omega

theorem pinned_of_shows (h : first.Shows (Text.expandTabs source).toList stretch)
    (hsolid : Text.Solid stretch) :
    first.Pinned source := by
  rw [← span_self first]
  exact pinned_span h hsolid h hsolid (.inl rfl)

/-- **Right behind a stretch.** -/
theorem pinned_missingAfter (h : first.Shows (Text.expandTabs source).toList stretch)
    (hsolid : Text.Solid stretch) :
    first.missingAfter.Pinned source := by
  have hindent := h.indent_le hsolid
  obtain ⟨stop, hstop, hle, hwidth⟩ := h.stop_le hsolid
  refine h.pinned hsolid rfl ?_ ?_
  · simp only [missingAfter, hstop, Option.getD_some]
    omega
  · simp only [missingAfter, hstop, Option.getD_some]
    omega

end Location

/-- A location from the start of one of some tokens to the end of the same one or a later one. -/
def Covers (tokens : List Token) (location : Location) : Prop :=
  ∃ first last, (first = last ∧ first ∈ tokens ∨ [first, last].Sublist tokens) ∧
    location = first.location.span last.location

namespace Covers

variable {tokens others : List Token} {location : Location} {token last : Token}

theorem of_mem (h : token ∈ tokens) : Covers tokens token.location :=
  ⟨token, token, .inl ⟨rfl, h⟩, (span_self _).symm⟩

theorem of_cons (h : last = token ∨ last ∈ tokens) :
    Covers (token :: tokens) (token.location.span last.location) := by
  rcases h with rfl | h
  · exact ⟨last, last, .inl ⟨rfl, mem_cons_self⟩, rfl⟩
  · exact ⟨token, last, .inr ((singleton_sublist.mpr h).cons_cons _), rfl⟩

theorem mono (h : Covers tokens location) (hsublist : tokens.Sublist others) :
    Covers others location := by
  obtain ⟨first, last, hboth, rfl⟩ := h
  refine ⟨first, last, hboth.imp ?_ fun hpair => hpair.trans hsublist, rfl⟩
  exact fun ⟨heq, hmem⟩ => ⟨heq, hsublist.subset hmem⟩

/-- **What the tokens of a text cover is pinned to its code.** -/
theorem pinned {source : String} (htokens : tokenize source = tokens.map .ok)
    (h : Covers tokens location) :
    location.Pinned source := by
  have hshows : ∀ token ∈ tokens, ∃ stretch,
      token.location.Shows (Text.expandTabs source).toList stretch ∧ Text.Solid stretch := by
    intro token htoken
    have hitem : Except.ok token ∈ tokenize source := htokens ▸ mem_map_of_mem htoken
    obtain ⟨location, stretch, ⟨rfl, -⟩, hshows, hsolid⟩ := exists_shows_of_mem hitem
    exact ⟨stretch, hshows, hsolid⟩
  obtain ⟨first, last, hboth, rfl⟩ := h
  rcases hboth with ⟨rfl, hmem⟩ | hpair
  · obtain ⟨stretch, hfirst, hsolid⟩ := hshows first hmem
    exact pinned_span hfirst hsolid hfirst hsolid (.inl rfl)
  · obtain ⟨stretch, hfirst, hsolid⟩ := hshows first (hpair.subset mem_cons_self)
    obtain ⟨other, hlast, hother⟩ := hshows last (hpair.subset (by simp))
    -- tokens stand one behind the other
    obtain ⟨pieces, hcut⟩ := cut_tokenize source
    have hordered := hcut.pairwise_precedes
    rw [htokens, pairwise_map] at hordered
    obtain ⟨a, ha, b, hb, hprecedes⟩ := (pairwise_iff_forall_sublist.mp hordered) hpair
    cases ha
    cases hb
    exact pinned_span hfirst hsolid hlast hother (.inr hprecedes)

end Covers

/-! ### Places in trees -/

mutual

/-- All places of an expression satisfy a predicate. -/
def Expr.Everywhere (P : Location → Prop) : Expr → Prop
  | .name n => P n.location
  | .integer _ location => P location
  | .string _ location => P location
  | .call function arguments location =>
    function.Everywhere P ∧ Expr.EverywhereAll P arguments ∧ P location

/-- The same for the arguments of a call. -/
def Expr.EverywhereAll (P : Location → Prop) : List Expr → Prop
  | [] => True
  | argument :: arguments => argument.Everywhere P ∧ Expr.EverywhereAll P arguments

end

mutual

/-- All places of a statement satisfy a predicate. -/
def Stmt.Everywhere (P : Location → Prop) : Stmt → Prop
  | .expression value location => value.Everywhere P ∧ P location
  | .declaration type _ location => P type.location ∧ P location
  | .assignment target value location => P target.location ∧ value.Everywhere P ∧ P location
  | .conditional condition body location =>
    condition.Everywhere P ∧ Stmt.EverywhereAll P body ∧ P location
  | .result value location => value.Everywhere P ∧ P location
  | .function _ parameters returnType body location =>
    (∀ parameter ∈ parameters, P parameter.type.location ∧ P parameter.name.location) ∧
      (∀ type ∈ returnType, P type.location) ∧ Stmt.EverywhereAll P body ∧ P location
  | .retain _ location => P location
  | .release _ location => P location

/-- The same for the statements of a body. -/
def Stmt.EverywhereAll (P : Location → Prop) : List Stmt → Prop
  | [] => True
  | stmt :: block => stmt.Everywhere P ∧ Stmt.EverywhereAll P block

end

section Everywhere

variable {P Q : Location → Prop}

theorem Expr.everywhereAll_iff {arguments : List Expr} :
    Expr.EverywhereAll P arguments ↔ ∀ argument ∈ arguments, argument.Everywhere P := by
  induction arguments with
  | nil => simp [Expr.EverywhereAll]
  | cons argument arguments ih => rw [Expr.EverywhereAll, forall_mem_cons, ih]

theorem Stmt.everywhereAll_iff {block : List Stmt} :
    Stmt.EverywhereAll P block ↔ ∀ stmt ∈ block, stmt.Everywhere P := by
  induction block with
  | nil => simp [Stmt.EverywhereAll]
  | cons stmt block ih => rw [Stmt.EverywhereAll, forall_mem_cons, ih]

mutual

theorem Expr.Everywhere.imp (himp : ∀ location, P location → Q location) : ∀ {value : Expr},
    value.Everywhere P → value.Everywhere Q
  | .name _, h => himp _ h
  | .integer _ _, h => himp _ h
  | .string _ _, h => himp _ h
  | .call function arguments location, h => by
    rw [Expr.Everywhere] at h ⊢
    exact ⟨h.1.imp himp, Expr.EverywhereAll.imp himp h.2.1, himp _ h.2.2⟩

theorem Expr.EverywhereAll.imp (himp : ∀ location, P location → Q location) :
    ∀ {arguments : List Expr}, Expr.EverywhereAll P arguments → Expr.EverywhereAll Q arguments
  | [], _ => trivial
  | argument :: arguments, h => by
    rw [Expr.EverywhereAll] at h ⊢
    exact ⟨h.1.imp himp, Expr.EverywhereAll.imp himp h.2⟩

end

mutual

theorem Stmt.Everywhere.imp (himp : ∀ location, P location → Q location) : ∀ {stmt : Stmt},
    stmt.Everywhere P → stmt.Everywhere Q
  | .expression .., h => ⟨h.1.imp himp, himp _ h.2⟩
  | .declaration .., h => ⟨himp _ h.1, himp _ h.2⟩
  | .assignment .., h => ⟨himp _ h.1, h.2.1.imp himp, himp _ h.2.2⟩
  | .conditional condition body location, h => by
    rw [Stmt.Everywhere] at h ⊢
    exact ⟨h.1.imp himp, Stmt.EverywhereAll.imp himp h.2.1, himp _ h.2.2⟩
  | .result .., h => ⟨h.1.imp himp, himp _ h.2⟩
  | .function name parameters returnType body location, h => by
    rw [Stmt.Everywhere] at h ⊢
    obtain ⟨hparameters, hreturn, hbody, hlocation⟩ := h
    exact ⟨fun parameter hmem => (hparameters parameter hmem).imp (himp _) (himp _),
      fun type htype => himp _ (hreturn type htype), Stmt.EverywhereAll.imp himp hbody,
      himp _ hlocation⟩
  | .retain .., h => himp _ h
  | .release .., h => himp _ h

theorem Stmt.EverywhereAll.imp (himp : ∀ location, P location → Q location) : ∀ {block : List Stmt},
    Stmt.EverywhereAll P block → Stmt.EverywhereAll Q block
  | [], _ => trivial
  | stmt :: block, h => by
    rw [Stmt.EverywhereAll] at h ⊢
    exact ⟨h.1.imp himp, Stmt.EverywhereAll.imp himp h.2⟩

end

end Everywhere

namespace Grammar

variable {α : Type} {Element : List Token → α → Prop} {tokens part : List Token} {found : List α}
  {close : Token} {a : α} {value : Expr}

/-- An element of a list has its own tokens. -/
theorem Elements.exists_part (h : Elements Element tokens found close) (ha : a ∈ found) :
    ∃ part, Element part a ∧ part.Sublist tokens := by
  induction h with
  | last element | lastComma element =>
    obtain rfl := mem_singleton.mp ha
    exact ⟨_, element, sublist_append_left _ _⟩
  | more element _ _ ih =>
    rcases mem_cons.mp ha with rfl | ha
    · exact ⟨_, element, sublist_append_left _ _⟩
    · obtain ⟨part, hpart, hsublist⟩ := ih ha
      exact ⟨part, hpart, (hsublist.cons _).trans (sublist_append_right _ _)⟩

theorem Listed.exists_part (h : Listed Element tokens found close) (ha : a ∈ found) :
    ∃ part, Element part a ∧ part.Sublist tokens := by
  cases h with
  | empty => cases ha
  | elements isOpen elements =>
    exact (elements.exists_part ha).imp fun part hpart => ⟨hpart.1, hpart.2.cons _⟩

/-- A statement of a sequence has its own tokens. -/
theorem Sequence.exists_part {Statement : List Token → List Stmt → Prop} {stmts : List Stmt}
    (h : Sequence Statement tokens stmts) {stmt : Stmt} (hstmt : stmt ∈ stmts) :
    ∃ part group, Statement part group ∧ stmt ∈ group ∧ part.Sublist tokens := by
  induction h with
  | nil => cases hstmt
  | @cons tokens rest group stmts statement sequence ih =>
    rcases mem_append.mp hstmt with hstmt | hstmt
    · exact ⟨tokens, group, statement, hstmt, sublist_append_left _ _⟩
    · obtain ⟨part, found, hpart, hmem, hsublist⟩ := ih hstmt
      exact ⟨part, found, hpart, hmem, hsublist.trans (sublist_append_right _ _)⟩

/-- Calls end with a closing token, and everything in them is covered. -/
theorem Calls.everywhere {Argument : List Token → Expr → Prop} {callee : Expr} {first : Token}
    {rest : List Token} (h : Calls Argument callee tokens value) (hrest : tokens.Sublist rest)
    (harguments : ∀ {part argument}, Argument part argument → argument.Everywhere (Covers part))
    (hcallee : callee.Everywhere (Covers (first :: rest)))
    (hlocation : ∃ last,
      (last = first ∨ last ∈ rest) ∧ callee.location = first.location.span last.location) :
    value.Everywhere (Covers (first :: rest)) ∧
      ∃ last, (last = first ∨ last ∈ rest) ∧
      value.location = first.location.span last.location := by
  induction h with
  | nil => exact ⟨hcallee, hlocation⟩
  | @cons callee value tokens behind arguments close listed calls ih =>
    obtain ⟨last, -, hlast⟩ := hlocation
    have htokens := (sublist_append_left tokens behind).trans hrest
    have hclose : close = first ∨ close ∈ rest := .inr (htokens.subset listed.close_mem)
    have hspan : callee.location.span close.location = first.location.span close.location := by
      rw [hlast, span_span]
    refine ih ((sublist_append_right tokens behind).trans hrest) ?_ ⟨close, hclose, hspan⟩
    rw [Expr.Everywhere, Expr.everywhereAll_iff, hspan]
    refine ⟨hcallee, fun argument hargument => ?_, .of_cons hclose⟩
    obtain ⟨part, hpart, hsublist⟩ := listed.exists_part hargument
    exact (harguments hpart).imp fun location hcovers =>
      hcovers.mono ((hsublist.trans htokens).cons _)

/-- **Expressions are covered by their tokens**, from the first one on. -/
theorem Expression.everywhere (h : Expression tokens value) :
    value.Everywhere (Covers tokens) ∧ ∃ first rest last, tokens = first :: rest ∧
      (last = first ∨ last ∈ rest) ∧ value.location = first.location.span last.location := by
  induction h using Expression.induct with
  | @mk token rest first value _ primary calls =>
    have hfirst : first.Everywhere (Covers (token :: rest)) := by
      have hcovers : Covers (token :: rest) first.location := by
        rw [primary.location_eq]
        exact .of_mem mem_cons_self
      cases primary <;> exact hcovers
    obtain ⟨heverywhere, last, hlast, hlocation⟩ := calls.everywhere (Sublist.refl _)
      (·.elim fun _ hargument => hargument.1) hfirst
      ⟨token, .inl rfl, by rw [primary.location_eq, span_self]⟩
    exact ⟨heverywhere, token, rest, last, rfl, hlast, hlocation⟩

theorem Expression.everywhere_mono (h : Expression part value) (hsublist : part.Sublist tokens) :
    value.Everywhere (Covers tokens) :=
  h.everywhere.1.imp fun _ hcovers => hcovers.mono hsublist

theorem IsName.covers {token : Token} {name : Name} (h : IsName token name)
    (hmem : token ∈ tokens) :
    Covers tokens name.location := by
  rw [h.2.2]
  exact .of_mem hmem

theorem IsParameter.covers {parameter : Parameter} (h : IsParameter part parameter)
    (hsublist : part.Sublist tokens) :
    Covers tokens parameter.type.location ∧ Covers tokens parameter.name.location := by
  cases h with
  | mk isType isName =>
    exact ⟨isType.covers (hsublist.subset (by simp)), isName.covers (hsublist.subset (by simp))⟩

theorem ReturnType.covers {returnType : Option Name} (h : ReturnType part returnType)
    (hsublist : part.Sublist tokens) :
    ∀ type ∈ returnType, Covers tokens type.location := by
  cases h with
  | nothing => exact fun type htype => nomatch htype
  | type isWord isName =>
    intro type htype
    obtain rfl := Option.some.inj htype
    exact isName.covers (hsublist.subset (by simp))

/-- **Statements are covered by their tokens**, with everything in them. -/
theorem Statement.everywhere {group : List Stmt} (h : Statement tokens group) :
    ∀ stmt ∈ group, stmt.Everywhere (Covers tokens) := by
  induction h using Statement.induct with
  | @step tokens group h hinner =>
    have hblock {rest : List Token} {body : List Stmt} {close : Token}
        (block : Block Statement rest body close) (hlength : rest.length < tokens.length)
        (hsublist : rest.Sublist tokens) :
        Stmt.EverywhereAll (Covers tokens) body := by
      -- what covers a statement of a body is a part of the tokens around the body
      obtain ⟨isOpen, sequence, isClose⟩ := hinner block hlength
      refine Stmt.everywhereAll_iff.mpr fun stmt hstmt => ?_
      obtain ⟨part, group, ⟨-, hstatement⟩, hmem, hpart⟩ := sequence.exists_part hstmt
      refine (hstatement stmt hmem).imp fun location hcovers => hcovers.mono ?_
      exact ((hpart.trans (sublist_append_left _ _)).cons _).trans hsublist
    cases h with
    | result isWord expression =>
      refine forall_mem_singleton.mpr ⟨?_, .of_cons (.inr (by simp))⟩
      exact expression.everywhere_mono ((sublist_append_left _ _).cons _)
    | conditional isWord expression block =>
      rw [forall_mem_singleton, Stmt.Everywhere]
      refine ⟨?_, hblock block (by grind) ((sublist_append_right _ _).cons _), .of_cons (.inr ?_)⟩
      · exact expression.everywhere_mono ((sublist_append_left _ _).cons _)
      · exact mem_append_right _ block.close_mem
    | @function word token close last name parameters returnType body listTokens typeTokens
        rest isWord isName
        listed type block =>
      have hlist : listTokens.Sublist (word :: token :: (listTokens ++ (typeTokens ++ rest))) :=
        ((sublist_append_left _ _).cons _).cons _
      have hbehind :
          (typeTokens ++ rest).Sublist (word :: token :: (listTokens ++ (typeTokens ++ rest))) :=
        ((sublist_append_right _ _).cons _).cons _
      rw [forall_mem_singleton, Stmt.Everywhere]
      refine ⟨fun parameter hparameter => ?_, type.covers ((sublist_append_left _ _).trans hbehind),
        hblock block (by grind) ((sublist_append_right _ _).trans hbehind), .of_cons (.inr ?_)⟩
      · obtain ⟨part, hpart, hsublist⟩ := listed.exists_part hparameter
        exact hpart.covers (hsublist.trans hlist)
      · simp [block.close_mem]
    | assignment isName isEquals expression =>
      refine forall_mem_singleton.mpr ⟨isName.covers mem_cons_self, ?_, .of_cons (.inr (by simp))⟩
      exact expression.everywhere_mono (((sublist_append_left _ _).cons _).cons _)
    | declaration isType =>
      exact forall_mem_singleton.mpr ⟨isType.covers mem_cons_self, .of_cons (.inr (by simp))⟩
    | @initialised first second equals semicolon type name tokens value isType isName isEquals
        expression isEnd =>
      refine forall_mem_cons.mpr ⟨⟨isType.covers mem_cons_self, .of_cons (.inr (by simp))⟩, ?_⟩
      have hvalue : tokens.Sublist (first :: second :: equals :: (tokens ++ [semicolon])) :=
        (((sublist_append_left _ _).cons _).cons _).cons _
      have hend : Covers (second :: equals :: (tokens ++ [semicolon]))
          (second.location.span semicolon.location) :=
        .of_cons (.inr (by simp))
      exact forall_mem_singleton.mpr ⟨isName.covers (by simp), expression.everywhere_mono hvalue,
        hend.mono (sublist_cons_self _ _)⟩
    | expression expression =>
      obtain ⟨-, first, rest, last, rfl, -, hlocation⟩ := expression.everywhere
      refine forall_mem_singleton.mpr ⟨expression.everywhere_mono (sublist_append_left _ _), ?_⟩
      rw [hlocation, span_span]
      exact .of_cons (.inr (by simp))

end Grammar

/-- Everything in a program that was read is pinned to the code. -/
theorem Program.everywhere_of_read {program : Program} (h : Program.read source = .ok program) :
    ∀ stmt ∈ program, stmt.Everywhere (·.Pinned source) := by
  obtain ⟨tokens, htokens, hfile⟩ := Program.read_eq_ok h
  intro stmt hstmt
  obtain ⟨part, group, hstatement, hmem, hpart⟩ := hfile.exists_part hstmt
  exact (hstatement.everywhere stmt hmem).imp fun location hcovers =>
    (hcovers.mono hpart).pinned htokens

/-! ### Errors of reading -/

/-- An error at a place that satisfies a predicate. -/
def Error.At (P : Location → Prop) (error : Error) : Prop :=
  ∃ location, error.location = some location ∧ P location

theorem Cause.at_located {location : Location} (cause : Cause) (h : P location) :
    (cause.located location).At P :=
  ⟨location, rfl, h⟩

/-- Brackets are blamed where they stand. -/
theorem Bracket.at_of_checkFrom {opened : List Opened} {tokens : List Token}
    (h : checkFrom opened tokens = .error error) (hopened : ∀ bracket ∈ opened, P bracket.location)
    (htokens : ∀ token ∈ tokens, P token.location) : error.At P := by
  induction tokens generalizing opened with
  | nil =>
    rw [checkFrom] at h
    split at h
    · cases h
    · next outermost hlast =>
      obtain rfl := Except.error.inj h
      exact Cause.at_located _ (hopened outermost (mem_of_getLast? hlast))
  | cons token tokens ih =>
    obtain ⟨htoken, htokens⟩ := forall_mem_cons.mp htokens
    rw [checkFrom] at h
    split at h
    · exact ih h (forall_mem_cons.mpr ⟨htoken, hopened⟩) htokens
    · split at h
      · exact ih h hopened htokens
      · split at h
        · obtain rfl := Except.error.inj h
          exact Cause.at_located _ htoken
        · obtain ⟨-, hopened⟩ := forall_mem_cons.mp hopened
          split at h
          · exact ih h hopened htokens
          · obtain rfl := Except.error.inj h
            exact Cause.at_located _ htoken

theorem Error.Blames.covers {front : List Token} {token : Token} (h : error.Blames front token)
    (left : List Token) :
    error.At (Covers (front ++ token :: left)) := by
  cases h with
  | token => exact Cause.at_located _ (.of_mem (by simp))
  | @commas front comma =>
    have hcommas : Covers (comma :: token :: left) (comma.location.span token.location) :=
      .of_cons (.inr (by simp))
    exact Cause.at_located _ (hcommas.mono (by simp))

/-- **Errors of reading are pinned to the code.** -/
theorem Program.pinned_of_read (h : Program.read source = .error (.error error)) :
    error.At (·.Pinned source) := by
  rw [Program.read, Program.tokens] at h
  rcases mapM_id_cases (tokenize source) with ⟨tokens, htokens, hok⟩ | ⟨bad, hbad, herror⟩
  · have htoken : ∀ token ∈ tokens, token.location.Pinned source := fun token hmem =>
      (Covers.of_mem hmem).pinned htokens
    rw [hok] at h
    change (Stop.ofError (Bracket.check tokens) >>= fun _ => parse (tokens.map .ok)) = _ at h
    cases hbracket : Bracket.check tokens with
    | error =>
      rw [hbracket] at h
      obtain rfl := Stop.error.inj (Except.error.inj h)
      exact Bracket.at_of_checkFrom hbracket (forall_mem_nil _) htoken
    | ok =>
      rw [hbracket] at h
      change parse (tokens.map .ok) = _ at h
      have hlexed : Lexed (tokens.map .ok) := htokens ▸ lexed_tokenize source
      cases Statements.outcome (show Parse.Trusted True tokens from fun _ => hlexed) with
      | reads program run =>
        obtain ⟨last, hreading⟩ := run (.ofItems (tokens.map .ok)) rfl
        rw [hreading.parse_eq] at h
        cases h
      | faults fault allowed => exact absurd trivial allowed
      | ends last isLast canEnd yields =>
        rw [yields.parse_eq] at h
        obtain rfl := Stop.error.inj (Except.error.inj h)
        have hitem : Except.ok last ∈ tokenize source :=
          htokens ▸ mem_map_of_mem (mem_of_getLast? isLast)
        obtain ⟨_, stretch, ⟨rfl, -⟩, hshows, hsolid⟩ := exists_shows_of_mem hitem
        exact Cause.at_located _ (pinned_missingAfter hshows hsolid)
      | refuses front token left bad split blames canEnd yields =>
        subst split
        rw [(yields left).parse_eq] at h
        obtain rfl := Stop.error.inj (Except.error.inj h)
        obtain ⟨location, hlocation, hcovers⟩ := blames.covers left
        exact ⟨location, hlocation, hcovers.pinned htokens⟩
  · rw [herror] at h
    obtain rfl := Stop.error.inj (Except.error.inj h)
    obtain ⟨location, stretch, ⟨hlocation, -⟩, hshows, hsolid⟩ := exists_shows_of_mem hbad
    exact ⟨location, hlocation, pinned_of_shows hshows hsolid⟩

end FrontEnd
