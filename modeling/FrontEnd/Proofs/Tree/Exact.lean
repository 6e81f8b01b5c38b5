import FrontEnd.Proofs.Tree.Refusal

/-!
# Programs are read exactly

A stream of tokens is read as a program if and only if the grammar derives the program from it.
Everything else ends with an error, and never with a fault.

The verdict on one statement is what a file is made of (`Statements.outcome`): statements are taken
off the front until none are left, or until one of them runs out of tokens or is refused one. An
error of reading is the last result that there is, so it is the outcome (`mapM_id_of_error`). Any
tokens have an outcome. If they do not come from a text, it may be a fault.
-/

namespace FrontEnd

open Grammar List

variable {ε α : Type} {tokens : List Token} {program : Program}

namespace Statements

open Parse (Steps Fails Ends LexedTokens Trusted)

variable {faultless : Prop} {tokens taken left : List Token} {cursor : Cursor}
  {program : Program} {stop : Stop} {group : Parse.Group} {last : Cursor} {count : Nat}
  {front : List Token}

/-! ### One statement -/

/-- One statement, or nothing at the end. -/
def statement? : Parse (Option Parse.Group) := do
  if ← Parse.atEnd then return none
  else return some (← Parse.statement)

theorem read_eq_relocating : read = Parse.relocating statement? := rfl

theorem composed_statement? : Parse.Composed 0 statement? := by
  refine (Parse.Composed.peek true fun _ => false).after fun ended => .ite (.pure none) ?_
  exact Parse.composed_statement.some.after fun _ => .pure _

theorem steps_read_nil : Steps [] read none [] :=
  (Parse.steps_atEnd_nil.bind (.pure none)).relocating

/-- Where there is a token, reading goes on with a statement. -/
theorem leads_statement? (hne : tokens ≠ []) :
    Parse.Leads tokens statement? (Parse.statement >>= fun group => pure (some group)) tokens := by
  obtain ⟨token, rest, rfl⟩ := exists_cons_of_ne_nil hne
  exact Parse.steps_atEnd.leads

theorem steps_read (hne : tokens ≠ []) (h : Steps tokens Parse.statement group left) :
    Steps tokens read (some group) left :=
  ((leads_statement? hne).steps (h.bind (.pure (some group)))).relocating

theorem fails_read (hne : tokens ≠ []) (h : Fails tokens Parse.statement stop)
    (hgenuine : ∀ error, stop = .error error → error.isEndOfFile = false) :
    Fails tokens read stop :=
  ((leads_statement? hne).fails h.bind).relocating hgenuine

/-- A statement that runs out of tokens has taken the last of them, and the error is behind it. -/
theorem fails_read_of_ends (h : Ends tokens Parse.statement) {last : Token}
    (hlast : tokens.getLast? = some last) :
    Fails tokens read (.error (Cause.unexpectedEndOfFile.located last.location.missingAfter)) := by
  have hne : tokens ≠ [] := by
    rintro rfl
    cases hlast
  intro cursor hcursor
  obtain ⟨after, hrun, hafter⟩ := (leads_statement? hne).ends h.bind cursor hcursor
  obtain ⟨taken, htaken, hafterLast⟩ := (composed_statement?.uniform cursor).leaves
  rw [hrun] at htaken hafterLast
  rw [Cursor.tokens_of_pending hcursor, Parse.cursorOf, Cursor.tokens, hafter, filterMap_nil,
    append_nil] at htaken
  rw [← htaken, hlast, Option.some_or] at hafterLast
  refine ⟨after, ?_⟩
  rw [read_eq_relocating, Parse.relocating, hrun]
  simp only [Cursor.relocate, show after.last = some last from hafterLast]
  rfl

/-- No statement is read as more statements than it has tokens. -/
theorem length_le_of_statement {group : List Stmt} (h : Statement tokens group) :
    group.length ≤ tokens.length := by
  cases h <;> simp

theorem append_ne_nil_of_statement {group : List Stmt} (h : Statement tokens group) :
    tokens ++ left ≠ [] := by
  obtain ⟨token, rest, rfl, -⟩ := h.start
  exact cons_ne_nil _ _

/-! ### All statements -/

theorem take_of_read_none {after : Cursor} (h : read cursor = .ok none after) (count : Nat) :
    take count { cursor } = [] := by
  cases count with
  | zero => rfl
  | succ count => simp [take, next, h]

theorem take_pending (pending : List Stmt) (cursor : Cursor) (count : Nat) :
    take (pending.length + count) { cursor, pending } = pending.map .ok ++
      take count { cursor } := by
  induction pending with
  | nil => rw [length_nil, Nat.zero_add, map_nil, nil_append]
  | cons stmt pending ih =>
    rw [length_cons, Nat.add_right_comm, take]
    simp only [next, map_cons, cons_append]
    rw [ih]

theorem take_of_read_some {after : Cursor} (h : read cursor = .ok (some group) after)
    (count : Nat) :
    take (group.toList.length + count) { cursor } = group.toList.map .ok ++
      take count { cursor := after } := by
  have hlength : group.toList.length + count = group.others.length + count + 1 := by
    simp [Parse.Group.toList]
    omega
  rw [hlength, take]
  simp only [next, h, Bool.false_eq_true, if_false, take_pending]
  rfl

theorem take_of_read_error {after : Cursor} (h : read cursor = .error stop after) (count : Nat) :
    take (count + 1) { cursor } = [.error stop] := by
  rw [take]
  simp only [next, h]
  cases count <;> simp [take, next]

/-- The statements of a program, read one after the other until no token is left, from a cursor to
another one. -/
inductive Reading : Cursor → List Token → Program → Cursor → Prop
  | nil {cursor : Cursor} (empty : cursor.pending = []) : Reading cursor [] [] cursor
  | cons {cursor after last : Cursor} {taken tokens : List Token} {group : Parse.Group}
      {program : Program} (front : cursor.pending = (taken ++ tokens).map .ok)
      (statement : Statement (taken.map Token.requoted) group.toList)
      (reads : read cursor = .ok (some group) after) (behind : Reading after tokens program last) :
      Reading cursor (taken ++ tokens) (group.toList ++ program) last

theorem Reading.file (h : Reading cursor tokens program last) :
    File (tokens.map Token.requoted) program := by
  induction h with
  | nil => exact .nil
  | cons _ statement _ _ ih =>
    rw [map_append]
    exact .cons statement ih

/-- Each statement of a group takes a token, so a count of the tokens is enough for a group and the
rest. -/
theorem exists_count_of_statement (h : Statement (taken.map Token.requoted) group.toList)
    (hcount : (taken ++ left).length ≤ count) :
    ∃ fewer, count = group.toList.length + fewer ∧ left.length ≤ fewer := by
  have hlength : group.toList.length ≤ taken.length := by simpa using length_le_of_statement h
  rw [length_append] at hcount
  exact ⟨count - group.toList.length, by omega, by omega⟩

/-- All that is yielded is the statements that are read. -/
theorem Reading.take_eq (h : Reading cursor tokens program last) (hcount : tokens.length ≤ count) :
    take count { cursor } = program.map .ok := by
  induction h generalizing count with
  | nil empty =>
    obtain ⟨after, haction, -⟩ := steps_read_nil _ empty
    exact take_of_read_none haction count
  | cons front statement reads _ ih =>
    obtain ⟨fewer, rfl, hfewer⟩ := exists_count_of_statement statement hcount
    rw [take_of_read_some reads, ih hfewer, map_append]

/-- In front of tokens, some statements are yielded, and then what stops the stream. -/
def Yields (tokens : List Token) (stop : Stop) : Prop :=
  ∀ (cursor : Cursor) (count : Nat), cursor.pending = tokens.map .ok → tokens.length ≤ count →
    ∃ stmts : List Stmt, take count { cursor } = stmts.map .ok ++ [.error stop]

theorem yields_of_fails (hne : tokens ≠ []) (h : Fails tokens read stop) : Yields tokens stop := by
  intro cursor count hpending hcount
  obtain ⟨after, hread⟩ := h cursor hpending
  have hpos := length_pos_iff.mpr hne
  obtain ⟨fewer, rfl⟩ : ∃ n, count = n + 1 := ⟨count - 1, by omega⟩
  exact ⟨[], take_of_read_error hread fewer⟩

/-- An error behind a statement. -/
theorem Yields.after (hgroup : Statement (taken.map Token.requoted) group.toList)
    (hread : Steps (taken ++ left) read (some group) left) (h : Yields left stop) :
    Yields (taken ++ left) stop := by
  intro cursor count hpending hcount
  obtain ⟨after, haction, hafter⟩ := hread cursor hpending
  obtain ⟨fewer, rfl, hfewer⟩ := exists_count_of_statement hgroup hcount
  obtain ⟨stmts, hstmts⟩ := h after fewer hafter hfewer
  refine ⟨group.toList ++ stmts, ?_⟩
  rw [take_of_read_some haction, hstmts, map_append, append_assoc]

/-- What is yielded in front of tokens is all statements of a file; or it is some statements and the
error that the file ends too early, where it could go on; or it is some statements and an error at a
token, whatever stands behind that token, and the tokens in front of it could have gone on. -/
inductive Outcome (faultless : Prop) (tokens : List Token) : Prop
  | reads (program : Program)
      (run : ∀ cursor : Cursor, cursor.pending = tokens.map .ok → ∃ last,
        Reading cursor tokens program last)
  | ends (last : Token) (isLast : tokens.getLast? = some last)
      (canEnd : CanEnd (tokens.map Token.requoted) File)
      (yields : Yields tokens
        (.error (Cause.unexpectedEndOfFile.located last.location.missingAfter)))
  | refuses (front : List Token) (token : Token) (left : List Token) (error : Error)
      (split : tokens = front ++ token :: left) (blames : error.Blames front token)
      (canEnd : CanEnd (front.map Token.requoted) File)
      (yields : ∀ behind : List Token, Yields (front ++ token :: behind) (.error error))
      (leading : error.Leading front token)
  | faults (fault : Fault) (allowed : ¬ faultless) (yields : Yields tokens (.fault fault))

/-- Statements that could follow each other make a file that could end. -/
theorem canEnd_file_of_statement
    (h : CanEnd front fun taken (group : Parse.Group) => Statement taken group.toList) :
    CanEnd front File := by
  intro line
  obtain ⟨more, group, hmore, hgroup⟩ := h line
  have hfile : File (front ++ more ++ []) (group.toList ++ []) := .cons hgroup .nil
  rw [append_nil] at hfile
  exact ⟨more, _, hmore, hfile⟩

theorem canEnd_file_append {group : List Stmt} (hgroup : Statement taken group)
    (h : CanEnd front File) :
    CanEnd (taken ++ front) File := by
  intro line
  obtain ⟨more, program, hmore, hfile⟩ := h line
  refine ⟨more, group ++ program, hmore, ?_⟩
  rw [append_assoc]
  exact .cons hgroup hfile

/-- Behind a statement, a file ends as what is left of it does. -/
theorem Outcome.after (hgroup : Statement (taken.map Token.requoted) group.toList)
    (hread : ∀ behind, behind.head? = left.head? → Steps (taken ++ behind) read (some group) behind)
    (h : Outcome faultless left) : Outcome faultless (taken ++ left) := by
  cases h with
  | reads program run =>
    refine .reads (group.toList ++ program) fun cursor hpending => ?_
    obtain ⟨after, haction, hafter⟩ := hread left rfl cursor hpending
    exact (run after hafter).imp fun last hbehind => .cons hpending hgroup haction hbehind
  | ends last isLast canEnd yields =>
    refine .ends last ?_ ?_ (yields.after hgroup (hread left rfl))
    · rw [getLast?_append, isLast, Option.some_or]
    · rw [map_append]
      exact canEnd_file_append hgroup canEnd
  | refuses front token left error split blames canEnd yields leading =>
    subst split
    refine .refuses (taken ++ front) token left error (append_assoc _ _ _).symm
      (blames.append taken) ?_ (fun behind => ?_) (leading.append taken)
    · rw [map_append]
      exact canEnd_file_append hgroup canEnd
    · rw [append_assoc]
      exact (yields behind).after hgroup (hread _ (Parse.head?_append_of_eq rfl))
  | faults fault allowed yields =>
    exact .faults fault allowed (yields.after hgroup (hread left rfl))

theorem outcome (h : Trusted faultless tokens) : Outcome faultless tokens := by
  -- what is left behind a statement is shorter
  induction hlength : tokens.length using Nat.strong_induction_on generalizing tokens with
  | _ length ih =>
    by_cases hnil : tokens = []
    · subst hnil
      exact .reads [] fun cursor hpending => ⟨cursor, .nil hpending⟩
    cases Parse.verdict_statement h with
    | takes taken left group split fits run =>
      subst split
      obtain ⟨_, _, hstart, -⟩ := Statement.start fits
      obtain ⟨first, rest, rfl, -⟩ := map_eq_cons_iff.mp hstart
      have hshorter : left.length < length := by
        rw [← hlength, length_append, length_cons]
        omega
      refine (ih left.length hshorter h.of_append rfl).after fits fun behind hbehind => ?_
      exact steps_read (cons_ne_nil _ _) (run behind hbehind)
    | exhausts run canEnd =>
      have hlast := getLast?_eq_some_getLast hnil
      exact .ends _ hlast (canEnd_file_of_statement canEnd)
        (yields_of_fails hnil (fails_read_of_ends run hlast))
    | refuses front token left error split blames run canEnd leading =>
      refine .refuses front token left error split blames (canEnd_file_of_statement canEnd)
        (fun behind => ?_) leading
      have hne : front ++ token :: behind ≠ [] := by simp
      refine yields_of_fails hne (fails_read hne (run behind) ?_)
      rintro _ ⟨⟩
      exact blames.isEndOfFile_eq_false
    | faults fault allowed run =>
      exact .faults fault allowed (yields_of_fails hnil (fails_read hnil run (by simp)))

/-- No result is a fault. -/
theorem ne_fault_of_mem_take (h : LexedTokens tokens) (hpending : cursor.pending = tokens.map .ok)
    (hcount : tokens.length ≤ count) (fault : Fault) :
    Except.error (.fault fault) ∉ take count { cursor } := by
  cases outcome (show Trusted True tokens from fun _ => h) with
  | reads program run =>
    obtain ⟨last, hreading⟩ := run cursor hpending
    simp [hreading.take_eq hcount]
  | ends last isLast canEnd yields =>
    obtain ⟨stmts, hstmts⟩ := yields cursor count hpending hcount
    simp [hstmts]
  | refuses front token left error split blames canEnd yields =>
    obtain ⟨stmts, hstmts⟩ := yields left cursor count (split ▸ hpending) (split ▸ hcount)
    simp [hstmts]
  | faults fault allowed => exact absurd trivial allowed

/-- A file is yielded, statement by statement. -/
theorem take_eq_of_file (h : File tokens program) (hpending : cursor.pending = tokens.map .ok)
    (hlexed : LexedTokens tokens) (hcount : tokens.length ≤ count) :
    take count { cursor } = program.map .ok := by
  induction h generalizing cursor count with
  | nil =>
    obtain ⟨after, haction, -⟩ := steps_read_nil cursor hpending
    exact take_of_read_none haction count
  | @cons tokens rest group stmts hgroup hsequence ih =>
    rw [length_append] at hcount
    obtain ⟨found, rfl, hfound⟩ := Parse.steps_statement hgroup hlexed
    obtain ⟨after, haction, hafter⟩ :=
      steps_read (append_ne_nil_of_statement hgroup) hfound cursor hpending
    have hlength := length_le_of_statement hgroup
    obtain ⟨fewer, rfl⟩ : ∃ n, count = found.toList.length + n :=
      ⟨count - found.toList.length, by omega⟩
    have hmore := ih hafter hlexed.of_append (show rest.length ≤ fewer by omega)
    rw [take_of_read_some haction, hmore, map_append]

theorem results_ofItems (items : List Item) :
    (ofItems items).results = take items.length { cursor := .ofItems items } := by
  simp [results, ofItems, Cursor.size, Cursor.ofItems]

end Statements

/-! ### Programs and expressions -/

/-- Results are all values, or the first error among them is what is left of them. -/
theorem mapM_id_cases (results : List (Except ε α)) :
    (∃ values : List α, results = values.map .ok ∧ results.mapM id = .ok values) ∨
      ∃ error, Except.error error ∈ results ∧ results.mapM id = .error error := by
  induction results with
  | nil => exact .inl ⟨[], rfl, rfl⟩
  | cons result results ih =>
    rw [mapM_cons]
    cases result with
    | error error => exact .inr ⟨error, mem_cons_self, rfl⟩
    | ok value =>
      change (∃ values : List α, _ ∧ (do pure (value :: (← results.mapM id))) = _) ∨
        ∃ error, _ ∧ (do pure (value :: (← results.mapM id))) = _
      rcases ih with ⟨values, rfl, heq⟩ | ⟨error, hmem, heq⟩
      · rw [heq]
        exact .inl ⟨value :: values, rfl, rfl⟩
      · rw [heq]
        exact .inr ⟨error, mem_cons_of_mem _ hmem, rfl⟩

theorem mapM_id_eq_ok {results : List (Except ε α)} {values : List α}
    (h : results.mapM id = .ok values) :
    results = values.map .ok := by
  rcases mapM_id_cases results with ⟨others, heq, hok⟩ | ⟨error, -, herror⟩
  · obtain rfl : values = others := Except.ok.inj (h.symm.trans hok)
    exact heq
  · rw [h] at herror
    cases herror

theorem mapM_id_map_ok (values : List α) :
    (values.map (Except.ok : α → Except ε α)).mapM id = .ok values := by
  rcases mapM_id_cases (values.map (Except.ok : α → Except ε α)) with ⟨others, heq, hok⟩
    | ⟨error, hmem, -⟩
  · obtain rfl : values = others := (map_inj_right fun _ _ h => Except.ok.inj h).mp heq
    exact hok
  · simp at hmem

theorem mapM_id_of_error (values : List α) (error : ε) :
    (values.map Except.ok ++ [Except.error error]).mapM id = .error error := by
  induction values with
  | nil => rfl
  | cons value values ih =>
    rw [map_cons, cons_append, mapM_cons, ih]
    rfl

theorem Statements.Yields.parse_eq {stop : Stop} (h : Statements.Yields tokens stop) :
    parse (tokens.map .ok) = .error stop := by
  obtain ⟨stmts, hstmts⟩ := h (.ofItems (tokens.map .ok)) tokens.length rfl (Nat.le_refl _)
  rw [parse, Statements.results_ofItems, length_map, hstmts, mapM_id_of_error]

theorem Statements.Reading.parse_eq {last : Cursor}
    (h : Reading (.ofItems (tokens.map .ok)) tokens program last) :
    parse (tokens.map .ok) = .ok program := by
  rw [parse, results_ofItems, length_map, h.take_eq (Nat.le_refl _), mapM_id_map_ok]

/-- A program that is read from some tokens, whether a text gives them or not. -/
theorem Statements.reading_of_parse (h : parse (tokens.map .ok) = .ok program) :
    ∃ last, Reading (.ofItems (tokens.map .ok)) tokens program last := by
  have hfailed {stop : Stop} (hyields : Yields tokens stop) :
      ∃ last, Reading (.ofItems (tokens.map .ok)) tokens program last := by
    rw [hyields.parse_eq] at h
    cases h
  cases outcome (show Parse.Trusted False tokens from False.elim) with
  | reads found run =>
    obtain ⟨last, hreading⟩ := run (.ofItems (tokens.map .ok)) rfl
    obtain rfl : program = found := Except.ok.inj (h.symm.trans hreading.parse_eq)
    exact ⟨last, hreading⟩
  | ends last isLast canEnd yields => exact hfailed yields
  | refuses front token left error split blames canEnd yields => exact hfailed (split ▸ yields left)
  | faults fault allowed yields => exact hfailed yields

/-- **Tokens are read as a program exactly if the grammar derives it from them.** -/
theorem parse_eq_ok_iff (h : Lexed (tokens.map .ok)) (program : Program) :
    parse (tokens.map .ok) = .ok program ↔ File tokens program := by
  constructor
  · intro hparse
    obtain ⟨last, hreading⟩ := Statements.reading_of_parse hparse
    exact Parse.LexedTokens.map_requoted h ▸ hreading.file
  · intro hfile
    rw [parse, Statements.results_ofItems, length_map,
      Statements.take_eq_of_file hfile rfl h (Nat.le_refl _)]
    exact mapM_id_map_ok program

namespace Parse

variable {tokens : List Token} {value : Expr}

/-- An expression with nothing behind it. -/
def loneExpression : Parse Expr := do
  let expression ← relocating expression
  unless ← atEnd do
    let extra ← pop
    fail ((Cause.expectedValue ";").located extra.location)
  return expression

theorem expression_of_loneExpression (h : LexedTokens tokens) {cursor after : Cursor}
    (hpending : cursor.pending = tokens.map .ok) (hrun : loneExpression cursor = .ok value after) :
    Expression tokens value := by
  obtain ⟨found, middle, hfound, hrest⟩ := ok_of_bind hrun
  have hexpression := ok_of_relocating hfound
  have hfailed {stop : Stop} (hfails : ∃ after, expression cursor = .error stop after) :
      Expression tokens value := by
    obtain ⟨after, hafter⟩ := hfails
    rw [hexpression] at hafter
    cases hafter
  cases verdict_expression (show Trusted True tokens from fun _ => h) with
  | takes taken left a split fits run =>
    subst split
    obtain ⟨_, hsame, hleft⟩ := run left rfl cursor hpending
    rw [hexpression] at hsame
    cases hsame
    obtain ⟨ended, rest, hend, hlast⟩ := ok_of_bind hrest
    cases left with
    | cons =>
      -- what is behind the expression is refused
      obtain ⟨_, hmore, -⟩ := steps_atEnd middle hleft
      rw [hmore] at hend
      cases hend
      obtain ⟨_, _, -, hfail⟩ := ok_of_bind hlast
      cases hfail
    | nil =>
      obtain ⟨_, hnone, -⟩ := steps_atEnd_nil middle hleft
      rw [hnone] at hend
      cases hend
      cases hlast
      rw [append_nil] at h ⊢
      rwa [h.map_requoted] at fits
  | exhausts run => exact hfailed ((run cursor hpending).imp fun _ h => h.1)
  | refuses front token left error split blames run =>
    exact hfailed (run left cursor (split ▸ hpending))
  | faults fault allowed => exact absurd trivial allowed

theorem steps_loneExpression (h : Expression tokens value) (hlexed : LexedTokens tokens) :
    Steps tokens loneExpression value [] := by
  rw [← append_nil tokens] at hlexed ⊢
  exact (steps_expression h hlexed .nil).relocating.bind (steps_atEnd_nil.bind (.pure value))

end Parse

/-- Tokens are read as a lone expression exactly if the grammar derives it from all of them. -/
theorem parseExpression_eq_ok_iff (h : Lexed (tokens.map .ok)) (value : Expr) :
    parseExpression (tokens.map .ok) = .ok value ↔ Expression tokens value := by
  rw [parseExpression]
  constructor
  · intro hparse
    split at hparse
    · next found after haction =>
      obtain rfl := Except.ok.inj hparse
      exact Parse.expression_of_loneExpression h rfl haction
    · cases hparse
  · intro hvalue
    obtain ⟨after, haction, -⟩ :=
      Parse.steps_loneExpression hvalue h (.ofItems (tokens.map .ok)) rfl
    rw [Parse.loneExpression] at haction
    simp only [haction]

/-- **The grammar is what is accepted, and its trees are what is built.** Tokens are read as a
program, or as a lone expression, exactly if the grammar derives it from them, with every tree at
the place that its tokens give it; and it derives at most one. -/
theorem parse_exact {tokens : List Token} (h : Lexed (tokens.map .ok)) :
    (∀ program, parse (tokens.map .ok) = .ok program ↔ File tokens program) ∧
    (∀ program other, File tokens program → File tokens other → program = other) ∧
    (∀ value, parseExpression (tokens.map .ok) = .ok value ↔ Expression tokens value) := by
  refine ⟨parse_eq_ok_iff h, ?_, parseExpression_eq_ok_iff h⟩
  intro program other hprogram hother
  have hparse := (parse_eq_ok_iff h program).mpr hprogram
  rw [(parse_eq_ok_iff h other).mpr hother] at hparse
  exact (Except.ok.inj hparse).symm

/-- The tokens of a declaration with a value, over two lines: a call of the result of a call, with a
comma behind the last argument. -/
def initialisedCall : List Token :=
  [⟨.name, "Int", ⟨1, 0, some 3⟩⟩, ⟨.name, "x", ⟨1, 4, some 5⟩⟩, ⟨.operator, "=", ⟨1, 6, some 7⟩⟩,
    ⟨.name, "f", ⟨2, 4, some 5⟩⟩, ⟨.operator, "(", ⟨2, 5, some 6⟩⟩,
    ⟨.string, "\"a\"", ⟨2, 6, some 9⟩⟩, ⟨.operator, ",", ⟨2, 9, some 10⟩⟩,
    ⟨.operator, ")", ⟨2, 10, some 11⟩⟩, ⟨.operator, "(", ⟨2, 11, some 12⟩⟩,
    ⟨.operator, ")", ⟨2, 12, some 13⟩⟩, ⟨.operator, ";", ⟨2, 13, some 14⟩⟩]

theorem lexed_initialisedCall : Lexed (initialisedCall.map .ok) where
  ordered := by simp [initialisedCall]
  quoted := by
    intro token htoken hkind
    simp only [initialisedCall, map_cons, map_nil, mem_cons, not_mem_nil, or_false,
      Except.ok.injEq] at htoken
    rcases htoken with rfl | rfl | rfl | rfl | rfl | rfl | rfl | rfl | rfl | rfl | rfl
    all_goals first | exact absurd hkind (by decide) | exact ⟨['a'], by decide⟩
  genuine := by simp [initialisedCall]

theorem parse_exact_initialisedCall :
    Lexed (initialisedCall.map .ok) ∧
      parse (initialisedCall.map .ok) = .ok
        [.declaration ⟨"Int", ⟨1, 0, some 3⟩⟩ "x" ⟨1, 0, some 5⟩,
          .assignment ⟨"x", ⟨1, 4, some 5⟩⟩
            (.call (.call (.name ⟨"f", ⟨2, 4, some 5⟩⟩) [.string "a" ⟨2, 6, some 9⟩]
              ⟨2, 4, some 11⟩) [] ⟨2, 4, some 13⟩)
            ⟨1, 4, none⟩] := by
  refine ⟨lexed_initialisedCall, ((parse_exact lexed_initialisedCall).1 _).mpr ?_⟩
  have hargument : Expression [⟨.string, "\"a\"", ⟨2, 6, some 9⟩⟩] (.string "a" ⟨2, 6, some 9⟩) :=
    .mk (.string rfl (show _ = '"' :: (['a'] ++ ['"']) by decide)) .nil
  have hlisted : Listed Expression
      [⟨.operator, "(", ⟨2, 5, some 6⟩⟩, ⟨.string, "\"a\"", ⟨2, 6, some 9⟩⟩,
        ⟨.operator, ",", ⟨2, 9, some 10⟩⟩, ⟨.operator, ")", ⟨2, 10, some 11⟩⟩]
      [.string "a" ⟨2, 6, some 9⟩] ⟨.operator, ")", ⟨2, 10, some 11⟩⟩ :=
    .elements (by decide) (.lastComma hargument (by decide) (by decide))
  have hempty : Listed Expression
      [⟨.operator, "(", ⟨2, 11, some 12⟩⟩, ⟨.operator, ")", ⟨2, 12, some 13⟩⟩] []
      ⟨.operator, ")", ⟨2, 12, some 13⟩⟩ :=
    .empty (by decide) (by decide)
  have hvalue :=
    Expression.mk (.name (show IsName ⟨.name, "f", ⟨2, 4, some 5⟩⟩ _ from ⟨rfl, by decide, rfl⟩))
      (.cons hlisted (.cons hempty .nil))
  have hstatement : Statement initialisedCall _ :=
    .initialised (show IsName ⟨.name, "Int", ⟨1, 0, some 3⟩⟩ _ from ⟨rfl, by decide, rfl⟩)
      (show IsName ⟨.name, "x", ⟨1, 4, some 5⟩⟩ _ from ⟨rfl, by decide, rfl⟩)
      (show Token.isOperator ⟨.operator, "=", ⟨1, 6, some 7⟩⟩ "=" = true by decide) hvalue
      (show Token.isOperator ⟨.operator, ";", ⟨2, 13, some 14⟩⟩ ";" = true by decide)
  exact .cons hstatement .nil

end FrontEnd
