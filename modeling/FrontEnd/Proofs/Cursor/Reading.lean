import FrontEnd.Cursor

/-!
# Reading tokens

What actions on a cursor do, said by the tokens that are left and not by the cursor: how many of
them have been looked at does not matter (`Cursor.pending`).

`Steps tokens action a left` says that an action succeeds with a result and what it leaves, `Fails
tokens action stop` that it is stopped, and `Ends tokens action` that it takes all tokens and would
need more. They are put together along the steps of an action, by a rule for `bind` and a rule for
each action on cursors.
-/

namespace FrontEnd

namespace Cursor

/-- The items that have not been taken. -/
def pending (cursor : Cursor) : List Item :=
  cursor.ahead.map .ok ++ cursor.rest

@[simp] theorem pending_ofItems (items : List Item) : (ofItems items).pending = items := rfl

/-- A cursor has looked at the next token or not; and if not, there is a token to come, or an error,
or the end. -/
theorem nextCases {motive : Cursor → Prop}
    (looked : ∀ token ahead rest last, motive ⟨token :: ahead, rest, last⟩)
    (unread : ∀ token rest last, motive ⟨[], .ok token :: rest, last⟩)
    (failed : ∀ error rest last, motive ⟨[], .error error :: rest, last⟩)
    (ended : ∀ last, motive ⟨[], [], last⟩) (cursor : Cursor) : motive cursor := by
  obtain ⟨ahead, rest, last⟩ := cursor
  cases ahead with
  | cons token ahead => exact looked token ahead rest last
  | nil =>
    cases rest with
    | nil => exact ended last
    | cons item rest =>
      cases item with
      | ok token => exact unread token rest last
      | error error => exact failed error rest last

end Cursor

namespace Parse

variable {α β : Type} {tokens left : List Token} {token : Token} {action : Parse α}
  {next : α → Parse β} {cursor after : Cursor} {a : α} {first last : Location} {kind : Token.Kind}
  {value : String}

/-- An action succeeds in front of some tokens, and what it leaves of them. -/
def Steps (tokens : List Token) (action : Parse α) (a : α) (left : List Token) : Prop :=
  ∀ cursor : Cursor, cursor.pending = tokens.map .ok →
    ∃ after : Cursor, action cursor = .ok a after ∧ after.pending = left.map .ok

/-- An action takes tokens off the front, and goes on as another one. -/
def Leads (tokens : List Token) (action rest : Parse α) (left : List Token) : Prop :=
  ∀ cursor : Cursor, cursor.pending = tokens.map .ok →
    ∃ after : Cursor, action cursor = rest after ∧ after.pending = left.map .ok

/-- An action is stopped in front of some tokens. -/
def Fails (tokens : List Token) (action : Parse α) (stop : Stop) : Prop :=
  ∀ cursor : Cursor, cursor.pending = tokens.map .ok → ∃ after, action cursor = .error stop after

/-- An action takes all tokens and would need more. -/
def Ends (tokens : List Token) (action : Parse α) : Prop :=
  ∀ cursor : Cursor, cursor.pending = tokens.map .ok →
    ∃ after : Cursor, action cursor = .error (.error Cause.unexpectedEndOfFile.unlocated) after ∧
    after.pending = []

theorem bind_of_ok (h : action cursor = .ok a after) : (action >>= next) cursor = next a after := by
  simp only [Bind.bind, EStateM.bind, h]

theorem bind_of_error {stop : Stop} (h : action cursor = .error stop after) :
    (action >>= next) cursor = .error stop after := by
  simp only [Bind.bind, EStateM.bind, h]

/-- The two parts of a success. -/
theorem ok_of_bind {last : Cursor} {b : β} (h : (action >>= next) cursor = .ok b last) :
    ∃ a after, action cursor = .ok a after ∧ next a after = .ok b last := by
  cases haction : action cursor with
  | ok a after => exact ⟨a, after, rfl, (bind_of_ok haction).symm.trans h⟩
  | error =>
    rw [bind_of_error haction] at h
    cases h

/-- Only errors are moved. -/
theorem ok_of_relocating (h : relocating action cursor = .ok a after) :
    action cursor = .ok a after := by
  unfold relocating at h
  split at h
  · cases h
  · exact h

/-! ### One action after the other -/

section Rules

variable {action rest : Parse α} {a : α} {next : α → Parse β} {b : β}
  {middle : List Token} {stop : Stop}

protected theorem Steps.pure (a : α) : Steps tokens (pure a) a tokens :=
  fun cursor h => ⟨cursor, rfl, h⟩

theorem Steps.leads (h : Steps tokens action a left) :
    Leads tokens (action >>= next) (next a) left := by
  intro cursor hcursor
  obtain ⟨after, haction, hafter⟩ := h cursor hcursor
  exact ⟨after, bind_of_ok haction, hafter⟩

section

variable (h : Leads tokens action rest middle)
include h

theorem Leads.trans {last : Parse α} (h' : Leads middle rest last left) :
    Leads tokens action last left := by
  intro cursor hcursor
  obtain ⟨between, haction, hbetween⟩ := h cursor hcursor
  obtain ⟨after, hrest, hafter⟩ := h' between hbetween
  exact ⟨after, haction.trans hrest, hafter⟩

theorem Leads.steps (hrest : Steps middle rest a left) : Steps tokens action a left := by
  intro cursor hcursor
  obtain ⟨between, haction, hbetween⟩ := h cursor hcursor
  obtain ⟨after, hafter, hleft⟩ := hrest between hbetween
  exact ⟨after, haction.trans hafter, hleft⟩

theorem Leads.fails (hrest : Fails middle rest stop) : Fails tokens action stop := by
  intro cursor hcursor
  obtain ⟨between, haction, hbetween⟩ := h cursor hcursor
  obtain ⟨after, hafter⟩ := hrest between hbetween
  exact ⟨after, haction.trans hafter⟩

theorem Leads.ends (hrest : Ends middle rest) : Ends tokens action := by
  intro cursor hcursor
  obtain ⟨between, haction, hbetween⟩ := h cursor hcursor
  obtain ⟨after, hafter, hnone⟩ := hrest between hbetween
  exact ⟨after, haction.trans hafter, hnone⟩

end

protected theorem Steps.bind (h : Steps tokens action a middle)
    (hnext : Steps middle (next a) b left) :
    Steps tokens (action >>= next) b left :=
  h.leads.steps hnext

protected theorem Fails.bind (h : Fails tokens action stop) :
    Fails tokens (action >>= next) stop := by
  intro cursor hcursor
  obtain ⟨after, haction⟩ := h cursor hcursor
  exact ⟨after, bind_of_error haction⟩

protected theorem Ends.bind (h : Ends tokens action) : Ends tokens (action >>= next) := by
  intro cursor hcursor
  obtain ⟨after, haction, hafter⟩ := h cursor hcursor
  exact ⟨after, bind_of_error haction, hafter⟩

theorem Steps.unlessEnded (ended : α) (h : Steps tokens action a left) :
    Steps tokens (unlessEnded ended action) a left := by
  intro cursor hcursor
  obtain ⟨after, haction, hafter⟩ := h cursor hcursor
  refine ⟨after, ?_, hafter⟩
  rw [Parse.unlessEnded, haction]

theorem Ends.unlessEnded (ended : α) (h : Ends tokens action) :
    Steps tokens (unlessEnded ended action) ended [] := by
  intro cursor hcursor
  obtain ⟨after, haction, hafter⟩ := h cursor hcursor
  refine ⟨after, ?_, hafter⟩
  rw [Parse.unlessEnded, haction]
  rfl

theorem Steps.relocating (h : Steps tokens action a left) :
    Steps tokens (relocating action) a left := by
  intro cursor hcursor
  obtain ⟨after, haction, hafter⟩ := h cursor hcursor
  refine ⟨after, ?_, hafter⟩
  rw [Parse.relocating, haction]

/-- An error at a token is not moved. -/
theorem Fails.relocating (h : Fails tokens action stop)
    (hgenuine : ∀ error, stop = .error error → error.isEndOfFile = false) :
    Fails tokens (relocating action) stop := by
  intro cursor hcursor
  obtain ⟨after, haction⟩ := h cursor hcursor
  refine ⟨after, ?_⟩
  rw [Parse.relocating, haction]
  cases stop with
  | fault => rfl
  | error error =>
    simp only [Cursor.relocate, hgenuine error rfl, Bool.false_eq_true, if_false]
    rfl

end Rules

/-! ### Looking and taking -/

theorem steps_span (h : first.line ≤ last.line) :
    Steps tokens (span first last) (first.span last) tokens := by
  intro cursor hcursor
  refine ⟨cursor, ?_, hcursor⟩
  rw [span, Location.between?_eq_some_iff.mpr ⟨h, rfl⟩]
  rfl

theorem fails_span (h : ¬ first.line ≤ last.line) :
    Fails tokens (span first last) (.fault .backwardSpan) := by
  have hnone : first.between? last = none :=
    Option.eq_none_iff_forall_ne_some.mpr fun location hsome =>
      h (Location.between?_eq_some_iff.mp hsome).1
  rw [span, hnone]
  exact fun cursor _ => ⟨cursor, rfl⟩

/-- Nothing is pulled if enough has been looked at. -/
theorem fill_of_le {count : Nat} (h : count ≤ cursor.ahead.length) :
    fill count cursor = .ok () cursor := by
  change pullMany (count - cursor.ahead.length) cursor = _
  rw [Nat.sub_eq_zero_of_le h]
  rfl

/-- The token behind the next one, if there is one. -/
abbrev second : Parse (Option Token) :=
  unlessEnded none (some <$> comingUp 2)

section Looked

variable {ahead : List Token} {rest : List Item} {last : Option Token}

theorem comingUp_of_ahead :
    comingUp 1 ⟨token :: ahead, rest, last⟩ = .ok token ⟨token :: ahead, rest, last⟩ :=
  bind_of_ok (fill_of_le (Nat.le_add_left _ _))

theorem pop_of_ahead : pop ⟨token :: ahead, rest, last⟩ = .ok token ⟨ahead, rest, some token⟩ :=
  bind_of_ok (fill_of_le (Nat.le_add_left _ _))

theorem peek_of_ahead (ended : α) (seen : Token → α) :
    unlessEnded ended (do return seen (← comingUp 1)) ⟨token :: ahead, rest, last⟩ =
      .ok (seen token) ⟨token :: ahead, rest, last⟩ := by
  rw [unlessEnded, bind_of_ok comingUp_of_ahead]
  rfl

theorem second_of_ahead {other : Token} :
    second ⟨token :: other :: ahead, rest, last⟩ =
      .ok (some other) ⟨token :: other :: ahead, rest, last⟩ := by
  have hlook : comingUp 2 ⟨token :: other :: ahead, rest, last⟩ =
      .ok other ⟨token :: other :: ahead, rest, last⟩ :=
    bind_of_ok (fill_of_le (Nat.le_add_left _ _))
  rw [second, unlessEnded, map_eq_pure_bind, bind_of_ok hlook]
  rfl

end Looked

theorem steps_comingUp : Steps (token :: left) (comingUp 1) token (token :: left) := by
  intro cursor hcursor
  induction cursor using Cursor.nextCases with
  | looked =>
    obtain rfl := Except.ok.inj (List.cons.inj hcursor).1
    exact ⟨_, comingUp_of_ahead, hcursor⟩
  | unread =>
    cases hcursor
    exact ⟨_, rfl, rfl⟩
  | failed | ended => cases hcursor

theorem steps_pop : Steps (token :: left) pop token left := by
  intro cursor hcursor
  induction cursor using Cursor.nextCases with
  | looked =>
    obtain ⟨hfirst, hleft⟩ := List.cons.inj hcursor
    obtain rfl := Except.ok.inj hfirst
    exact ⟨_, pop_of_ahead, hleft⟩
  | unread =>
    cases hcursor
    exact ⟨_, rfl, rfl⟩
  | failed | ended => cases hcursor

theorem ends_comingUp : Ends [] (comingUp 1) := by
  intro cursor hcursor
  induction cursor using Cursor.nextCases with
  | looked | unread | failed => cases hcursor
  | ended => exact ⟨_, rfl, rfl⟩

theorem steps_second : Steps (token :: left) second left.head? (token :: left) := by
  rintro ⟨ahead, rest, last⟩ hcursor
  cases ahead with
  | nil =>
    obtain rfl : rest = .ok token :: left.map .ok := hcursor
    cases left <;> exact ⟨_, rfl, rfl⟩
  | cons first ahead =>
    obtain ⟨hfirst, hrest⟩ := List.cons.inj hcursor
    obtain rfl := Except.ok.inj hfirst
    cases ahead with
    | nil =>
      obtain rfl : rest = left.map .ok := hrest
      cases left <;> exact ⟨_, rfl, rfl⟩
    | cons =>
      cases left with
      | nil => cases hrest
      | cons =>
        obtain rfl := Except.ok.inj (List.cons.inj hrest).1
        exact ⟨_, second_of_ahead, hcursor⟩

theorem steps_nextIs :
    Steps (token :: left) (nextIs kind value) (token.is kind value) (token :: left) :=
  .unlessEnded _ (steps_comingUp.bind (.pure _))

theorem steps_nextIs_nil : Steps [] (nextIs kind value) false [] :=
  ends_comingUp.bind.unlessEnded _

theorem steps_atEnd : Steps (token :: left) atEnd false (token :: left) :=
  .unlessEnded _ (steps_comingUp.bind (.pure _))

theorem steps_atEnd_nil : Steps [] atEnd true [] :=
  ends_comingUp.bind.unlessEnded _

/-! ### Tokens that have to be there -/

theorem steps_expect {value : Option String} (hkind : token.kind = kind)
    (hvalue : ∀ text ∈ value, token.value = text) :
    Steps (token :: left) (expect kind value) token left := by
  refine steps_comingUp.bind ?_
  cases value with
  | none =>
    dsimp only
    rw [if_neg (not_not_intro hkind)]
    exact steps_pop
  | some text =>
    dsimp only
    rw [if_neg (not_not_intro (hvalue text rfl)), if_neg (not_not_intro hkind)]
    exact steps_pop

theorem steps_expectOperator (h : token.isOperator value = true) :
    Steps (token :: left) (expectOperator value) token left := by
  obtain ⟨hkind, hvalue⟩ := Token.is_eq_true_iff.mp h
  exact steps_expect hkind fun text htext => by rw [hvalue, Option.some.inj htext]

theorem steps_expectWord (h : token.is .name value = true) :
    Steps (token :: left) (expectWord value) token left := by
  obtain ⟨hkind, hvalue⟩ := Token.is_eq_true_iff.mp h
  exact steps_expect hkind fun text htext => by rw [hvalue, Option.some.inj htext]

theorem fails_expect_value {text : String} (h : token.value ≠ text) :
    Fails (token :: left) (expect kind (some text))
      (.error ((Cause.expectedValue text).located token.location)) := by
  refine steps_comingUp.leads.fails fun cursor _ => ⟨cursor, ?_⟩
  dsimp only
  rw [if_pos h]
  rfl

theorem fails_expect_kind {value : Option String} (hkind : token.kind ≠ kind)
    (hvalue : ∀ text ∈ value, token.value = text) : Fails (token :: left) (expect kind value)
      (.error ((Cause.expectedKind (Text.withArticle kind.noun)).located token.location)) := by
  refine steps_comingUp.leads.fails fun cursor _ => ⟨cursor, ?_⟩
  cases value with
  | none =>
    dsimp only
    rw [if_pos hkind]
    rfl
  | some text =>
    dsimp only
    rw [if_neg (not_not_intro (hvalue text rfl)), if_pos hkind]
    rfl

end Parse

end FrontEnd
