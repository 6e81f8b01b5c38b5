import FrontEnd.Proofs.Cursor.Reading

/-!
# Actions made of looking and taking

Everything that reads a tree is put together from a few actions on a cursor: looking at the next
token or two, taking the next one, and counting what is left to bound a loop (`Composed`). Some
things hold of whatever is made like this, and need not be shown of one reader after the other.

* No item is put back, and a success takes a number of tokens that can be told in advance
  (`Uniform.consumes`).
* No action asks which token was taken last, so that it makes no difference which one it is
  (`Uniform.oblivious`).
* An action that succeeds would have done the same with more items at the end of the stream, and
  none of those would have been pulled; unless nothing is left behind it, for then it may have seen
  the end (`Uniform.continues`).
-/

namespace FrontEnd

namespace Cursor

/-- The cursor in a stream where a token may have been taken before. -/
def behind (earlier : Option Token) (cursor : Cursor) : Cursor :=
  { cursor with last := cursor.last.or earlier }

@[simp] theorem behind_none (cursor : Cursor) : cursor.behind none = cursor := by
  rw [behind, Option.or_none]

/-- The cursor with more items at the end of its stream. -/
def followed (cursor : Cursor) (more : List Item) : Cursor :=
  { cursor with rest := cursor.rest ++ more }

theorem size_followed (cursor : Cursor) (more : List Item) :
    (cursor.followed more).size = cursor.size + more.length := by
  simp only [size, followed, List.length_append, Nat.add_assoc]

/-- The tokens that have not been taken. -/
def tokens (cursor : Cursor) : List Token :=
  cursor.pending.filterMap Except.toOption

theorem tokens_of_pending {cursor : Cursor} {tokens : List Token}
    (h : cursor.pending = tokens.map .ok) :
    cursor.tokens = tokens := by
  rw [Cursor.tokens, h, List.filterMap_map]
  exact List.filterMap_some

/-- Some tokens lie between two cursors. The last one of them is the one taken last. -/
def Leaves (cursor after : Cursor) : Prop :=
  ∃ taken, cursor.tokens = taken ++ after.tokens ∧ after.last = taken.getLast?.or cursor.last

namespace Leaves

variable {cursor middle after : Cursor}

/-- Looking takes nothing. -/
theorem of_eq (htokens : cursor.tokens = after.tokens) (hlast : after.last = cursor.last) :
    cursor.Leaves after :=
  ⟨[], htokens, hlast⟩

theorem trans (h : cursor.Leaves middle) (h' : middle.Leaves after) : cursor.Leaves after := by
  obtain ⟨taken, htokens, hlast⟩ := h
  obtain ⟨more, htokens', hlast'⟩ := h'
  refine ⟨taken ++ more, by rw [htokens, htokens', List.append_assoc], ?_⟩
  rw [hlast', hlast, List.getLast?_append, Option.or_assoc]

end Leaves

end Cursor

namespace Parse

variable {α β : Type} {least : Nat} {action : Parse α}

/-- Two actions do the same in front of at most `count` items. -/
def SameWithin (count : Nat) (action other : Parse α) : Prop :=
  ∀ cursor : Cursor, cursor.size ≤ count → action cursor = other cursor

/-- Actions that only look at tokens, take them and count them. One that succeeds takes at least
`least` tokens. A number of items is good for bounding a loop only, so that a greater bound would do
as well. -/
inductive Composed : {α : Type} → (least : Nat) → Parse α → Prop
  | pure {α : Type} (a : α) : Composed 0 (pure a)
  | throw {α : Type} {least : Nat} (stop : Stop) : Composed least (throw stop : Parse α)
  | mono {α : Type} {least more : Nat} {action : Parse α} (h : Composed more action)
      (hle : least ≤ more) :
      Composed least action
  | bind {α β : Type} {least more : Nat} {action : Parse α} {next : α → Parse β}
      (first : Composed least action) (rest : ∀ a, Composed more (next a)) :
      Composed (least + more) (action >>= next)
  | comingUp : Composed 0 (comingUp 1)
  | pop : Composed 1 pop
  | peek {α : Type} (ended : α) (seen : Token → α) :
      Composed 0 (unlessEnded ended do return seen (← Parse.comingUp 1))
  | second_bind {α : Type} {least : Nat} {next : Option Token → Parse α}
      (rest : ∀ other, Composed least (next other)) (alone : Composed 2 (next none)) :
      Composed least (second >>= next)
  | size_bind {α : Type} {least : Nat} {next : Nat → Parse α} (rest : ∀ n, Composed least (next n))
      (same : ∀ {count n : Nat}, count ≤ n → SameWithin count (next count) (next n)) :
      Composed least (size >>= next)

/-! ### Rules -/

namespace Composed

variable {least : Nat} {action : Parse α} {next : α → Parse β}

/-- Nothing is read behind a failure. -/
theorem throw_bind (stop : Stop) : Composed least ((MonadExcept.throw stop : Parse α) >>= next) :=
  .throw stop

/-- What stands in front of an action only takes more. -/
theorem after (h : Composed 0 action) (hnext : ∀ a, Composed least (next a)) :
    Composed least (action >>= next) :=
  (h.bind hnext).mono (Nat.le_add_left _ _)

/-- What stands behind an action only takes more. -/
theorem before (h : Composed least action) (hnext : ∀ a, Composed 0 (next a)) :
    Composed least (action >>= next) :=
  h.bind hnext

theorem some (h : Composed least action) : Composed 0 action :=
  h.mono (Nat.zero_le _)

protected theorem ite {condition : Prop} [Decidable condition] {yes no : Parse α}
    (hyes : Composed least yes) (hno : Composed least no) :
    Composed least (if condition then yes else no) := by
  split
  · exact hyes
  · exact hno

end Composed

theorem composed_span (first last : Location) : Composed 0 (span first last) := by
  unfold span
  cases first.between? last with
  | some location => exact .pure location
  | none => exact .throw _

/-- A place, and a result that has it. -/
theorem composed_spanned (first last : Location) (f : Location → α) :
    Composed 0 (do return f (← span first last)) :=
  (composed_span first last).before fun _ => .pure _

theorem composed_nextIs (kind : Token.Kind) (value : String) : Composed 0 (nextIs kind value) :=
  .peek false fun token => token.is kind value

theorem composed_expect (kind : Token.Kind) (value : Option String) :
    Composed 1 (expect kind value) := by
  refine Composed.comingUp.after fun token => ?_
  cases value with
  | none => exact .ite (.throw_bind _) .pop
  | some => exact .ite (.throw_bind _) (.ite (.throw_bind _) .pop)

/-! ### What all these actions have in common -/

/-- An outcome in a stream where a token may have been taken before. -/
def outcomeBehind (earlier : Option Token) :
    EStateM.Result Stop Cursor α → EStateM.Result Stop Cursor α
  | .ok a after => .ok a (after.behind earlier)
  | .error stop after => .error stop (after.behind earlier)

/-- Where an action ends. -/
def cursorOf : EStateM.Result Stop Cursor α → Cursor
  | .ok _ after => after
  | .error _ after => after

/-- What an action does at a cursor. It moves on over tokens, puts no item back, and takes `least`
of them if it succeeds. It does the same where another token was taken before. And it does the same
where more items follow, without pulling them, unless it has `ended`: what it gives and leaves shows
that it may have come to the end of the stream. -/
structure Uniform (least : Nat) (ended : α → Cursor → Prop) (action : Parse α)
    (cursor : Cursor) : Prop where
  leaves : cursor.Leaves (cursorOf (action cursor))
  size_le : ∀ {stop after}, action cursor = .error stop after → after.size ≤ cursor.size
  consumes : ∀ {a after}, action cursor = .ok a after → after.size + least ≤ cursor.size
  oblivious : ∀ earlier, action (cursor.behind earlier) = outcomeBehind earlier (action cursor)
  continues : ∀ {a after}, action cursor = .ok a after →
    (∀ more, action (cursor.followed more) = .ok a (after.followed more)) ∨ ended a after

namespace Uniform

variable {least more : Nat} {ended : α → Cursor → Prop} {ended' : β → Cursor → Prop}
  {action : Parse α} {next : α → Parse β} {cursor : Cursor}

theorem of_error (stop : Stop) (after : Cursor)
    (h : ∀ earlier, action (cursor.behind earlier) = .error stop (after.behind earlier))
    (hleaves : cursor.Leaves after) (hsize : after.size ≤ cursor.size) :
    Uniform least ended action cursor := by
  have hhere : action cursor = .error stop after := by simpa using h none
  refine ⟨by rwa [hhere], fun herror => ?_, fun hok => ?_, fun earlier => by
    rw [hhere]; exact h earlier, fun hok => ?_⟩
  · rw [hhere] at herror
    cases herror
    exact hsize
  all_goals
    rw [hhere] at hok
    cases hok

/-- An action that succeeds, and either looks nowhere near the end or has ended. -/
theorem of_ok (a : α) (after : Cursor)
    (h : ∀ earlier, action (cursor.behind earlier) = .ok a (after.behind earlier))
    (hleaves : cursor.Leaves after) (hsize : after.size + least ≤ cursor.size)
    (hend : (∀ more, action (cursor.followed more) = .ok a (after.followed more)) ∨ ended a after) :
    Uniform least ended action cursor := by
  have hhere : action cursor = .ok a after := by simpa using h none
  refine ⟨by rwa [hhere], fun herror => ?_, fun hok => ?_, fun earlier => by
    rw [hhere]; exact h earlier, fun hok => ?_⟩
  · rw [hhere] at herror
    cases herror
  all_goals
    rw [hhere] at hok
    cases hok
  · exact hsize
  · exact hend

/-- One action after the other. What the first one leaves at the end has to show behind the second
one. -/
protected theorem bind (h : Uniform least ended action cursor)
    (hnext : ∀ a after, Uniform more ended' (next a) after)
    (hended : ∀ {a after b last}, ended a after → next a after = .ok b last → ended' b last) :
    Uniform (least + more) ended' (action >>= next) cursor := by
  have hfirst := h.oblivious
  have hleaves := h.leaves
  cases haction : action cursor with
  | error stop after =>
    rw [haction] at hfirst hleaves
    exact of_error stop after (fun earlier => bind_of_error (hfirst earlier)) hleaves
      (h.size_le haction)
  | ok a after =>
    rw [haction] at hfirst hleaves
    have hleast := h.consumes haction
    have hrun : (action >>= next) cursor = next a after := bind_of_ok haction
    refine ⟨?_, fun herror => ?_, fun hok => ?_, fun earlier => ?_, fun hok => ?_⟩
    · rw [hrun]
      exact hleaves.trans (hnext a after).leaves
    · have hle := (hnext a after).size_le (hrun.symm.trans herror)
      omega
    · have hle := (hnext a after).consumes (hrun.symm.trans hok)
      omega
    · rw [bind_of_ok (hfirst earlier), hrun]
      exact (hnext a after).oblivious earlier
    · rw [hrun] at hok
      rcases h.continues haction with hsame | hend
      · refine ((hnext a after).continues hok).imp_left fun hmore more => ?_
        exact (bind_of_ok (hsame more)).trans (hmore more)
      · exact .inr (hended hend hok)

end Uniform

/-- An error of the stream is reported, unless it is the end of a file, which is an answer. -/
theorem uniform_failed {ended : α → Cursor → Prop} {cursor : Cursor} (a : α) (after : Cursor)
    (error : Error) (h : ∀ earlier, action (cursor.behind earlier) =
      if error.isEndOfFile then .ok a (after.behind earlier) else fail error (after.behind earlier))
    (hmore : ∀ more, action (cursor.followed more) =
      if error.isEndOfFile then .ok a (after.followed more) else fail error (after.followed more))
    (hleaves : cursor.Leaves after) (hsize : after.size + least ≤ cursor.size) :
    Uniform least ended action cursor := by
  cases hended : error.isEndOfFile with
  | true =>
    simp only [hended, if_true] at h hmore
    exact .of_ok a after h hleaves hsize (.inl hmore)
  | false =>
    simp only [hended, Bool.false_eq_true, if_false] at h
    exact .of_error _ after h hleaves (Nat.le_of_add_right_le hsize)

/-- Nothing is left. -/
def spent (_ : α) (after : Cursor) : Prop :=
  after.size = 0

theorem uniform_comingUp (cursor : Cursor) : Uniform 0 spent (comingUp 1) cursor := by
  induction cursor using Cursor.nextCases with
  | looked token ahead rest last =>
    exact .of_ok token ⟨token :: ahead, rest, last⟩ (fun _ => comingUp_of_ahead) (.of_eq rfl rfl)
      (Nat.le_refl _) (.inl fun _ => comingUp_of_ahead)
  | unread token rest last =>
    exact .of_ok token ⟨[token], rest, last⟩ (fun _ => rfl) (.of_eq rfl rfl)
      (by simp [Cursor.size, Nat.add_comm]) (.inl fun _ => rfl)
  | failed error rest last =>
    exact .of_error _ ⟨[], rest, last⟩ (fun _ => rfl) (.of_eq rfl rfl) (Nat.le_succ _)
  | ended last => exact .of_error _ ⟨[], [], last⟩ (fun _ => rfl) (.of_eq rfl rfl) (Nat.le_refl _)

theorem uniform_pop (cursor : Cursor) : Uniform 1 spent pop cursor := by
  induction cursor using Cursor.nextCases with
  | looked token ahead rest =>
    exact .of_ok token ⟨ahead, rest, some token⟩ (fun _ => pop_of_ahead) ⟨[token], rfl, rfl⟩
      (by simp [Cursor.size, Nat.add_right_comm]) (.inl fun _ => pop_of_ahead)
  | unread token rest =>
    exact .of_ok token ⟨[], rest, some token⟩ (fun _ => rfl) ⟨[token], rfl, rfl⟩ (Nat.le_refl _)
      (.inl fun _ => rfl)
  | failed error rest last =>
    exact .of_error _ ⟨[], rest, last⟩ (fun _ => rfl) (.of_eq rfl rfl) (Nat.le_succ _)
  | ended last => exact .of_error _ ⟨[], [], last⟩ (fun _ => rfl) (.of_eq rfl rfl) (Nat.le_refl _)

theorem uniform_peek (ended : α) (seen : Token → α) (cursor : Cursor) :
    Uniform 0 spent (unlessEnded ended do return seen (← comingUp 1)) cursor := by
  induction cursor using Cursor.nextCases with
  | looked token ahead rest last =>
    exact .of_ok (seen token) ⟨token :: ahead, rest, last⟩ (fun _ => peek_of_ahead ended seen)
      (.of_eq rfl rfl) (Nat.le_refl _) (.inl fun _ => peek_of_ahead ended seen)
  | unread token rest last =>
    exact .of_ok (seen token) ⟨[token], rest, last⟩ (fun _ => rfl) (.of_eq rfl rfl)
      (by simp [Cursor.size, Nat.add_comm]) (.inl fun _ => rfl)
  | failed error rest last =>
    exact uniform_failed ended ⟨[], rest, last⟩ error (fun _ => rfl) (fun _ => rfl) (.of_eq rfl rfl)
      (Nat.le_succ _)
  | ended last =>
    exact .of_ok ended ⟨[], [], last⟩ (fun _ => rfl) (.of_eq rfl rfl) (Nat.le_refl _) (.inr rfl)

/-- Looking for a token behind the next one. If there is none, at most the next one is left. -/
theorem uniform_second (cursor : Cursor) :
    Uniform 0 (fun other after => other = none ∧ after.size ≤ 1) second cursor := by
  have hone (token : Token) (rest : List Item) (last : Option Token) :
      Uniform 0 (fun other after => other = none ∧ after.size ≤ 1) second
        ⟨[token], rest, last⟩ := by
    cases rest with
    | nil =>
      exact .of_ok none ⟨[token], [], last⟩ (fun _ => rfl) (.of_eq rfl rfl) (Nat.le_refl _)
        (.inr ⟨rfl, Nat.le_refl _⟩)
    | cons item rest =>
      cases item with
      | ok other =>
        exact .of_ok (some other) ⟨[token, other], rest, last⟩ (fun _ => rfl) (.of_eq rfl rfl)
          (by simp [Cursor.size]; omega) (.inl fun _ => rfl)
      | error error =>
        exact uniform_failed none ⟨[token], rest, last⟩ error (fun _ => rfl) (fun _ => rfl)
          (.of_eq rfl rfl) (Nat.le_succ _)
  induction cursor using Cursor.nextCases with
  | looked token ahead rest last =>
    cases ahead with
    | nil => exact hone token rest last
    | cons other ahead =>
      exact .of_ok (some other) ⟨token :: other :: ahead, rest, last⟩ (fun _ => second_of_ahead)
        (.of_eq rfl rfl) (Nat.le_refl _) (.inl fun _ => second_of_ahead)
  | unread token rest last =>
    -- the next token is pulled first
    obtain ⟨hleaves, hsize, hconsumes, hoblivious, hcontinues⟩ := hone token rest last
    have hcount : Cursor.size ⟨[token], rest, last⟩ =
        Cursor.size ⟨[], .ok token :: rest, last⟩ := by
      simp [Cursor.size, Nat.add_comm]
    rw [hcount] at hsize hconsumes
    exact ⟨hleaves, hsize, hconsumes, hoblivious, hcontinues⟩
  | failed error rest last =>
    exact uniform_failed none ⟨[], rest, last⟩ error (fun _ => rfl) (fun _ => rfl) (.of_eq rfl rfl)
      (Nat.le_succ _)
  | ended last =>
    exact .of_ok none ⟨[], [], last⟩ (fun _ => rfl) (.of_eq rfl rfl) (Nat.le_refl _)
      (.inr ⟨rfl, Nat.zero_le _⟩)

/-- **Whatever is made of looking and taking is uniform.** -/
theorem Composed.uniform (h : Composed least action) :
    ∀ cursor, Uniform least spent action cursor := by
  induction h with
  | pure a =>
    exact fun cursor =>
      .of_ok a cursor (fun _ => rfl) (.of_eq rfl rfl) (Nat.le_refl _) (.inl fun _ => rfl)
  | throw stop =>
    exact fun cursor => .of_error stop cursor (fun _ => rfl) (.of_eq rfl rfl) (Nat.le_refl _)
  | mono _ hle ih =>
    intro cursor
    have h := ih cursor
    refine ⟨h.leaves, h.size_le, fun hok => ?_, h.oblivious, h.continues⟩
    exact Nat.le_trans (Nat.add_le_add_left hle _) (h.consumes hok)
  | bind _ _ ih ihrest =>
    refine fun cursor => (ih cursor).bind ihrest fun {a after b last} hspent hok => ?_
    have hle := (ihrest a after).consumes hok
    unfold spent at hspent ⊢
    omega
  | comingUp => exact uniform_comingUp
  | pop => exact uniform_pop
  | peek ended seen => exact uniform_peek ended seen
  | @second_bind α least next _ _ ihrest ihalone =>
    intro cursor
    have hboth := (uniform_second cursor).bind ihrest fun {a after b last} hend hok => ?_
    · rwa [Nat.zero_add] at hboth
    · -- one item is not enough for what has to come
      obtain ⟨rfl, hone⟩ := hend
      have htwo := (ihalone after).consumes hok
      omega
  | @size_bind α least next _ same ih =>
    intro cursor
    have hrun := ih cursor.size cursor
    refine ⟨hrun.leaves, hrun.size_le, hrun.consumes, hrun.oblivious, fun {a after} hok => ?_⟩
    by_cases hspent : after.size = 0
    · exact .inr hspent
    refine .inl fun more => ?_
    -- with more items the bound is greater, and this makes no difference
    have hgreater := same (Nat.le_add_right cursor.size more.length) cursor (Nat.le_refl _)
    have hmore := ((ih _ cursor).continues (hgreater.symm.trans hok)).resolve_right hspent more
    change next (cursor.followed more).size (cursor.followed more) = _
    rw [Cursor.size_followed]
    exact hmore

end Parse
end FrontEnd
