import FrontEnd.Proofs.Cursor.Composed
import Mathlib.Data.List.Basic

/-!
# Cursors and lists

A cursor pulls items from a stream and keeps the tokens that it looked at. Seen from outside it is
nothing but a list of tokens with an index: how far it has looked ahead cannot be told from its
answers (`Tape`).

Errors of a stream are part of what is seen. Each of them stands behind a number of tokens, and the
first request that needs a token from behind it comes upon the error instead. A request that needs
two tokens may come upon an error with one token in front of it; that token is not lost, and the
error does not come back.

A cursor is followed along any requests by what its buffer and its stream hold together
(`Tape.Tracks`). A request looks for a number of tokens and finds them, or an error, or the end
(`Looked`), and these are the cases of a step.
-/

namespace FrontEnd

open List

/-- What a cursor can be asked for. -/
inductive Request where
  | pop
  /-- A token to come: the next one, or the one behind it. -/
  | comingUp (skipped : Fin Parse.maxLookahead)
  | nextIs (kind : Token.Kind) (value : String)
  | atEnd
  | expect (kind : Token.Kind) (value : Option String)

/-- What a request gets if it does not fail. -/
inductive Answer where
  | token (token : Token)
  | truth (truth : Bool)

/-- Requests with what they got. -/
abbrev Exchange := Request × Except Stop Answer

/-- The error at a token that should have been another one. A wrong text is reported before a wrong
kind. -/
def Token.mismatch (token : Token) (kind : Token.Kind) (value : Option String) : Option Error :=
  (value.bind fun text =>
    if token.value = text then none
    else some ((Cause.expectedValue text).located token.location)).or
  (if token.kind = kind then none
    else some ((Cause.expectedKind (Text.withArticle kind.noun)).located token.location))

/-- The token at a place of a list. -/
def tokenAt (tokens : List Token) (place : Nat) : Except Stop Answer :=
  match tokens[place]? with
  | some token => .ok (.token token)
  | none => .error (.error Cause.unexpectedEndOfFile.unlocated)

namespace Request

/-- The request as an action on a cursor. -/
def run : Request → Parse Answer
  | pop => return .token (← Parse.pop)
  | comingUp skipped => return .token (← Parse.comingUp (skipped + 1))
  | nextIs kind value => return .truth (← Parse.nextIs kind value)
  | atEnd => return .truth (← Parse.atEnd)
  | expect kind value => return .token (← Parse.expect kind value)

/-- The number of tokens that a request looks at. -/
def need : Request → Nat
  | comingUp skipped => skipped + 1
  | _ => 1

/-- What a request gets from a plain list of tokens, at an index. -/
def onList (tokens : List Token) (index : Nat) : Request → Except Stop Answer
  | pop => tokenAt tokens index
  | comingUp skipped => tokenAt tokens (index + skipped)
  | nextIs kind value => .ok (.truth (tokens[index]?.any (·.is kind value)))
  | atEnd => .ok (.truth tokens[index]?.isNone)
  | expect kind value =>
    match tokens[index]?.bind (·.mismatch kind value) with
    | some error => .error (.error error)
    | none => tokenAt tokens index

/-- What a request gets when it comes upon an error. To the two questions the end of a file is an
answer. -/
def onError (error : Error) : Request → Except Stop Answer
  | nextIs _ _ => if error.isEndOfFile then .ok (.truth false) else .error (.error error)
  | atEnd => if error.isEndOfFile then .ok (.truth true) else .error (.error error)
  | _ => .error (.error error)

end Request

namespace Exchange

/-- The token that was taken: only some requests take one, and only if they succeed. -/
def taken : Exchange → Option Token
  | (.pop, .ok (.token token)) => some token
  | (.expect _ _, .ok (.token token)) => some token
  | _ => none

/-- Requests put one after the other, whatever they get, and the state behind them. -/
def all {σ : Type} (ask : σ → Request → Except Stop Answer × σ) :
    List Request → σ → List Exchange × σ
  | [], state => ([], state)
  | request :: requests, state =>
    let (answer, after) := ask state request
    let (exchanges, last) := all ask requests after
    ((request, answer) :: exchanges, last)

end Exchange

/-- The answer of a cursor, and the cursor behind it. -/
def Cursor.ask (cursor : Cursor) (request : Request) : Except Stop Answer × Cursor :=
  match request.run cursor with
  | .ok answer after => (.ok answer, after)
  | .error stop after => (.error stop, after)

/-- The index behind a request at an index of a list: it moves only over a token that is taken. -/
def nextIndex (tokens : List Token) (index : Nat) (request : Request) : Nat :=
  if (Exchange.taken (request, request.onList tokens index)).isSome then index + 1 else index

/-- A request at an index of a list of tokens. -/
def askList (tokens : List Token) (index : Nat) (request : Request) : Except Stop Answer × Nat :=
  (request.onList tokens index, nextIndex tokens index request)

/-- The error that an item is. -/
def Item.error? : Item → Option Error
  | .ok _ => none
  | .error error => some error

/-- A list of tokens with an index, and the errors that have not been met, each with the number of
tokens in front of it. -/
structure Tape where
  tokens : List Token
  index : Nat
  faults : List (Nat × Error)

namespace Tape

/-- The errors of a stream that starts behind some tokens. -/
def faultsFrom (count : Nat) : List Item → List (Nat × Error)
  | [] => []
  | .ok _ :: items => faultsFrom (count + 1) items
  | .error error :: items => (count, error) :: faultsFrom count items

/-- A whole stream. -/
def ofItems (items : List Item) : Tape :=
  ⟨items.filterMap Except.toOption, 0, faultsFrom 0 items⟩

/-- The error that a request has to pull: fewer tokens are in front of it than the request needs. -/
def due (tape : Tape) (request : Request) : Option Error :=
  (tape.faults.head?.filter fun fault => fault.1 < tape.index + request.need).map Prod.snd

/-- A request comes upon the first error, if it has to pull it; and then the error is gone. If not,
the answer is that of the list. -/
def ask (tape : Tape) (request : Request) : Except Stop Answer × Tape :=
  match tape.due request with
  | some error => (request.onError error, { tape with faults := tape.faults.tail })
  | none =>
    (request.onList tape.tokens tape.index,
      { tape with index := nextIndex tape.tokens tape.index request })

end Tape

/-! ### Looking for tokens -/

namespace Parse

variable {cursor : Cursor}

/-- What comes of looking for `count` tokens. There are so many, or there is an error with fewer in
front of it, or there are fewer in the whole stream. Tokens that were pulled are kept in each
case. -/
inductive Looked (count : Nat) (cursor : Cursor) : EStateM.Result Stop Cursor Unit → Prop
  | found {ahead : List Token} {rest : List Item}
      (hpending : cursor.pending = ahead.map .ok ++ rest)
      (hlength : ahead.length = max count cursor.ahead.length) :
      Looked count cursor (.ok () ⟨ahead, rest, cursor.last⟩)
  | failed {front : List Token} {error : Error} {behind : List Item}
      (hpending : cursor.pending = front.map .ok ++ .error error :: behind)
      (hfew : front.length < count) :
      Looked count cursor (.error (.error error) ⟨front, behind, cursor.last⟩)
  | ended {front : List Token} (hpending : cursor.pending = front.map .ok)
      (hfew : front.length < count) :
      Looked count cursor (.error (.error Cause.unexpectedEndOfFile.unlocated)
        ⟨front, [], cursor.last⟩)

theorem looked_pullMany (count : Nat) (cursor : Cursor) :
    Looked (cursor.ahead.length + count) cursor (pullMany count cursor) := by
  induction count generalizing cursor with
  | zero => exact .found rfl (by simp)
  | succ count ih =>
    obtain ⟨ahead, rest, last⟩ := cursor
    cases rest with
    | nil => exact .ended (append_nil _) (Nat.lt_add_of_pos_right (Nat.succ_pos _))
    | cons item rest =>
      cases item with
      | error => exact .failed rfl (Nat.lt_add_of_pos_right (Nat.succ_pos _))
      | ok token =>
        have hpull : pullMany (count + 1) ⟨ahead, .ok token :: rest, last⟩ =
            pullMany count ⟨ahead ++ [token], rest, last⟩ := rfl
        have hpending : Cursor.pending ⟨ahead ++ [token], rest, last⟩ =
            Cursor.pending ⟨ahead, .ok token :: rest, last⟩ := by simp [Cursor.pending]
        have hlength : (ahead ++ [token]).length + count = ahead.length + (count + 1) := by
          simp; omega
        have h := ih ⟨ahead ++ [token], rest, last⟩
        rw [← hpull] at h
        generalize hresult : pullMany (count + 1) ⟨ahead, .ok token :: rest, last⟩ = result at h ⊢
        rw [hlength] at h
        cases h with
        | found hafter hcount =>
          refine .found (hpending.symm.trans hafter) ?_
          simp only [length_append, length_singleton] at hcount ⊢
          omega
        | failed hafter hfew => exact .failed (hpending.symm.trans hafter) hfew
        | ended hafter hfew => exact .ended (hpending.symm.trans hafter) hfew

theorem looked_fill (count : Nat) (cursor : Cursor) : Looked count cursor (fill count cursor) := by
  by_cases hle : count ≤ cursor.ahead.length
  · rw [fill_of_le hle]
    exact .found rfl (Nat.max_eq_right hle).symm
  · have h := looked_pullMany (count - cursor.ahead.length) cursor
    rwa [Nat.add_sub_cancel' (Nat.le_of_not_le hle)] at h

end Parse

/-! ### One request -/

namespace Cursor

open Parse

variable {cursor after : Cursor} {request : Request} {error : Error} {ahead : List Token}
  {rest : List Item} {last : Option Token}

theorem ask_of_ok {answer : Answer} (h : request.run cursor = .ok answer after) :
    cursor.ask request = (.ok answer, after) := by
  rw [ask, h]

theorem ask_of_error {stop : Stop} (h : request.run cursor = .error stop after) :
    cursor.ask request = (.error stop, after) := by
  rw [ask, h]

theorem comingUp_of_fill_error (skipped : Fin maxLookahead) {stop : Stop}
    (h : fill (skipped + 1) cursor = .error stop after) :
    comingUp (skipped + 1) cursor = .error stop after := by
  rcases skipped with ⟨_ | _ | skipped, hskipped⟩
  · exact bind_of_error h
  · exact bind_of_error h
  · exact absurd hskipped (Nat.not_lt.mpr (Nat.le_add_left 2 skipped))

/-- A question about the next token, where the end of a file is an answer. -/
def question (ended : Bool) (seen : Token → Bool) : Parse Answer := do
  return .truth (← unlessEnded ended do return seen (← comingUp 1))

theorem ask_of_fill_error (h : fill request.need cursor = .error (.error error) after) :
    cursor.ask request = (request.onError error, after) := by
  have hquestion (ended : Bool) (seen : Token → Bool) (hrun : request.run = question ended seen)
      (h : fill 1 cursor = .error (.error error) after) : cursor.ask request =
        (if error.isEndOfFile then .ok (.truth ended) else .error (.error error), after) := by
    have hnext : comingUp 1 cursor = .error (.error error) after := bind_of_error h
    rw [ask, hrun]
    simp only [question, bind, EStateM.bind, unlessEnded, hnext]
    cases error.isEndOfFile <;> rfl
  cases request with
  | pop => exact ask_of_error (bind_of_error (bind_of_error h))
  | comingUp skipped => exact ask_of_error (bind_of_error (comingUp_of_fill_error skipped h))
  | nextIs kind value => exact hquestion false (fun token => token.is kind value) rfl h
  | atEnd => exact hquestion true (fun _ => false) rfl h
  | expect kind value => exact ask_of_error (bind_of_error (bind_of_error (bind_of_error h)))

theorem comingUp_of_fill (skipped : Fin maxLookahead) {token : Token}
    (h : fill (skipped + 1) cursor = .ok () ⟨ahead, rest, last⟩)
    (htoken : ahead[skipped.val]? = some token) :
    comingUp (skipped + 1) cursor = .ok token ⟨ahead, rest, last⟩ := by
  rcases skipped with ⟨_ | _ | skipped, hskipped⟩
  · obtain ⟨more, rfl⟩ := head?_eq_some_iff.mp (head?_eq_getElem?.trans htoken)
    exact bind_of_ok h
  · cases ahead with
    | nil => cases htoken
    | cons =>
      obtain ⟨more, rfl⟩ := head?_eq_some_iff.mp (head?_eq_getElem?.trans htoken)
      exact bind_of_ok h
  · exact absurd hskipped (Nat.not_lt.mpr (Nat.le_add_left 2 skipped))

theorem expect_of_fill {kind : Token.Kind} {value : Option String} {token : Token}
    (h : fill 1 cursor = .ok () ⟨token :: ahead, rest, last⟩) :
    Parse.expect kind value cursor =
      (token.mismatch kind value).elim (.ok token ⟨ahead, rest, some token⟩) fun error =>
      .error (.error error) ⟨token :: ahead, rest, last⟩ := by
  have hnext : comingUp 1 cursor = .ok token ⟨token :: ahead, rest, last⟩ :=
    comingUp_of_fill ⟨0, by decide⟩ h rfl
  refine (bind_of_ok hnext).trans ?_
  rw [Token.mismatch]
  by_cases hkind : token.kind = kind
  · cases value with
    | none => simp [hkind, pop_of_ahead]
    | some text =>
      by_cases hvalue : token.value = text
      · simp [hkind, hvalue, pop_of_ahead]
      · simp [hkind, hvalue]
        rfl
  · cases value with
    | none =>
      simp [hkind]
      rfl
    | some text =>
      by_cases hvalue : token.value = text
      · simp [hkind, hvalue]
        rfl
      · simp [hkind, hvalue]
        rfl

/-- The tokens that were looked at are a list like any other. -/
theorem ask_of_fill (h : fill request.need cursor = .ok () ⟨ahead, rest, last⟩)
    (hneed : request.need ≤ ahead.length) :
    cursor.ask request =
      (request.onList ahead 0,
        (Exchange.taken (request, request.onList ahead 0)).elim ⟨ahead, rest, last⟩ fun token =>
        ⟨ahead.tail, rest, some token⟩) := by
  cases ahead with
  | nil => exact absurd hneed (by cases request <;> simp [Request.need])
  | cons token ahead =>
    have hnext (h : fill 1 cursor = .ok () ⟨token :: ahead, rest, last⟩) :
        comingUp 1 cursor = .ok token ⟨token :: ahead, rest, last⟩ :=
          comingUp_of_fill ⟨0, by decide⟩ h rfl
    cases request with
    | pop => exact ask_of_ok (bind_of_ok (bind_of_ok h))
    | comingUp skipped =>
      obtain ⟨other, hother⟩ : ∃ other, (token :: ahead)[skipped.val]? = some other :=
        ⟨_, getElem?_eq_getElem hneed⟩
      have hanswer : (Request.comingUp skipped).onList (token :: ahead) 0 = .ok (.token other) := by
        rw [Request.onList, tokenAt, Nat.zero_add, hother]
      rw [ask_of_ok (bind_of_ok (comingUp_of_fill skipped h hother)), hanswer]
      rfl
    | nextIs kind value =>
      have hpeek : Parse.nextIs kind value cursor =
          .ok (token.is kind value) ⟨token :: ahead, rest, last⟩ := by
        rw [Parse.nextIs, unlessEnded, bind_of_ok (hnext h)]
        rfl
      exact ask_of_ok (bind_of_ok hpeek)
    | atEnd =>
      have hpeek : Parse.atEnd cursor = .ok false ⟨token :: ahead, rest, last⟩ := by
        rw [Parse.atEnd, unlessEnded, bind_of_ok (hnext h)]
        rfl
      exact ask_of_ok (bind_of_ok hpeek)
    | expect kind value =>
      have hexpect : Parse.expect kind value cursor = _ := expect_of_fill h
      cases hmismatch : token.mismatch kind value with
      | some =>
        rw [hmismatch] at hexpect
        rw [ask_of_error (bind_of_error hexpect)]
        simp [Request.onList, hmismatch, Exchange.taken]
      | none =>
        rw [hmismatch] at hexpect
        rw [ask_of_ok (bind_of_ok hexpect)]
        simp [Request.onList, hmismatch, Exchange.taken, tokenAt]

end Cursor

namespace Tape

open Parse

variable {tape : Tape} {cursor : Cursor} {request : Request} {tokens ahead : List Token}
  {rest : List Item} {last : Option Token} {token : Token} {error : Error} {index : Nat}

theorem faultsFrom_tokens (count : Nat) (tokens : List Token) (items : List Item) :
    faultsFrom count (tokens.map .ok ++ items) = faultsFrom (count + tokens.length) items := by
  induction tokens generalizing count with
  | nil => rfl
  | cons token tokens ih =>
    rw [map_cons, cons_append, faultsFrom, ih, length_cons, Nat.add_right_comm, Nat.add_assoc]

theorem le_of_mem_faultsFrom {count : Nat} {items : List Item} {fault : Nat × Error}
    (h : fault ∈ faultsFrom count items) : count ≤ fault.1 := by
  induction items generalizing count with
  | nil => cases h
  | cons item items ih =>
    cases item with
    | ok => exact Nat.le_of_succ_le (ih h)
    | error =>
      rcases mem_cons.mp h with rfl | h
      · exact Nat.le_refl _
      · exact ih h

/-- **A cursor does what a tape does**: it has the same tokens and errors to come, in its buffer or
in its stream, it has taken the tokens in front of the index, and its buffer is small. -/
structure Tracks (tape : Tape) (cursor : Cursor) : Prop where
  tokens_eq : cursor.tokens = tape.tokens.drop tape.index
  faults_eq : tape.faults = faultsFrom tape.index cursor.pending
  last_eq : cursor.last = (tape.tokens.take tape.index).getLast?
  length_le : cursor.ahead.length ≤ maxLookahead

theorem tracks_ofItems (items : List Item) : (ofItems items).Tracks (.ofItems items) :=
  ⟨rfl, rfl, rfl, Nat.zero_le _⟩

/-- What a list answers depends on the tokens that are needed only. -/
theorem onList_congr {others : List Token} {place : Nat}
    (h : ∀ k < request.need, tokens[index + k]? = others[place + k]?) :
    request.onList tokens index = request.onList others place := by
  have hnext (h : ∀ k < 1, tokens[index + k]? = others[place + k]?) :
      tokens[index]? = others[place]? :=
    h 0 Nat.one_pos
  cases request with
  | pop => rw [Request.onList, Request.onList, tokenAt, tokenAt, hnext h]
  | comingUp skipped =>
    rw [Request.onList, Request.onList, tokenAt, tokenAt, h skipped (Nat.lt_succ_self _)]
  | nextIs => rw [Request.onList, Request.onList, hnext h]
  | atEnd => rw [Request.onList, Request.onList, hnext h]
  | expect => rw [Request.onList, Request.onList, tokenAt, tokenAt, hnext h]

/-- At the end of a list nothing is taken, and a request gets what it gets from an end of file. -/
theorem onList_of_end (h : tokens.length < index + request.need) :
    request.onList tokens index = request.onError Cause.unexpectedEndOfFile.unlocated := by
  have hnext (h : tokens.length < index + 1) : tokens[index]? = none :=
    getElem?_eq_none (Nat.le_of_lt_succ h)
  cases request with
  | pop => rw [Request.onList, tokenAt, hnext h]; rfl
  | comingUp skipped =>
    have hnone : tokens[index + skipped.val]? = none := getElem?_eq_none (Nat.le_of_lt_succ h)
    rw [Request.onList, tokenAt, hnone]
    rfl
  | nextIs kind value => rw [Request.onList, hnext h]; rfl
  | atEnd => rw [Request.onList, hnext h]; rfl
  | expect kind value => rw [Request.onList, tokenAt, hnext h]; rfl

theorem taken_onError (request : Request) (error : Error) :
    Exchange.taken (request, request.onError error) = none := by
  cases request with
  | pop | comingUp | expect => rfl
  | nextIs | atEnd =>
    rw [Request.onError]
    split <;> rfl

/-- What is taken is the token at the index. -/
theorem getElem?_of_taken (h : Exchange.taken (request, request.onList tokens index) = some token) :
    tokens[index]? = some token := by
  have hanswer : request.onList tokens index = .ok (.token token) := by
    unfold Exchange.taken at h
    split at h <;> simp_all
  have hat (h : tokenAt tokens index = .ok (.token token)) : tokens[index]? = some token := by
    unfold tokenAt at h
    split at h <;> simp_all
  cases request with
  | pop => exact hat hanswer
  | comingUp | nextIs | atEnd => simp [Exchange.taken] at h
  | expect =>
    rw [Request.onList] at hanswer
    split at hanswer
    · cases hanswer
    · exact hat hanswer

theorem need_le (request : Request) : request.need ≤ maxLookahead := by
  cases request with
  | comingUp skipped => exact skipped.isLt
  | pop | nextIs | atEnd | expect => exact Nat.le_succ 1

theorem ask_eq_onList (h : ∀ fault ∈ tape.faults, tape.index + request.need ≤ fault.1) :
    tape.ask request = (request.onList tape.tokens tape.index,
      { tape with index := nextIndex tape.tokens tape.index request }) := by
  have hdue : tape.due request = none := by
    rw [due, Option.map_eq_none_iff, Option.filter_eq_none_iff]
    intro fault hfault
    simpa using h fault (mem_of_mem_head? hfault)
  rw [ask, hdue]

namespace Tracks

theorem drop_eq (h : tape.Tracks ⟨ahead, rest, last⟩) :
    tape.tokens.drop tape.index = ahead ++ rest.filterMap Except.toOption := by
  rw [← h.tokens_eq, Cursor.tokens, Cursor.pending, filterMap_append, filterMap_map]
  congr 1
  exact filterMap_some

theorem faults_eq_behind (h : tape.Tracks ⟨ahead, rest, last⟩) :
    tape.faults = faultsFrom (tape.index + ahead.length) rest :=
  h.faults_eq.trans (faultsFrom_tokens tape.index ahead rest)

/-- Looking at tokens changes nothing. -/
theorem look (h : tape.Tracks cursor) (hpending : cursor.pending = ahead.map .ok ++ rest)
    (hfew : ahead.length ≤ maxLookahead) : tape.Tracks ⟨ahead, rest, cursor.last⟩ where
  tokens_eq := (congrArg (List.filterMap Except.toOption) hpending.symm).trans h.tokens_eq
  faults_eq := h.faults_eq.trans (congrArg (faultsFrom tape.index) hpending)
  last_eq := h.last_eq
  length_le := hfew

/-- An error is met behind tokens that were looked at. -/
theorem meet (h : tape.Tracks ⟨ahead, .error error :: rest, last⟩) :
    ({ tape with faults := tape.faults.tail } : Tape).Tracks ⟨ahead, rest, last⟩ where
  tokens_eq := by
    rw [← h.tokens_eq, Cursor.tokens, Cursor.tokens, Cursor.pending, Cursor.pending,
      filterMap_append, filterMap_append]
    rfl
  faults_eq := by
    rw [h.faults_eq_behind]
    exact (faultsFrom_tokens tape.index ahead rest).symm
  last_eq := h.last_eq
  length_le := h.length_le

/-- The next token is taken. -/
theorem take (h : tape.Tracks ⟨token :: ahead, rest, last⟩) :
    ({ tape with index := tape.index + 1 } : Tape).Tracks ⟨ahead, rest, some token⟩ where
  tokens_eq := by
    rw [← tail_drop, ← h.tokens_eq]
    rfl
  faults_eq := h.faults_eq
  last_eq := by
    have hat : tape.tokens[tape.index]? = some token := by
      rw [← Nat.add_zero tape.index, ← getElem?_drop, h.drop_eq]
      rfl
    simp only [take_add_one, hat, Option.toList_some, getLast?_concat]
  length_le := Nat.le_of_succ_le h.length_le

end Tracks

/-- **A request gets from a cursor what it gets from the tape**, and the two go on like this. -/
theorem tracks_ask (h : tape.Tracks cursor) (request : Request) :
    (cursor.ask request).1 = (tape.ask request).1 ∧
      (tape.ask request).2.Tracks (cursor.ask request).2 := by
  have hlooked := looked_fill request.need cursor
  generalize hfill : fill request.need cursor = result at hlooked
  have hneed := need_le request
  cases hlooked with
  | @failed front error behind hpending hfew =>
    have h := h.look hpending (Nat.le_of_lt (Nat.lt_of_lt_of_le hfew hneed))
    have hdue : tape.due request = some error := by
      simp [due, h.faults_eq_behind, faultsFrom, Option.filter, hfew]
    rw [Cursor.ask_of_fill_error hfill, ask, hdue]
    exact ⟨rfl, h.meet⟩
  | @ended front hpending hfew =>
    have h := h.look (hpending.trans (append_nil _).symm)
      (Nat.le_of_lt (Nat.lt_of_lt_of_le hfew hneed))
    have hend : tape.tokens.length < tape.index + request.need := by
      have hlength := congrArg List.length h.drop_eq
      simp only [length_drop, filterMap_nil, append_nil] at hlength
      omega
    have hanswer := onList_of_end hend
    have hindex : nextIndex tape.tokens tape.index request = tape.index := by
      rw [nextIndex, hanswer, taken_onError]
      rfl
    rw [Cursor.ask_of_fill_error hfill, ask_eq_onList (by simp [h.faults_eq_behind, faultsFrom]),
      hanswer, hindex]
    exact ⟨rfl, h⟩
  | @found ahead rest hpending hlength =>
    -- all that the request is about is in front of the next error
    have h := h.look hpending (hlength ▸ Nat.max_le.mpr ⟨hneed, h.length_le⟩)
    have hcount : request.need ≤ ahead.length := hlength ▸ Nat.le_max_left _ _
    have hanswer : request.onList tape.tokens tape.index = request.onList ahead 0 := by
      refine onList_congr fun k hk => ?_
      rw [← getElem?_drop, h.drop_eq,
        getElem?_append_left (Nat.lt_of_lt_of_le hk hcount), Nat.zero_add]
    have hnone : ∀ fault ∈ tape.faults, tape.index + request.need ≤ fault.1 := by
      intro fault hfault
      rw [h.faults_eq_behind] at hfault
      exact Nat.le_trans (Nat.add_le_add_left hcount _) (le_of_mem_faultsFrom hfault)
    rw [Cursor.ask_of_fill hfill hcount, ask_eq_onList hnone, nextIndex, hanswer]
    refine ⟨rfl, ?_⟩
    cases htaken : Exchange.taken (request, request.onList ahead 0) with
    | none => exact h
    | some token =>
      obtain ⟨more, rfl⟩ : ∃ more, ahead = token :: more := by
        rw [← head?_eq_some_iff, head?_eq_getElem?]
        exact getElem?_of_taken htaken
      exact h.take

/-! ### Any requests -/

/-- A cursor goes along with a tape through any requests. -/
theorem tracks_all (h : tape.Tracks cursor) (requests : List Request) :
    (Exchange.all Cursor.ask requests cursor).1 = (Exchange.all ask requests tape).1 ∧
      (Exchange.all ask requests tape).2.Tracks (Exchange.all Cursor.ask requests cursor).2 := by
  induction requests generalizing tape cursor with
  | nil => exact ⟨rfl, h⟩
  | cons request requests ih =>
    obtain ⟨hanswer, hafter⟩ := tracks_ask h request
    obtain ⟨hrest, hlast⟩ := ih hafter
    refine ⟨?_, hlast⟩
    simp only [Exchange.all, hanswer, hrest]

/-- A token that a request takes stands at the index, which moves on over it. -/
theorem take_ask (tape : Tape) (request : Request) : tape.tokens.take (tape.ask request).2.index =
      tape.tokens.take tape.index ++ (Exchange.taken (request, (tape.ask request).1)).toList := by
  rw [ask]
  cases tape.due request with
  | some => simp [taken_onError]
  | none =>
    simp only [nextIndex]
    cases htaken : Exchange.taken (request, request.onList tape.tokens tape.index) with
    | none => simp
    | some => simp [take_add_one, getElem?_of_taken htaken]

theorem tokens_ask (tape : Tape) (request : Request) :
    (tape.ask request).2.tokens = tape.tokens := by
  rw [ask]
  cases tape.due request <;> rfl

/-- The tokens that requests take are those that the index moves over. -/
theorem take_all (tape : Tape) (requests : List Request) :
    (Exchange.all ask requests tape).2.tokens = tape.tokens ∧
      tape.tokens.take (Exchange.all ask requests tape).2.index = tape.tokens.take tape.index ++
        (Exchange.all ask requests tape).1.filterMap Exchange.taken := by
  induction requests generalizing tape with
  | nil => exact ⟨rfl, (append_nil _).symm⟩
  | cons request requests ih =>
    obtain ⟨htokens, htake⟩ := ih (tape.ask request).2
    rw [tokens_ask] at htokens htake
    refine ⟨htokens, htake.trans ?_⟩
    rw [take_ask, append_assoc]
    simp only [Exchange.all, filterMap_cons]
    cases Exchange.taken (request, (tape.ask request).1) <;> rfl

theorem errors_faultsFrom (count : Nat) (items : List Item) :
    (faultsFrom count items).map Prod.snd = items.filterMap Item.error? := by
  fun_induction faultsFrom count items with
  | case1 => rfl
  | case2 count token items ih => exact ih
  | case3 count error items ih => exact congrArg (error :: ·) ih

/-- An error that is met is the first one, and then it is gone. -/
theorem faults_ask (tape : Tape) (request : Request) :
    tape.faults.map Prod.snd = (tape.due request).toList ++
      (tape.ask request).2.faults.map Prod.snd := by
  rw [ask]
  cases hdue : tape.due request with
  | none => rfl
  | some =>
    obtain ⟨fault, hfault, rfl⟩ := Option.map_eq_some_iff.mp hdue
    obtain ⟨rest, hrest⟩ := head?_eq_some_iff.mp (Option.filter_eq_some_iff.mp hfault).1
    rw [hrest]
    rfl

/-- Errors are met in their order, at most one by each request, and the request that meets one gets
what it gets from such an error. -/
theorem faults_all (tape : Tape) (requests : List Request) : ∃ met : List (Option Error),
    Forall₂ (fun exchange error => ∀ e ∈ error, exchange.2 = exchange.1.onError e)
      (Exchange.all ask requests tape).1 met ∧
    tape.faults.map Prod.snd = met.reduceOption ++
      (Exchange.all ask requests tape).2.faults.map Prod.snd := by
  induction requests generalizing tape with
  | nil => exact ⟨[], .nil, rfl⟩
  | cons request requests ih =>
    obtain ⟨met, hmet, hfaults⟩ := ih (tape.ask request).2
    refine ⟨tape.due request :: met, .cons ?_ hmet, ?_⟩
    · intro error herror
      change (tape.ask request).1 = _
      rw [ask, Option.mem_def.mp herror]
    · rw [faults_ask tape request, hfaults]
      cases tape.due request <;> rfl

/-- Without errors all answers are those of the list. -/
theorem all_of_faultless (requests : List Request) (h : tape.faults = []) :
    (Exchange.all ask requests tape).1 =
      (Exchange.all (askList tape.tokens) requests tape.index).1 := by
  induction requests generalizing tape with
  | nil => rfl
  | cons request requests ih =>
    have hask : tape.ask request = _ := ask_eq_onList (by simp [h])
    have hleft : (tape.ask request).2.faults = [] := by rwa [hask]
    have hrest := ih hleft
    rw [hask] at hrest
    simp only [Exchange.all, hask, hrest, askList]

end Tape

/-- **A cursor is a list with an index.** For every stream and all requests, whatever they get:

* the answers are those of the tape, where a request comes upon an error exactly if it is the first
  that has to pull it;
* the tokens that are taken are the first ones of the stream, in order, and the others are still to
  come;
* the token taken last is remembered, and no more than two tokens are kept that were only looked at;
* errors are met in order, at most one by each request, and no error twice. It is what the request
  gets, but for the two questions that take the end of a file for an answer;
* in a stream without errors all answers are those of the list at an index that moves over taken
  tokens only, so that looking ahead and failing to take a token change none of them. -/
theorem cursor_refinesList (items : List Item) (requests : List Request) :
    let cursor := Exchange.all Cursor.ask requests (.ofItems items)
    let tape := Exchange.all Tape.ask requests (.ofItems items)
    cursor.1 = tape.1 ∧
    cursor.1.filterMap Exchange.taken = (items.filterMap Except.toOption).take tape.2.index ∧
    cursor.1.filterMap Exchange.taken ++ cursor.2.tokens = items.filterMap Except.toOption ∧
    cursor.2.last = (cursor.1.filterMap Exchange.taken).getLast? ∧
    cursor.2.ahead.length ≤ Parse.maxLookahead ∧
    (∃ met : List (Option Error),
      List.Forall₂ (fun exchange error => ∀ e ∈ error, exchange.2 = exchange.1.onError e)
        cursor.1 met ∧
      items.filterMap Item.error? = met.reduceOption ++ cursor.2.pending.filterMap Item.error?) ∧
    ∀ tokens : List Token, (Exchange.all Cursor.ask requests (.ofItems (tokens.map .ok))).1 =
      (Exchange.all (askList tokens) requests 0).1 := by
  intro cursor tape
  obtain ⟨hanswers, htracks⟩ := Tape.tracks_all (Tape.tracks_ofItems items) requests
  obtain ⟨htokens, htake⟩ := Tape.take_all (.ofItems items) requests
  obtain ⟨met, hmet, hfaults⟩ := Tape.faults_all (.ofItems items) requests
  have htaken : cursor.1.filterMap Exchange.taken =
      (items.filterMap Except.toOption).take tape.2.index := by
    rw [hanswers]
    exact htake.symm
  have htokens : tape.2.tokens = items.filterMap Except.toOption := htokens
  refine ⟨hanswers, htaken, ?_, ?_, htracks.length_le, ⟨met, ?_, ?_⟩, fun tokens => ?_⟩
  · rw [htaken, htracks.tokens_eq, htokens, List.take_append_drop]
  · rw [htaken, htracks.last_eq, htokens]
  · rw [hanswers]
    exact hmet
  · rw [← Tape.errors_faultsFrom 0, ← Tape.errors_faultsFrom tape.2.index, ← htracks.faults_eq]
    exact hfaults
  · obtain ⟨hanswers, -⟩ := Tape.tracks_all (Tape.tracks_ofItems (tokens.map .ok)) requests
    have hnone : (Tape.ofItems (tokens.map .ok)).faults = [] := by
      have h := Tape.faultsFrom_tokens 0 tokens []
      rwa [List.append_nil] at h
    have hall : (Tape.ofItems (tokens.map .ok)).tokens = tokens :=
      Cursor.tokens_of_pending (Cursor.pending_ofItems (tokens.map .ok))
    rw [hanswers, Tape.all_of_faultless requests hnone, hall]
    rfl

end FrontEnd
