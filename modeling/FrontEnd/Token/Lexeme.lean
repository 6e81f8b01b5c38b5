import FrontEnd.Text.Blank
import FrontEnd.Text.Word
import FrontEnd.Token.Basic

/-!
# Lexemes

A text is a sequence of lexemes: tokens, blanks and comments between them, and possibly a last
stretch that is faulty. Each sort of lexeme has a *rule*, a function that takes a lexeme off the
front of a text, and the first rule that applies decides (`Lexeme.first?`).

Every rule splits its text (`Rule.Splits`): the lexeme is not empty, and lexeme and rest together
are the text. So the first lexeme of a text is shorter than the text by what it takes away
(`first?_splits`), and only the empty text has none (`first?_eq_none_iff`).
-/

namespace FrontEnd

/-- A stretch of text that belongs together. -/
inductive Lexeme where
  /-- A word of the program. -/
  | token (kind : Token.Kind) (text : List Char)
  /-- White space or a comment. -/
  | blank (text : List Char)
  /-- A stretch that is no part of any program. -/
  | faulty (cause : Cause) (text : List Char)
deriving DecidableEq, Inhabited

namespace Lexeme

/-- The characters of a lexeme. -/
def text : Lexeme → List Char
  | token _ text => text
  | blank text => text
  | faulty _ text => text

@[simp] theorem text_token (kind : Token.Kind) (text : List Char) :
    (token kind text).text = text := rfl

@[simp] theorem text_blank (text : List Char) : (blank text).text = text := rfl

@[simp] theorem text_faulty (cause : Cause) (text : List Char) :
    (faulty cause text).text = text := rfl

/-! ### Rules -/

/-- A rule takes a lexeme off the front of a text and returns it with the rest, or does not
apply. -/
abbrev Rule := List Char → Option (Lexeme × List Char)

/-- The longest run of characters of a class, if there is one in front. -/
def run (belongs : Char → Bool) (make : List Char → Lexeme) : Rule := fun text =>
  match text.takeWhile belongs with
  | [] => none
  | c :: front => some (make (c :: front), text.dropWhile belongs)

/-- The operators of one character. -/
def operatorMarks : List Char :=
  ['(', ')', '\x7b', '\x7d', '[', ']', ';', ',', '=', '.']

/-- An operator: an arrow, an apostrophe with an s, or a single mark. -/
def operator : Rule
  | '-' :: '>' :: rest => some (token .operator ['-', '>'], rest)
  | '\x27' :: 's' :: rest => some (token .operator ['\x27', 's'], rest)
  | c :: rest => if c ∈ operatorMarks then some (token .operator [c], rest) else none
  | [] => none

/-- A name: a character that starts a word and all characters of words behind it. -/
def name : Rule
  | c :: text =>
    if Text.isWordStart c then
      some (token .name (c :: text.takeWhile Text.isWord), text.dropWhile Text.isWord)
    else none
  | [] => none

/-- Whether a character can stand between the quotes of a string. -/
def inString (c : Char) : Bool :=
  c ≠ '"' && c ≠ '\n'

/-- A string: everything up to the next quote, which is on the same line. -/
def string : Rule
  | '"' :: text =>
    match text.dropWhile inString with
    | '"' :: rest => some (token .string ('"' :: (text.takeWhile inString ++ ['"'])), rest)
    | _ => none
  | _ => none

/-- A comment from two slashes to the end of the line. -/
def lineComment : Rule
  | '/' :: '/' :: text =>
    some (blank ('/' :: '/' :: text.takeWhile (· ≠ '\n')), text.dropWhile (· ≠ '\n'))
  | _ => none

/-- Cuts a text behind the first end of a comment in it. -/
def splitComment : List Char → Option (List Char × List Char)
  | [] => none
  | '*' :: '/' :: rest => some (['*', '/'], rest)
  | c :: text => (splitComment text).map fun (front, rest) => (c :: front, rest)

/-- A comment between a slash with a star and a star with a slash. -/
def blockComment : Rule
  | '/' :: '*' :: text =>
    (splitComment text).map fun (front, rest) => (blank ('/' :: '*' :: front), rest)
  | _ => none

/-- What is left when nothing else applies: a comment or a string that does not end, or a character
that starts no lexeme. -/
def fault : Rule
  | '/' :: '*' :: rest => some (faulty .unterminatedComment ['/', '*'], rest)
  | '"' :: rest => some (faulty .unterminatedString ['"'], rest)
  | c :: rest => some (faulty (.unknownCharacter c) [c], rest)
  | [] => none

/-- The rules, in the order in which they are tried. -/
def rules : List Rule :=
  [run Char.isDigit (token .integer), operator, name, string, run Text.isBlank blank,
    lineComment, blockComment, fault]

/-- The first lexeme of a text, by the first rule that applies. -/
def first? (text : List Char) : Option (Lexeme × List Char) :=
  rules.findSome? (· text)

/-! ### Rules split texts -/

/-- A rule splits: the lexeme takes something away, and nothing is lost. -/
def Rule.Splits (rule : Rule) : Prop :=
  ∀ {text lexeme rest}, rule text = some (lexeme, rest) →
    lexeme.text ≠ [] ∧ lexeme.text ++ rest = text

theorem run_splits {belongs : Char → Bool} {make : List Char → Lexeme}
    (hmake : ∀ text, (make text).text = text) : Rule.Splits (run belongs make) := by
  intro text lexeme rest h
  unfold run at h
  split at h
  · simp at h
  · next c front hfront =>
    simp only [Option.some.injEq, Prod.mk.injEq] at h
    obtain ⟨rfl, rfl⟩ := h
    rw [hmake, ← hfront, List.takeWhile_append_dropWhile]
    exact ⟨by simp [hfront], rfl⟩

theorem operator_splits : Rule.Splits operator := by
  intro text lexeme rest h
  unfold operator at h
  split at h
  · cases h; simp
  · cases h; simp
  · split at h
    · cases h; simp
    · simp at h
  · simp at h

theorem name_splits : Rule.Splits name := by
  intro text lexeme rest h
  unfold name at h
  split at h
  · split at h
    · cases h; simp
    · simp at h
  · simp at h

theorem string_splits : Rule.Splits string := by
  intro text lexeme rest h
  unfold string at h
  split at h
  · next inner =>
    split at h
    · next behind hbehind =>
      cases h
      refine ⟨by simp, ?_⟩
      have := List.takeWhile_append_dropWhile (p := inString) (l := inner)
      rw [hbehind] at this
      simpa using this
    · simp at h
  · simp at h

theorem lineComment_splits : Rule.Splits lineComment := by
  intro text lexeme rest h
  unfold lineComment at h
  split at h
  · cases h; simp
  · simp at h

theorem splitComment_append {text front rest : List Char}
    (h : splitComment text = some (front, rest)) : front ++ rest = text := by
  induction text generalizing front rest with
  | nil => simp [splitComment] at h
  | cons c text ih =>
    unfold splitComment at h
    split at h
    · next heq => simp at heq
    · next heq =>
      cases heq
      cases h
      rfl
    · next heq =>
      cases heq
      simp only [Option.map_eq_some_iff, Prod.exists, Prod.mk.injEq] at h
      obtain ⟨inner, behind, hinner, rfl, rfl⟩ := h
      simp [ih hinner]

theorem blockComment_splits : Rule.Splits blockComment := by
  intro text lexeme rest h
  unfold blockComment at h
  split at h
  · simp only [Option.map_eq_some_iff, Prod.exists, Prod.mk.injEq] at h
    obtain ⟨front, behind, hsplit, rfl, rfl⟩ := h
    refine ⟨by simp, ?_⟩
    simp [splitComment_append hsplit]
  · simp at h

theorem fault_splits : Rule.Splits fault := by
  intro text lexeme rest h
  unfold fault at h
  split at h
  · cases h; simp
  · cases h; simp
  · cases h; simp
  · simp at h

/-- Every rule splits the texts that it applies to. -/
theorem splits_of_mem_rules {rule : Rule} (h : rule ∈ rules) : rule.Splits := by
  simp only [rules, List.mem_cons, List.not_mem_nil, or_false] at h
  rcases h with rfl | rfl | rfl | rfl | rfl | rfl | rfl | rfl
  · exact run_splits fun _ => rfl
  · exact operator_splits
  · exact name_splits
  · exact string_splits
  · exact run_splits fun _ => rfl
  · exact lineComment_splits
  · exact blockComment_splits
  · exact fault_splits

/-- **The first lexeme splits the text.** It is not empty, and with the rest it is the text. -/
theorem first?_splits : Rule.Splits first? := by
  intro text lexeme rest h
  obtain ⟨rule, hrule, hsome⟩ := List.exists_of_findSome?_eq_some h
  exact splits_of_mem_rules hrule hsome

/-- What is left behind the first lexeme is shorter than the text. -/
theorem length_lt_of_first?_eq_some {text rest : List Char} {lexeme : Lexeme}
    (h : first? text = some (lexeme, rest)) : rest.length < text.length := by
  obtain ⟨hne, happend⟩ := first?_splits h
  have := List.length_pos_iff.mpr hne
  rw [← happend, List.length_append]
  omega

/-- Only the empty text has no first lexeme. -/
theorem first?_eq_none_iff {text : List Char} : first? text = none ↔ text = [] := by
  constructor
  · intro h
    cases text with
    | nil => rfl
    | cons c text =>
      have hfault : fault (c :: text) = none :=
        List.findSome?_eq_none_iff.mp h fault (by simp [rules])
      unfold fault at hfault
      split at hfault <;> simp_all
  · rintro rfl
    rfl

end Lexeme

end FrontEnd
