/-!
# Indefinite articles

A noun in a message carries an article. It is chosen by the first character behind any leading
punctuation, so that a quoted noun and a bare one get the same article.
-/

namespace FrontEnd.Text

/-- Whether a character is one of the printable ASCII characters that are neither letter, digit
nor space. -/
def isPunctuation (c : Char) : Bool :=
  '!' ≤ c && c ≤ '~' && !c.isAlphanum

/-- The letters that take "an". -/
def vowels : List Char := ['A', 'E', 'I', 'O', 'U', 'Y', 'a', 'e', 'i', 'o', 'u', 'y']

/-- A noun with its article: "an" before a vowel letter, "a" before anything else. -/
def withArticle (noun : String) : String :=
  match (noun.toList.dropWhile isPunctuation).head? with
  | some c => if c ∈ vowels then "an " ++ noun else "a " ++ noun
  | none => "a " ++ noun

end FrontEnd.Text
