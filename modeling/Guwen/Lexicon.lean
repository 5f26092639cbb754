/-
**The lexicon: the keywords and how they are spelt.**

* `Lexicon.kind?` is the kind of a spelling, when it is a keyword.
* `Lexicon.longest?` is the longest keyword at the head of a list of characters.
* `Lexicon.spellings` lists the keywords, the longest first.
-/
import Guwen.Token

namespace Guwen

namespace Lexicon

/-- **The keywords.** -/
def entries : List (String × TokenKind) :=
  [("吾有", .declare), ("曰", .named), ("其值", .value), ("也", .close),
   ("一數", .numberType), ("一言", .stringType), ("一列", .listType),
   ("有術", .function), ("欲行是術", .invoke), ("必先得", .params), ("乃得", .returns),
   ("是謂", .functionName), ("之術也", .functionEnd),
   ("若", .whether), ("者", .thereupon), ("若非", .otherwise),
   ("云", .print), ("云云", .blockEnd),
   ("恆為是", .loop), ("乃止", .breaks),
   ("施", .apply), ("於", .toward), ("名之", .nameIt), ("以", .taking),
   ("加", .plus), ("減", .minus), ("乘", .times), ("除", .divide),
   ("大於", .greater), ("小於", .less), ("等於", .equal)]

/-- The number of characters of the longest keyword. -/
def maxLength : Nat := 4

/-- The kind of a keyword, by its spelling. -/
def kind? (spelling : List Char) : Option TokenKind :=
  (entries.find? (·.1.toList == spelling)).map (·.2)

/-- The longest keyword of at most `length` characters at the head of `cs`, with its kind. -/
def longestUpTo? (cs : List Char) : Nat → Option (List Char × TokenKind)
  | 0 => none
  | length + 1 =>
    match kind? (cs.take (length + 1)) with
    | some kind => some (cs.take (length + 1), kind)
    | none => longestUpTo? cs length

/-- **The longest keyword at the head of `cs`,** with its kind. -/
def longest? (cs : List Char) : Option (List Char × TokenKind) := longestUpTo? cs maxLength

/-- Longer spellings come first, and those of one length in the order of their characters. -/
def comesBefore (a b : String) : Bool :=
  b.length < a.length || (a.length == b.length && a ≤ b)

/-- **The spellings of the keywords,** the longest first. -/
def spellings : List String := (entries.map (·.1)).mergeSort comesBefore

end Lexicon

end Guwen
