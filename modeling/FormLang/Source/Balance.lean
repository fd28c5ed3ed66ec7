/-!
# `FormLang.Source.Balance` — how many parentheses are open

## Contents
- `balance`: opening parentheses less closing ones, those inside quotes not counted. A quote without
  a partner hides all that follows.

The count is taken in one pass over the characters and needs no tokens, so it is cheap enough to
be asked after every line that a person types.
-/

namespace FormLang

/-- The balance of a text, `quoted` telling whether it begins inside quotes. -/
def balanceFrom (quoted : Bool) : List Char → Int
  | [] => 0
  | c :: cs =>
      if c = '"' then balanceFrom (!quoted) cs
      else if quoted then balanceFrom true cs
      else if c = '(' then 1 + balanceFrom false cs
      else if c = ')' then -1 + balanceFrom false cs
      else balanceFrom false cs

/-- Opening parentheses less closing ones outside quotes. -/
def balance (src : String) : Int := balanceFrom false src.toList

end FormLang
