import FormLang.Diagnostic
import FormLang.Token.Basic
import FormLang.Tree.Basic

/-!
# `FormLang.Tree.Parse` — trees from tokens

A program is one list in parentheses. The reader keeps the lists that are open, innermost first, and
takes one token after the other: a parenthesis opens or closes a list, anything else joins the
innermost one. When the outermost list closes the program is complete and what follows is ignored. If
the program ends before that, the whole of it is unterminated.

Lists may be nested one hundred deep. A list inside a hundred others is passed over: the reader only
counts its parentheses, and leaves a remark in its place.

## Contents
- `maxDepth`: the greatest nesting of lists.
- `Tree.build`: the reader.
- `Parse`, `Tree.parse`: the tree of a token list, and the diagnostic if no parenthesis opens it.
-/

namespace FormLang

/-- How deep lists may be nested. -/
def maxDepth : Nat := 100

namespace Tree

/-- Reads tokens inside open lists until the outermost one closes. `inner` holds the elements of the
innermost open list, last first, and `outer` those of the lists around it. `skipped` counts the
parentheses that are open within a list that is passed over, and is zero otherwise. -/
def build (skipped : Nat) (inner : List Tree) (outer : List (List Tree)) : List Token → Tree
  | [] => unterminated
  | t :: ts => match t.lexeme with
      | .eof => unterminated
      | .lparen =>
          if skipped = 0 then
            -- the innermost list and those around it are open already
            if outer.length + 1 < maxDepth then build 0 [] (inner :: outer) ts
            else build 1 inner outer ts
          else build (skipped + 1) inner outer ts
      | .rparen => match skipped with
          | 0 => match outer with
              | [] => .list inner.reverse
              | around :: outer => build 0 (.list inner.reverse :: around) outer ts
          -- this closes the list that was passed over
          | 1 => build 0 (tooDeep :: inner) outer ts
          | k + 2 => build (k + 1) inner outer ts
      | .number n => build skipped (if skipped = 0 then .number n :: inner else inner) outer ts
      | .text s => build skipped (if skipped = 0 then .text s :: inner else inner) outer ts
      | .name s => build skipped (if skipped = 0 then .name s :: inner else inner) outer ts

end Tree

/-- The result of reading tokens: a tree, and what there is to report. -/
structure Parse where
  tree : Tree
  diagnostics : List Diagnostic
deriving DecidableEq

/-- The tree of a token list. If the list does not begin with an opening parenthesis this is
reported, and the tree is as if it did. -/
def Tree.parse (ts : List Token) : Parse :=
  match ts with
  | ⟨.lparen, _⟩ :: rest => ⟨build 0 [] [] rest, []⟩
  | _ => ⟨build 0 [] [] ts, [.missingParen]⟩

end FormLang
