import FormLang.Diagnostic
import FormLang.Value

/-!
# `FormLang.Operation` — the four arithmetic commands

A command combines its operands from left to right. An operand that cannot be combined is reported
and left out, and the rest goes on as if it were not there. The first operand that is taken stands
for itself: neither zero nor size is an obstacle there.

## Contents
- `Operation`, `Operation.accepts`, `Operation.noun`.
- `Operation.apply`: two operands combined.
- `Operation.combine`: one more operand for what has been combined so far, or why it is left out.
-/

namespace FormLang

/-- An arithmetic command. -/
inductive Operation where
  | add
  | sub
  | mul
  | div
deriving DecidableEq

namespace Operation

/-- What the diagnostic about an invalid operand calls the operation. -/
def noun : Operation → String
  | add => "addition"
  | sub => "subtraction"
  | mul => "multiplication"
  | div => "division"

/-- Whether the operation takes a value at all: addition takes numbers and texts, the others numbers
only. -/
def accepts : Operation → Value → Bool
  | add, v => v.isScalar
  | sub, v | mul, v | div, v => v.isNumber

/-- The arithmetic of the operation. -/
def arithmetic? : Operation → Number → Number → Option Number
  | add => Number.add?
  | sub => Number.sub?
  | mul => Number.mul?
  | div => Number.div?

/-- Combines two numbers, if both values are numbers. -/
def applyNumbers (op : Operation) : Value → Value → Except Diagnostic Value
  | .number m, .number n => match op.arithmetic? m n with
      | some r => .ok (.number r)
      | none => .error .numericOverflow
  | _, _ => .error (.invalidOperand op.noun)

/-- Combines two operands. Where one of them is a text, addition joins the displays of both. Zero
divides nothing. -/
def apply (op : Operation) (a v : Value) : Except Diagnostic Value :=
  if op = add && (a.isText || v.isText) then .ok (.text (a.display ++ v.display))
  else if op = div && v.isZero then .error .divisionByZero
  else op.applyNumbers a v

/-- Takes one more operand, or says why it is left out. -/
def combine (op : Operation) (soFar : Option Value) (v : Value) : Except Diagnostic Value :=
  if op.accepts v then
    match soFar with
    | none => .ok v
    | some a => op.apply a v
  else .error (.invalidOperand op.noun)

end Operation

end FormLang
