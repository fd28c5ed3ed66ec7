import FormLang.Action
import FormLang.Operation
import FormLang.Tree.Basic

/-!
# `FormLang.Tree.Evaluate` — what a tree does and what it is worth

A number, a text and a name are worth themselves; a name alone does not read a variable. A list that
begins with a name is a command, and any other list is worth the list of its elements' values. A
command sees each argument through `Value.unwrap`: a list of one value counts as that value.

## Contents
- `Command`, `Command.ofName?`: the commands and their spellings.
- `Tree.evaluate`: the value of a tree, as an action.
- `Tree.mapOperands`, `Tree.foldOperands`: the two ways in which commands go through arguments. Each
  operand is dealt with before the next argument is evaluated.
-/

namespace FormLang

/-- A command. -/
inductive Command where
  | print
  | arithmetic (op : Operation)
  | set
  | get
deriving DecidableEq

/-- The command of a name. -/
def Command.ofName? : String → Option Command
  | "print" => some .print
  | "add" => some (.arithmetic .add)
  | "sub" | "subtract" => some (.arithmetic .sub)
  | "mult" | "multiply" => some (.arithmetic .mul)
  | "div" | "divide" => some (.arithmetic .div)
  | "set" => some .set
  | "get" => some .get
  | _ => none

namespace Tree

/-- The name that a tree gives to a variable that is bound, if it may. -/
def boundName? : Tree → Option String
  | .name s | .text s => some s
  | .number _ | .list _ | .error _ | .foreign _ => none

/-- The name under which a variable is looked up. A number stands for its digits. -/
def readName? : Tree → Except Failure (Option String)
  | .name s | .text s => .ok (some s)
  | .number n => (Numeral.digitsOrFail n).map some
  | .list _ | .error _ | .foreign _ => .ok none

/-- The result of reading a variable: its elements if it is bound to a list, else its value alone, and
nothing if it is not bound. -/
def readVariable : List Tree → Action (List Value)
  | [] => do
      Action.complain .tooFewParameters
      pure []
  | slot :: _ => do
      match ← Action.ofExcept slot.readName? with
      | none => pure []
      | some x =>
          match ← Action.lookup x with
          | none => pure []
          | some v => pure v.elements

/-- The value to which `set` binds its name: a single operand itself, several as a list. -/
def packed : List Value → Value
  | [v] => v
  | vs => .list vs

/-- Logs an operand and keeps it. -/
def printOperand (v : Value) : Action Value := do
  Action.log v
  pure v

/-- Combines one more operand with what has been combined so far, or reports why it is left out. -/
def combineOperand (op : Operation) (soFar : Option Value) (v : Value) : Action (Option Value) :=
  match op.combine soFar v with
  | .ok a => pure (some a)
  | .error d => do
      Action.complain d
      pure soFar

mutual

/-- The value of a tree. -/
def evaluate : Tree → Action Value
  | .number n => pure (.int n)
  | .text s => pure (.text s)
  | .name s => pure (.text s)
  | .list ts => Value.list <$> evaluateForm ts
  | .error message => do
      Action.complain (.malformed message)
      pure (.text message)
  | .foreign v => Action.fail (.ofForeign v)

/-- The values that a list of trees yields: those of a command if a name comes first. -/
def evaluateForm : List Tree → Action (List Value)
  | [] => pure []
  | .name s :: args => match Command.ofName? s with
      | some .print => mapOperands printOperand args
      | some (.arithmetic op) => Option.toList <$> foldOperands (combineOperand op) none args
      | some .set => bindVariable args
      | some .get => readVariable args
      | none => do
          Action.complain (.unknownCommand s)
          pure [.int 1]
  | t :: ts => do
      let v ← evaluate t
      (v :: ·) <$> evaluateAll ts

/-- The values of trees, one after the other. -/
def evaluateAll : List Tree → Action (List Value)
  | [] => pure []
  | t :: ts => do
      let v ← evaluate t
      (v :: ·) <$> evaluateAll ts

/-- Does something with the operand of each argument, and collects what comes of it. -/
def mapOperands (f : Value → Action Value) : List Tree → Action (List Value)
  | [] => pure []
  | t :: ts => do
      let v ← evaluate t
      let r ← f v.unwrap
      (r :: ·) <$> mapOperands f ts

/-- Passes a state through the operands of the arguments. -/
def foldOperands (f : Option Value → Value → Action (Option Value)) (s : Option Value) :
    List Tree → Action (Option Value)
  | [] => pure s
  | t :: ts => do
      let v ← evaluate t
      let s' ← f s v.unwrap
      foldOperands f s' ts

/-- Binds the name that comes first to the operands of the rest, which are evaluated only if the name
is one. -/
def bindVariable : List Tree → Action (List Value)
  | [] | [_] => do
      Action.complain .tooFewParameters
      pure []
  | slot :: t :: ts => match slot.boundName? with
      | none => do
          Action.complain .invalidName
          pure []
      | some x => do
          let v ← evaluate t
          let vs ← mapOperands pure ts
          let operands := v.unwrap :: vs
          Action.assign x (packed operands)
          pure operands

end

end Tree

end FormLang
