import PageTemplate.EvalError
import PageTemplate.Text.Bytes
import PageTemplate.Value.Shown

namespace PageTemplate.Value

def mismatch (op : String) (left right : Value) (pos : Position) : EvalError :=
  .operandTypes op left.type right.type pos

def ofInt (n : Int) (pos : Position) : Except EvalError Value :=
  match int64? n with
  | some n => .ok (.int n)
  | none => .error (.integerOverflow pos)

def intOperands (op : String) (left right : Value) (pos : Position) :
    Except EvalError (Int × Int) :=
  match left.coerceInt?, right.coerceInt? with
  | some a, some b => .ok (a.toInt, b.toInt)
  | _, _ => .error (mismatch op left right pos)

/-- Adds two integers; joins the texts where one side is text and the other is text or an
integer. -/
def add (left right : Value) (pos : Position) : Except EvalError Value :=
  match left, right with
  | .int a, .int b => ofInt (a.toInt + b.toInt) pos
  | .int a, .str b => .ok (.str (Text.decimal a ++ b))
  | .str a, .int b => .ok (.str (a ++ Text.decimal b))
  | .str a, .str b => .ok (.str (a ++ b))
  | _, _ => .error (mismatch "+" left right pos)

def sub (left right : Value) (pos : Position) : Except EvalError Value := do
  let (a, b) ← intOperands "-" left right pos
  ofInt (a - b) pos

def mul (left right : Value) (pos : Position) : Except EvalError Value := do
  let (a, b) ← intOperands "*" left right pos
  ofInt (a * b) pos

def div (left right : Value) (pos : Position) : Except EvalError Value := do
  let (a, b) ← intOperands "/" left right pos
  if b = 0 then .error (.divisionByZero pos) else ofInt (a.tdiv b) pos

/-- The remainder, with the sign of the dividend; it overflows where the quotient does. -/
def rem (left right : Value) (pos : Position) : Except EvalError Value := do
  let (a, b) ← intOperands "%" left right pos
  if b = 0 then .error (.divisionByZero pos)
  else
    let _ ← ofInt (a.tdiv b) pos
    ofInt (a.tmod b) pos

def negate (operand : Value) (pos : Position) : Except EvalError Value :=
  match operand with
  | .int n => ofInt (-n.toInt) pos
  | _ => .error (.operandType "-" operand.type pos)

def not (operand : Value) (pos : Position) : Except EvalError Value :=
  match operand with
  | .bool b => .ok (.bool !b)
  | _ => .error (.operandType "!" operand.type pos)

def order? : Value → Value → Option Ordering
  | .int a, .int b => some (compare a.toInt b.toInt)
  | .str a, .str b => some (Text.compareText a b)
  | .int a, .str s => (Text.readInt64? s).map fun b => compare a.toInt b.toInt
  | .str s, .int b => (Text.readInt64? s).map fun a => compare a.toInt b.toInt
  | _, _ => none

/-- As in the order, and booleans among themselves and with the texts that spell them. -/
def equal? : Value → Value → Option Bool
  | .bool a, .bool b => some (a == b)
  | .bool a, .str s => (readBool? s).map (a == ·)
  | .str s, .bool b => (readBool? s).map (· == b)
  | left, right => (order? left right).map (· == .eq)

def comparison (op : String) (left right : Value) (pos : Position) : Except EvalError Ordering :=
  match order? left right with
  | some order => .ok order
  | none => .error (mismatch op left right pos)

def equality (op : String) (left right : Value) (pos : Position) : Except EvalError Bool :=
  match equal? left right with
  | some b => .ok b
  | none => .error (mismatch op left right pos)

def relate (op : String) (left right : Value) (pos : Position) : Except EvalError Value :=
  match op with
  | "==" => (equality op left right pos).map .bool
  | "!=" => (equality op left right pos).map fun b => .bool !b
  | "<" => (comparison op left right pos).map fun o => .bool (o == .lt)
  | ">" => (comparison op left right pos).map fun o => .bool (o == .gt)
  | "<=" => (comparison op left right pos).map fun o => .bool (o != .gt)
  | ">=" => (comparison op left right pos).map fun o => .bool (o != .lt)
  | _ => .error (mismatch op left right pos)

def boolOperands (op : String) (left right : Value) (pos : Position) :
    Except EvalError (Bool × Bool) :=
  match left.coerceBool?, right.coerceBool? with
  | some a, some b => .ok (a, b)
  | _, _ => .error (mismatch op left right pos)

def and (left right : Value) (pos : Position) : Except EvalError Value :=
  (boolOperands "&&" left right pos).map fun operands => .bool (operands.1 && operands.2)

def or (left right : Value) (pos : Position) : Except EvalError Value :=
  (boolOperands "||" left right pos).map fun operands => .bool (operands.1 || operands.2)

def binary (op : String) (left right : Value) (pos : Position) : Except EvalError Value :=
  match op with
  | "+" => add left right pos
  | "-" => sub left right pos
  | "*" => mul left right pos
  | "/" => div left right pos
  | "%" => rem left right pos
  | "&&" => and left right pos
  | "||" => or left right pos
  | _ => relate op left right pos

def unary (op : String) (operand : Value) (pos : Position) : Except EvalError Value :=
  match op with
  | "!" => not operand pos
  | "-" => negate operand pos
  | _ => .error (.operandType op operand.type pos)

end PageTemplate.Value
