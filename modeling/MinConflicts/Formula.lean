import MinConflicts.Path
import MinConflicts.Value.Arith

/-!
# Formulas

Formulas state constraints and ratings. They are evaluated in a scope with a model, a state and,
for ratings, a value. Conjunction and disjunction stop at the operand that decides and give it.
-/
namespace MinConflicts

inductive UnaryOp where
  | neg
  | abs
  | not
  | length

inductive BinaryOp where
  | sub
  | div
  | floorDiv
  | mod
  | eq
  | ne
  | lt
  | le
  | gt
  | ge

inductive FoldOp where
  | add
  | mul

inductive Formula where
  | const (v : Value)
  | value
  | model
  | state
  | modelAt (path : String)
  | stateAt (path : String)
  | modelItem (key : String)
  | unary (op : UnaryOp) (a : Formula)
  | binary (op : BinaryOp) (a b : Formula)
  | fold (op : FoldOp) (first : Formula) (rest : List Formula)
  | and (first : Formula) (rest : List Formula)
  | or (first : Formula) (rest : List Formula)
  | cond (c a b : Formula)
  /-- Whether a text starts with another one, which is evaluated only after a text was found. -/
  | startsWith (text start : Formula)
  | lookup (a : Formula) (pairs : List (Value × Value)) (fallback : Value)
  | raise (kind text : String)

structure Scope where
  model : Value := .null
  state : Value := .null
  value : Value := .null

def UnaryOp.apply : UnaryOp → Value → Except Fault Value
  | .neg, v => v.neg
  | .abs, v => v.abs
  | .not, v => .ok (.bool !v.truthy)
  | .length, v => do return .int (← v.length)

def BinaryOp.apply : BinaryOp → Value → Value → Except Fault Value
  | .sub, v, w => v.sub w
  | .div, v, w => v.div w
  | .floorDiv, v, w => v.floorDiv w
  | .mod, v, w => v.floorMod w
  | .eq, v, w => .ok (.bool (v.eq w))
  | .ne, v, w => .ok (.bool !(v.eq w))
  | .lt, v, w => .bool <$> v.lt w
  | .le, v, w => .bool <$> v.le w
  | .gt, v, w => .bool <$> w.lt v
  | .ge, v, w => .bool <$> w.le v

def FoldOp.apply : FoldOp → Value → Value → Except Fault Value
  | .add, v, w => v.add w
  | .mul, v, w => v.mul w

namespace Formula

mutual

def eval (s : Scope) : Formula → Except Fault Value
  | .const v => .ok v
  | .value => .ok s.value
  | .model => .ok s.model
  | .state => .ok s.state
  | .modelAt path => s.model.getPath path
  | .stateAt path => s.state.getPath path
  | .modelItem key => s.model.item key
  | .unary op a => do op.apply (← eval s a)
  | .binary op a b => do
    let v ← eval s a
    op.apply v (← eval s b)
  | .fold op a as => do evalFold s op (← eval s a) as
  | .and a as => do evalAnd s (← eval s a) as
  | .or a as => do evalOr s (← eval s a) as
  | .cond c a b => do if (← eval s c).truthy then eval s a else eval s b
  | .startsWith a b => do
    let text ← (← eval s a).toText
    return .bool (← Value.startsWith (.str text) (← eval s b))
  | .lookup a pairs fallback => do
    let v ← eval s a
    return ((pairs.find? fun p => p.1.eq v).map (·.2)).getD fallback
  | .raise kind text => .error (.raised kind text)

def evalFold (s : Scope) (op : FoldOp) (acc : Value) : List Formula → Except Fault Value
  | [] => .ok acc
  | a :: as => do evalFold s op (← op.apply acc (← eval s a)) as

def evalAnd (s : Scope) (last : Value) : List Formula → Except Fault Value
  | [] => .ok last
  | a :: as => if last.truthy then do evalAnd s (← eval s a) as else .ok last

def evalOr (s : Scope) (last : Value) : List Formula → Except Fault Value
  | [] => .ok last
  | a :: as => if last.truthy then .ok last else do evalOr s (← eval s a) as

end

def rating (f : Formula) : Value → Except Fault Value :=
  fun v => f.eval { value := v }

end Formula

end MinConflicts
