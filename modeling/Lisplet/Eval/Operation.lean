import Lisplet.Machine
import Lisplet.Value.Equality

/-!
# Operations

What the built-in functions of values do.  Sums and products start from zero and one; a
difference of one number negates it; a quotient starts from one and is divided by every argument.
A number that is computed gets a fresh mark, with one exception: when the last division is of
zero, or of a result that is no number, by zero, the result is the shared one.
-/

namespace Lisplet

/-- The arguments of an operation on numbers; the first that is no number is the fault. -/
def numbersOf (operation : Operation) : List Value → Except EvalFault (List Float)
  | [] => .ok []
  | .number x :: rest => (numbersOf operation rest).map (x.value :: ·)
  | value :: _ => .error (.notNumber operation value)

/-- Divides one after the other, and says whether the last division has the shared result. -/
def quotient (xs : List Float) : Float × Bool :=
  xs.foldl (fun (acc, _) x => (acc / x, x == 0 && (acc == 0 || !(acc == acc)))) (1, false)

namespace Eval

/-- A number with a fresh mark. -/
def freshNumber (x : Float) : Eval Value := do
  let mark ← freshMark
  pure (.number ⟨x, mark⟩)

/-- Calculates with the numbers that the arguments are. -/
def arithmetic (operation : Operation) (arguments : List Value)
    (calculate : List Float → Eval Value) : Eval Value :=
  match numbersOf operation arguments with
  | .error fault => fail fault
  | .ok xs => calculate xs

def difference : List Float → Eval Value
  | [] => pure .null
  | [x] => freshNumber (-x)
  | x :: xs => freshNumber (xs.foldl (· - ·) x)

/-- Runs an operation on values. -/
def operate (operation : Operation) (arguments : List Value) : Eval Value :=
  match operation with
  | .add => arithmetic .add arguments fun xs => freshNumber (xs.foldl (· + ·) 0)
  | .sub => arithmetic .sub arguments difference
  | .mul => arithmetic .mul arguments fun xs => freshNumber (xs.foldl (· * ·) 1)
  | .div => arithmetic .div arguments fun xs =>
      match quotient xs with
      | (x, true) => pure (.number ⟨x, Number.sharedMark⟩)
      | (x, false) => freshNumber x
  | .equal => pure (.boolean (Value.allEqual arguments))
  | .write => do
      print (String.join (Value.displays arguments))
      pure .null
  | .block => pure (arguments.getLast?.getD .null)

end Eval

end Lisplet
