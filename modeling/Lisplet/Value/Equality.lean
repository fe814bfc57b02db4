import Lisplet.Value

/-!
# Equality of values

Programs compare values loosely: booleans, numbers and strings that hold a numeral are compared
by the number that they stand for (`Value.asNumber?`), two strings by their text, closures by
identity and primitives by what they are.  Inside lists the items are compared strictly: there a
string is never a number.
-/

namespace Lisplet

namespace Number

def ofBool (b : Bool) : Float := if b then 1 else 0

end Number

namespace Value

/-- The number that a boolean, a number or a string stands for; a string of blanks stands for
zero. -/
def asNumber? : Value → Option Float
  | boolean b => some (Number.ofBool b)
  | number x => some x.value
  | string text =>
    let numeral := Text.trim text.toList
    if numeral.isEmpty then some 0
    else if isNumeral numeral then Binary64.read? numeral
    else none
  | _ => none

mutual

/-- Equality inside lists. -/
def strictlyEqual : Value → Value → Bool
  | null, null => true
  | boolean a, boolean b => a == b
  | boolean a, number y => Number.ofBool a == y.value
  | number x, boolean b => x.value == Number.ofBool b
  | number x, number y => x.same y
  | string s, string t => s == t
  | list xs, list ys => allStrictlyEqual xs ys
  | primitive p, primitive q => p == q
  | closure c, closure d => c.id == d.id
  | _, _ => false

/-- Lists are equal item by item. -/
def allStrictlyEqual : List Value → List Value → Bool
  | [], [] => true
  | x :: xs, y :: ys => strictlyEqual x y && allStrictlyEqual xs ys
  | _, _ => false

end

/-- Whether two values stand for one number. -/
def numericallyEqual (a b : Value) : Bool :=
  match a.asNumber?, b.asNumber? with
  | some x, some y => x == y
  | _, _ => false

/-- The equality that programs test. -/
def looselyEqual : Value → Value → Bool
  | null, null => true
  | string s, string t => s == t
  | number x, number y => x.same y
  | list xs, list ys => allStrictlyEqual xs ys
  | primitive p, primitive q => p == q
  | closure c, closure d => c.id == d.id
  | a, b => numericallyEqual a b

/-- Whether all values are loosely equal to the first. -/
def allEqual : List Value → Bool
  | [] => true
  | first :: rest => rest.all (first.looselyEqual ·)

end Value

end Lisplet
