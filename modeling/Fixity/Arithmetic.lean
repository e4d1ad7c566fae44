import Fixity.Value.Walk

/-!
Contract: the operators on values that are not control structures.

Owns:
- `BinaryOperator` and its tokens;
- the scalar operations on numbers, the operations on texts;
- equality with its tolerance for numbers;
- broadcasting over lists of any depth.

Two lists combine element by element, a list and anything else by pairing every element with it. A
walk keeps one path for each operand.
-/

namespace Fixity

/-- An operator with a native meaning. -/
inductive BinaryOperator where
  | pow
  | mul
  | div
  | mod
  | add
  | sub
  | equal
  | notEqual
  | less
  | greater
  | lessEqual
  | greaterEqual
deriving DecidableEq

namespace BinaryOperator

/-- The written form. -/
def token : BinaryOperator → String
  | pow => "^"
  | mul => "*"
  | div => "/"
  | mod => "%"
  | add => "+"
  | sub => "-"
  | equal => "="
  | notEqual => "!="
  | less => "<"
  | greater => ">"
  | lessEqual => "<="
  | greaterEqual => ">="

def all : List BinaryOperator :=
  [pow, mul, div, mod, add, sub, equal, notEqual, less, greater, lessEqual, greaterEqual]

/-- The operator with a given written form. -/
def ofToken? (token : String) : Option BinaryOperator :=
  all.find? (fun operator => operator.token == token)

/-- Whether the operator asks for an order. -/
def isOrdering : BinaryOperator → Bool
  | less => true
  | greater => true
  | lessEqual => true
  | greaterEqual => true
  | _ => false

/-- Whether an order relation holds, given whether `<` and `≤` do. -/
def holds (operator : BinaryOperator) (less lessEqual : Bool) : Bool :=
  match operator with
  | .less => less
  | .lessEqual => lessEqual
  | .greater => !lessEqual
  | .greaterEqual => !less
  | _ => false

end BinaryOperator

namespace Number

/-- Whether two numbers are ordered as an operator asks; near equality counts as equality. -/
def ordered (operator : BinaryOperator) (left right : Number) : Bool :=
  let less := left.compare right = .lt
  operator.holds less (less || left.nearlyEqual right)

/-- The result of an operator on two numbers. -/
def apply (operator : BinaryOperator) (left right : Number) : Outcome Number :=
  match operator with
  | .pow => left.pow right
  | .mul => .ok (left.mul right)
  | .div => .ok (left.div right)
  | .add => .ok (left.add right)
  | .sub => .ok (left.sub right)
  | .mod =>
      match left.rem? right with
      | some remainder => .ok remainder
      | none => .error (.invalidArguments operator.token left.display right.display)
  | .equal => .ok (.ofBool (left.nearlyEqual right))
  | .notEqual => .ok (.ofBool (!left.nearlyEqual right))
  | .less => .ok (.ofBool (ordered operator left right))
  | .greater => .ok (.ofBool (ordered operator left right))
  | .lessEqual => .ok (.ofBool (ordered operator left right))
  | .greaterEqual => .ok (.ofBool (ordered operator left right))

end Number

namespace Text

/-- A text written so many times in a row. -/
def repeated (text : String) (count : Nat) : String :=
  if text.isEmpty then "" else String.join (List.replicate count text)

/-- Whether two texts are ordered, by code points, as an operator asks. -/
def ordered (operator : BinaryOperator) (left right : String) : Bool :=
  operator.holds (left < right) (left ≤ right)

/-- The result of repeating a text a number of times. -/
def times (text : String) (count : Number) : Outcome String :=
  let fault : RuntimeError := .typeError (.repeatCount count.display)
  if count.isReal then
    match Double.toCount count.real "repeat count" with
    | .ok places => .ok (repeated text places)
    | .error _ => .error fault
  else
    .error fault

end Text

namespace OnHeap

/-! ## Equality -/

/-- Whether all pairs compare as wanted, which the first one that does not decides. -/
def allPairs (compare : Value → Value → OnHeap Value) (negate : Bool) :
    List (Value × Value) → OnHeap Bool
  | [] => return !negate
  | (left, right) :: pairs => do
      if (← compare left right).isTruthy == negate then return negate
      else allPairs compare negate pairs

/-- Equality, or its negation, inside two paths. -/
def equalityWithin (negate : Bool) : (room : Nat) → (lefts rights : Path) → (left right : Value) →
    OnHeap Value
  | 0, _, _, _, _ => throw (.cyclicValue "compare")
  | room + 1, lefts, rights, left, right => do
      let lefts ← lefts.enter left "compare"
      let rights ← rights.enter right "compare"
      let pair := equalityWithin negate room lefts rights
      match left, right with
      | .number left, .number right => return .ofBool (left.nearlyEqual right != negate)
      | .list left, .list right => do
          let left := ((← get).list left).toList
          let right := ((← get).list right).toList
          if left.length = right.length then
            return .ofBool (← allPairs pair negate (left.zip right))
          else
            return .ofBool negate
      | .list list, .number _ => newListOf (← ((← get).list list).toList.mapM fun element =>
          pair element right)
      | .list list, .text _ => newListOf (← ((← get).list list).toList.mapM fun element =>
          pair element right)
      | .number _, .list list => newListOf (← ((← get).list list).toList.mapM (pair left))
      | .text _, .list list => newListOf (← ((← get).list list).toList.mapM (pair left))
      | .text left, .text right =>
          return .ofBool (((← get).text left == (← get).text right) != negate)
      | _, _ => return .ofBool negate

/-- The result of `=`, or of `!=` if negated. -/
def equality (negate : Bool) (left right : Value) : OnHeap Value := do
  equalityWithin negate (← get).room [] [] left right

/-! ## Broadcasting -/

/-- Applies an operation to the pairs that two operands, at least one of them a list, consist of. -/
def mapPairs (operation : Value → Value → OnHeap Value) (left right : Value) : OnHeap Value := do
  match left, right with
  | .list left, .list right => do
      let left := ((← get).list left).toList
      let right := ((← get).list right).toList
      if left.length = right.length then
        newListOf (← (left.zip right).mapM fun pair => operation pair.1 pair.2)
      else
        throw (.unequalLength left.length right.length)
  | .list left, scalar =>
      newListOf (← ((← get).list left).toList.mapM fun element => operation element scalar)
  | scalar, .list right => newListOf (← ((← get).list right).toList.mapM (operation scalar))
  | left, right => operation left right

/-- The result of an operator inside two paths. -/
def binaryWithin (operator : BinaryOperator) : (room : Nat) → (lefts rights : Path) →
    (left right : Value) → OnHeap Value
  | 0, _, _, _, _ => throw (.cyclicValue "broadcast over")
  | room + 1, lefts, rights, left, right =>
      if operator = .equal then equality false left right
      else if operator = .notEqual then equality true left right
      else if operator = .add ∧ (left.text?.isSome ∨ right.text?.isSome) then do
        newText ((← display left) ++ (← display right))
      else
        match left, right with
        | .number left, .number right => return .number (← Number.apply operator left right)
        | _, _ =>
            if left.list?.isSome ∨ right.list?.isSome then do
              let lefts ← lefts.enter left "broadcast over"
              let rights ← rights.enter right "broadcast over"
              mapPairs (binaryWithin operator room lefts rights) left right
            else do
              match operator, left, right with
              | .mul, .text text, .number count =>
                  newText (← Text.times ((← get).text text) count)
              | _, .text first, .text second =>
                  if operator.isOrdering then do
                    let heap ← get
                    return .ofBool (Text.ordered operator (heap.text first) (heap.text second))
                  else
                    throw (.invalidArguments operator.token (← display left) (← display right))
              | _, _, _ =>
                  throw (.invalidArguments operator.token (← display left) (← display right))

/-- The result of an operator on two values. -/
def binary (operator : BinaryOperator) (left right : Value) : OnHeap Value := do
  binaryWithin operator (← get).room [] [] left right

/-- Applies a function to a value that is no list, or to all such values inside a list. -/
def broadcastWithin (function : Value → Outcome Value) : (room : Nat) → Path → Value → OnHeap Value
  | 0, _, _ => throw (.cyclicValue "broadcast over")
  | room + 1, path, value => do
      match value with
      | .list handle =>
          let inside ← path.enter value "broadcast over"
          newListOf (← ((← get).list handle).toList.mapM (broadcastWithin function room inside))
      | other => function other

/-- Applies a function to a value or to everything inside a list. -/
def broadcast (function : Value → Outcome Value) (value : Value) : OnHeap Value := do
  broadcastWithin function (← get).room [] value

end OnHeap

end Fixity
