import Fixity.Syntax.Node

/-!
Contract: the native functions of the language.

Owns:
- `Native`, one constructor for each function or family of functions;
- the number of arguments each takes;
- `Native.catalogue`, their names.

Does not own: what they do.
-/

namespace Fixity

/-- The numbers of arguments a function takes. -/
inductive Arity where
  | exactly (count : Nat)
  | oneOf (counts : List Nat)
  | atLeast (count : Nat)
deriving DecidableEq

namespace Arity

/-- Whether a function takes that many arguments. -/
def accepts (count : Nat) : Arity → Bool
  | exactly expected => count == expected
  | oneOf counts => counts.contains count
  | atLeast least => least ≤ count

/-- The arity in messages. -/
def display : Arity → String
  | exactly expected => toString expected
  | oneOf counts => "one of " ++ String.intercalate ", " (counts.map toString)
  | atLeast least => "at least " ++ toString least

/-! ## Rows of as many arguments -/

variable {α : Type} {arguments : List α}

theorem empty (accepts : (Arity.exactly 0).accepts arguments.length) : arguments = [] :=
  match arguments with
  | [] => rfl

theorem one (accepts : (Arity.exactly 1).accepts arguments.length) :
    ∃ first, arguments = [first] :=
  match arguments with
  | [first] => ⟨first, rfl⟩

theorem two (accepts : (Arity.exactly 2).accepts arguments.length) :
    ∃ first second, arguments = [first, second] :=
  match arguments with
  | [first, second] => ⟨first, second, rfl⟩

theorem three (accepts : (Arity.exactly 3).accepts arguments.length) :
    ∃ first second third, arguments = [first, second, third] :=
  match arguments with
  | [first, second, third] => ⟨first, second, third, rfl⟩

theorem twoOrThree (accepts : (Arity.oneOf [2, 3]).accepts arguments.length) :
    (∃ first second, arguments = [first, second]) ∨
      ∃ first second third, arguments = [first, second, third] :=
  match arguments with
  | [first, second] => .inl ⟨first, second, rfl⟩
  | [first, second, third] => .inr ⟨first, second, third, rfl⟩

theorem threeOrMore (accepts : (Arity.atLeast 3).accepts arguments.length) :
    ∃ first second third rest, arguments = first :: second :: third :: rest :=
  match arguments with
  | first :: second :: third :: rest => ⟨first, second, third, rest, rfl⟩

end Arity

/-- A function of a complex number. -/
inductive ComplexFunction where
  | sqrt
  | exp
deriving DecidableEq

/-- A function of a real number. -/
inductive RealFunction where
  | floor
  | ceil
  | round
  | ln
  | log10
  | log2
  | sin
  | cos
  | tan
  | asin
  | acos
  | atan
  | sinh
  | cosh
  | tanh
deriving DecidableEq

/-- A part of a complex number. -/
inductive NumberPart where
  | real
  | imaginary
  | magnitude
deriving DecidableEq

/-- A question about the type of a value. -/
inductive TypeTest where
  | list
  | number
  | function
  | text
  | object
  | node (kind : NodeKind)
deriving DecidableEq

/-- An operand of an operation node. -/
inductive Side where
  | left
  | right
deriving DecidableEq

/-- A native function. -/
inductive Native where
  | get
  | set
  | push
  | pop
  | len
  | slice
  | splice
  | concat
  | dup
  | range
  | split
  | join
  | map
  | filter
  /-- Named `accumulate` if the intermediate results are kept, otherwise `reduce`. -/
  | fold (history : Bool)
  | object
  | keys
  | values
  | items
  | haskey
  | delkey
  | part (part : NumberPart)
  | complex (function : ComplexFunction)
  | real (function : RealFunction)
  | lower
  | upper
  | trim
  | replace
  | startsWith
  | endsWith
  | str
  | getOperand (side : Side)
  | setOperand (side : Side)
  | getop
  | setop
  | getname
  | setname
  | gettext
  | settext
  | getsubasts
  | getast
  | getbody
  | setbody
  | getparams
  | test (test : TypeTest)
  | eval
  | evalAst
  | gensym
  | del
  | defined
  | ptable
  | opPriority
  | trycatch
  | throw
deriving DecidableEq

/-- The name of a real function. -/
def RealFunction.name : RealFunction → String
  | floor => "floor"
  | ceil => "ceil"
  | round => "round"
  | ln => "ln"
  | log10 => "log10"
  | log2 => "log2"
  | sin => "sin"
  | cos => "cos"
  | tan => "tan"
  | asin => "asin"
  | acos => "acos"
  | atan => "atan"
  | sinh => "sinh"
  | cosh => "cosh"
  | tanh => "tanh"

/-- The name of a complex function. -/
def ComplexFunction.name : ComplexFunction → String
  | sqrt => "sqrt"
  | exp => "exp"

/-- The name of the function that reads a part. -/
def NumberPart.name : NumberPart → String
  | real => "re"
  | imaginary => "im"
  | magnitude => "abs"

namespace Native

/-- The number of arguments of a native function. -/
def arity : Native → Arity
  | get => .exactly 2
  | set => .exactly 3
  | push => .exactly 2
  | pop => .exactly 1
  | len => .exactly 1
  | slice => .oneOf [2, 3]
  | splice => .atLeast 3
  | concat => .atLeast 0
  | dup => .exactly 1
  | range => .oneOf [2, 3]
  | split => .exactly 2
  | join => .exactly 2
  | map => .exactly 2
  | filter => .exactly 2
  | fold _ => .oneOf [2, 3]
  | object => .exactly 0
  | keys => .exactly 1
  | values => .exactly 1
  | items => .exactly 1
  | haskey => .exactly 2
  | delkey => .exactly 2
  | part _ => .exactly 1
  | complex _ => .exactly 1
  | real _ => .exactly 1
  | lower => .exactly 1
  | upper => .exactly 1
  | trim => .exactly 1
  | replace => .exactly 3
  | startsWith => .exactly 2
  | endsWith => .exactly 2
  | str => .exactly 1
  | getOperand _ => .exactly 1
  | setOperand _ => .exactly 2
  | getop => .exactly 1
  | setop => .exactly 2
  | getname => .exactly 1
  | setname => .exactly 2
  | gettext => .exactly 1
  | settext => .exactly 2
  | getsubasts => .exactly 1
  | getast => .exactly 1
  | getbody => .exactly 1
  | setbody => .exactly 2
  | getparams => .exactly 1
  | test _ => .exactly 1
  | eval => .exactly 1
  | evalAst => .exactly 1
  | gensym => .exactly 0
  | del => .atLeast 0
  | defined => .exactly 0
  | ptable => .exactly 0
  | opPriority => .exactly 1
  | trycatch => .oneOf [1, 2]
  | throw => .exactly 1

/-- The functions on numbers, under their names. -/
def numeric : List (String × Native) :=
  [NumberPart.real, .imaginary, .magnitude].map (fun kind => (kind.name, part kind)) ++
    [ComplexFunction.sqrt, .exp].map (fun function => (function.name, complex function)) ++
    [RealFunction.floor, .ceil, .round, .ln, .log10, .log2, .sin, .cos, .tan, .asin, .acos, .atan,
      .sinh, .cosh, .tanh].map (fun function => (function.name, real function))

/-- Every native function under its name. -/
def catalogue : List (String × Native) :=
  [("get", get), ("set", set), ("push", push), ("pop", pop), ("len", len), ("slice", slice),
    ("splice", splice), ("concat", concat), ("dup", dup), ("range", range), ("split", split),
    ("join", join), ("map", map), ("filter", filter), ("reduce", fold false),
    ("accumulate", fold true), ("object", object), ("keys", keys), ("values", values),
    ("items", items), ("haskey", haskey), ("delkey", delkey)] ++ numeric ++
  [("lower", lower), ("upper", upper), ("trim", trim), ("replace", replace),
    ("starts_with", startsWith), ("ends_with", endsWith), ("str", str),
    ("getleft", getOperand .left), ("getright", getOperand .right), ("getop", getop),
    ("setleft", setOperand .left), ("setright", setOperand .right), ("setop", setop),
    ("getname", getname), ("setname", setname), ("gettext", gettext), ("settext", settext),
    ("getsubasts", getsubasts), ("getast", getast), ("getbody", getbody), ("setbody", setbody),
    ("getparams", getparams), ("islist", test .list), ("isnum", test .number),
    ("isfun", test .function), ("isstr", test .text), ("isobj", test .object),
    ("isnodeast", test (.node .quoted)), ("isnodestr", test (.node .text)),
    ("isnodelist", test (.node .list)), ("isnodenum", test (.node .number)),
    ("isnodeexpr", test (.node .body)), ("isnodeident", test (.node .identifier)),
    ("isnodeop", test (.node .operation)), ("eval", eval), ("eval_ast", evalAst),
    ("gensym", gensym), ("del", del), ("defined", defined), ("ptable", ptable),
    ("op_priority", opPriority), ("trycatch", trycatch), ("throw", throw)]

end Native

end Fixity
