/-!
Contract: the standard library, written in the language itself.

Owns:
- the definitions that an environment evaluates before any program, section by section;
- `Prelude.source`, all of them in order. Later sections use the operators of earlier ones.
-/

namespace Fixity.Prelude

/-- Indexing and composition. -/
def composition : List String :=
  ["\x7b::\x7d << [0.5, get];",
    "\x7b.\x7d << [op_priority @ \x7b::\x7d + 0.5, [f, g] -> (i => f @ [g @ i])];",
    "\x7b..\x7d << [op_priority @ \x7b.\x7d, [f, g] -> (i => f @ (g @ i))];"]

/-- Application to the tree of an operand; the second form also evaluates the answer in the caller's
scope. -/
def macroApplication : List String :=
  ["\x7b@:\x7d <<< [op_priority @ \x7b@\x7d, [f, g] -> (eval_ast @ [f]) @ [g]];",
    "\x7b@-\x7d <<< [op_priority @ \x7b@\x7d, [f, g] -> eval_ast @!! [(eval_ast @ [f]) @ [g]]];"]

/-- The operators as functions, and functions made from them. -/
def operatorFunctions : List String :=
  ["add : [a, b] -> a + b;",
    "sub : [a, b] -> a - b;",
    "mul : [a, b] -> a * b;",
    "div : [a, b] -> a / b;",
    "mod : [a, b] -> a % b;",
    "pow : [a, b] -> a ^ b;",
    "eq : [a, b] -> a = b;",
    "neq : [a, b] -> a != b;",
    "lt : [a, b] -> a < b;",
    "gt : [a, b] -> a > b;",
    "lte : [a, b] -> a <= b;",
    "gte : [a, b] -> a >= b;",
    "apply : [f, x] -> f @ [x];",
    "id : x -> x;",
    "uid : x => x;",
    "neg : mul'~1;",
    "bool : a -> a ? [1, 0];",
    "not : a -> a ? [0, 1];",
    "max : [a, b] -> (a > b) ? [a, b];",
    "min : [a, b] -> (a < b) ? [a, b];",
    "maxl : reduce'max;",
    "minl : reduce'min;"]

/-- Logic that evaluates its right side only if it has to. -/
def logic : List String :=
  ["\x7b&&\x7d <<< [op_priority @ \x7b=\x7d + 0.5, [a, b] ->",
    "    (eval_ast @!! a) ? [(eval_ast @!! b) ? [1, 0], 0]];",
    "\x7b||\x7d <<< [op_priority @ \x7b&&\x7d, [a, b] ->",
    "    (eval_ast @!! a) ? [1, (eval_ast @!! b) ? [1, 0]]];",
    "and : [a, b] -> a && b;",
    "or : [a, b] -> a || b;",
    "\x7b<>\x7d << [op_priority @ \x7b&&\x7d, [a, b] -> (a && not @ [b]) || (b && not @ [a])];",
    "all : reduce'[and, _, 1];",
    "any : reduce'[or, _, 0];",
    "sum : reduce'[add, _, 0];",
    "prod : reduce'[mul, _, 1];",
    "fact : n -> (n > 1) ? [prod @ [range @ [2, n]], 1];",
    "repeat : [v, n] -> map @ [x -> v, range @ [1, n]];"]

/-- Functions on lists. -/
def lists : List String :=
  ["same : [a, b] -> (",
    "    r : a = b;",
    "    islist @ [r] ? [all @ [r], r]",
    ");",
    "find : [l, f] -> (",
    "    i : ~1;",
    "    [j : 0, (i = ~1) && (j < len @ [l]), j : j + 1] # (",
    "        (f @ [l::j]) ? [i : j, 0]",
    "    );",
    "    i",
    ");",
    "index_of : [l, e] -> find @ [l, x -> same @ [x, e]];",
    "includes : [l, e] -> (index_of @ [l, e]) != ~1;",
    "reverse : l -> map @ [get'[l], range @ [len @ [l] - 1, 0, ~1]];",
    "uniq : l -> (",
    "    r : [];",
    "    map @ [e -> (includes @ [r, e]) ? [0, push @ [r, e]], l];",
    "    r",
    ");",
    "nwise : [l, n] -> map @ [",
    "    i -> map @ [j -> l::(i + j), range @ [0, n - 1]],",
    "    range @ [0, len @ [l] - n]",
    "];",
    "every : [l, f] -> all @ [map @ [f, l]];",
    "some : [l, f] -> any @ [map @ [f, l]];",
    "at : [l, i] -> (i < 0) ? [l::(len @ [l] + i), l::i];"]

/-- Digits of numbers in any base, and angles. -/
def digits : List String :=
  ["encode : [n, b] -> (n = 0) ? [[], concat @ [$ @ [floor @ (n / b), b], [n % b]]];",
    "decode : [v, b] -> reduce @ [[acc, d] -> acc * b + d, v, 0];",
    "bin : encode'[_, 2];",
    "fbin : decode'[_, 2];",
    "hex : encode'[_, 16];",
    "fhex : decode'[_, 16];",
    "polar : [r, t] -> r * (cos @ t + 1i * sin @ t);",
    "rad : mul'(PI / 180);",
    "deg : mul'(180 / PI);"]

/-- Operators for functions on lists. -/
def listOperators : List String :=
  ["\x7b@@\x7d << [op_priority @ \x7b@\x7d, map];",
    "\x7b@|\x7d << [op_priority @ \x7b@\x7d, filter];",
    "\x7b@>\x7d << [op_priority @ \x7b@\x7d, reduce];",
    "\x7b@.\x7d << [op_priority @ \x7b@\x7d, [f, x] -> f @ [x]];",
    "\x7b++\x7d << [op_priority @ \x7b+\x7d, concat];",
    "\x7b//\x7d << [op_priority @ \x7b/\x7d, floor . div];",
    "zip : args => map @ [",
    "    i -> get'[_, i] @@ args,",
    "    range @ [0, (minl @ [len @@ args]) - 1]",
    "];",
    "\x7b<:>\x7d << [op_priority @ \x7b+\x7d, zip];"]

/-- Functions that build syntax trees. -/
def treeBuilding : List String :=
  ["nodeop : [l, o, r] -> (",
    "    n : `\x7bx ? y\x7d;",
    "    setleft @ [n, l];",
    "    setright @ [n, r];",
    "    setop @ [n, o]",
    ");",
    "nodelist : l => (",
    "    n : `\x7b[]\x7d;",
    "    map @ [push'n, l];",
    "    n",
    ");",
    "nodeexpr : l => (",
    "    n : `\x7b()\x7d;",
    "    map @ [push'n, l];",
    "    n",
    ");",
    "nodeident : s -> setname @ [`\x7bx\x7d, s];",
    "nodestr : s -> settext @ [`\x7b\x7b\x7d\x7d, s];"]

/-- Control structures that build trees from the trees of their clauses. -/
def control : List String :=
  ["cond : l -> (len @ [l] = 0) ? [",
    "    `\x7b0\x7d,",
    "    nodeop @ [l::0::0, \x7b?\x7d, nodelist @ [l::0::1, cond @ [slice @ [l, 1]]]]",
    "];",
    "switch : l -> cond @ [map @ [c -> [nodeop @ [l::0, \x7b=\x7d, c::0], c::1], slice @ [l, 1]]];",
    "ifelse : a -> nodeop @ [a::0, \x7b?\x7d, slice @ [a, 1]];",
    "if : a -> ifelse @ [nodelist @ [a::0, a::1, `\x7b0\x7d]];",
    "while : a -> nodeop @ [a::0, \x7b!!\x7d, a::1];",
    "for : a -> nodeop @ [slice @ [a, 0, 3], \x7b#\x7d, a::3];",
    "forin : a -> (",
    "    i : gensym @ [];",
    "    c : gensym @ [];",
    "    nodeexpr @ [",
    "        nodeop @ [c, \x7b:\x7d, a::1],",
    "        nodeop @ [",
    "            nodelist @ [",
    "                nodeop @ [i, \x7b:\x7d, 0],",
    "                nodeop @ [i, \x7b<\x7d, nodeop @ [`\x7blen\x7d, \x7b@\x7d, nodelist @ [c]]],",
    "                nodeop @ [i, \x7b:\x7d, nodeop @ [i, \x7b+\x7d, 1]]",
    "            ],",
    "            \x7b#\x7d,",
    "            nodeexpr @ [nodeop @ [a::0, \x7b:\x7d, nodeop @ [c, \x7b::\x7d, i]], a::2]",
    "        ]",
    "    ]",
    ");"]

/-- Sorting in place. -/
def sorting : List String :=
  ["qsort : a -> (",
    "    swap : [i, j] -> (",
    "        t : a::i;",
    "        set @ [a, i, a::j];",
    "        set @ [a, j, t]",
    "    );",
    "    part : [lo, hi] -> (",
    "        pivot : a::hi;",
    "        k : lo - 1;",
    "        [j : lo, j < hi, j : j + 1] # (",
    "            (a::j < pivot) ? [(k : k + 1; swap @ [k, j]), 0]",
    "        );",
    "        swap @ [k + 1, hi];",
    "        k + 1",
    "    );",
    "    sort : [lo, hi] -> (lo < hi) ? [",
    "        (p : part @ [lo, hi]; sort @ [lo, p - 1]; sort @ [p + 1, hi]),",
    "        0",
    "    ];",
    "    sort @ [0, len @ [a] - 1];",
    "    a",
    ");"]

/-- The view of the environment, and character sets. -/
def constants : List String :=
  ["env : [] -> [defined @ [], ptable @ []];",
    "ASCII_LOWER : \x7babcdefghijklmnopqrstuvwxyz\x7d;",
    "ASCII_UPPER : \x7bABCDEFGHIJKLMNOPQRSTUVWXYZ\x7d;",
    "ASCII_DIGITS : \x7b0123456789\x7d;"]

/-- The lines of the library. -/
def lines : List String :=
  composition ++ macroApplication ++ operatorFunctions ++ logic ++ lists ++ digits ++
    listOperators ++ treeBuilding ++ control ++ sorting ++ constants

/-- The whole library. -/
def source : String := String.intercalate "\n" lines

end Fixity.Prelude
