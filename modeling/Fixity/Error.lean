import Fixity.Number.Decimal

/-!
Contract: the causes of failure and their wording.

Owns:
- `SyntaxError`, what can be wrong with source text;
- `RuntimeError`, what can go wrong during evaluation, with the finer causes of its families;
- one message for every cause.

Does not own: the decision when a cause arises.
-/

namespace Fixity

/-- A kind of group that the end of input can leave open. -/
inductive GroupKind where
  | expression
  | list
  | text
  | interpolation
deriving DecidableEq

namespace GroupKind

/-- The group's name in messages. -/
def name : GroupKind → String
  | .expression => "expression"
  | .list => "list"
  | .text => "text"
  | .interpolation => "interpolation"

/-- The delimiter that opens the group. -/
def opener : GroupKind → Char
  | .expression => '('
  | .list => '['
  | .text => '\x7b'
  | .interpolation => '\x7b'

/-- The delimiter that closes the group. -/
def closer : GroupKind → Char
  | .expression => ')'
  | .list => ']'
  | .text => '\x7d'
  | .interpolation => '\x7d'

end GroupKind

/-- What can be wrong with source text. -/
inductive SyntaxError where
  /-- A closing delimiter without an opener. -/
  | unmatchedDelimiter (delimiter : Char) (line : Nat)
  /-- The input ended inside a group that was opened on the given line. -/
  | incompleteGroup (group : GroupKind) (line : Nat)
  /-- A quote glyph without a text group behind it. -/
  | danglingQuote (line : Nat)
  /-- A statement that is not exactly one value. -/
  | malformedStatement (statement : String)
  /-- An operator without a value on one side. -/
  | missingOperand (operator : String)
  /-- A run of operator glyphs that names no operator. -/
  | unknownOperator (token : String)
  /-- A token that is neither a number nor a name. -/
  | invalidLiteral (token : String)
deriving DecidableEq

/-- The message of a syntax error. -/
def SyntaxError.message : SyntaxError → String
  | unmatchedDelimiter delimiter line =>
      "Error on line " ++ toString line ++ ": Unmatched '" ++ delimiter.toString ++ "'."
  | incompleteGroup group line =>
      "Error on line " ++ toString line ++ ": Incomplete " ++ group.name ++ ", expected '" ++
        group.closer.toString ++ "' before end of input."
  | danglingQuote line =>
      "Error on line " ++ toString line ++ ": Expected '\x7b' after quote."
  | malformedStatement statement =>
      "AST is malformed: '" ++ statement ++ "' does not reduce to a single value."
  | missingOperand operator => "Operator '" ++ operator ++ "' is missing an operand."
  | unknownOperator token => "Unknown operator '" ++ token ++ "'."
  | invalidLiteral token => "Invalid literal '" ++ token ++ "'."

/-- What can be wrong with the target of a binding. -/
inductive AssignmentFault where
  | notIdentifier (node : String)
  | countMismatch (names values : Nat)
  | badTarget (kind : String)
deriving DecidableEq

def AssignmentFault.message : AssignmentFault → String
  | notIdentifier node => node ++ " is not an identifier"
  | countMismatch names values =>
      toString names ++ " names can not take " ++ toString values ++ " values"
  | badTarget kind => "can not bind to " ++ kind

/-- How a value can have the wrong type or shape for its place. `role` says which place. -/
inductive TypeFault where
  | mismatch (role expected found : String)
  | notFinite (role : String) (value : Float)
  | notInteger (role : String) (value : Float)
  | outOfRange (role : String) (value : Float)
  | builtinForbidden (role : String)
  | wrongNode (builtin expected found : String)
  | unsupported (operation found : String)
  | notLiftable (typeName : String)
  | branchesNotList (operator : String)
  | branchCount (operator : String) (found : Nat)
  | headNotList (operator : String)
  | clauseCount (operator : String) (found : Nat)
  | definitionSize (found : Nat)
  | parameterNotIdentifier (node : String)
  | functionHead (kind : String)
  | repeatCount (count : String)
  | mixedConcatenation
  | deletionNotIdentifier

def TypeFault.message : TypeFault → String
  | mismatch role expected found => role ++ " must be " ++ expected ++ ", found " ++ found
  | notFinite role value => role ++ " must be finite, found " ++ Decimal.write value
  | notInteger role value => role ++ " must be an integer, found " ++ Decimal.write value
  | outOfRange role value => role ++ " " ++ Decimal.write value ++ " is out of range"
  | builtinForbidden role => role ++ " can not be a builtin"
  | wrongNode builtin expected found => builtin ++ " needs " ++ expected ++ ", found " ++ found
  | unsupported operation found => "can not " ++ operation ++ " a " ++ found
  | notLiftable typeName =>
      "a value of type " ++ typeName ++ " can not be placed in a syntax tree"
  | branchesNotList operator => "the branches of " ++ operator ++ " must be a list literal"
  | branchCount operator found =>
      operator ++ " takes exactly two branches, found " ++ toString found
  | headNotList operator => "the head of " ++ operator ++ " must be a list literal"
  | clauseCount operator found =>
      "the head of " ++ operator ++ " takes three clauses, found " ++ toString found
  | definitionSize found =>
      "an operator definition takes 2, 3 or 5 elements, found " ++ toString found
  | parameterNotIdentifier node => "parameter " ++ node ++ " is not an identifier"
  | functionHead kind =>
      "a function head must be an identifier or a list of them, found " ++ kind
  | repeatCount count => "can not repeat text " ++ count ++ " times"
  | mixedConcatenation => "concat takes only lists or only texts"
  | deletionNotIdentifier => "del takes identifiers"

/-- How an argument of the right type can still be unusable. -/
inductive ArgumentFault where
  | negative (role : String) (value : Float)
  | tooLarge (role : String) (value : Float)
  | associativity (found : String)
  | zeroPower
  | emptyFold (builtin : String)
  | rangeStep (step : Float)
  | unreadable (path reason : String)
  | sleepDuration (seconds : Float) (reason : String)

def ArgumentFault.message : ArgumentFault → String
  | negative role value => role ++ " can not be negative, found " ++ Decimal.write value
  | tooLarge role value => role ++ " " ++ Decimal.write value ++ " is too large"
  | associativity found => "associativity must be left or right, found " ++ found
  | zeroPower => "can not raise 0 to a negative or complex power"
  | emptyFold builtin => builtin ++ " of an empty list needs an initial value"
  | rangeStep step => "range step can not be " ++ Decimal.write step
  | unreadable path reason => "can not read '" ++ path ++ "': " ++ reason
  | sleepDuration seconds reason =>
      "can not sleep for " ++ Decimal.write seconds ++ " seconds: " ++ reason

/-- How a requested precedence can be unusable. -/
inductive PrecedenceFault where
  | unusable (precedence : Float)
  | noLevel (index count : Nat)

def PrecedenceFault.message : PrecedenceFault → String
  | unusable precedence =>
      Decimal.write precedence ++ " can not be used as a precedence index"
  | noLevel index count =>
      "there is no level " ++ toString index ++ ", the table has " ++ toString count

/-- How a text can fail to be definable as an operator. -/
inductive OperatorFault where
  | reserved (token : String)
  | notOperatorText (token : String)
deriving DecidableEq

def OperatorFault.message : OperatorFault → String
  | reserved token => token ++ " can not be redefined"
  | notOperatorText token => "\"" ++ token ++ "\" is not an operator string"

/-- What can go wrong during evaluation. -/
inductive RuntimeError where
  /-- Nested source text did not parse. -/
  | source (error : SyntaxError)
  | unboundIdentifier (name : String)
  | invalidAssignment (fault : AssignmentFault)
  | typeError (fault : TypeFault)
  /-- No rule accepts this pair of operands, given in display form. -/
  | invalidArguments (operator left right : String)
  /-- An element-wise operation met lists of different lengths. -/
  | unequalLength (left right : Nat)
  /-- A value that is no function stands where one is needed. -/
  | notCallable (role : String)
  | argumentCount (expected : String) (found : Nat)
  | invalidArgument (fault : ArgumentFault)
  | indexOutOfBounds (index : Float) (length : Nat)
  | emptyPop (kind : String)
  | keyNotFound (key : String)
  /-- A level already groups the other way. -/
  | associativityConflict (precedence : Nat) (current requested : String)
  | invalidPrecedence (fault : PrecedenceFault)
  | invalidOperator (fault : OperatorFault)
  /-- Nothing implements the operator of a node. -/
  | unknownOperator (operator : String)
  | recursionLimit (depth : Nat)
  /-- A walk met a list or object inside itself. -/
  | cyclicValue (operation : String)
  /-- Raised by the program itself. -/
  | user (message : String)

/-- The message of a runtime error. -/
def RuntimeError.message : RuntimeError → String
  | source error => error.message
  | unboundIdentifier name => name ++ " is not defined."
  | invalidAssignment fault => "Invalid assignment: " ++ fault.message ++ "."
  | typeError fault => "Type error: " ++ fault.message ++ "."
  | invalidArguments operator left right =>
      "Invalid arguments " ++ left ++ " " ++ operator ++ " " ++ right ++ "."
  | unequalLength left right =>
      "Lists are of unequal length: " ++ toString left ++ " vs " ++ toString right ++ "."
  | notCallable role => role ++ " must be a function."
  | argumentCount expected found =>
      "Invalid number of arguments: expected " ++ expected ++ ", found " ++ toString found ++ "."
  | invalidArgument fault => "Invalid argument: " ++ fault.message ++ "."
  | indexOutOfBounds index length =>
      "Index out of range: " ++ Decimal.write index ++ " is not below " ++ toString length ++ "."
  | emptyPop kind => "Can not pop an empty " ++ kind ++ "."
  | keyNotFound key => "Could not find key \"" ++ key ++ "\" in object."
  | associativityConflict precedence current requested =>
      "Operators of precedence " ++ toString precedence ++ " associate " ++ current ++ ", not " ++
        requested ++ ". Bind again with a list of five elements to force it."
  | invalidPrecedence fault => "Invalid precedence: " ++ fault.message ++ "."
  | invalidOperator fault => "Invalid operator definition: " ++ fault.message ++ "."
  | unknownOperator operator => "Unrecognized operator " ++ operator ++ "."
  | recursionLimit depth => "Maximum call depth of " ++ toString depth ++ " exceeded."
  | cyclicValue operation => "Can not " ++ operation ++ " a value that contains itself."
  | user message => message

/-- The outcome of a computation in the language's own terms. -/
abbrev Outcome := Except RuntimeError

end Fixity
