import Aero.Lowering.Scope
import Aero.Syntax.Tree

/-!
What can be wrong with a program, and how it is worded.
-/

namespace Aero.Lowering

open IR

/-- Where a value is converted to a type. -/
inductive Coercion where
  | initial (name : String)
  | assignment
  | compoundAssignment
  | argument (position : Nat) (function : String)
  | returned
  | arrayElement
  | operand
deriving DecidableEq, Repr

def Coercion.message : Coercion → String
  | initial name => "Type mismatch for variable: " ++ name
  | assignment => "Type mismatch in variable assignment"
  | compoundAssignment => "Type mismatch in compound assignment"
  | argument position function =>
      "Type mismatch for argument " ++ toString position ++ " in function: " ++ function
  | returned => "Unsupported type conversion in return statement"
  | arrayElement => "Type mismatch in array assignment"
  | operand => "Type mismatch in binary operation"

inductive Mismatch where
  | conversion (source target : Ty)
  | storage (source target : Ty)
  | notPointer (found : Ty)
  | structs (expected found : String)
  | notArray
  | rank
  | element
deriving DecidableEq, Repr

def Mismatch.note : Mismatch → String
  | conversion source target =>
      "cannot convert " ++ sourceName source ++ " to " ++ sourceName target
  | storage source target => "cannot store " ++ sourceName source ++ " into " ++ sourceName target
  | notPointer found => "expected an array, found " ++ sourceName found
  | structs expected found => "expected " ++ expected ++ ", found " ++ found
  | notArray => "expected an array"
  | rank => "array dimension mismatch"
  | element => "array element type mismatch"

/-- What the address of an element is needed for. -/
inductive Access where
  | read
  | assign
  | compound
deriving DecidableEq, Repr

def Access.ending : Access → String
  | read => ""
  | assign => " in assignment"
  | compound => " in compound assignment"

def bitwiseName : BinOp → String
  | .bitAnd => "Bitwise AND"
  | .bitOr => "Bitwise OR"
  | .bitXor => "Bitwise XOR"
  | .shl => "Shift left"
  | _ => "Shift right"

inductive Problem where
  -- types
  | unknownType (name : String)
  | tooManyDims (count : Nat)
  | tooManyParamDims
  | arrayOfVoid
  | arrayOfStruct (name : String)
  | arraySize (size : Int)
  | dynamicDims
  | sizeNotInteger
  | incompatibleOperands (lhs rhs : Ty)
  | mismatch (context : Coercion) (reason : Mismatch)
  | notBoolean
  -- structs and functions
  | typeDefined (name : String)
  | arrayField (struct field : String)
  | duplicateField (struct field : String)
  | structInItself (name : String)
  | voidField
  | reservedName (name : String)
  | functionDefined (name : String)
  | methodDefined (symbol : String)
  | voidParam (name : String)
  | returnsArray (name : String)
  | returnsStruct (name : String)
  | functionNotFound (name : String)
  | duplicateParam (name : String)
  | entryTaken (userEntry : String)
  -- statements
  | variableDeclared (name : String)
  | autoWithoutInit (name : String)
  | notInferable (name : String) (found : Ty)
  | voidVariable (name : String)
  | structWithInit (name : String)
  | arrayWithoutLiteral (name : String)
  | literalForScalar (name : String)
  | stringAssignment
  | arrayAssigned (name : String)
  | compoundOperator (op : BinOp)
  | breakOutsideLoop
  | valueFromVoid
  | guardOutsideBlock
  -- expressions
  | charRange (c : Char)
  | undefinedVariable (name : String)
  | structAsValue (name ty : String)
  | structFieldAsValue (struct field : String)
  | structAssigned (name : String)
  | notIndexable (found : Ty)
  | unaryOperand (op : UnaryOp) (found : Ty)
  | stepOperand
  | invalidOperand (op : BinOp) (found : Ty)
  | moduloOfFloats
  | notComparable (lhs rhs : Ty)
  | bitwiseOnFloats (op : BinOp)
  | bitwiseOnPointers (op : BinOp)
  | castTarget (name : String)
  | castUnsupported (source target : Ty)
  | castNotNeeded
  -- calls and objects
  | functionArity (name expected : String) (count : Nat)
  | methodArity (struct method : String) (expected count : Nat)
  | noArguments (name : String)
  | missingArgument
  | unknownMethod (struct method : String)
  | notStruct (name : String)
  | fieldNotStruct (struct field : String) (found : Option Ty)
  | notObject
  | elementObject
  | unknownField (struct field : String)
  | notPrintable (found : Ty)
  | notConvertible (found : Ty) (target : String)
  | lengthOfStruct (name : String)
  | lengthOperand (found : Ty)
  | sizeArgument (function : String)
  | pointerArgument (function : String) (found : Ty)
  | heapArgument (function name described : String)
  | rowCount
  -- arrays
  | notArray (name : String)
  | indexCount (name : String) (rank count : Nat)
  | stringIndexCount (access : Access)
  | indexNotInteger (found : Ty)
  | indexOutOfBounds (index : Int) (len : Nat) (access : Access)
  | negativeIndex (index : Int)
  | literalForNonArray
  | tooManyElements (count len : Nat)
  | notNestedLiteral
  | emptyLiteral
  | literalTooLarge (count : Nat)
  | nestedLiteral
  | elementType (found : Ty)
  | unknownLength (name : String)
  -- inline code
  | inlineVariable (name : String)
  | inlineLanguage (lang : String)
  | compilerNotRun (compiler reason : String)
  | compilerFailed (compiler output : String)
  | compilerOutput (reason : String)
deriving DecidableEq

namespace Problem

/-- The code point of a character in upper-case hexadecimal, with at least four digits. -/
def codePoint (c : Char) : String :=
  let digits := (Nat.toDigits 16 c.toNat).map Char.toUpper
  String.ofList (List.replicate (4 - digits.length) '0' ++ digits)

def message : Problem → String
  | unknownType name => "Unknown type: " ++ name
  | tooManyDims count =>
      "Too many array dimensions (" ++ toString count ++ "), at most " ++ toString maxArrayDims ++ " are supported"
  | tooManyParamDims => "Too many array dimensions"
  | arrayOfVoid => "Array of void is not allowed"
  | arrayOfStruct name => "Arrays of struct type are not supported: " ++ name
  | arraySize size => "Invalid array size: " ++ toString size
  | dynamicDims => "Multi-dimensional arrays need constant sizes"
  | sizeNotInteger => "Array size must be an integer"
  | incompatibleOperands lhs rhs =>
      "Incompatible operand types " ++ sourceName lhs ++ " and " ++ sourceName rhs
  | mismatch context _ => context.message
  | notBoolean => "Unsupported type for boolean conversion"
  | typeDefined name => "Type already defined: " ++ name
  | arrayField struct field => "Array fields are not supported: " ++ struct ++ "." ++ field
  | duplicateField struct field => "Duplicate field: " ++ struct ++ "." ++ field
  | structInItself name => "Struct cannot contain itself: " ++ name
  | voidField => "Field of type void is not allowed"
  | reservedName name => "Function name is reserved: " ++ name
  | functionDefined name => "Function already defined: " ++ name
  | methodDefined symbol => "Method already defined: " ++ symbol.replace "__" "."
  | voidParam name => "Parameter cannot be void: " ++ name
  | returnsArray name => "Function cannot return an array: " ++ name
  | returnsStruct name => "Function cannot return a struct by value: " ++ name
  | functionNotFound name => "Function not found: " ++ name
  | duplicateParam name => "Duplicate parameter: " ++ name
  | entryTaken userEntry =>
      "Entry point not synthesized: main is already defined as " ++ userEntry
  | variableDeclared name => "Variable already declared in this scope: " ++ name
  | autoWithoutInit name => "Auto variable requires initialization: " ++ name
  | notInferable name found => "Cannot infer a type for " ++ name ++ " from " ++ sourceName found
  | voidVariable name => "Variable cannot have type void: " ++ name
  | structWithInit name => "Struct variable cannot have an initializer: " ++ name
  | arrayWithoutLiteral name =>
      "Array variable requires array literal initialization: " ++ name
  | literalForScalar name => "Array literal assigned to non-array variable: " ++ name
  | stringAssignment => "Type mismatch in string assignment"
  | arrayAssigned name => "Cannot assign to array: " ++ name
  | compoundOperator op => "Unsupported compound assignment operator: " ++ op.symbol ++ "="
  | breakOutsideLoop => "Break statement outside of loop"
  | valueFromVoid => "Cannot return a value from a void function"
  | guardOutsideBlock => "Condition evaluated outside of a block"
  | charRange c =>
      "Character literal out of range: '" ++ String.singleton c ++ "' (U+" ++ codePoint c ++ ")"
  | undefinedVariable name => "Undefined variable: " ++ name
  | structAsValue name _ => "Struct value cannot be used as an expression: " ++ name
  | structFieldAsValue struct field =>
      "Struct value cannot be used as an expression: " ++ struct ++ "." ++ field
  | structAssigned name => "Cannot assign to struct value: " ++ name
  | notIndexable found => "Cannot index a value of type " ++ sourceName found
  | unaryOperand op _ => "Unary " ++ op.symbol ++ " requires a numeric operand"
  | stepOperand => "Increment and decrement require a numeric variable"
  | invalidOperand op _ => "Invalid operand for '" ++ op.symbol ++ "'"
  | moduloOfFloats => "Modulo operator not supported on floating-point numbers"
  | notComparable lhs rhs => "Cannot compare " ++ sourceName lhs ++ " with " ++ sourceName rhs
  | bitwiseOnFloats op => bitwiseName op ++ " operator not supported on floating-point numbers"
  | bitwiseOnPointers op => bitwiseName op ++ " operator not supported on pointer types"
  | castTarget name => "Unsupported target type: " ++ name
  | castUnsupported _ _ => "Unsupported cast"
  | castNotNeeded => "No cast needed"
  | functionArity name expected count =>
      "Function " ++ name ++ " expects " ++ expected ++ " argument(s), got " ++ toString count
  | methodArity struct method expected count =>
      "Method " ++ struct ++ "." ++ method ++ " expects " ++ toString expected ++ " argument(s), got " ++ toString count
  | noArguments name => "Empty arguments for " ++ name ++ " function"
  | missingArgument => "Missing argument"
  | unknownMethod struct method => "Unknown method: " ++ struct ++ "." ++ method
  | notStruct name => "Variable is not a struct: " ++ name
  | fieldNotStruct struct field _ => "Field is not a struct: " ++ struct ++ "." ++ field
  | notObject => "Expression is not a struct value"
  | elementObject => "Array elements cannot hold struct values"
  | unknownField struct field => "Unknown field: " ++ struct ++ "." ++ field
  | notPrintable found => "Cannot print a value of type " ++ sourceName found
  | notConvertible found target => "Cannot convert " ++ sourceName found ++ " to " ++ target
  | lengthOfStruct name => "len() is not defined for struct value: " ++ name
  | lengthOperand _ => "len() requires an array or a string"
  | sizeArgument function => "Size argument of " ++ function ++ " must be an integer"
  | pointerArgument function found =>
      function ++ " expects a pointer, found " ++ sourceName found
  | heapArgument function name _ =>
      function ++ " expects a heap pointer, but '" ++ name ++ "' is a fixed-size array"
  | rowCount => "Row count of free_deep must be an integer"
  | notArray name => "Variable is not an array: " ++ name
  | indexCount name rank count =>
      "Array '" ++ name ++ "' has " ++ toString rank ++ " dimension(s) but " ++ toString count ++
        " index(es) were given"
  | stringIndexCount access => "Strings take exactly one index" ++ access.ending
  | indexNotInteger _ => "Array index must be an integer"
  | indexOutOfBounds index len access =>
      "Array index " ++ toString index ++ " out of bounds for array of size " ++ toString len ++ access.ending
  | negativeIndex index => "Negative array index: " ++ toString index
  | literalForNonArray => "Array literal for a non-array type"
  | tooManyElements count len =>
      "Too many elements in array literal: " ++ toString count ++ " for array of size " ++ toString len
  | notNestedLiteral => "Expected nested array literal"
  | emptyLiteral => "Array literal must not be empty"
  | literalTooLarge count => "Array literal too large: " ++ toString count ++ " elements"
  | nestedLiteral => "Nested array literals need a fixed-size array type"
  | elementType found => "Invalid array element type: " ++ sourceName found
  | unknownLength name => "Length of array '" ++ name ++ "' is not known"
  | inlineVariable name => "Variable cannot be passed to inline code: " ++ name
  | inlineLanguage lang => "Unsupported inline language: " ++ lang
  | compilerNotRun compiler _ => "Failed to run inline compiler '" ++ compiler ++ "'"
  | compilerFailed compiler _ => "Inline code failed to compile with '" ++ compiler ++ "'"
  | compilerOutput _ => "Cannot read compiled inline code"

def note? : Problem → Option String
  | mismatch _ reason => some reason.note
  | structAsValue name ty => some ("'" ++ name ++ "' has type " ++ ty)
  | unaryOperand _ found | invalidOperand _ found | lengthOperand found | indexNotInteger found =>
      some ("found " ++ sourceName found)
  | castUnsupported source target =>
      some ("from " ++ sourceName source ++ " to " ++ sourceName target)
  | fieldNotStruct _ _ found => found.map fun ty => "found " ++ sourceName ty
  | heapArgument _ name described => some ("'" ++ name ++ "' has type " ++ described)
  | compilerNotRun _ reason => some reason
  | compilerFailed _ output => some output
  | compilerOutput reason => some reason
  | _ => none

def help? : Problem → Option String
  | charRange _ => some "a char holds a single byte"
  | _ => none

def diagnostic (p : Problem) (span : Span) (severity : Severity := .error) : Diagnostic :=
  { severity := severity
    message := p.message
    span := span
    notes := p.note?.toList
    help := p.help? }

end Problem

end Aero.Lowering
