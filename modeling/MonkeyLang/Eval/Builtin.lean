import MonkeyLang.Text.Utf8
import MonkeyLang.Value.Basic

/-!
The built-in functions. Each checks the number of its arguments before their types. `none` stands
for an argument that has no type to be named in the error.
-/
namespace MonkeyLang.Builtin

def arity : Builtin → Nat
  | push => 2
  | _ => 1

def onArray (elements : List Value) : Builtin → Value
  | first => elements.head?.getD .null
  | last => elements.getLast?.getD .null
  | rest => if elements.isEmpty then .null else .array elements.tail
  | _ => .null

def fault? [Text.Encoding] : Builtin → List Value → Option Text.EncodeFault
  | len, [.string text] => Text.encodeFault? text.toList
  | _, _ => none

/-- The length of a string is the number of bytes of its UTF-8 form. -/
def call? (primitive : Builtin) (arguments : List Value) : Option Value :=
  match primitive, arguments with
  | len, [.string text] => some (.integer text.utf8ByteSize)
  | len, [argument] => do return .error (.noLength (← argument.kind?))
  | push, [.array elements, value] => some (.array (elements ++ [value]))
  | push, [argument, _] => do return .error (.notArray push (← argument.kind?))
  | first, [argument] => unary first argument
  | last, [argument] => unary last argument
  | rest, [argument] => unary rest argument
  | primitive, arguments => some (.error (.argumentCount arguments.length primitive.arity))
where
  unary (primitive : Builtin) : Value → Option Value
    | .array elements => some (onArray elements primitive)
    | argument => do return .error (.notArray primitive (← argument.kind?))

end MonkeyLang.Builtin
