import Interop.Descriptor.Basic
import Interop.Numeral.Positional
import Interop.Text.Quoted

/-!
# Signatures

The text of a descriptor in diagnostics: named types and variables by name, arrays with `[]` behind the component,
type arguments between angle brackets, literals as script code writes them.
-/

namespace Interop.Descriptor

mutual

def signature : Descriptor → String
  | unspecified => "?"
  | plain n => n
  | enumeration n => n
  | interface n _ => n
  | array c => c.signature ++ "[]"
  | parameterized raw args => raw.signature ++ "<" ++ ", ".intercalate (signatures args) ++ ">"
  | typeVar v _ => v.name
  | stringLiteral s => Text.quote s
  | numberLiteral n => n.text
  | booleanLiteral b => if b then "true" else "false"
  | union members => " | ".intercalate (signatures members)
  | objectShape fields => "\x7b" ++ ", ".intercalate (fieldSignatures fields) ++ "\x7d"
  | functionShape params result => "(" ++ ", ".intercalate (signatures params) ++ ") => " ++ result.signature

def signatures : List Descriptor → List String
  | [] => []
  | d :: ds => d.signature :: signatures ds

def fieldSignatures : List (String × Descriptor) → List String
  | [] => []
  | (name, d) :: fields => (name ++ ": " ++ d.signature) :: fieldSignatures fields

end

end Interop.Descriptor
