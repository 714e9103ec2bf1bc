import Interop.Text.Unprintable

/-!
# Quoted text

Text in diagnostics stands between double quotes. A quote and a backslash take a backslash, four controls have a
letter of their own, and every other character without a printed form is written by its code in hexadecimal.
-/

namespace Interop.Text

/-- A natural number in lower-case hexadecimal digits. -/
def hex (n : Nat) : List Char := Nat.toDigits 16 n

/-- A character as quoted text writes it. -/
def escape (c : Char) : List Char :=
  match c with
  | '\x00' => ['\\', '0']
  | '\t' => ['\\', 't']
  | '\n' => ['\\', 'n']
  | '\r' => ['\\', 'r']
  | '"' => ['\\', '"']
  | '\\' => ['\\', '\\']
  | _ => if isUnprintable c then "\\u\x7b".toList ++ hex c.toNat ++ ['\x7d'] else [c]

/-- Text between double quotes, with escapes. -/
def quote (s : String) : String :=
  String.ofList ('"' :: s.toList.flatMap escape ++ ['"'])

end Interop.Text
