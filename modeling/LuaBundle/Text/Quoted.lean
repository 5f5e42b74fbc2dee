import LuaBundle.Text.Unprintable

/-!
# Quoted texts in messages

Messages show a text in double quotes.  Inside, quotes, backslashes, tabs, line breaks and NUL are
escaped by a letter, and every other character without a print of its own by its code in
hexadecimal digits, between braces.
-/

set_option autoImplicit false

namespace LuaBundle.Text

/-- An escape by code. -/
def codeEscape (c : Char) : List Char :=
  ['\\', 'u', '\x7b'] ++ Nat.toDigits 16 c.toNat ++ ['\x7d']

/-- How a character is shown between the quotes. -/
def quotedChar (c : Char) : List Char :=
  match c with
  | '"' => ['\\', '"']
  | '\\' => ['\\', '\\']
  | '\n' => ['\\', 'n']
  | '\x0d' => ['\\', 'r']
  | '\t' => ['\\', 't']
  | '\x00' => ['\\', '0']
  | c => if c.toNat < 32 || c.toNat == 127 || isUnprintable c then codeEscape c else [c]

/-- A text as messages show it. -/
def quoted (s : String) : String :=
  String.ofList ('"' :: s.toList.flatMap quotedChar ++ ['"'])

/-- A list of texts as messages show it. -/
def quotedList (ss : List String) : String :=
  "[" ++ ", ".intercalate (ss.map quoted) ++ "]"

end LuaBundle.Text
