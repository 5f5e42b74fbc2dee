import LuaBundle.Text.Segments

/-!
# Accounts and their home directories

A machine lists its accounts in a text with one line for each.  A line has seven fields between
colons, of which the third is the account's number and the sixth its home directory.

* `Account.ofLine?` reads a line, and `Account.list` all that are well formed.
* `Account.home?` is the home directory of the account with a number.
-/

set_option autoImplicit false

namespace LuaBundle

/-- An account of the machine. -/
structure Account where
  /-- The number of the account, as it is written. -/
  number : String
  home : String
  deriving DecidableEq, Repr

namespace Account

/-- The parts of a text between the places where a character stands. -/
def fields (separator : Char) (text : String) : List String :=
  (Text.segments (· == separator) text.toList).map String.ofList

/-- The account that a line describes. -/
def ofLine? (line : String) : Option Account :=
  match fields ':' line with
  | [_, _, number, _, _, home, _] => some { number, home }
  | _ => none

/-- The accounts in a list of accounts, in order. -/
def list (text : String) : List Account :=
  (fields '\n' text).filterMap ofLine?

/-- The home directory of the first account with a number. -/
def home? (text number : String) : Option String :=
  ((list text).find? (·.number == number)).map (·.home)

/-- The number of the account that runs a program, in a report of the program's state.  It is the
first of the numbers on the line that begins with `Uid:`. -/
def running? (report : String) : Option String :=
  (fields '\n' report).findSome? fun line =>
    match fields '\t' line with
    | "Uid:" :: number :: _ => some number
    | _ => none

end Account

end LuaBundle
