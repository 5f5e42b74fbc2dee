/-!
# Texts without terminal controls

A line of a log holds no control characters but white space.  `plain` drops the others, and with an
escape character the sequence that it begins.  How a sequence ends depends on how it began: one with
a bracket ends at a letter, one that holds a string at a terminator, and an escape character always
begins a new one.

White space inside of a sequence interrupts it: what follows is kept up to the next control
character, and behind that the sequence goes on.  A character beyond ASCII ends an interrupted
sequence.
-/

set_option autoImplicit false

namespace LuaBundle.Text

/-- The part of a sequence that a text stands in. -/
inductive ControlState where
  /-- Outside of all sequences. -/
  | text
  /-- Behind an escape character. -/
  | escape
  /-- Behind an escape character and characters that come before its final one. -/
  | escapeMiddle
  /-- In a sequence with a bracket. -/
  | bracket
  /-- At the start of a device string. -/
  | deviceStart
  /-- In the numbers at the start of a device string. -/
  | deviceNumbers
  /-- Behind the numbers at the start of a device string. -/
  | deviceMiddle
  /-- In a string that a terminator ends. -/
  | string
  /-- In a string that a bell ends. -/
  | title
  deriving DecidableEq, Repr

namespace ControlState

/-- The control characters that are white space. -/
def isControlSpace (c : Char) : Bool :=
  c == '\t' || c == '\n' || c == '\x0c' || c == '\x0d'

/-- What is kept outside of sequences. -/
def isKept (c : Char) : Bool :=
  isControlSpace c || (32 ≤ c.toNat && c.toNat != 127)

/-- Whether white space interrupts a sequence. -/
def isInterruptible : ControlState → Bool
  | escape | escapeMiddle | bracket => true
  | _ => false

/-- Whether one of the bytes of a character beyond ASCII is the one that ends a string. -/
def endsString (c : Char) : Bool :=
  (String.utf8EncodeChar c).contains 0x9C

/-- The state behind an escape character and one more. -/
def afterEscape (c : Char) : ControlState :=
  if c == '[' then bracket
  else if c == ']' then title
  else if c == 'P' then deviceStart
  else if c == 'X' || c == '^' || c == '_' then string
  else if 48 ≤ c.toNat && c.toNat ≤ 126 then text
  else if 32 ≤ c.toNat && c.toNat ≤ 47 then escapeMiddle
  else escape

/-- The state behind a character at the start of a device string; `numbered` says that numbers
were read before it. -/
def afterDevice (s : ControlState) (numbered : Bool) (c : Char) : ControlState :=
  let n := c.toNat
  if 64 ≤ n && n ≤ 126 then string
  else if 32 ≤ n && n ≤ 47 then deviceMiddle
  else if (48 ≤ n && n ≤ 59) || (60 ≤ n && n ≤ 63 && !numbered) then deviceNumbers
  else if 60 ≤ n && n ≤ 63 then string
  else s

/-- The state behind a character that is not kept. -/
def after (s : ControlState) (c : Char) : ControlState :=
  let n := c.toNat
  if n == 27 then escape
  else if n == 24 || n == 26 then text
  else
    match s with
    | text => text
    | escape => afterEscape c
    | escapeMiddle => if 48 ≤ n && n ≤ 126 then text else escapeMiddle
    | bracket => if 64 ≤ n && n ≤ 126 then text else bracket
    | deviceStart => afterDevice deviceStart false c
    | deviceNumbers => afterDevice deviceNumbers true c
    | deviceMiddle =>
      if 64 ≤ n && n ≤ 126 || 48 ≤ n && n ≤ 63 then string else deviceMiddle
    | string => if n ≥ 128 && endsString c then text else string
    | title => if n == 7 then text else title

/-- The characters that a text keeps.  `keeping` says that the text stands outside of all sequences
or that white space interrupted the sequence it stands in. -/
def plainFrom : ControlState → Bool → List Char → List Char
  | _, _, [] => []
  | s, keeping, c :: rest =>
    if keeping && isKept c then
      c :: plainFrom (if c.toNat < 128 then s else text) true rest
    else if s.isInterruptible && isControlSpace c then c :: plainFrom s true rest
    else plainFrom (s.after c) (s.after c == text) rest

end ControlState

/-- A text without terminal controls. -/
def plain (s : String) : String :=
  String.ofList (ControlState.plainFrom .text true s.toList)

end LuaBundle.Text
