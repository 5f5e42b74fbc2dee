/-!
# TOML tokens

A document is cut into tokens before anything is made of it.  Comments leave no token, and a text in
quotes is one token with what it denotes.

* `basicText` and `literalText` read a text of one line, `basicBlock` and `literalBlock` one of
  several lines; each says how many characters it took.
* `token?` reads the token at the start of a text, and `tokens?` all tokens of a text.  A document
  with a character that no token can hold has no tokens.
-/

set_option autoImplicit false

namespace LuaBundle.Toml

/-- A piece of a TOML document. -/
inductive Token where
  | bracketOpen
  | bracketClose
  | braceOpen
  | braceClose
  | equals
  | comma
  | dot
  /-- Spaces and tabs; `lone` says that it is a single space. -/
  | blank (lone : Bool)
  | lineBreak
  /-- Characters without quotes. -/
  | bare (cs : List Char)
  /-- A text in quotes that ends on its line. -/
  | line (text : String)
  /-- A text in triple quotes. -/
  | block (text : String)
  deriving DecidableEq, Repr

/-! ## Character classes -/

def isTomlBlank (c : Char) : Bool :=
  c == ' ' || c == '\t'

/-- What may stand in a comment or a text: all but the control characters other than the tab. -/
def isTextChar (c : Char) : Bool :=
  c == '\t' || (c.toNat ≥ 32 && c.toNat != 127)

/-- What may stand in a bare key. -/
def isKeyChar (c : Char) : Bool :=
  c.isAlphanum || c == '_' || c == '-'

/-- What may stand in an unquoted value or key. -/
def isBareChar (c : Char) : Bool :=
  isKeyChar c || c == '+' || c == ':'

/-- The length of the line break at the start of a text, 0 if there is none. -/
def breakLength : List Char → Nat
  | '\n' :: _ => 1
  | '\x0d' :: '\n' :: _ => 2
  | _ => 0

/-! ## Texts of one line -/

/-- The character whose code is given by hexadecimal digits. -/
def charOfHex? (cs : List Char) : Option Char := do
  let code ← cs.foldl (fun acc c => do
    let n ← acc
    if '0' ≤ c ∧ c ≤ '9' then some (n * 16 + (c.toNat - 48))
    else if 'a' ≤ c ∧ c ≤ 'f' then some (n * 16 + (c.toNat - 87))
    else if 'A' ≤ c ∧ c ≤ 'F' then some (n * 16 + (c.toNat - 55))
    else none) (some 0)
  if code.isValidChar then some (Char.ofNat code) else none

/-- The character that an escape denotes, and the escape's length without the backslash. -/
def escape? : List Char → Option (Char × Nat)
  | [] => none
  | c :: rest =>
    let byCode (n : Nat) : Option (Char × Nat) :=
      if n ≤ rest.length then (charOfHex? (rest.take n)).map (·, n + 1) else none
    match c with
    | 'b' => some ('\x08', 1)
    | 't' => some ('\t', 1)
    | 'n' => some ('\n', 1)
    | 'f' => some ('\x0c', 1)
    | 'r' => some ('\x0d', 1)
    | 'e' => some ('\x1b', 1)
    | '"' => some ('"', 1)
    | '\\' => some ('\\', 1)
    | 'x' => byCode 2
    | 'u' => byCode 4
    | 'U' => byCode 8
    | _ => none

/-- A text in double quotes, read from behind its opening quote, and the characters taken. -/
def basicText : List Char → Option (List Char × Nat)
  | [] => none
  | '"' :: _ => some ([], 1)
  | '\\' :: rest => do
    let (c, k) ← escape? rest
    let (text, n) ← basicText (rest.drop k)
    return (c :: text, n + k + 1)
  | c :: rest => do
    if !isTextChar c then none
    else
      let (text, n) ← basicText rest
      return (c :: text, n + 1)
termination_by cs => cs.length
decreasing_by
  · simp only [List.length_drop, List.length_cons]
    omega
  · simp

/-- A text in single quotes, read from behind its opening quote, and the characters taken. -/
def literalText : List Char → Option (List Char × Nat)
  | [] => none
  | '\x27' :: _ => some ([], 1)
  | c :: rest => do
    if !isTextChar c then none
    else
      let (text, n) ← literalText rest
      return (c :: text, n + 1)

/-! ## Texts of several lines -/

/-- The end of a text in triple quotes, read from behind the three quotes: up to two more quotes,
which belong to the text. -/
def blockEnd (quote : Char) (rest : List Char) : List Char × Nat :=
  let more := ((rest.take 2).takeWhile (· == quote)).length
  (List.replicate more quote, more + 3)

/-- The length of the blanks and line breaks at the start of a text. -/
def gapLength : List Char → Nat
  | ' ' :: rest => gapLength rest + 1
  | '\t' :: rest => gapLength rest + 1
  | '\n' :: rest => gapLength rest + 1
  | '\x0d' :: '\n' :: rest => gapLength rest + 2
  | _ => 0

/-- The length of a gap that a backslash leaves out: blanks, a line break, and all blanks and line
breaks after it.  It is 0 if no line break follows the blanks. -/
def foldLength (cs : List Char) : Nat :=
  let blanks := (cs.takeWhile isTomlBlank).length
  if breakLength (cs.drop blanks) = 0 then 0 else gapLength cs

/-- A text in three double quotes, read from behind them, and the characters taken. -/
def basicBlock : List Char → Option (List Char × Nat)
  | [] => none
  | '"' :: '"' :: '"' :: rest => some (blockEnd '"' rest)
  | '\\' :: rest => do
    let gap := foldLength rest
    if gap > 0 then
      let (text, n) ← basicBlock (rest.drop gap)
      return (text, n + gap + 1)
    else
      let (c, k) ← escape? rest
      let (text, n) ← basicBlock (rest.drop k)
      return (c :: text, n + k + 1)
  | c :: rest => do
    if isTextChar c || c == '\n' || (c == '\x0d' && breakLength (c :: rest) = 2) then
      let (text, n) ← basicBlock rest
      return (c :: text, n + 1)
    else none
termination_by cs => cs.length
decreasing_by
  · simp only [List.length_drop, List.length_cons]
    omega
  · simp only [List.length_drop, List.length_cons]
    omega
  · simp

/-- A text in three single quotes, read from behind them, and the characters taken. -/
def literalBlock : List Char → Option (List Char × Nat)
  | [] => none
  | '\x27' :: '\x27' :: '\x27' :: rest => some (blockEnd '\x27' rest)
  | c :: rest => do
    if isTextChar c || c == '\n' || (c == '\x0d' && breakLength (c :: rest) = 2) then
      let (text, n) ← literalBlock rest
      return (c :: text, n + 1)
    else none

/-- A text in triple quotes without the line break behind its opening quotes. -/
def blockToken (read : List Char → Option (List Char × Nat)) (cs : List Char) :
    Option (Option Token × Nat) := do
  let skipped := breakLength cs
  let (text, n) ← read (cs.drop skipped)
  return (some (.block (String.ofList text)), skipped + n + 2)

/-- A text of one line. -/
def lineToken (read : List Char → Option (List Char × Nat)) (cs : List Char) :
    Option (Option Token × Nat) := do
  let (text, n) ← read cs
  return (some (.line (String.ofList text)), n)

/-! ## Tokens -/

/-- The token that begins with a character, if it leaves one, and how many characters after the
first one it takes. -/
def token? (c : Char) (rest : List Char) : Option (Option Token × Nat) :=
  match c with
  | '[' => some (some .bracketOpen, 0)
  | ']' => some (some .bracketClose, 0)
  | '\x7b' => some (some .braceOpen, 0)
  | '\x7d' => some (some .braceClose, 0)
  | '=' => some (some .equals, 0)
  | ',' => some (some .comma, 0)
  | '.' => some (some .dot, 0)
  | '\n' => some (some .lineBreak, 0)
  | '\x0d' => if rest.head? = some '\n' then some (some .lineBreak, 1) else none
  | '#' =>
    let comment := rest.takeWhile isTextChar
    if breakLength (rest.drop comment.length) > 0 ∨ rest.length = comment.length then
      some (none, comment.length)
    else none
  | '"' =>
    match rest with
    | '"' :: '"' :: rest => blockToken basicBlock rest
    | rest => lineToken basicText rest
  | '\x27' =>
    match rest with
    | '\x27' :: '\x27' :: rest => blockToken literalBlock rest
    | rest => lineToken literalText rest
  | c =>
    if isTomlBlank c then
      let blanks := rest.takeWhile isTomlBlank
      some (some (.blank (c == ' ' && blanks.isEmpty)), blanks.length)
    else if isBareChar c then
      let more := rest.takeWhile isBareChar
      some (some (.bare (c :: more)), more.length)
    else none

/-- The tokens of a text. -/
def tokensFrom : List Char → Option (List Token)
  | [] => some []
  | c :: rest => do
    let (tok?, n) ← token? c rest
    return tok?.toList ++ (← tokensFrom (rest.drop n))
termination_by cs => cs.length
decreasing_by
  simp only [List.length_drop, List.length_cons]
  omega

/-- The tokens of a document, which may begin with a byte order mark. -/
def tokens? (source : String) : Option (List Token) :=
  match source.toList with
  | '\ufeff' :: rest => tokensFrom rest
  | cs => tokensFrom cs

end LuaBundle.Toml
