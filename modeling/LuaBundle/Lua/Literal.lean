/-!
# Lua string literals

The text between the quotes of a short string denotes bytes.  `decodeBytes` reads them off and
`decode` is the text they spell, if they are valid UTF-8.  `quote` writes a text as a literal in
double quotes.

* `readEscape` reads one escape: what stands after a backslash gives some bytes and the text that
  follows.  It fails on an escape that the language does not have.
* `quoteChar` says how one character is written: quotes and backslashes, line breaks and the other
  control characters of ASCII are escaped, all else stands for itself.
-/

set_option autoImplicit false

namespace LuaBundle.Lua

/-! ## Character classes -/

/-- The blanks that may stand between tokens: space, tab, line feed, form feed, carriage
return. -/
def isBlank (c : Char) : Bool :=
  c == ' ' || c == '\t' || c == '\n' || c == '\x0c' || c == '\x0d'

/-- The characters of names: ASCII letters and digits and the underscore. -/
def isNameChar (c : Char) : Bool :=
  c.isAlphanum || c == '_'

/-- The value of a hexadecimal digit. -/
def hexDigit? (c : Char) : Option Nat :=
  if '0' ≤ c ∧ c ≤ '9' then some (c.toNat - '0'.toNat)
  else if 'a' ≤ c ∧ c ≤ 'f' then some (c.toNat - 'a'.toNat + 10)
  else if 'A' ≤ c ∧ c ≤ 'F' then some (c.toNat - 'A'.toNat + 10)
  else none

/-- The value of a run of hexadecimal digits; there is at least one. -/
def hexValue? : List Char → Option Nat
  | [] => none
  | cs => cs.foldl (fun acc c => return (← acc) * 16 + (← hexDigit? c)) (some 0)

/-- The value of a run of decimal digits. -/
def decimalValue (ds : List Char) : Nat :=
  ds.foldl (fun acc d => acc * 10 + (d.toNat - '0'.toNat)) 0

/-! ## Reading -/

/-- The character that an escape of one letter denotes. -/
def simpleEscape? : Char → Option Char
  | 'a' => some '\x07'
  | 'b' => some '\x08'
  | 'f' => some '\x0c'
  | 'n' => some '\n'
  | 'r' => some '\x0d'
  | 't' => some '\t'
  | 'v' => some '\x0b'
  | '\\' => some '\\'
  | '"' => some '"'
  | '\x27' => some '\x27'
  | '\n' => some '\n'
  | _ => none

/-- The character with a given code, if there is one. -/
def charOfCode? (code : Nat) : Option Char :=
  if code.isValidChar then some (Char.ofNat code) else none

/-- The number between the braces of a code point escape: hexadecimal digits, which a plus sign
may precede. -/
def codePoint? (digits : List Char) : Option Char := do
  let code ← hexValue? (if digits.head? = some '+' then digits.drop 1 else digits)
  charOfCode? code

/-- The bytes that an escape denotes, and the text after it.  The argument is the text after the
backslash. -/
def readEscape : List Char → Option (List UInt8 × List Char)
  | [] => none
  | 'z' :: rest => some ([], rest.dropWhile isBlank)
  | 'x' :: hi :: lo :: rest => do
    let value := (← hexDigit? hi) * 16 + (← hexDigit? lo)
    return ([UInt8.ofNat value], rest)
  | 'u' :: '\x7b' :: rest => do
    let digits := rest.takeWhile (· != '\x7d')
    match rest.dropWhile (· != '\x7d') with
    | [] => none
    | _ :: rest => return (String.utf8EncodeChar (← codePoint? digits), rest)
  | c :: rest =>
    if c.isDigit then
      let digits := ((c :: rest).take 3).takeWhile Char.isDigit
      let value := decimalValue digits
      if value ≤ 255 then some ([UInt8.ofNat value], (c :: rest).drop digits.length) else none
    else
      (simpleEscape? c).map (fun d => (String.utf8EncodeChar d, rest))

theorem length_of_readEscape {cs rest : List Char} {bytes : List UInt8}
    (h : readEscape cs = some (bytes, rest)) : rest.length ≤ cs.length := by
  unfold readEscape at h
  split at h
  · simp at h
  · next tail =>
    simp only [Option.some.injEq, Prod.mk.injEq] at h
    have := (List.dropWhile_suffix (l := tail) isBlank).length_le
    simp only [← h.2, List.length_cons]
    omega
  · next hi lo tail =>
    simp only [Option.bind_eq_bind, Option.bind_eq_some_iff, Option.pure_def, Option.some.injEq,
      Prod.mk.injEq] at h
    obtain ⟨_, _, _, _, _, rfl⟩ := h
    simp only [List.length_cons]
    omega
  · next tail =>
    have := (List.dropWhile_suffix (l := tail) (· != '\x7d')).length_le
    split at h
    · simp at h
    · next hd =>
      simp only [Option.bind_eq_bind, Option.bind_eq_some_iff, Option.pure_def, Option.some.injEq,
        Prod.mk.injEq] at h
      obtain ⟨_, _, _, rfl⟩ := h
      simp only [hd, List.length_cons] at this
      simp only [List.length_cons]
      omega
  · next c tail _ _ _ =>
    split at h
    · dsimp only at h
      split at h
      · simp only [Option.some.injEq, Prod.mk.injEq] at h
        simp only [← h.2, List.length_drop]
        omega
      · simp at h
    · simp only [Option.map_eq_some_iff, Prod.mk.injEq] at h
      obtain ⟨_, _, _, rfl⟩ := h
      simp

/-- The bytes that the text between the quotes denotes. -/
def decodeBytes : List Char → Option (List UInt8)
  | [] => some []
  | '\\' :: rest =>
    match h : readEscape rest with
    | none => none
    | some (bytes, after) =>
      have := length_of_readEscape h
      (decodeBytes after).map (bytes ++ ·)
  | c :: rest => (decodeBytes rest).map (String.utf8EncodeChar c ++ ·)
termination_by cs => cs.length
decreasing_by
  · simp only [List.length_cons]
    omega
  · simp

/-- The text that the characters between the quotes denote. -/
def decode (body : List Char) : Option String := do
  String.fromUTF8? ⟨(← decodeBytes body).toArray⟩

/-! ## Writing -/

/-- The control characters of ASCII. -/
def isControl (c : Char) : Bool :=
  c.toNat < 32 || c.toNat == 127

/-- A byte below 1000 as three decimal digits. -/
def threeDigits (n : Nat) : List Char :=
  [Nat.digitChar (n / 100 % 10), Nat.digitChar (n / 10 % 10), Nat.digitChar (n % 10)]

/-- How one character is written in a literal. -/
def quoteChar (c : Char) : List Char :=
  if c = '\\' then ['\\', '\\']
  else if c = '"' then ['\\', '"']
  else if c = '\n' then ['\\', 'n']
  else if c = '\x0d' then ['\\', 'r']
  else if isControl c then '\\' :: threeDigits c.toNat
  else [c]

/-- A text as a literal in double quotes. -/
def quote (s : String) : String :=
  String.ofList ('"' :: s.toList.flatMap quoteChar ++ ['"'])

end LuaBundle.Lua
