import LuaBundle.Toml.Mark
import LuaBundle.Toml.Scalar
import LuaBundle.Toml.Token

/-!
# TOML documents

A document is read token by token.  A `Reader` holds the tables read so far, the header that the
lines below it belong to, and its `Place` in the document; what is open around a value is kept in a
list of frames.  `Reader.step` takes one token, and the document is refused at the first token that
does not fit.

* Arrays may run over several lines, and so may inline tables, but not a key; a comma may stand at
  the end of both.
* A header and a line with a key end where the line ends.
* `parse?` is the table of a whole document.
-/

set_option autoImplicit false

namespace LuaBundle.Toml

/-- What is open around a value. -/
inductive Frame where
  /-- A line that sets a key. -/
  | line (key : List String)
  /-- An array, with its items so far, the last one first. -/
  | array (items : List Node)
  /-- An inline table, with its entries so far and the key that is being set. -/
  | inline (entries : Entries) (key : List String)
  deriving Repr

/-- How deep arrays and inline tables may nest, and how many parts a key may have. -/
def maxNesting : Nat := 80

/-- A dotted key that is being read: its parts so far, the last one first, and whether a part must
come next. -/
structure KeyReader where
  parts : List String := []
  needsPart : Bool := true
  deriving Repr

namespace KeyReader

/-- The key, if it may end here. -/
def finish? (k : KeyReader) : Option (List String) :=
  if k.needsPart then none else some k.parts.reverse

def add? (k : KeyReader) (part : String) : Option KeyReader :=
  if k.needsPart ∧ k.parts.length < maxNesting then some ⟨part :: k.parts, false⟩ else none

/-- Takes a token of a key. -/
def step? (k : KeyReader) : Token → Option KeyReader
  | .blank _ => some k
  | .dot => if k.needsPart then none else some ⟨k.parts, true⟩
  | .bare cs => if cs.all isKeyChar then k.add? (String.ofList cs) else none
  | .line text => k.add? text
  | _ => none

end KeyReader

/-- Where a reader stands. -/
inductive Place where
  /-- At the start of a line. -/
  | start
  /-- Behind a header or a value, where the line must end. -/
  | ended
  /-- Behind the first bracket of a header. -/
  | headerOpen
  /-- In the key of a header. -/
  | header (isElement : Bool) (key : KeyReader)
  /-- Behind the first closing bracket of a header with two. -/
  | headerClosing (key : List String)
  /-- In the key of a line. -/
  | key (key : KeyReader)
  /-- Before a value. -/
  | value (frames : List Frame)
  /-- In an unquoted value. -/
  | bare (cs : List Char) (frames : List Frame)
  /-- Behind a date and a space, where a time may follow. -/
  | dateGap (cs : List Char) (frames : List Frame)
  /-- Behind an opening bracket or a comma. -/
  | item (frames : List Frame)
  /-- In the key of an inline table's entry. -/
  | inlineKey (key : KeyReader) (entries : Entries) (frames : List Frame)
  /-- On a line below the key of an inline table's entry, before the equals sign. -/
  | inlineEquals (key : List String) (entries : Entries) (frames : List Frame)
  /-- Behind a value in an array or an inline table. -/
  | filled (frames : List Frame)
  deriving Repr

/-- A document that is being read. -/
structure Reader where
  root : Entries := []
  /-- The table that lines belong to. -/
  header : List String := []
  place : Place := .start
  deriving Repr

namespace Reader

/-- Puts a value into what is open around it. -/
def close (r : Reader) (n : Node) : List Frame → Option Reader
  | [] => none
  | .line key :: _ => do
    let root ← updateAt (addValue n key .header false) r.header r.root
    return { r with root, place := .ended }
  | .array items :: frames => some { r with place := .filled (.array (n :: items) :: frames) }
  | .inline entries key :: frames => do
    let entries ← addValue n key .header false entries
    return { r with place := .filled (.inline entries [] :: frames) }

/-- Takes the first token of a value. -/
def openValue (r : Reader) (frames : List Frame) : Token → Option Reader
  | .line text | .block text => r.close (.value (.string text)) frames
  | .bare cs => some { r with place := .bare cs frames }
  | .dot => some { r with place := .bare ['.'] frames }
  | .bracketOpen =>
    if frames.length > maxNesting then none
    else some { r with place := .item (.array [] :: frames) }
  | .braceOpen =>
    if frames.length > maxNesting then none
    else some { r with place := .item (.inline [] [] :: frames) }
  | _ => none

/-- Takes the token behind an opening bracket or a comma. -/
def stepItem (r : Reader) (frames : List Frame) (tok : Token) : Option Reader :=
  match tok, frames with
  | .blank _, _ | .lineBreak, _ => some r
  | .bracketClose, .array items :: frames => r.close (.array items.reverse) frames
  | .braceClose, .inline entries _ :: frames => r.close (.inline entries) frames
  | tok, .inline entries _ :: frames => do
    return { r with place := .inlineKey (← KeyReader.step? {} tok) entries frames }
  | tok, frames => r.openValue frames tok

/-- Takes the token behind a value in an array or an inline table. -/
def stepFilled (r : Reader) (frames : List Frame) (tok : Token) : Option Reader :=
  match tok, frames with
  | .blank _, _ | .lineBreak, _ => some r
  | .comma, frames => some { r with place := .item frames }
  | .bracketClose, .array items :: frames => r.close (.array items.reverse) frames
  | .braceClose, .inline entries _ :: frames => r.close (.inline entries) frames
  | _, _ => none

/-- Opens what a header names. -/
def openHeaderLine (r : Reader) (isElement : Bool) (key : List String) : Option Reader := do
  let root ← openHeader isElement key r.root
  return { root, header := key, place := .ended }

/-- Takes a token at any place but in an unquoted value. -/
def stepSettled (r : Reader) (tok : Token) : Option Reader :=
  match r.place, tok with
  | .start, .blank _ | .start, .lineBreak => some r
  | .start, .bracketOpen => some { r with place := .headerOpen }
  | .start, tok => do return { r with place := .key (← KeyReader.step? {} tok) }
  | .ended, .blank _ => some r
  | .ended, .lineBreak => some { r with place := .start }
  | .ended, _ => none
  | .headerOpen, .bracketOpen => some { r with place := .header true {} }
  | .headerOpen, tok => do return { r with place := .header false (← KeyReader.step? {} tok) }
  | .header false key, .bracketClose => do r.openHeaderLine false (← key.finish?)
  | .header true key, .bracketClose => do return { r with place := .headerClosing (← key.finish?) }
  | .header isElement key, tok => do return { r with place := .header isElement (← key.step? tok) }
  | .headerClosing key, .bracketClose => r.openHeaderLine true key
  | .headerClosing _, _ => none
  | .key key, .equals => do return { r with place := .value [.line (← key.finish?)] }
  | .key key, tok => do return { r with place := .key (← key.step? tok) }
  | .value _, .blank _ | .value (.inline .. :: _), .lineBreak => some r
  | .value frames, tok => r.openValue frames tok
  | .item frames, tok => r.stepItem frames tok
  | .inlineKey key entries frames, .equals => do
    return { r with place := .value (.inline entries (← key.finish?) :: frames) }
  | .inlineKey key entries frames, .lineBreak => do
    return { r with place := .inlineEquals (← key.finish?) entries frames }
  | .inlineKey key entries frames, tok => do
    return { r with place := .inlineKey (← key.step? tok) entries frames }
  | .inlineEquals .., .blank _ | .inlineEquals .., .lineBreak => some r
  | .inlineEquals key entries frames, .equals =>
    some { r with place := .value (.inline entries key :: frames) }
  | .inlineEquals .., _ => none
  | .filled frames, tok => r.stepFilled frames tok
  | .bare .., _ | .dateGap .., _ => none

/-- Ends an unquoted value. -/
def finishBare (r : Reader) (cs : List Char) (frames : List Frame) : Option Reader := do
  r.close (← scalar? cs) frames

/-- Takes a token. -/
def step (r : Reader) (tok : Token) : Option Reader :=
  match r.place, tok with
  | .bare cs frames, .bare more => some { r with place := .bare (cs ++ more) frames }
  | .bare cs frames, .dot => some { r with place := .bare (cs ++ ['.']) frames }
  | .bare cs frames, .blank true =>
    if Moment.isDate cs then some { r with place := .dateGap cs frames }
    else r.finishBare cs frames >>= (·.stepSettled tok)
  | .dateGap cs frames, .bare more => some { r with place := .bare (cs ++ ' ' :: more) frames }
  | .bare cs frames, tok | .dateGap cs frames, tok =>
    r.finishBare cs frames >>= (·.stepSettled tok)
  | _, tok => r.stepSettled tok

/-- What stands in a document that ends here. -/
def finish? (r : Reader) : Option Entries :=
  match r.place with
  | .start | .ended => some r.root
  | .bare cs frames | .dateGap cs frames => do
    match ← r.finishBare cs frames with
    | { root, place := .ended, .. } => return root
    | _ => none
  | _ => none

end Reader

/-- The table of a document, if it is one. -/
def parse? (source : String) : Option Table := do
  entriesToTable? (← (← (← tokens? source).foldlM Reader.step {}).finish?)

end LuaBundle.Toml
