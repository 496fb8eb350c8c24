import GraphQL.Text.Digit
import GraphQL.Text.Printable

/-!
Texts between quotes. Three written forms are used: the form of JSON, which is pure ASCII; the form
of a string in a document; and the form in which a message shows a text, which picks the quote that
needs fewer escapes and keeps printable characters.
-/

namespace GraphQL.Text

/-- The UTF-16 units of a character: a surrogate pair beyond the first plane. -/
def units16 (c : Char) : List Nat :=
  if c.toNat < 0x10000 then [c.toNat]
  else
    let offset := c.toNat - 0x10000
    [0xd800 + offset / 0x400, 0xdc00 + offset % 0x400]

/-- The two-character escapes that JSON and documents share. -/
def shortEscape? (c : Char) : Option (List Char) :=
  match c with
  | '\"' => some ['\\', '\"']
  | '\\' => some ['\\', '\\']
  | '\n' => some ['\\', 'n']
  | '\r' => some ['\\', 'r']
  | '\t' => some ['\\', 't']
  | '\x08' => some ['\\', 'b']
  | '\x0c' => some ['\\', 'f']
  | _ => none

def unitEscape (lower : Bool) (unit : Nat) : List Char :=
  '\\' :: 'u' :: hex lower 4 unit

def jsonChar (c : Char) : List Char :=
  match shortEscape? c with
  | some escape => escape
  | none =>
    if 0x20 ≤ c.toNat ∧ c.toNat < 0x7f then [c]
    else (units16 c).flatMap (unitEscape true)

def encodeJson (text : String) : String :=
  String.ofList ('\"' :: text.toList.flatMap jsonChar ++ ['\"'])

def documentChar (c : Char) : List Char :=
  match shortEscape? c with
  | some escape => escape
  | none =>
    if c.toNat < 0x20 ∨ (0x7f ≤ c.toNat ∧ c.toNat ≤ 0x9f) then unitEscape false c.toNat
    else [c]

def encodeDocument (text : String) : String :=
  String.ofList ('\"' :: text.toList.flatMap documentChar ++ ['\"'])

/-- A message quotes with an apostrophe, unless the text holds one and no quotation mark. -/
def messageQuote (cs : List Char) : Char :=
  if cs.contains '\'' && !cs.contains '\"' then '\"' else '\''

def codeEscape (code : Nat) : List Char :=
  if code ≤ 0xff then '\\' :: 'x' :: hex true 2 code
  else if code ≤ 0xffff then '\\' :: 'u' :: hex true 4 code
  else '\\' :: 'U' :: hex true 8 code

def messageChar (quote c : Char) : List Char :=
  if c = quote ∨ c = '\\' then ['\\', c]
  else if c = '\n' then ['\\', 'n']
  else if c = '\r' then ['\\', 'r']
  else if c = '\t' then ['\\', 't']
  else if isPrintable c then [c]
  else codeEscape c.toNat

/-- A text as messages show it. -/
def encodeMessage (text : String) : String :=
  let cs := text.toList
  let quote := messageQuote cs
  String.ofList (quote :: cs.flatMap (messageChar quote) ++ [quote])

def byteChar (quote : Char) (byte : UInt8) : List Char :=
  let c := Char.ofNat byte.toNat
  if byte.toNat < 0x7f then messageChar quote c else codeEscape byte.toNat

/-- Bytes as messages show them. -/
def encodeBytes (bytes : List UInt8) : String :=
  let quote := messageQuote (bytes.map fun byte => Char.ofNat byte.toNat)
  String.ofList ('b' :: quote :: bytes.flatMap (byteChar quote) ++ [quote])

end GraphQL.Text
