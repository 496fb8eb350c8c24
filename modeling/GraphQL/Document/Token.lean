import GraphQL.Document
import GraphQL.Name
import GraphQL.Text.Digit

/-!
Tokens of query documents. `Token.next` takes the next token off a source, past blanks, commas and
comments; a text that is no token is a fault at the character that shows it.
-/

namespace GraphQL

inductive TokenKind where
  | bang | dollar | ampersand | parenLeft | parenRight | spread | colon | equals | atSign
  | bracketLeft | bracketRight | braceLeft | pipe | braceRight
  | name | int | float | string | blockString
  | endOfSource
deriving DecidableEq, Repr, Inhabited

namespace TokenKind

def punctuation? : TokenKind → Option String
  | bang => some "!"
  | dollar => some "$"
  | ampersand => some "&"
  | parenLeft => some "("
  | parenRight => some ")"
  | spread => some "..."
  | colon => some ":"
  | equals => some "="
  | atSign => some "@"
  | bracketLeft => some "["
  | bracketRight => some "]"
  | braceLeft => some "\x7b"
  | pipe => some "|"
  | braceRight => some "\x7d"
  | _ => none

def ofChar? : Char → Option TokenKind
  | '!' => some bang
  | '$' => some dollar
  | '&' => some ampersand
  | '(' => some parenLeft
  | ')' => some parenRight
  | ':' => some colon
  | '=' => some equals
  | '@' => some atSign
  | '[' => some bracketLeft
  | ']' => some bracketRight
  | '\x7b' => some braceLeft
  | '|' => some pipe
  | '\x7d' => some braceRight
  | _ => none

def text (kind : TokenKind) : String :=
  match kind.punctuation? with
  | some mark => "'" ++ mark ++ "'"
  | none =>
    match kind with
    | name => "Name"
    | int => "Int"
    | float => "Float"
    | string => "String"
    | blockString => "BlockString"
    | _ => "<EOF>"

end TokenKind

structure Token where
  kind : TokenKind
  start : Nat
  value : Option String
deriving DecidableEq, Repr, Inhabited

def Token.text (token : Token) : String :=
  match token.value with
  | some value => token.kind.text ++ " '" ++ value ++ "'"
  | none => token.kind.text

/-- Why a source is no document. -/
inductive SyntaxProblem where
  | singleQuote
  | character (found : Option Char)
  | digitExpected (found : Option Char)
  | digitAfterZero (found : Option Char)
  | unterminatedString
  | escape (text : String)
  | unicodeEscape (text : String)
  | expected (kind : TokenKind) (found : Token)
  | expectedKeyword (word : String) (found : Token)
  | unexpected (found : Token)
  | constantVariable (name : String)
  | describedShorthand
  | strayDescription
  | tooDeep
  | reservedEnumValue (found : Token)
deriving DecidableEq, Repr

namespace SyntaxProblem

def charText : Option Char → String
  | none => "<EOF>"
  | some c =>
    if 0x20 ≤ c.toNat ∧ c.toNat ≤ 0x7e then String.ofList ['\'', c, '\'']
    else
      "U+" ++ String.ofList (Text.hex false (if c.toNat < 0x10000 then 4
        else if c.toNat < 0x100000 then 5 else 6) c.toNat)

def message : SyntaxProblem → String
  | singleQuote => "Unexpected single quote character ('), did you mean to use a double quote (\")?"
  | character found => "Unexpected character: " ++ charText found ++ "."
  | digitExpected found => "Invalid number, expected digit but got: " ++ charText found ++ "."
  | digitAfterZero found => "Invalid number, unexpected digit after 0: " ++ charText found ++ "."
  | unterminatedString => "Unterminated string."
  | escape text => "Invalid character escape sequence: '" ++ text ++ "'."
  | unicodeEscape text => "Invalid Unicode escape sequence: '" ++ text ++ "'."
  | expected kind found => "Expected " ++ kind.text ++ ", found " ++ found.text ++ "."
  | expectedKeyword word found => "Expected '" ++ word ++ "', found " ++ found.text ++ "."
  | unexpected found => "Unexpected " ++ found.text ++ "."
  | constantVariable name => "Unexpected variable '$" ++ name ++ "' in constant value."
  | describedShorthand =>
    "Unexpected description, descriptions are not supported on shorthand queries."
  | strayDescription =>
    "Unexpected description, only GraphQL definitions support descriptions."
  | tooDeep => "Document is nested too deeply. Parsing aborted."
  | reservedEnumValue found =>
    found.text ++ " is reserved and cannot be used for an enum value."

end SyntaxProblem

structure SyntaxFault where
  problem : SyntaxProblem
  offset : Nat
deriving DecidableEq, Repr

def SyntaxFault.message (fault : SyntaxFault) : String :=
  "Syntax Error: " ++ fault.problem.message

/-- What is left of a source, and the offset of its first character. -/
structure Cursor where
  rest : List Char
  offset : Nat
deriving Repr, Inhabited

namespace Cursor

def drop (cursor : Cursor) (count : Nat) : Cursor :=
  ⟨cursor.rest.drop count, cursor.offset + count⟩

def fail (cursor : Cursor) (problem : SyntaxProblem) : Except SyntaxFault α :=
  .error ⟨problem, cursor.offset⟩

/-- Splits off the longest front of characters with a property. -/
def takeWhile (cursor : Cursor) (test : Char → Bool) : List Char × Cursor :=
  let front := cursor.rest.takeWhile test
  (front, cursor.drop front.length)

end Cursor

namespace Token

/-- A token with the cursor behind it. -/
abbrev Read := Except SyntaxFault (Token × Cursor)

def isIgnored (c : Char) : Bool :=
  c = ' ' || c = '\t' || c = ',' || c = '\ufeff' || c = '\n' || c = '\r'

def isLineEnd (c : Char) : Bool := c = '\n' || c = '\r'

/-- Skips blanks, commas and comments; inside a comment everything up to the line end. -/
def skipIgnored (inComment : Bool) : List Char → Nat → Cursor
  | [], offset => ⟨[], offset⟩
  | c :: rest, offset =>
    if inComment then skipIgnored (!isLineEnd c) rest (offset + 1)
    else if c = '#' then skipIgnored true rest (offset + 1)
    else if isIgnored c then skipIgnored false rest (offset + 1)
    else ⟨c :: rest, offset⟩

/-- At least one digit. -/
def digits (cursor : Cursor) : Except SyntaxFault (List Char × Cursor) :=
  let (front, after) := cursor.takeWhile Text.isAsciiDigit
  if front.isEmpty then cursor.fail (.digitExpected cursor.rest.head?) else .ok (front, after)

def integerPart (cursor : Cursor) : Except SyntaxFault (List Char × Cursor) :=
  match cursor.rest with
  | '0' :: rest =>
    let after := cursor.drop 1
    match rest.head? with
    | some c =>
      if Text.isAsciiDigit c then after.fail (.digitAfterZero (some c)) else .ok (['0'], after)
    | none => .ok (['0'], after)
  | _ => digits cursor

def fractionPart (cursor : Cursor) : Except SyntaxFault (List Char × Cursor) :=
  match cursor.rest with
  | '.' :: _ => (digits (cursor.drop 1)).map fun (front, after) => ('.' :: front, after)
  | _ => .ok ([], cursor)

def exponentPart (cursor : Cursor) : Except SyntaxFault (List Char × Cursor) :=
  match cursor.rest with
  | mark :: rest =>
    if mark = 'e' ∨ mark = 'E' then
      match rest with
      | sign :: _ =>
        if sign = '+' ∨ sign = '-' then
          (digits (cursor.drop 2)).map fun (front, after) => (mark :: sign :: front, after)
        else (digits (cursor.drop 1)).map fun (front, after) => (mark :: front, after)
      | [] => (digits (cursor.drop 1)).map fun (front, after) => (mark :: front, after)
    else .ok ([], cursor)
  | [] => .ok ([], cursor)

/-- A number, which no point and no name may follow. -/
def number (cursor : Cursor) : Read := do
  let (sign, afterSign) := cursor.takeWhile (· == '-')
  let (sign, afterSign) :=
    if sign.isEmpty then (sign, afterSign) else (['-'], cursor.drop 1)
  let (whole, afterWhole) ← integerPart afterSign
  let (fraction, afterFraction) ← fractionPart afterWhole
  let (exponent, after) ← exponentPart afterFraction
  match after.rest.head? with
  | some c => if c = '.' ∨ isNameStart c then after.fail (.digitExpected (some c))
  | none => pure ()
  let kind := if fraction.isEmpty && exponent.isEmpty then TokenKind.int else .float
  return (⟨kind, cursor.offset, some (String.ofList (sign ++ whole ++ fraction ++ exponent))⟩,
    after)

def name (cursor : Cursor) : Token × Cursor :=
  let (front, after) := cursor.takeWhile isNameContinue
  (⟨.name, cursor.offset, some (String.ofList front)⟩, after)

/-- The character that follows a backslash for one that needs escaping. -/
def escaped? : Char → Option Char
  | '\"' => some '\"'
  | '/' => some '/'
  | '\\' => some '\\'
  | 'b' => some '\x08'
  | 'f' => some '\x0c'
  | 'n' => some '\n'
  | 'r' => some '\r'
  | 't' => some '\t'
  | _ => none

def isScalarCode (code : Nat) : Bool :=
  code ≤ 0xd7ff || (0xe000 ≤ code && code ≤ 0x10ffff)

def hexValue? (cs : List Char) : Option Nat :=
  (cs.mapM Text.hexDigit?).map fun digits => digits.foldl (fun code digit => 16 * code + digit) 0

def unit16? (cs : List Char) : Option Nat :=
  if cs.length < 4 then none else hexValue? (cs.take 4)

/-- A character written by its code, and how many characters that took. -/
structure Escape where
  value : Char
  size : Nat

/-- Reads the digits of a braced code; `size` characters were read before. -/
def bracedCode (cursor : Cursor) : List Char → Nat → Nat → Except SyntaxFault Escape
  | [], size, _ => cursor.fail (.unicodeEscape (String.ofList (cursor.rest.take size)))
  | c :: rest, size, code =>
    let problem : SyntaxProblem := .unicodeEscape (String.ofList (cursor.rest.take (size + 1)))
    if 12 ≤ size then
      cursor.fail (.unicodeEscape (String.ofList (cursor.rest.take size)))
    else if c = '\x7d' then
      if size + 1 < 5 || !isScalarCode code then cursor.fail problem
      else .ok ⟨Char.ofNat code, size + 1⟩
    else
      match Text.hexDigit? c with
      | some digit => bracedCode cursor rest (size + 1) (16 * code + digit)
      | none => cursor.fail problem

/-- Four hexadecimal digits, or eight that form a surrogate pair. -/
def fixedCode (cursor : Cursor) : Except SyntaxFault Escape :=
  let problem : SyntaxProblem := .unicodeEscape (String.ofList (cursor.rest.take 6))
  match unit16? (cursor.rest.drop 2) with
  | none => cursor.fail problem
  | some code =>
    if isScalarCode code then .ok ⟨Char.ofNat code, 6⟩
    else if code ≤ 0xdbff then
      match cursor.rest.drop 6 with
      | '\\' :: 'u' :: rest =>
        match unit16? rest with
        | some low =>
          if 0xdc00 ≤ low ∧ low ≤ 0xdfff then
            .ok ⟨Char.ofNat (0x10000 + (code - 0xd800) * 0x400 + (low - 0xdc00)), 12⟩
          else cursor.fail problem
        | none => cursor.fail problem
      | _ => cursor.fail problem
    else cursor.fail problem

def escape (cursor : Cursor) : Except SyntaxFault Escape :=
  match cursor.rest with
  | _ :: 'u' :: '\x7b' :: rest => bracedCode cursor rest 3 0
  | _ :: 'u' :: _ => fixedCode cursor
  | _ :: c :: _ =>
    match escaped? c with
    | some value => .ok ⟨value, 2⟩
    | none => cursor.fail (.escape (String.ofList (cursor.rest.take 2)))
  | _ => cursor.fail (.escape (String.ofList cursor.rest))

/-- The characters of a string up to its closing quote. The first argument bounds the steps by the
length of the source. -/
def stringBody : Nat → Cursor → List Char → Except SyntaxFault (List Char × Cursor)
  | 0, cursor, _ => cursor.fail .unterminatedString
  | steps + 1, cursor, made =>
    match cursor.rest with
    | [] => cursor.fail .unterminatedString
    | c :: _ =>
      if c = '\"' then .ok (made.reverse, cursor.drop 1)
      else if c = '\\' then
        match escape cursor with
        | .ok code => stringBody steps (cursor.drop code.size) (code.value :: made)
        | .error fault => .error fault
      else if isLineEnd c then cursor.fail .unterminatedString
      else stringBody steps (cursor.drop 1) (c :: made)

/-- The lines of a block string up to its closing quotes. -/
def blockLines : Nat → Cursor → List Char → List (List Char) →
    Except SyntaxFault (List (List Char) × Cursor)
  | 0, cursor, _, _ => cursor.fail .unterminatedString
  | steps + 1, cursor, line, made =>
    match cursor.rest with
    | [] => cursor.fail .unterminatedString
    | '\"' :: '\"' :: '\"' :: _ => .ok ((line.reverse :: made).reverse, cursor.drop 3)
    | '\\' :: '\"' :: '\"' :: '\"' :: _ =>
      blockLines steps (cursor.drop 4) ('\"' :: '\"' :: '\"' :: line) made
    | '\r' :: '\n' :: _ => blockLines steps (cursor.drop 2) [] (line.reverse :: made)
    | c :: _ =>
      if isLineEnd c then blockLines steps (cursor.drop 1) [] (line.reverse :: made)
      else blockLines steps (cursor.drop 1) (c :: line) made

def isIndent (c : Char) : Bool := c = ' ' || c = '\t'

def indent (line : List Char) : Nat := (line.takeWhile isIndent).length

def isBlankLine (line : List Char) : Bool := line.all isIndent

/-- The smallest indent of the lines after the first that are not blank. -/
def commonIndent (lines : List (List Char)) : Option Nat :=
  ((lines.drop 1).filter (!isBlankLine ·) |>.map indent).min?

/-- Takes the common indent off all lines but the first, and blank lines off both ends. -/
def dedent (lines : List (List Char)) : List (List Char) :=
  let shift := (commonIndent lines).getD 0
  let cut := match lines with
    | [] => []
    | first :: rest => first :: rest.map (List.drop shift)
  let blank := lines.map isBlankLine
  let leading := (blank.takeWhile id).length
  let trailing := (blank.reverse.takeWhile id).length
  if leading = lines.length then [] else (cut.take (lines.length - trailing)).drop leading

def blockText (lines : List (List Char)) : String :=
  "\n".intercalate ((dedent lines).map String.ofList)

def string (cursor : Cursor) : Read := do
  let (body, after) ← stringBody (cursor.rest.length + 1) (cursor.drop 1) []
  return (⟨.string, cursor.offset, some (String.ofList body)⟩, after)

def blockString (cursor : Cursor) : Read := do
  let (lines, after) ← blockLines (cursor.rest.length + 1) (cursor.drop 3) [] []
  return (⟨.blockString, cursor.offset, some (blockText lines)⟩, after)

/-- The token at a cursor that stands on no blank. -/
def here (cursor : Cursor) : Read :=
  match cursor.rest with
  | [] => .ok (⟨.endOfSource, cursor.offset, none⟩, cursor)
  | c :: rest =>
    match TokenKind.ofChar? c with
    | some kind => .ok (⟨kind, cursor.offset, none⟩, cursor.drop 1)
    | none =>
      if Text.isAsciiDigit c || c = '-' then number cursor
      else if isNameStart c then .ok (name cursor)
      else
        match c, rest with
        | '.', '.' :: '.' :: _ => .ok (⟨.spread, cursor.offset, none⟩, cursor.drop 3)
        | '\"', '\"' :: '\"' :: _ => blockString cursor
        | '\"', _ => string cursor
        | '\'', _ => cursor.fail .singleQuote
        | c, _ => cursor.fail (.character (some c))

def next (cursor : Cursor) : Read := here (skipIgnored false cursor.rest cursor.offset)

end Token

end GraphQL
