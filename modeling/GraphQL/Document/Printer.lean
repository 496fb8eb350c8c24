import GraphQL.Document
import GraphQL.Text.Quoted

/-!
The written form of literals and types, as error messages quote them.
-/

namespace GraphQL

namespace BlockText

def isIndent (c : Char) : Bool := c = ' ' || c = '\t'

/-- The lines of a text, of which the given characters begin the first in reverse. -/
def lines : List Char → List Char → List (List Char)
  | [], line => [line.reverse]
  | '\n' :: rest, line => line.reverse :: lines rest []
  | c :: rest, line => lines rest (c :: line)

/-- Puts a backslash before every three quotes. -/
def escapeQuotes : List Char → List Char
  | '\"' :: '\"' :: '\"' :: rest => '\\' :: '\"' :: '\"' :: '\"' :: escapeQuotes rest
  | c :: rest => c :: escapeQuotes rest
  | [] => []

def endsWith (cs ending : List Char) : Bool := ending.isSuffixOf cs

/-- A block string goes on lines of its own when it has several lines, is long, or ends with a
character that the closing quotes would swallow. -/
def write (text : String) : String :=
  let value := text.toList
  let escaped := escapeQuotes value
  let parts := lines escaped []
  let isSingle := parts.length ≤ 1
  let leadingBreak := !isSingle &&
    (parts.drop 1).all fun line => (line.head?.map isIndent).getD true
  let endsWithQuotes := endsWith escaped ['\\', '\"', '\"', '\"']
  let trailingBreak := (endsWith value ['\"'] && !endsWithQuotes) || endsWith value ['\\']
  let isSpread :=
    !isSingle || 70 < value.length || trailingBreak || leadingBreak || endsWithQuotes
  let startsIndented := isSingle && (value.head?.map isIndent).getD false
  String.ofList <|
    ['\"', '\"', '\"']
      ++ (if (isSpread && !startsIndented) || leadingBreak then ['\n'] else [])
      ++ escaped
      ++ (if isSpread || trailingBreak then ['\n'] else [])
      ++ ['\"', '\"', '\"']

end BlockText

namespace Literal

mutual

def print : Literal → String
  | reference _ name => "$" ++ name
  | int _ numeral => numeral
  | float _ numeral => numeral
  | string _ text true => BlockText.write text
  | string _ text false => Text.encodeDocument text
  | boolean _ value => if value then "true" else "false"
  | null _ => "null"
  | enum _ name => name
  | list _ items => "[" ++ ", ".intercalate (printItems items) ++ "]"
  | object _ fields => "\x7b" ++ ", ".intercalate (printFields fields) ++ "\x7d"

def printItems : List Literal → List String
  | [] => []
  | item :: rest => print item :: printItems rest

def printFields : List (String × Literal) → List String
  | [] => []
  | (name, value) :: rest => (name ++ ": " ++ print value) :: printFields rest

end

end Literal

def TypeNode.print : TypeNode → String
  | named _ name => name
  | list _ of => "[" ++ of.print ++ "]"
  | nonNull of => of.print ++ "!"

end GraphQL
