import ClassScript.Span
import ClassScript.Text.Printable

/-!
Tokens: reserved words, punctuation, and the classes of lexeme that carry a text of their own.
-/

namespace ClassScript

/-- The reserved words. -/
inductive Keyword where
  | importWord | fromWord | letWord | openWord | classWord | interfaceWord | extendsWord
  | implementsWord | constructorWord | newWord | thisWord | publicWord | privateWord
  | staticWord | readonlyWord | returnWord | superWord | ifWord | elseWord | matchWord
  | defaultWord | foreachWord | inWord | nullWord | vdomWord
  deriving DecidableEq, Inhabited, Repr

namespace Keyword

/-- How a reserved word is written. -/
def spelling : Keyword → String
  | importWord => "import"
  | fromWord => "from"
  | letWord => "let"
  | openWord => "open"
  | classWord => "class"
  | interfaceWord => "interface"
  | extendsWord => "extends"
  | implementsWord => "implements"
  | constructorWord => "constructor"
  | newWord => "new"
  | thisWord => "this"
  | publicWord => "public"
  | privateWord => "private"
  | staticWord => "static"
  | readonlyWord => "readonly"
  | returnWord => "return"
  | superWord => "super"
  | ifWord => "if"
  | elseWord => "else"
  | matchWord => "match"
  | defaultWord => "default"
  | foreachWord => "foreach"
  | inWord => "in"
  | nullWord => "null"
  | vdomWord => "vdom"

/-- Every reserved word. -/
def all : List Keyword :=
  [importWord, fromWord, letWord, openWord, classWord, interfaceWord, extendsWord,
    implementsWord, constructorWord, newWord, thisWord, publicWord, privateWord, staticWord,
    readonlyWord, returnWord, superWord, ifWord, elseWord, matchWord, defaultWord, foreachWord,
    inWord, nullWord, vdomWord]

/-- The reserved word that is written so. -/
def ofSpelling? (s : String) : Option Keyword := all.find? fun k => k.spelling == s

end Keyword

/-- Operators and delimiters. -/
inductive Symbol where
  | assign | plus | minus | star | slash | percent | bang | less | greater | lessEq | greaterEq
  | equal | notEqual | and | or | arrow | fatArrow | question | lessSlash | slashGreater
  | comma | semicolon | colon | dot | leftParen | rightParen | leftBrace | rightBrace
  | leftBracket | rightBracket
  deriving DecidableEq, Inhabited, Repr

namespace Symbol

/-- How an operator or delimiter is written. -/
def spelling : Symbol → String
  | assign => "="
  | plus => "+"
  | minus => "-"
  | star => "*"
  | slash => "/"
  | percent => "%"
  | bang => "!"
  | less => "<"
  | greater => ">"
  | lessEq => "<="
  | greaterEq => ">="
  | equal => "=="
  | notEqual => "!="
  | and => "&&"
  | or => "||"
  | arrow => "->"
  | fatArrow => "=>"
  | question => "?"
  | lessSlash => "</"
  | slashGreater => "/>"
  | comma => ","
  | semicolon => ";"
  | colon => ":"
  | dot => "."
  | leftParen => "("
  | rightParen => ")"
  | leftBrace => "\x7b"
  | rightBrace => "\x7d"
  | leftBracket => "["
  | rightBracket => "]"

/-- The two-character symbol that two characters spell. -/
def double? : Char → Char → Option Symbol
  | '/', '>' => some slashGreater
  | '<', '/' => some lessSlash
  | '<', '=' => some lessEq
  | '>', '=' => some greaterEq
  | '=', '=' => some equal
  | '=', '>' => some fatArrow
  | '!', '=' => some notEqual
  | '&', '&' => some and
  | '|', '|' => some or
  | '-', '>' => some arrow
  | _, _ => none

/-- The symbol that one character spells. -/
def single? : Char → Option Symbol
  | '=' => some assign
  | '+' => some plus
  | '-' => some minus
  | '*' => some star
  | '/' => some slash
  | '%' => some percent
  | '!' => some bang
  | '<' => some less
  | '>' => some greater
  | '?' => some question
  | ',' => some comma
  | ';' => some semicolon
  | ':' => some colon
  | '.' => some dot
  | '(' => some leftParen
  | ')' => some rightParen
  | '\x7b' => some leftBrace
  | '\x7d' => some rightBrace
  | '[' => some leftBracket
  | ']' => some rightBracket
  | _ => none

end Symbol

/-- The class of a token. -/
inductive TokenKind where
  | endOfInput | comment | identifier | number | string | boolean | atName
  | symbol (s : Symbol)
  | keyword (k : Keyword)
  deriving DecidableEq, Inhabited, Repr

namespace TokenKind

/-- The name of a class of tokens in listings and messages. -/
def name : TokenKind → String
  | endOfInput => "EOF"
  | comment => "COMMENT"
  | identifier => "IDENT"
  | number => "NUMBER"
  | string => "STRING"
  | boolean => "BOOLEAN"
  | atName => "ANNOTATION"
  | symbol s => s.spelling
  | keyword k => k.spelling.map Char.toUpper

/-- The class of a word: a truth value, a reserved word, or an identifier. -/
def ofWord (w : String) : TokenKind :=
  if w == "true" || w == "false" then boolean
  else
    match Keyword.ofSpelling? w with
    | some k => keyword k
    | none => identifier

/-- Whether a class of tokens is a reserved word; truth values are not counted. -/
def isKeyword : TokenKind → Bool
  | keyword _ => true
  | _ => false

/-- Whether a token can name a markup tag or attribute: any word can. -/
def isName : TokenKind → Bool
  | identifier | boolean | keyword _ => true
  | _ => false

end TokenKind

/-- What a token stands for beside its lexeme. -/
inductive Literal where
  | nothing
  | integer (n : Nat)
  | text (t : Text)
  deriving DecidableEq, Inhabited

/-- A token: its class, the exact text of it, and where it stands. -/
structure Token where
  kind : TokenKind
  lexeme : Text
  span : Span
  deriving DecidableEq, Inhabited

namespace Token

/-- The lexeme as a character string. -/
def word (t : Token) : String := t.lexeme.shown

/-- The text between the quotes of a string token; one that runs to the end of the input has no
closing quote. -/
def contents (t : Token) : Text := (t.lexeme.drop 1).takeWhile fun g => !g.is '"'

/-- The value of a run of decimal digits. -/
def decimal (t : Text) : Nat := t.foldl (fun n g => n * 10 + (g.shown.toNat - '0'.toNat)) 0

/-- What a token stands for: the value of a number, the contents of a string, the name of an
annotation, and otherwise the lexeme. -/
def literal (t : Token) : Literal :=
  match t.kind with
  | .endOfInput => .nothing
  | .number => .integer (decimal t.lexeme)
  | .string => .text t.contents
  | .atName => .text (t.lexeme.drop 1)
  | _ => .text t.lexeme

/-- A token in a listing: class, quoted lexeme and place. -/
def listing (t : Token) : String :=
  t.kind.name ++ "(" ++ Text.quoted t.lexeme ++ ") at " ++ t.span.place

end Token

end ClassScript
