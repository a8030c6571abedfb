/-!
Settings documents: scalars, lists and mappings, written in a small part of YAML. A scalar keeps its
text; whether it was quoted matters only for the words that mean nothing at all.
-/

namespace ClassScript

/-- A document or a part of one. -/
inductive Yaml where
  | plain (text : String)
  | quoted (text : String)
  | list (items : List Yaml)
  | mapping (entries : List (Yaml × Yaml))
  deriving Inhabited

namespace Yaml

/-- A part that is left out. -/
def nothing : Yaml := plain ""

/-- The plain words for nothing. -/
def nullWords : List String := ["", "~", "null", "Null", "NULL"]

/-- Whether a part means nothing. -/
def isNull : Yaml → Bool
  | plain text => nullWords.contains text
  | _ => false

/-- The text of a scalar. -/
def text? : Yaml → Option String
  | plain text | quoted text => some text
  | _ => none

/-- Whether two keys count as the same: scalars with one text, two lists, or two mappings. -/
def sameKey : Yaml → Yaml → Bool
  | list _, list _ => true
  | mapping _, mapping _ => true
  | a, b =>
    match a.text?, b.text? with
    | some s, some t => s == t
    | _, _ => false

/-- Whether a key occurs twice. -/
def hasRepeatedKey : List Yaml → Bool
  | [] => false
  | k :: ks => ks.any (sameKey k) || hasRepeatedKey ks

/-- Why a text is no document. -/
inductive Fault where
  | forbiddenCharacter
  | unclosedQuote
  | unknownEscape
  | tabInIndentation
  | misplacedValue
  | misplacedEntry
  | keyExpected
  | colonExpected
  | entryExpected
  | separatorExpected
  | contentExpected
  | tooDeep
  deriving DecidableEq, Inhabited

/-- The wording of a fault. -/
def Fault.message : Fault → String
  | forbiddenCharacter => "control characters are not allowed"
  | unclosedQuote => "found unexpected end of stream"
  | unknownEscape => "found unknown escape character"
  | tabInIndentation => "found a tab character that violates indentation"
  | misplacedValue => "mapping values are not allowed in this context"
  | misplacedEntry => "block sequence entries are not allowed in this context"
  | keyExpected => "did not find expected key"
  | colonExpected => "could not find expected ':'"
  | entryExpected => "did not find expected '-' indicator"
  | separatorExpected => "did not find expected ',' or a closing bracket"
  | contentExpected => "did not find expected node content"
  | tooDeep => "document is nested too deeply"

end Yaml

end ClassScript
