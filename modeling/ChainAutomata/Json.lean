/-
JSON values and their texts.

* `Json` — the values; the members of an object are in order, integers and floating point numbers
  are told apart;
* `Json.compact` — the text on one line;
* `Json.indented` — the text over several lines, two spaces per level, with nothing between the
  brackets of an empty list or object;
* `Json.quoted` — the written form of a string: the quote, the backslash and the controls below
  the space are escaped, everything else stands for itself.
-/
import ChainAutomata.Decimal.Shortest

namespace ChainAutomata

/-- A JSON value. -/
inductive Json where
  | null
  | bool (value : Bool)
  | integer (value : Int)
  | float (value : Float)
  | text (value : String)
  | array (items : List Json)
  | object (members : List (String × Json))

namespace Json

/-- The written form of one character of a string. -/
def escaped (c : Char) : List Char :=
  if c = '"' then ['\\', '"']
  else if c = '\\' then ['\\', '\\']
  else if c = '\x08' then ['\\', 'b']
  else if c = '\x0c' then ['\\', 'f']
  else if c = '\n' then ['\\', 'n']
  else if c = '\r' then ['\\', 'r']
  else if c = '\t' then ['\\', 't']
  else if c.toNat < 0x20 then
    ['\\', 'u', '0', '0', Text.digitChar (c.toNat / 16), Text.digitChar (c.toNat % 16)]
  else [c]

/-- The written form of a string. -/
def quoted (s : String) : List Char := '"' :: (s.toList.flatMap escaped ++ ['"'])

/-- The text of a value that has no parts; empty for one that has. -/
def scalar : Json → List Char
  | null => "null".toList
  | bool true => "true".toList
  | bool false => "false".toList
  | integer n => (Text.signedDecimal n).toList
  | float x => (Decimal.render x).toList
  | text s => quoted s
  | array _ => []
  | object _ => []

mutual

/-- The characters of a value on one line. -/
def line : Json → List Char
  | array [] => ['[', ']']
  | array (x :: xs) => '[' :: line x ++ lineItems xs
  | object [] => ['\x7b', '\x7d']
  | object ((key, x) :: rest) => '\x7b' :: quoted key ++ ':' :: line x ++ lineMembers rest
  | x => scalar x

/-- The items after the first, up to the closing bracket. -/
def lineItems : List Json → List Char
  | [] => [']']
  | x :: xs => ',' :: line x ++ lineItems xs

/-- The members after the first, up to the closing bracket. -/
def lineMembers : List (String × Json) → List Char
  | [] => ['\x7d']
  | (key, x) :: rest => ',' :: quoted key ++ ':' :: line x ++ lineMembers rest

end

/-- The text on one line, without spaces. -/
def compact (x : Json) : String := String.ofList x.line

/-- A line break and the indentation of a level. -/
def newline (level : Nat) : List Char := '\n' :: List.replicate (2 * level) ' '

mutual

/-- The characters of a value whose opening bracket stands on a line of the given level. -/
def block (level : Nat) : Json → List Char
  | array [] => ['[', ']']
  | array (x :: xs) =>
    '[' :: newline (level + 1) ++ block (level + 1) x ++ blockItems level xs
  | object [] => ['\x7b', '\x7d']
  | object ((key, x) :: rest) =>
    '\x7b' :: newline (level + 1) ++ quoted key ++ ':' :: ' ' :: block (level + 1) x
      ++ blockMembers level rest
  | x => scalar x

/-- The items after the first, up to the closing bracket. -/
def blockItems (level : Nat) : List Json → List Char
  | [] => newline level ++ [']']
  | x :: xs => ',' :: newline (level + 1) ++ block (level + 1) x ++ blockItems level xs

/-- The members after the first, up to the closing bracket. -/
def blockMembers (level : Nat) : List (String × Json) → List Char
  | [] => newline level ++ ['\x7d']
  | (key, x) :: rest =>
    ',' :: newline (level + 1) ++ quoted key ++ ':' :: ' ' :: block (level + 1) x
      ++ blockMembers level rest

end

/-- The text over several lines. -/
def indented (x : Json) : String := String.ofList (x.block 0)

/-- The first value of a member of an object. -/
def member? (x : Json) (key : String) : Option Json :=
  match x with
  | object members => (members.find? fun m => m.1 == key).map Prod.snd
  | _ => none

end Json

end ChainAutomata
