namespace DotGraph

/-! JSON values and their texts.  A text is written in front of the text that follows it, so that
writing takes one pass whatever the nesting. -/

inductive Json where
  | null
  | bool (value : Bool)
  | number (value : Nat)
  | string (value : String)
  | array (items : List Json)
  | object (members : List (String × Json))
deriving Repr, Inhabited

namespace Json

def hexDigit (n : Nat) : Char :=
  Nat.digitChar n

/-- Only the quote, the backslash and the characters below the blank are escaped. -/
def escapeChar (c : Char) : List Char :=
  if c = '"' then ['\\', '"']
  else if c = '\\' then ['\\', '\\']
  else if c = '\x08' then ['\\', 'b']
  else if c = '\x0c' then ['\\', 'f']
  else if c = '\n' then ['\\', 'n']
  else if c = '\r' then ['\\', 'r']
  else if c = '\t' then ['\\', 't']
  else if c.toNat < 0x20 then
    ['\\', 'u', '0', '0', hexDigit (c.toNat / 16), hexDigit (c.toNat % 16)]
  else [c]

def writeString (text : String) (rest : List Char) : List Char :=
  '"' :: text.toList.foldr (fun c rest => escapeChar c ++ rest) ('"' :: rest)

/-- What stands before an item or a closing bracket at a depth, and what divides a member's name
from its value. -/
structure Layout where
  gap : Nat → List Char
  colon : List Char

def Layout.compact : Layout := ⟨fun _ => [], [':']⟩

def Layout.pretty : Layout :=
  ⟨fun depth => '\n' :: List.replicate (2 * depth) ' ', [':', ' ']⟩

mutual
def write (layout : Layout) (depth : Nat) : Json → List Char → List Char
  | null, rest => 'n' :: 'u' :: 'l' :: 'l' :: rest
  | bool true, rest => 't' :: 'r' :: 'u' :: 'e' :: rest
  | bool false, rest => 'f' :: 'a' :: 'l' :: 's' :: 'e' :: rest
  | number value, rest => Nat.toDigits 10 value ++ rest
  | string value, rest => writeString value rest
  | array [], rest => '[' :: ']' :: rest
  | array (item :: items), rest =>
      '[' :: (layout.gap (depth + 1) ++
        write layout (depth + 1) item (writeItems layout depth items rest))
  | object [], rest => '\x7b' :: '\x7d' :: rest
  | object ((name, value) :: members), rest =>
      '\x7b' :: (layout.gap (depth + 1) ++ writeString name (layout.colon ++
        write layout (depth + 1) value (writeMembers layout depth members rest)))

def writeItems (layout : Layout) (depth : Nat) : List Json → List Char → List Char
  | [], rest => layout.gap depth ++ ']' :: rest
  | item :: items, rest =>
      ',' :: (layout.gap (depth + 1) ++
        write layout (depth + 1) item (writeItems layout depth items rest))

def writeMembers (layout : Layout) (depth : Nat) :
    List (String × Json) → List Char → List Char
  | [], rest => layout.gap depth ++ '\x7d' :: rest
  | (name, value) :: members, rest =>
      ',' :: (layout.gap (depth + 1) ++ writeString name (layout.colon ++
        write layout (depth + 1) value (writeMembers layout depth members rest)))
end

def text (layout : Layout) (json : Json) : String :=
  String.ofList (json.write layout 0 [])

def compact (json : Json) : String :=
  json.text .compact

def pretty (json : Json) : String :=
  json.text .pretty

def render (isPretty : Bool) (json : Json) : String :=
  if isPretty then json.pretty else json.compact

def ofOption (encode : α → Json) : Option α → Json
  | none => null
  | some value => encode value

end Json

end DotGraph
