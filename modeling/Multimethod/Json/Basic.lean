/-!
# JSON values

Values of the JSON format and their indented text: two spaces per level, each item on a line of
its own, empty arrays and objects on one line.
-/

namespace Multimethod

/-- A JSON value. A number is kept as it is written. -/
inductive Json where
  | null
  | bool (value : Bool)
  | number (text : String)
  | string (text : String)
  | array (items : List Json)
  | object (fields : List (String × Json))
  deriving Inhabited

namespace Json

/-- A natural number. -/
def ofNat (n : Nat) : Json := number (toString n)

/-- The value of a field of an object. -/
def field? : Json → String → Option Json
  | object fields, name => (fields.find? (·.1 == name)).map (·.2)
  | _, _ => none

/-- A lower-case hexadecimal digit. -/
def hexDigit (n : Nat) : Char :=
  if n < 10 then Char.ofNat (n + 48) else Char.ofNat (n + 87)

/-- A character inside a string: quotes, backslashes and control characters are escaped. -/
def escapeChar (c : Char) : String :=
  match c with
  | '"' => "\\\""
  | '\\' => "\\\\"
  | '\n' => "\\n"
  | '\r' => "\\r"
  | '\t' => "\\t"
  | '\x08' => "\\b"
  | '\x0c' => "\\f"
  | c =>
      if c.toNat < 0x20 then
        "\\u00" ++ String.singleton (hexDigit (c.toNat / 16))
          ++ String.singleton (hexDigit (c.toNat % 16))
      else String.singleton c

/-- The text of a string. -/
def quote (s : String) : String :=
  "\"" ++ String.join (s.toList.map escapeChar) ++ "\""

/-- The spaces in front of an item at a level. -/
def indent (level : Nat) : String :=
  String.ofList (List.replicate (2 * level) ' ')

/-- Encloses the texts of items that stand at a level. -/
def enclose (opening closing : String) (level : Nat) (items : List String) : String :=
  if items.isEmpty then opening ++ closing
  else
    opening ++ "\n" ++ ",\n".intercalate (items.map fun item => indent (level + 1) ++ item)
      ++ "\n" ++ indent level ++ closing

mutual

/-- The indented text of a value at a level. -/
def renderAt (level : Nat) (value : Json) : String :=
  match value with
  | null => "null"
  | bool true => "true"
  | bool false => "false"
  | number text => text
  | string text => quote text
  | array items => enclose "[" "]" level (renderItems (level + 1) items)
  | object fields => enclose "\x7b" "\x7d" level (renderFields (level + 1) fields)

/-- The indented texts of the items of an array. -/
def renderItems (level : Nat) (items : List Json) : List String :=
  match items with
  | [] => []
  | item :: items => renderAt level item :: renderItems level items

/-- The indented texts of the fields of an object. -/
def renderFields (level : Nat) (fields : List (String × Json)) : List String :=
  match fields with
  | [] => []
  | (name, value) :: fields =>
      (quote name ++ ": " ++ renderAt level value) :: renderFields level fields

end

/-- The indented text of a value. -/
def render (value : Json) : String :=
  value.renderAt 0

end Json

end Multimethod
