import CharacterSheet.Number

/-!
Contract: JSON documents and the reading of their texts.

Owns:
- documents, which keep the order and the repetition of the fields of an object;
- a reader that accepts exactly the JSON grammar.

A string may hold half of a surrogate pair, which stands for no character. Such a
string has no content; it only does no harm where it is passed over.
-/

namespace CharacterSheet

/-- A JSON document. -/
inductive Json where
  | null
  | bool (value : Bool)
  /-- A number written without fraction and exponent. -/
  | integer (value : Int)
  /-- Any other number; infinite if it is too large for a double. -/
  | real (value : Number)
  | string (content : Option String)
  | array (items : List Json)
  | object (fields : List (Option String × Json))

namespace Json

/-- A string with the given content. -/
def ofString (content : String) : Json := string (some content)

/-- An object with the given fields. -/
def ofFields (fields : List (String × Json)) : Json :=
  object (fields.map fun field => (some field.1, field.2))

/-- What is left of a text after a part of it was read. -/
abbrev Rest := List Char

def isBlank (character : Char) : Bool :=
  character = ' ' || character = '\t' || character = '\n' || character = '\r'

def skipBlanks (text : Rest) : Rest := text.dropWhile isBlank

/-- The number that a run of decimal digits stands for. -/
def digitsValue (digits : List Char) : Nat :=
  digits.foldl (fun value digit => value * 10 + (digit.toNat - '0'.toNat)) 0

/-- A run of at least one digit. -/
def readDigits (text : Rest) : Option (List Char × Rest) :=
  match text.takeWhile Char.isDigit with
  | [] => none
  | digits => some (digits, text.dropWhile Char.isDigit)

/-- The digits before the point: no leading zero unless zero is all there is. -/
def readWhole (text : Rest) : Option (List Char × Rest) := do
  let (digits, rest) ← readDigits text
  match digits with
  | '0' :: _ :: _ => none
  | _ => some (digits, rest)

/-- The digits after the point, if there is a point. -/
def readFraction (text : Rest) : Option (Option (List Char) × Rest) :=
  match text with
  | '.' :: after => (readDigits after).map fun (digits, rest) => (some digits, rest)
  | _ => some (none, text)

/-- The exponent, if there is one. -/
def readExponent (text : Rest) : Option (Option Int × Rest) :=
  match text with
  | mark :: after =>
      if mark = 'e' || mark = 'E' then
        let (negative, unsigned) := match after with
          | '-' :: rest => (true, rest)
          | '+' :: rest => (false, rest)
          | _ => (false, after)
        (readDigits unsigned).map fun (digits, rest) =>
          let size : Int := digitsValue digits
          (some (if negative then -size else size), rest)
      else some (none, text)
  | [] => some (none, text)

/-- The number nearest to `digits` times a power of ten. -/
def nearestNumber (negative : Bool) (digits : Nat) (exponent : Int) : Number :=
  let magnitude :=
    if digits = 0 then 0.0
    else if 0 ≤ exponent then
      if 400 < exponent then Float.ofScientific 1 false 400
      else Float.ofScientific digits false exponent.toNat
    else
      -- far more places than digits: too small for any double
      if (toString digits).length + 400 < (-exponent).toNat then 0.0
      else Float.ofScientific digits true (-exponent).toNat
  if negative then -.ofFloat magnitude else .ofFloat magnitude

/-- A number without its sign. -/
def readUnsigned (negative : Bool) (text : Rest) : Option (Json × Rest) := do
  let (whole, afterWhole) ← readWhole text
  let (fraction, afterFraction) ← readFraction afterWhole
  let (exponent, rest) ← readExponent afterFraction
  let value := digitsValue whole
  match fraction, exponent with
  | none, none =>
      if negative && value = 0 then some (.real (-0), rest)
      else some (.integer (if negative then -value else value), rest)
  | _, _ =>
      let places := fraction.getD []
      some (.real (nearestNumber negative (digitsValue (whole ++ places))
        (exponent.getD 0 - places.length)), rest)

def readNumber (text : Rest) : Option (Json × Rest) :=
  match text with
  | '-' :: rest => readUnsigned true rest
  | _ => readUnsigned false text

def hexValue? (digit : Char) : Option Nat :=
  if digit.isDigit then some (digit.toNat - '0'.toNat)
  else if 'a' ≤ digit ∧ digit ≤ 'f' then some (digit.toNat - 'a'.toNat + 10)
  else if 'A' ≤ digit ∧ digit ≤ 'F' then some (digit.toNat - 'A'.toNat + 10)
  else none

/-- A unit of sixteen bits, as four hexadecimal digits. -/
def readUnit (text : Rest) : Option (Nat × Rest) :=
  match text with
  | a :: b :: c :: d :: rest => do
      let value := (((← hexValue? a) * 16 + (← hexValue? b)) * 16 + (← hexValue? c)) * 16 +
        (← hexValue? d)
      some (value, rest)
  | _ => none

def isLeading (unit : Nat) : Bool := 0xD800 ≤ unit && unit < 0xDC00

def isTrailing (unit : Nat) : Bool := 0xDC00 ≤ unit && unit < 0xE000

/-- A part of a string: a character, or a unit of sixteen bits. -/
inductive Piece where
  | character (value : Char)
  | unit (value : Nat)
deriving DecidableEq, Repr

/-- What a backslash and the next character stand for, other than a numbered unit. -/
def escaped? : Char → Option Char
  | '"' => some '"'
  | '\\' => some '\\'
  | '/' => some '/'
  | 'b' => some '\x08'
  | 'f' => some '\x0c'
  | 'n' => some '\n'
  | 'r' => some '\r'
  | 't' => some '\t'
  | _ => none

/-- The pieces of a string up to the closing quote; `fuel` bounds their number. -/
def readPieces : Nat → Rest → Option (List Piece × Rest)
  | 0, _ => none
  | _ + 1, [] => none
  | _ + 1, '"' :: rest => some ([], rest)
  | fuel + 1, '\\' :: 'u' :: digits => do
      let (value, afterUnit) ← readUnit digits
      let (pieces, rest) ← readPieces fuel afterUnit
      some (.unit value :: pieces, rest)
  | fuel + 1, '\\' :: mark :: after => do
      let value ← escaped? mark
      let (pieces, rest) ← readPieces fuel after
      some (.character value :: pieces, rest)
  | fuel + 1, value :: after =>
      if value.toNat < 0x20 || value = '\\' then none
      else do
        let (pieces, rest) ← readPieces fuel after
        some (.character value :: pieces, rest)

/-- Join pieces to a text; a surrogate has to stand in a pair. -/
def joinPieces : List Piece → Option (List Char)
  | [] => some []
  | .character value :: rest => (joinPieces rest).map (value :: ·)
  | .unit leading :: .unit trailing :: rest =>
      if isLeading leading then
        if isTrailing trailing then
          let code := 0x10000 + (leading - 0xD800) * 0x400 + (trailing - 0xDC00)
          (joinPieces rest).map (Char.ofNat code :: ·)
        else none
      else if isTrailing leading then none
      else (joinPieces (.unit trailing :: rest)).map (Char.ofNat leading :: ·)
  | .unit value :: rest =>
      if isLeading value || isTrailing value then none
      else (joinPieces rest).map (Char.ofNat value :: ·)

/-- A string behind its opening quote. -/
def readString (text : Rest) : Option (Option String × Rest) := do
  let (pieces, rest) ← readPieces (text.length + 1) text
  some ((joinPieces pieces).map String.ofList, rest)

/-- The rest of a text behind a word that it has to begin with. -/
def expectWord (word : List Char) (text : Rest) : Option Rest :=
  if word.isPrefixOf text then some (text.drop word.length) else none

mutual

/-- A value behind blanks; `fuel` bounds the number of values, items and fields. -/
def readValue : Nat → Rest → Option (Json × Rest)
  | 0, _ => none
  | fuel + 1, text =>
      match skipBlanks text with
      | 'n' :: rest => (expectWord ['u', 'l', 'l'] rest).map (null, ·)
      | 't' :: rest => (expectWord ['r', 'u', 'e'] rest).map (bool true, ·)
      | 'f' :: rest => (expectWord ['a', 'l', 's', 'e'] rest).map (bool false, ·)
      | '"' :: rest => (readString rest).map fun (content, after) => (string content, after)
      | '[' :: rest =>
          match skipBlanks rest with
          | ']' :: after => some (array [], after)
          | first => (readItems fuel first).map fun (items, after) => (array items, after)
      | '\x7b' :: rest =>
          match skipBlanks rest with
          | '\x7d' :: after => some (object [], after)
          | first => (readFields fuel first).map fun (fields, after) => (object fields, after)
      | other => readNumber other

/-- The items of an array up to the closing bracket. -/
def readItems : Nat → Rest → Option (List Json × Rest)
  | 0, _ => none
  | fuel + 1, text => do
      let (item, after) ← readValue fuel text
      match skipBlanks after with
      | ']' :: rest => some ([item], rest)
      | ',' :: next => do
          let (items, rest) ← readItems fuel next
          some (item :: items, rest)
      | _ => none

/-- The fields of an object up to the closing brace. -/
def readFields : Nat → Rest → Option (List (Option String × Json) × Rest)
  | 0, _ => none
  | fuel + 1, text =>
      match skipBlanks text with
      | '"' :: named => do
          let (name, afterName) ← readString named
          match skipBlanks afterName with
          | ':' :: valued => do
              let (value, after) ← readValue fuel valued
              match skipBlanks after with
              | '\x7d' :: rest => some ([(name, value)], rest)
              | ',' :: next => do
                  let (fields, rest) ← readFields fuel next
                  some ((name, value) :: fields, rest)
              | _ => none
          | _ => none
      | _ => none

end

/-- The document that a text holds, with nothing but blanks around it. -/
def parse? (text : String) : Option Json := do
  let characters := text.toList
  let (document, rest) ← readValue (2 * characters.length + 2) characters
  if (skipBlanks rest).isEmpty then some document else none

end Json
end CharacterSheet
