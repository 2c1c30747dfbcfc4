import CharacterSheet.Text.Numbered

/-!
Contract: texts in quotes, for inspection.

A quote and a backslash are marked by a backslash, the common control characters have
letters of their own, and every other character that would not show is written by its
number.
-/

namespace CharacterSheet.Text

/-- Hexadecimal digits without leading zeros. -/
def hexDigits (number : Nat) : List Char := Nat.toDigits 16 number

/-- One character between quotes. -/
def quotedChar (character : Char) : List Char :=
  match character with
  | '"' => ['\\', '"']
  | '\\' => ['\\', '\\']
  | '\n' => ['\\', 'n']
  | '\r' => ['\\', 'r']
  | '\t' => ['\\', 't']
  | other =>
      if other.toNat = 0 then ['\\', '0']
      else if isNumbered other then
        ['\\', 'u', '\x7b'] ++ hexDigits other.toNat ++ ['\x7d']
      else [other]

/-- A text in quotes. -/
def quoted (text : String) : String :=
  String.ofList ('"' :: text.toList.flatMap quotedChar ++ ['"'])

end CharacterSheet.Text
