import ClassWeave.Text.Unprintable

/-!
# Quoted text

How messages show a text they quote: in double quotes, with a backslash before quotes and
backslashes, the short forms for null, tab and line ends, and the number of any other character that
would not show.
-/

namespace ClassWeave.Text

/-- A code point in lower case hex, without leading zeros. -/
def hexCode (c : Char) : List Char := Nat.toDigits 16 c.toNat

/-- One character inside quotes. -/
def quoteChar (c : Char) : List Char :=
  if c = '"' then ['\\', '"']
  else if c = '\\' then ['\\', '\\']
  else if c = '\n' then ['\\', 'n']
  else if c = '\r' then ['\\', 'r']
  else if c = '\t' then ['\\', 't']
  else if c = Char.ofNat 0 then ['\\', '0']
  else if isUnprintable c then '\\' :: 'u' :: Char.ofNat 0x7B :: hexCode c ++ [Char.ofNat 0x7D]
  else [c]

def quoted (text : String) : String :=
  String.ofList ('"' :: text.toList.flatMap quoteChar ++ ['"'])

end ClassWeave.Text
