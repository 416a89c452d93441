import SlangScript.Text.Printable

/-!
Quoted texts. A text stands between single quotes, or between double quotes if it holds a single
quote and no double one. A backslash, the quote in use, line feed, carriage return, tab and every
hidden character are escaped; all else stands for itself.
-/

namespace SlangScript.Text.Quoted

def hexDigit (n : Nat) : Char := if n < 10 then Char.ofNat (48 + n) else Char.ofNat (87 + n)

/-- The last `width` hexadecimal digits of `n`. -/
def hexDigits : (width n : Nat) → List Char
  | 0, _ => []
  | width + 1, n => hexDigits width (n / 16) ++ [hexDigit (n % 16)]

/-- The shortest of the escapes of two, four and eight hexadecimal digits that holds `n`. -/
def codeEscape (n : Nat) : List Char :=
  if n < 0x100 then '\\' :: 'x' :: hexDigits 2 n
  else if n < 0x10000 then '\\' :: 'u' :: hexDigits 4 n
  else '\\' :: 'U' :: hexDigits 8 n

/-- The written form of one character of a text between two `quote`s. -/
def encodeChar (quote c : Char) : List Char :=
  if c = quote ∨ c = '\\' then ['\\', c]
  else if c = '\n' then ['\\', 'n']
  else if c = '\r' then ['\\', 'r']
  else if c = '\t' then ['\\', 't']
  else if isPrintable c then [c]
  else codeEscape c.toNat

/-- The quote that a text is written with. -/
def quoteOf (text : List Char) : Char :=
  if text.contains '\x27' && !text.contains '\x22' then '\x22' else '\x27'

def encode (text : List Char) : List Char :=
  let quote := quoteOf text
  quote :: text.flatMap (encodeChar quote) ++ [quote]

end SlangScript.Text.Quoted

namespace SlangScript.Text

def quoted (text : String) : String := String.ofList (Quoted.encode text.toList)

end SlangScript.Text
