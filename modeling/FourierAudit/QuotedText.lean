/-
Quoted texts.

A text is quoted so that every character can be told from its written form: single quotes
around it, unless it has a single quote and no double quote; the quote, a backslash, a line
feed, a carriage return and a tab behind a backslash; other characters that are not
printable by their code point, with two, four or eight hexadecimal digits.

* `QuotedText.encode` — the quoted form of a text.
-/
import FourierAudit.Printable

namespace FourierAudit.QuotedText

/-- A number in lower case hexadecimal, with leading zeros up to `width` digits. -/
def hexadecimal (width n : Nat) : List Char :=
  let digits := Nat.toDigits 16 n
  List.replicate (width - digits.length) '0' ++ digits

/-- The written form of a character between two quotes. -/
def encodeChar (quote c : Char) : List Char :=
  if c = quote ∨ c = '\\' then ['\\', c]
  else if c = '\n' then ['\\', 'n']
  else if c = '\r' then ['\\', 'r']
  else if c = '\t' then ['\\', 't']
  else if Printable.isPrintable c then [c]
  else if c.toNat < 0x100 then '\\' :: 'x' :: hexadecimal 2 c.toNat
  else if c.toNat < 0x10000 then '\\' :: 'u' :: hexadecimal 4 c.toNat
  else '\\' :: 'U' :: hexadecimal 8 c.toNat

def singleQuote : Char := '\x27'

def doubleQuote : Char := '\x22'

/-- The quote that a text is written between. -/
def quoteOf (text : List Char) : Char :=
  if singleQuote ∈ text ∧ doubleQuote ∉ text then doubleQuote else singleQuote

def encode (text : String) : String :=
  let chars := text.toList
  let quote := quoteOf chars
  String.ofList (quote :: chars.flatMap (encodeChar quote) ++ [quote])

end FourierAudit.QuotedText
