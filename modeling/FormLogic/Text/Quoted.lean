import FormLogic.Text.Printable

/-!
# `FormLogic.Text.Quoted` — texts between double quotes

A quoted text stands between double quotes. A quote, a backslash, NUL, a tab and the two line ends
have short escapes; every other character that cannot be shown on its own is written by its code
point, `\u{301}`.

## Contents
- `escape`: the written form of one character; `quote`: of a text.
-/

namespace FormLogic.Text

/-- The written form of a character inside a quoted text. -/
def escape (c : Char) : List Char :=
  if c = '"' then ['\\', '"']
  else if c = '\\' then ['\\', '\\']
  else if c = '\n' then ['\\', 'n']
  else if c = '\r' then ['\\', 'r']
  else if c = '\t' then ['\\', 't']
  else if c = '\x00' then ['\\', '0']
  else if isPrintable c && !isExtending c then [c]
  else '\\' :: 'u' :: '\x7b' :: (Nat.toDigits 16 c.toNat ++ ['\x7d'])

/-- The characters of the quoted form. -/
def quoteList (cs : List Char) : List Char :=
  '"' :: (cs.flatMap escape ++ ['"'])

/-- The text between double quotes. -/
def quote (s : String) : String :=
  String.ofList (quoteList s.toList)

/-- A printable ASCII character other than the quote and the backslash is written as it is. -/
theorem escape_eq_self {c : Char} (low : 0x20 ≤ c.toNat) (high : c.toNat < 0x7F)
    (notQuote : c ≠ '"') (notBackslash : c ≠ '\\') : escape c = [c] := by
  have blank (d : Char) (hd : d.toNat < 0x20) : c ≠ d := by
    rintro rfl
    omega
  have printable : isPrintable c = true := by
    simp [isPrintable, high, low]
  have alone : isExtending c = false := by
    have : ¬ 0x300 ≤ c.toNat := by omega
    simp [isExtending, this]
  simp [escape, notQuote, notBackslash, blank '\n' (by decide), blank '\r' (by decide),
    blank '\t' (by decide), blank '\x00' (by decide), printable, alone]

end FormLogic.Text
