import PageSplice.Text.Unprintable
import PageSplice.Text

/-!
# Quoted texts

A text in double quotes as a message shows it: quotes and backslashes behind a backslash, line ends
and tabs as letters, and what cannot be printed by its number.
-/

namespace PageSplice.Text

def quotedChar (c : Char) : Text :=
  if c = '\x00' then ['\\', '0']
  else if c = '\t' then ['\\', 't']
  else if c = '\r' then ['\\', 'r']
  else if c = '\n' then ['\\', 'n']
  else if c = '\\' ∨ c = '"' then ['\\', c]
  else if isUnprintable c then ['\\', 'u', '{'] ++ Nat.toDigits 16 c.toNat ++ ['}']
  else [c]

def quoted (t : Text) : Text := ['"'] ++ t.flatMap quotedChar ++ ['"']

example : quoted ['a', '"', '\n', '\u200b'] =
    ['"', 'a', '\\', '"', '\\', 'n', '\\', 'u', '{', '2', '0', '0', 'b', '}', '"'] := by
  decide +kernel

end PageSplice.Text
