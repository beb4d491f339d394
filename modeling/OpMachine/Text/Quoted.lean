import OpMachine.Text.Digits
import OpMachine.Text.Unprintable

namespace OpMachine
/-!
Quoted text, as listings and diagnostics show it.

A quote and a backslash are marked by a backslash, four control characters
have a letter of their own, and every other character without a visible form
is written by its code point in hexadecimal.
-/

def Text.escapeCharacter (character : Char) : List Char :=
  if character = '"' then ['\\', '"']
  else if character = '\\' then ['\\', '\\']
  else if character = '\n' then ['\\', 'n']
  else if character = '\t' then ['\\', 't']
  else if character = '\r' then ['\\', 'r']
  else if character = Char.ofNat 0 then ['\\', '0']
  else if isUnprintable character then
    ['\\', 'u', '\x7b'] ++ Nat.toDigits 16 character.toNat ++ ['\x7d']
  else [character]

def Text.quoted (text : String) : String :=
  String.ofList ('"' :: text.toList.flatMap escapeCharacter ++ ['"'])
end OpMachine
