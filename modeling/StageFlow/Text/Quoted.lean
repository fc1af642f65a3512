import StageFlow.Text.Digits
import StageFlow.Text.Invisible

/-!
# Quoted text

Text between double quotes as messages show it: what a reader could not see is escaped.

## Contents
- **Escapes.** `escapeVisible`, one character.
- **Quoting.** `quoted`.
-/

namespace StageFlow.Text

/-- One character as it stands between quotes in a message. -/
def escapeVisible (c : Char) : List Char :=
  if c = '\x00' then ['\\', '0']
  else if c = '\t' then ['\\', 't']
  else if c = '\n' then ['\\', 'n']
  else if c = '\r' then ['\\', 'r']
  else if c = '"' || c = '\\' then ['\\', c]
  else if isInvisible c then '\\' :: 'u' :: '\x7b' :: (hex (hexWidth c.toNat) c.toNat ++ ['\x7d'])
  else [c]

/-- Text between double quotes, escaped. -/
def quoted (s : String) : String :=
  String.ofList ('"' :: (s.toList.flatMap escapeVisible ++ ['"']))

end StageFlow.Text
