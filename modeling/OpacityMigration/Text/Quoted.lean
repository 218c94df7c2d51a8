import OpacityMigration.Text.Visibility

/-!
# Quoted text in messages

A message shows a text between quotes, in such a way that each of its characters can be seen: a
character that would not show, or would only change the one before it, is written by its number.
-/

namespace OpacityMigration.Text

/-- A character inside quotes. -/
def visible (c : Char) : List Char :=
  if c = '\x00' then ['\\', '0']
  else if c = '\t' then ['\\', 't']
  else if c = '\n' then ['\\', 'n']
  else if c = '\r' then ['\\', 'r']
  else if c = '"' then ['\\', '"']
  else if c = '\\' then ['\\', '\\']
  else if isVisible c then [c]
  else ['\\', 'u', '\x7b'] ++ Nat.toDigits 16 c.toNat ++ ['\x7d']

def quoted (s : String) : String :=
  String.ofList ('"' :: s.toList.flatMap visible ++ ['"'])

end OpacityMigration.Text
