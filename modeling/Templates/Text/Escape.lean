/-!
# Escaped text

Printable ASCII stands for itself, quotes and backslashes take a backslash, tabs and line ends have
letters, and every other character is written by its code point in hexadecimal.
-/

namespace Templates.Text

/-- The characters that stand for `c` between quotes. -/
def escapeChar (c : Char) : List Char :=
  if c = '\t' then ['\\', 't']
  else if c = '\r' then ['\\', 'r']
  else if c = '\n' then ['\\', 'n']
  else if c = '\'' ∨ c = '"' ∨ c = '\\' then ['\\', c]
  else if 0x20 ≤ c.toNat ∧ c.toNat ≤ 0x7e then [c]
  else ['\\', 'u', '\x7b'] ++ Nat.toDigits 16 c.toNat ++ ['\x7d']

def escape (s : String) : String := String.ofList (s.toList.flatMap escapeChar)

theorem escape_append (s t : String) : escape (s ++ t) = escape s ++ escape t := by
  simp [escape, String.ofList_append]

end Templates.Text
