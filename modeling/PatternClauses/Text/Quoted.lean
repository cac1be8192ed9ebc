import PatternClauses.Text.Unprintable

/-!
# Quoted text

Strings between double quotes and characters between single quotes.  The quote itself, the
backslash, four controls with short names and every unprintable character are escaped; all else
stands for itself.
-/

namespace PatternClauses

def codeEscape (character : Char) : List Char :=
  '\\' :: 'u' :: '\x7b' :: (Nat.toDigits 16 character.toNat ++ ['\x7d'])

/-- The escape of a character inside text that `quote` delimits, if it needs one. -/
def escape? (quote character : Char) : Option (List Char) :=
  if character = quote ∨ character = '\\' then some ['\\', character]
  else if character = '\t' then some ['\\', 't']
  else if character = '\n' then some ['\\', 'n']
  else if character = '\r' then some ['\\', 'r']
  else if character = Char.ofNat 0 then some ['\\', '0']
  else if isUnprintable character then some (codeEscape character)
  else none

def escaped (quote character : Char) : List Char := (escape? quote character).getD [character]

def quoted (text : String) : String :=
  String.ofList ('"' :: (text.toList.flatMap (escaped '"') ++ ['"']))

def quotedCharacter (character : Char) : String :=
  String.ofList ('\'' :: (escaped '\'' character ++ ['\'']))

theorem quoted_eq {text : String} (plain : ∀ character ∈ text.toList, escape? '"' character = none) :
    quoted text = String.ofList ('"' :: (text.toList ++ ['"'])) := by
  have same : text.toList.flatMap (escaped '"') = text.toList := by
    generalize text.toList = characters at plain
    induction characters with
    | nil => rfl
    | cons head tail induction =>
      rw [List.flatMap_cons, induction fun character member => plain character (.tail _ member)]
      simp [escaped, plain head (.head _)]
  rw [quoted, same]

example : quoted "a\tb" = "\"a\\tb\"" := by decide +kernel
example : quotedCharacter '\'' = "'\\''" := by decide +kernel

end PatternClauses
