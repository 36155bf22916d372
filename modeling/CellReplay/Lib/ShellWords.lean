import Mathlib.Data.List.Basic

set_option autoImplicit false

/- The words of a command, as a shell reads them: blanks part them, and quoting takes the special
meaning from characters. A text in which an unquoted character may mean more than itself has
none. -/
namespace ShellWords

/-- The quotes a shell is inside of. -/
inductive Quotes where
  | bare
  | single
  | double
  deriving DecidableEq

def isBlank (c : Char) : Bool := c == ' ' || c == '\t'

/-- The characters that may mean more than themselves outside of quotes. -/
def isSpecial (c : Char) : Bool := "|&;<>()$*?[#~=%!\x7b\n".toList.contains c || c.toNat == 96

/-- Those that do inside double quotes. -/
def isExpansion (c : Char) : Bool := c == '$' || c.toNat == 96

/-- Read on, inside some quotes, with the word begun if there is one. -/
def split : Quotes → Option (List Char) → List Char → Option (List (List Char))
  | .bare, word, [] => some word.toList
  | .single, _, [] => none
  | .double, _, [] => none
  | .bare, word, '\\' :: c :: rest =>
      if c == '\n' then split .bare word rest
      else split .bare (some (word.getD [] ++ [c])) rest
  | .double, word, '\\' :: c :: rest =>
      if c == '\n' then split .double word rest
      else if isExpansion c || c == '"' || c == '\\' then
        split .double (some (word.getD [] ++ [c])) rest
      else split .double (some (word.getD [] ++ ['\\', c])) rest
  | .bare, word, c :: rest =>
      if isBlank c then (split .bare none rest).map (word.toList ++ ·)
      else if c == '\'' then split .single (some (word.getD [])) rest
      else if c == '"' then split .double (some (word.getD [])) rest
      else if isSpecial c || c == '\\' then none
      else split .bare (some (word.getD [] ++ [c])) rest
  | .single, word, c :: rest =>
      if c == '\'' then split .bare word rest
      else split .single (some (word.getD [] ++ [c])) rest
  | .double, word, c :: rest =>
      if c == '"' then split .bare word rest
      else if isExpansion c || c == '\\' then none
      else split .double (some (word.getD [] ++ [c])) rest

/-- The words of a command. -/
def words (command : List Char) : Option (List (List Char)) := split .bare none command

@[simp] theorem split_nil (word : Option (List Char)) : split .bare word [] = some word.toList := by
  simp [split]

@[simp] theorem split_blank (word : Option (List Char)) (rest : List Char) :
    split .bare word (' ' :: rest) = (split .bare none rest).map (word.toList ++ ·) := by
  simp [split, isBlank]

@[simp] theorem split_open (word : Option (List Char)) (rest : List Char) :
    split .bare word ('\'' :: rest) = split .single (some (word.getD [])) rest := by
  simp [split, isBlank]

theorem split_escaped (word : Option (List Char)) {c : Char} (kept : c ≠ '\n')
    (rest : List Char) :
    split .bare word ('\\' :: c :: rest) = split .bare (some (word.getD [] ++ [c])) rest := by
  simp [split, kept]

@[simp] theorem split_close (word : Option (List Char)) (rest : List Char) :
    split .single word ('\'' :: rest) = split .bare word rest := by
  simp [split]

/-- Inside single quotes every other character stands for itself. -/
theorem split_single (word : List Char) {c : Char} (plain : c ≠ '\'') (rest : List Char) :
    split .single (some word) (c :: rest) = split .single (some (word ++ [c])) rest := by
  simp [split, plain]

end ShellWords
