import CellReplay.Lib.ShellWords
import CellReplay.Util.Ezio

set_option autoImplicit false

namespace CellReplay

open ShellWords

/-- What `shell_quote` appends for a character. -/
def quoteChar (ch : Char) : Text := if ch ≠ '\'' then [ch] else "'\\''".toList

def shellQuote (arg : Text) : Text :=
  arg.foldl (fun ret ch => ret ++ quoteChar ch) "'".toList ++ "'".toList

/-- The `command_line` that `main` builds, which it calls one for the log file. It is passed on to
both links, and none of them logs it. -/
def commandLine : List Text → Text
  | [] => []
  | name :: args =>
      args.foldl (fun line arg => line ++ (" ".toList ++ shellQuote arg)) (shellQuote name)

theorem shellQuote_eq (arg : Text) :
    shellQuote arg = '\'' :: (arg.flatMap quoteChar ++ ['\'']) := by
  simp [shellQuote, List.foldl_append_eq_append, List.flatMap_def]

theorem commandLine_cons (name : Text) (args : List Text) :
    commandLine (name :: args) =
      shellQuote name ++ args.flatMap (fun arg => ' ' :: shellQuote arg) := by
  simp [commandLine, List.foldl_append_eq_append, List.flatMap_def]

/-- Inside single quotes the quoted characters are read as they were. -/
theorem split_quoteChar (word arg rest : Text) :
    split .single (some word) (arg.flatMap quoteChar ++ rest) =
      split .single (some (word ++ arg)) rest := by
  induction arg generalizing word with
  | nil => simp
  | cons ch arg ih =>
      rw [List.flatMap_cons, List.append_assoc]
      by_cases quote : ch = '\''
      · have shape : quoteChar ch = ['\'', '\\', '\'', '\''] := by simp [quoteChar, quote]
        rw [shape]
        simp [split_escaped, ih, quote]
      · have shape : quoteChar ch = [ch] := by simp [quoteChar, quote]
        rw [shape, List.singleton_append, split_single word quote, ih]
        simp

/-- A quoted argument is one word. -/
theorem split_shellQuote (arg rest : Text) :
    split .bare none (shellQuote arg ++ rest) = split .bare (some arg) rest := by
  rw [shellQuote_eq]
  simp [split_quoteChar]

theorem split_commandLine (name : Text) (args : List Text) :
    split .bare none (shellQuote name ++ args.flatMap (fun arg => ' ' :: shellQuote arg)) =
      some (name :: args) := by
  induction args generalizing name with
  | nil =>
      rw [List.flatMap_nil, split_shellQuote]
      simp
  | cons arg args ih =>
      rw [split_shellQuote, List.flatMap_cons, List.cons_append, split_blank, ih]
      simp

/-- A shell that reads this text finds the arguments of the emulator in it, whatever their
characters, and nothing that means more to it. -/
theorem words_commandLine (argv : List Text) : words (commandLine argv) = some argv := by
  cases argv with
  | nil => simp [commandLine, words]
  | cons name args =>
      rw [commandLine_cons]
      exact split_commandLine name args

example : commandLine ["mm".toList, "it's".toList] = "'mm' 'it'\\''s'".toList := by decide

end CellReplay
