/-! # Numbers of tasks

A task is numbered when it starts, so its number depends on everything that ran before it. Whoever
is told that a task crashed or was cancelled reads a number sign in the place of the number.
-/

namespace RelayUpkeep.Text

/-- What a text may say after the number of a task. -/
def taskFates : List (List Char) := [" panicked".toList, " was cancelled".toList]

/-- How many digits number the task whose fate the text opens with. -/
def taskNumberWidth? : List Char → Option Nat
  | 't' :: 'a' :: 's' :: 'k' :: ' ' :: cs =>
    let digits := cs.takeWhile Char.isDigit
    let rest := cs.dropWhile Char.isDigit
    if !digits.isEmpty && taskFates.any (·.isPrefixOf rest) then some digits.length else none
  | _ => none

/-- The text after its first `skipped` characters, every number of a task replaced. -/
def hideTaskNumbersFrom : Nat → List Char → List Char
  | _, [] => []
  | skipped + 1, _ :: cs => hideTaskNumbersFrom skipped cs
  | 0, c :: cs =>
    match taskNumberWidth? (c :: cs) with
    | some width => "task #".toList ++ hideTaskNumbersFrom (4 + width) cs
    | none => c :: hideTaskNumbersFrom 0 cs

def hideTaskNumbers (s : String) : String :=
  String.ofList (hideTaskNumbersFrom 0 s.toList)

example : hideTaskNumbers "task 1 task 22 was cancelled!" = "task 1 task # was cancelled!" := by
  decide +kernel

end RelayUpkeep.Text
