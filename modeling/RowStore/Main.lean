/-
# The program

Prints the report of a store with the settings that hold when none are given.
-/
import RowStore.Report

open RowStore in
def main : IO UInt32 := do
  match Report.run {} with
  | .ok report =>
    IO.print report
    return 0
  | .error e =>
    IO.eprintln e.message
    return 1
