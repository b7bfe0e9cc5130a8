/-
  LogicBoard.Diagnostic.Log
  ────────────────────────────────
  **COLLECTING DIAGNOSTICS.**

  A log holds the diagnostics that were reported and not yet taken out.
  Errors are counted as they are reported: taking them out does not lower
  the count.
-/
import LogicBoard.Diagnostic.Basic

namespace LogicBoard

/-- Reported diagnostics. -/
structure Log where
  held : List Diagnostic
  errors : Nat
deriving DecidableEq, Inhabited

namespace Log

/-- The log into which nothing was reported. -/
def empty : Log := ⟨[], 0⟩

/-- Reports a diagnostic. -/
def report (log : Log) (d : Diagnostic) : Log :=
  ⟨log.held ++ [d], if d.severity = .error then log.errors + 1 else log.errors⟩

/-- Reports diagnostics in order. -/
def reportAll (log : Log) (ds : List Diagnostic) : Log :=
  ds.foldl report log

/-- How many warnings are held. -/
def warnings (log : Log) : Nat :=
  log.held.countP fun d => d.severity = .warning

/-- Was any error ever reported? -/
def hasErrors (log : Log) : Bool := 0 < log.errors

/-- Takes everything out. -/
def take (log : Log) : List Diagnostic × Log :=
  (log.held, { log with held := [] })

end Log

end LogicBoard
