import Summand.Decimal.Layout

/-!
# Evaluation statistics

Evaluations are counted by whether they computed a gradient. Elapsed times in seconds stand beside
the counts; they are added by whoever holds a clock.
-/

namespace Summand

structure Statistics where
  withoutGradient : Int := 0
  withGradient : Int := 0
  evaluateTime : Float := 0.0
  evaluateWithHessianTime : Float := 0.0
  writeTime : Float := 0.0
  copyTime : Float := 0.0
  deriving Inhabited

namespace Statistics

/-- The lines that a report begins with, from the texts of the two counts. -/
def countLines (withoutGradient withGradient : String) : List String :=
  ["Function evaluations without gradient : " ++ withoutGradient,
    "Function evaluations with gradient    : " ++ withGradient]

/-- The times that a report ends with, one line each. -/
def timeLines (s : Statistics) : List String :=
  ["Function evaluate time            : " ++ Decimal.briefText s.evaluateTime,
    "Function evaluate time (with g/H) : " ++ Decimal.briefText s.evaluateWithHessianTime,
    "Function write g/H time           : " ++ Decimal.briefText s.writeTime,
    "Function copy data time           : " ++ Decimal.briefText s.copyTime]

/-- All lines of a report. -/
def lines (s : Statistics) : List String :=
  countLines (toString s.withoutGradient) (toString s.withGradient) ++ s.timeLines

def report (s : Statistics) : String := "\n".intercalate s.lines

end Statistics

end Summand
