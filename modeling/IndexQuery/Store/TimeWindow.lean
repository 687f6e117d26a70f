import IndexQuery.Config.Basic

/-! # Windows of time

    A window accepts the timestamps from its start to its end, both included. A
    side without a date is open.
-/

namespace IndexQuery

/-- A window of timestamps in milliseconds. -/
structure TimeWindow where
  start : Int64
  finish : Int64
deriving DecidableEq, Repr, Inhabited

namespace TimeWindow

/-- The window between two dates. There is none without any date. -/
def ofDates : Option Instant → Option Instant → Option TimeWindow
  | none, none => none
  | start, finish =>
    some
      { start := (start.map fun t => Int64.ofInt t.millis).getD Int64.minValue
        finish := (finish.map fun t => Int64.ofInt t.millis).getD Int64.maxValue }

/-- The window of a configuration. -/
def ofConfig (config : Config) : Option TimeWindow := ofDates config.beginDate config.endDate

/-- Whether a timestamp lies in the window. -/
def accepts (w : TimeWindow) (timestamp : Int64) : Bool :=
  w.start ≤ timestamp && timestamp ≤ w.finish

end TimeWindow

end IndexQuery
