import Jobflow.Schedule.Poll

/-!
Polling on an interval. The first poll starts at once; a tick that comes late
because a poll took long moves the ticks after it. The loop ends when it is
asked to, never in the middle of a poll, and a poll that fails does not end it.
-/

namespace Jobflow.Schedule

open Jobflow.Run (Host RunPlan Timed)

/-- How often to poll and how many offers to take. -/
structure Config where
  /-- milliseconds between polls -/
  interval : Nat
  limit : Nat
  deriving DecidableEq, Repr

/-- Once a minute, two offers. -/
def Config.standard : Config := ⟨60000, 2⟩

/-- How late a tick may come without moving the ticks after it. -/
def tolerance : Nat := 5

/-- The time of the tick after one that was due at `tick` and came at `time`. -/
def nextTick (interval tick time : Nat) : Nat :=
  if tick + tolerance < time then time + max interval 1 else tick + max interval 1

/-- Polls at every tick until `stop`; `tick` is the time of the next tick. -/
def pollUntil {W : Type} (host : Host W) (backlog : Backlog W) (plan : RunPlan) (config : Config)
    (stop : Nat) (tick time : Nat) (counters : Counters) (w : W) : Timed W Counters :=
  let start := max tick time
  if stop ≤ start then ⟨max stop time, counters, host.pass (max stop time) w⟩
  else
    let polled := pollOnce host backlog plan config.limit (some stop) start (host.pass start w)
    let counters := counters.add polled.answer.counters
    if stop ≤ polled.time then ⟨polled.time, counters, polled.world⟩
    else
      pollUntil host backlog plan config stop (nextTick config.interval tick start) polled.time
        counters polled.world
termination_by stop - tick
decreasing_by
  unfold nextTick
  split <;> omega

end Jobflow.Schedule
