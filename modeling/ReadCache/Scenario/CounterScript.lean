import ReadCache.Counters

namespace ReadCache.Scenario

inductive CounterStep where
  | events (event : Event) (times : Nat)
  | reset
  deriving Repr

def nanosOf (seconds nanos : Nat) : Nat := seconds * 1000000000 + nanos

def CounterStep.run : CounterStep → Counters → Counters
  | .events event times, c => Nat.repeat (·.record event) times c
  | .reset, _ => {}

def CounterStep.runAll : List CounterStep → Counters → List Counters
  | [], _ => []
  | step :: rest, c => step.run c :: runAll rest (step.run c)

/-- Hits, misses, loads that succeeded and failed, and removals by cause. -/
def countList (c : Counters) : List Nat :=
  [c.hits, c.misses, c.loadSuccess, c.loadFailure, c.evictionsSize, c.evictionsExplicit,
    c.evictionsReplaced]

end ReadCache.Scenario
