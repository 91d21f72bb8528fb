/-
The texts that a run leaves behind.
-/
import FlowRecovery.Binary64
import FlowRecovery.Recovery

namespace FlowRecovery.Report

/-- One address per line. -/
def addresses (l : List Addr) : String := String.join (l.map fun a => Text.addr a ++ "\n")

/-- Addresses in one line. -/
def addressList (l : List Addr) : String :=
  if l.isEmpty then "(none)" else ", ".intercalate (l.map Text.addr)

/-- The counters of a run, one per line. -/
def stats (timestamp : String) (elapsed : Binary64) (s : RunStats) : String :=
  let counters := s.counters.map fun c => c.1 ++ ": " ++ Text.decimal c.2
  let overlapping := ", ".intercalate (s.overlappingEntries.map Text.addr)
  let lines := ["timestamp: " ++ timestamp, "elapsed_secs: " ++ elapsed.fixed 3] ++ counters
    ++ ["overlapping_entries: [" ++ overlapping ++ "]"]
  String.join (lines.map (· ++ "\n"))

end FlowRecovery.Report
