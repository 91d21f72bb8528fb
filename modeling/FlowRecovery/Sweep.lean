/-
Sweeps: lists that are changed from left to right, with a state.
-/
import FlowRecovery.Word

namespace FlowRecovery

/-- How a sweep over a list ended: the state, the list, and the error that
stopped it, if any. -/
structure Swept (ε σ α : Type) where
  state : σ
  value : α
  stop : Option (Stop ε) := none

/-- Change the items of a list from left to right.  The first that fails stops the
sweep; what was changed before stays changed, and the items behind stay as they are. -/
def sweep {ε σ α : Type} (f : σ → α → Swept ε σ α) (s : σ) : List α → Swept ε σ (List α)
  | [] => { state := s, value := [] }
  | a :: rest =>
    let first := f s a
    match first.stop with
    | some e => { state := first.state, value := first.value :: rest, stop := some e }
    | none =>
      let others := sweep f first.state rest
      { others with value := first.value :: others.value }

end FlowRecovery
