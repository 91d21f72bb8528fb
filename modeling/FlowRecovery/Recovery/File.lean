/-
Recovering the program in a file.
-/
import FlowRecovery.Host
import FlowRecovery.Image.Parse
import FlowRecovery.Recovery

namespace FlowRecovery

/-- The reasons behind an error, from the outermost inwards. -/
def ImageError.causes : ImageError → List String
  | .io path reason => [(ImageError.io path reason).message, reason]
  | e => [e.message]

/-- The reasons behind an error, from the outermost inwards. -/
def ExploreError.causes : ExploreError → List String
  | .lifter fault => [(ExploreError.lifter fault).message, fault.message]
  | e => [e.message]

/-- The reasons behind an error, from the outermost inwards. -/
def RecoveryError.causes : RecoveryError → List String
  | .noEntryPoints => [RecoveryError.noEntryPoints.message]
  | .image error => error.causes
  | .explore error => (RecoveryError.explore error).message :: error.causes
  | .assemble error => [(RecoveryError.assemble error).message, error.message]
  | .resolve error => [(RecoveryError.resolve error).message, error.message]

variable {m : Type → Type} [Monad m] [Host m]

/-- The image in a file. -/
def openImage (path : String) (traced : Bool) : m (Checked ImageError Image) := do
  match ← Host.read path with
  | .ok contents => return Image.parse contents traced
  | .error e => return Checked.refuse (.io path e.message)

/-- Recover the program in a file, decoded for the architecture that the
configuration asks for. -/
def recoverFile (config : Config) (path : String) (request : Request)
    (traced : Bool := false) : m (Checked RecoveryError Recovery) := do
  let decode ← Host.decoder path
  let image ← openImage path traced
  return do
    let image ← image.within .image
    let image := (config.arch.map image.withArch).getD image
    let limit := X86.clampLimit config.maxBlockInstructions.toNat
    (recover config { lift := X86.lift decode image limit } image request).result

end FlowRecovery
