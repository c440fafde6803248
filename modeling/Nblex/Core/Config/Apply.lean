import Nblex.Core.Config.Loader
import Nblex.Input.InputBase

/-!
# Applying a configuration

`nblex_config_apply` of `src/core/config.c`, and runs of it together with the constructors of
inputs.
-/

namespace Nblex

/-- The correlation settings of `nblex_config_apply`; the window is an `int` that becomes a
    `uint32_t`. -/
def applyCorrelation (config : NblexConfig) (world : InputWorld) : InputWorld :=
  if config.correlationEnabled then
    { world with
      correlation := world.correlation.map (fun corr =>
        nblexCorrelationAddStrategy corr (config.correlationWindowMs % 2 ^ 32).toNat) }
  else world

/-- The constructor that `nblex_config_apply` calls for an input, with its argument. -/
def NblexInputConfig.constructor (cfg : NblexInputConfig) : Option (InputType × String) :=
  if cfg.type = some "file" ∧ cfg.path.isSome then cfg.path.map (InputType.file, ·)
  else if cfg.type = some "pcap" then cfg.interface.map (InputType.pcap, ·)
  else none

/-- The format that `nblex_config_apply` gives a file input; a text that names no format leaves it
    as it is. -/
def NblexInputConfig.logFormat (cfg : NblexInputConfig) (path : String) : Option LogFormat :=
  match cfg.format with
  | some "json" => some .json
  | some "logfmt" => some .logfmt
  | some "syslog" => some .syslog
  | some "nginx" => some .nginx
  | some _ => none
  | none => some (nblexDetectLogFormat path)

section Apply

variable [Pcre2]

/-- The filter of an input of the configuration, set on the input if it was created. -/
def applyFilter (cfg : NblexInputConfig) (created : InputWorld × Option Nat) : InputWorld :=
  match created.2, cfg.filter with
  | some input, some filter => nblexInputSetFilter created.1 input filter
  | _, _ => created.1

/-- The body of the loop of `nblex_config_apply` on one input of the configuration. -/
def applyInput (world : InputWorld) (cfg : NblexInputConfig) (allocs : InputAllocs) :
    InputWorld :=
  match cfg.constructor with
  | some (.file, path) =>
      let created := nblexInputFileNew world path allocs
      let formatted :=
        match created.2, cfg.logFormat path with
        | some input, some format => nblexInputSetFormat created.1 input format
        | _, _ => created.1
      applyFilter cfg (formatted, created.2)
  | some (_, interface) => applyFilter cfg (nblexInputPcapNew world interface allocs)
  | none => world

/-- `nblex_config_apply`, with the outcomes of the allocations for each input. -/
def nblexConfigApply (config : NblexConfig) (world : InputWorld) (allocs : Nat → InputAllocs) :
    InputWorld :=
  config.inputs.zipIdx.foldl (fun world cfg => applyInput world cfg.1 (allocs cfg.2))
    (applyCorrelation config world)

/-! ## Runs -/

/-- A call that creates inputs. -/
inductive InputOp where
  | file (path : String) (allocs : InputAllocs)
  | pcap (interface : String) (allocs : InputAllocs)
  | configure (config : NblexConfig) (allocs : Nat → InputAllocs)

/-- A call that creates inputs, on a world. -/
def inputOpStep (world : InputWorld) : InputOp → InputWorld
  | .file path allocs => (nblexInputFileNew world path allocs).1
  | .pcap interface allocs => (nblexInputPcapNew world interface allocs).1
  | .configure config allocs => nblexConfigApply config world allocs

/-- A sequence of calls. -/
def inputRun (world : InputWorld) (ops : List InputOp) : InputWorld := ops.foldl inputOpStep world

end Apply

end Nblex
