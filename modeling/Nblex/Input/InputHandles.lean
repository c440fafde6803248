import Nblex.Misc.EventLoop

/-!
# Starting and stopping inputs

The virtual tables of `src/input/file_input.c` and `src/input/pcap_input.c` with the handles that
lie in the data of an input. The outcomes of the calls into the C library, libuv and libpcap are
given; what happens to a handle is recorded.
-/

namespace Nblex

namespace Lifecycle

/-- `nblex_input_vtable_s`: what `start` returns and does, given the outcomes of its calls, what
    `stop` does, and what `free` releases. `turn` is what a turn of the loop does. -/
structure InputVtable (ι ω : Type) where
  start : ω → ι → Bool × ι × List HandleEvent
  stop : ι → ι × List HandleEvent
  free : ι → List HandleEvent
  turn : ι → ι

/-- The part of `nblex_file_input_data` that starting and stopping read and write. -/
structure FileInputData where
  file : Bool
  watching : Bool
  useFsEvent : Bool
  fsEvent : HandleState
  pollTimer : HandleState
  deriving DecidableEq, Repr

/-- The data that `nblex_input_file_new` makes. -/
def newFileInputData : FileInputData := ⟨false, false, false, .unused, .unused⟩

/-- The outcomes of `fopen` and of the libuv calls of `file_input_start`. -/
structure FileOutcomes where
  fopen : Bool
  fsEventInit : Bool
  fsEventStart : Bool
  timerInit : Bool
  timerStart : Bool

/-- `file_input_start`: the watch on the directory may fail, the polling timer is started
    always. -/
def fileInputStart (outcomes : FileOutcomes) (data : FileInputData) :
    Bool × FileInputData × List HandleEvent :=
  if outcomes.fopen then
    let fsEvent := data.fsEvent.init outcomes.fsEventInit
    (true,
      { file := true
        watching := true
        useFsEvent := data.useFsEvent || (outcomes.fsEventInit && outcomes.fsEventStart)
        fsEvent :=
          if outcomes.fsEventInit then
            if outcomes.fsEventStart then fsEvent.start true else fsEvent.close
          else fsEvent
        pollTimer := (data.pollTimer.init outcomes.timerInit).start outcomes.timerStart },
      [.initialised data.fsEvent, .initialised data.pollTimer])
  else (false, { data with file := false }, [])

/-- `file_input_stop`: the watch or the timer is closed, not both. -/
def fileInputStop (data : FileInputData) : FileInputData × List HandleEvent :=
  let after : FileInputData :=
    if data.watching then
      if data.useFsEvent then
        { data with file := false, watching := false, fsEvent := data.fsEvent.stop.close }
      else { data with file := false, watching := false, pollTimer := data.pollTimer.stop.close }
    else { data with file := false }
  (after, [.stopped data.fsEvent after.fsEvent, .stopped data.pollTimer after.pollTimer])

/-- `file_input_vtable`; `file_input_free_data` closes nothing. -/
def fileInputVtable : InputVtable FileInputData FileOutcomes where
  start := fileInputStart
  stop := fileInputStop
  free := fun data => [.released data.fsEvent, .released data.pollTimer]
  turn := fun data =>
    { data with fsEvent := data.fsEvent.finish, pollTimer := data.pollTimer.finish }

/-- The part of `nblex_pcap_input_data` that starting and stopping read and write. -/
structure PcapInputData where
  pcapHandle : Bool
  capturing : Bool
  pollHandle : HandleState
  deriving DecidableEq, Repr

/-- The outcomes of the libpcap and libuv calls of `pcap_input_start` that end it. -/
structure PcapOutcomes where
  openLive : Bool
  setnonblock : Bool
  selectableFd : Bool
  pollInit : Bool
  pollStart : Bool

/-- `pcap_input_start`: every failure closes what was opened. -/
def pcapInputStart (outcomes : PcapOutcomes) (data : PcapInputData) :
    Bool × PcapInputData × List HandleEvent :=
  if !outcomes.openLive || !outcomes.setnonblock || !outcomes.selectableFd then
    (false, { data with pcapHandle := false }, [])
  else
    let pollHandle := data.pollHandle.init outcomes.pollInit
    if !outcomes.pollInit then
      (false, { data with pcapHandle := false, pollHandle := pollHandle },
        [.initialised data.pollHandle])
    else if !outcomes.pollStart then
      (false, { data with pcapHandle := false, pollHandle := pollHandle.close },
        [.initialised data.pollHandle])
    else
      (true, { pcapHandle := true, capturing := true, pollHandle := pollHandle.start true },
        [.initialised data.pollHandle])

/-- `pcap_input_stop`. -/
def pcapInputStop (data : PcapInputData) : PcapInputData × List HandleEvent :=
  let pollHandle := if data.capturing then data.pollHandle.stop.close else data.pollHandle
  ({ pcapHandle := false, capturing := false, pollHandle := pollHandle },
    [.stopped data.pollHandle pollHandle])

/-- An input of either type. -/
inductive AnyInput where
  | file (data : FileInputData)
  | pcap (data : PcapInputData)
  deriving DecidableEq, Repr

/-- The outcomes of the calls of either `start`. -/
structure AnyOutcomes where
  file : FileOutcomes
  pcap : PcapOutcomes

/-- The virtual tables of both types of inputs. `pcap_input_free` stops a capture first. -/
def anyInputVtable : InputVtable AnyInput AnyOutcomes where
  start := fun outcomes input =>
    match input with
    | .file data =>
        let result := fileInputStart outcomes.file data
        (result.1, .file result.2.1, result.2.2)
    | .pcap data =>
        let result := pcapInputStart outcomes.pcap data
        (result.1, .pcap result.2.1, result.2.2)
  stop := fun input =>
    match input with
    | .file data => ((fileInputStop data).1 |> .file, (fileInputStop data).2)
    | .pcap data => ((pcapInputStop data).1 |> .pcap, (pcapInputStop data).2)
  free := fun input =>
    match input with
    | .file data => fileInputVtable.free data
    | .pcap data =>
        [.released (if data.capturing then (pcapInputStop data).1 else data).pollHandle]
  turn := fun input =>
    match input with
    | .file data => .file (fileInputVtable.turn data)
    | .pcap data => .pcap { data with pollHandle := data.pollHandle.finish }

/-- The input is started. -/
def AnyInput.isStarted : AnyInput → Bool
  | .file data => data.watching
  | .pcap data => data.capturing

/-- The calls that end `start` succeed. -/
def AnyInput.startable (outcomes : AnyOutcomes) : AnyInput → Bool
  | .file _ => outcomes.file.fopen
  | .pcap _ =>
      outcomes.pcap.openLive && outcomes.pcap.setnonblock && outcomes.pcap.selectableFd &&
        outcomes.pcap.pollInit && outcomes.pcap.pollStart

end Lifecycle

end Nblex
