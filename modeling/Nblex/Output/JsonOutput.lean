import Nblex.Input.InputBase
import Nblex.Misc.Word64
import Nblex.Parsers.JsonText

/-!
# JSON output

`src/output/json_output.c`: the object an event is written as. The input of an event in the model
keeps its filter only, so the type of the input is given beside the event. Allocation is assumed to
succeed.
-/

namespace Nblex

/-- `event_type_to_string`. -/
def eventTypeToString : EventType → String
  | .log => "log"
  | .network => "network"
  | .correlation => "correlation"
  | .error => "error"

/-- The name of `event->input->type`. -/
def inputTypeString : InputType → String
  | .file => "file"
  | .syslog => "syslog"
  | .pcap => "pcap"
  | .socket => "socket"

/-- The root of `nblex_event_to_json_string`; `source` is the type of `event->input`. -/
def eventObject (source : Option InputType) (event : Event) : Json :=
  let root := (Json.object []).set "type" (some (.string (eventTypeToString event.type)))
  let root := root.set "timestamp_ns" (some (.integer (toInt64 event.timestampNs)))
  let root := root.set "source" (source.map fun type =>
    (Json.object []).set "type" (some (.string (inputTypeString type))))
  root.set "data" event.data

theorem eventObject_isObject (source : Option InputType) (event : Event) :
    (eventObject source event).isObject = true := by
  rw [eventObject, Json.isObject_set, Json.isObject_set, Json.isObject_set, Json.isObject_set]
  rfl

/-- `nblex_event_to_json_string`. -/
def nblexEventToJsonString [JanssonTexts] (source : Option InputType) (event : Event) :
    Option (List Char) :=
  JanssonTexts.jsonDumps (eventObject source event)

end Nblex
