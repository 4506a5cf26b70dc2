/-
`ConfigParser`: the settings of streams and converters in a JSON document.
Every command is parsed by a parser of its own, whose `ConverterIndex` starts
at zero.
-/
import EpicsToKafka.Uri

namespace EpicsToKafka

/-- A JSON value.  No function here reads a number, so a number is its text;
an object is a `std::map`, whose keys are unique. -/
inductive Json where
  | null
  | boolean (value : Bool)
  | number (text : String)
  | string (value : String)
  | array (elements : List Json)
  | object (fields : List (String × Json))

/-- `find<nlohmann::json>`. -/
def Json.find (key : String) : Json → Option Json
  | .object fields => fields.lookup key
  | _ => none

/-- `find<std::string>`, which finds nothing if the value is no string. -/
def Json.findString (key : String) (json : Json) : Option String :=
  match json.find key with
  | some (.string value) => some value
  | _ => none

structure ConverterSettings where
  schema : String
  topic : String
  name : String
deriving Repr, DecidableEq

structure StreamSettings where
  name : String
  epicsProtocol : String
  converters : List ConverterSettings
deriving Repr, DecidableEq

inductive CommandType where
  | add | stopChannel | stopAll | exit | unknown
deriving Repr, DecidableEq

namespace ConfigParser

/-- A method of the parser; the state is `ConverterIndex`. -/
abbrev Parser (α : Type) := EStateM Exception UInt32 α

/-- A field that must be there. -/
def require (field : Option String) (missing : String) : Parser String :=
  match field with
  | some value => pure value
  | none => throw (.mappingAddException missing)

/-- Channel and protocol of a stream. -/
def extractMappingInfo (mapping : Json) : Parser (String × String) :=
  match mapping with
  | .object fields => do
      let channel ← require (Json.findString "channel" (.object fields)) "Cannot find channel"
      let protocol :=
        match Json.findString "channel_provider_type" (.object fields) with
        | some protocol => if protocol = "ca" ∨ protocol = "pva" then protocol else "pva"
        | none => "pva"
      return (channel, protocol)
  | _ => throw (.mappingAddException "Given Mapping is not a JSON object")

def extractConverterSettings (mapping : Json) : Parser ConverterSettings := do
  let schema ← require (mapping.findString "schema") "Cannot find schema"
  let topic ← require (mapping.findString "topic") "Cannot find topic"
  match mapping.findString "name" with
  | some name => return ⟨schema, topic, name⟩
  | none =>
      let converterIndex ← get
      set (converterIndex + 1)
      return ⟨schema, topic, "converter_" ++ toString converterIndex⟩

/-- The body of the loop over the streams. -/
def extractStream (streamJson : Json) : Parser StreamSettings := do
  let (name, epicsProtocol) ← extractMappingInfo streamJson
  let converters ←
    match streamJson.find "converter" with
    | some (.object fields) => List.mapM extractConverterSettings [.object fields]
    | some (.array converters) => List.mapM extractConverterSettings converters
    | _ => pure []
  return ⟨name, epicsProtocol, converters⟩

/-- The streams of the document that a new parser was given. -/
def extractStreamInfo (json : Json) : Except Exception (List StreamSettings) :=
  match json.find "streams" with
  | some (.array streams) =>
      match (List.mapM extractStream streams).run 0 with
      | .ok settings _ => .ok settings
      | .error e _ => .error e
  | _ => .ok []

def findCommand (document : Json) : CommandType :=
  match document.findString "cmd" with
  | some "add" => .add
  | some "stop_channel" => .stopChannel
  | some "stop_all" => .stopAll
  | some "exit" => .exit
  | _ => .unknown

end ConfigParser

end EpicsToKafka
