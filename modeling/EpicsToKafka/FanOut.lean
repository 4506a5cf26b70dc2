/-
Where the stream of a channel is sent to.  A stream may have several
converters, also for one topic name on several brokers; `addConverter` drops a
path if the stream already has one for its topic name and schema, whatever the
broker.
-/
import EpicsToKafka.ConverterSharing
import EpicsToKafka.Distinct

namespace EpicsToKafka

/-- What is published, by which broker and under which name. -/
structure Destination where
  schema : String
  brokerAddress : String
  topic : String
deriving Repr, DecidableEq

/-- What `addConverter` compares. -/
def Destination.key (destination : Destination) : String × String :=
  (destination.topic, destination.schema)

def ConversionPath.destination (path : ConversionPath) : Destination :=
  ⟨path.converter.schema, path.output.brokerAddress, path.output.name⟩

/-- The destination that is asked for, if the topic parses. -/
def ConverterSettings.destination (converter : ConverterSettings) : Option Destination :=
  (URI.ofString converter.topic).toOption.map fun uri =>
    ⟨converter.schema, uri.hostPort, uri.topic⟩

/-- Converters that are asked for under one name, by the list or by a path that
is alive, are for one schema. -/
structure NamesKeepSchemas (converters : List ConverterSettings) (s : Forwarder) : Prop where
  live : ∀ converter ∈ converters, converter.name ≠ "" → ∀ path ∈ s.livePaths,
    path.requested.name = converter.name → path.converter.schema = converter.schema
  listed : ∀ converter ∈ converters, converter.name ≠ "" → ∀ other ∈ converters,
    other.name = converter.name → other.schema = converter.schema

section Loop

variable {opt : MainOpt} {s s' : Forwarder}

/-- The converter that a request is given has its schema. -/
theorem NamesKeepSchemas.converterFor_schema {converters : List ConverterSettings}
    {converter : ConverterSettings} (hnames : NamesKeepSchemas converters s)
    (hregistry : RegistryOk s) (hmem : converter ∈ converters) :
    (s.converterFor converter).schema = converter.schema := by
  unfold Forwarder.converterFor
  cases hfind : s.findConverter converter.name with
  | none => rfl
  | some found =>
      obtain ⟨hname, hlookup, path, hpath, rfl⟩ := Forwarder.exists_path_of_findConverter hfind
      exact hnames.live converter hmem hname path hpath
        (hregistry.named _ _ hlookup path hpath rfl)

variable {channel : String} {converter : ConverterSettings}
  {rest : List ConverterSettings} {owner : MappedStream}

theorem NamesKeepSchemas.afterPush (hnames : NamesKeepSchemas (converter :: rest) s)
    (hregistry : RegistryOk s) (stream : Nat) (uri : URI) :
    NamesKeepSchemas rest (s.afterPush converter stream uri) := by
  have hschema := hnames.converterFor_schema hregistry List.mem_cons_self
  constructor
  · intro other hother hname path hpath hsame
    rcases Forwarder.mem_livePaths_addConverter hpath with hold | rfl
    · have hlive : path ∈ s.livePaths := by
        rwa [← Forwarder.afterObtain_livePaths converter]
      exact hnames.live other (.tail _ hother) hname path hlive hsame
    · exact hschema.trans
        (hnames.listed other (.tail _ hother) hname converter List.mem_cons_self hsame)
  · intro other hother hname another hanother
    exact hnames.listed other (.tail _ hother) hname another (.tail _ hanother)

end Loop

end EpicsToKafka
