/-
What `ConfigParser::extractStreamInfo` accepts and what it returns, for every
JSON value.  The names it makes up are numbered by one counter for the whole
document.
-/
import EpicsToKafka.Forwarder
import EpicsToKafka.Traversal
import Mathlib.Data.List.Forall2

namespace EpicsToKafka.ConfigParser

open Traversal (Fails values)

/-- The value is an object with a string under the key. -/
def HasString (key : String) (json : Json) (text : String) : Prop :=
  ∃ fields, json = .object fields ∧ fields.lookup key = some (.string text)

/-- The streams of a document; none unless there is an array of them. -/
def streamsOf (json : Json) : List Json :=
  match json.find "streams" with
  | some (.array streams) => streams
  | _ => []

/-- The converters of a stream, of which there may be one without an array. -/
def convertersOf (stream : Json) : List Json :=
  match stream.find "converter" with
  | some (.object fields) => [.object fields]
  | some (.array converters) => converters
  | _ => []

/-- A converter with a schema and a topic. -/
def ConverterOk (converter : Json) : Prop :=
  ∃ schema topic, HasString "schema" converter schema ∧ HasString "topic" converter topic

/-- A stream with a channel, all of whose converters are complete. -/
def StreamOk (stream : Json) : Prop :=
  (∃ channel, HasString "channel" stream channel) ∧
    ∀ converter ∈ convertersOf stream, ConverterOk converter

/-- The parser throws for these documents: an object with an array of streams,
one of which is not an object, has no channel, or has an incomplete
converter. -/
def Malformed (json : Json) : Prop :=
  ∃ fields streams, json = .object fields ∧ fields.lookup "streams" = some (.array streams) ∧
    ∃ stream ∈ streams,
      (∀ content, stream ≠ .object content) ∨
      (∀ channel, ¬ HasString "channel" stream channel) ∨
      (∃ content converter, stream = .object content ∧
        content.lookup "converter" = some (.object converter) ∧
        ¬ ConverterOk (.object converter)) ∨
      ∃ content converters, stream = .object content ∧
        content.lookup "converter" = some (.array converters) ∧
        ∃ converter ∈ converters, ¬ ConverterOk converter

theorem findString_eq_some {key : String} {json : Json} {text : String} :
    json.findString key = some text ↔ HasString key json text := by
  unfold Json.findString HasString
  constructor
  · intro hfound
    split at hfound
    · rename_i value hfind
      cases hfound
      cases json with
      | object fields => exact ⟨fields, rfl, hfind⟩
      | null | boolean _ | number _ | string _ | array _ => cases hfind
    · cases hfound
  · rintro ⟨fields, rfl, hlookup⟩
    simp only [Json.find, hlookup]

/-- The name of a converter when the counter stands at `index`. -/
def converterName (index : UInt32) (converter : Json) : String :=
  (converter.findString "name").getD ("converter_" ++ toString index)

/-- Only a converter without a name moves the counter. -/
def nextIndex (index : UInt32) (converter : Json) : UInt32 :=
  if (converter.findString "name").isNone then index + 1 else index

def converterSettings (index : UInt32) (converter : Json) : ConverterSettings where
  schema := (converter.findString "schema").getD ""
  topic := (converter.findString "topic").getD ""
  name := converterName index converter

def protocolOf (stream : Json) : String :=
  if stream.findString "channel_provider_type" = some "ca" then "ca" else "pva"

def streamSettings (index : UInt32) (stream : Json) : StreamSettings where
  name := (stream.findString "channel").getD ""
  epicsProtocol := protocolOf stream
  converters := values converterSettings nextIndex index (convertersOf stream)

theorem extractConverterSettings_run {converter : Json} (hok : ConverterOk converter)
    (index : UInt32) :
    (extractConverterSettings converter).run index =
      .ok (converterSettings index converter) (nextIndex index converter) := by
  obtain ⟨schema, topic, hschema, htopic⟩ := hok
  rw [← findString_eq_some] at hschema htopic
  simp only [extractConverterSettings, hschema, htopic, require, EStateM.run_bind,
    EStateM.run_pure, converterSettings, converterName, nextIndex, Option.getD_some]
  cases converter.findString "name" with
  | some name => rfl
  | none => rfl

theorem extractConverterSettings_fails {converter : Json} (hbad : ¬ ConverterOk converter) :
    Fails (extractConverterSettings converter) := by
  intro index
  cases hschema : converter.findString "schema" with
  | none =>
      simp only [extractConverterSettings, hschema, require, EStateM.run_bind]
      exact ⟨_, _, rfl⟩
  | some schema =>
      cases htopic : converter.findString "topic" with
      | none =>
          simp only [extractConverterSettings, hschema, htopic, require, EStateM.run_bind,
            EStateM.run_pure]
          exact ⟨_, _, rfl⟩
      | some topic =>
          rw [findString_eq_some] at hschema htopic
          exact absurd ⟨schema, topic, hschema, htopic⟩ hbad

/-- Whether a converter is accepted does not depend on the counter. -/
theorem extractConverterSettings_decided (converter : Json) :
    (∀ index, (extractConverterSettings converter).run index =
      .ok (converterSettings index converter) (nextIndex index converter)) ∨
      Fails (extractConverterSettings converter) := by
  by_cases hok : ConverterOk converter
  · exact Or.inl (extractConverterSettings_run hok)
  · exact Or.inr (extractConverterSettings_fails hok)

theorem extractMappingInfo_run {stream : Json} {channel : String}
    (hchannel : HasString "channel" stream channel) (index : UInt32) :
    (extractMappingInfo stream).run index = .ok (channel, protocolOf stream) index := by
  have hfind := findString_eq_some.mpr hchannel
  obtain ⟨fields, rfl, -⟩ := hchannel
  simp only [extractMappingInfo, hfind, require, EStateM.run_bind, EStateM.run_pure]
  congr 2
  unfold protocolOf
  cases Json.findString "channel_provider_type" (.object fields) with
  | none => rfl
  | some protocol =>
      by_cases hca : protocol = "ca"
      · simp [hca]
      · by_cases hpva : protocol = "pva" <;> simp [hca, hpva]

theorem extractMappingInfo_fails {stream : Json}
    (hbad : ∀ channel, ¬ HasString "channel" stream channel) :
    Fails (extractMappingInfo stream) := by
  intro index
  cases stream with
  | object fields =>
      cases hchannel : Json.findString "channel" (.object fields) with
      | none =>
          simp only [extractMappingInfo, hchannel, require, EStateM.run_bind]
          exact ⟨_, _, rfl⟩
      | some channel => exact absurd (findString_eq_some.mp hchannel) (hbad channel)
  | null | boolean _ | number _ | string _ | array _ => exact ⟨_, _, rfl⟩

/-- The part of `extractStream` that deals with the converters. -/
theorem extractStream_eq (stream : Json) :
    extractStream stream = (extractMappingInfo stream >>= fun info =>
      (convertersOf stream).mapM extractConverterSettings >>= fun converters =>
        pure ⟨info.1, info.2, converters⟩) := by
  unfold extractStream convertersOf
  cases stream.find "converter" with
  | none => rfl
  | some value => cases value <;> rfl

theorem extractStream_run {stream : Json} (hok : StreamOk stream) (index : UInt32) :
    (extractStream stream).run index =
      .ok (streamSettings index stream) ((convertersOf stream).foldl nextIndex index) := by
  obtain ⟨⟨channel, hchannel⟩, hconverters⟩ := hok
  have hrun := Traversal.run_mapM_of_ok
    (fun converter hmem => extractConverterSettings_run (hconverters converter hmem)) index
  rw [extractStream_eq, EStateM.run_bind, extractMappingInfo_run hchannel]
  simp only [EStateM.run_bind, hrun, EStateM.run_pure, streamSettings,
    findString_eq_some.mpr hchannel, Option.getD_some]

theorem extractStream_fails {stream : Json} (hbad : ¬ StreamOk stream) :
    Fails (extractStream stream) := by
  rw [extractStream_eq]
  by_cases hchannel : ∃ channel, HasString "channel" stream channel
  · have hconverters : ∃ converter ∈ convertersOf stream,
        Fails (extractConverterSettings converter) := by
      by_contra hall
      refine hbad ⟨hchannel, fun converter hmem => ?_⟩
      by_contra hconverter
      exact hall ⟨converter, hmem, extractConverterSettings_fails hconverter⟩
    obtain ⟨channel, hchannel⟩ := hchannel
    refine Traversal.fails_bind_right (extractMappingInfo_run hchannel) fun _ => ?_
    exact Traversal.fails_bind_left (Traversal.fails_mapM
      (fun converter _ => extractConverterSettings_decided converter) hconverters)
  · exact Traversal.fails_bind_left
      (extractMappingInfo_fails fun channel hhas => hchannel ⟨channel, hhas⟩)

theorem extractStream_decided (stream : Json) :
    (∀ index, (extractStream stream).run index =
      .ok (streamSettings index stream) ((convertersOf stream).foldl nextIndex index)) ∨
      Fails (extractStream stream) := by
  by_cases hok : StreamOk stream
  · exact Or.inl (extractStream_run hok)
  · exact Or.inr (extractStream_fails hok)

/-- The four ways in which a stream can be wrong. -/
theorem not_streamOk_iff {stream : Json} :
    ¬ StreamOk stream ↔
      (∀ content, stream ≠ .object content) ∨
      (∀ channel, ¬ HasString "channel" stream channel) ∨
      (∃ content converter, stream = .object content ∧
        content.lookup "converter" = some (.object converter) ∧
        ¬ ConverterOk (.object converter)) ∨
      ∃ content converters, stream = .object content ∧
        content.lookup "converter" = some (.array converters) ∧
        ∃ converter ∈ converters, ¬ ConverterOk converter := by
  constructor
  · intro hbad
    by_cases hchannel : ∃ channel, HasString "channel" stream channel
    · obtain ⟨channel, hhas⟩ := hchannel
      obtain ⟨content, rfl, -⟩ := id hhas
      obtain ⟨converter, hmem, hconverter⟩ :
          ∃ converter ∈ convertersOf (.object content), ¬ ConverterOk converter := by
        by_contra hall
        refine hbad ⟨⟨channel, hhas⟩, fun converter hmem => ?_⟩
        by_contra hconverter
        exact hall ⟨converter, hmem, hconverter⟩
      unfold convertersOf at hmem
      split at hmem
      · rename_i fields hlookup
        rw [List.mem_singleton] at hmem
        subst hmem
        exact Or.inr (Or.inr (Or.inl ⟨content, fields, rfl, hlookup, hconverter⟩))
      · rename_i converters hlookup
        exact Or.inr (Or.inr (Or.inr
          ⟨content, converters, rfl, hlookup, converter, hmem, hconverter⟩))
      · cases hmem
    · exact Or.inr (Or.inl fun channel hhas => hchannel ⟨channel, hhas⟩)
  · rintro hwrong ⟨⟨channel, hhas⟩, hconverters⟩
    rcases hwrong with hobject | hchannel | ⟨content, fields, rfl, hlookup, hconverter⟩ |
      ⟨content, converters, rfl, hlookup, converter, hmem, hconverter⟩
    · obtain ⟨content, rfl, -⟩ := hhas
      exact hobject content rfl
    · exact hchannel channel hhas
    · refine hconverter (hconverters _ ?_)
      simp only [convertersOf, Json.find, hlookup, List.mem_singleton]
    · refine hconverter (hconverters _ ?_)
      simp only [convertersOf, Json.find, hlookup]
      exact hmem

theorem malformed_iff {json : Json} :
    Malformed json ↔ ∃ stream ∈ streamsOf json, ¬ StreamOk stream := by
  simp only [not_streamOk_iff]
  constructor
  · rintro ⟨fields, streams, rfl, hlookup, stream, hmem, hwrong⟩
    refine ⟨stream, ?_, hwrong⟩
    simp only [streamsOf, Json.find, hlookup]
    exact hmem
  · rintro ⟨stream, hmem, hwrong⟩
    unfold streamsOf at hmem
    split at hmem
    · rename_i streams hfind
      cases json with
      | object fields => exact ⟨fields, streams, rfl, hfind, stream, hmem, hwrong⟩
      | null | boolean _ | number _ | string _ | array _ => cases hfind
    · cases hmem

/-- A result without the counter. -/
def outcome {α : Type} : EStateM.Result Exception UInt32 α → Except Exception α
  | .ok value _ => .ok value
  | .error e _ => .error e

theorem extractStreamInfo_eq (json : Json) :
    extractStreamInfo json = outcome (((streamsOf json).mapM extractStream).run 0) := by
  unfold extractStreamInfo streamsOf
  cases json.find "streams" with
  | none => rfl
  | some value =>
      cases value with
      | array streams =>
          dsimp only
          cases (streams.mapM extractStream).run 0 <;> rfl
      | null | boolean _ | number _ | string _ | object _ => rfl

/-- The counter after some of the converters of a document. -/
theorem foldl_nextIndex (converters : List Json) (index : UInt32) :
    converters.foldl nextIndex index =
      index + UInt32.ofNat (converters.countP fun converter =>
        (converter.findString "name").isNone) := by
  induction converters generalizing index with
  | nil => simp
  | cons converter rest ih =>
      rw [List.foldl_cons, ih, List.countP_cons, nextIndex]
      split
      · rw [UInt32.ofNat_add, UInt32.add_assoc, UInt32.add_comm (1 : UInt32)]
        rfl
      · rfl

/-- The settings of a stream belong to what the document says of it. -/
structure DescribesStream (stream : Json) (settings : StreamSettings) : Prop where
  channel : HasString "channel" stream settings.name
  ca : HasString "channel_provider_type" stream "ca" → settings.epicsProtocol = "ca"
  pva : ¬ HasString "channel_provider_type" stream "ca" → settings.epicsProtocol = "pva"
  converters : List.Forall₂ (fun converter made =>
    HasString "schema" converter made.schema ∧ HasString "topic" converter made.topic)
      (convertersOf stream) settings.converters

/-- The converter at position `k` of all converters of the document has the
name that is given, or the one with the number of nameless converters before
it. -/
def NamesConverters (converters : List Json) (made : List ConverterSettings) : Prop :=
  made.length = converters.length ∧
    ∀ k converter settings, converters[k]? = some converter → made[k]? = some settings →
      (∀ name, HasString "name" converter name → settings.name = name) ∧
      ((∀ name, ¬ HasString "name" converter name) →
        settings.name = "converter_" ++ toString ((converters.take k).countP fun earlier =>
          (earlier.findString "name").isNone))

/-- What `extractStreamInfo` returns for a document that is not malformed. -/
structure Extracted (json : Json) (settings : List StreamSettings) : Prop where
  streams : List.Forall₂ DescribesStream (streamsOf json) settings
  names : ((streamsOf json).flatMap convertersOf).countP
      (fun converter => (converter.findString "name").isNone) < 2 ^ 32 →
    NamesConverters ((streamsOf json).flatMap convertersOf)
      (settings.flatMap StreamSettings.converters)

theorem describesStream_of_ok {stream : Json} (hok : StreamOk stream) (index : UInt32) :
    DescribesStream stream (streamSettings index stream) := by
  obtain ⟨⟨channel, hchannel⟩, hconverters⟩ := hok
  refine ⟨?_, ?_, ?_, Traversal.forall₂_values ?_ index⟩
  · simpa only [streamSettings, findString_eq_some.mpr hchannel, Option.getD_some] using hchannel
  · intro hca
    exact if_pos (findString_eq_some.mpr hca)
  · intro hother
    exact if_neg fun hca => hother (findString_eq_some.mp hca)
  · intro converter hmem index
    obtain ⟨schema, topic, hschema, htopic⟩ := hconverters converter hmem
    simp only [converterSettings, findString_eq_some.mpr hschema, findString_eq_some.mpr htopic,
      Option.getD_some]
    exact ⟨hschema, htopic⟩

/-- The counter does not wrap as long as there are fewer than 2^32 nameless
converters. -/
theorem namesConverters_values {converters : List Json}
    (hcount : converters.countP (fun converter => (converter.findString "name").isNone) < 2 ^ 32) :
    NamesConverters converters (values converterSettings nextIndex 0 converters) := by
  refine ⟨Traversal.length_values _ _, ?_⟩
  intro k converter settings hconverter hsettings
  rw [Traversal.getElem?_values, hconverter, Option.map_some, Option.some.injEq] at hsettings
  subst hsettings
  refine ⟨?_, ?_⟩
  · intro name hname
    simp only [converterSettings, converterName, findString_eq_some.mpr hname, Option.getD_some]
  · intro hnameless
    have hnone : converter.findString "name" = none := by
      rw [Option.eq_none_iff_forall_not_mem]
      exact fun name hname => hnameless name (findString_eq_some.mp hname)
    have hle : (converters.take k).countP (fun earlier => (earlier.findString "name").isNone) ≤
        converters.countP fun earlier => (earlier.findString "name").isNone :=
      List.Sublist.countP_le (List.take_sublist k converters)
    simp only [converterSettings, converterName, hnone, Option.getD_none, foldl_nextIndex,
      UInt32.zero_add]
    congr 1
    change toString (UInt32.ofNat _).toNat = _
    rw [UInt32.toNat_ofNat_of_lt' (by
      rw [UInt32.size]
      omega)]

/-- A document that is not malformed. -/
theorem extractStreamInfo_ok {json : Json} (hok : ¬ Malformed json) :
    ∃ settings, extractStreamInfo json = .ok settings ∧ Extracted json settings := by
  have hstreams : ∀ stream ∈ streamsOf json, StreamOk stream := by
    intro stream hmem
    by_contra hbad
    exact hok (malformed_iff.mpr ⟨stream, hmem, hbad⟩)
  have hrun := Traversal.run_mapM_of_ok
    (fun stream hmem => extractStream_run (hstreams stream hmem)) 0
  refine ⟨values streamSettings (fun index stream => (convertersOf stream).foldl nextIndex index) 0
    (streamsOf json), ?_, ?_, ?_⟩
  · rw [extractStreamInfo_eq, hrun, outcome]
  · exact Traversal.forall₂_values
      (fun stream hmem index => describesStream_of_ok (hstreams stream hmem) index) 0
  · intro hcount
    rw [Traversal.flatMap_values (fun _ _ => rfl) 0]
    exact namesConverters_values hcount

theorem extractStreamInfo_error {json : Json} (hbad : Malformed json) :
    ∃ e, extractStreamInfo json = .error e := by
  obtain ⟨stream, hmem, hstream⟩ := malformed_iff.mp hbad
  obtain ⟨e, last, hrun⟩ := Traversal.fails_mapM (fun other _ => extractStream_decided other)
    ⟨stream, hmem, extractStream_fails hstream⟩ 0
  refine ⟨e, ?_⟩
  rw [extractStreamInfo_eq, hrun, outcome]

/-- Every document is malformed, and then an exception is thrown and the add
command leaves everything as it was; or its streams are extracted. -/
theorem extractStreamInfo_spec (json : Json) :
    ((∃ e, extractStreamInfo json = .error e) ↔ Malformed json) ∧
      (¬ Malformed json →
        ∃ settings, extractStreamInfo json = .ok settings ∧ Extracted json settings) ∧
      (Malformed json → ∀ opt answers s, ∃ e,
        (handleCommandAdd opt answers json).run s = .error e s) := by
  refine ⟨⟨?_, extractStreamInfo_error⟩, extractStreamInfo_ok, ?_⟩
  · rintro ⟨e, herror⟩
    by_contra hok
    obtain ⟨settings, hsettings, -⟩ := extractStreamInfo_ok hok
    rw [herror] at hsettings
    cases hsettings
  · intro hbad opt answers s
    obtain ⟨e, herror⟩ := extractStreamInfo_error hbad
    refine ⟨e, ?_⟩
    simp only [handleCommandAdd, herror, liftExcept, EStateM.run_bind]
    rfl

end EpicsToKafka.ConfigParser
