/-
The way of a command from a Kafka message to `ConfigCallback`.  A payload is a
pointer with a length; what lies behind it in memory is up to librdkafka, and
`Consumer::poll` makes a string of the pointer alone.
-/
import EpicsToKafka.ConverterNames

namespace EpicsToKafka

namespace KafkaW

/-- The error codes that `Consumer::poll` tells apart. -/
inductive ConsumeCode where
  | noError
  | partitionEof
  | other
deriving Repr, DecidableEq

/-- An `RdKafka::Message`.  The payload has `len()` bytes; `following` are the
bytes behind it, as far as they can be read at all. -/
structure Message where
  err : ConsumeCode
  payload : List UInt8
  following : List UInt8
deriving Repr, DecidableEq

inductive PollStatus where
  | message
  | error
  | endOfPartition
  | empty
deriving Repr, DecidableEq

structure ConsumerMessage where
  data : List UInt8 := []
  status : PollStatus
deriving Repr, DecidableEq

/-- The string that `std::string` makes of a `char const *`; there is none if
no NUL comes before the end of the memory. -/
def cString : List UInt8 → Option (List UInt8)
  | [] => none
  | byte :: memory => if byte = 0 then some [] else (cString memory).map (byte :: ·)

/-- `Consumer::poll` with the message that `consume` has returned. -/
def Consumer.poll (kafkaMsg : Message) : Option ConsumerMessage :=
  match kafkaMsg.err with
  | .noError =>
      if 0 < kafkaMsg.payload.length then
        (cString (kafkaMsg.payload ++ kafkaMsg.following)).map fun messageString =>
          { data := messageString, status := .message }
      else some { status := .empty }
  | .partitionEof => some { status := .endOfPartition }
  | .other => some { status := .error }

end KafkaW

/-- `Listener::poll` with a callback that changes a state. -/
def Listener.poll {σ : Type} (cb : List UInt8 → σ → σ) (kafkaMsg : KafkaW.Message)
    (state : σ) : Option σ :=
  (KafkaW.Consumer.poll kafkaMsg).map fun message =>
    if message.status = .message then cb message.data state else state

/-- `ConfigCallback::operator()`; what does not parse is only logged. -/
def ConfigCallback.call (parse : List UInt8 → Option Json) (rawMsg : List UInt8)
    (s : Session) : Session :=
  match parse rawMsg with
  | some document => s.handleCommand document
  | none => s

namespace KafkaW

/-- The callback is given the payload, no byte more and no byte less. -/
structure Message.Delivered (kafkaMsg : Message) : Prop where
  polled : Consumer.poll kafkaMsg = some ⟨kafkaMsg.payload, .message⟩
  passed : ∀ (σ : Type) (cb : List UInt8 → σ → σ) (state : σ),
    Listener.poll cb kafkaMsg state = some (cb kafkaMsg.payload state)

/-- The payload has no NUL in it and happens to be followed by one. -/
structure Message.NulTerminated (kafkaMsg : Message) : Prop where
  inside : 0 ∉ kafkaMsg.payload
  behind : kafkaMsg.following.head? = some 0

theorem cString_eq_some_iff (payload following : List UInt8) :
    cString (payload ++ following) = some payload ↔
      0 ∉ payload ∧ following.head? = some 0 := by
  induction payload with
  | nil =>
      cases following with
      | nil => simp [cString]
      | cons byte memory => by_cases hbyte : byte = 0 <;> simp [cString, hbyte]
  | cons byte rest ih =>
      by_cases hbyte : byte = 0
      · simp [cString, hbyte]
      · rw [List.cons_append, cString, if_neg hbyte]
        simp only [Option.map_eq_some_iff, List.cons.injEq, true_and, exists_eq_right, ih,
          List.mem_cons, not_or]
        simp [Ne.symm hbyte]

theorem poll_of_payload {kafkaMsg : Message} (herr : kafkaMsg.err = .noError)
    (hlen : kafkaMsg.payload ≠ []) :
    Consumer.poll kafkaMsg = (cString (kafkaMsg.payload ++ kafkaMsg.following)).map
      fun messageString => { data := messageString, status := .message } := by
  simp [Consumer.poll, herr, List.length_pos_iff.mpr hlen]

/-- A command arrives as it was sent exactly if librdkafka's buffer ends it
with a NUL and it has none of its own. -/
theorem payload_delivered_iff (kafkaMsg : Message) (herr : kafkaMsg.err = .noError)
    (hlen : kafkaMsg.payload ≠ []) : kafkaMsg.Delivered ↔ kafkaMsg.NulTerminated := by
  have hstring := cString_eq_some_iff kafkaMsg.payload kafkaMsg.following
  constructor
  · intro hdelivered
    have hpolled := hdelivered.polled
    rw [poll_of_payload herr hlen, Option.map_eq_some_iff] at hpolled
    obtain ⟨messageString, hread, hdata⟩ := hpolled
    cases hdata
    obtain ⟨hinside, hbehind⟩ := hstring.mp hread
    exact ⟨hinside, hbehind⟩
  · intro hterminated
    have hread := hstring.mpr ⟨hterminated.inside, hterminated.behind⟩
    have hpolled : Consumer.poll kafkaMsg = some ⟨kafkaMsg.payload, .message⟩ := by
      rw [poll_of_payload herr hlen, hread, Option.map_some]
    refine ⟨hpolled, fun σ cb state => ?_⟩
    rw [Listener.poll, hpolled, Option.map_some, if_pos rfl]

/-- `{}` with a NUL behind it. -/
theorem terminated_delivered :
    Message.Delivered ⟨.noError, [0x7b, 0x7d], [0]⟩ :=
  (payload_delivered_iff ⟨.noError, [0x7b, 0x7d], [0]⟩ rfl (by decide)).mpr
    ⟨by decide, rfl⟩

/-- `{}` with a byte of something else behind it. -/
theorem overread_not_delivered :
    ¬ Message.Delivered ⟨.noError, [0x7b, 0x7d], [0x61, 0]⟩ := by
  intro hdelivered
  have hpolled : Consumer.poll ⟨.noError, [0x7b, 0x7d], [0x61, 0]⟩ =
      some ⟨[0x7b, 0x7d, 0x61], .message⟩ := by decide
  have hsame := hpolled.symm.trans hdelivered.polled
  exact absurd hsame (by decide)

end KafkaW

/-- What arrives as it was sent is the command of a session's step. -/
theorem poll_is_command_step (opt : MainOpt) (parse : List UInt8 → Option Json)
    {kafkaMsg : KafkaW.Message} {document : Json} {s : Session}
    (hdelivered : kafkaMsg.Delivered) (hparse : parse kafkaMsg.payload = some document)
    (hidle : s.control = .idle) :
    Listener.poll (ConfigCallback.call parse) kafkaMsg s =
      (sessionSystem opt).step s (.command document) := by
  rw [hdelivered.passed, ConfigCallback.call, hparse]
  simp [sessionSystem, Session.step, hidle]

end EpicsToKafka
