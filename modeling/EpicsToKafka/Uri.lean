/-
`URI` with the regular expression it is parsed by.  Exceptions are values of
one type that records their place in the class hierarchy, and code that may
throw is an `EStateM` action: what was assigned before a throw stays assigned.
-/
import EpicsToKafka.Backtracking
import Mathlib.Algebra.Group.Nat.Defs

namespace EpicsToKafka

open Backtracking

/-- The exceptions of the control plane; `nested` is a `MappingAddException`
thrown by `std::throw_with_nested`. -/
inductive Exception where
  | runtimeError (what : String)
  | mappingAddException (what : String)
  | topicCreationError
  | outOfRange (what : String)
  | nested (what : String) (cause : Exception)
deriving Repr, DecidableEq

/-- Whether `catch (std::runtime_error &)` catches it. -/
def Exception.isRuntimeError : Exception → Bool
  | .outOfRange _ => false
  | _ => true

structure URI where
  hostPort : String := ""
  port : Nat := 0
  topic : String := ""
deriving Repr, DecidableEq

/-- `\s` in the classic locale. -/
def isSpace (c : Char) : Bool :=
  c = ' ' || (9 ≤ c.toNat && c.toNat ≤ 13)

def isDigit (c : Char) : Bool :=
  48 ≤ c.toNat && c.toNat ≤ 57

/-- The negated class of `:`, `/`, `?` and `#`. -/
def isHostChar (c : Char) : Bool :=
  !(c = ':' || c = '/' || c = '?' || c = '#')

/-- The class `[a-zA-Z0-9._-]`. -/
def isTopicChar (c : Char) : Bool :=
  (97 ≤ c.toNat && c.toNat ≤ 122) || (65 ≤ c.toNat && c.toNat ≤ 90) ||
    isDigit c || c = '.' || c = '_' || c = '-'

/-- The scheme with its slashes, only slashes, or nothing. -/
def schemePattern : Pattern Char :=
  .group 1 (.alt
    (.group 2 (.seq (.group 3 (.plus (.one isHostChar))) (.literal "://".toList)))
    (.alt (.group 4 (.literal "//".toList)) (.group 5 .empty)))

def hostPortPattern : Pattern Char :=
  .group 6 (.seq
    (.group 7 (.plus (.group 8 (.plus (.one isHostChar)))))
    (.opt (.group 9 (.seq (.literal ":".toList) (.group 10 (.plus (.one isDigit)))))))

def topicPattern : Pattern Char :=
  .opt (.group 11 (.plus (.one isTopicChar)))

/-- The regular expression of `URI::parse`. -/
def uriPattern : Pattern Char :=
  .seq (.star (.one isSpace)) <| .seq schemePattern <| .seq hostPortPattern <|
    .seq (.opt (.literal "/".toList)) <| .seq topicPattern (.star (.one isSpace))

/-- The number that decimal digits denote. -/
def decimal (digits : List Char) : Nat :=
  digits.foldl (fun value digit => 10 * value + (digit.toNat - 48)) 0

/-- `std::stoi` on a string of digits; `int` has 32 bits. -/
def stoi (digits : List Char) : Except Exception Nat :=
  if decimal digits < 2 ^ 31 then .ok (decimal digits) else .error (.outOfRange "stoi")

/-- The assignment of `Port`, if the group has matched. -/
def URI.setPort (digits : Option (List Char)) : EStateM Exception URI Unit :=
  match digits with
  | none => pure ()
  | some digits =>
      match stoi digits with
      | .ok port => modify fun uri => { uri with port }
      | .error e => throw e

/-- The assignment of `Topic`, if the group has matched. -/
def URI.setTopic (topic : Option (List Char)) (uri : URI) : URI :=
  match topic with
  | none => uri
  | some topic => { uri with topic := String.ofList topic }

/-- What `URI::parse` does with the groups 6, 10 and 11 of the match. -/
def URI.assign (uriString : String) (hostPort port topic : Option (List Char)) :
    EStateM Exception URI Unit :=
  match hostPort with
  | none =>
      throw (.runtimeError
        ("Unable to extract host from the URI: \"" ++ uriString ++ "\"."))
  | some hostPort => do
      modify fun uri => { uri with hostPort := String.ofList hostPort }
      URI.setPort port
      modify (URI.setTopic topic)

def URI.parse (uriString : String) : EStateM Exception URI Unit :=
  let groups := (uriPattern.fullMatch uriString.toList).getD []
  URI.assign uriString (groups.submatch 6) (groups.submatch 10) (groups.submatch 11)

@[simp] theorem URI.setTopic_hostPort (topic : Option (List Char)) (uri : URI) :
    (URI.setTopic topic uri).hostPort = uri.hostPort := by
  cases topic <;> rfl

/-- Whether an assignment succeeds, and the host it leaves, do not depend on
the value that is assigned to. -/
theorem URI.assign_run_cases (uriString : String)
    (hostPort port topic : Option (List Char)) :
    (∃ host, ∀ uri, ∃ parsed, (URI.assign uriString hostPort port topic).run uri =
      .ok () parsed ∧ parsed.hostPort = host) ∨
    (∃ e, ∀ uri, ∃ parsed, (URI.assign uriString hostPort port topic).run uri =
      .error e parsed) := by
  cases hostPort with
  | none => exact Or.inr ⟨_, fun uri => ⟨uri, rfl⟩⟩
  | some hostPort =>
      cases port with
      | none =>
          exact Or.inl ⟨String.ofList hostPort, fun uri => ⟨_, rfl, by simp⟩⟩
      | some digits =>
          cases hport : stoi digits with
          | ok port =>
              refine Or.inl ⟨String.ofList hostPort, fun uri => ?_⟩
              exact ⟨URI.setTopic topic { uri with hostPort := String.ofList hostPort, port },
                by simp [URI.assign, URI.setPort, hport], by simp⟩
          | error e =>
              refine Or.inr ⟨e, fun uri => ?_⟩
              exact ⟨{ uri with hostPort := String.ofList hostPort },
                by simp [URI.assign, URI.setPort, hport]⟩

theorem URI.parse_run_cases (uriString : String) :
    (∃ host, ∀ uri, ∃ parsed, (URI.parse uriString).run uri = .ok () parsed ∧
      parsed.hostPort = host) ∨
    (∃ e, ∀ uri, ∃ parsed, (URI.parse uriString).run uri = .error e parsed) :=
  URI.assign_run_cases uriString _ _ _

/-- The constructor from a string. -/
def URI.ofString (uriString : String) : Except Exception URI :=
  match (URI.parse uriString).run {} with
  | .ok _ uri => .ok uri
  | .error e _ => .error e

/-- The broker that a topic string names, if it parses. -/
def topicHost (topic : String) : Option String :=
  (URI.ofString topic).toOption.map URI.hostPort

theorem URI.parse_run_of_topicHost {topic host : String}
    (hhost : topicHost topic = some host) (uri : URI) :
    ∃ parsed, (URI.parse topic).run uri = .ok () parsed ∧ parsed.hostPort = host := by
  rcases URI.parse_run_cases topic with ⟨found, hparse⟩ | ⟨e, hparse⟩
  · obtain ⟨parsed, hrun, hfound⟩ := hparse {}
    have heq : found = host := by
      simpa [topicHost, URI.ofString, hrun, Except.toOption, hfound] using hhost
    exact heq ▸ hparse uri
  · obtain ⟨parsed, hrun⟩ := hparse {}
    simp [topicHost, URI.ofString, hrun, Except.toOption] at hhost

theorem URI.parse_run_of_topicHost_eq_none {topic : String}
    (hhost : topicHost topic = none) (uri : URI) :
    ∃ e parsed, (URI.parse topic).run uri = .error e parsed := by
  rcases URI.parse_run_cases topic with ⟨found, hparse⟩ | ⟨e, hparse⟩
  · obtain ⟨parsed, hrun, -⟩ := hparse {}
    simp [topicHost, URI.ofString, hrun, Except.toOption] at hhost
  · exact ⟨e, hparse uri⟩

example : URI.ofString "//myhost:345/mytopic" = .ok ⟨"myhost:345", 345, "mytopic"⟩ := by
  decide +kernel

example : URI.ofString "kafka://broker.local/Topic_1 " =
    .ok ⟨"broker.local", 0, "Topic_1"⟩ := by
  decide +kernel

end EpicsToKafka
