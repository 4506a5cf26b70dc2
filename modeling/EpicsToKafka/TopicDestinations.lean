/-
Where the messages of a converter go.  The topic string of a converter is
parsed over the first configured broker: the host is always replaced, port and
topic only if the string has them.
-/
import EpicsToKafka.UriPadding
import EpicsToKafka.UriRoundTrip
import EpicsToKafka.Forwarder

namespace EpicsToKafka

open Backtracking

namespace UriSplit

/-- The word is the text of the split with white space around it. -/
structure Derives (split : UriSplit) (word : List Char) : Prop where
  valid : split.Valid
  text : ∃ leading trailing, (∀ c ∈ leading, isSpace c = true) ∧
    (∀ c ∈ trailing, isSpace c = true) ∧ word = leading ++ (split.text ++ trailing)

/-- There is a topic, and something that neither a host nor a port goes on
over stands in front of it. -/
structure Separated (split : UriSplit) : Prop where
  topic_ne : split.topic ≠ []
  before : split.slash ≠ [] ∨
    (split.digits ≠ [] ∧ ∀ c ∈ split.topic.head?, isDigit c = false)

end UriSplit

/-- `HostPort` ends in a colon and the digits of `Port`. -/
def URI.EndsInPort (uri : URI) : Prop :=
  ∃ host digits, uri.hostPort.toList = host ++ ':' :: digits ∧ digits ≠ [] ∧
    (∀ c ∈ digits, isDigit c = true) ∧ decimal digits = uri.port

/-- A string that could be the name of a topic and nothing else. -/
def BareTopic (word : List Char) : Prop :=
  word ≠ [] ∧ ∀ c ∈ word, isTopicChar c = true

/-- What a destination made from a topic string and a broker should be. -/
structure CompleteDestination (broker : URI) (topic : String) (uri : URI) : Prop where
  topic_ne : uri.topic ≠ ""
  port : uri.port ≠ 0 → uri.EndsInPort
  bare : BareTopic topic.toList → uri.topic = topic ∧ uri.hostPort = broker.hostPort

section Separated

variable {split : UriSplit} {trailing : List Char}

theorem takeWhile_nil_of_head {accepts : Char → Bool} {word : List Char}
    (hhead : ∀ c ∈ word.head?, accepts c = false) : word.takeWhile accepts = [] := by
  cases word with
  | nil => rfl
  | cons c word =>
      have hc : accepts c = false := hhead c rfl
      exact List.takeWhile_cons_of_neg (by simp [hc])

theorem topicText_topic {slash topic : List Char} (hslash : slash = [] ∨ slash = ['/'])
    (htopic : ∀ c ∈ topic, isTopicChar c = true) : topicText (slash ++ topic) = some topic := by
  rcases hslash with rfl | rfl
  · have hne : ¬ ['/'] <+: topic := by
      rintro ⟨rest, rfl⟩
      have himpossible := htopic '/' List.mem_cons_self
      revert himpossible
      decide
    have htake : topic.takeWhile isTopicChar = topic := List.takeWhile_eq_self_iff.mpr htopic
    have hdrop : topic.dropWhile isTopicChar = [] := List.dropWhile_eq_nil_iff.mpr htopic
    rw [List.nil_append, topicText, afterSlash_of_ne hne, htake, hdrop]
    rfl
  · exact topicText_slash htopic

/-- Without a port it is a slash that separates. -/
theorem UriSplit.Separated.slash_eq (hseparated : split.Separated) (hvalid : split.Valid)
    (hnil : split.digits = []) : split.slash = ['/'] := by
  rcases hseparated.before with hne | ⟨hne, -⟩
  · exact hvalid.slash.resolve_left hne
  · exact absurd hnil hne

/-- The host of a separated word ends at the port or at the slash. -/
theorem UriSplit.Separated.takeWhile_rest (hseparated : split.Separated) (hvalid : split.Valid) :
    (portText split.digits ++ (split.slash ++ split.topic ++ trailing)).takeWhile isHostChar =
      [] := by
  unfold portText
  split
  · rename_i hnil
    rw [hseparated.slash_eq hvalid hnil]
    exact List.takeWhile_cons_of_neg (by decide)
  · exact List.takeWhile_cons_of_neg (by decide)

/-- Its port ends at the slash or at the topic. -/
theorem UriSplit.Separated.portDigits_rest (hseparated : split.Separated) (hvalid : split.Valid) :
    portDigits (portText split.digits ++ (split.slash ++ split.topic ++ trailing)) =
      split.digits := by
  by_cases hnil : split.digits = []
  · rw [hnil, hseparated.slash_eq hvalid hnil]
    rfl
  · have hstop : (split.slash ++ split.topic ++ trailing).takeWhile isDigit = [] := by
      refine takeWhile_nil_of_head fun c hc => ?_
      rcases hvalid.slash with hslash | hslash
      · obtain ⟨hne, hdigit⟩ := hseparated.before.resolve_left (not_not.mpr hslash)
        refine hdigit c ?_
        obtain ⟨first, more, htopic⟩ := List.exists_cons_of_ne_nil hseparated.topic_ne
        rw [hslash, htopic] at hc
        rwa [htopic]
      · rw [hslash] at hc
        cases hc
        decide
    rw [(drop_portText hnil hvalid.digits).1, hstop, List.append_nil]

/-- A separated word is read as it is cut. -/
theorem uriParts_of_separated (hseparated : split.Separated) (hvalid : split.Valid)
    (htrailing : ∀ c ∈ trailing, isSpace c = true) :
    uriParts (split.text ++ trailing) = some ⟨split.host, split.digits, split.topic⟩ := by
  have hstop := @UriSplit.Separated.takeWhile_rest _ trailing hseparated hvalid
  have hport := @UriSplit.Separated.portDigits_rest _ trailing hseparated hvalid
  have htopic : topicText (split.slash ++ split.topic ++ trailing) = some split.topic := by
    rw [topicText_append_spaces htrailing, topicText_topic hvalid.slash hvalid.topic]
  rw [(uriParts_split hvalid htrailing).1, hostParts_eq, List.takeWhile_append_of_pos hvalid.host,
    List.dropWhile_append_of_pos hvalid.host, hstop, dropWhile_of_takeWhile_eq_nil hstop,
    restTopic, hport, List.drop_left, htopic, List.append_nil]
  · rfl
  · rw [List.takeWhile_append_of_pos hvalid.host]
    simp [hvalid.host_ne]

/-- A topic that is read has been separated. -/
theorem exists_separated_of_uriParts {word : List Char} {parts : UriParts}
    (hparts : uriParts word = some parts) (hne : parts.topic ≠ []) :
    ∃ (split : UriSplit) (trailing : List Char), split.Valid ∧ split.Separated ∧
      (∀ c ∈ trailing, isSpace c = true) ∧ word = split.text ++ trailing ∧
      split.digits = parts.digits := by
  obtain ⟨split, trailing, hvalid, htrailing, hword, -, hdigits, htopic, hlongest, hport⟩ :=
    exists_split_of_uriParts hparts
  have htopicNe : split.topic ≠ [] := by rwa [htopic]
  refine ⟨split, trailing, hvalid, ⟨htopicNe, ?_⟩, htrailing, hword, hdigits⟩
  rcases hvalid.slash with hslash | hslash
  · refine Or.inr ?_
    obtain ⟨first, more, hcons⟩ := List.exists_cons_of_ne_nil htopicNe
    have hfirst : isTopicChar first = true := hvalid.topic first (hcons ▸ List.mem_cons_self)
    rw [hword, split.text_append, List.drop_left, hslash, List.nil_append, hcons] at hlongest hport
    -- The longest host and the longest port have both stopped before the first character.
    by_cases hnil : split.digits = []
    · rw [hnil, portText, if_pos rfl, List.nil_append,
        List.takeWhile_append_of_pos hvalid.host, List.cons_append,
        List.takeWhile_cons_of_pos (isHostChar_of_isTopicChar hfirst)] at hlongest
      simp at hlongest
    · refine ⟨hnil, fun c hc => ?_⟩
      rw [hcons] at hc
      cases hc
      have hstop : (portText split.digits ++ (first :: more ++ trailing)).takeWhile isHostChar =
          [] := by
        rw [portText, if_neg hnil]
        exact List.takeWhile_cons_of_neg (by decide)
      rw [List.dropWhile_append_of_pos hvalid.host, dropWhile_of_takeWhile_eq_nil hstop,
        (drop_portText hnil hvalid.digits).1, List.cons_append] at hport
      by_contra hdigit
      rw [List.takeWhile_cons_of_pos (by simpa using hdigit)] at hport
      simp at hport
  · exact Or.inl (by simp [hslash])

end Separated

section Outcome

/-- However much white space is skipped, a word has one port and one topic. -/
theorem uriParts_suffix_agree {leading leading' rest rest' : List Char} {parts parts' : UriParts}
    (hleading : ∀ c ∈ leading, isSpace c = true) (hleading' : ∀ c ∈ leading', isSpace c = true)
    (hsame : leading ++ rest = leading' ++ rest') (hparts : uriParts rest = some parts)
    (hparts' : uriParts rest' = some parts') :
    parts'.digits = parts.digits ∧ parts'.topic = parts.topic := by
  rcases List.append_eq_append_iff.mp hsame with ⟨more, hmore, rfl⟩ | ⟨more, hmore, rfl⟩
  · have hspaces : ∀ c ∈ more, isSpace c = true := fun c hc =>
      hleading' c (hmore ▸ List.mem_append_right _ hc)
    obtain ⟨hdigits, htopic⟩ := uriParts_spaces_agree hspaces hparts' hparts
    exact ⟨hdigits.symm, htopic.symm⟩
  · have hspaces : ∀ c ∈ more, isSpace c = true := fun c hc =>
      hleading c (hmore ▸ List.mem_append_right _ hc)
    exact uriParts_spaces_agree hspaces hparts hparts'

variable (opt : MainOpt) {converterInfo : ConverterSettings}

/-- The value that a topic string is parsed over. -/
def topicBase (opt : MainOpt) : URI :=
  { hostPort := (opt.brokers.head?.getD {}).hostPort, port := (opt.brokers.head?.getD {}).port }

theorem createTopicURI_of_no_match
    (hmatch : uriPattern.fullMatch converterInfo.topic.toList = none) :
    ∃ what, createTopicURI opt converterInfo = .error (.mappingAddException what) := by
  obtain ⟨what, hrun⟩ := parse_run_of_no_match hmatch (topicBase opt)
  refine ⟨"Invalid topic " ++ converterInfo.topic ++
    " in converter, not added to stream. May require broker and/or host slashes.", ?_⟩
  unfold topicBase at hrun
  simp only [createTopicURI, hrun]
  rfl

variable {captures : Captures Char} {parts : UriParts}

theorem createTopicURI_of_match
    (hmatch : uriPattern.fullMatch converterInfo.topic.toList = some captures)
    (hgroups : Groups captures parts) (hport : decimal parts.digits < 2 ^ 31) :
    createTopicURI opt converterInfo = .ok (parts.assigned (topicBase opt)) := by
  have hrun := parse_run_of_match hmatch hgroups hport (topicBase opt)
  unfold topicBase at hrun
  simp only [createTopicURI, hrun]
  rfl

/-- The exception of `std::stoi` is not caught. -/
theorem createTopicURI_of_overflow
    (hmatch : uriPattern.fullMatch converterInfo.topic.toList = some captures)
    (hgroups : Groups captures parts) (hport : 2 ^ 31 ≤ decimal parts.digits) :
    createTopicURI opt converterInfo = .error (.outOfRange "stoi") := by
  have hrun := parse_run_of_overflow hmatch hgroups hport (topicBase opt)
  unfold topicBase at hrun
  simp only [createTopicURI, hrun]
  rfl

/-- A string that matches is derived, and conversely. -/
theorem fullMatch_isSome_iff_derives (topic : String) :
    (uriPattern.fullMatch topic.toList).isSome ↔
      ∃ split : UriSplit, split.Derives topic.toList := by
  constructor
  · intro hsome
    obtain ⟨captures, hmatch⟩ := Option.isSome_iff_exists.mp hsome
    obtain ⟨leading, rest, parts, hleading, hword, hparts, -⟩ := fullMatch_eq_some hmatch
    obtain ⟨split, trailing, hvalid, htrailing, hrest, -⟩ := exists_split_of_uriParts hparts
    exact ⟨split, hvalid, leading, trailing, hleading, htrailing, by rw [hword, hrest]⟩
  · rintro ⟨split, hvalid, leading, trailing, hleading, htrailing, hword⟩
    rw [hword]
    exact fullMatch_isSome hleading (uriParts_split hvalid htrailing).2

end Outcome

section Destination

variable {broker : URI} {topic : String} {parts : UriParts}

/-- A destination with a topic of its own is complete if its port is in its
host or if there is none. -/
theorem endsInPort_assigned_iff (hhost : ∀ c ∈ parts.host, isHostChar c = true)
    (hdigits : ∀ c ∈ parts.digits, isDigit c = true) (base : URI) :
    ((parts.assigned base).port ≠ 0 → (parts.assigned base).EndsInPort) ↔
      (parts.digits ≠ [] ∨ base.port = 0) := by
  by_cases hnil : parts.digits = []
  · have hport : (parts.assigned base).port = base.port := if_pos hnil
    have hnone : ¬ (parts.assigned base).EndsInPort := by
      rintro ⟨host, digits, hhostPort, -⟩
      have hcolon : ':' ∈ parts.host := by
        rw [UriParts.assigned, String.toList_ofList, hnil, portText, if_pos rfl,
          List.append_nil] at hhostPort
        rw [hhostPort]
        exact List.mem_append_right _ List.mem_cons_self
      exact colon_notMem_of_isHostChar hhost hcolon
    simp [hnil, hport, hnone]
  · have hends : (parts.assigned base).EndsInPort := by
      refine ⟨parts.host, parts.digits, ?_, hnil, hdigits, (if_neg hnil).symm⟩
      rw [UriParts.assigned, String.toList_ofList, portText, if_neg hnil]
    exact iff_of_true (fun _ => hends) (Or.inl hnil)

theorem topic_assigned_ne_iff (base : URI) (hbase : base.topic = "") :
    (parts.assigned base).topic ≠ "" ↔ parts.topic ≠ [] := by
  unfold UriParts.assigned
  by_cases hnil : parts.topic = []
  · simp [hnil, hbase]
  · simp [hnil, String.ofList_eq_empty_iff]

end Destination

/-- The string names a topic that is separated from its host, a port that is an
`int`, and the port unless the broker has none. -/
def NamesTopic (brokerPort : Nat) (word : List Char) : Prop :=
  ∃ split : UriSplit, split.Derives word ∧ split.Separated ∧ decimal split.digits < 2 ^ 31 ∧
    (split.digits ≠ [] ∨ brokerPort = 0)

theorem not_bareTopic_of_separated {split : UriSplit} {word : List Char}
    (hderives : split.Derives word) (hseparated : split.Separated) : ¬ BareTopic word := by
  rintro ⟨-, hchars⟩
  obtain ⟨hvalid, leading, trailing, -, -, rfl⟩ := hderives
  have hrest : ∀ c ∈ portText split.digits ++ split.slash, isTopicChar c = true := by
    intro c hc
    refine hchars c ?_
    rw [split.text_append]
    simp only [List.mem_append] at hc ⊢
    tauto
  by_cases hnil : split.digits = []
  · have hslash := hrest '/' (List.mem_append_right _ (by simp [hseparated.slash_eq hvalid hnil]))
    revert hslash
    decide
  · have hcolon := hrest ':' (List.mem_append_left _ (by simp [portText, hnil]))
    revert hcolon
    decide

section Complete

variable {opt : MainOpt} {converterInfo : ConverterSettings}

/-- The parts of the match are those of any separated split. -/
theorem parts_of_separated {leading rest : List Char} {parts : UriParts} {split : UriSplit}
    {word : List Char} (hleading : ∀ c ∈ leading, isSpace c = true)
    (hword : word = leading ++ rest) (hparts : uriParts rest = some parts)
    (hderives : split.Derives word) (hseparated : split.Separated) :
    parts.digits = split.digits ∧ parts.topic = split.topic := by
  obtain ⟨hvalid, leading', trailing, hleading', htrailing, hword'⟩ := hderives
  exact uriParts_suffix_agree hleading' hleading (hword' ▸ hword)
    (uriParts_of_separated hseparated hvalid htrailing) hparts

/-- A topic string that matches, with a port that is an `int`. -/
theorem complete_assigned_iff {leading rest : List Char} {parts : UriParts}
    (hleading : ∀ c ∈ leading, isSpace c = true)
    (hword : converterInfo.topic.toList = leading ++ rest) (hparts : uriParts rest = some parts)
    (hport : decimal parts.digits < 2 ^ 31) :
    CompleteDestination (opt.brokers.head?.getD {}) converterInfo.topic
        (parts.assigned (topicBase opt)) ↔
      NamesTopic (opt.brokers.head?.getD {}).port converterInfo.topic.toList := by
  obtain ⟨split, _, hvalid, -, -, hhost, hdigits, -⟩ := exists_split_of_uriParts hparts
  have hends := endsInPort_assigned_iff (hhost ▸ hvalid.host) (hdigits ▸ hvalid.digits)
    (topicBase opt)
  have htopic := @topic_assigned_ne_iff parts (topicBase opt) rfl
  constructor
  · intro hcomplete
    obtain ⟨split, trailing, hvalid, hseparated, htrailing, hrest, hsame⟩ :=
      exists_separated_of_uriParts hparts (htopic.mp hcomplete.topic_ne)
    refine ⟨split, ⟨hvalid, leading, trailing, hleading, htrailing, by rw [hword, hrest]⟩,
      hseparated, ?_, ?_⟩
    · rwa [hsame]
    · rw [hsame]
      exact hends.mp hcomplete.port
  · rintro ⟨split, hderives, hseparated, -, hbroker⟩
    obtain ⟨hsameDigits, hsameTopic⟩ :=
      parts_of_separated hleading hword hparts hderives hseparated
    refine ⟨htopic.mpr ?_, hends.mpr ?_, fun hbare => ?_⟩
    · rw [hsameTopic]
      exact hseparated.topic_ne
    · rwa [hsameDigits]
    · exact absurd hbare (not_bareTopic_of_separated hderives hseparated)

/-- `createTopicURI` refuses a topic string or makes a complete destination of
it exactly if the string is none that the grammar derives, or names its topic
and port. -/
theorem createTopicURI_complete_iff (opt : MainOpt) (converterInfo : ConverterSettings) :
    ((∃ what, createTopicURI opt converterInfo = .error (.mappingAddException what)) ∨
      ∃ uri, createTopicURI opt converterInfo = .ok uri ∧
        CompleteDestination (opt.brokers.head?.getD {}) converterInfo.topic uri) ↔
    ((¬ ∃ split : UriSplit, split.Derives converterInfo.topic.toList) ∨
      NamesTopic (opt.brokers.head?.getD {}).port converterInfo.topic.toList) := by
  have hderives := fullMatch_isSome_iff_derives converterInfo.topic
  cases hmatch : uriPattern.fullMatch converterInfo.topic.toList with
  | none =>
      rw [hmatch] at hderives
      refine iff_of_true (Or.inl (createTopicURI_of_no_match opt hmatch)) (Or.inl ?_)
      rw [← hderives]
      exact Bool.false_ne_true
  | some captures =>
      rw [hmatch] at hderives
      rw [or_iff_right (not_not.mpr (hderives.mp rfl))]
      obtain ⟨leading, rest, parts, hleading, hword, hparts, hgroups⟩ := fullMatch_eq_some hmatch
      by_cases hport : decimal parts.digits < 2 ^ 31
      · rw [createTopicURI_of_match opt hmatch hgroups hport,
          ← complete_assigned_iff hleading hword hparts hport]
        constructor
        · rintro (⟨what, herror⟩ | ⟨uri, huri, hcomplete⟩)
          · cases herror
          · cases huri
            exact hcomplete
        · exact fun hcomplete => Or.inr ⟨_, rfl, hcomplete⟩
      · rw [createTopicURI_of_overflow opt hmatch hgroups (Nat.not_lt.mp hport)]
        refine iff_of_false ?_ ?_
        · rintro (⟨what, herror⟩ | ⟨uri, huri, -⟩)
          · cases herror
          · cases huri
        · rintro ⟨split, hderives, hseparated, hfits, -⟩
          rw [← (parts_of_separated hleading hword hparts hderives hseparated).1] at hfits
          exact hport hfits

/-- A bare name replaces the host of the broker, whose port is kept. -/
theorem bareTopic_incomplete :
    let opt : MainOpt := { brokers := [⟨"broker:9092", 9092, ""⟩] }
    let converterInfo : ConverterSettings := ⟨"f142", "mytopic", ""⟩
    createTopicURI opt converterInfo = .ok ⟨"mytopic", 9092, ""⟩ ∧
      ¬ ((∃ what, createTopicURI opt converterInfo = .error (.mappingAddException what)) ∨
        ∃ uri, createTopicURI opt converterInfo = .ok uri ∧
          CompleteDestination (opt.brokers.head?.getD {}) converterInfo.topic uri) := by
  intro opt converterInfo
  have hrun : createTopicURI opt converterInfo = .ok ⟨"mytopic", 9092, ""⟩ := by
    decide +kernel
  refine ⟨hrun, ?_⟩
  rw [hrun]
  rintro (⟨what, herror⟩ | ⟨uri, huri, hcomplete⟩)
  · cases herror
  · cases huri
    exact hcomplete.topic_ne rfl

end Complete

end EpicsToKafka
