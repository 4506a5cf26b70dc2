/-
How `URI::parse` fails.  A string that does not match leaves the value alone
and throws what the callers catch; a port that `std::stoi` does not take throws
out of their reach, after `HostPort` has been assigned.  Which strings these
are is said by the digits after the last colon, however the white space in
front of the word is shared out.
-/
import EpicsToKafka.UriGrammar

namespace EpicsToKafka

open Backtracking

/-- The digits after the last colon. -/
def lastPort : List Char → List Char
  | [] => []
  | c :: rest => if ':' ∈ rest then lastPort rest else portDigits (c :: rest)

section LastPort

theorem lastPort_eq_nil {word : List Char} (hcolon : ':' ∉ word) : lastPort word = [] := by
  cases word with
  | nil => rfl
  | cons c rest =>
      have hne : ¬ [':'] <+: c :: rest := by
        rintro ⟨_, heq⟩
        rw [← heq] at hcolon
        exact hcolon List.mem_cons_self
      rw [lastPort, if_neg fun hrest => hcolon (List.mem_cons_of_mem _ hrest),
        portDigits_of_ne hne]

/-- What has no colon may stand in front. -/
theorem lastPort_append {before : List Char} (hcolon : ':' ∉ before) (rest : List Char) :
    lastPort (before ++ rest) = lastPort rest := by
  induction before with
  | nil => rfl
  | cons c before ih =>
      have hbefore : ':' ∉ before := fun h => hcolon (List.mem_cons_of_mem _ h)
      by_cases hrest : ':' ∈ rest
      · rw [List.cons_append, lastPort, if_pos (List.mem_append_right _ hrest)]
        exact ih hbefore
      · rw [lastPort_eq_nil hrest, lastPort_eq_nil]
        rw [List.mem_append, not_or]
        exact ⟨hcolon, hrest⟩

theorem colon_notMem_of_isHostChar {word : List Char} (hhost : ∀ c ∈ word, isHostChar c = true) :
    ':' ∉ word := by
  intro hcolon
  have himpossible := hhost _ hcolon
  revert himpossible
  decide

theorem colon_notMem_of_isSpace {word : List Char} (hspace : ∀ c ∈ word, isSpace c = true) :
    ':' ∉ word :=
  colon_notMem_of_isHostChar fun c hc => isHostChar_of_isSpace (hspace c hc)

/-- The colon of a scheme is followed by slashes and not by digits. -/
theorem lastPort_front {front : List Char} (hfront : FrontOk front) (rest : List Char) :
    lastPort (front ++ rest) = lastPort rest := by
  rcases hfront with rfl | rfl | ⟨scheme, -, hscheme, rfl⟩
  · rfl
  · exact lastPort_append (by decide) rest
  · have hslashes : lastPort ("//".toList ++ rest) = lastPort rest :=
      lastPort_append (by decide) rest
    rw [List.append_assoc, lastPort_append (colon_notMem_of_isHostChar hscheme)]
    by_cases hcolon : ':' ∈ "//".toList ++ rest
    · exact (if_pos hcolon).trans hslashes
    · rw [← hslashes, lastPort_eq_nil hcolon]
      exact if_neg hcolon

theorem colon_notMem_of_topicText {word : List Char} (hsome : (topicText word).isSome) :
    ':' ∉ word := by
  obtain ⟨topic, htopic⟩ := Option.isSome_iff_exists.mp hsome
  obtain ⟨slash, trailing, hslash, rfl, hchars, htrailing⟩ := topicText_eq_some htopic
  have hnoSlash : ':' ∉ slash := by
    rcases hslash with rfl | rfl <;> decide
  have hnoTopic := colon_notMem_of_isHostChar fun c hc => isHostChar_of_isTopicChar (hchars c hc)
  have hnoSpace := colon_notMem_of_isSpace htrailing
  rw [List.mem_append, List.mem_append, not_or, not_or]
  exact ⟨⟨hnoSlash, hnoTopic⟩, hnoSpace⟩

/-- After a host the port is at the last colon. -/
theorem lastPort_of_restReads {rest : List Char} (hreads : restReads rest) :
    lastPort rest = portDigits rest := by
  have hnoColon := colon_notMem_of_topicText hreads
  have hsplit := portText_append rest
  by_cases hdigits : portDigits rest = []
  · rw [hdigits, portText, if_pos rfl, List.length_nil, List.drop_zero] at hnoColon
    rw [hdigits, lastPort_eq_nil hnoColon]
  · have hnoPort : ':' ∉ portDigits rest := colon_notMem_of_isHostChar fun c hc =>
      isHostChar_of_isTopicChar (isTopicChar_of_isDigit (portDigits_isDigit c hc))
    rw [portText, if_neg hdigits, List.cons_append] at hsplit
    rw [portText, if_neg hdigits] at hnoColon
    have hafter : ':' ∉ portDigits rest ++ rest.drop (':' :: portDigits rest).length := by
      rw [List.mem_append, not_or]
      exact ⟨hnoPort, hnoColon⟩
    rw [← hsplit, lastPort, if_neg hafter]

end LastPort

section Readings

variable {leading : List Char}

/-- However much white space has been skipped, the port that is read is the
same. -/
theorem lastPort_of_uriParts (hleading : ∀ c ∈ leading, isSpace c = true) {rest : List Char}
    {parts : UriParts} (hparts : uriParts rest = some parts) :
    lastPort (leading ++ rest) = parts.digits := by
  have hnoColon := colon_notMem_of_isSpace hleading
  obtain ⟨front, word, hfront, rfl, hhost⟩ := uriParts_eq_some hparts
  have hreads : restReads (word.dropWhile isHostChar) :=
    (hostParts_isSome_iff.mp (by rw [hhost]; rfl)).2
  have hdigits : parts.digits = portDigits (word.dropWhile isHostChar) := by
    unfold hostParts at hhost
    split at hhost
    · cases hhost
    · obtain ⟨topic, -, rfl⟩ := Option.map_eq_some_iff.mp hhost
      rfl
  rw [lastPort_append hnoColon, lastPort_front hfront, hdigits, ← lastPort_of_restReads hreads]
  nth_rewrite 1 [← List.takeWhile_append_dropWhile (p := isHostChar) (l := word)]
  exact lastPort_append (colon_notMem_of_isHostChar fun c hc => List.mem_takeWhile_imp hc) _

/-- A port of the grammar is the beginning of the port that is read. -/
theorem lastPort_of_split (hleading : ∀ c ∈ leading, isSpace c = true) {split : UriSplit}
    {trailing : List Char} (hvalid : split.Valid) (htrailing : ∀ c ∈ trailing, isSpace c = true)
    (hdigits : split.digits ≠ []) :
    ∃ more, lastPort (leading ++ (split.text ++ trailing)) = split.digits ++ more := by
  have hnoColon := colon_notMem_of_isSpace hleading
  refine ⟨(split.slash ++ split.topic ++ trailing).takeWhile isDigit, ?_⟩
  rw [lastPort_append hnoColon, split.text_append, lastPort_front hvalid.front,
    lastPort_append (colon_notMem_of_isHostChar hvalid.host),
    lastPort_of_restReads (restReads_split hvalid htrailing),
    (drop_portText hdigits hvalid.digits).1]

end Readings

section Decimal

theorem le_foldl_decimal (digits : List Char) (value : Nat) :
    value ≤ digits.foldl (fun value digit => 10 * value + (digit.toNat - 48)) value := by
  induction digits generalizing value with
  | nil => exact le_rfl
  | cons digit digits ih =>
      refine le_trans ?_ (ih (10 * value + (digit.toNat - 48)))
      omega

theorem decimal_le_append (digits more : List Char) :
    decimal digits ≤ decimal (digits ++ more) := by
  rw [decimal, decimal, List.foldl_append]
  exact le_foldl_decimal more _

end Decimal

/-- The string is derived by the grammar, with white space around it, and with
a port beyond the largest `int`. -/
def PortOverflows (uriString : String) : Prop :=
  ∃ (leading : List Char) (split : UriSplit) (trailing : List Char),
    (∀ c ∈ leading, isSpace c = true) ∧ split.Valid ∧ (∀ c ∈ trailing, isSpace c = true) ∧
    uriString.toList = leading ++ (split.text ++ trailing) ∧ 2 ^ 31 ≤ decimal split.digits

/-- The parse succeeds, or throws what its callers catch and leaves the value
as it was. -/
def FailsCleanly (uri : URI) (uriString : String) : Prop :=
  (∃ parsed, (URI.parse uriString).run uri = .ok () parsed) ∨
    ∃ e, e.isRuntimeError = true ∧ (URI.parse uriString).run uri = .error e uri

section Failures

variable {uriString : String}

/-- A port of the grammar that is too large is too large as it is read. -/
theorem overflow_of_portOverflows (hoverflows : PortOverflows uriString) :
    ∃ captures parts, uriPattern.fullMatch uriString.toList = some captures ∧
      Groups captures parts ∧ 2 ^ 31 ≤ decimal parts.digits := by
  obtain ⟨leading, split, trailing, hleading, hvalid, htrailing, hword, hlarge⟩ := hoverflows
  have hdigits : split.digits ≠ [] := by
    intro hnil
    rw [hnil] at hlarge
    revert hlarge
    decide
  have hsome := fullMatch_isSome hleading (uriParts_split hvalid htrailing).2
  rw [← hword] at hsome
  obtain ⟨captures, hmatch⟩ := Option.isSome_iff_exists.mp hsome
  obtain ⟨skipped, rest, parts, hskipped, hrest, hparts, hgroups⟩ := fullMatch_eq_some hmatch
  obtain ⟨more, hmore⟩ := lastPort_of_split hleading hvalid htrailing hdigits
  have hread : parts.digits = split.digits ++ more := by
    rw [← lastPort_of_uriParts hskipped hparts, ← hrest, hword, hmore]
  refine ⟨captures, parts, hmatch, hgroups, le_trans hlarge ?_⟩
  rw [hread]
  exact decimal_le_append _ _

theorem portOverflows_of_parts {leading rest : List Char} {parts : UriParts}
    (hleading : ∀ c ∈ leading, isSpace c = true) (hword : uriString.toList = leading ++ rest)
    (hparts : uriParts rest = some parts) (hlarge : 2 ^ 31 ≤ decimal parts.digits) :
    PortOverflows uriString := by
  obtain ⟨split, trailing, hvalid, htrailing, hrest, -, hdigits, -⟩ :=
    exists_split_of_uriParts hparts
  refine ⟨leading, split, trailing, hleading, hvalid, htrailing, ?_, ?_⟩
  · rw [hword, hrest]
  · rwa [hdigits]

theorem not_failsCleanly_of_outOfRange {uri after : URI} {what : String}
    (hrun : (URI.parse uriString).run uri = .error (.outOfRange what) after) :
    ¬ FailsCleanly uri uriString := by
  rintro (⟨parsed, hok⟩ | ⟨e, hcaught, herror⟩)
  · rw [hrun] at hok
    cases hok
  · rw [hrun, EStateM.Result.error.injEq] at herror
    rw [← herror.1] at hcaught
    cases hcaught

/-- A parse fails cleanly, whatever the value held before, exactly if the port
of the string is none that `std::stoi` refuses. -/
theorem failsCleanly_iff (uri : URI) (uriString : String) :
    FailsCleanly uri uriString ↔ ¬ PortOverflows uriString := by
  constructor
  · intro hclean hoverflows
    obtain ⟨captures, parts, hmatch, hgroups, hlarge⟩ := overflow_of_portOverflows hoverflows
    have hrun := parse_run_of_overflow hmatch hgroups hlarge uri
    exact not_failsCleanly_of_outOfRange hrun hclean
  · intro hfits
    cases hmatch : uriPattern.fullMatch uriString.toList with
    | none =>
        obtain ⟨what, hrun⟩ := parse_run_of_no_match hmatch uri
        exact Or.inr ⟨_, rfl, hrun⟩
    | some captures =>
        obtain ⟨leading, rest, parts, hleading, hword, hparts, hgroups⟩ :=
          fullMatch_eq_some hmatch
        have hport : decimal parts.digits < 2 ^ 31 := by
          by_contra hlarge
          exact hfits (portOverflows_of_parts hleading hword hparts (Nat.not_lt.mp hlarge))
        exact Or.inl ⟨_, parse_run_of_match hmatch hgroups hport uri⟩

/-- The exception of `std::stoi` escapes and the host has been replaced. -/
theorem largePort_half_assigned :
    (URI.parse "//broker:4294967296/topic").run ⟨"localhost:9092", 9092, "commands"⟩ =
      .error (.outOfRange "stoi") ⟨"broker:4294967296", 9092, "commands"⟩ ∧
    ¬ FailsCleanly ⟨"localhost:9092", 9092, "commands"⟩ "//broker:4294967296/topic" := by
  have hrun : (URI.parse "//broker:4294967296/topic").run ⟨"localhost:9092", 9092, "commands"⟩ =
      .error (.outOfRange "stoi") ⟨"broker:4294967296", 9092, "commands"⟩ := by
    obtain ⟨captures, hmatch⟩ : ∃ captures,
        uriPattern.fullMatch "//broker:4294967296/topic".toList = some captures :=
      Option.isSome_iff_exists.mp (by decide +kernel)
    obtain ⟨parts, hparts, hgroups⟩ := uriParts_of_match (by decide) hmatch
    have hread : uriParts "//broker:4294967296/topic".toList =
        some ⟨"broker".toList, "4294967296".toList, "topic".toList⟩ := by
      decide +kernel
    obtain rfl := Option.some.inj (hparts.symm.trans hread)
    exact parse_run_of_overflow hmatch hgroups (by decide) _
  exact ⟨hrun, not_failsCleanly_of_outOfRange hrun⟩

end Failures

end EpicsToKafka
