/-
A URI that is printed and parsed again.  Printing drops what stood in front of
the host and always writes a slash, so the second parse takes other
alternatives of the expression than the first one.
-/
import EpicsToKafka.UriGrammar

namespace EpicsToKafka

open Backtracking

def URI.getURIString (uri : URI) : String :=
  uri.hostPort ++ "/" ++ uri.topic

/-- The parts of a word as the grammar has them. -/
structure UriParts.Valid (parts : UriParts) : Prop where
  host_ne : parts.host ≠ []
  host : ∀ c ∈ parts.host, isHostChar c = true
  digits : ∀ c ∈ parts.digits, isDigit c = true
  topic : ∀ c ∈ parts.topic, isTopicChar c = true

/-- The printed form: nothing in front of the host, and a slash. -/
def UriParts.printed (parts : UriParts) : UriSplit where
  front := []
  host := parts.host
  digits := parts.digits
  slash := ['/']
  topic := parts.topic

section Printed

variable {parts : UriParts}

theorem UriParts.Valid.printed (hvalid : parts.Valid) : parts.printed.Valid where
  front := Or.inl rfl
  host_ne := hvalid.host_ne
  host := hvalid.host
  digits := hvalid.digits
  slash := Or.inr rfl
  topic := hvalid.topic

theorem getURIString_assigned (parts : UriParts) :
    (parts.assigned {}).getURIString.toList = parts.printed.text := by
  rw [UriParts.assigned_default]
  simp [URI.getURIString, UriParts.printed, UriSplit.text]

/-- The host ends at the port or at the slash. -/
theorem takeWhile_isHostChar_portText (digits topic : List Char) :
    (portText digits ++ '/' :: topic).takeWhile isHostChar = [] := by
  unfold portText
  split
  · exact List.takeWhile_cons_of_neg (by decide)
  · exact List.takeWhile_cons_of_neg (by decide)

theorem topicText_slash {topic : List Char} (htopic : ∀ c ∈ topic, isTopicChar c = true) :
    topicText ('/' :: topic) = some topic := by
  have htake : topic.takeWhile isTopicChar = topic := List.takeWhile_eq_self_iff.mpr htopic
  have hdrop : topic.dropWhile isTopicChar = [] := List.dropWhile_eq_nil_iff.mpr htopic
  simp [topicText, afterSlash, htake, hdrop]

/-- The digits end at the slash. -/
theorem portDigits_printed {digits : List Char} (hdigits : ∀ c ∈ digits, isDigit c = true)
    (topic : List Char) :
    portDigits (portText digits ++ '/' :: topic) = digits ∧
      (portText digits ++ '/' :: topic).drop (portText digits).length = '/' :: topic := by
  refine ⟨?_, List.drop_left⟩
  by_cases hnil : digits = []
  · rw [hnil, portText, if_pos rfl]
    rfl
  · have htake : ('/' :: topic).takeWhile isDigit = [] :=
      List.takeWhile_cons_of_neg (by decide)
    rw [(drop_portText hnil hdigits).1, htake, List.append_nil]

/-- The printed form is read as it was written. -/
theorem hostParts_printed (hvalid : parts.Valid) :
    hostParts (parts.host ++ (portText parts.digits ++ '/' :: parts.topic)) = some parts := by
  have hnone := takeWhile_isHostChar_portText parts.digits parts.topic
  obtain ⟨hport, hdrop⟩ := portDigits_printed hvalid.digits parts.topic
  have htake : (parts.host ++ (portText parts.digits ++ '/' :: parts.topic)).takeWhile
      isHostChar = parts.host := by
    rw [List.takeWhile_append_of_pos hvalid.host, hnone, List.append_nil]
  have hrest : (parts.host ++ (portText parts.digits ++ '/' :: parts.topic)).dropWhile
      isHostChar = portText parts.digits ++ '/' :: parts.topic := by
    rw [List.dropWhile_append_of_pos hvalid.host, dropWhile_of_takeWhile_eq_nil hnone]
  unfold hostParts
  simp only [htake, hrest, hport, hdrop, topicText_slash hvalid.topic, Option.map_some]
  exact if_neg hvalid.host_ne

theorem uriParts_printed (hvalid : parts.Valid) : uriParts parts.printed.text = some parts := by
  have hread := (@uriParts_split parts.printed [] hvalid.printed (by simp)).1
  rw [List.append_nil, List.append_nil] at hread
  rw [hread]
  exact hostParts_printed hvalid

end Printed

section RoundTrip

variable {uriString : String} {uri : URI}

/-- An accepted string has been matched, and its port fits. -/
theorem match_of_ofString (hspace : NoSpace uriString.toList)
    (haccepted : URI.ofString uriString = .ok uri) :
    ∃ parts, uriParts uriString.toList = some parts ∧ decimal parts.digits < 2 ^ 31 ∧
      uri = parts.assigned {} := by
  unfold URI.ofString at haccepted
  cases hmatch : uriPattern.fullMatch uriString.toList with
  | none =>
      obtain ⟨what, hrun⟩ := parse_run_of_no_match hmatch {}
      rw [hrun] at haccepted
      cases haccepted
  | some captures =>
      obtain ⟨parts, hparts, hgroups⟩ := uriParts_of_match hspace hmatch
      by_cases hport : decimal parts.digits < 2 ^ 31
      · rw [parse_run_of_match hmatch hgroups hport] at haccepted
        cases haccepted
        exact ⟨parts, hparts, hport, rfl⟩
      · rw [parse_run_of_overflow hmatch hgroups (Nat.not_lt.mp hport)] at haccepted
        cases haccepted

/-- A word without white space is read into valid parts, and printing them
adds no character but the slash. -/
theorem printed_of_uriParts {word : List Char} {parts : UriParts} (hspace : NoSpace word)
    (hparts : uriParts word = some parts) : parts.Valid ∧ NoSpace parts.printed.text := by
  obtain ⟨split, trailing, hvalid, -, hword, hhost, hdigits, htopic, -, -⟩ :=
    exists_split_of_uriParts hparts
  have hmem : ∀ c ∈ parts.printed.text, c ∈ word ∨ c = '/' := by
    intro c hc
    simp only [UriParts.printed, UriSplit.text, ← hhost, ← hdigits, ← htopic, List.mem_append,
      List.mem_singleton] at hc
    rw [hword]
    simp only [UriSplit.text, List.mem_append]
    tauto
  refine ⟨⟨hhost ▸ hvalid.host_ne, hhost ▸ hvalid.host, hdigits ▸ hvalid.digits,
    htopic ▸ hvalid.topic⟩, fun c hc => ?_⟩
  rcases hmem c hc with hc | rfl
  · exact hspace c hc
  · decide

/-- Whatever is accepted is accepted again in its printed form, with the same
fields. -/
theorem ofString_getURIString (uriString : String) (hspace : NoSpace uriString.toList) (uri : URI)
    (haccepted : URI.ofString uriString = .ok uri) : URI.ofString uri.getURIString = .ok uri := by
  obtain ⟨parts, hparts, hport, rfl⟩ := match_of_ofString hspace haccepted
  obtain ⟨hvalid, hnoSpace⟩ := printed_of_uriParts hspace hparts
  have htext := getURIString_assigned parts
  have hsome := isSome_of_split hvalid.printed htext.symm
  obtain ⟨captures, hmatch⟩ := Option.isSome_iff_exists.mp hsome
  obtain ⟨read, hread, hgroups⟩ := uriParts_of_match (htext ▸ hnoSpace) hmatch
  have hsame : read = parts := by
    rw [htext, uriParts_printed hvalid] at hread
    exact (Option.some.inj hread).symm
  rw [hsame] at hgroups
  rw [URI.ofString, parse_run_of_match hmatch hgroups hport]

theorem schemeAndPort_round_trip :
    URI.ofString "kafka://host:0092topic" = .ok ⟨"host:0092", 92, "topic"⟩ ∧
      URI.ofString (URI.getURIString ⟨"host:0092", 92, "topic"⟩) =
        .ok ⟨"host:0092", 92, "topic"⟩ := by
  have haccepted : URI.ofString "kafka://host:0092topic" = .ok ⟨"host:0092", 92, "topic"⟩ := by
    decide +kernel
  exact ⟨haccepted, ofString_getURIString "kafka://host:0092topic" (by decide) _ haccepted⟩

end RoundTrip

end EpicsToKafka
