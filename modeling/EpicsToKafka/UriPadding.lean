/-
White space around a URI.  It is skipped in front of a word and after it, but
the characters of a host and of a scheme may be white space as well, so it
belongs to them where a word has none of its own at that end.
-/
import EpicsToKafka.UriErrors

namespace EpicsToKafka

open Backtracking Backtracking.Pattern

/-- The topic in what follows a host. -/
def restTopic (rest : List Char) : Option (List Char) :=
  topicText (rest.drop (portText (portDigits rest)).length)

/-- The value that parts are parsed to, if their port is an `int`. -/
def UriParts.uri? (parts : UriParts) : Option URI :=
  if decimal parts.digits < 2 ^ 31 then some (parts.assigned {}) else none

section Outcome

variable {uriString : String} {parts : UriParts}

theorem ofString_of_match {captures : Captures Char}
    (hmatch : uriPattern.fullMatch uriString.toList = some captures)
    (hgroups : Groups captures parts) : (URI.ofString uriString).toOption = parts.uri? := by
  unfold URI.ofString UriParts.uri?
  by_cases hport : decimal parts.digits < 2 ^ 31
  · rw [parse_run_of_match hmatch hgroups hport, if_pos hport]
    rfl
  · rw [parse_run_of_overflow hmatch hgroups (Nat.not_lt.mp hport), if_neg hport]
    rfl

theorem ofString_of_no_match (hmatch : uriPattern.fullMatch uriString.toList = none) :
    (URI.ofString uriString).toOption = none := by
  obtain ⟨what, hrun⟩ := parse_run_of_no_match hmatch {}
  rw [URI.ofString, hrun]
  rfl

/-- If a word can be read after all of its leading white space, it is. -/
theorem ofString_of_skipped
    (hparts : uriParts (uriString.toList.dropWhile isSpace) = some parts) :
    (URI.ofString uriString).toOption = parts.uri? := by
  obtain ⟨front, hfront, hfirst⟩ := firstThen_front (uriString.toList.dropWhile isSpace) []
  rw [hparts, Option.map_some] at hfirst
  refine ofString_of_match ?_ (groups_of_front hfront parts)
  rw [fullMatch_eq, uriPattern, firstThen_seq, firstThen_star_one]
  · exact hfirst
  · intro _ _ _ _ _
    exact Option.isSome_iff_exists.mpr ⟨_, hfirst⟩

/-- Otherwise it is read after some of it or not at all. -/
theorem ofString_cases (uriString : String) :
    (∃ leading rest parts, (∀ c ∈ leading, isSpace c = true) ∧
      uriString.toList = leading ++ rest ∧ uriParts rest = some parts ∧
      (URI.ofString uriString).toOption = parts.uri?) ∨
    ((∀ leading rest, (∀ c ∈ leading, isSpace c = true) → uriString.toList = leading ++ rest →
      uriParts rest = none) ∧ (URI.ofString uriString).toOption = none) := by
  cases hmatch : uriPattern.fullMatch uriString.toList with
  | some captures =>
      obtain ⟨leading, rest, parts, hleading, hword, hparts, hgroups⟩ := fullMatch_eq_some hmatch
      exact Or.inl ⟨leading, rest, parts, hleading, hword, hparts,
        ofString_of_match hmatch hgroups⟩
  | none =>
      refine Or.inr ⟨?_, ofString_of_no_match hmatch⟩
      intro leading rest hleading hword
      cases hparts : uriParts rest with
      | none => rfl
      | some parts =>
          have hsome := fullMatch_isSome hleading (Option.isSome_iff_exists.mpr ⟨parts, hparts⟩)
          rw [← hword, hmatch] at hsome
          cases hsome

end Outcome

theorem hostParts_eq {word : List Char} (hne : word.takeWhile isHostChar ≠ []) :
    hostParts word = (restTopic (word.dropWhile isHostChar)).map fun topic =>
      ⟨word.takeWhile isHostChar, portDigits (word.dropWhile isHostChar), topic⟩ :=
  if_neg hne

/-- A word that begins with a character of a host. -/
theorem uriParts_of_host {word : List Char} (hne : word.takeWhile isHostChar ≠ []) :
    uriParts word =
      if "://".toList <+: word.dropWhile isHostChar then
        hostParts ((word.dropWhile isHostChar).drop 3)
      else hostParts word := by
  have hnoSlashes : ¬ "//".toList <+: word := fun h => hne (takeWhile_isHostChar_slash h)
  unfold uriParts
  by_cases hscheme : "://".toList <+: word.dropWhile isHostChar
  · rw [if_pos ⟨hne, hscheme⟩, if_pos hscheme]
  · rw [if_neg fun h => hscheme h.2, if_neg hnoSlashes, if_neg hscheme]

/-- A word that does not begin with one. -/
theorem uriParts_of_no_host {word : List Char} {parts : UriParts}
    (hnone : word.takeWhile isHostChar = []) (hparts : uriParts word = some parts) :
    "//".toList <+: word := by
  unfold uriParts at hparts
  rw [if_neg fun h => h.1 hnone, hostParts_eq_none hnone] at hparts
  split at hparts
  · assumption
  · cases hparts

/-- A rest that begins with slashes is no topic. -/
theorem restTopic_slashes (rest : List Char) : restTopic ("//".toList ++ rest) = none := by
  have hdigits : portDigits ("//".toList ++ rest) = [] := portDigits_of_ne (by simp)
  rw [restTopic, hdigits]
  exact if_neg (by simp [portText, afterSlash, isTopicChar, isDigit, isSpace])

section Leading

variable {spaces word : List Char} (hspaces : ∀ c ∈ spaces, isSpace c = true)

include hspaces

theorem takeWhile_isHostChar_spaces :
    (spaces ++ word).takeWhile isHostChar = spaces ++ word.takeWhile isHostChar :=
  List.takeWhile_append_of_pos fun c hc => isHostChar_of_isSpace (hspaces c hc)

theorem dropWhile_isHostChar_spaces :
    (spaces ++ word).dropWhile isHostChar = word.dropWhile isHostChar :=
  List.dropWhile_append_of_pos fun c hc => isHostChar_of_isSpace (hspaces c hc)

theorem hostParts_spaces (hne : spaces ≠ []) :
    hostParts (spaces ++ word) = (restTopic (word.dropWhile isHostChar)).map fun topic =>
      ⟨spaces ++ word.takeWhile isHostChar, portDigits (word.dropWhile isHostChar), topic⟩ := by
  rw [hostParts_eq, takeWhile_isHostChar_spaces hspaces, dropWhile_isHostChar_spaces hspaces]
  rw [takeWhile_isHostChar_spaces hspaces]
  simp [hne]

/-- White space in front becomes part of a scheme or of a host. -/
theorem uriParts_spaces (hne : spaces ≠ []) :
    uriParts (spaces ++ word) =
      if "://".toList <+: word.dropWhile isHostChar then
        hostParts ((word.dropWhile isHostChar).drop 3)
      else (restTopic (word.dropWhile isHostChar)).map fun topic =>
        ⟨spaces ++ word.takeWhile isHostChar, portDigits (word.dropWhile isHostChar), topic⟩ := by
  rw [uriParts_of_host, dropWhile_isHostChar_spaces hspaces, hostParts_spaces hspaces hne]
  rw [takeWhile_isHostChar_spaces hspaces]
  simp [hne]

/-- However much white space is skipped, port and topic are the same. -/
theorem uriParts_spaces_agree {parts parts' : UriParts} (hparts : uriParts word = some parts)
    (hparts' : uriParts (spaces ++ word) = some parts') :
    parts'.digits = parts.digits ∧ parts'.topic = parts.topic := by
  by_cases hnil : spaces = []
  · rw [hnil, List.nil_append, hparts] at hparts'
    cases hparts'
    exact ⟨rfl, rfl⟩
  · rw [uriParts_spaces hspaces hnil] at hparts'
    by_cases hnone : word.takeWhile isHostChar = []
    · obtain ⟨rest, rfl⟩ := uriParts_of_no_host hnone hparts
      rw [dropWhile_of_takeWhile_eq_nil hnone, if_neg (by simp), restTopic_slashes] at hparts'
      cases hparts'
    · rw [uriParts_of_host hnone] at hparts
      split at hparts'
      · rename_i hscheme
        rw [if_pos hscheme, hparts'] at hparts
        cases hparts
        exact ⟨rfl, rfl⟩
      · rename_i hscheme
        rw [if_neg hscheme, hostParts_eq hnone] at hparts
        obtain ⟨topic, htopic, rfl⟩ := Option.map_eq_some_iff.mp hparts
        obtain ⟨topic', htopic', rfl⟩ := Option.map_eq_some_iff.mp hparts'
        exact ⟨rfl, Option.some.inj (htopic'.symm.trans htopic)⟩

end Leading

/-- The word is cut into a beginning and a host that goes on to its end. -/
def EndsInHost (word : List Char) : Prop :=
  ∃ front host, FrontOk front ∧ (∀ c ∈ host, isHostChar c = true) ∧ word = front ++ host

theorem hostParts_of_host {host : List Char} (hne : host ≠ [])
    (hhost : ∀ c ∈ host, isHostChar c = true) : hostParts host = some ⟨host, [], []⟩ := by
  have htake : host.takeWhile isHostChar = host := List.takeWhile_eq_self_iff.mpr hhost
  have hdrop : host.dropWhile isHostChar = [] := List.dropWhile_eq_nil_iff.mpr hhost
  rw [hostParts_eq (by rwa [htake]), htake, hdrop]
  rfl

/-- Such a host is read to the end. -/
theorem uriParts_of_endsInHost {front host : List Char} (hfront : FrontOk front)
    (hne : host ≠ []) (hhost : ∀ c ∈ host, isHostChar c = true) :
    uriParts (front ++ host) = some ⟨host, [], []⟩ := by
  have hparts := hostParts_of_host hne hhost
  rw [(front_read hfront (by rw [hparts]; rfl)).2, hparts]

/-- A beginning without a host is not read. -/
theorem uriParts_of_front {front : List Char} (hfront : FrontOk front) : uriParts front = none := by
  by_cases hnil : front = []
  · rw [hnil]
    rfl
  · have hread := (front_read_of_ne_nil hfront hnil []).2
    rwa [List.append_nil] at hread

theorem not_isSpace_of_isDigit {c : Char} (hdigit : isDigit c = true) : isSpace c = false :=
  not_isSpace_of_isTopicChar (isTopicChar_of_isDigit hdigit)

section Trailing

variable {spaces : List Char} (hspaces : ∀ c ∈ spaces, isSpace c = true)

include hspaces

theorem takeWhile_append_spaces {accepts : Char → Bool}
    (haccepts : ∀ c, accepts c = true → isSpace c = false) (word : List Char) :
    (word ++ spaces).takeWhile accepts = word.takeWhile accepts := by
  have hnone : spaces.takeWhile accepts = [] := by
    cases spaces with
    | nil => rfl
    | cons c spaces =>
        refine List.takeWhile_cons_of_neg fun hc => ?_
        have hfalse := haccepts c hc
        rw [hspaces c List.mem_cons_self] at hfalse
        cases hfalse
  rw [List.takeWhile_append, hnone, List.append_nil]
  split
  · rename_i hlength
    have hbegins : word.takeWhile accepts <+: word := List.takeWhile_prefix accepts
    exact (hbegins.eq_of_length hlength).symm
  · rfl

/-- White space does not go on what was begun before it. -/
theorem begins_append_spaces {text : List Char} (htext : NoSpace text) (word : List Char) :
    text <+: word ++ spaces ↔ text <+: word := by
  constructor
  · rintro ⟨rest, hrest⟩
    rcases List.append_eq_append_iff.mp hrest with ⟨more, hword, -⟩ | ⟨more, hmore, hspace⟩
    · exact ⟨more, hword.symm⟩
    · have hnil : more = [] := by
        refine htext.eq_nil (fun c hc => ?_) fun c hc => hspaces c ?_
        · rw [hmore]
          exact List.mem_append_right _ hc
        · rw [hspace]
          exact List.mem_append_left _ hc
      exact ⟨[], by rw [List.append_nil, hmore, hnil, List.append_nil]⟩
  · exact fun hbegins => hbegins.trans ⟨spaces, rfl⟩

theorem portDigits_append_spaces (rest : List Char) :
    portDigits (rest ++ spaces) = portDigits rest := by
  by_cases hcolon : [':'] <+: rest
  · obtain ⟨digits, rfl⟩ := hcolon
    exact takeWhile_append_spaces hspaces (fun _ => not_isSpace_of_isDigit) digits
  · rw [portDigits_of_ne hcolon, portDigits_of_ne]
    rwa [begins_append_spaces hspaces (by decide)]

theorem afterSlash_append_spaces (word : List Char) :
    afterSlash (word ++ spaces) = afterSlash word ++ spaces := by
  by_cases hslash : ['/'] <+: word
  · obtain ⟨rest, rfl⟩ := hslash
    rfl
  · rw [afterSlash_of_ne hslash, afterSlash_of_ne]
    rwa [begins_append_spaces hspaces (by decide)]

/-- A topic may be followed by any white space. -/
theorem topicText_append_spaces (word : List Char) :
    topicText (word ++ spaces) = topicText word := by
  have hall : ((afterSlash word ++ spaces).dropWhile isTopicChar).all isSpace =
      ((afterSlash word).dropWhile isTopicChar).all isSpace := by
    have hspace : spaces.all isSpace = true := List.all_eq_true.mpr hspaces
    have hdrop : (spaces.dropWhile isTopicChar).all isSpace = true :=
      List.all_eq_true.mpr fun c hc => hspaces c ((List.dropWhile_sublist _).subset hc)
    rw [List.dropWhile_append]
    split
    · rename_i hnil
      rw [List.isEmpty_iff.mp hnil, hdrop]
      rfl
    · rw [List.all_append, hspace, Bool.and_true]
  unfold topicText
  rw [afterSlash_append_spaces hspaces, hall,
    takeWhile_append_spaces hspaces fun _ => not_isSpace_of_isTopicChar]

theorem restTopic_append_spaces (rest : List Char) :
    restTopic (rest ++ spaces) = restTopic rest := by
  have hlength : (portText (portDigits rest)).length ≤ rest.length := by
    have hsplit := congrArg List.length (portText_append rest)
    rw [List.length_append] at hsplit
    omega
  rw [restTopic, restTopic, portDigits_append_spaces hspaces, List.drop_append_of_le_length hlength,
    topicText_append_spaces hspaces]

/-- The host ends where it ended before if something stands behind it. -/
theorem hostParts_append_spaces {word : List Char} (hrest : word.dropWhile isHostChar ≠ []) :
    hostParts (word ++ spaces) = hostParts word ∧
      (word ++ spaces).takeWhile isHostChar = word.takeWhile isHostChar ∧
      (word ++ spaces).dropWhile isHostChar = word.dropWhile isHostChar ++ spaces := by
  have hdrop : (word ++ spaces).dropWhile isHostChar = word.dropWhile isHostChar ++ spaces := by
    rw [List.dropWhile_append, if_neg (by simpa using hrest)]
  have htake : (word ++ spaces).takeWhile isHostChar = word.takeWhile isHostChar := by
    have hsplit := List.takeWhile_append_dropWhile (p := isHostChar) (l := word ++ spaces)
    rw [hdrop, ← List.append_assoc] at hsplit
    have hword := List.append_cancel_right hsplit
    refine List.append_cancel_right (hword.trans ?_)
    exact List.takeWhile_append_dropWhile.symm
  refine ⟨?_, htake, hdrop⟩
  by_cases hnone : word.takeWhile isHostChar = []
  · rw [hostParts_eq_none hnone, hostParts_eq_none (htake.trans hnone)]
  · rw [hostParts_eq hnone, hostParts_eq (by rwa [htake]), htake, hdrop,
      restTopic_append_spaces hspaces, portDigits_append_spaces hspaces]

theorem hostParts_append_of_not_endsInHost {front word : List Char} (hfront : FrontOk front)
    (hends : ¬ EndsInHost (front ++ word)) : hostParts (word ++ spaces) = hostParts word := by
  refine (hostParts_append_spaces hspaces fun hnil => hends ?_).1
  exact ⟨front, word, hfront, List.dropWhile_eq_nil_iff.mp hnil, rfl⟩

/-- White space behind a word that does not end in its host makes no
difference. -/
theorem uriParts_append_spaces {word : List Char} (hends : ¬ EndsInHost word) :
    uriParts (word ++ spaces) = uriParts word := by
  have hrest : word.dropWhile isHostChar ≠ [] := fun hnil =>
    hends ⟨[], word, Or.inl rfl, List.dropWhile_eq_nil_iff.mp hnil, rfl⟩
  obtain ⟨hhost, htake, hdrop⟩ := hostParts_append_spaces hspaces hrest
  by_cases hscheme : HasScheme word
  · obtain ⟨hne, rest, hrest⟩ := hscheme
    have hfront : FrontOk (word.takeWhile isHostChar ++ "://".toList) :=
      Or.inr (Or.inr ⟨_, hne, fun c hc => List.mem_takeWhile_imp hc, rfl⟩)
    have hword : word = (word.takeWhile isHostChar ++ "://".toList) ++ rest := by
      rw [List.append_assoc, hrest, List.takeWhile_append_dropWhile]
    have hread := hostParts_append_of_not_endsInHost hspaces hfront (hword ▸ hends)
    rw [hword, List.append_assoc _ rest, (front_read_of_ne_nil hfront (by simp) _).2,
      (front_read_of_ne_nil hfront (by simp) _).2, hread]
  · by_cases hslashes : "//".toList <+: word
    · obtain ⟨rest, rfl⟩ := hslashes
      have hfront : FrontOk "//".toList := Or.inr (Or.inl rfl)
      have hread := hostParts_append_of_not_endsInHost hspaces hfront hends
      rw [List.append_assoc, (front_read_of_ne_nil hfront (by decide) _).2,
        (front_read_of_ne_nil hfront (by decide) _).2, hread]
    · have hscheme' : ¬ HasScheme (word ++ spaces) := by
        unfold HasScheme
        rwa [htake, hdrop, begins_append_spaces hspaces (by decide)]
      have hslashes' : ¬ "//".toList <+: word ++ spaces := by
        rwa [begins_append_spaces hspaces (by decide)]
      rw [uriParts, uriParts, if_neg hscheme, if_neg hscheme', if_neg hslashes,
        if_neg hslashes', hhost]

theorem lastPort_append_spaces (word : List Char) : lastPort (word ++ spaces) = lastPort word := by
  have hnoColon := colon_notMem_of_isSpace hspaces
  induction word with
  | nil => exact lastPort_eq_nil hnoColon
  | cons c rest ih =>
      have hmem : ':' ∈ rest ++ spaces ↔ ':' ∈ rest := by
        rw [List.mem_append, or_iff_left hnoColon]
      rw [List.cons_append, lastPort, lastPort, ih]
      simp only [hmem]
      rw [← List.cons_append, portDigits_append_spaces hspaces]

theorem hostParts_append_isSome {word : List Char} (hne : word ≠ []) :
    (hostParts (word ++ spaces)).isSome ↔ (hostParts word).isSome := by
  by_cases hrest : word.dropWhile isHostChar = []
  · have hhost := List.dropWhile_eq_nil_iff.mp hrest
    have hlonger : ∀ c ∈ word ++ spaces, isHostChar c = true := by
      intro c hc
      rcases List.mem_append.mp hc with hword | hspace
      · exact hhost c hword
      · exact isHostChar_of_isSpace (hspaces c hspace)
    rw [hostParts_of_host hne hhost, hostParts_of_host (by simp [hne]) hlonger]
    exact Iff.rfl
  · rw [(hostParts_append_spaces hspaces hrest).1]

end Trailing

/-- Neither the first nor the last character is white space. -/
structure Trimmed (word : List Char) : Prop where
  ne_nil : word ≠ []
  head : ∀ c ∈ word.head?, isSpace c = false
  last : ∀ c ∈ word.getLast?, isSpace c = false

theorem Trimmed.eq_nil {word front trailing : List Char} (htrimmed : Trimmed word)
    (htrailing : ∀ c ∈ trailing, isSpace c = true) (hword : word = front ++ trailing) :
    trailing = [] := by
  by_contra hne
  have hlast : word.getLast? = some (trailing.getLast hne) := by
    rw [hword, List.getLast?_append_of_ne_nil _ hne, List.getLast?_eq_some_getLast hne]
  have hfalse := htrimmed.last _ hlast
  rw [htrailing _ (List.getLast_mem hne)] at hfalse
  cases hfalse

/-- A word that can be read only after something is put in front of it: it
begins with the colon of a scheme, or with what follows a host. -/
def LateWord (word : List Char) : Prop :=
  (∃ tail, word = "://".toList ++ tail ∧ (hostParts tail).isSome) ∨
    (word.takeWhile isHostChar = [] ∧ restReads word)

/-- The same by the grammar: a URI whose scheme is missing before its colon,
or what follows the host in one. -/
def BeginsLate (word : List Char) : Prop :=
  ∃ split : UriSplit, split.Valid ∧ split.front = [] ∧
    (word = "://".toList ++ split.text ∨
      (word = portText split.digits ++ (split.slash ++ split.topic) ∧
        (split.digits ≠ [] ∨ split.slash ≠ [])))

section Late

variable {spaces word : List Char}

theorem restReads_iff {rest : List Char} : restReads rest ↔ (restTopic rest).isSome = true :=
  Iff.rfl

theorem not_restReads_colon (rest : List Char) : ¬ restReads ("://".toList ++ rest) := by
  have hnone : restTopic ("://".toList ++ rest) = none := topicText_colon _
  rw [restReads_iff, hnone]
  simp

/-- What can be read as it stands does not begin late. -/
theorem not_lateWord_of_uriParts {parts : UriParts} (hparts : uriParts word = some parts) :
    ¬ LateWord word := by
  rintro (⟨tail, rfl, -⟩ | ⟨hnone, hreads⟩)
  · have hnone : ("://".toList ++ tail).takeWhile isHostChar = [] :=
      List.takeWhile_cons_of_neg (by decide)
    obtain ⟨rest, hrest⟩ := uriParts_of_no_host hnone hparts
    cases hrest
  · obtain ⟨rest, rfl⟩ := uriParts_of_no_host hnone hparts
    rw [restReads_iff, restTopic_slashes] at hreads
    cases hreads

/-- What white space in front makes readable. -/
theorem uriParts_spaces_isSome (hspaces : ∀ c ∈ spaces, isSpace c = true) (hne : spaces ≠ [])
    (hparts : uriParts word = none) :
    (uriParts (spaces ++ word)).isSome ↔ LateWord word := by
  rw [uriParts_spaces hspaces hne]
  by_cases hnone : word.takeWhile isHostChar = []
  · rw [dropWhile_of_takeWhile_eq_nil hnone]
    by_cases hcolon : "://".toList <+: word
    · obtain ⟨tail, rfl⟩ := hcolon
      have hnot := not_restReads_colon tail
      rw [if_pos ⟨tail, rfl⟩]
      constructor
      · exact fun hsome => Or.inl ⟨tail, rfl, hsome⟩
      · rintro (⟨tail', heq, hsome⟩ | ⟨-, hreads⟩)
        · rw [← List.append_cancel_left heq] at hsome
          exact hsome
        · exact absurd hreads hnot
    · rw [if_neg hcolon, Option.isSome_map, ← restReads_iff]
      constructor
      · exact fun hreads => Or.inr ⟨hnone, hreads⟩
      · rintro (⟨tail, rfl, -⟩ | ⟨-, hreads⟩)
        · exact absurd ⟨tail, rfl⟩ hcolon
        · exact hreads
  · refine iff_of_false ?_ ?_
    · rw [uriParts_of_host hnone] at hparts
      split
      · rename_i hscheme
        rw [if_pos hscheme] at hparts
        simp [hparts]
      · rename_i hscheme
        rw [if_neg hscheme, hostParts_eq hnone, Option.map_eq_none_iff] at hparts
        simp [hparts]
    · rintro (⟨tail, rfl, -⟩ | ⟨hempty, -⟩)
      · exact hnone (List.takeWhile_cons_of_neg (by decide))
      · exact hnone hempty

theorem beginsLate_of_scheme {tail : List Char} (htrimmed : Trimmed ("://".toList ++ tail))
    (hsome : (hostParts tail).isSome) : BeginsLate ("://".toList ++ tail) := by
  obtain ⟨hfront, hread⟩ := @front_read [] tail (Or.inl rfl) hsome
  rw [List.nil_append] at hfront hread
  obtain ⟨parts, hparts⟩ := Option.isSome_iff_exists.mp hsome
  obtain ⟨split, trailing, hvalid, htrailing, htail, -⟩ :=
    exists_split_of_uriParts (hread.trans hparts)
  have hnil : trailing = [] := htrimmed.eq_nil htrailing (by rw [htail, List.append_assoc])
  rw [hnil, List.append_nil] at htail
  refine ⟨split, hvalid, ?_, Or.inl (by rw [htail])⟩
  rw [hvalid.front_eq, ← htail, hfront]

/-- Neither a port nor a slash would leave a topic, which could be a host. -/
theorem beginsLate_of_rest (htrimmed : Trimmed word) (hnone : word.takeWhile isHostChar = [])
    (hreads : restReads word) : BeginsLate word := by
  obtain ⟨topic, htopic⟩ := Option.isSome_iff_exists.mp hreads
  obtain ⟨slash, trailing, hslash, hchars, htrailing, hrest⟩ := rest_eq_of_topicText htopic
  have hword := hrest.trans (List.append_assoc _ _ _).symm
  rw [htrimmed.eq_nil htrailing hword, List.append_nil] at hrest
  have hvalid : UriSplit.Valid ⟨[], ['h'], portDigits word, slash, topic⟩ :=
    ⟨Or.inl rfl, by simp, by simp [isHostChar], portDigits_isDigit, hslash, hchars⟩
  refine ⟨_, hvalid, rfl, Or.inr ⟨hrest, ?_⟩⟩
  by_contra hneither
  obtain ⟨hdigits, hempty⟩ := not_or.mp hneither
  have hnoDigits : portDigits word = [] := not_not.mp hdigits
  have hnoSlash : slash = [] := not_not.mp hempty
  rw [hnoDigits, hnoSlash, portText, if_pos rfl, List.nil_append, List.nil_append] at hrest
  have htake : topic.takeWhile isHostChar = topic :=
    List.takeWhile_eq_self_iff.mpr fun c hc => isHostChar_of_isTopicChar (hchars c hc)
  rw [hrest, htake] at hnone
  exact htrimmed.ne_nil (hrest.trans hnone)

theorem lateWord_of_beginsLate (hbegins : BeginsLate word) : LateWord word := by
  obtain ⟨split, hvalid, hfront, rfl | ⟨rfl, hpart⟩⟩ := hbegins
  · have hsome := @hostParts_split split [] hvalid (by simp)
    rw [List.append_nil] at hsome
    refine Or.inl ⟨split.text, rfl, ?_⟩
    rwa [UriSplit.text, hfront, List.nil_append]
  · have hreads := @restReads_split split [] hvalid (by simp)
    rw [List.append_nil] at hreads
    refine Or.inr ⟨?_, hreads⟩
    by_cases hdigits : split.digits = []
    · rw [hvalid.slash.resolve_left (hpart.resolve_left (not_not.mpr hdigits)), hdigits]
      exact List.takeWhile_cons_of_neg (by decide)
    · rw [portText, if_neg hdigits]
      exact List.takeWhile_cons_of_neg (by decide)

theorem lateWord_iff (htrimmed : Trimmed word) : LateWord word ↔ BeginsLate word := by
  constructor
  · rintro (⟨tail, rfl, hsome⟩ | ⟨hnone, hreads⟩)
    · exact beginsLate_of_scheme htrimmed hsome
    · exact beginsLate_of_rest htrimmed hnone hreads
  · exact lateWord_of_beginsLate

end Late

section Padding

variable {before after word : List Char}

/-- Behind a trimmed word white space only matters for a lonely `://`. -/
theorem lateWord_append_iff (htrimmed : Trimmed word) (hafter : ∀ c ∈ after, isSpace c = true) :
    LateWord (word ++ after) ↔ LateWord word ∨ (after ≠ [] ∧ word = "://".toList) := by
  have hreads : restReads (word ++ after) ↔ restReads word := by
    rw [restReads_iff, restReads_iff, restTopic_append_spaces hafter]
  have htake : (word ++ after).takeWhile isHostChar = [] ↔ word.takeWhile isHostChar = [] := by
    cases hword : word with
    | nil => exact absurd hword htrimmed.ne_nil
    | cons c rest => by_cases hc : isHostChar c = true <;> simp [hc]
  constructor
  · rintro (⟨tail, htail, hsome⟩ | ⟨hnone, hrest⟩)
    · have hcolon : "://".toList <+: word :=
        (begins_append_spaces hafter (by decide) word).mp ⟨tail, htail.symm⟩
      obtain ⟨rest, rfl⟩ := hcolon
      rw [List.append_assoc] at htail
      have hcut := List.append_cancel_left htail
      by_cases hnil : rest = []
      · refine Or.inr ⟨?_, by rw [hnil, List.append_nil]⟩
        rintro rfl
        rw [hnil] at hcut
        rw [← hcut] at hsome
        cases hsome
      · rw [← hcut, hostParts_append_isSome hafter hnil] at hsome
        exact Or.inl (Or.inl ⟨rest, rfl, hsome⟩)
    · exact Or.inl (Or.inr ⟨htake.mp hnone, hreads.mp hrest⟩)
  · rintro ((⟨tail, rfl, hsome⟩ | ⟨hnone, hrest⟩) | ⟨hne, rfl⟩)
    · refine Or.inl ⟨tail ++ after, List.append_assoc _ _ _, ?_⟩
      rw [hostParts_append_isSome hafter]
      · exact hsome
      · rintro rfl
        cases hsome
    · exact Or.inr ⟨htake.mpr hnone, hreads.mpr hrest⟩
    · refine Or.inl ⟨after, rfl, ?_⟩
      rw [hostParts_of_host hne fun c hc => isHostChar_of_isSpace (hafter c hc)]
      rfl

/-- Only white space in front of a trimmed word can be skipped. -/
theorem exists_kept {leading rest : List Char} (htrimmed : Trimmed word)
    (hleading : ∀ c ∈ leading, isSpace c = true)
    (hsplit : before ++ (word ++ after) = leading ++ rest) :
    ∃ kept, before = leading ++ kept ∧ rest = kept ++ (word ++ after) := by
  rcases List.append_eq_append_iff.mp hsplit with ⟨more, hmore, hword⟩ | ⟨kept, hbefore, hrest⟩
  · cases more with
    | nil =>
        rw [List.append_nil] at hmore
        exact ⟨[], by rw [hmore, List.append_nil], hword.symm⟩
    | cons c more =>
        obtain ⟨d, tail, rfl⟩ := List.exists_cons_of_ne_nil htrimmed.ne_nil
        rw [List.cons_append, List.cons_append, List.cons.injEq] at hword
        have hfalse := htrimmed.head d rfl
        rw [hword.1, hleading c (by simp [hmore])] at hfalse
        cases hfalse
  · exact ⟨kept, hbefore, hrest⟩

theorem dropWhile_isSpace_padded (htrimmed : Trimmed word)
    (hbefore : ∀ c ∈ before, isSpace c = true) :
    (before ++ (word ++ after)).dropWhile isSpace = word ++ after := by
  obtain ⟨c, rest, rfl⟩ := List.exists_cons_of_ne_nil htrimmed.ne_nil
  have hhead : ¬ isSpace c = true := by simp [htrimmed.head c rfl]
  rw [List.dropWhile_append_of_pos hbefore, List.cons_append, List.dropWhile_cons_of_neg hhead]

/-- A word that cannot be read is accepted with white space in front of it if
it begins late and its port fits. -/
theorem ofString_padded_of_none {uriString : String} (htrimmed : Trimmed word)
    (hbefore : ∀ c ∈ before, isSpace c = true) (hafter : ∀ c ∈ after, isSpace c = true)
    (hword : uriString.toList = before ++ (word ++ after))
    (hparts : uriParts (word ++ after) = none) :
    (URI.ofString uriString).toOption = none ↔
      ¬ (before ≠ [] ∧ LateWord (word ++ after) ∧ decimal (lastPort word) < 2 ^ 31) := by
  rcases ofString_cases uriString with
    ⟨leading, rest, parts, hleading, hsplit, hread, houtcome⟩ | ⟨hnone, houtcome⟩
  · obtain ⟨kept, hkept, rfl⟩ := exists_kept htrimmed hleading (hword.symm.trans hsplit)
    have hspaces : ∀ c ∈ kept, isSpace c = true := fun c hc =>
      hbefore c (hkept ▸ List.mem_append_right _ hc)
    have hne : kept ≠ [] := by
      rintro rfl
      rw [List.nil_append, hparts] at hread
      cases hread
    have hlate := (uriParts_spaces_isSome hspaces hne hparts).mp (by rw [hread]; rfl)
    have hdigits : parts.digits = lastPort word := by
      rw [← lastPort_of_uriParts hleading hread, ← hsplit, hword,
        lastPort_append (colon_notMem_of_isSpace hbefore), lastPort_append_spaces hafter]
    have hfront : before ≠ [] := by
      rw [hkept]
      simp [hne]
    rw [houtcome, UriParts.uri?, hdigits]
    simp [hfront, hlate]
  · refine iff_of_true houtcome ?_
    rintro ⟨hne, hlate, -⟩
    have hsome := (uriParts_spaces_isSome hbefore hne hparts).mpr hlate
    have hunread : uriParts (before ++ (word ++ after)) = none := hnone [] _ (by simp) hword
    rw [hunread] at hsome
    cases hsome

/-- White space that is taken for a part of the URI: behind a word that ends
in its host, in front of one that begins late, or both around a lonely
`://`. -/
def PaddingRead (before word after : List Char) : Prop :=
  (after ≠ [] ∧ EndsInHost word) ∨
    (before ≠ [] ∧ BeginsLate word ∧ decimal (lastPort word) < 2 ^ 31) ∨
    (before ≠ [] ∧ after ≠ [] ∧ word = "://".toList)

/-- A host that goes on to the end of the word takes the white space behind
it. -/
theorem ofString_padded_ne {uriString padded : String} (htrimmed : Trimmed uriString.toList)
    (hbefore : ∀ c ∈ before, isSpace c = true) (hafter : ∀ c ∈ after, isSpace c = true)
    (hpadded : padded.toList = before ++ (uriString.toList ++ after)) (hne : after ≠ [])
    (hends : EndsInHost uriString.toList) :
    (URI.ofString padded).toOption ≠ (URI.ofString uriString).toOption := by
  obtain ⟨front, host, hfront, hhost, hword⟩ := hends
  have hlonger : ∀ c ∈ host ++ after, isHostChar c = true := by
    intro c hc
    rcases List.mem_append.mp hc with hin | hspace
    · exact hhost c hin
    · exact isHostChar_of_isSpace (hafter c hspace)
  have hread := uriParts_of_endsInHost hfront (show host ++ after ≠ [] by simp [hne]) hlonger
  rw [← List.append_assoc, ← hword] at hread
  rw [ofString_of_skipped (by rw [hpadded, dropWhile_isSpace_padded htrimmed hbefore, hread])]
  have hself := @dropWhile_isSpace_padded [] [] _ htrimmed (by simp)
  rw [List.nil_append, List.append_nil] at hself
  by_cases hnil : host = []
  · have hnone : uriParts (uriString.toList ++ []) = none := by
      rw [List.append_nil, hword, hnil, List.append_nil]
      exact uriParts_of_front hfront
    rw [(@ofString_padded_of_none [] [] _ uriString htrimmed (by simp) (by simp)
      (by simp) hnone).mpr (by simp)]
    simp [UriParts.uri?, decimal]
  · have hshort := uriParts_of_endsInHost hfront hnil hhost
    rw [← hword] at hshort
    rw [ofString_of_skipped (by rw [hself, hshort])]
    intro hsame
    simp [UriParts.uri?, decimal, UriParts.assigned, portText, hne] at hsame

/-- White space that is taken for no part of the URI makes no difference. -/
theorem ofString_padded_eq {uriString padded : String} (htrimmed : Trimmed uriString.toList)
    (hbefore : ∀ c ∈ before, isSpace c = true) (hafter : ∀ c ∈ after, isSpace c = true)
    (hpadded : padded.toList = before ++ (uriString.toList ++ after))
    (hends : ¬ (after ≠ [] ∧ EndsInHost uriString.toList)) :
    (URI.ofString padded).toOption = (URI.ofString uriString).toOption ↔
      ¬ PaddingRead before uriString.toList after := by
  have hsame : uriParts (uriString.toList ++ after) = uriParts uriString.toList := by
    by_cases hnil : after = []
    · rw [hnil, List.append_nil]
    · exact uriParts_append_spaces hafter fun hhost => hends ⟨hnil, hhost⟩
  have hself := @dropWhile_isSpace_padded [] [] _ htrimmed (by simp)
  rw [List.nil_append, List.append_nil] at hself
  cases hparts : uriParts uriString.toList with
  | some parts =>
      rw [hparts] at hsame
      rw [ofString_of_skipped (by rw [hpadded, dropWhile_isSpace_padded htrimmed hbefore, hsame]),
        ofString_of_skipped (by rw [hself, hparts])]
      refine iff_of_true rfl ?_
      have hnotLate := not_lateWord_of_uriParts hparts
      rintro (hhost | ⟨-, hbegins, -⟩ | ⟨-, -, hcolon⟩)
      · exact hends hhost
      · exact hnotLate ((lateWord_iff htrimmed).mpr hbegins)
      · rw [hcolon] at hparts
        cases hparts
  | none =>
      have hnone : (URI.ofString uriString).toOption = none :=
        (@ofString_padded_of_none [] [] _ uriString htrimmed (by simp) (by simp) (by simp)
          (by rw [List.append_nil, hparts])).mpr (by simp)
      rw [hnone, ofString_padded_of_none htrimmed hbefore hafter hpadded (hsame.trans hparts),
        lateWord_append_iff htrimmed hafter, lateWord_iff htrimmed, PaddingRead, not_iff_not]
      constructor
      · rintro ⟨hne, hbegins | ⟨hne', hcolon⟩, hport⟩
        · exact Or.inr (Or.inl ⟨hne, hbegins, hport⟩)
        · exact Or.inr (Or.inr ⟨hne, hne', hcolon⟩)
      · rintro (hhost | ⟨hne, hbegins, hport⟩ | ⟨hne, hne', hcolon⟩)
        · exact absurd hhost hends
        · exact ⟨hne, Or.inl hbegins, hport⟩
        · refine ⟨hne, Or.inr ⟨hne', hcolon⟩, ?_⟩
          rw [hcolon]
          decide

/-- White space alone is a host. -/
theorem ofString_spaces {uriString : String} (hspaces : ∀ c ∈ uriString.toList, isSpace c = true) :
    (URI.ofString uriString).toOption = none ↔ uriString = "" := by
  constructor
  · intro hnone
    by_contra hne
    have hnil : uriString.toList ≠ [] := fun hnil => hne (String.toList_eq_nil_iff.mp hnil)
    have hread := hostParts_of_host hnil fun c hc => isHostChar_of_isSpace (hspaces c hc)
    rcases ofString_cases uriString with
      ⟨leading, rest, parts, hleading, hsplit, hparts, houtcome⟩ | ⟨hunread, -⟩
    · have hdigits := lastPort_of_uriParts hleading hparts
      rw [← hsplit, lastPort_eq_nil (colon_notMem_of_isSpace hspaces)] at hdigits
      rw [houtcome, UriParts.uri?, ← hdigits] at hnone
      cases hnone
    · have hparts := (@front_read [] _ (Or.inl rfl) (by rw [hread]; rfl)).2
      have hunparsed : uriParts uriString.toList = none := hunread [] _ (by simp) rfl
      rw [List.nil_append, hread, hunparsed] at hparts
      cases hparts
  · rintro rfl
    exact ofString_of_no_match (by decide +kernel)

/-- White space around a URI makes no difference exactly if none of it is
taken for a part of the URI; and white space alone is accepted unless there is
none. -/
theorem padding_irrelevant_iff (before uriString after : String)
    (hbefore : ∀ c ∈ before.toList, isSpace c = true)
    (hafter : ∀ c ∈ after.toList, isSpace c = true) (htrimmed : Trimmed uriString.toList) :
    ((URI.ofString (before ++ uriString ++ after)).toOption =
        (URI.ofString uriString).toOption ↔
      ¬ PaddingRead before.toList uriString.toList after.toList) ∧
    ((URI.ofString before).toOption = none ↔ before = "") := by
  refine ⟨?_, ofString_spaces hbefore⟩
  have hpadded : (before ++ uriString ++ after).toList =
      before.toList ++ (uriString.toList ++ after.toList) := by
    rw [String.toList_append, String.toList_append, List.append_assoc]
  by_cases hends : after.toList ≠ [] ∧ EndsInHost uriString.toList
  · exact iff_of_false (ofString_padded_ne htrimmed hbefore hafter hpadded hends.1 hends.2)
      (not_not.mpr (Or.inl hends))
  · exact ofString_padded_eq htrimmed hbefore hafter hpadded hends

/-- White space around a host, a port and a topic. -/
theorem paddedHostPort_same :
    (URI.ofString "  //host:9092/topic ").toOption =
      (URI.ofString "//host:9092/topic").toOption := by
  have htrimmed : Trimmed "//host:9092/topic".toList :=
    ⟨by decide, by simp [isSpace], by simp [isSpace]⟩
  have hread : uriParts "//host:9092/topic".toList =
      some ⟨"host".toList, "9092".toList, "topic".toList⟩ := by
    decide +kernel
  refine (padding_irrelevant_iff "  " "//host:9092/topic" " " (List.all_eq_true.mp rfl)
    (List.all_eq_true.mp rfl) htrimmed).1.mpr ?_
  rintro (⟨-, hhost⟩ | ⟨-, hbegins, -⟩ | ⟨-, -, hcolon⟩)
  · obtain ⟨front, host, hfront, hchars, hword⟩ := hhost
    by_cases hnil : host = []
    · rw [hword, hnil, List.append_nil, uriParts_of_front hfront] at hread
      cases hread
    · rw [hword, uriParts_of_endsInHost hfront hnil hchars, Option.some.injEq,
        UriParts.mk.injEq] at hread
      exact absurd hread.2.1 (by decide)
  · exact not_lateWord_of_uriParts hread ((lateWord_iff htrimmed).mpr hbegins)
  · exact absurd hcolon (by decide)

/-- The blank behind the host becomes a part of it, and a blank alone is a
host. -/
theorem paddedHost_differs :
    (URI.ofString ("" ++ "//broker" ++ " ")).toOption ≠ (URI.ofString "//broker").toOption ∧
      (URI.ofString " ").toOption = some ⟨" ", 0, ""⟩ := by
  decide +kernel

end Padding

end EpicsToKafka
