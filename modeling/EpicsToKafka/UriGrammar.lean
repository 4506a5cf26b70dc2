/-
What the regular expression of `URI::parse` matches, and how.  For every word
the backtracking search comes down to four greedy steps, written here as
functions on the word; the grammar that the expression stands for follows from
them.
-/
import EpicsToKafka.GreedyMatching
import EpicsToKafka.Uri
import Mathlib.Data.List.TakeWhile

namespace EpicsToKafka

open Backtracking Backtracking.Pattern

variable {β : Type}

/-- The word after an optional slash. -/
def afterSlash : List Char → List Char
  | '/' :: rest => rest
  | word => word

/-- The topic, if only white space follows it. -/
def topicText (word : List Char) : Option (List Char) :=
  if ((afterSlash word).dropWhile isTopicChar).all isSpace then
    some ((afterSlash word).takeWhile isTopicChar)
  else none

/-- The digits after a colon. -/
def portDigits : List Char → List Char
  | ':' :: rest => rest.takeWhile isDigit
  | _ => []

/-- A port with its colon, which is there only with digits. -/
def portText (digits : List Char) : List Char :=
  if digits = [] then [] else ':' :: digits

structure UriParts where
  host : List Char
  digits : List Char
  topic : List Char
deriving DecidableEq

/-- The word from the host on. -/
def hostParts (word : List Char) : Option UriParts :=
  let rest := word.dropWhile isHostChar
  if word.takeWhile isHostChar = [] then none
  else (topicText (rest.drop (portText (portDigits rest)).length)).map fun topic =>
    ⟨word.takeWhile isHostChar, portDigits rest, topic⟩

/-- The word begins with a scheme, a colon and two slashes. -/
def HasScheme (word : List Char) : Prop :=
  word.takeWhile isHostChar ≠ [] ∧ "://".toList <+: word.dropWhile isHostChar

instance (word : List Char) : Decidable (HasScheme word) :=
  inferInstanceAs (Decidable (_ ∧ _))

/-- The word from the scheme on. -/
def uriParts (word : List Char) : Option UriParts :=
  if HasScheme word then hostParts ((word.dropWhile isHostChar).drop 3)
  else if "//".toList <+: word then hostParts (word.drop 2)
  else hostParts word

theorem not_isSpace_of_isTopicChar {c : Char} (htopic : isTopicChar c = true) :
    isSpace c = false := by
  simp only [isTopicChar, isDigit, Bool.or_eq_true, Bool.and_eq_true, decide_eq_true_eq] at htopic
  have hnat : ¬ (9 ≤ c.toNat ∧ c.toNat ≤ 13) := by
    rcases htopic with ((((h | h) | h) | rfl) | rfl) | rfl
    · omega
    · omega
    · omega
    · decide
    · decide
    · decide
  have hblank : c ≠ ' ' := by
    rintro rfl
    revert htopic
    decide
  simp [isSpace, hblank]
  omega

theorem dropWhile_of_takeWhile_eq_nil {accepts : Char → Bool} {word : List Char}
    (hnone : word.takeWhile accepts = []) : word.dropWhile accepts = word := by
  have hsplit := List.takeWhile_append_dropWhile (p := accepts) (l := word)
  rwa [hnone] at hsplit

section Tail

/-- Everything up to the end of the word is white space. -/
theorem firstThen_spaces (word : List Char) (captures : Captures Char) :
    (star (one isSpace)).firstThen word (fun next => atEnd (captures ++ next.1, next.2)) =
      if word.all isSpace then some captures else none := by
  rw [firstThen_star_one]
  · by_cases hall : word.all isSpace = true
    · have hdrop : word.dropWhile isSpace = [] := by
        rw [List.dropWhile_eq_nil_iff]
        exact List.all_eq_true.mp hall
      simp [hdrop, hall, atEnd]
    · have hdrop : word.dropWhile isSpace ≠ [] := by
        intro hnil
        rw [List.dropWhile_eq_nil_iff] at hnil
        exact hall (List.all_eq_true.mpr hnil)
      simp [hdrop, hall, atEnd]
  · intro taken rest htaken hsplit hsome
    have hrest : rest = [] := by
      by_contra hne
      simp [atEnd, hne] at hsome
    have hdrop : word.dropWhile isSpace = [] := by
      rw [List.dropWhile_eq_nil_iff, hsplit, hrest, List.append_nil]
      exact htaken
    simp [hdrop, atEnd]

/-- The captures of a topic. -/
def topicCaptures (topic : List Char) : Captures Char :=
  if topic = [] then [] else [(11, topic)]

/-- A topic is taken as far as it goes: no topic character is white space. -/
theorem firstThen_topic (word : List Char) (captures : Captures Char) :
    (seq topicPattern (star (one isSpace))).firstThen word
        (fun next => atEnd (captures ++ next.1, next.2)) =
      if (word.dropWhile isTopicChar).all isSpace then
        some (captures ++ topicCaptures (word.takeWhile isTopicChar))
      else none := by
  simp only [firstThen_seq, ← List.append_assoc, firstThen_spaces, topicPattern, firstThen_opt,
    firstThen_group]
  rw [firstThen_plus_one]
  · rw [take_length_sub_dropWhile]
    by_cases hnone : word.takeWhile isTopicChar = []
    · rw [if_pos hnone, dropWhile_of_takeWhile_eq_nil hnone, Option.none_or, hnone, topicCaptures,
        if_pos rfl]
    · have hnospace : ¬ word.all isSpace = true := by
        intro hall
        obtain ⟨c, hc⟩ := List.exists_mem_of_ne_nil _ hnone
        have htopic : isTopicChar c = true := List.mem_takeWhile_imp hc
        have hspace := List.all_eq_true.mp hall c (List.takeWhile_subset _ hc)
        rw [not_isSpace_of_isTopicChar htopic] at hspace
        cases hspace
      rw [if_neg hnone, if_neg hnospace, Option.or_none, topicCaptures, if_neg hnone,
        List.append_nil]
  · intro taken rest _ htaken hsplit hsome
    have hall : rest.all isSpace = true := by
      by_contra hnot
      simp [hnot] at hsome
    have hdrop : (word.dropWhile isTopicChar).all isSpace = true := by
      rw [hsplit, List.dropWhile_append_of_pos htaken, List.all_eq_true]
      intro c hc
      exact List.all_eq_true.mp hall c ((List.dropWhile_sublist _).subset hc)
    simp only [hdrop, if_true]
    rfl

/-- What follows the port. -/
def tailPattern : Pattern Char :=
  .seq (.opt (.literal "/".toList)) <| .seq topicPattern (.star (.one isSpace))

theorem afterSlash_of_ne {word : List Char} (hslash : ¬ ['/'] <+: word) :
    afterSlash word = word := by
  unfold afterSlash
  split
  · rename_i rest
    exact absurd ⟨rest, rfl⟩ hslash
  · rfl

/-- A slash is taken if it is there: it is no topic character. -/
theorem firstThen_tail (word : List Char) (captures : Captures Char) :
    tailPattern.firstThen word (fun next => atEnd (captures ++ next.1, next.2)) =
      (topicText word).map fun topic => captures ++ topicCaptures topic := by
  have hmap : ∀ rest : List Char,
      (if (rest.dropWhile isTopicChar).all isSpace then
        some (captures ++ topicCaptures (rest.takeWhile isTopicChar)) else none) =
      (if (rest.dropWhile isTopicChar).all isSpace then
        some (rest.takeWhile isTopicChar) else none).map fun topic =>
          captures ++ topicCaptures topic := by
    intro rest
    split <;> rfl
  rw [tailPattern, firstThen_seq]
  simp only [← List.append_assoc, firstThen_topic]
  rw [firstThen_opt, firstThen_literal]
  simp only [List.append_nil, hmap]
  by_cases hslash : ['/'] <+: word
  · obtain ⟨rest, rfl⟩ := hslash
    have hfallback : (if ((['/'] ++ rest).dropWhile isTopicChar).all isSpace then
        some ((['/'] ++ rest).takeWhile isTopicChar) else none) = none := by
      rw [if_neg]
      simp [isTopicChar, isDigit, isSpace]
    rw [hfallback, Option.map_none, Option.or_none]
    exact if_pos ⟨rest, rfl⟩
  · rw [topicText, afterSlash_of_ne hslash]
    exact if_neg hslash ▸ rfl

end Tail

section Port

theorem isTopicChar_of_isDigit {c : Char} (hdigit : isDigit c = true) : isTopicChar c = true := by
  simp [isTopicChar, hdigit]

theorem topicText_isSome {word : List Char} :
    (topicText word).isSome ↔ ((afterSlash word).dropWhile isTopicChar).all isSpace = true := by
  unfold topicText
  split <;> simp_all

/-- A slash is not the beginning of white space or of a topic. -/
theorem not_all_isSpace_slash (rest : List Char) :
    ¬ (('/' :: rest).dropWhile isTopicChar).all isSpace = true := by
  simp [isTopicChar, isDigit, isSpace]

/-- A word that can be read as a topic without a slash can still be read after
some of its characters. -/
theorem topicText_dropWhile {accepts : Char → Bool} {word : List Char}
    (htopic : ∀ c ∈ word.takeWhile accepts, isTopicChar c = true)
    (hsome : (topicText word).isSome) : (topicText (word.dropWhile accepts)).isSome := by
  by_cases hnone : word.takeWhile accepts = []
  · rwa [dropWhile_of_takeWhile_eq_nil hnone]
  · have hsplit := List.takeWhile_append_dropWhile (p := accepts) (l := word)
    have hword : ¬ ['/'] <+: word := by
      rintro ⟨rest, rfl⟩
      have hslash : '/' ∈ (['/'] ++ rest).takeWhile accepts := by
        by_cases haccepts : accepts '/' = true
        · simp [haccepts]
        · simp [haccepts] at hnone
      have himpossible := htopic _ hslash
      revert himpossible
      decide
    rw [topicText_isSome, afterSlash_of_ne hword, ← hsplit,
      List.dropWhile_append_of_pos htopic] at hsome
    have hrest : ¬ ['/'] <+: word.dropWhile accepts := by
      rintro ⟨rest, hrest⟩
      rw [← hrest] at hsome
      exact not_all_isSpace_slash rest hsome
    rw [topicText_isSome, afterSlash_of_ne hrest]
    exact hsome

/-- The optional port of a host. -/
def portPattern : Pattern Char :=
  .opt (.group 9 (.seq (.literal ":".toList) (.group 10 (.plus (.one isDigit)))))

def portCaptures (digits : List Char) : Captures Char :=
  if digits = [] then [] else [(10, digits), (9, ':' :: digits)]

theorem portDigits_of_ne {word : List Char} (hcolon : ¬ [':'] <+: word) : portDigits word = [] := by
  unfold portDigits
  split
  · rename_i rest
    exact absurd ⟨rest, rfl⟩ hcolon
  · rfl

theorem topicText_colon (rest : List Char) : topicText (':' :: rest) = none := by
  rw [topicText, if_neg]
  simp [afterSlash, isTopicChar, isDigit, isSpace]

/-- All digits are taken: a rest that begins with a digit can be a topic, and
then so can what follows the digits. -/
theorem firstThen_port (word : List Char) (result : Way Char → List Char → β) :
    portPattern.firstThen word (fun way => (topicText way.2).map (result way)) =
      (topicText (word.drop (portText (portDigits word)).length)).map
        (result (portCaptures (portDigits word),
          word.drop (portText (portDigits word)).length)) := by
  rw [portPattern, firstThen_opt, firstThen_group, firstThen_seq, firstThen_literal]
  by_cases hcolon : [':'] <+: word
  · obtain ⟨rest, rfl⟩ := hcolon
    have hfallback : topicText ([':'] ++ rest) = none := topicText_colon rest
    have hdrop : ([':'] ++ rest).drop ":".toList.length = rest := rfl
    have hdigits : portDigits ([':'] ++ rest) = rest.takeWhile isDigit := rfl
    have hsplit : [':'] ++ rest = (':' :: rest.takeWhile isDigit) ++ rest.dropWhile isDigit := by
      simp [List.takeWhile_append_dropWhile]
    rw [if_pos (show ":".toList <+: [':'] ++ rest from ⟨rest, rfl⟩), hdrop, firstThen_group,
      firstThen_plus_one, hfallback, Option.map_none, Option.or_none, hdigits,
      take_length_sub_dropWhile, take_length_sub hsplit]
    · by_cases hnone : rest.takeWhile isDigit = []
      · rw [if_pos hnone, hnone, portText, if_pos rfl]
        rw [List.length_nil, List.drop_zero, hfallback, Option.map_none]
      · have hrest : ([':'] ++ rest).drop (portText (rest.takeWhile isDigit)).length =
            rest.dropWhile isDigit := by
          rw [portText, if_neg hnone]
          exact (congrArg _ hsplit).trans List.drop_left
        rw [if_neg hnone, hrest, portCaptures, if_neg hnone]
        rfl
    · intro taken after _ htaken hafter hsome
      rw [Option.isSome_map] at hsome ⊢
      rw [hafter, List.dropWhile_append_of_pos htaken]
      refine topicText_dropWhile ?_ hsome
      exact fun c hc => isTopicChar_of_isDigit (List.mem_takeWhile_imp hc)
  · rw [if_neg (show ¬ ":".toList <+: word from hcolon), Option.none_or, portDigits_of_ne hcolon]
    rfl

end Port

section Host

theorem not_isHostChar_iff {c : Char} :
    ¬ isHostChar c = true ↔ c = ':' ∨ c = '/' ∨ c = '?' ∨ c = '#' := by
  simp only [isHostChar, Bool.not_eq_true', Bool.not_eq_false, Bool.or_eq_true, decide_eq_true_eq,
    or_assoc]

theorem isHostChar_of_isTopicChar {c : Char} (htopic : isTopicChar c = true) :
    isHostChar c = true := by
  by_contra hnot
  rcases not_isHostChar_iff.mp hnot with rfl | rfl | rfl | rfl <;> revert htopic <;> decide

theorem isHostChar_of_isSpace {c : Char} (hspace : isSpace c = true) : isHostChar c = true := by
  by_contra hnot
  rcases not_isHostChar_iff.mp hnot with rfl | rfl | rfl | rfl <;> revert hspace <;> decide

/-- What follows the host can be read. -/
def restReads (rest : List Char) : Prop :=
  (topicText (rest.drop (portText (portDigits rest)).length)).isSome

/-- A rest that begins with characters of a host is topic and white space,
which are characters of a host as well. -/
theorem restReads_dropWhile {rest : List Char} (hreads : restReads rest) :
    restReads (rest.dropWhile isHostChar) := by
  cases rest with
  | nil => exact hreads
  | cons c rest =>
      by_cases hhost : isHostChar c = true
      · have hcolon : ¬ [':'] <+: c :: rest := by
          rintro ⟨_, heq⟩
          cases heq
          revert hhost
          decide
        have hslash : ¬ ['/'] <+: c :: rest := by
          rintro ⟨_, heq⟩
          cases heq
          revert hhost
          decide
        have hnil : (c :: rest).dropWhile isHostChar = [] := by
          rw [restReads, portDigits_of_ne hcolon, portText, if_pos rfl, List.length_nil,
            List.drop_zero, topicText_isSome, afterSlash_of_ne hslash] at hreads
          rw [List.dropWhile_eq_nil_iff]
          intro d hd
          rw [← List.takeWhile_append_dropWhile (p := isTopicChar) (l := c :: rest),
            List.mem_append] at hd
          rcases hd with htopic | hspace
          · exact isHostChar_of_isTopicChar (List.mem_takeWhile_imp htopic)
          · exact isHostChar_of_isSpace (List.all_eq_true.mp hreads d hspace)
        rw [hnil]
        exact rfl
      · rwa [List.dropWhile_cons_of_neg hhost]

def hostCaptures (parts : UriParts) : Captures Char :=
  [(8, parts.host), (7, parts.host)] ++ portCaptures parts.digits ++
    [(6, parts.host ++ portText parts.digits)] ++ topicCaptures parts.topic

/-- The port is the beginning of what follows the host. -/
theorem portText_append (rest : List Char) :
    portText (portDigits rest) ++ rest.drop (portText (portDigits rest)).length = rest := by
  unfold portDigits
  split
  · rename_i rest
    by_cases hnone : rest.takeWhile isDigit = []
    · rw [hnone, portText, if_pos rfl]
      rfl
    · rw [portText, if_neg hnone, List.cons_append, List.length_cons, List.drop_succ_cons]
      have hsplit := List.takeWhile_append_dropWhile (p := isDigit) (l := rest)
      nth_rewrite 3 [← hsplit]
      rw [List.drop_left, hsplit]
  · rfl

theorem firstThen_host (word : List Char) (captures : Captures Char) :
    (seq hostPortPattern tailPattern).firstThen word
        (fun next => atEnd (captures ++ next.1, next.2)) =
      (hostParts word).map fun parts => captures ++ hostCaptures parts := by
  rw [firstThen_seq]
  simp only [← List.append_assoc, firstThen_tail]
  rw [hostPortPattern, firstThen_group, firstThen_seq, firstThen_group]
  simp only [← List.append_assoc]
  have hport : ∀ way : Way Char, portPattern.firstThen way.2 (fun next =>
        (topicText next.2).map fun topic =>
          captures ++ way.1 ++ [(7, word.take (word.length - way.2.length))] ++ next.1 ++
            [(6, word.take (word.length - next.2.length))] ++ topicCaptures topic) =
      (topicText (way.2.drop (portText (portDigits way.2)).length)).map fun topic =>
        captures ++ way.1 ++ [(7, word.take (word.length - way.2.length))] ++
          portCaptures (portDigits way.2) ++
          [(6, word.take
            (word.length - (way.2.drop (portText (portDigits way.2)).length).length))] ++
          topicCaptures topic :=
    fun way => firstThen_port way.2 fun next topic =>
      captures ++ way.1 ++ [(7, word.take (word.length - way.2.length))] ++ next.1 ++
        [(6, word.take (word.length - next.2.length))] ++ topicCaptures topic
  rw [portPattern] at hport
  simp only [hport]
  rw [firstThen_plus_group]
  · have hsplit : word = (word.takeWhile isHostChar ++
          portText (portDigits (word.dropWhile isHostChar))) ++
        (word.dropWhile isHostChar).drop
          (portText (portDigits (word.dropWhile isHostChar))).length := by
      rw [List.append_assoc, portText_append, List.takeWhile_append_dropWhile]
    unfold hostParts
    simp only [take_length_sub hsplit, take_length_sub_dropWhile]
    split
    · rfl
    · rw [Option.map_map]
      simp only [hostCaptures, List.append_assoc, List.cons_append, List.nil_append]
      rfl
  · intro _ taken rest _ htaken hsplit hsome
    rw [Option.isSome_map] at hsome ⊢
    rw [hsplit, List.dropWhile_append_of_pos htaken]
    exact restReads_dropWhile hsome

end Host

section Front

theorem hostParts_eq_none {word : List Char} (hnone : word.takeWhile isHostChar = []) :
    hostParts word = none :=
  if_pos hnone

/-- A host that is followed by a colon without digits. -/
theorem hostParts_colon {word rest : List Char}
    (hrest : word.dropWhile isHostChar = "://".toList ++ rest) : hostParts word = none := by
  unfold hostParts
  split
  · rfl
  · have htopic : topicText ((word.dropWhile isHostChar).drop
        (portText (portDigits (word.dropWhile isHostChar))).length) = none := by
      rw [hrest]
      exact topicText_colon _
    simp only [htopic, Option.map_none]

theorem takeWhile_isHostChar_slash {word : List Char} (hslash : "//".toList <+: word) :
    word.takeWhile isHostChar = [] := by
  obtain ⟨rest, rfl⟩ := hslash
  exact List.takeWhile_cons_of_neg (by decide)

/-- The scheme is the run of its characters: no part of it ends before a
colon. -/
theorem firstThen_scheme (word : List Char) (continuation : Way Char → Option β) :
    (group 2 (seq (group 3 (plus (one isHostChar))) (literal "://".toList))).firstThen word
        continuation =
      if HasScheme word then
        continuation ([(3, word.takeWhile isHostChar),
          (2, word.takeWhile isHostChar ++ "://".toList)],
          (word.dropWhile isHostChar).drop 3)
      else none := by
  rw [firstThen_group, firstThen_seq, firstThen_group, firstThen_plus_one]
  · rw [firstThen_literal, take_length_sub_dropWhile]
    by_cases hnone : word.takeWhile isHostChar = []
    · rw [if_pos hnone, if_neg fun hscheme => hscheme.1 hnone]
    · rw [if_neg hnone]
      by_cases hcolon : "://".toList <+: word.dropWhile isHostChar
      · obtain ⟨rest, hrest⟩ := hcolon
        have hsplit : word = (word.takeWhile isHostChar ++ "://".toList) ++ rest := by
          rw [List.append_assoc, hrest, List.takeWhile_append_dropWhile]
        rw [if_pos ⟨rest, hrest⟩, if_pos ⟨hnone, rest, hrest⟩, ← hrest, List.drop_left,
          take_length_sub hsplit]
        rfl
      · rw [if_neg hcolon, if_neg fun hscheme => hcolon hscheme.2]
  · intro taken rest _ htaken hsplit hsome
    rw [firstThen_literal] at hsome ⊢
    by_cases hcolon : "://".toList <+: rest
    · have hrest : word.dropWhile isHostChar = rest := by
        obtain ⟨after, rfl⟩ := hcolon
        rw [hsplit, List.dropWhile_append_of_pos htaken]
        exact List.dropWhile_cons_of_neg (by decide)
      rw [take_length_sub_dropWhile, hrest]
      rw [if_pos hcolon] at hsome ⊢
      rw [take_length_sub hsplit] at hsome
      have htake : word.takeWhile isHostChar = taken := by
        rw [← take_length_sub_dropWhile, hrest, take_length_sub hsplit]
      rw [htake]
      exact hsome
    · rw [if_neg hcolon] at hsome
      cases hsome

/-- Only one of the three beginnings can be followed by a host. -/
theorem firstThen_front (word : List Char) (captures : Captures Char) :
    ∃ front : Captures Char, (∀ entry ∈ front, entry.1 < 6) ∧
      (seq schemePattern (seq hostPortPattern tailPattern)).firstThen word
          (fun next => atEnd (captures ++ next.1, next.2)) =
        (uriParts word).map fun parts => captures ++ front ++ hostCaptures parts := by
  rw [firstThen_seq]
  simp only [← List.append_assoc, firstThen_host]
  rw [schemePattern, firstThen_group, firstThen_alt, firstThen_alt, firstThen_scheme,
    firstThen_group, firstThen_literal, firstThen_group, firstThen_empty, uriParts]
  by_cases hscheme : HasScheme word
  · obtain ⟨rest, hrest⟩ := hscheme.2
    have hslashes : ¬ "//".toList <+: word := fun h => hscheme.1 (takeWhile_isHostChar_slash h)
    have hfallback : hostParts word = none := hostParts_colon hrest.symm
    refine ⟨[(3, word.takeWhile isHostChar), (2, word.takeWhile isHostChar ++ "://".toList),
      (1, word.take (word.length - ((word.dropWhile isHostChar).drop 3).length))], by simp, ?_⟩
    rw [if_pos hscheme, if_neg hslashes, hfallback, Option.map_none, Option.none_or,
      Option.or_none, if_pos hscheme]
    rfl
  · by_cases hslashes : "//".toList <+: word
    · have hfallback : hostParts word = none :=
        hostParts_eq_none (takeWhile_isHostChar_slash hslashes)
      refine ⟨[(4, word.take (word.length - (word.drop 2).length)),
        (1, word.take (word.length - (word.drop 2).length))], by simp, ?_⟩
      rw [if_neg hscheme, if_pos hslashes, hfallback, Option.map_none, Option.none_or,
        Option.or_none, if_neg hscheme, if_pos hslashes]
      rfl
    · refine ⟨[(5, word.take (word.length - word.length)),
        (1, word.take (word.length - word.length))], by simp, ?_⟩
      rw [if_neg hscheme, if_neg hslashes, Option.none_or, Option.none_or, if_neg hscheme,
        if_neg hslashes]
      rfl

end Front

section Groups

/-- The groups that `URI::parse` reads, for a word with these parts. -/
structure Groups (captures : Captures Char) (parts : UriParts) : Prop where
  hostPort : captures.submatch 6 = some (parts.host ++ portText parts.digits)
  port : captures.submatch 10 = if parts.digits = [] then none else some parts.digits
  topic : captures.submatch 11 = if parts.topic = [] then none else some parts.topic

theorem submatch_front {front : Captures Char} (hfront : ∀ entry ∈ front, entry.1 < 6)
    {index : Nat} (hindex : 6 ≤ index) : front.submatch index = none := by
  rw [Captures.submatch, List.lookup_eq_none_iff]
  intro entry hentry
  have hlt := hfront entry (List.mem_reverse.mp hentry)
  simp only [bne_iff_ne, ne_eq]
  omega

theorem groups_of_front {front : Captures Char} (hfront : ∀ entry ∈ front, entry.1 < 6)
    (parts : UriParts) : Groups (front ++ hostCaptures parts) parts := by
  refine ⟨?_, ?_, ?_⟩ <;>
    rw [Captures.submatch_append, submatch_front hfront (by decide), Option.or_none, hostCaptures,
      portCaptures, topicCaptures] <;>
    by_cases hdigits : parts.digits = [] <;> by_cases htopic : parts.topic = [] <;>
    simp [Captures.submatch, hdigits, htopic, List.lookup_cons]

/-- A match is a match after some of the leading white space. -/
theorem fullMatch_eq_some {word : List Char} {captures : Captures Char}
    (hmatch : uriPattern.fullMatch word = some captures) :
    ∃ leading rest parts, (∀ c ∈ leading, isSpace c = true) ∧ word = leading ++ rest ∧
      uriParts rest = some parts ∧ Groups captures parts := by
  rw [fullMatch_eq, uriPattern, firstThen_seq] at hmatch
  obtain ⟨leading, rest, hleading, hsplit, hrest⟩ := firstThen_star_one_eq_some hmatch
  obtain ⟨front, hfront, hfirst⟩ := firstThen_front rest []
  obtain ⟨parts, hparts, rfl⟩ := Option.map_eq_some_iff.mp (hfirst.symm.trans hrest)
  exact ⟨leading, rest, parts, hleading, hsplit, hparts, groups_of_front hfront parts⟩

theorem fullMatch_isSome {leading rest : List Char} (hleading : ∀ c ∈ leading, isSpace c = true)
    (hparts : (uriParts rest).isSome) : (uriPattern.fullMatch (leading ++ rest)).isSome := by
  rw [fullMatch_eq, uriPattern, firstThen_seq]
  refine firstThen_star_one_isSome hleading rfl ?_
  obtain ⟨front, -, hfirst⟩ := firstThen_front rest []
  have hsome : ((uriParts rest).map fun parts => [] ++ front ++ hostCaptures parts).isSome := by
    rwa [Option.isSome_map]
  rw [← hfirst] at hsome
  exact hsome

end Groups

/-- What may stand in front of a host. -/
def FrontOk (front : List Char) : Prop :=
  front = [] ∨ front = "//".toList ∨
    ∃ scheme : List Char, scheme ≠ [] ∧ (∀ c ∈ scheme, isHostChar c = true) ∧
      front = scheme ++ "://".toList

/-- A way to cut a word into the parts of the grammar.  No digits mean that
there is no port. -/
structure UriSplit where
  front : List Char
  host : List Char
  digits : List Char
  slash : List Char
  topic : List Char

namespace UriSplit

def text (split : UriSplit) : List Char :=
  split.front ++ (split.host ++ (portText split.digits ++ (split.slash ++ split.topic)))

theorem text_append (split : UriSplit) (trailing : List Char) :
    split.text ++ trailing = split.front ++ (split.host ++ (portText split.digits ++
      (split.slash ++ split.topic ++ trailing))) := by
  simp only [UriSplit.text, List.append_assoc]

/-- The grammar: nothing, two slashes or a scheme in front, a host, and an
optional port, slash and topic. -/
structure Valid (split : UriSplit) : Prop where
  front : FrontOk split.front
  host_ne : split.host ≠ []
  host : ∀ c ∈ split.host, isHostChar c = true
  digits : ∀ c ∈ split.digits, isDigit c = true
  slash : split.slash = [] ∨ split.slash = ['/']
  topic : ∀ c ∈ split.topic, isTopicChar c = true

end UriSplit

section Complete

variable {split : UriSplit} {trailing : List Char}

/-- Slash, topic and white space are read. -/
theorem topicText_split (hvalid : split.Valid) (htrailing : ∀ c ∈ trailing, isSpace c = true) :
    (topicText (split.slash ++ split.topic ++ trailing)).isSome := by
  have hall : ((split.topic ++ trailing).dropWhile isTopicChar).all isSpace = true := by
    rw [List.dropWhile_append_of_pos hvalid.topic, List.all_eq_true]
    exact fun c hc => htrailing c ((List.dropWhile_sublist _).subset hc)
  rw [topicText_isSome]
  rcases hvalid.slash with hslash | hslash
  · have hne : ¬ ['/'] <+: split.topic ++ trailing := by
      rintro ⟨rest, hrest⟩
      rw [← hrest] at hall
      exact not_all_isSpace_slash rest hall
    rw [hslash, List.nil_append, afterSlash_of_ne hne]
    exact hall
  · rw [hslash, List.append_assoc]
    exact hall

/-- A port is read with the digits that follow it. -/
theorem drop_portText {digits rest : List Char} (hne : digits ≠ [])
    (hdigits : ∀ c ∈ digits, isDigit c = true) :
    portDigits (portText digits ++ rest) = digits ++ rest.takeWhile isDigit ∧
      (portText digits ++ rest).drop (portText (portDigits (portText digits ++ rest))).length =
        rest.dropWhile isDigit := by
  have hport : portDigits (portText digits ++ rest) = digits ++ rest.takeWhile isDigit := by
    rw [portText, if_neg hne]
    exact List.takeWhile_append_of_pos hdigits
  refine ⟨hport, ?_⟩
  have hsplit : portText digits ++ rest =
      portText (digits ++ rest.takeWhile isDigit) ++ rest.dropWhile isDigit := by
    rw [portText, if_neg hne, portText, if_neg (by simp [hne]), List.cons_append,
      List.cons_append, List.append_assoc, List.takeWhile_append_dropWhile]
  rw [hport]
  nth_rewrite 1 [hsplit]
  exact List.drop_left

/-- Everything after the host is read. -/
theorem restReads_split (hvalid : split.Valid) (htrailing : ∀ c ∈ trailing, isSpace c = true) :
    restReads (portText split.digits ++ (split.slash ++ split.topic ++ trailing)) := by
  have htopic := topicText_split hvalid htrailing
  by_cases hdigits : split.digits = []
  · have hcolon : ¬ [':'] <+: split.slash ++ split.topic ++ trailing := by
      rintro ⟨rest, hrest⟩
      rw [← hrest, List.singleton_append, topicText_colon] at htopic
      cases htopic
    rw [hdigits, portText, if_pos rfl, List.nil_append, restReads, portDigits_of_ne hcolon]
    exact htopic
  · rw [restReads, (drop_portText hdigits hvalid.digits).2]
    exact topicText_dropWhile
      (fun c hc => isTopicChar_of_isDigit (List.mem_takeWhile_imp hc)) htopic

theorem hostParts_isSome_iff {word : List Char} :
    (hostParts word).isSome ↔
      word.takeWhile isHostChar ≠ [] ∧ restReads (word.dropWhile isHostChar) := by
  unfold hostParts restReads
  split
  · rename_i hnone
    simp [hnone]
  · rename_i hsome
    rw [Option.isSome_map]
    exact (and_iff_right hsome).symm

/-- The host and everything after it is read. -/
theorem hostParts_split (hvalid : split.Valid) (htrailing : ∀ c ∈ trailing, isSpace c = true) :
    (hostParts (split.host ++ (portText split.digits ++ (split.slash ++ split.topic ++
      trailing)))).isSome := by
  rw [hostParts_isSome_iff, List.takeWhile_append_of_pos hvalid.host,
    List.dropWhile_append_of_pos hvalid.host]
  exact ⟨by simp [hvalid.host_ne], restReads_dropWhile (restReads_split hvalid htrailing)⟩

/-- The beginning that the expression finds. -/
def frontOf (word : List Char) : List Char :=
  if HasScheme word then word.takeWhile isHostChar ++ "://".toList
  else if "//".toList <+: word then "//".toList
  else []

/-- A beginning with slashes is not mistaken, whatever follows it. -/
theorem front_read_of_ne_nil {front : List Char} (hfront : FrontOk front) (hne : front ≠ [])
    (rest : List Char) :
    frontOf (front ++ rest) = front ∧ uriParts (front ++ rest) = hostParts rest := by
  rcases hfront with rfl | rfl | ⟨scheme, hne, hscheme, rfl⟩
  · exact absurd rfl hne
  · have hnone : ("//".toList ++ rest).takeWhile isHostChar = [] :=
      takeWhile_isHostChar_slash ⟨rest, rfl⟩
    have hnoScheme : ¬ HasScheme ("//".toList ++ rest) := fun h => h.1 hnone
    rw [frontOf, uriParts, if_neg hnoScheme, if_neg hnoScheme, if_pos ⟨rest, rfl⟩,
      if_pos ⟨rest, rfl⟩]
    exact ⟨rfl, rfl⟩
  · have hcolon : ("://".toList ++ rest).takeWhile isHostChar = [] :=
      List.takeWhile_cons_of_neg (by decide)
    have htake : (scheme ++ ("://".toList ++ rest)).takeWhile isHostChar = scheme := by
      rw [List.takeWhile_append_of_pos hscheme, hcolon, List.append_nil]
    have hdrop : (scheme ++ ("://".toList ++ rest)).dropWhile isHostChar =
        "://".toList ++ rest := by
      rw [List.dropWhile_append_of_pos hscheme, dropWhile_of_takeWhile_eq_nil hcolon]
    have hhas : HasScheme (scheme ++ ("://".toList ++ rest)) :=
      ⟨by rwa [htake], rest, hdrop.symm⟩
    rw [List.append_assoc, frontOf, uriParts, if_pos hhas, if_pos hhas, htake, hdrop]
    exact ⟨rfl, rfl⟩

/-- Before a host that can be read the beginning is not mistaken. -/
theorem front_read {front rest : List Char} (hfront : FrontOk front)
    (hsome : (hostParts rest).isSome) :
    frontOf (front ++ rest) = front ∧ uriParts (front ++ rest) = hostParts rest := by
  by_cases hnil : front = []
  · have hnoScheme : ¬ HasScheme rest := by
      rintro ⟨-, after, hafter⟩
      rw [hostParts_colon hafter.symm] at hsome
      cases hsome
    have hnoSlashes : ¬ "//".toList <+: rest := by
      intro hslashes
      rw [hostParts_eq_none (takeWhile_isHostChar_slash hslashes)] at hsome
      cases hsome
    rw [hnil, List.nil_append, frontOf, uriParts, if_neg hnoScheme, if_neg hnoScheme,
      if_neg hnoSlashes, if_neg hnoSlashes]
    exact ⟨rfl, rfl⟩
  · exact front_read_of_ne_nil hfront hnil rest

/-- Whatever the grammar derives is matched, with white space around it. -/
theorem uriParts_split (hvalid : split.Valid) (htrailing : ∀ c ∈ trailing, isSpace c = true) :
    uriParts (split.text ++ trailing) =
        hostParts (split.host ++ (portText split.digits ++ (split.slash ++ split.topic ++
          trailing))) ∧
      (uriParts (split.text ++ trailing)).isSome := by
  have hsome := hostParts_split hvalid htrailing
  rw [split.text_append, (front_read hvalid.front hsome).2]
  exact ⟨rfl, hsome⟩

end Complete

section Sound

theorem afterSlash_split (word : List Char) :
    ∃ slash, (slash = [] ∨ slash = ['/']) ∧ word = slash ++ afterSlash word := by
  unfold afterSlash
  split
  · exact ⟨['/'], Or.inr rfl, rfl⟩
  · exact ⟨[], Or.inl rfl, rfl⟩

theorem topicText_eq_some {word topic : List Char} (htopic : topicText word = some topic) :
    ∃ slash trailing, (slash = [] ∨ slash = ['/']) ∧ word = slash ++ topic ++ trailing ∧
      (∀ c ∈ topic, isTopicChar c = true) ∧ ∀ c ∈ trailing, isSpace c = true := by
  unfold topicText at htopic
  split at htopic
  · rename_i hall
    cases htopic
    obtain ⟨slash, hslash, hsplit⟩ := afterSlash_split word
    refine ⟨slash, (afterSlash word).dropWhile isTopicChar, hslash, ?_,
      fun c hc => List.mem_takeWhile_imp hc, List.all_eq_true.mp hall⟩
    rw [List.append_assoc, List.takeWhile_append_dropWhile]
    exact hsplit
  · cases htopic

theorem portDigits_isDigit {rest : List Char} : ∀ c ∈ portDigits rest, isDigit c = true := by
  unfold portDigits
  split
  · exact fun c hc => List.mem_takeWhile_imp hc
  · simp

theorem uriParts_eq_some {word : List Char} {parts : UriParts}
    (hparts : uriParts word = some parts) :
    ∃ front rest, FrontOk front ∧ word = front ++ rest ∧ hostParts rest = some parts := by
  unfold uriParts at hparts
  split at hparts
  · rename_i hscheme
    obtain ⟨hne, rest, hrest⟩ := hscheme
    rw [← hrest] at hparts
    refine ⟨word.takeWhile isHostChar ++ "://".toList, rest, Or.inr (Or.inr
      ⟨word.takeWhile isHostChar, hne, fun c hc => List.mem_takeWhile_imp hc, rfl⟩), ?_, hparts⟩
    rw [List.append_assoc, hrest, List.takeWhile_append_dropWhile]
  · split at hparts
    · rename_i hslashes
      obtain ⟨rest, rfl⟩ := hslashes
      exact ⟨"//".toList, rest, Or.inr (Or.inl rfl), rfl, hparts⟩
    · exact ⟨[], word, Or.inl rfl, rfl, hparts⟩

/-- What is read after a host is a port, a slash, a topic and white space. -/
theorem rest_eq_of_topicText {rest topic : List Char}
    (htopic : topicText (rest.drop (portText (portDigits rest)).length) = some topic) :
    ∃ slash trailing, (slash = [] ∨ slash = ['/']) ∧ (∀ c ∈ topic, isTopicChar c = true) ∧
      (∀ c ∈ trailing, isSpace c = true) ∧
      rest = portText (portDigits rest) ++ (slash ++ topic ++ trailing) := by
  obtain ⟨slash, trailing, hslash, hsplit, hchars, htrailing⟩ := topicText_eq_some htopic
  refine ⟨slash, trailing, hslash, hchars, htrailing, ?_⟩
  rw [← hsplit, portText_append]

/-- The parts that are read cut the word as the grammar does, with the longest
host after what is in front of it and the longest port. -/
theorem exists_split_of_uriParts {word : List Char} {parts : UriParts}
    (hparts : uriParts word = some parts) :
    ∃ (split : UriSplit) (trailing : List Char), split.Valid ∧
      (∀ c ∈ trailing, isSpace c = true) ∧ word = split.text ++ trailing ∧
      split.host = parts.host ∧ split.digits = parts.digits ∧ split.topic = parts.topic ∧
      split.host = (word.drop split.front.length).takeWhile isHostChar ∧
      split.digits = portDigits ((word.drop split.front.length).dropWhile isHostChar) := by
  obtain ⟨front, rest, hfront, rfl, hhost⟩ := uriParts_eq_some hparts
  unfold hostParts at hhost
  split at hhost
  · cases hhost
  · rename_i hne
    obtain ⟨topic, htopic, rfl⟩ := Option.map_eq_some_iff.mp hhost
    obtain ⟨slash, trailing, hslash, hchars, htrailing, hrest⟩ := rest_eq_of_topicText htopic
    refine ⟨⟨front, rest.takeWhile isHostChar, portDigits (rest.dropWhile isHostChar), slash,
      topic⟩, trailing, ⟨hfront, hne, fun c hc => List.mem_takeWhile_imp hc, portDigits_isDigit,
      hslash, hchars⟩, htrailing, ?_, rfl, rfl, rfl, ?_, ?_⟩
    · rw [UriSplit.text_append, ← hrest, List.takeWhile_append_dropWhile]
    · rw [List.drop_left]
    · rw [List.drop_left]

/-- All ways to cut a word agree on what is in front of the host. -/
theorem UriSplit.Valid.front_eq {split : UriSplit} (hvalid : split.Valid) :
    split.front = frontOf split.text := by
  have hsome := @hostParts_split split [] hvalid (by simp)
  rw [List.append_nil] at hsome
  exact (front_read hvalid.front hsome).1.symm

end Sound

section Parse

variable {uriString : String} {captures : Captures Char} {parts : UriParts}

/-- What a match assigns. -/
def UriParts.assigned (parts : UriParts) (uri : URI) : URI where
  hostPort := String.ofList (parts.host ++ portText parts.digits)
  port := if parts.digits = [] then uri.port else decimal parts.digits
  topic := if parts.topic = [] then uri.topic else String.ofList parts.topic

theorem parse_run_of_match (hmatch : uriPattern.fullMatch uriString.toList = some captures)
    (hgroups : Groups captures parts) (hport : decimal parts.digits < 2 ^ 31) (uri : URI) :
    (URI.parse uriString).run uri = .ok () (parts.assigned uri) := by
  have hstoi : stoi parts.digits = .ok (decimal parts.digits) := if_pos hport
  simp only [URI.parse, hmatch, Option.getD_some, hgroups.hostPort, hgroups.port, hgroups.topic,
    URI.assign, UriParts.assigned]
  by_cases hdigits : parts.digits = [] <;> by_cases htopic : parts.topic = [] <;>
    simp [hdigits, htopic, URI.setPort, URI.setTopic, hstoi]

theorem parse_run_of_overflow (hmatch : uriPattern.fullMatch uriString.toList = some captures)
    (hgroups : Groups captures parts) (hport : 2 ^ 31 ≤ decimal parts.digits) (uri : URI) :
    (URI.parse uriString).run uri = .error (.outOfRange "stoi")
      { uri with hostPort := String.ofList (parts.host ++ portText parts.digits) } := by
  have hdigits : parts.digits ≠ [] := by
    intro hnil
    rw [hnil] at hport
    revert hport
    decide
  have hstoi : stoi parts.digits = .error (.outOfRange "stoi") := if_neg (Nat.not_lt.mpr hport)
  simp [URI.parse, hmatch, hgroups.hostPort, hgroups.port, URI.assign, hdigits, URI.setPort, hstoi]

theorem parse_run_of_no_match (hmatch : uriPattern.fullMatch uriString.toList = none) (uri : URI) :
    ∃ what, (URI.parse uriString).run uri = .error (.runtimeError what) uri := by
  refine ⟨"Unable to extract host from the URI: \"" ++ uriString ++ "\".", ?_⟩
  simp only [URI.parse, hmatch]
  rfl

end Parse

/-- No character is white space. -/
def NoSpace (word : List Char) : Prop :=
  ∀ c ∈ word, isSpace c = false

instance (word : List Char) : Decidable (NoSpace word) :=
  List.decidableBAll (fun c => isSpace c = false) word

theorem NoSpace.eq_nil {word part : List Char} (hspace : NoSpace word)
    (hpart : ∀ c ∈ part, c ∈ word) (hall : ∀ c ∈ part, isSpace c = true) : part = [] := by
  cases part with
  | nil => rfl
  | cons c part =>
      have hfalse := hspace c (hpart c List.mem_cons_self)
      rw [hall c List.mem_cons_self] at hfalse
      cases hfalse

/-- Of a default-constructed value nothing is left. -/
theorem UriParts.assigned_default (parts : UriParts) :
    parts.assigned {} =
      ⟨String.ofList (parts.host ++ portText parts.digits), decimal parts.digits,
        String.ofList parts.topic⟩ := by
  unfold UriParts.assigned
  by_cases hdigits : parts.digits = [] <;> by_cases htopic : parts.topic = [] <;>
    simp [hdigits, htopic, decimal]

/-- How a string is read: the longest host after the only possible beginning,
the longest port, and the rest as the topic. -/
structure UriReading (uriString : String) (split : UriSplit) : Prop where
  valid : split.Valid
  text : split.text = uriString.toList
  front : ∀ other : UriSplit, other.Valid → other.text = uriString.toList →
    other.front = split.front
  host : split.host = (uriString.toList.drop split.front.length).takeWhile isHostChar
  digits : split.digits =
    portDigits ((uriString.toList.drop split.front.length).dropWhile isHostChar)
  parsed : decimal split.digits < 2 ^ 31 → (URI.parse uriString).run {} = .ok ()
    ⟨String.ofList (split.host ++ portText split.digits), decimal split.digits,
      String.ofList split.topic⟩

section Grammar

variable {uriString : String}

/-- Without white space a match is read from the first character on. -/
theorem uriParts_of_match {captures : Captures Char} (hspace : NoSpace uriString.toList)
    (hmatch : uriPattern.fullMatch uriString.toList = some captures) :
    ∃ parts, uriParts uriString.toList = some parts ∧ Groups captures parts := by
  obtain ⟨leading, rest, parts, hleading, hsplit, hparts, hgroups⟩ := fullMatch_eq_some hmatch
  have hnil : leading = [] := by
    refine hspace.eq_nil (fun c hc => ?_) hleading
    rw [hsplit]
    exact List.mem_append_left _ hc
  rw [hnil, List.nil_append] at hsplit
  rw [hsplit]
  exact ⟨parts, hparts, hgroups⟩

theorem exists_reading {captures : Captures Char} (hspace : NoSpace uriString.toList)
    (hmatch : uriPattern.fullMatch uriString.toList = some captures) :
    ∃ split, UriReading uriString split := by
  obtain ⟨parts, hparts, hgroups⟩ := uriParts_of_match hspace hmatch
  obtain ⟨split, trailing, hvalid, htrailing, hword, hhost, hdigits, htopic, hlongest, hport⟩ :=
    exists_split_of_uriParts hparts
  have hnil : trailing = [] := by
    refine hspace.eq_nil (fun c hc => ?_) htrailing
    rw [hword]
    exact List.mem_append_right _ hc
  have htext : split.text = uriString.toList := by
    rw [hword, hnil, List.append_nil]
  refine ⟨split, hvalid, htext, ?_, hlongest, hport, ?_⟩
  · intro other hother hsame
    rw [hvalid.front_eq, hother.front_eq, hsame, htext]
  · intro hsmall
    rw [hhost, hdigits, htopic, ← UriParts.assigned_default]
    exact parse_run_of_match hmatch hgroups (hdigits ▸ hsmall) {}

theorem isSome_of_split {split : UriSplit} (hvalid : split.Valid)
    (htext : split.text = uriString.toList) :
    (uriPattern.fullMatch uriString.toList).isSome := by
  have hparts := (@uriParts_split split [] hvalid (by simp)).2
  rw [List.append_nil, htext] at hparts
  exact @fullMatch_isSome [] uriString.toList (by simp) hparts

/-- A string without white space is matched exactly if the grammar derives it,
and is then read in one way. -/
theorem uri_matches_grammar (uriString : String) (hspace : NoSpace uriString.toList) :
    ((uriPattern.fullMatch uriString.toList).isSome ↔
      ∃ split : UriSplit, split.Valid ∧ split.text = uriString.toList) ∧
    ((uriPattern.fullMatch uriString.toList).isSome →
      ∃ split : UriSplit, UriReading uriString split) := by
  refine ⟨⟨?_, ?_⟩, ?_⟩
  · intro hsome
    obtain ⟨captures, hmatch⟩ := Option.isSome_iff_exists.mp hsome
    obtain ⟨split, hreading⟩ := exists_reading hspace hmatch
    exact ⟨split, hreading.valid, hreading.text⟩
  · rintro ⟨split, hvalid, htext⟩
    exact isSome_of_split hvalid htext
  · intro hsome
    obtain ⟨captures, hmatch⟩ := Option.isSome_iff_exists.mp hsome
    exact exists_reading hspace hmatch

theorem hostPortTopic_matches :
    NoSpace "//host:9092/topic".toList ∧
      ∃ split : UriSplit, UriReading "//host:9092/topic" split :=
  ⟨by decide, (uri_matches_grammar "//host:9092/topic" (by decide)).2 (by decide +kernel)⟩

end Grammar

end EpicsToKafka
