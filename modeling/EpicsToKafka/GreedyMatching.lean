/-
How a backtracking match is computed piece by piece.  `firstThen` is the first
way of a pattern that can be continued; the equations for its constructors
turn a pattern into a program, and where the greedy way can be continued
whenever another one can, no other way matters.
-/
import EpicsToKafka.Backtracking

namespace Backtracking

universe u v

variable {α : Type u} {β : Type v}

namespace Pattern

/-- The first way to match the front of a word that the continuation accepts. -/
def firstThen (pattern : Pattern α) (word : List α) (continuation : Way α → Option β) :
    Option β :=
  (pattern.ways word).findSome? continuation

/-- The continuation that wants the end of the word. -/
def atEnd (way : Way α) : Option (Captures α) :=
  if way.2.isEmpty then some way.1 else none

theorem findSome?_atEnd (ways : List (Way α)) :
    ways.findSome? atEnd = (ways.find? fun way => way.2.isEmpty).map Prod.fst := by
  induction ways with
  | nil => rfl
  | cons way rest ih =>
      rw [List.findSome?_cons, List.find?_cons, atEnd]
      cases way.2.isEmpty
      · exact ih
      · rfl

theorem fullMatch_eq (pattern : Pattern α) (word : List α) :
    pattern.fullMatch word = pattern.firstThen word atEnd :=
  (findSome?_atEnd _).symm

theorem findSome?_flatMap {γ δ : Type u} (xs : List γ) (parts : γ → List δ) (f : δ → Option β) :
    (xs.flatMap parts).findSome? f = xs.findSome? fun x => (parts x).findSome? f := by
  induction xs with
  | nil => rfl
  | cons x rest ih =>
      rw [List.flatMap_cons, List.findSome?_append, ih, List.findSome?_cons]
      cases (parts x).findSome? f <;> rfl

section Equations

variable (word : List α) (continuation : Way α → Option β)

theorem firstThen_empty :
    (empty : Pattern α).firstThen word continuation = continuation ([], word) := by
  simp [firstThen, ways]

theorem firstThen_seq (first second : Pattern α) :
    (seq first second).firstThen word continuation =
      first.firstThen word fun way =>
        second.firstThen way.2 fun next => continuation (way.1 ++ next.1, next.2) := by
  simp only [firstThen, ways, findSome?_flatMap, List.findSome?_map]
  rfl

theorem firstThen_alt (first second : Pattern α) :
    (alt first second).firstThen word continuation =
      (first.firstThen word continuation).or (second.firstThen word continuation) := by
  simp only [firstThen, ways, List.findSome?_append]

theorem firstThen_opt (body : Pattern α) :
    (opt body).firstThen word continuation =
      (body.firstThen word continuation).or (continuation ([], word)) := by
  rw [opt, firstThen_alt, firstThen_empty]

theorem firstThen_group (index : Nat) (body : Pattern α) :
    (group index body).firstThen word continuation =
      body.firstThen word fun way => continuation
        (way.1 ++ [(index, word.take (word.length - way.2.length))], way.2) := by
  simp only [firstThen, ways, List.findSome?_map]
  rfl

/-- A literal is there or it is not. -/
theorem firstThen_literal [DecidableEq α] (text : List α) :
    (literal text).firstThen word continuation =
      if text <+: word then continuation ([], word.drop text.length) else none := by
  induction text generalizing word continuation with
  | nil => simp [literal, firstThen_empty]
  | cons symbol text ih =>
      rw [literal, firstThen_seq]
      cases word with
      | nil => simp [firstThen, ways]
      | cons head word =>
          by_cases heq : head = symbol
          · simp [firstThen, ways, heq, ← ih]
          · have hne : ¬ symbol = head := fun h => heq h.symm
            simp [firstThen, ways, heq, hne]

end Equations

/-- If the first of the ways can be continued whenever another one can, it is
the one that is taken. -/
theorem findSome?_eq_head {ways others : List (Way α)} {way : Way α}
    {continuation : Way α → Option β} (hways : ways = way :: others)
    (hdominates : ∀ other ∈ ways, (continuation other).isSome → (continuation way).isSome) :
    ways.findSome? continuation = continuation way := by
  cases hway : continuation way with
  | some result => rw [hways, List.findSome?_cons, hway]
  | none =>
      rw [List.findSome?_eq_none_iff]
      intro other hother
      by_contra hsome
      have himpossible := hdominates other hother (Option.isSome_iff_ne_none.mpr hsome)
      rw [hway] at himpossible
      cases himpossible

/-- What a repetition of `accepts` may leave of a word, the shortest first. -/
def remainders (accepts : α → Bool) : List α → List (List α)
  | [] => [[]]
  | symbol :: word =>
      if accepts symbol then remainders accepts word ++ [symbol :: word] else [symbol :: word]

theorem remainders_eq_cons (accepts : α → Bool) (word : List α) :
    ∃ others, remainders accepts word = word.dropWhile accepts :: others := by
  induction word with
  | nil => exact ⟨[], rfl⟩
  | cons symbol word ih =>
      obtain ⟨others, hothers⟩ := ih
      by_cases haccepts : accepts symbol = true
      · refine ⟨others ++ [symbol :: word], ?_⟩
        rw [remainders, if_pos haccepts, hothers, List.dropWhile_cons_of_pos haccepts,
          List.cons_append]
      · refine ⟨[], ?_⟩
        rw [remainders, if_neg haccepts, List.dropWhile_cons_of_neg haccepts]

theorem mem_remainders {accepts : α → Bool} {word rest : List α} :
    rest ∈ remainders accepts word ↔
      ∃ taken, (∀ symbol ∈ taken, accepts symbol = true) ∧ word = taken ++ rest := by
  induction word with
  | nil =>
      rw [remainders, List.mem_singleton]
      constructor
      · rintro rfl
        exact ⟨[], by simp, rfl⟩
      · rintro ⟨taken, -, hsplit⟩
        exact (List.append_eq_nil_iff.mp hsplit.symm).2
  | cons symbol word ih =>
      rw [remainders]
      constructor
      · intro hmem
        split at hmem
        · rename_i haccepts
          rcases List.mem_append.mp hmem with hlater | hall
          · obtain ⟨taken, htaken, rfl⟩ := ih.mp hlater
            exact ⟨symbol :: taken, by simpa [haccepts] using htaken, rfl⟩
          · exact ⟨[], by simp, (List.mem_singleton.mp hall).symm⟩
        · exact ⟨[], by simp, (List.mem_singleton.mp hmem).symm⟩
      · rintro ⟨taken, htaken, hsplit⟩
        cases taken with
        | nil =>
            rw [List.nil_append] at hsplit
            subst hsplit
            split <;> simp
        | cons first taken =>
            rw [List.cons_append] at hsplit
            cases hsplit
            rw [if_pos (htaken _ List.mem_cons_self)]
            refine List.mem_append_left _ (ih.mpr ⟨taken, ?_, rfl⟩)
            exact fun symbol hmem => htaken symbol (List.mem_cons_of_mem _ hmem)

theorem rounds_one (accepts : α → Bool) {word : List α} {bound : Nat}
    (hbound : word.length ≤ bound) :
    rounds (one accepts).ways bound word =
      (remainders accepts word).map fun rest => ([], rest) := by
  induction word generalizing bound with
  | nil => cases bound <;> simp [rounds, ways, remainders]
  | cons symbol word ih =>
      cases bound with
      | zero => simp at hbound
      | succ bound =>
          rw [List.length_cons] at hbound
          have hrest := ih (show word.length ≤ bound by omega)
          by_cases haccepts : accepts symbol = true
          · simp [rounds, ways, remainders, haccepts, hrest]
          · simp [rounds, ways, remainders, haccepts]

theorem ways_star_one (accepts : α → Bool) (word : List α) :
    (star (one accepts)).ways word = (remainders accepts word).map fun rest => ([], rest) :=
  rounds_one accepts (Nat.le_refl _)

theorem ways_plus_one_cons (accepts : α → Bool) (symbol : α) (word : List α) :
    (plus (one accepts)).ways (symbol :: word) =
      if accepts symbol then (remainders accepts word).map fun rest => ([], rest) else [] := by
  rw [plus, ways]
  by_cases haccepts : accepts symbol = true
  · simp [ways.eq_3, haccepts, ways_star_one]
  · simp [ways.eq_3, haccepts]

/-- A repetition that may be empty, taken greedily. -/
theorem firstThen_star_one {accepts : α → Bool} {word : List α}
    {continuation : Way α → Option β}
    (hdominates : ∀ taken rest, (∀ symbol ∈ taken, accepts symbol = true) →
      word = taken ++ rest → (continuation ([], rest)).isSome →
        (continuation ([], word.dropWhile accepts)).isSome) :
    (star (one accepts)).firstThen word continuation =
      continuation ([], word.dropWhile accepts) := by
  obtain ⟨others, hothers⟩ := remainders_eq_cons accepts word
  refine findSome?_eq_head (by rw [ways_star_one, hothers, List.map_cons]) ?_
  intro other hother hsome
  rw [ways_star_one] at hother
  obtain ⟨rest, hrest, rfl⟩ := List.mem_map.mp hother
  obtain ⟨taken, htaken, hsplit⟩ := mem_remainders.mp hrest
  exact hdominates taken rest htaken hsplit hsome

/-- The ways of a repetition that may not be empty: all remainders but the
word itself, the shortest first. -/
theorem ways_plus_one (accepts : α → Bool) {word : List α}
    (haccepts : word.takeWhile accepts ≠ []) :
    ∃ others, (plus (one accepts)).ways word =
        ([], word.dropWhile accepts) :: others ∧
      ∀ way ∈ (plus (one accepts)).ways word, way.1 = [] ∧
        ∃ taken, taken ≠ [] ∧ (∀ symbol ∈ taken, accepts symbol = true) ∧
          word = taken ++ way.2 := by
  cases word with
  | nil => exact absurd rfl haccepts
  | cons symbol word =>
      have hsymbol : accepts symbol = true := by
        by_contra hnot
        exact haccepts (List.takeWhile_cons_of_neg hnot)
      obtain ⟨others, hothers⟩ := remainders_eq_cons accepts word
      rw [ways_plus_one_cons, if_pos hsymbol, hothers, List.map_cons,
        List.dropWhile_cons_of_pos hsymbol]
      refine ⟨_, rfl, ?_⟩
      rw [← List.map_cons (f := fun rest => (([] : Captures α), rest)), ← hothers]
      intro way hway
      obtain ⟨rest, hrest, rfl⟩ := List.mem_map.mp hway
      obtain ⟨taken, htaken, hsplit⟩ := mem_remainders.mp hrest
      refine ⟨rfl, symbol :: taken, List.cons_ne_nil _ _, ?_, by rw [hsplit]; rfl⟩
      simpa [hsymbol] using htaken

theorem ways_plus_one_eq_nil {accepts : α → Bool} {word : List α}
    (hnone : word.takeWhile accepts = []) : (plus (one accepts)).ways word = [] := by
  cases word with
  | nil => rfl
  | cons symbol word =>
      rw [ways_plus_one_cons, if_neg]
      intro hsymbol
      rw [List.takeWhile_cons_of_pos hsymbol] at hnone
      cases hnone

/-- A repetition that may not be empty, taken greedily. -/
theorem firstThen_plus_one {accepts : α → Bool} {word : List α}
    {continuation : Way α → Option β}
    (hdominates : ∀ taken rest, taken ≠ [] → (∀ symbol ∈ taken, accepts symbol = true) →
      word = taken ++ rest → (continuation ([], rest)).isSome →
        (continuation ([], word.dropWhile accepts)).isSome) :
    (plus (one accepts)).firstThen word continuation =
      if word.takeWhile accepts = [] then none
      else continuation ([], word.dropWhile accepts) := by
  split
  · rename_i hnone
    rw [firstThen, ways_plus_one_eq_nil hnone]
    rfl
  · rename_i hsome
    obtain ⟨others, hothers, hways⟩ := ways_plus_one accepts hsome
    refine findSome?_eq_head hothers ?_
    intro other hother hcontinues
    obtain ⟨hcaptures, taken, hne, htaken, hsplit⟩ := hways other hother
    refine hdominates taken other.2 hne htaken hsplit ?_
    rw [← hcaptures]
    exact hcontinues

/-- The text of a group that ends where the rest begins. -/
theorem take_length_sub {word taken rest : List α} (hsplit : word = taken ++ rest) :
    word.take (word.length - rest.length) = taken := by
  rw [hsplit, List.length_append, Nat.add_sub_cancel, List.take_left]

theorem take_length_sub_dropWhile (accepts : α → Bool) (word : List α) :
    word.take (word.length - (word.dropWhile accepts).length) = word.takeWhile accepts :=
  take_length_sub List.takeWhile_append_dropWhile.symm

/-- Rounds of a body that only takes accepted symbols. -/
theorem rounds_consumes {body : List α → List (Way α)} {accepts : α → Bool}
    (hbody : ∀ word, ∀ way ∈ body word,
      ∃ taken, (∀ symbol ∈ taken, accepts symbol = true) ∧ word = taken ++ way.2)
    {bound : Nat} {word : List α} {way : Way α} (hway : way ∈ rounds body bound word) :
    ∃ taken, (∀ symbol ∈ taken, accepts symbol = true) ∧ word = taken ++ way.2 := by
  induction bound generalizing word way with
  | zero =>
      rw [List.mem_singleton.mp hway]
      exact ⟨[], by simp, rfl⟩
  | succ bound ih =>
      rcases List.mem_append.mp hway with hmore | hstop
      · obtain ⟨first, hfirst, hrest⟩ := List.mem_flatMap.mp hmore
        obtain ⟨next, hnext, rfl⟩ := List.mem_map.mp hrest
        obtain ⟨taken, htaken, hsplit⟩ := hbody word first (List.mem_of_mem_filter hfirst)
        obtain ⟨more, hmoreTaken, hmoreSplit⟩ := ih hnext
        refine ⟨taken ++ more, ?_, ?_⟩
        · intro symbol hsymbol
          rcases List.mem_append.mp hsymbol with hleft | hright
          · exact htaken symbol hleft
          · exact hmoreTaken symbol hright
        · rw [hsplit, hmoreSplit, List.append_assoc]
      · rw [List.mem_singleton.mp hstop]
        exact ⟨[], by simp, rfl⟩

theorem rounds_of_ways_eq_nil {body : List α → List (Way α)} {word : List α}
    (hbody : body word = []) (bound : Nat) : rounds body bound word = [([], word)] := by
  cases bound with
  | zero => rfl
  | succ bound => simp [rounds, hbody]

/-- The quantifier inside a quantified group: one round takes everything, and
no way takes anything else than accepted symbols. -/
theorem ways_plus_group (index : Nat) (accepts : α → Bool) {word : List α}
    (haccepts : word.takeWhile accepts ≠ []) :
    ∃ others, (plus (group index (plus (one accepts)))).ways word =
        ([(index, word.takeWhile accepts)], word.dropWhile accepts) :: others ∧
      ∀ way ∈ (plus (group index (plus (one accepts)))).ways word,
        ∃ taken, taken ≠ [] ∧ (∀ symbol ∈ taken, accepts symbol = true) ∧
          word = taken ++ way.2 := by
  obtain ⟨others, hothers, hways⟩ := ways_plus_one accepts haccepts
  have hgroup : ∀ word, ∀ way ∈ (group index (plus (one accepts))).ways word,
      ∃ taken, (∀ symbol ∈ taken, accepts symbol = true) ∧ word = taken ++ way.2 := by
    intro word way hway
    obtain ⟨inner, hinner, rfl⟩ := List.mem_map.mp hway
    have hne : word.takeWhile accepts ≠ [] := by
      intro hnone
      rw [ways_plus_one_eq_nil hnone] at hinner
      cases hinner
    obtain ⟨-, -, hall⟩ := ways_plus_one accepts hne
    obtain ⟨-, taken, -, htaken, hsplit⟩ := hall inner hinner
    exact ⟨taken, htaken, hsplit⟩
  have hend : (group index (plus (one accepts))).ways (word.dropWhile accepts) = [] := by
    have hnone : (word.dropWhile accepts).takeWhile accepts = [] := by
      cases hrest : word.dropWhile accepts with
      | nil => rfl
      | cons symbol rest =>
          have hhead := List.head_dropWhile_not accepts (l := word) (by rw [hrest]; simp)
          simp only [hrest, List.head_cons] at hhead
          rw [List.takeWhile_cons_of_neg (by simp [hhead])]
    rw [ways, ways_plus_one_eq_nil hnone]
    rfl
  have hstar : (star (group index (plus (one accepts)))).ways (word.dropWhile accepts) =
      [([], word.dropWhile accepts)] := by
    rw [ways]
    exact rounds_of_ways_eq_nil hend _
  have hbody : (group index (plus (one accepts))).ways word =
      ([(index, word.takeWhile accepts)], word.dropWhile accepts) :: others.map fun way =>
        (way.1 ++ [(index, word.take (word.length - way.2.length))], way.2) := by
    rw [ways, hothers, List.map_cons, take_length_sub_dropWhile, List.nil_append]
  refine ⟨(others.map fun way =>
      (way.1 ++ [(index, word.take (word.length - way.2.length))], way.2)).flatMap fun way =>
    ((star (group index (plus (one accepts)))).ways way.2).map fun next =>
      (way.1 ++ next.1, next.2), ?_, ?_⟩
  · rw [plus, ways, hbody, List.flatMap_cons, hstar, List.map_singleton, List.append_nil,
      List.singleton_append]
  · intro way hway
    obtain ⟨first, hfirst, hrest⟩ := List.mem_flatMap.mp hway
    obtain ⟨next, hnext, rfl⟩ := List.mem_map.mp hrest
    obtain ⟨inner, hinner, rfl⟩ := List.mem_map.mp hfirst
    obtain ⟨-, taken, hne, htaken, hsplit⟩ := hways inner hinner
    obtain ⟨more, hmore, hmoreSplit⟩ := rounds_consumes hgroup hnext
    refine ⟨taken ++ more, by simp [hne], ?_, ?_⟩
    · intro symbol hsymbol
      rcases List.mem_append.mp hsymbol with hleft | hright
      · exact htaken symbol hleft
      · exact hmore symbol hright
    · rw [hsplit, List.append_assoc]
      exact congrArg _ hmoreSplit

theorem firstThen_plus_group {index : Nat} {accepts : α → Bool} {word : List α}
    {continuation : Way α → Option β}
    (hdominates : ∀ captures taken rest, taken ≠ [] → (∀ symbol ∈ taken, accepts symbol = true) →
      word = taken ++ rest → (continuation (captures, rest)).isSome →
        (continuation ([(index, word.takeWhile accepts)], word.dropWhile accepts)).isSome) :
    (plus (group index (plus (one accepts)))).firstThen word continuation =
      if word.takeWhile accepts = [] then none
      else continuation ([(index, word.takeWhile accepts)], word.dropWhile accepts) := by
  split
  · rename_i hnone
    rw [plus, firstThen_seq, firstThen_group, firstThen, ways_plus_one_eq_nil hnone]
    rfl
  · rename_i hsome
    obtain ⟨others, hothers, hways⟩ := ways_plus_group index accepts hsome
    refine findSome?_eq_head hothers ?_
    intro other hother hcontinues
    obtain ⟨taken, hne, htaken, hsplit⟩ := hways other hother
    exact hdominates other.1 taken other.2 hne htaken hsplit hcontinues

/-- A way is found only among the remainders of a repetition. -/
theorem firstThen_star_one_eq_some {accepts : α → Bool} {word : List α}
    {continuation : Way α → Option β} {result : β}
    (hfirst : (star (one accepts)).firstThen word continuation = some result) :
    ∃ taken rest, (∀ symbol ∈ taken, accepts symbol = true) ∧ word = taken ++ rest ∧
      continuation ([], rest) = some result := by
  obtain ⟨before, way, after, hways, hway, -⟩ := List.findSome?_eq_some_iff.mp hfirst
  have hmem : way ∈ (star (one accepts)).ways word := by
    rw [hways]
    simp
  rw [ways_star_one] at hmem
  obtain ⟨rest, hrest, rfl⟩ := List.mem_map.mp hmem
  obtain ⟨taken, htaken, hsplit⟩ := mem_remainders.mp hrest
  exact ⟨taken, rest, htaken, hsplit, hway⟩

theorem firstThen_star_one_isSome {accepts : α → Bool} {word taken rest : List α}
    {continuation : Way α → Option β} (htaken : ∀ symbol ∈ taken, accepts symbol = true)
    (hsplit : word = taken ++ rest) (hcontinues : (continuation ([], rest)).isSome) :
    ((star (one accepts)).firstThen word continuation).isSome := by
  rw [firstThen, ways_star_one, List.findSome?_isSome_iff]
  exact ⟨([], rest), List.mem_map.mpr ⟨rest, mem_remainders.mpr ⟨taken, htaken, hsplit⟩, rfl⟩,
    hcontinues⟩

end Pattern

/-- Later captures come first. -/
theorem Captures.submatch_append (first second : Captures α) (index : Nat) :
    Captures.submatch (first ++ second) index =
      (Captures.submatch second index).or (Captures.submatch first index) := by
  simp only [Captures.submatch, List.reverse_append, List.lookup_append]

end Backtracking
