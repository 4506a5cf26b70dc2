/-
The list of brokers in the settings: a string that is cut at its commas by
`split`, each piece of which `setBrokers` parses as a URI.  `std::string::npos`
is `none`.
-/
import EpicsToKafka.Uri
import Mathlib.Data.List.Forall2

namespace EpicsToKafka.ConfigParser

/-- `text.find(c, pos)`. -/
def findFrom (text : List Char) (c : Char) (pos : Nat) : Option Nat :=
  ((text.drop pos).findIdx? (· == c)).map (pos + ·)

/-- `text.substr(pos, count)`. -/
def substr (text : List Char) (pos : Nat) (count : Option Nat) : Except Exception (List Char) :=
  if text.length < pos then .error (.outOfRange "basic_string::substr")
  else .ok ((text.drop pos).take (count.getD text.length))

/-- The first comma from a position on, and what is in front of it. -/
theorem findFrom_eq_some {text : List Char} {c : Char} {pos found : Nat}
    (hfind : findFrom text c pos = some found) :
    pos ≤ found ∧ found < text.length ∧ c ∉ (text.drop pos).take (found - pos) ∧
      text.drop pos = (text.drop pos).take (found - pos) ++ c :: text.drop (found + 1) := by
  obtain ⟨index, hindex, rfl⟩ := Option.map_eq_some_iff.mp hfind
  obtain ⟨hlt, hequal, hbefore⟩ := List.findIdx?_eq_some_iff_getElem.mp hindex
  have hlength : index < text.length - pos := by rwa [List.length_drop] at hlt
  refine ⟨Nat.le_add_right _ _, by omega, ?_, ?_⟩
  · rw [Nat.add_sub_cancel_left]
    intro hmem
    obtain ⟨earlier, hearlier, hvalue⟩ := List.mem_iff_getElem.mp hmem
    rw [List.length_take] at hearlier
    rw [List.getElem_take] at hvalue
    have hne := hbefore earlier (by omega)
    rw [hvalue] at hne
    simp at hne
  · rw [Nat.add_sub_cancel_left]
    calc text.drop pos = (text.drop pos).take index ++ (text.drop pos).drop index :=
          (List.take_append_drop index _).symm
      _ = (text.drop pos).take index ++ c :: (text.drop pos).drop (index + 1) := by
          rw [List.drop_eq_getElem_cons hlt, beq_iff_eq.mp hequal]
      _ = (text.drop pos).take index ++ c :: text.drop (pos + index + 1) := by
          rw [List.drop_drop, Nat.add_assoc]

theorem findFrom_eq_none {text : List Char} {c : Char} {pos : Nat}
    (hfind : findFrom text c pos = none) : c ∉ text.drop pos := by
  have hnone := List.findIdx?_eq_none_iff.mp (Option.map_eq_none_iff.mp hfind)
  intro hmem
  have hne := hnone c hmem
  simp at hne

/-- The `while` loop, which leaves the position after the last comma. -/
def splitLoop (brokers : List Char) (i1 : Nat) (ret : List (List Char)) :
    Except Exception (Nat × List (List Char)) :=
  match _hfind : findFrom brokers ',' i1 with
  | none => .ok (i1, ret)
  | some i2 =>
      if i1 < i2 then
        match substr brokers i1 (some (i2 - i1)) with
        | .error e => .error e
        | .ok piece => splitLoop brokers (i2 + 1) (ret ++ [piece])
      else splitLoop brokers (i2 + 1) ret
termination_by brokers.length - i1
decreasing_by
  all_goals
    obtain ⟨hle, hlt, -⟩ := findFrom_eq_some _hfind
    omega

def split (brokers : List Char) : Except Exception (List (List Char)) := do
  let (i1, ret) ← splitLoop brokers 0 []
  if i1 ≠ brokers.length then
    let piece ← substr brokers i1 none
    return ret ++ [piece]
  else return ret

/-- The loop of `setBrokers`; the state is `Settings.Brokers`. -/
def pushBrokers : List (List Char) → EStateM Exception (List URI) Unit
  | [] => pure ()
  | x :: ret =>
      match URI.ofString (String.ofList x) with
      | .error e => throw e
      | .ok u1 => do
          modify fun brokers => brokers ++ [u1]
          pushBrokers ret

def setBrokers (brokers : String) : EStateM Exception (List URI) Unit := do
  set ([] : List URI)
  match split brokers.toList with
  | .error e => throw e
  | .ok ret => pushBrokers ret

/-- The pieces between commas, without the empty ones. -/
def pieces (text : List Char) : List (List Char) :=
  (text.splitOn ',').filter fun piece => piece ≠ []

section Pieces

theorem pieces_append_comma (before after : List Char) :
    pieces (before ++ ',' :: after) = pieces before ++ pieces after := by
  rw [pieces, List.splitOn_append_cons_self, List.filter_append]
  rfl

@[simp] theorem pieces_nil : pieces [] = [] := by
  decide

theorem pieces_cons_comma (text : List Char) : pieces (',' :: text) = pieces text := by
  simpa using pieces_append_comma [] text

theorem pieces_concat_comma (text : List Char) : pieces (text ++ [',']) = pieces text := by
  simpa using pieces_append_comma text []

theorem pieces_of_no_comma {text : List Char} (hcomma : ',' ∉ text) (hne : text ≠ []) :
    pieces text = [text] := by
  rw [pieces, List.splitOn_eq_singleton hcomma, List.filter_cons_of_pos (by simp [hne])]
  rfl

/-- The induction is on the length of the text, which a comma cuts into two shorter ones. -/
theorem comma_notMem_of_mem_pieces {text piece : List Char} (hmem : piece ∈ pieces text) :
    ',' ∉ piece := by
  by_cases hcomma : ',' ∈ text
  · obtain ⟨before, after, htext⟩ := List.append_of_mem hcomma
    have hlength : text.length = before.length + (after.length + 1) := by
      rw [htext, List.length_append, List.length_cons]
    rw [htext, pieces_append_comma] at hmem
    rcases List.mem_append.mp hmem with hbefore | hafter
    · exact comma_notMem_of_mem_pieces hbefore
    · exact comma_notMem_of_mem_pieces hafter
  · rw [pieces, List.splitOn_eq_singleton hcomma] at hmem
    rw [List.mem_singleton.mp (List.mem_filter.mp hmem).1]
    exact hcomma
termination_by text.length

theorem ne_nil_of_mem_pieces {text piece : List Char} (hmem : piece ∈ pieces text) :
    piece ≠ [] := by
  obtain ⟨-, hne⟩ := List.mem_filter.mp hmem
  exact of_decide_eq_true hne

end Pieces

section Split

variable {brokers : List Char}

theorem substr_eq {pos : Nat} (hle : pos ≤ brokers.length) (count : Option Nat) :
    substr brokers pos count = .ok ((brokers.drop pos).take (count.getD brokers.length)) :=
  if_neg (Nat.not_lt.mpr hle)

/-- The loop finds all pieces but the one after the last comma. -/
theorem splitLoop_eq (i1 : Nat) (ret : List (List Char)) (hle : i1 ≤ brokers.length) :
    ∃ last found, splitLoop brokers i1 ret = .ok (last, ret ++ found) ∧
      last ≤ brokers.length ∧ ',' ∉ brokers.drop last ∧
      pieces (brokers.drop i1) = found ++ pieces (brokers.drop last) := by
  fun_induction splitLoop brokers i1 ret with
  | case1 i1 ret hfind =>
      exact ⟨i1, [], by rw [List.append_nil], hle, findFrom_eq_none hfind, rfl⟩
  | case2 i1 ret i2 hfind hlt e herror =>
      rw [substr_eq hle] at herror
      cases herror
  | case3 i1 ret i2 hfind hlt piece hpiece ih =>
      obtain ⟨-, hbound, hcomma, hsplit⟩ := findFrom_eq_some hfind
      obtain ⟨last, found, hloop, hlast, hnone, hpieces⟩ := ih hbound
      rw [substr_eq hle] at hpiece
      cases hpiece
      have hne : (brokers.drop i1).take (i2 - i1) ≠ [] := by
        rw [Ne, ← List.length_eq_zero_iff, List.length_take, List.length_drop]
        omega
      refine ⟨last, (brokers.drop i1).take (i2 - i1) :: found, ?_, hlast, hnone, ?_⟩
      · rw [hloop, List.append_assoc]
        rfl
      · have hcut := congrArg pieces hsplit
        rw [pieces_append_comma, pieces_of_no_comma hcomma hne, hpieces] at hcut
        exact hcut
  | case4 i1 ret i2 hfind hnot ih =>
      obtain ⟨-, hbound, hcomma, hsplit⟩ := findFrom_eq_some hfind
      obtain ⟨last, found, hloop, hlast, hnone, hpieces⟩ := ih hbound
      have hnil : (brokers.drop i1).take (i2 - i1) = [] := by
        rw [Nat.sub_eq_zero_of_le (Nat.not_lt.mp hnot), List.take_zero]
      refine ⟨last, found, hloop, hlast, hnone, ?_⟩
      have hcut := congrArg pieces hsplit
      rw [hnil, pieces_append_comma, pieces_nil, List.nil_append, hpieces] at hcut
      exact hcut

theorem split_eq (brokers : List Char) : split brokers = .ok (pieces brokers) := by
  obtain ⟨last, found, hloop, hlast, hnone, hpieces⟩ :=
    @splitLoop_eq brokers 0 [] (Nat.zero_le _)
  rw [List.drop_zero] at hpieces
  rw [split, hloop]
  change (if last ≠ brokers.length then _ else _) = _
  by_cases hend : last = brokers.length
  · rw [if_neg (not_not_intro hend), hpieces, hend, List.drop_length, pieces_nil]
    rw [List.append_nil]
    rfl
  · have hne : brokers.drop last ≠ [] := by
      rw [Ne, ← List.length_eq_zero_iff, List.length_drop]
      omega
    have hall : (brokers.drop last).take brokers.length = brokers.drop last := by
      refine List.take_of_length_le ?_
      rw [List.length_drop]
      omega
    rw [if_pos hend, hpieces, pieces_of_no_comma hnone hne, substr_eq hlast, Option.getD_none,
      hall]
    rfl

example : split ",//a,,//b,".toList = .ok ["//a".toList, "//b".toList] := by
  rw [split_eq]
  decide

theorem split_cons_comma (brokers : List Char) : split (',' :: brokers) = split brokers := by
  rw [split_eq, split_eq, pieces_cons_comma]

theorem split_concat_comma (brokers : List Char) : split (brokers ++ [',']) = split brokers := by
  rw [split_eq, split_eq, pieces_concat_comma]

theorem split_comma_comma (before after : List Char) :
    split (before ++ ',' :: ',' :: after) = split (before ++ ',' :: after) := by
  rw [split_eq, split_eq, pieces_append_comma, pieces_append_comma, pieces_cons_comma]

end Split

section SetBrokers

/-- A URI stands for a piece when the piece parses as this URI. -/
def Parses (piece : List Char) (uri : URI) : Prop :=
  URI.ofString (String.ofList piece) = .ok uri

variable {x : List Char} {ret : List (List Char)}

theorem pushBrokers_of_parses {u1 : URI} (hparse : Parses x u1) (before : List URI) :
    (pushBrokers (x :: ret)).run before = (pushBrokers ret).run (before ++ [u1]) := by
  rw [pushBrokers, show URI.ofString (String.ofList x) = .ok u1 from hparse]
  rfl

theorem pushBrokers_of_error {e : Exception} (hparse : URI.ofString (String.ofList x) = .error e)
    (before : List URI) : (pushBrokers (x :: ret)).run before = .error e before := by
  rw [pushBrokers, hparse]
  rfl

/-- The loop appends the URIs of all its pieces or throws. -/
theorem pushBrokers_ok_iff (ret : List (List Char)) (before stored : List URI) :
    (pushBrokers ret).run before = .ok () stored ↔
      ∃ uris, stored = before ++ uris ∧ List.Forall₂ Parses ret uris := by
  induction ret generalizing before with
  | nil =>
      simp only [List.forall₂_nil_left_iff, exists_eq_right, List.append_nil]
      constructor
      · rintro ⟨⟩
        rfl
      · rintro rfl
        rfl
  | cons x ret ih =>
      simp only [List.forall₂_cons_left_iff]
      cases hparse : URI.ofString (String.ofList x) with
      | error e =>
          rw [pushBrokers_of_error hparse]
          constructor
          · rintro ⟨⟩
          · rintro ⟨_, -, u1, others, hfirst, -⟩
            rw [Parses, hparse] at hfirst
            cases hfirst
      | ok u1 =>
          rw [pushBrokers_of_parses hparse, ih]
          constructor
          · rintro ⟨others, rfl, hrest⟩
            exact ⟨u1 :: others, List.append_assoc before [u1] others, u1, others, hparse, hrest,
              rfl⟩
          · rintro ⟨_, rfl, first, others, hfirst, hrest, rfl⟩
            rw [Parses, hparse] at hfirst
            cases hfirst
            exact ⟨others, (List.append_assoc before [u1] others).symm, hrest⟩

/-- What was stored before does not matter. -/
theorem setBrokers_ok_iff (brokers : String) (before stored : List URI) :
    (setBrokers brokers).run before = .ok () stored ↔
      List.Forall₂ Parses (pieces brokers.toList) stored := by
  have hrun : (setBrokers brokers).run before = (pushBrokers (pieces brokers.toList)).run [] := by
    rw [setBrokers, split_eq]
    rfl
  rw [hrun, pushBrokers_ok_iff]
  constructor
  · rintro ⟨uris, rfl, hparses⟩
    exact hparses
  · intro hparses
    exact ⟨stored, rfl, hparses⟩

end SetBrokers

/-- `split` returns the non-empty pieces between commas, in the order of the text, so that
commas at the ends or next to each other add nothing; `setBrokers` stores their URIs. -/
theorem brokerList_split :
    (∀ brokers : List Char,
      split brokers = .ok ((brokers.splitOn ',').filter fun piece => piece ≠ [])) ∧
    (∀ (brokers : List Char) (ret : List (List Char)), split brokers = .ok ret →
      ∀ piece ∈ ret, piece ≠ [] ∧ ',' ∉ piece) ∧
    (∀ brokers : List Char, split (',' :: brokers) = split brokers) ∧
    (∀ brokers : List Char, split (brokers ++ [',']) = split brokers) ∧
    (∀ before after : List Char,
      split (before ++ ',' :: ',' :: after) = split (before ++ ',' :: after)) ∧
    ∀ (brokers : String) (before stored : List URI),
      (setBrokers brokers).run before = .ok () stored ↔
        ∃ ret, split brokers.toList = .ok ret ∧ List.Forall₂ Parses ret stored := by
  refine ⟨split_eq, ?_, split_cons_comma, split_concat_comma, split_comma_comma, ?_⟩
  · intro brokers ret hsplit piece hmem
    rw [split_eq] at hsplit
    cases hsplit
    exact ⟨ne_nil_of_mem_pieces hmem, comma_notMem_of_mem_pieces hmem⟩
  · intro brokers before stored
    rw [setBrokers_ok_iff]
    constructor
    · intro hparses
      exact ⟨pieces brokers.toList, split_eq _, hparses⟩
    · rintro ⟨ret, hsplit, hparses⟩
      rw [split_eq] at hsplit
      cases hsplit
      exact hparses

end EpicsToKafka.ConfigParser
