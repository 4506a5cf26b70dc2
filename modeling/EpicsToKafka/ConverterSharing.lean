/-
Which conversion paths share a converter.  In every run two paths hold the
same converter exactly if they were asked for under the same non-empty name,
but that name may be one that the parser has made up.  A session that records
the names as they stand in the JSON tells the two apart.
-/
import EpicsToKafka.ConverterNames
import Mathlib.Data.List.Nodup

namespace EpicsToKafka

open scoped List

/-- If one element of a list yields one item more, the whole list does. -/
theorem flatMap_perm_append {α β κ : Type} (key : α → κ) {f g : α → List β} {k : κ}
    {added : β} {elements : List α} (hnodup : (elements.map key).Nodup)
    (hmem : k ∈ elements.map key) (hother : ∀ x ∈ elements, key x ≠ k → g x = f x)
    (hchanged : ∀ x ∈ elements, key x = k → g x = f x ++ [added]) :
    elements.flatMap g ~ elements.flatMap f ++ [added] := by
  induction elements with
  | nil => simp at hmem
  | cons x rest ih =>
      obtain ⟨hx, hrest⟩ := List.nodup_cons.mp hnodup
      rw [List.flatMap_cons, List.flatMap_cons]
      by_cases hkey : key x = k
      · have hsame : rest.flatMap g = rest.flatMap f := by
          refine List.flatMap_congr fun y hy => hother y (.tail _ hy) ?_
          rintro rfl
          exact hx (hkey ▸ List.mem_map_of_mem hy)
        rw [hchanged x List.mem_cons_self hkey, hsame, List.append_assoc, List.append_assoc]
        exact List.perm_append_comm.append_left _
      · rw [hother x List.mem_cons_self hkey, List.append_assoc]
        apply List.Perm.append_left
        apply ih hrest
        · exact (List.mem_cons.mp hmem).resolve_left fun hk => hkey hk.symm
        · exact fun y hy => hother y (.tail _ hy)
        · exact fun y hy => hchanged y (.tail _ hy)

/-- What `addConverter` makes of the paths of its stream. -/
def addPath (added : ConversionPath) (paths : List ConversionPath) : List ConversionPath :=
  if paths.any fun test =>
      added.output.name = test.output.name && added.converter.schema = test.converter.schema then
    paths
  else paths ++ [added]

theorem addPath_cases (added : ConversionPath) (paths : List ConversionPath) :
    addPath added paths = paths ∨ addPath added paths = paths ++ [added] := by
  unfold addPath
  split
  · exact Or.inl rfl
  · exact Or.inr rfl

theorem MappedStream.addConverter_conversionPaths (stream : MappedStream)
    (added : ConversionPath) :
    (stream.addConverter added).conversionPaths = addPath added stream.conversionPaths := by
  unfold addConverter addPath
  split <;> rfl

theorem Forwarder.pathLists_addConverter (s : Forwarder) (stream : Nat)
    (added : ConversionPath) :
    (s.updateStream stream fun stream => stream.addConverter added).pathLists =
      s.pathLists.map fun entry =>
        if entry.1 = stream then (entry.1, addPath added entry.2) else entry := by
  simp only [pathLists, liveStreams, updateStream, ← List.map_append, List.map_map]
  refine List.map_congr_left fun owner _ => ?_
  simp only [Function.comp_apply]
  split
  · rw [MappedStream.addConverter_conversionPaths, MappedStream.addConverter_address]
  · rfl

@[simp] theorem Forwarder.afterObtain_pathLists (s : Forwarder)
    (converterInfo : ConverterSettings) :
    (s.afterObtain converterInfo).pathLists = s.pathLists := by
  unfold afterObtain
  split <;> rfl

/-- Streams are told apart by their addresses. -/
structure AddressesOk (s : Forwarder) : Prop where
  distinct : (s.pathLists.map Prod.fst).Nodup
  allocated : ∀ entry ∈ s.pathLists, entry.1 < s.nextAddress

namespace AddressesOk

variable {s s' : Forwarder}

theorem streamsKept (hok : AddressesOk s) (hkept : StreamsKept s s') : AddressesOk s' := by
  rcases hkept.pathLists with hsubperm | ⟨hperm, hnext⟩
  · constructor
    · obtain ⟨middle, hmiddle, hsublist⟩ := hsubperm
      exact (hmiddle.map Prod.fst).nodup_iff.mp
        ((hsublist.map Prod.fst).nodup hok.distinct)
    · exact fun entry hentry => Nat.lt_of_lt_of_le
        (hok.allocated entry (hsubperm.subset hentry)) hkept.nextAddress
  · constructor
    · rw [(hperm.map Prod.fst).nodup_iff, List.map_cons, List.nodup_cons]
      refine ⟨fun hmem => ?_, hok.distinct⟩
      obtain ⟨entry, hentry, haddress⟩ := List.mem_map.mp hmem
      exact Nat.lt_irrefl _ (haddress ▸ hok.allocated entry hentry)
    · intro entry hentry
      rcases List.mem_cons.mp (hperm.subset hentry) with rfl | hold
      · exact hnext
      · exact Nat.lt_trans (hok.allocated entry hold) hnext

theorem addConverter (hok : AddressesOk s) (stream : Nat) (added : ConversionPath) :
    AddressesOk (s.updateStream stream fun stream => stream.addConverter added) := by
  have haddresses : (s.updateStream stream fun stream =>
      stream.addConverter added).pathLists.map Prod.fst = s.pathLists.map Prod.fst := by
    rw [Forwarder.pathLists_addConverter, List.map_map]
    refine List.map_congr_left fun entry _ => ?_
    simp only [Function.comp_apply]
    split <;> rfl
  constructor
  · rw [haddresses]
    exact hok.distinct
  · intro entry hentry
    have hmem := List.mem_map_of_mem (f := Prod.fst) hentry
    rw [haddresses] at hmem
    obtain ⟨old, hold, haddress⟩ := List.mem_map.mp hmem
    exact haddress ▸ hok.allocated old hold

theorem afterObtain (hok : AddressesOk s) (converterInfo : ConverterSettings) :
    AddressesOk (s.afterObtain converterInfo) := by
  have hnext := s.nextAddress_le_afterObtain converterInfo
  have hlists := s.afterObtain_pathLists converterInfo
  constructor
  · rw [hlists]
    exact hok.distinct
  · rw [hlists]
    exact fun entry hentry => Nat.lt_of_lt_of_le (hok.allocated entry hentry) hnext

theorem withHosts (hok : AddressesOk s) (hosts : List String) :
    AddressesOk { s with producersByHost := hosts } :=
  hok.streamsKept ((PathsKept.refl s).withHosts hosts).toStreamsKept

theorem pushMove (hok : AddressesOk s) {converterInfo : ConverterSettings} {stream : Nat}
    (hmove : PushMove converterInfo stream s s') : AddressesOk s' := by
  have hobtained := hok.afterObtain converterInfo
  cases hmove with
  | thrown => exact hok
  | obtained hosts _ _ => exact hobtained.withHosts hosts
  | pushed uri _ _ => exact (hobtained.withHosts _).addConverter stream _

end AddressesOk

/-- A path is added to the one stream with the address, or to none. -/
theorem Forwarder.pathLists_addConverter_cases {s : Forwarder} (hok : AddressesOk s)
    (stream : Nat) (added : ConversionPath) :
    (s.updateStream stream fun stream => stream.addConverter added).pathLists = s.pathLists ∨
      (stream ∈ s.pathLists.map Prod.fst ∧
        (s.updateStream stream fun stream => stream.addConverter added).pathLists =
          s.pathLists.map fun entry =>
            if entry.1 = stream then (entry.1, entry.2 ++ [added]) else entry) := by
  rw [pathLists_addConverter]
  by_cases hgrows : ∃ paths, (stream, paths) ∈ s.pathLists ∧ addPath added paths ≠ paths
  · obtain ⟨paths, hmem, hne⟩ := hgrows
    refine Or.inr ⟨List.mem_map_of_mem hmem, List.map_congr_left fun entry hentry => ?_⟩
    split
    · rename_i haddress
      have hsame : entry = (stream, paths) :=
        List.inj_on_of_nodup_map hok.distinct hentry hmem haddress
      rw [hsame, (addPath_cases added paths).resolve_left hne]
    · rfl
  · refine Or.inl ((List.map_congr_left fun entry hentry => ?_).trans (List.map_id _))
    split
    · rename_i haddress
      have hkept : addPath added entry.2 = entry.2 := by
        by_contra hne
        exact hgrows ⟨entry.2, haddress ▸ hentry, hne⟩
      rw [hkept]
      rfl
    · rfl

/-- A change of the state that adds one path to one stream. -/
structure PathAdded (stream : Nat) (added : ConversionPath) (s s' : Forwarder) : Prop where
  owner : stream ∈ s.pathLists.map Prod.fst
  pathLists : s'.pathLists = s.pathLists.map fun entry =>
    if entry.1 = stream then (entry.1, entry.2 ++ [added]) else entry
  nextAddress : s.nextAddress ≤ s'.nextAddress

namespace PathAdded

variable {s s' : Forwarder} {stream : Nat} {added : ConversionPath}

/-- What is read off the lists of paths before and after. -/
theorem flatMap (hadded : PathAdded stream added s s') (hok : AddressesOk s) {α : Type}
    {f g : Nat × List ConversionPath → List α} {item : α}
    (hother : ∀ entry ∈ s.pathLists, entry.1 ≠ stream → g entry = f entry)
    (hchanged : ∀ paths, (stream, paths) ∈ s.pathLists →
      g (stream, paths ++ [added]) = f (stream, paths) ++ [item]) :
    s'.pathLists.flatMap g ~ s.pathLists.flatMap f ++ [item] := by
  rw [hadded.pathLists, List.flatMap_map]
  apply flatMap_perm_append Prod.fst hok.distinct hadded.owner
  · intro entry hentry hne
    rw [if_neg hne]
    exact hother entry hentry hne
  · rintro ⟨address, paths⟩ hentry rfl
    rw [if_pos rfl]
    exact hchanged paths hentry

theorem livePaths (hadded : PathAdded stream added s s') (hok : AddressesOk s) :
    s'.livePaths ~ s.livePaths ++ [added] := by
  rw [Forwarder.livePaths_eq, Forwarder.livePaths_eq]
  exact hadded.flatMap hok (fun _ _ _ => rfl) fun _ _ => rfl

end PathAdded

/-- A push changes no stream, or adds the path that was asked for to its stream. -/
theorem PushMove.streamsKept_or {s s' : Forwarder} (hok : AddressesOk s)
    {converterInfo : ConverterSettings} {stream : Nat}
    (hmove : PushMove converterInfo stream s s') :
    StreamsKept s s' ∨ ∃ output,
      converterInfo.schema ∈ registeredSchemas ∧ (topicHost converterInfo.topic).isSome ∧
      s'.converters = (s.afterObtain converterInfo).converters ∧
      PathAdded stream ⟨s.converterFor converterInfo, output, converterInfo⟩ s s' := by
  have hnext := s.nextAddress_le_afterObtain converterInfo
  have hobtained := s.afterObtain_pathLists converterInfo
  cases hmove with
  | thrown => exact Or.inl ⟨Or.inl (.refl _), Nat.le_refl _⟩
  | obtained hosts _ _ => exact Or.inl ⟨Or.inl (hobtained ▸ .refl _), hnext⟩
  | pushed uri hschema hhost =>
      have hhosts := (hok.afterObtain converterInfo).withHosts
        ((s.afterObtain converterInfo).producersByHost.insert uri.hostPort)
      have hlists : ({ s.afterObtain converterInfo with
          producersByHost :=
            (s.afterObtain converterInfo).producersByHost.insert uri.hostPort } :
              Forwarder).pathLists = s.pathLists := hobtained
      rcases Forwarder.pathLists_addConverter_cases hhosts stream
        ⟨s.converterFor converterInfo, ⟨uri.hostPort, uri.topic⟩, converterInfo⟩ with
        hsame | ⟨howner, hgrown⟩
      · exact Or.inl ⟨Or.inl (hsame.trans hlists ▸ .refl _), hnext⟩
      · rw [hlists] at howner hgrown
        exact Or.inr ⟨_, hschema, hhost, rfl, howner, hgrown, hnext⟩

/-- What every run guarantees of the converters in use. -/
structure SharingOk (s : Forwarder) : Prop where
  registry : RegistryOk s
  addresses : AddressesOk s
  current : ∀ path ∈ s.livePaths, path.requested.name ≠ "" →
    s.converters.lookup path.requested.name = some path.converter.address
  unnamed : s.livePaths.Pairwise fun path other =>
    path.requested.name = "" ∨ other.requested.name = "" →
      path.converter.address ≠ other.converter.address

namespace Forwarder

variable {s : Forwarder}

/-- A name under which a path was asked for leads to its converter while the
path lives. -/
theorem findConverter_of_live {path : ConversionPath} (hpath : path ∈ s.livePaths)
    (hname : path.requested.name ≠ "")
    (hlookup : s.converters.lookup path.requested.name = some path.converter.address) :
    ∃ converter, s.findConverter path.requested.name = some converter := by
  unfold findConverter lock
  rw [if_neg hname, hlookup, Option.bind_some, ← Option.isSome_iff_exists, List.find?_isSome]
  exact ⟨path.converter, List.mem_map_of_mem hpath, by simp⟩

/-- A request does not take the name of a live path away from its converter. -/
theorem lookup_afterObtain_of_live {path : ConversionPath} (hpath : path ∈ s.livePaths)
    (hname : path.requested.name ≠ "")
    (hlookup : s.converters.lookup path.requested.name = some path.converter.address)
    (converterInfo : ConverterSettings) :
    (s.afterObtain converterInfo).converters.lookup path.requested.name =
      some path.converter.address := by
  obtain ⟨converter, hfound⟩ := findConverter_of_live hpath hname hlookup
  unfold afterObtain
  cases hfind : s.findConverter converterInfo.name with
  | some other => exact hlookup
  | none =>
      simp only
      split
      · exact hlookup
      · have hne : path.requested.name ≠ converterInfo.name := by
          intro hsame
          rw [hsame, hfind] at hfound
          cases hfound
        rw [List.lookup_cons, beq_eq_false_iff_ne.mpr hne]
        exact hlookup

theorem lookup_converterFor {converterInfo : ConverterSettings}
    (hname : converterInfo.name ≠ "") :
    (s.afterObtain converterInfo).converters.lookup converterInfo.name =
      some (s.converterFor converterInfo).address := by
  unfold afterObtain converterFor
  cases hfind : s.findConverter converterInfo.name with
  | some converter => exact (exists_path_of_findConverter hfind).2.1
  | none => simp [hname]

/-- A path without a name, or a request without one, shares with nobody. -/
theorem converterFor_unnamed (hok : RegistryOk s) {converterInfo : ConverterSettings}
    {path : ConversionPath} (hpath : path ∈ s.livePaths)
    (hunnamed : path.requested.name = "" ∨ converterInfo.name = "") :
    path.converter.address ≠ (s.converterFor converterInfo).address := by
  intro hsame
  unfold converterFor at hsame
  cases hfind : s.findConverter converterInfo.name with
  | some converter =>
      obtain ⟨hname, hlookup, -⟩ := exists_path_of_findConverter hfind
      rw [hfind] at hsame
      have hasked := hok.named _ _ hlookup path hpath hsame
      rcases hunnamed with hempty | hempty
      · exact hname (hasked ▸ hempty)
      · exact hname hempty
  | none =>
      rw [hfind] at hsame
      exact Nat.lt_irrefl _ (hsame ▸ hok.fresh path hpath)

end Forwarder

namespace SharingOk

variable {s s' : Forwarder}

theorem unnamed_streamsKept (hok : SharingOk s) (hkept : StreamsKept s s') :
    s'.livePaths.Pairwise fun path other =>
      path.requested.name = "" ∨ other.requested.name = "" →
        path.converter.address ≠ other.converter.address := by
  obtain ⟨middle, hperm, hsublist⟩ := hkept.livePaths
  refine hperm.pairwise (hok.unnamed.sublist hsublist) ?_
  intro path other hapart hunnamed
  exact (hapart hunnamed.symm).symm

theorem pathsKept (hok : SharingOk s) (hkept : PathsKept s s') : SharingOk s' where
  registry := hok.registry.pathsKept hkept
  addresses := hok.addresses.streamsKept hkept.toStreamsKept
  current path hpath hname := by
    rw [hkept.converters]
    exact hok.current path (hkept.mem hpath) hname
  unnamed := hok.unnamed_streamsKept hkept.toStreamsKept

theorem lookup_pushMove (hok : SharingOk s) {converterInfo : ConverterSettings}
    {stream : Nat} (hmove : PushMove converterInfo stream s s') {path : ConversionPath}
    (hpath : path ∈ s.livePaths) (hname : path.requested.name ≠ "") :
    s'.converters.lookup path.requested.name = some path.converter.address := by
  have hlookup := hok.current path hpath hname
  have hobtained := Forwarder.lookup_afterObtain_of_live hpath hname hlookup converterInfo
  cases hmove with
  | thrown => exact hlookup
  | obtained hosts _ _ => exact hobtained
  | pushed uri _ _ => exact hobtained

theorem pushMove (hok : SharingOk s) {converterInfo : ConverterSettings} {stream : Nat}
    (hmove : PushMove converterInfo stream s s') : SharingOk s' := by
  rcases hmove.streamsKept_or hok.addresses with
    hkept | ⟨output, -, -, hconverters, hadded⟩
  · refine ⟨hok.registry.pushMove hmove, hok.addresses.pushMove hmove, ?_,
      hok.unnamed_streamsKept hkept⟩
    exact fun path hpath hname => hok.lookup_pushMove hmove (hkept.mem hpath) hname
  · have hperm := hadded.livePaths hok.addresses
    refine ⟨hok.registry.pushMove hmove, hok.addresses.pushMove hmove, ?_, ?_⟩
    · intro path hpath hname
      rcases List.mem_append.mp (hperm.subset hpath) with hold | hnew
      · exact hok.lookup_pushMove hmove hold hname
      · obtain rfl := List.mem_singleton.mp hnew
        rw [hconverters]
        exact Forwarder.lookup_converterFor hname
    · refine hperm.symm.pairwise ?_ fun hapart hunnamed => (hapart hunnamed.symm).symm
      rw [List.pairwise_append]
      refine ⟨hok.unnamed, List.pairwise_singleton _ _, ?_⟩
      intro path hpath other hnew hunnamed
      obtain rfl := List.mem_singleton.mp hnew
      exact Forwarder.converterFor_unnamed hok.registry hpath hunnamed

/-- Two paths hold the same converter exactly if they were asked for under the
same non-empty name. -/
theorem shares_iff (hok : SharingOk s) :
    s.livePaths.Pairwise fun path other =>
      path.converter.address = other.converter.address ↔
        path.requested.name = other.requested.name ∧ path.requested.name ≠ "" := by
  refine hok.unnamed.imp_of_mem ?_
  intro path other hpath hother hunnamed
  constructor
  · intro hsame
    have hname : path.requested.name ≠ "" := fun hempty => hunnamed (Or.inl hempty) hsame
    have hlookup := hok.current path hpath hname
    exact ⟨(hok.registry.named _ _ hlookup other hother hsame.symm).symm, hname⟩
  · rintro ⟨hsame, hname⟩
    have hlookup := hok.current path hpath hname
    rw [hsame, hok.current other hother (hsame ▸ hname)] at hlookup
    exact (Option.some.inj hlookup).symm

end SharingOk

theorem reachable_sharingOk {opt : MainOpt} {s : Session}
    (hreach : (sessionSystem opt).Reachable s) : SharingOk s.forwarder := by
  apply hreach.invariant
  · rintro state ⟨streamsInfo, rfl⟩
    constructor
    · constructor <;> simp [Forwarder.livePaths, Forwarder.liveStreams]
    · constructor <;> simp [Forwarder.pathLists, Forwarder.liveStreams]
    all_goals simp [Forwarder.livePaths, Forwarder.liveStreams]
  · intro state action next _ hok hstep
    rcases (Session.step_move hstep).pathsKept_or with
      hkept | ⟨_, _, _, _, _, _, _, _, hpush⟩
    · exact hok.pathsKept hkept
    · exact hok.pushMove hpush

end EpicsToKafka
