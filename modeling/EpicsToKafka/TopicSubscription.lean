/-
`Consumer::addTopic`: the command topic is looked up in the metadata of the
broker, every partition is asked for its watermarks, and the partitions are
assigned from their high watermarks on.  The answers of librdkafka enter as
parameters.  The result of a query is ignored and its outputs are not
initialised: `none` stands for what an output holds that no query has written.
-/
import Mathlib.Data.List.Sort
import Mathlib.Data.List.Perm.Basic

namespace EpicsToKafka.KafkaW

structure TopicMetadata where
  topic : String
  partitions : List Int32
deriving Repr, DecidableEq

structure TopicPartition where
  topic : String
  partition : Int32
  offset : Option Int64
deriving Repr, DecidableEq

/-- A call of `query_watermark_offsets` with the low and high watermarks, if
it has succeeded. -/
structure WatermarkQuery where
  topic : String
  partition : Int32
  outcome : Option (Int64 × Int64)
deriving Repr, DecidableEq

/-- What librdkafka answers during one call of `addTopic`: the metadata of all
topics, the outcome of each query in turn, and whether the partitions could be
assigned. -/
structure ConsumerAnswers where
  metadata : Option (List TopicMetadata)
  watermarks : Nat → Option (Int64 × Int64)
  assigned : Bool

inductive ConsumerError where
  | metadataException (what : String)
  | runtimeError (what : String)
deriving Repr, DecidableEq

/-- A consumer with the metadata it has stored.  `queries` and `assignments`
are history: the queries made, and the lists `assign` was called with. -/
structure ConsumerState where
  metadata : List TopicMetadata := []
  queries : List WatermarkQuery := []
  assignments : List (List TopicPartition) := []
deriving Repr, DecidableEq

abbrev Consuming := EStateM ConsumerError ConsumerState

variable (answers : ConsumerAnswers) (topic : String)

def updateMetadata : Consuming Unit :=
  match answers.metadata with
  | none =>
      throw (.metadataException
        "Consumer::updateMetadata() - error while retrieving metadata.")
  | some topics => modify fun s => { s with metadata := topics }

def findTopic : Consuming TopicMetadata := do
  updateMetadata answers
  let s ← get
  match s.metadata.find? fun topicMetadata => topicMetadata.topic = topic with
  | none => throw (.runtimeError "Config topic does not exist")
  | some matchedTopic => return matchedTopic

/-- `sort` on partition numbers. -/
def sortPartitions (partitions : List Int32) : List Int32 :=
  partitions.insertionSort fun left right => left.toInt ≤ right.toInt

def getTopicPartitionNumbers : Consuming (List Int32) := do
  let matchedTopic ← findTopic answers topic
  return sortPartitions matchedTopic.partitions

/-- What `High` holds after the call. -/
def queryWatermarkOffsets (partition : Int32) : Consuming (Option Int64) := do
  let s ← get
  let query : WatermarkQuery := ⟨topic, partition, answers.watermarks s.queries.length⟩
  set { s with queries := s.queries ++ [query] }
  return query.outcome.map Prod.snd

/-- The loop over the partitions. -/
def topicPartitionsWithOffsets : List Int32 → Consuming (List TopicPartition)
  | [] => return []
  | partition :: partitions => do
      let high ← queryWatermarkOffsets answers topic partition
      let others ← topicPartitionsWithOffsets partitions
      return ⟨topic, partition, high⟩ :: others

def addTopic : Consuming Unit := do
  let partitions ← getTopicPartitionNumbers answers topic
  let topicPartitions ← topicPartitionsWithOffsets answers topic partitions
  modify fun s => { s with assignments := s.assignments ++ [topicPartitions] }
  if answers.assigned then pure ()
  else throw (.runtimeError ("Could not subscribe to " ++ topic))

/-- The topic in the metadata of the broker, if it gives any. -/
def ConsumerAnswers.matchedTopic (answers : ConsumerAnswers) (topic : String) :
    Option TopicMetadata :=
  answers.metadata.bind fun topics =>
    topics.find? fun topicMetadata => topicMetadata.topic = topic

/-- The offset of an entry is the high watermark of a query that succeeded. -/
def Reported (queries : List WatermarkQuery) (entry : TopicPartition) : Prop :=
  ∃ low high, entry.offset = some high ∧
    ⟨entry.topic, entry.partition, some (low, high)⟩ ∈ queries

/-- The subscription to a topic: an entry for each partition, in order, each
with an offset that was reported. -/
structure Subscription (topic : String) (partitions : List Int32) (queries : List WatermarkQuery)
    (entries : List TopicPartition) : Prop where
  partitions : (entries.map TopicPartition.partition).Perm partitions
  ascending : entries.Pairwise fun left right => left.partition.toInt ≤ right.partition.toInt
  topic : ∀ entry ∈ entries, entry.topic = topic
  reported : ∀ entry ∈ entries, Reported queries entry

/-- A call subscribes or throws, and assigns no offset that was not reported
even if it throws. -/
structure SubscribesOrThrows (answers : ConsumerAnswers) (topic : String)
    (metadata : List TopicMetadata) : Prop where
  outcome : (∃ e after, (addTopic answers topic).run { metadata } = .error e after) ∨
    ∃ after matchedTopic entries, (addTopic answers topic).run { metadata } = .ok () after ∧
      answers.matchedTopic topic = some matchedTopic ∧ after.assignments = [entries] ∧
      Subscription topic matchedTopic.partitions after.queries entries
  never : ∀ after, (addTopic answers topic).run { metadata } = .ok () after ∨
    (∃ e, (addTopic answers topic).run { metadata } = .error e after) →
      ∀ entries ∈ after.assignments, ∀ entry ∈ entries, Reported after.queries entry

/-- The queries of a call, the first of them at an index. -/
def queriesMade (answers : ConsumerAnswers) (topic : String) :
    Nat → List Int32 → List WatermarkQuery
  | _, [] => []
  | index, partition :: partitions =>
      ⟨topic, partition, answers.watermarks index⟩ ::
        queriesMade answers topic (index + 1) partitions

/-- The entry that is assigned after a query. -/
def WatermarkQuery.entry (query : WatermarkQuery) : TopicPartition :=
  ⟨query.topic, query.partition, query.outcome.map Prod.snd⟩

section Loop

variable {answers topic}

theorem map_partition_queriesMade (index : Nat) (partitions : List Int32) :
    (queriesMade answers topic index partitions).map WatermarkQuery.partition = partitions := by
  induction partitions generalizing index with
  | nil => rfl
  | cons partition partitions ih => rw [queriesMade, List.map_cons, ih]

theorem topic_of_mem_queriesMade {index : Nat} {partitions : List Int32} {query : WatermarkQuery}
    (hquery : query ∈ queriesMade answers topic index partitions) : query.topic = topic := by
  induction partitions generalizing index with
  | nil => cases hquery
  | cons partition partitions ih =>
      rcases List.mem_cons.mp hquery with rfl | hquery
      · rfl
      · exact ih hquery

theorem queriesMade_succeed_iff (index : Nat) (partitions : List Int32) :
    (∀ query ∈ queriesMade answers topic index partitions, query.outcome.isSome = true) ↔
      ∀ i < partitions.length, (answers.watermarks (index + i)).isSome = true := by
  induction partitions generalizing index with
  | nil => simp [queriesMade]
  | cons partition partitions ih =>
      rw [queriesMade, List.forall_mem_cons, ih, List.length_cons]
      constructor
      · rintro ⟨hfirst, hrest⟩ i hi
        cases i with
        | zero => exact hfirst
        | succ i =>
            have hnext := hrest i (by omega)
            rwa [Nat.add_assoc, Nat.add_comm 1 i] at hnext
      · intro hall
        refine ⟨hall 0 (by omega), fun i hi => ?_⟩
        rw [Nat.add_assoc, Nat.add_comm 1 i]
        exact hall (i + 1) (by omega)

/-- The loop makes the queries one after the other. -/
theorem topicPartitionsWithOffsets_run (partitions : List Int32) (s : ConsumerState) :
    (topicPartitionsWithOffsets answers topic partitions).run s =
      .ok ((queriesMade answers topic s.queries.length partitions).map WatermarkQuery.entry)
        { s with
          queries := s.queries ++ queriesMade answers topic s.queries.length partitions } := by
  induction partitions generalizing s with
  | nil =>
      rw [queriesMade, List.append_nil]
      rfl
  | cons partition partitions ih =>
      have hrest := ih { s with
        queries := s.queries ++ [⟨topic, partition, answers.watermarks s.queries.length⟩] }
      rw [List.length_append, List.length_singleton, List.append_assoc] at hrest
      simp only [topicPartitionsWithOffsets, queryWatermarkOffsets, EStateM.run_bind,
        EStateM.run_get, EStateM.run_set, EStateM.run_pure, hrest]
      rfl

/-- The offsets that are assigned are reported exactly if every query has
succeeded. -/
theorem reported_iff (queries : List WatermarkQuery) :
    (∀ entry ∈ queries.map WatermarkQuery.entry, Reported queries entry) ↔
      ∀ query ∈ queries, query.outcome.isSome = true := by
  rw [List.forall_mem_map]
  refine forall₂_congr fun query hquery => ?_
  constructor
  · rintro ⟨low, high, hoffset, -⟩
    rw [← @Option.isSome_map _ _ Prod.snd query.outcome]
    exact Option.isSome_iff_exists.mpr ⟨high, hoffset⟩
  · intro hsome
    obtain ⟨⟨low, high⟩, houtcome⟩ := Option.isSome_iff_exists.mp hsome
    refine ⟨low, high, ?_, ?_⟩
    · rw [WatermarkQuery.entry, houtcome]
      rfl
    · rw [← houtcome]
      exact hquery

end Loop

section AddTopic

variable {answers topic} {metadata : List TopicMetadata}

theorem addTopic_run_of_no_metadata (hmetadata : answers.metadata = none) :
    ∃ e, (addTopic answers topic).run { metadata } = .error e { metadata } := by
  refine ⟨.metadataException "Consumer::updateMetadata() - error while retrieving metadata.", ?_⟩
  simp only [addTopic, getTopicPartitionNumbers, findTopic, updateMetadata, hmetadata]
  rfl

theorem addTopic_run_of_no_topic {topics : List TopicMetadata}
    (hmetadata : answers.metadata = some topics)
    (hfind : (topics.find? fun topicMetadata => topicMetadata.topic = topic) = none) :
    ∃ e, (addTopic answers topic).run { metadata } = .error e { metadata := topics } := by
  refine ⟨.runtimeError "Config topic does not exist", ?_⟩
  simp only [addTopic, getTopicPartitionNumbers, findTopic, updateMetadata, hmetadata,
    EStateM.run_bind, EStateM.run_modify, EStateM.run_get, hfind]
  rfl

/-- What has been assigned does not depend on whether `assign` succeeds. -/
theorem addTopic_run_of_topic {topics : List TopicMetadata} {matchedTopic : TopicMetadata}
    (hmetadata : answers.metadata = some topics)
    (hfind : (topics.find? fun topicMetadata => topicMetadata.topic = topic) =
      some matchedTopic) :
    let queries := queriesMade answers topic 0 (sortPartitions matchedTopic.partitions)
    let after : ConsumerState :=
      { metadata := topics, queries, assignments := [queries.map WatermarkQuery.entry] }
    (addTopic answers topic).run { metadata } =
      if answers.assigned then .ok () after
      else .error (.runtimeError ("Could not subscribe to " ++ topic)) after := by
  intro queries after
  have hloop := @topicPartitionsWithOffsets_run answers topic
    (sortPartitions matchedTopic.partitions) { metadata := topics }
  simp only [addTopic, getTopicPartitionNumbers, findTopic, updateMetadata, hmetadata,
    EStateM.run_bind, EStateM.run_modify, EStateM.run_get, hfind, EStateM.run_pure, hloop]
  split <;> rfl

theorem sortPartitions_perm (partitions : List Int32) :
    (sortPartitions partitions).Perm partitions :=
  List.perm_insertionSort _ partitions

theorem sortPartitions_pairwise (partitions : List Int32) :
    (sortPartitions partitions).Pairwise fun left right => left.toInt ≤ right.toInt := by
  have : Std.Total fun left right : Int32 => left.toInt ≤ right.toInt :=
    ⟨fun left right => le_total left.toInt right.toInt⟩
  have : IsTrans Int32 fun left right : Int32 => left.toInt ≤ right.toInt :=
    ⟨fun _ _ _ hfirst hsecond => le_trans hfirst hsecond⟩
  exact List.pairwise_insertionSort _ partitions

theorem subscription_of_succeed {matchedTopic : TopicMetadata}
    (hsucceed : ∀ query ∈ queriesMade answers topic 0 (sortPartitions matchedTopic.partitions),
      query.outcome.isSome = true) :
    Subscription topic matchedTopic.partitions
      (queriesMade answers topic 0 (sortPartitions matchedTopic.partitions))
      ((queriesMade answers topic 0 (sortPartitions matchedTopic.partitions)).map
        WatermarkQuery.entry) := by
  have hpartitions : ((queriesMade answers topic 0 (sortPartitions matchedTopic.partitions)).map
      WatermarkQuery.entry).map TopicPartition.partition =
        sortPartitions matchedTopic.partitions := by
    rw [List.map_map]
    exact map_partition_queriesMade 0 _
  refine ⟨?_, ?_, ?_, (reported_iff _).mpr hsucceed⟩
  · rw [hpartitions]
    exact sortPartitions_perm _
  · have hsorted := sortPartitions_pairwise matchedTopic.partitions
    rw [← hpartitions, List.pairwise_map] at hsorted
    exact hsorted
  · rw [List.forall_mem_map]
    exact fun query hquery => topic_of_mem_queriesMade hquery

/-- A call that throws before it assigns anything. -/
theorem subscribesOrThrows_of_error {e : ConsumerError} {topics : List TopicMetadata}
    (hrun : (addTopic answers topic).run { metadata } = .error e { metadata := topics }) :
    SubscribesOrThrows answers topic metadata := by
  refine ⟨Or.inl ⟨e, _, hrun⟩, ?_⟩
  rintro after (hok | ⟨e', herror⟩)
  · rw [hrun] at hok
    cases hok
  · rw [hrun, EStateM.Result.error.injEq] at herror
    rw [← herror.2]
    rintro entries ⟨⟩

/-- Whether `assign` succeeds or not, every partition has been queried and the
answers have been assigned. -/
theorem addTopic_after_of_topic {topics : List TopicMetadata} {matchedTopic : TopicMetadata}
    {after : ConsumerState} (hmetadata : answers.metadata = some topics)
    (hfind : (topics.find? fun topicMetadata => topicMetadata.topic = topic) =
      some matchedTopic)
    (hafter : (addTopic answers topic).run { metadata } = .ok () after ∨
      ∃ e, (addTopic answers topic).run { metadata } = .error e after) :
    after.queries = queriesMade answers topic 0 (sortPartitions matchedTopic.partitions) ∧
      after.assignments = [after.queries.map WatermarkQuery.entry] := by
  rw [addTopic_run_of_topic hmetadata hfind] at hafter
  split at hafter
  · rcases hafter with hok | ⟨e, herror⟩
    · cases hok
      exact ⟨rfl, rfl⟩
    · cases herror
  · rcases hafter with hok | ⟨e, herror⟩
    · cases hok
    · rw [EStateM.Result.error.injEq] at herror
      rw [← herror.2]
      exact ⟨rfl, rfl⟩

/-- A call that assigns the partitions. -/
theorem subscribesOrThrows_of_topic {topics : List TopicMetadata} {matchedTopic : TopicMetadata}
    (hmetadata : answers.metadata = some topics)
    (hfind : (topics.find? fun topicMetadata => topicMetadata.topic = topic) =
      some matchedTopic) :
    SubscribesOrThrows answers topic metadata ↔
      ∀ query ∈ queriesMade answers topic 0 (sortPartitions matchedTopic.partitions),
        query.outcome.isSome = true := by
  have hrun := @addTopic_run_of_topic answers topic metadata _ _ hmetadata hfind
  constructor
  · intro hsubscribes
    rw [← reported_iff]
    -- The state is the one that both outcomes leave.
    by_cases hassigned : answers.assigned = true
    · exact hsubscribes.never _ (Or.inl (hrun.trans (if_pos hassigned))) _
        (List.mem_singleton_self _)
    · exact hsubscribes.never _ (Or.inr ⟨_, hrun.trans (if_neg hassigned)⟩) _
        (List.mem_singleton_self _)
  · intro hsucceed
    refine ⟨?_, ?_⟩
    · by_cases hassigned : answers.assigned = true
      · refine Or.inr ⟨_, matchedTopic, _, hrun.trans (if_pos hassigned), ?_, rfl,
          subscription_of_succeed hsucceed⟩
        rw [ConsumerAnswers.matchedTopic, hmetadata, Option.bind_some, hfind]
      · exact Or.inl ⟨_, _, hrun.trans (if_neg hassigned)⟩
    · intro after hafter entries hentries
      obtain ⟨hqueries, hassignments⟩ := addTopic_after_of_topic hmetadata hfind hafter
      rw [hassignments, List.mem_singleton] at hentries
      rw [hentries, reported_iff, hqueries]
      exact hsucceed

end AddTopic

/-- A call subscribes to a topic as it should, whatever the broker answers,
exactly if every query for a partition of the topic succeeds. -/
theorem subscribesOrThrows_iff (answers : ConsumerAnswers) (topic : String)
    (metadata : List TopicMetadata) :
    SubscribesOrThrows answers topic metadata ↔
      ∀ matchedTopic, answers.matchedTopic topic = some matchedTopic →
        ∀ i < matchedTopic.partitions.length, (answers.watermarks i).isSome = true := by
  cases hmetadata : answers.metadata with
  | none =>
      obtain ⟨e, hrun⟩ := @addTopic_run_of_no_metadata answers topic metadata hmetadata
      refine iff_of_true (subscribesOrThrows_of_error hrun) ?_
      simp [ConsumerAnswers.matchedTopic, hmetadata]
  | some topics =>
      have hmatched : answers.matchedTopic topic =
          topics.find? fun topicMetadata => topicMetadata.topic = topic := by
        rw [ConsumerAnswers.matchedTopic, hmetadata, Option.bind_some]
      cases hfind : topics.find? fun topicMetadata => topicMetadata.topic = topic with
      | none =>
          obtain ⟨e, hrun⟩ := @addTopic_run_of_no_topic answers topic metadata _ hmetadata hfind
          refine iff_of_true (subscribesOrThrows_of_error hrun) ?_
          simp [hmatched, hfind]
      | some matchedTopic =>
          rw [hfind] at hmatched
          have hlength : (sortPartitions matchedTopic.partitions).length =
              matchedTopic.partitions.length := (sortPartitions_perm _).length_eq
          rw [subscribesOrThrows_of_topic hmetadata hfind, queriesMade_succeed_iff, hlength]
          simp only [hmatched, Option.some.injEq, forall_eq', Nat.zero_add]

/-- The query for the only partition fails: what is assigned is no offset that
was reported. -/
theorem failedQuery_assigned :
    (addTopic ⟨some [⟨"commands", [0]⟩], fun _ => none, true⟩ "commands").run {} =
      .ok () ⟨[⟨"commands", [0]⟩], [⟨"commands", 0, none⟩], [[⟨"commands", 0, none⟩]]⟩ ∧
    ¬ SubscribesOrThrows ⟨some [⟨"commands", [0]⟩], fun _ => none, true⟩ "commands" [] := by
  have hrun : (addTopic ⟨some [⟨"commands", [0]⟩], fun _ => none, true⟩ "commands").run {} =
      .ok () ⟨[⟨"commands", [0]⟩], [⟨"commands", 0, none⟩], [[⟨"commands", 0, none⟩]]⟩ := by
    rw [addTopic_run_of_topic rfl rfl, if_pos rfl]
    rfl
  refine ⟨hrun, fun hsubscribes => ?_⟩
  obtain ⟨low, high, hoffset, -⟩ := hsubscribes.never _ (Or.inl hrun)
    [⟨"commands", 0, none⟩] (List.mem_singleton_self _) ⟨"commands", 0, none⟩
    (List.mem_singleton_self _)
  cases hoffset

end EpicsToKafka.KafkaW
