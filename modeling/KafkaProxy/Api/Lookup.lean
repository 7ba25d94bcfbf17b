import KafkaProxy.Api.Window

/-!
# A partition without an end offset

A failed lookup is only logged, and a partition whose entry has an error is passed over. The listing
cannot tell either of them from a partition without messages.
-/

namespace KafkaProxy.Api
open Library

/-- The lookup of a topic with these partitions gave `stop` as the end of one. -/
def Client.Answers (client : Client) (topic : String) (partitions : List Int) (part stop : Int) :
    Prop :=
  ∃ resp, client.sendToAnyBroker (listOffsetsRequest topic partitions) = .ok resp ∧
    ∃ rp ∈ topicOffsets topic resp, rp.errorCode = 0 ∧ rp.partitionIndex = part ∧ rp.offset = stop

/-- A response has one entry for a partition. -/
def Client.AnswersOnce (client : Client) (topic : String) : Prop :=
  ∀ request resp, client.sendToAnyBroker request = .ok resp →
    ((topicOffsets topic resp).map (·.partitionIndex)).Nodup

/-- If a listing has no message of a partition, the partition is known to have none, or there was no
time to read them. -/
def SilentOnlyIfEmpty (client : Client) (iteration : Iteration Int (List ConsumerRecord))
    (topic : String) (count : Nat) : Prop :=
  ∀ listing, (latestMessages client iteration topic count).run = some (.ok listing) →
    ∀ desc, client.describeTopics [topic] = .ok desc → ∀ part ∈ desc.flatMap (·.partitions),
      (∀ m ∈ listing.messages, m.partition ≠ part) →
        (∃ stop ≤ 0, client.Answers topic (desc.flatMap (·.partitions)) part stop) ∨
        ∃ ends, fetchLogEndOffsets client topic = .ok ends ∧
          endsInTime count ends (client.polls count ends) = false

variable {client : Client} {iteration : Iteration Int (List ConsumerRecord)} {topic : String}
  {count : Nat} {desc : List TopicDescription} {ends : List (Int × Int)} {starts : List Start} {part stop : Int}

/-! ## What the lookup returns -/

theorem fetchLogEndOffsets_ok (described : client.describeTopics [topic] = .ok desc) :
    ∃ ends, fetchLogEndOffsets client topic = .ok ends := by
  rw [fetchLogEndOffsets, described]
  simp only [bind, Except.bind]
  split
  · exact ⟨_, rfl⟩
  · split <;> exact ⟨_, rfl⟩

theorem mem_ends (described : client.describeTopics [topic] = .ok desc)
    (fetched : fetchLogEndOffsets client topic = .ok ends) : (part, stop) ∈ ends ↔
      desc.flatMap (·.partitions) ≠ [] ∧ client.Answers topic (desc.flatMap (·.partitions)) part stop := by
  rw [fetchLogEndOffsets, described] at fetched
  simp only [bind, Except.bind] at fetched
  split at fetched
  · rename_i empty
    cases fetched
    simp [List.isEmpty_iff.mp empty]
  · rename_i some
    rw [List.isEmpty_iff] at some
    rw [Client.Answers]
    split at fetched
    · rename_i resp answer
      cases fetched
      simp only [mem_sortByKey, List.mem_map, List.mem_filter, decide_eq_true_eq, Prod.mk.injEq, answer,
        Except.ok.injEq, exists_eq_left', and_assoc, ne_eq, some, not_false_eq_true, true_and]
    · rename_i e answer
      cases fetched
      simp [answer]

theorem ends_nodup (once : client.AnswersOnce topic)
    (fetched : fetchLogEndOffsets client topic = .ok ends) : (ends.map (·.1)).Nodup := by
  rw [fetchLogEndOffsets] at fetched
  cases described : client.describeTopics [topic] with
  | error e =>
      rw [described] at fetched
      cases fetched
  | ok desc =>
      rw [described] at fetched
      simp only [bind, Except.bind] at fetched
      split at fetched
      · cases fetched
        exact List.nodup_nil
      · split at fetched
        · rename_i resp answer
          cases fetched
          rw [((perm_sortByKey _ _).map _).nodup_iff, List.map_map]
          exact (once _ resp answer).sublist (List.filter_sublist.map _)
        · cases fetched
          exact List.nodup_nil

theorem silentOnlyIfEmpty (positive : 0 < count) (once : client.AnswersOnce topic)
    (records : ∀ config, AtMostOnce (client.consumer config).polls)
    (answered : client.refreshMetadata = .ok () → ∀ desc, client.describeTopics [topic] = .ok desc →
      ∀ part ∈ desc.flatMap (·.partitions),
        ∃ stop, client.Answers topic (desc.flatMap (·.partitions)) part stop) :
    SilentOnlyIfEmpty client iteration topic count := by
  intro listing returned desc described part member silent
  obtain ⟨refreshed, ends, collected, fetched, ended, messages⟩ := latestMessages_ok returned
  obtain ⟨stop, answer⟩ := answered refreshed desc described part member
  rcases le_or_gt stop 0 with empty | filled
  · exact .inl ⟨stop, empty, answer⟩
  · refine .inr ⟨ends, fetched, ?_⟩
    by_contra intime
    rw [Bool.not_eq_false] at intime
    have known : (part, stop) ∈ ends :=
      (mem_ends described fetched).mpr ⟨List.ne_nil_of_mem member, answer⟩
    have lists := lists_of_collect iteration (ends_nodup once fetched) (records _) ended
    rw [← messages] at lists
    obtain ⟨m, among, own, _⟩ :=
      lists.complete intime part (stop - 1) ⟨stop, known, filled, by omega, by omega⟩
    exact silent m among own

/-! ## A consumer that returns everything at once -/

def recordAt (place : Int × Int) : ConsumerRecord := ⟨place.1, place.2, 0, none, [], []⟩

def promptConsumer (count : Nat) (ends : List (Int × Int)) : Consumer where
  assign _ _ := .ok ()
  seek _ _ _ := .ok ()
  polls := [⟨0, .ok ((windows (startsOf count ends)).map recordAt)⟩]

theorem windows_nodup (nodup : (starts.map (·.part)).Nodup) : (windows starts).Nodup := by
  rw [windows, List.nodup_flatMap]
  constructor
  · intro s _
    refine List.nodup_range.map ?_
    intro m n same
    rw [Prod.mk.injEq] at same
    omega
  · rw [List.nodup_iff_pairwise_ne, List.pairwise_map] at nodup
    refine nodup.imp fun apart => ?_
    rintro ⟨part, offset⟩ first second
    exact apart ((Start.mem_places.mp first).1.trans (Start.mem_places.mp second).1.symm)

theorem done_windows (starts : List Start) :
    allPartitionsDone ((windows starts).map recordAt) starts = true := by
  rw [allPartitionsDone, List.all_eq_true]
  intro s member
  rw [decide_eq_true_eq]
  have part : s.places.Sublist (windows starts) := by
    rw [windows, List.flatMap]
    exact List.sublist_flatten_of_mem (List.mem_map_of_mem member)
  have own : (s.places.map recordAt).countP (·.partition = s.part) = (s.places.map recordAt).length := by
    rw [List.countP_eq_length]
    intro r among
    obtain ⟨⟨part, offset⟩, there, rfl⟩ := List.mem_map.mp among
    exact decide_eq_true (Start.mem_places.mp there).1.symm
  calc (s.stop - s.start).toNat = (s.places.map recordAt).countP (·.partition = s.part) := by
        rw [own, List.length_map, Start.length_places]
    _ ≤ _ := (part.map recordAt).countP_le

theorem collect_prompt (positive : 0 < count) (distinct : (ends.map (·.1)).Nodup) :
    ∃ collected, collect count ends (promptConsumer count ends).polls = some (.ok collected) := by
  by_cases none : startsOf count ends = []
  · exact ⟨[], collect_nil none⟩
  · have parts := distinct.sublist (startsOf_sublist count ends)
    have all : ((windows (startsOf count ends)).map recordAt).filter (wanted (startsOf count ends)) =
        (windows (startsOf count ends)).map recordAt := by
      rw [List.filter_eq_self]
      intro r among
      obtain ⟨place, member, rfl⟩ := List.mem_map.mp among
      exact (wanted_iff parts).mpr member
    have runs : 0 < count * (startsOf count ends).length :=
      Nat.mul_pos positive (List.length_pos_of_ne_nil none)
    refine ⟨(windows (startsOf count ends)).map recordAt, ?_⟩
    rw [collect, promptConsumer, pollLoop_cons]
    simp [all, done_windows, runs, pollDeadline]

theorem endsInTime_prompt (positive : 0 < count) (distinct : (ends.map (·.1)).Nodup) :
    endsInTime count ends (promptConsumer count ends).polls = true := by
  obtain ⟨collected, ended⟩ := collect_prompt positive distinct
  have early : (promptConsumer count ends).polls.takeWhile (·.now < pollDeadline) =
      (promptConsumer count ends).polls := rfl
  rw [endsInTime, early, ended]
  rfl

theorem atMostOnce_prompt (distinct : (ends.map (·.1)).Nodup) :
    AtMostOnce (promptConsumer count ends).polls := by
  have parts := distinct.sublist (startsOf_sublist count ends)
  have same : ((promptConsumer count ends).polls.flatMap (·.records)).map (·.place) =
      windows (startsOf count ends) := by
    simp [promptConsumer, Poll.records, ConsumerRecord.place, recordAt, Function.comp_def]
  rw [AtMostOnce, same]
  exact windows_nodup parts

theorem forM_ok (starts : List Start) :
    (starts.forM fun _ => (.ok () : Except String Unit)) = .ok () := by
  induction starts with
  | nil => rfl
  | cons s starts ih => exact ih

theorem latestMessages_prompt (positive : 0 < count) (distinct : (ends.map (·.1)).Nodup)
    (refreshed : client.refreshMetadata = .ok ()) (fetched : fetchLogEndOffsets client topic = .ok ends)
    (prompt : ∀ config, client.consumer config = promptConsumer count ends) :
    ∃ listing, (latestMessages client iteration topic count).run = some (.ok listing) := by
  obtain ⟨collected, ended⟩ := collect_prompt positive distinct
  have polled : collect count ends (client.polls count ends) = some (.ok collected) := by
    rw [Client.polls, prompt]
    exact ended
  suffices returned : ∃ listing, _ by
    obtain ⟨listing, returned⟩ := returned
    refine ⟨listing, run_bind_eq_ok.mpr ⟨(), run_liftExcept.mpr refreshed, ?_⟩⟩
    exact run_bind_eq_ok.mpr ⟨ends, run_liftExcept.mpr fetched, returned⟩
  split
  · exact ⟨_, rfl⟩
  · simp only
    split
    · exact ⟨_, rfl⟩
    · let messages := messagesOf iteration count collected
      refine ⟨⟨topic, messages.length, messages⟩, ?_⟩
      refine run_bind_eq_ok.mpr ⟨(), run_liftExcept.mpr ?_, ?_⟩
      · rw [prompt]
        rfl
      · refine run_bind_eq_ok.mpr ⟨(), run_liftExcept.mpr ?_, ?_⟩
        · simp only [prompt]
          exact forM_ok _
        · exact run_bind_eq_ok.mpr ⟨collected, polled, rfl⟩

/-- A partition is silent for no other reason, whatever the consumer does, if and only if the lookup gave
every partition an end offset. -/
theorem silentOnlyIfEmpty_iff (positive : 0 < count) (once : client.AnswersOnce topic) :
    (∀ consumer : ConsumerConfig → Consumer, (∀ config, AtMostOnce (consumer config).polls) →
      ∀ iteration, SilentOnlyIfEmpty { client with consumer } iteration topic count) ↔
    (client.refreshMetadata = .ok () → ∀ desc, client.describeTopics [topic] = .ok desc →
      ∀ part ∈ desc.flatMap (·.partitions),
        ∃ stop, client.Answers topic (desc.flatMap (·.partitions)) part stop) := by
  constructor
  · intro silent refreshed desc described part member
    by_contra unanswered
    obtain ⟨ends, fetched⟩ := fetchLogEndOffsets_ok described
    have distinct := ends_nodup once fetched
    have unknown (stop : Int) : (part, stop) ∉ ends :=
      fun known => unanswered ⟨stop, ((mem_ends described fetched).mp known).2⟩
    let iteration : Iteration Int (List ConsumerRecord) := ⟨id, List.Perm.refl⟩
    let prompt : Client := { client with consumer := fun _ => promptConsumer count ends }
    have returns : ∃ listing, (latestMessages prompt iteration topic count).run = some (.ok listing) :=
      latestMessages_prompt positive distinct refreshed fetched fun _ => rfl
    obtain ⟨listing, returned⟩ := returns
    obtain ⟨_, others, collected, same, ended, messages⟩ := latestMessages_ok returned
    cases Except.ok.inj (same.symm.trans fetched)
    have lists := lists_of_collect iteration distinct (atMostOnce_prompt distinct) ended
    rw [← messages] at lists
    obtain ⟨stop, _, answer⟩ | ⟨others, same, late⟩ :=
      silent _ (fun _ => atMostOnce_prompt distinct) iteration listing returned desc described part
        member (by
          rintro m among rfl
          obtain ⟨stop, known, _⟩ := (lists.within m among).1
          exact unknown stop known)
    · exact unanswered ⟨stop, answer⟩
    · cases Except.ok.inj (fetched.symm.trans same)
      exact Bool.false_ne_true (late.symm.trans (endsInTime_prompt positive distinct))
  · intro answered consumer records iteration
    exact silentOnlyIfEmpty positive once records answered

theorem silentOnlyIfEmpty_iff_two : twoPartitions.AnswersOnce "orders" ∧
    ∀ consumer : ConsumerConfig → Consumer, (∀ config, AtMostOnce (consumer config).polls) →
      ∀ iteration, SilentOnlyIfEmpty { twoPartitions with consumer } iteration "orders" 2 := by
  have once : twoPartitions.AnswersOnce "orders" := by
    rintro request resp ⟨⟩
    decide
  refine ⟨once, (silentOnlyIfEmpty_iff (by decide) once).mpr ?_⟩
  rintro - desc ⟨⟩ part member
  obtain rfl | rfl : part = 0 ∨ part = 1 := by simpa using member
  · exact ⟨3, _, rfl, ⟨0, 0, 3⟩, by decide, rfl, rfl, rfl⟩
  · exact ⟨5, _, rfl, ⟨1, 0, 5⟩, by decide, rfl, rfl, rfl⟩

def unreachableBrokers : Client where
  refreshMetadata := .ok ()
  describeTopics _ := .ok [⟨[0]⟩]
  sendToAnyBroker _ := .error "connection refused"
  consumer _ := ⟨fun _ _ => .ok (), fun _ _ _ => .ok (), []⟩

theorem silent_not_empty : ¬ ∀ (client : Client) (iteration : Iteration Int (List ConsumerRecord))
    (topic : String) (count : Nat), 0 < count → client.AnswersOnce topic →
    (∀ config, AtMostOnce (client.consumer config).polls) →
    SilentOnlyIfEmpty client iteration topic count := by
  intro claim
  have silent := claim unreachableBrokers ⟨id, List.Perm.refl⟩ "orders" 5 (by decide)
    (fun _ _ answer => nomatch answer) (fun _ => List.nodup_nil) ⟨"orders", 0, []⟩ rfl [⟨[0]⟩] rfl 0
    (by decide) (fun _ none => nomatch none)
  obtain ⟨_, _, _, answer, _⟩ | ⟨ends, fetched, late⟩ := silent
  · cases answer
  · cases fetched
    exact absurd late (by decide)

end KafkaProxy.Api
