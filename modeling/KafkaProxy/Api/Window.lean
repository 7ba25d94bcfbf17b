import KafkaProxy.Api.Basic
import KafkaProxy.Library.Total
import Mathlib.Data.List.Perm.Basic
import Mathlib.Data.List.TakeWhile

/-!
# The window of the latest messages

The loop ends when it has as many records as all windows together could hold, or when every partition
has as many as its window. Neither can happen before every offset of every window is there.
-/

namespace KafkaProxy.Api
open Library

/-- A partition with messages, and an offset among its last `count`. -/
def InWindow (ends : List (Int × Int)) (count : Nat) (part offset : Int) : Prop :=
  ∃ stop, (part, stop) ∈ ends ∧ 0 < stop ∧ max 0 (stop - count) ≤ offset ∧ offset < stop

def ConsumerRecord.place (r : ConsumerRecord) : Int × Int := (r.partition, r.offset)

def Poll.records (poll : Poll) : List ConsumerRecord :=
  match poll.result with
  | .ok batch => batch
  | .error _ => []

def AtMostOnce (polls : List Poll) : Prop := ((polls.flatMap (·.records)).map (·.place)).Nodup

def Client.polls (client : Client) (count : Nat) (ends : List (Int × Int)) : List Poll :=
  (client.consumer (consumerConfig count ends.length)).polls

def collect (count : Nat) (ends : List (Int × Int)) (polls : List Poll) :
    Option (Except String (List ConsumerRecord)) :=
  pollLoop (startsOf count ends) (count * (startsOf count ends).length) pollDeadline [] polls

def endsInTime (count : Nat) (ends : List (Int × Int)) (polls : List Poll) : Bool :=
  (collect count ends (polls.takeWhile (·.now < pollDeadline))).isSome

variable {starts : List Start} {count want deadline : Nat} {collected out : List ConsumerRecord}
  {polls : List Poll} {ends : List (Int × Int)} {part offset : Int} {r : ConsumerRecord}

/-! ## The loop -/

theorem pollLoop_cons (poll : Poll) :
    pollLoop starts want deadline collected (poll :: polls) =
      if collected.length < want && poll.now < deadline then
        match poll.result with
        | .error e => some (.error e)
        | .ok batch =>
            if allPartitionsDone (collected ++ batch.filter (wanted starts)) starts then
              some (.ok (collected ++ batch.filter (wanted starts)))
            else pollLoop starts want deadline (collected ++ batch.filter (wanted starts)) polls
      else some (.ok collected) := by
  rw [pollLoop]
  congr 1
  cases poll.result with
  | error e => rfl
  | ok batch =>
      cases batch with
      | nil => simp only [List.isEmpty_nil, if_true, List.filter_nil, List.append_nil]
      | cons r batch => rfl

theorem pollLoop_append {result : Except String (List ConsumerRecord)} (more : List Poll)
    (ended : pollLoop starts want deadline collected polls = some result) :
    pollLoop starts want deadline collected (polls ++ more) = some result := by
  induction polls generalizing collected with
  | nil =>
      rw [pollLoop] at ended
      split at ended
      · cases ended
      · rename_i enough
        cases more with
        | nil => rwa [List.append_nil, pollLoop, if_neg enough]
        | cons poll more => simpa [pollLoop_cons, enough] using ended
  | cons poll polls ih =>
      rw [List.cons_append, pollLoop_cons]
      rw [pollLoop_cons] at ended
      split at ended
      · rename_i runs
        rw [if_pos runs]
        cases answer : poll.result with
        | error e => rwa [answer] at ended
        | ok batch =>
            rw [answer] at ended
            simp only at ended ⊢
            split at ended
            · rename_i done
              rwa [if_pos done]
            · rename_i missing
              rw [if_neg missing]
              exact ih ended
      · rename_i stops
        rwa [if_neg stops]

theorem pollLoop_cases {poll : Poll} {result : Except String (List ConsumerRecord)}
    (ended : pollLoop starts want deadline collected (poll :: polls) = some result) :
    (result = .ok collected ∧ (want ≤ collected.length ∨ deadline ≤ poll.now)) ∨
    (∃ e, poll.result = .error e ∧ result = .error e) ∨
    ∃ batch, poll.result = .ok batch ∧
      (result = .ok (collected ++ batch.filter (wanted starts)) ∧
          allPartitionsDone (collected ++ batch.filter (wanted starts)) starts = true ∨
        pollLoop starts want deadline (collected ++ batch.filter (wanted starts)) polls =
          some result) := by
  rw [pollLoop_cons] at ended
  split at ended
  · right
    cases answer : poll.result with
    | error e =>
        rw [answer] at ended
        exact .inl ⟨e, rfl, (Option.some.inj ended).symm⟩
    | ok batch =>
        rw [answer] at ended
        simp only at ended
        refine .inr ⟨batch, rfl, ?_⟩
        split at ended
        · rename_i done
          exact .inl ⟨(Option.some.inj ended).symm, done⟩
        · exact .inr ended
  · rename_i stops
    rw [Bool.and_eq_true, decide_eq_true_eq, decide_eq_true_eq, not_and_or] at stops
    exact .inl ⟨(Option.some.inj ended).symm, stops.imp Nat.le_of_not_lt Nat.le_of_not_lt⟩

theorem pollLoop_collects (ended : pollLoop starts want deadline collected polls = some (.ok out)) :
    ∃ seen : List ConsumerRecord, seen.Sublist (polls.flatMap (·.records)) ∧
      out = collected ++ seen.filter (wanted starts) := by
  induction polls generalizing collected with
  | nil =>
      rw [pollLoop] at ended
      split at ended <;> cases ended
      exact ⟨[], List.Sublist.refl _, (List.append_nil _).symm⟩
  | cons poll polls ih =>
      rw [List.flatMap_cons]
      obtain ⟨same, _⟩ | ⟨e, _, failed⟩ | ⟨batch, answer, next⟩ := pollLoop_cases ended
      · cases same
        exact ⟨[], List.nil_sublist _, (List.append_nil _).symm⟩
      · cases failed
      · have first : poll.records = batch := by rw [Poll.records, answer]
        rw [first]
        obtain ⟨same, _⟩ | continued := next
        · cases same
          exact ⟨batch, List.sublist_append_left _ _, rfl⟩
        · obtain ⟨seen, among, rfl⟩ := ih continued
          refine ⟨batch ++ seen, among.append_left batch, ?_⟩
          rw [List.filter_append, List.append_assoc]

theorem pollLoop_complete (intime : ∀ poll ∈ polls, poll.now < deadline)
    (ended : pollLoop starts want deadline collected polls = some (.ok out)) :
    want ≤ out.length ∨ allPartitionsDone out starts = true := by
  induction polls generalizing collected with
  | nil =>
      rw [pollLoop] at ended
      split at ended <;> cases ended
      rename_i enough
      exact .inl (Nat.le_of_not_lt enough)
  | cons poll polls ih =>
      have early := intime poll List.mem_cons_self
      obtain ⟨same, enough | late⟩ | ⟨e, _, failed⟩ | ⟨batch, _, next⟩ := pollLoop_cases ended
      · cases same
        exact .inl enough
      · exact absurd early (Nat.not_lt.mpr late)
      · cases failed
      · obtain ⟨same, done⟩ | continued := next
        · cases same
          exact .inr done
        · exact ih (fun later member => intime later (List.mem_cons_of_mem _ member)) continued

theorem complete_of_endsInTime (intime : endsInTime count ends polls = true)
    (ended : collect count ends polls = some (.ok out)) :
    count * (startsOf count ends).length ≤ out.length ∨
      allPartitionsDone out (startsOf count ends) = true := by
  obtain ⟨result, early⟩ := Option.isSome_iff_exists.mp intime
  have same := pollLoop_append (polls.dropWhile (·.now < pollDeadline)) early
  rw [List.takeWhile_append_dropWhile] at same
  cases ended.symm.trans same
  exact pollLoop_complete (fun poll member => by simpa using List.mem_takeWhile_imp member) early

/-! ## The windows -/

def Start.places (s : Start) : List (Int × Int) :=
  (List.range (s.stop - s.start).toNat).map fun n : Nat => (s.part, s.start + n)

def windows (starts : List Start) : List (Int × Int) := starts.flatMap (·.places)

theorem Start.mem_places {s : Start} :
    (part, offset) ∈ s.places ↔ s.part = part ∧ s.start ≤ offset ∧ offset < s.stop := by
  rw [places, List.mem_map]
  constructor
  · rintro ⟨n, member, same⟩
    rw [List.mem_range] at member
    cases same
    exact ⟨rfl, by omega, by omega⟩
  · rintro ⟨rfl, above, below⟩
    refine ⟨(offset - s.start).toNat, List.mem_range.mpr (by omega), ?_⟩
    rw [Prod.mk.injEq]
    exact ⟨rfl, by omega⟩

theorem mem_windows : (part, offset) ∈ windows starts ↔
    ∃ s ∈ starts, s.part = part ∧ s.start ≤ offset ∧ offset < s.stop := by
  simp only [windows, List.mem_flatMap, Start.mem_places]

theorem Start.length_places (s : Start) : s.places.length = (s.stop - s.start).toNat := by
  rw [places, List.length_map, List.length_range]

theorem length_windows (starts : List Start) :
    (windows starts).length = total (fun s => (s.stop - s.start).toNat) starts := by
  induction starts with
  | nil => rfl
  | cons s starts ih =>
      rw [windows, List.flatMap_cons, List.length_append, ← windows, ih, total_cons,
        Start.length_places]

theorem mem_startsOf {s : Start} : s ∈ startsOf count ends ↔
    ∃ stop, (s.part, stop) ∈ ends ∧ 0 < stop ∧ s = ⟨s.part, max (stop - count) 0, stop⟩ := by
  rw [startsOf, List.mem_filterMap]
  constructor
  · rintro ⟨⟨part, stop⟩, member, made⟩
    simp only at made
    split at made <;> cases made
    rename_i positive
    exact ⟨stop, member, lt_of_not_ge positive, rfl⟩
  · rintro ⟨stop, member, positive, made⟩
    refine ⟨_, member, ?_⟩
    simp only
    rw [if_neg (not_le_of_gt positive), ← made]

theorem mem_windows_startsOf :
    (part, offset) ∈ windows (startsOf count ends) ↔ InWindow ends count part offset := by
  rw [mem_windows, InWindow]
  constructor
  · rintro ⟨s, member, rfl, above, below⟩
    obtain ⟨stop, there, positive, made⟩ := mem_startsOf.mp member
    rw [made] at above below
    exact ⟨stop, there, positive, max_comm (stop - count) 0 ▸ above, below⟩
  · rintro ⟨stop, there, positive, above, below⟩
    have own : (⟨part, max (stop - count) 0, stop⟩ : Start) ∈ startsOf count ends :=
      mem_startsOf.mpr ⟨stop, there, positive, rfl⟩
    exact ⟨_, own, rfl, max_comm 0 (stop - (count : Int)) ▸ above, below⟩

theorem startsOf_few {s : Start} (member : s ∈ startsOf count ends) :
    (s.stop - s.start).toNat ≤ count := by
  obtain ⟨stop, _, positive, made⟩ := mem_startsOf.mp member
  rw [made]
  simp only
  omega

theorem startsOf_sublist (count : Nat) (ends : List (Int × Int)) :
    ((startsOf count ends).map (·.part)).Sublist (ends.map (·.1)) := by
  induction ends with
  | nil => exact List.Sublist.refl _
  | cons last ends ih =>
      rw [startsOf, List.filterMap_cons]
      split
      · exact ih.cons _
      · rename_i s made
        simp only at made
        split at made <;> cases made
        exact ih.cons_cons _

theorem find_start (nodup : (starts.map (·.part)).Nodup) {s : Start} :
    starts.find? (·.part = part) = some s ↔ s ∈ starts ∧ s.part = part := by
  constructor
  · intro found
    have own := List.find?_some found
    exact ⟨List.mem_of_find?_eq_some found, of_decide_eq_true own⟩
  · rintro ⟨member, rfl⟩
    cases found : starts.find? (·.part = s.part) with
    | none => exact absurd (decide_eq_true rfl) (List.find?_eq_none.mp found s member)
    | some other =>
        have own := List.find?_some found
        have among := List.mem_of_find?_eq_some found
        rw [List.inj_on_of_nodup_map nodup among member (of_decide_eq_true own)]

theorem wanted_iff (nodup : (starts.map (·.part)).Nodup) :
    wanted starts r = true ↔ r.place ∈ windows starts := by
  rw [ConsumerRecord.place, mem_windows, wanted]
  constructor
  · intro wants
    split at wants
    · rename_i s found
      rw [Bool.and_eq_true, decide_eq_true_eq, decide_eq_true_eq] at wants
      obtain ⟨member, own⟩ := (find_start nodup).mp found
      exact ⟨s, member, own, wants⟩
    · cases wants
  · rintro ⟨s, member, own, above, below⟩
    rw [(find_start nodup).mpr ⟨member, own⟩]
    simp only
    rw [decide_eq_true above, decide_eq_true below, Bool.and_self]

/-! ## Nothing is missing -/

structure Gathered (starts : List Start) (collected : List ConsumerRecord) : Prop where
  once : (collected.map (·.place)).Nodup
  inside : ∀ r ∈ collected, r.place ∈ windows starts

theorem windows_le_of_done (nodup : (starts.map (·.part)).Nodup)
    (done : allPartitionsDone collected starts = true) :
    (windows starts).length ≤ collected.length := by
  have each : ∀ s ∈ starts, (s.stop - s.start).toNat ≤ collected.countP (·.partition = s.part) := by
    simpa [allPartitionsDone] using done
  calc (windows starts).length
      = total (fun s => (s.stop - s.start).toNat) starts := length_windows starts
    _ ≤ total (fun s => collected.countP (·.partition = s.part)) starts := total_le_total each
    _ ≤ collected.length := total_countP_le nodup _ collected

theorem windows_le_of_total (few : ∀ s ∈ starts, (s.stop - s.start).toNat ≤ count) :
    (windows starts).length ≤ count * starts.length := by
  rw [length_windows, ← total_const]
  exact total_le_total few

namespace Gathered

variable (gathered : Gathered starts collected)
include gathered

theorem perm (enough : (windows starts).length ≤ collected.length) :
    (collected.map (·.place)).Perm (windows starts) := by
  apply List.Subperm.perm_of_length_le
  · apply List.subperm_of_subset gathered.once
    intro place member
    obtain ⟨r, among, rfl⟩ := List.mem_map.mp member
    exact gathered.inside r among
  · rwa [List.length_map]

theorem group_le (nodup : (starts.map (·.part)).Nodup)
    (few : ∀ s ∈ starts, (s.stop - s.start).toNat ≤ count) (part : Int) :
    (collected.filter fun r => part = r.partition).length ≤ count := by
  by_cases none : collected.filter (fun r => part = r.partition) = []
  · rw [none]
    exact Nat.zero_le _
  · obtain ⟨first, member⟩ := List.exists_mem_of_ne_nil _ none
    obtain ⟨among, own⟩ := List.mem_filter.mp member
    obtain ⟨s, there, same, _⟩ := mem_windows.mp (gathered.inside first among)
    rw [decide_eq_true_eq] at own
    have subset : ((collected.filter fun r => part = r.partition).map (·.place)).Subperm s.places := by
      apply List.subperm_of_subset (gathered.once.sublist (List.filter_sublist.map _))
      intro place inside
      obtain ⟨r, chosen, rfl⟩ := List.mem_map.mp inside
      obtain ⟨amongst, mine⟩ := List.mem_filter.mp chosen
      rw [decide_eq_true_eq] at mine
      obtain ⟨t, thereToo, sameToo, bounds⟩ := mem_windows.mp (gathered.inside r amongst)
      have unique : t = s := by
        apply List.inj_on_of_nodup_map nodup thereToo there
        rw [sameToo, same, ← mine, own]
      exact Start.mem_places.mpr ⟨unique ▸ sameToo, unique ▸ bounds⟩
    have short := subset.length_le
    rw [List.length_map, Start.length_places] at short
    exact short.trans (few s there)

end Gathered

/-! ## The answer -/

def Message.place (m : Message) : Int × Int := (m.partition, m.offset)

theorem messagesOf_perm (iteration : Iteration Int (List ConsumerRecord))
    (short : ∀ part, (collected.filter fun r => part = r.partition).length ≤ count) :
    (messagesOf iteration count collected).Perm (collected.map recordToJson) := by
  let last (recs : List ConsumerRecord) : List Message :=
    let recs := sortByKey (·.offset) recs
    (recs.drop (recs.length - min recs.length count)).map recordToJson
  have groups : ∀ e ∈ (Table.groupBy (·.partition) collected).entries,
      (last e.2).Perm (e.2.map recordToJson) := by
    rintro ⟨part, recs⟩ member
    have fits : recs.length ≤ count := Table.group_eq member ▸ short part
    simp only [last, length_sortByKey]
    rw [Nat.min_eq_left fits, Nat.sub_self, List.drop_zero]
    exact (perm_sortByKey _ recs).map _
  have whole : ((Table.groupBy (·.partition) collected).entries.flatMap fun e =>
      e.2.map recordToJson).Perm (collected.map recordToJson) := by
    rw [← List.map_flatMap]
    exact (Table.perm_groupBy (·.partition) collected).map _
  have arranged := (iteration.perm (Table.groupBy (·.partition) collected).entries).flatMap_right
    fun e => last e.2
  exact (perm_sortByKey _ _).trans (arranged.trans ((List.Perm.flatMap_left _ groups).trans whole))

theorem run_bind_eq_ok {α β : Type} {x : ExceptT String Option α} {f : α → ExceptT String Option β}
    {b : β} : (x >>= f).run = some (.ok b) ↔ ∃ a, x.run = some (.ok a) ∧ (f a).run = some (.ok b) := by
  rw [ExceptT.run_bind]
  cases result : x.run with
  | none => simp
  | some r => cases r <;> simp

theorem run_liftExcept {α : Type} {e : Except String α} {a : α} :
    (liftExcept e : ExceptT String Option α).run = some (.ok a) ↔ e = .ok a := by
  cases e <;> simp [liftExcept]

variable {client : Client} {iteration : Iteration Int (List ConsumerRecord)} {topic : String}
  {listing : Listing}

theorem messagesOf_nil : messagesOf iteration count [] = [] := by
  have nothing : (messagesOf iteration count []).Perm [] :=
    messagesOf_perm iteration fun _ => Nat.zero_le _
  exact nothing.eq_nil

theorem collect_nil (none : startsOf count ends = []) : collect count ends polls = some (.ok []) := by
  rw [collect, none]
  cases polls <;> simp [pollLoop]

theorem latestMessages_ok
    (returned : (latestMessages client iteration topic count).run = some (.ok listing)) :
    client.refreshMetadata = .ok () ∧ ∃ ends collected, fetchLogEndOffsets client topic = .ok ends ∧
      collect count ends (client.polls count ends) = some (.ok collected) ∧
      listing.messages = messagesOf iteration count collected := by
  obtain ⟨_, refreshed, returned⟩ := run_bind_eq_ok.mp returned
  obtain ⟨ends, fetched, returned⟩ := run_bind_eq_ok.mp returned
  rw [run_liftExcept] at refreshed fetched
  refine ⟨refreshed, ?_⟩
  split at returned
  · rename_i empty
    cases returned
    rw [List.isEmpty_iff] at empty
    exact ⟨ends, [], fetched, collect_nil (by rw [empty]; rfl), messagesOf_nil.symm⟩
  · simp only at returned
    split at returned
    · rename_i none
      cases returned
      exact ⟨ends, [], fetched, collect_nil (List.isEmpty_iff.mp none), messagesOf_nil.symm⟩
    · obtain ⟨_, _, returned⟩ := run_bind_eq_ok.mp returned
      obtain ⟨_, _, returned⟩ := run_bind_eq_ok.mp returned
      obtain ⟨collected, polled, returned⟩ := run_bind_eq_ok.mp returned
      cases returned
      exact ⟨ends, collected, fetched, polled, rfl⟩

theorem gathered_of_collect (parts : ((startsOf count ends).map (·.part)).Nodup)
    (once : AtMostOnce polls) (ended : collect count ends polls = some (.ok collected)) :
    Gathered (startsOf count ends) collected := by
  obtain ⟨seen, among, rfl⟩ := pollLoop_collects ended
  rw [List.nil_append]
  constructor
  · exact once.sublist ((List.filter_sublist.trans among).map _)
  · intro r member
    exact (wanted_iff parts).mp (List.mem_filter.mp member).2

theorem collect_mem (ended : collect count ends polls = some (.ok collected)) (member : r ∈ collected) :
    r ∈ polls.flatMap (·.records) := by
  obtain ⟨seen, among, rfl⟩ := pollLoop_collects ended
  rw [List.nil_append] at member
  exact among.subset (List.mem_of_mem_filter member)

/-- The messages are in order, each is a record from its window, and unless the deadline has passed every
offset of every window has one. -/
structure Lists (ends : List (Int × Int)) (count : Nat) (polls : List Poll) (messages : List Message) :
    Prop where
  ordered : messages.Pairwise fun a b => toLex (a.partition, a.offset) < toLex (b.partition, b.offset)
  within : ∀ m ∈ messages, InWindow ends count m.partition m.offset ∧
    ∃ r ∈ polls.flatMap (·.records), recordToJson r = m
  complete : endsInTime count ends polls = true → ∀ part offset, InWindow ends count part offset →
    ∃ m ∈ messages, m.partition = part ∧ m.offset = offset

theorem lists_of_collect (iteration : Iteration Int (List ConsumerRecord))
    (distinct : (ends.map (·.1)).Nodup) (once : AtMostOnce polls) (ended : collect count ends polls = some (.ok collected)) :
    Lists ends count polls (messagesOf iteration count collected) := by
  have parts := distinct.sublist (startsOf_sublist count ends)
  have few : ∀ s ∈ startsOf count ends, (s.stop - s.start).toNat ≤ count := fun s => startsOf_few
  have gathered := gathered_of_collect parts once ended
  have perm := messagesOf_perm iteration (gathered.group_le parts few)
  have member (m : Message) : m ∈ messagesOf iteration count collected ↔
      ∃ r ∈ collected, recordToJson r = m := by
    rw [perm.mem_iff, List.mem_map]
  constructor
  · have nodup :
        ((messagesOf iteration count collected).map fun m => toLex (m.partition, m.offset)).Nodup := by
      have apart := gathered.once.map toLex.injective
      rw [List.map_map] at apart
      rw [(perm.map _).nodup_iff, List.map_map]
      exact apart
    exact pairwise_lt_sortByKey (((perm_sortByKey _ _).map _).nodup_iff.mp nodup)
  · intro m among
    obtain ⟨r, there, rfl⟩ := (member m).mp among
    exact ⟨mem_windows_startsOf.mp (gathered.inside r there), r, collect_mem ended there, rfl⟩
  · intro intime part offset inside
    have enough : (windows (startsOf count ends)).length ≤ collected.length := by
      obtain total | done := complete_of_endsInTime intime ended
      · exact (windows_le_of_total few).trans total
      · exact windows_le_of_done parts done
    have place := (gathered.perm enough).mem_iff.mpr (mem_windows_startsOf.mpr inside)
    obtain ⟨r, there, same⟩ := List.mem_map.mp place
    cases same
    exact ⟨recordToJson r, (member _).mpr ⟨r, there, rfl⟩, rfl, rfl⟩

/-- The listing is the window of every partition that has messages. -/
theorem latestMessages_window (distinct : (ends.map (·.1)).Nodup)
    (fetched : fetchLogEndOffsets client topic = .ok ends) (once : AtMostOnce (client.polls count ends))
    (returned : (latestMessages client iteration topic count).run = some (.ok listing)) :
    Lists ends count (client.polls count ends) listing.messages := by
  obtain ⟨_, others, collected, same, ended, messages⟩ := latestMessages_ok returned
  cases fetched.symm.trans same
  rw [messages]
  exact lists_of_collect iteration distinct once ended

def valueRecord (part offset : Int) (value : List UInt8) : ConsumerRecord := ⟨part, offset, 7, none, value, []⟩

def twoPartitions : Client where
  refreshMetadata := .ok ()
  describeTopics _ := .ok [⟨[0, 1]⟩]
  sendToAnyBroker _ := .ok ⟨[⟨"orders", [⟨1, 0, 5⟩, ⟨0, 0, 3⟩]⟩]⟩
  consumer _ :=
    { assign _ _ := .ok ()
      seek _ _ _ := .ok ()
      polls := [⟨0, .ok [valueRecord 1 4 [255], valueRecord 0 0 [97]]⟩, ⟨1500, .ok []⟩,
        ⟨3000, .ok [valueRecord 0 2 [99], valueRecord 1 3 [100], valueRecord 0 1 [98]]⟩] }

def lastTwo : List Message :=
  [⟨0, 1, 7, none, "b", []⟩, ⟨0, 2, 7, none, "c", []⟩, ⟨1, 3, 7, none, "d", []⟩, ⟨1, 4, 7, none, "0xff", []⟩]

theorem latestMessages_window_two : ∃ listing,
    (latestMessages twoPartitions ⟨List.reverse, List.reverse_perm⟩ "orders" 2).run = some (.ok listing) ∧
      listing.messages = lastTwo ∧
      Lists [(0, 3), (1, 5)] 2 (twoPartitions.polls 2 [(0, 3), (1, 5)]) listing.messages := by
  have messages : ((latestMessages twoPartitions ⟨List.reverse, List.reverse_perm⟩ "orders" 2).run.bind
      Except.toOption).map (·.messages) = some lastTwo := by decide +kernel
  obtain ⟨listing, found, same⟩ := Option.map_eq_some_iff.mp messages
  obtain ⟨result, returned, good⟩ := Option.bind_eq_some_iff.mp found
  cases result with
  | error e => cases good
  | ok other =>
      cases good
      refine ⟨listing, returned, same, ?_⟩
      have once : (((twoPartitions.polls 2 [(0, 3), (1, 5)]).flatMap (·.records)).map (·.place)).Nodup := by
        decide
      exact latestMessages_window (by decide) rfl once returned

end KafkaProxy.Api
