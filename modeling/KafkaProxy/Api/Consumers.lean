import KafkaProxy.Library.Table
import KafkaProxy.Library.Timed
import Mathlib.Algebra.Ring.Int.Defs
import Mathlib.Data.List.Forall2

/-!
# The consumer groups of a topic

The handler lists the groups, has them described, and fetches the offsets of all of them at a time. A
fetch that fails or takes too long leaves its group out. The offsets of one group do not depend on the
other groups, and the timeout around all fetches never fires before one of its own.
-/

namespace KafkaProxy.Api
open Library

structure GroupListing where
  groupId : String
  protocolType : String
  deriving DecidableEq, Repr

structure MemberDescription where
  memberId : String
  clientId : String
  clientHost : String
  deriving DecidableEq, Repr

structure GroupDescription where
  groupId : String
  state : String
  members : List MemberDescription
  deriving DecidableEq, Repr

structure GroupOffset where
  topic : String
  partition : Int32
  committedOffset : Int64
  logEndOffset : Int64
  lag : Int64
  deriving DecidableEq, Repr

/-- The fetches are numbered, for two of one group need not end alike. -/
structure AdminClient where
  listGroups : Timed (Except String (List GroupListing))
  describeGroups : List String → Timed (Except String (List GroupDescription))
  fetchGroupOffsets : Nat → String → Timed (Except String (List GroupOffset))

/-- All of them start together. -/
structure Timers where
  fetch : Nat → Timer 5000
  all : Timer 15000
  inOrder : ∀ call, (fetch call).fires ≤ all.fires

structure PartitionReport where
  partition : Int32
  committedOffset : Int64
  logEndOffset : Int64
  lag : Int64
  deriving DecidableEq, Repr

structure ConsumerReport where
  group : String
  state : String
  members : List MemberDescription
  partitions : List PartitionReport
  totalLag : Int64
  deriving DecidableEq, Repr

structure ConsumersReply where
  topic : String
  consumers : List ConsumerReport
  deriving DecidableEq, Repr

/-! ## The handler -/

def consumerGroups (groups : List GroupListing) : List String :=
  (groups.filter fun g => g.protocolType = "consumer" || g.protocolType = "").map (·.groupId)

def descById (descriptions : List GroupDescription) : Table String GroupDescription :=
  .insertAll (descriptions.map fun d => (d.groupId, d)) ∅

def GroupOffset.report (o : GroupOffset) : PartitionReport :=
  ⟨o.partition, o.committedOffset, o.logEndOffset, o.lag⟩

/-- The sum wraps, as it does in a release build. -/
def totalLag (offsets : List GroupOffset) : Int64 :=
  ((offsets.filter fun o => decide (0 ≤ o.lag)).map (·.lag)).foldl (· + ·) 0

def consumerReport (topic : String) (descById : Table String GroupDescription) (gid : String)
    (offsets : List GroupOffset) : Option ConsumerReport :=
  let offsets := offsets.filter (·.topic = topic)
  if offsets.isEmpty then none
  else
    let desc := descById.lookup gid
    some {
      group := gid
      state := (desc.map (·.state)).getD "Unknown"
      members := (desc.map (·.members)).getD []
      partitions := offsets.map (·.report)
      totalLag := totalLag offsets }

def consumersOf (topic : String) (descriptions : List GroupDescription)
    (results : List (Option (String × List GroupOffset))) : List ConsumerReport :=
  (results.filterMap id).filterMap fun r => consumerReport topic (descById descriptions) r.1 r.2

def fetchOffsets (timers : Timers) (admin : AdminClient) (gid : String) (call : Nat) :
    Timed (Option (String × List GroupOffset)) := do
  match ← Timed.timeout (timers.fetch call) (admin.fetchGroupOffsets call gid) with
  | some (.ok offsets) => return some (gid, offsets)
  -- The error, or the timeout, is logged.
  | some (.error _) => return none
  | none => return none

def listConsumers (timers : Timers) (admin : AdminClient) (topic : String) :
    Timed (Except String ConsumersReply) := do
  match ← admin.listGroups with
  | .error e => return .error e
  | .ok groups =>
      let ids := consumerGroups groups
      if ids.isEmpty then
        return .ok ⟨topic, []⟩
      match ← admin.describeGroups ids with
      | .error e => return .error e
      | .ok descriptions =>
          let fetches := ids.zipIdx.map fun (gid, call) => fetchOffsets timers admin gid call
          let results ← Timed.timeout timers.all (Timed.joinAll fetches)
          return .ok ⟨topic, consumersOf topic descriptions (results.getD [])⟩

variable {timers : Timers} {admin : AdminClient} {topic gid : String} {call : Nat}
  {descriptions : List GroupDescription} {offsets : List GroupOffset}

/-! ## One group -/

def fetched (timers : Timers) (admin : AdminClient) (gid : String) (call : Nat) :
    Option (List GroupOffset) :=
  match (admin.fetchGroupOffsets call gid).inTime (timers.fetch call) with
  | some (.ok offsets) => some offsets
  | some (.error _) | none => none

theorem fetchOffsets_eq : fetchOffsets timers admin gid call =
    .after ((admin.fetchGroupOffsets call gid).ends (timers.fetch call))
      ((fetched timers admin gid call).map fun offsets => (gid, offsets)) := by
  unfold fetchOffsets fetched Timed.timeout
  rw [Timed.after_bind]
  cases (admin.fetchGroupOffsets call gid).inTime (timers.fetch call) with
  | none => rfl
  | some result =>
      cases result with
      | error e => rfl
      | ok offsets => rfl

/-- The offsets come before the timer of their fetch fires. -/
def Fetches (timers : Timers) (admin : AdminClient) (asked : String × Nat) (offsets : List GroupOffset) :
    Prop :=
  ∃ time ≤ (timers.fetch asked.2).fires, admin.fetchGroupOffsets asked.2 asked.1 = .after time (.ok offsets)

theorem fetches_of_fetched (answer : fetched timers admin gid call = some offsets) :
    Fetches timers admin (gid, call) offsets := by
  unfold fetched at answer
  split at answer
  · rename_i early
    cases answer
    exact Timed.inTime_eq_some.mp early
  · cases answer
  · cases answer

def shown (timers : Timers) (admin : AdminClient) (topic : String) (asked : String × Nat) : Bool :=
  match fetched timers admin asked.1 asked.2 with
  | some offsets => offsets.any (·.topic = topic)
  | none => false

/-- What the reply says of a group. Of several descriptions the last one counts. -/
structure Reports (topic : String) (descriptions : List GroupDescription) (gid : String)
    (offsets : List GroupOffset) (c : ConsumerReport) : Prop where
  group : c.group = gid
  described : (∃ d earlier later, descriptions = earlier ++ d :: later ∧ d.groupId = gid ∧
      (∀ e ∈ later, e.groupId ≠ gid) ∧ c.state = d.state ∧ c.members = d.members) ∨
    (∀ d ∈ descriptions, d.groupId ≠ gid) ∧ c.state = "Unknown" ∧ c.members = []
  partitions : c.partitions = (offsets.filter (·.topic = topic)).map (·.report)
  totalLag : c.totalLag =
    .ofInt (((offsets.filter (·.topic = topic)).map fun o => max 0 o.lag.toInt).sum)

theorem foldl_add (lags : List Int64) (start : Int64) :
    lags.foldl (· + ·) start = .ofInt (start.toInt + (lags.map Int64.toInt).sum) := by
  induction lags generalizing start with
  | nil => simp
  | cons lag lags ih =>
      rw [List.foldl_cons, ih, List.map_cons, List.sum_cons, ← Int.add_assoc, Int64.ofInt_add,
        Int64.ofInt_add (start.toInt + lag.toInt), Int64.ofInt_toInt, Int64.ofInt_add, Int64.ofInt_toInt,
        Int64.ofInt_toInt]

theorem totalLag_eq (offsets : List GroupOffset) :
    totalLag offsets = .ofInt ((offsets.map fun o => max 0 o.lag.toInt).sum) := by
  have sums : (((offsets.filter fun o => decide (0 ≤ o.lag)).map (·.lag)).map Int64.toInt).sum =
      (offsets.map fun o => max 0 o.lag.toInt).sum := by
    induction offsets with
    | nil => rfl
    | cons o offsets ih =>
        have sign : 0 ≤ o.lag ↔ 0 ≤ o.lag.toInt := Int64.le_iff_toInt_le
        by_cases known : 0 ≤ o.lag
        · rw [List.filter_cons_of_pos (by simpa using known), List.map_cons, List.map_cons, List.sum_cons,
            ih, List.map_cons, List.sum_cons, max_eq_right (sign.mp known)]
        · have unknown : o.lag.toInt ≤ 0 := by
            have below := mt sign.mpr known
            omega
          rw [List.filter_cons_of_neg (by simpa using known), ih, List.map_cons, List.sum_cons,
            max_eq_left unknown, Int.zero_add]
  rw [totalLag, foldl_add, sums]
  exact congrArg Int64.ofInt (Int.zero_add _)

theorem descById_lookup (descriptions : List GroupDescription) (gid : String) :
    (∃ d earlier later, descriptions = earlier ++ d :: later ∧ d.groupId = gid ∧
      (∀ e ∈ later, e.groupId ≠ gid) ∧ (descById descriptions).lookup gid = some d) ∨
    (∀ d ∈ descriptions, d.groupId ≠ gid) ∧ (descById descriptions).lookup gid = none := by
  cases found : (descById descriptions).lookup gid with
  | none =>
      refine .inr ⟨fun d member => ?_, rfl⟩
      exact Table.lookup_insertAll_eq_none.mp found _ (List.mem_map_of_mem member)
  | some d =>
      left
      obtain ⟨earlier, later, split, missed⟩ := Table.lookup_insertAll_eq_some.mp found
      obtain ⟨front, back, rfl, rfl, rest⟩ := List.map_eq_append_iff.mp split
      obtain ⟨e, back, rfl, first, rfl⟩ := List.map_eq_cons_iff.mp rest
      cases first
      refine ⟨d, front, back, rfl, rfl, fun e member => ?_, rfl⟩
      exact missed _ (List.mem_map_of_mem member)

theorem consumerReport_eq_none : consumerReport topic (descById descriptions) gid offsets = none ↔
    offsets.any (·.topic = topic) = false := by
  simp only [consumerReport, List.isEmpty_iff]
  split
  · rename_i empty
    exact iff_of_true rfl (by simpa using empty)
  · rename_i some
    refine iff_of_false (by simp) ?_
    simpa using some

theorem consumerReport_reports {c : ConsumerReport}
    (reported : consumerReport topic (descById descriptions) gid offsets = some c) :
    Reports topic descriptions gid offsets c := by
  simp only [consumerReport] at reported
  split at reported
  · cases reported
  · cases reported
    refine ⟨rfl, ?_, rfl, totalLag_eq _⟩
    obtain ⟨d, earlier, later, split, own, missed, found⟩ | ⟨missed, found⟩ :=
      descById_lookup descriptions gid
    · exact .inl ⟨d, earlier, later, split, own, missed, by simp [found], by simp [found]⟩
    · exact .inr ⟨missed, by simp [found], by simp [found]⟩

/-! ## All groups -/

theorem reports_of_asked (asked : List (String × Nat)) :
    List.Forall₂ (fun a c => ∃ offsets, Fetches timers admin a offsets ∧
        Reports topic descriptions a.1 offsets c) (asked.filter (shown timers admin topic))
      (consumersOf topic descriptions
        (asked.map fun a => (fetched timers admin a.1 a.2).map fun offsets => (a.1, offsets))) := by
  induction asked with
  | nil => exact .nil
  | cons a asked ih =>
      cases answer : fetched timers admin a.1 a.2 with
      | none =>
          have hidden : shown timers admin topic a = false := by simp [shown, answer]
          rw [List.filter_cons_of_neg (by simp [hidden]), List.map_cons, answer]
          exact ih
      | some offsets =>
          have visible : shown timers admin topic a = offsets.any (·.topic = topic) := by
            simp [shown, answer]
          rw [consumersOf, List.map_cons, answer, Option.map_some, List.filterMap_cons_some (f := id) rfl]
          cases reported : consumerReport topic (descById descriptions) a.1 offsets with
          | none =>
              rw [List.filter_cons_of_neg (by simp [visible, consumerReport_eq_none.mp reported])]
              simp only [List.filterMap_cons, reported]
              exact ih
          | some c =>
              have some : offsets.any (·.topic = topic) = true := by
                rw [← Bool.not_eq_false]
                intro none
                rw [consumerReport_eq_none.mpr none] at reported
                cases reported
              rw [List.filter_cons_of_pos (by rw [visible, some])]
              simp only [List.filterMap_cons, reported]
              exact .cons ⟨offsets, fetches_of_fetched answer, consumerReport_reports reported⟩ ih

theorem listConsumers_eq {groups : List GroupListing} {listed described : Nat}
    (lists : admin.listGroups = .after listed (.ok groups)) (some : consumerGroups groups ≠ [])
    (describes : admin.describeGroups (consumerGroups groups) = .after described (.ok descriptions)) :
    ∃ time ≤ listed + described + timers.all.fires, listConsumers timers admin topic =
      .after time (.ok ⟨topic, consumersOf topic descriptions ((consumerGroups groups).zipIdx.map fun a =>
        (fetched timers admin a.1 a.2).map fun offsets => (a.1, offsets))⟩) := by
  have early (a : String × Nat) : (admin.fetchGroupOffsets a.2 a.1).ends (timers.fetch a.2) ≤
      timers.all.fires := (Timed.ends_le _ _).trans (timers.inOrder a.2)
  obtain ⟨fetching, bound, joined⟩ := Timed.timeout_joinAll timers.all
    (fun a : String × Nat => (admin.fetchGroupOffsets a.2 a.1).ends (timers.fetch a.2))
    (fun a => (fetched timers admin a.1 a.2).map fun offsets => (a.1, offsets))
    (consumerGroups groups).zipIdx fun a _ => early a
  have listing : (consumerGroups groups).isEmpty = false := by simpa using some
  refine ⟨listed + (described + fetching), by omega, ?_⟩
  rw [listConsumers, lists, Timed.after_bind]
  simp only [listing, describes, Timed.after_bind, fetchOffsets_eq, joined]
  rfl

/-- The reply has an entry for each consumer group of the list that has its offsets in time and an offset
of the topic among them, in the order of the list, and nothing else. -/
theorem listConsumers_reports {groups : List GroupListing} {listed described : Nat}
    (lists : admin.listGroups = .after listed (.ok groups))
    (describes : consumerGroups groups ≠ [] →
      admin.describeGroups (consumerGroups groups) = .after described (.ok descriptions)) :
    ∃ time ≤ listed + described + timers.all.fires, ∃ consumers,
      listConsumers timers admin topic = .after time (.ok ⟨topic, consumers⟩) ∧
        List.Forall₂ (fun asked c => ∃ offsets, Fetches timers admin asked offsets ∧
            Reports topic descriptions asked.1 offsets c)
          ((consumerGroups groups).zipIdx.filter (shown timers admin topic)) consumers := by
  by_cases some : consumerGroups groups = []
  · refine ⟨listed, by omega, [], ?_, ?_⟩
    · rw [listConsumers, lists, Timed.after_bind]
      simp only [some, List.isEmpty_nil, if_true]
      rfl
    · rw [some]
      exact .nil
  · obtain ⟨time, bound, answers⟩ := listConsumers_eq lists some (describes some)
    exact ⟨time, bound, _, answers, reports_of_asked _⟩

def someGroups : List GroupListing := [⟨"g1", "consumer"⟩, ⟨"g2", ""⟩, ⟨"g3", "connect"⟩, ⟨"g4", "consumer"⟩]

def someAdmin : AdminClient where
  listGroups := .after 1 (.ok someGroups)
  describeGroups _ := .after 3 (.ok [⟨"g1", "Stable", []⟩])
  fetchGroupOffsets call _ :=
    match call with
    | 0 => .after 10 (.ok [⟨"orders", 0, 5, 9, 4⟩, ⟨"other", 0, 1, 2, 1⟩, ⟨"orders", 1, -1, 7, -1⟩])
    | 1 => .never
    | _ => .after 20 (.ok [⟨"other", 0, 1, 2, 1⟩])

def promptTimers : Timers := ⟨fun _ => ⟨5000, le_rfl⟩, ⟨15000, le_rfl⟩, fun _ => by decide⟩

theorem listConsumers_reports_one :
    (consumerGroups someGroups).zipIdx.filter (shown promptTimers someAdmin "orders") = [("g1", 0)] ∧
      ∃ time ≤ 1 + 3 + promptTimers.all.fires, ∃ consumers,
        listConsumers promptTimers someAdmin "orders" = .after time (.ok ⟨"orders", consumers⟩) ∧
          List.Forall₂ (fun asked c => ∃ offsets, Fetches promptTimers someAdmin asked offsets ∧
              Reports "orders" [⟨"g1", "Stable", []⟩] asked.1 offsets c)
            ((consumerGroups someGroups).zipIdx.filter (shown promptTimers someAdmin "orders")) consumers :=
  ⟨by decide, listConsumers_reports rfl fun _ => rfl⟩

end KafkaProxy.Api
