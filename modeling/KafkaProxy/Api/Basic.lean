import KafkaProxy.Library.Groups
import Mathlib.Data.Prod.Lex

/-!
# The latest messages of a topic

The web interface looks up the end offset of every partition, points a consumer `count` records before
each end, and polls for at most eight seconds. The Kafka client is known by what its calls return.

Offsets and partitions are integers: the handler clamps `count` to 1..1000, so nothing wraps. Times are
in milliseconds from the start of the loop.
-/

namespace KafkaProxy.Api
open Library

/-! ## The client -/

structure TopicDescription where
  partitions : List Int
  deriving DecidableEq, Repr

structure ListOffsetsPartition where
  partitionIndex : Int
  currentLeaderEpoch : Int
  timestamp : Int
  deriving DecidableEq, Repr

structure ListOffsetsTopic where
  name : String
  partitions : List ListOffsetsPartition
  deriving DecidableEq, Repr

structure ListOffsetsRequest where
  replicaId : Int
  isolationLevel : Int
  topics : List ListOffsetsTopic
  timeoutMs : Int
  deriving DecidableEq, Repr

structure ListOffsetsPartitionResponse where
  partitionIndex : Int
  errorCode : Int
  offset : Int
  deriving DecidableEq, Repr

structure ListOffsetsTopicResponse where
  name : String
  partitions : List ListOffsetsPartitionResponse
  deriving DecidableEq, Repr

structure ListOffsetsResponse where
  topics : List ListOffsetsTopicResponse
  deriving DecidableEq, Repr

structure RecordHeader where
  key : String
  value : List UInt8
  deriving DecidableEq, Repr

structure ConsumerRecord where
  partition : Int
  offset : Int
  timestamp : Int
  key : Option (List UInt8)
  value : List UInt8
  headers : List RecordHeader
  deriving DecidableEq, Repr

inductive AutoOffsetReset where
  | earliest
  | latest
  deriving DecidableEq, Repr

structure ConsumerConfig where
  autoCommit : Bool
  autoOffsetReset : AutoOffsetReset
  maxPollRecords : Nat
  maxWait : Nat
  deriving DecidableEq, Repr

/-- What the clock shows when the loop looks at it, and what the poll after that returns. -/
structure Poll where
  now : Nat
  result : Except String (List ConsumerRecord)

structure Consumer where
  assign : String → List Int → Except String Unit
  seek : String → Int → Int → Except String Unit
  polls : List Poll

structure Client where
  refreshMetadata : Except String Unit
  describeTopics : List String → Except String (List TopicDescription)
  sendToAnyBroker : ListOffsetsRequest → Except String ListOffsetsResponse
  consumer : ConsumerConfig → Consumer

/-! ## The end offsets -/

def listOffsetsRequest (topic : String) (allPartitions : List Int) : ListOffsetsRequest :=
  { replicaId := -1
    isolationLevel := 0
    topics := [⟨topic, allPartitions.map fun p => ⟨p, -1, -1⟩⟩]
    timeoutMs := 5000 }

def topicOffsets (topic : String) (resp : ListOffsetsResponse) : List ListOffsetsPartitionResponse :=
  (resp.topics.filter (·.name = topic)).flatMap (·.partitions)

def fetchLogEndOffsets (client : Client) (topic : String) : Except String (List (Int × Int)) := do
  let desc ← client.describeTopics [topic]
  let allPartitions := desc.flatMap (·.partitions)
  if allPartitions.isEmpty then
    return []
  match client.sendToAnyBroker (listOffsetsRequest topic allPartitions) with
  | .ok resp =>
      let ends := ((topicOffsets topic resp).filter (·.errorCode = 0)).map fun rp =>
        (rp.partitionIndex, rp.offset)
      return sortByKey (·.1) ends
  -- The error is logged, and no partition gets an end offset.
  | .error _ => return []

/-! ## Records as JSON -/

/-- The JSON object of a record. A key that is `none` is null. -/
structure Message where
  partition : Int
  offset : Int
  timestamp : Int
  key : Option String
  value : String
  headers : List (String × String)
  deriving DecidableEq, Repr

structure Listing where
  topic : String
  count : Nat
  messages : List Message
  deriving DecidableEq, Repr

def hexByte (byte : UInt8) : List Char :=
  [Nat.digitChar (byte.toNat / 16), Nat.digitChar (byte.toNat % 16)]

def bytesToText (b : List UInt8) : String :=
  match String.fromUTF8? ⟨b.toArray⟩ with
  | some s => s
  | none => "0x" ++ String.ofList (b.flatMap hexByte)

def recordToJson (r : ConsumerRecord) : Message :=
  { partition := r.partition
    offset := r.offset
    timestamp := r.timestamp
    key := r.key.map bytesToText
    value := bytesToText r.value
    headers := r.headers.map fun h => (h.key, bytesToText h.value) }

/-! ## The poll loop -/

/-- The records from `start` to before `stop` are wanted. -/
structure Start where
  part : Int
  start : Int
  stop : Int
  deriving DecidableEq, Repr

def startsOf (count : Nat) (ends : List (Int × Int)) : List Start :=
  ends.filterMap fun (part, stop) => if stop ≤ 0 then none else some ⟨part, max (stop - count) 0, stop⟩

def wanted (starts : List Start) (r : ConsumerRecord) : Bool :=
  match starts.find? (·.part = r.partition) with
  | some s => s.start ≤ r.offset && r.offset < s.stop
  | none => false

def allPartitionsDone (collected : List ConsumerRecord) (starts : List Start) : Bool :=
  starts.all fun s => (s.stop - s.start).toNat ≤ collected.countP (·.partition = s.part)

/-- It returns `none` when the polls have run out and the loop has not. -/
def pollLoop (starts : List Start) (wantTotal deadline : Nat) :
    List ConsumerRecord → List Poll → Option (Except String (List ConsumerRecord))
  | collected, [] => if collected.length < wantTotal then none else some (.ok collected)
  | collected, poll :: polls =>
      if collected.length < wantTotal && poll.now < deadline then
        match poll.result with
        | .error e => some (.error e)
        | .ok batch =>
            if batch.isEmpty then
              if allPartitionsDone collected starts then some (.ok collected)
              else pollLoop starts wantTotal deadline collected polls
            else
              let collected := collected ++ batch.filter (wanted starts)
              if allPartitionsDone collected starts then some (.ok collected)
              else pollLoop starts wantTotal deadline collected polls
      else some (.ok collected)

def messagesOf (iteration : Iteration Int (List ConsumerRecord)) (count : Nat)
    (collected : List ConsumerRecord) : List Message :=
  let byPart := Table.groupBy (·.partition) collected
  let messages := (iteration.arrange byPart.entries).flatMap fun ⟨_, recs⟩ =>
    let recs := sortByKey (·.offset) recs
    let take := min recs.length count
    (recs.drop (recs.length - take)).map recordToJson
  sortByKey (fun m => toLex (m.partition, m.offset)) messages

def consumerConfig (count partitions : Nat) : ConsumerConfig :=
  { autoCommit := false
    autoOffsetReset := .earliest
    maxPollRecords := count * partitions + 16
    maxWait := 1500 }

def pollDeadline : Nat := 8000

def latestMessages (client : Client) (iteration : Iteration Int (List ConsumerRecord)) (topic : String)
    (count : Nat) : ExceptT String Option Listing := do
  liftExcept client.refreshMetadata
  let ends ← liftExcept (fetchLogEndOffsets client topic)
  if ends.isEmpty then
    return ⟨topic, 0, []⟩
  let starts := startsOf count ends
  if starts.isEmpty then
    return ⟨topic, 0, []⟩
  let consumer := client.consumer (consumerConfig count ends.length)
  liftExcept (consumer.assign topic (starts.map (·.part)))
  liftExcept (starts.forM fun s => consumer.seek topic s.part s.start)
  let collected ← ExceptT.mk (pollLoop starts (count * starts.length) pollDeadline [] consumer.polls)
  let messages := messagesOf iteration count collected
  return ⟨topic, messages.length, messages⟩

end KafkaProxy.Api
