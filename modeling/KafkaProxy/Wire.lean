import KafkaProxy.Library.BigEndian

namespace KafkaProxy
open Library

abbrev Frame := List UInt8

def putI32 (value : Int32) : Frame := BigEndian.encode 4 value.toUInt32.toNat

def getI16 (raw : Frame) : Int16 := (UInt16.ofNat (BigEndian.decode (raw.take 2))).toInt16

def getI32 (raw : Frame) : Int32 := (UInt32.ofNat (BigEndian.decode (raw.take 4))).toInt32

@[simp] theorem putI32_length (value : Int32) : (putI32 value).length = 4 :=
  BigEndian.encode_length ..

@[simp] theorem getI32_putI32_append (value : Int32) (rest : Frame) :
    getI32 (putI32 value ++ rest) = value := by
  have taken : (putI32 value ++ rest).take 4 = putI32 value := by
    rw [List.take_append_of_le_length (by simp), List.take_of_length_le (by simp)]
  have fits : value.toUInt32.toNat < 256 ^ 4 := value.toUInt32.toNat_lt
  rw [getI32, taken, putI32, BigEndian.decode_encode_of_lt fits]
  simp

structure RequestHeader where
  apiKey : Int16
  apiVersion : Int16
  correlationId : Int32
  deriving DecidableEq, Repr

/-- Layout: api_key int16, api_version int16, correlation_id int32. -/
def parseRequestHeader (raw : Frame) : Option RequestHeader :=
  if raw.length < 8 then none
  else some ⟨getI16 raw, getI16 (raw.drop 2), getI32 (raw.drop 4)⟩

def parseResponseCid (raw : Frame) : Option Int32 :=
  if raw.length < 4 then none else some (getI32 raw)

def replaceCid (data : Frame) (cidU : Int32) : Frame :=
  data.take 4 ++ putI32 cidU ++ data.drop 8

theorem parseRequestHeader_length {raw : Frame} {header : RequestHeader}
    (parsed : parseRequestHeader raw = some header) : 8 ≤ raw.length := by
  unfold parseRequestHeader at parsed
  split at parsed
  · cases parsed
  · omega

theorem replaceCid_cid {data : Frame} (cidU : Int32) (long : 8 ≤ data.length) :
    getI32 ((replaceCid data cidU).drop 4) = cidU := by
  have dropped : (replaceCid data cidU).drop 4 = putI32 cidU ++ data.drop 8 := by
    rw [replaceCid, List.append_assoc, List.drop_append_of_le_length (by simp; omega)]
    simp
  rw [dropped, getI32_putI32_append]

theorem parseResponseCid_length {raw : Frame} {cid : Int32}
    (parsed : parseResponseCid raw = some cid) : 4 ≤ raw.length := by
  unfold parseResponseCid at parsed
  split at parsed
  · cases parsed
  · omega

end KafkaProxy
