import KafkaProxy.Startup.Listeners
import KafkaProxy.Startup.Text

/-!
# Durations in the configuration

A number of minutes or hours is multiplied to seconds in 64 bits, where a product that does not fit
wraps around.
-/

namespace KafkaProxy.Startup

theorem toNat_toUInt32_mul {n : UInt64} {k : UInt32} (fits : n.toNat * k.toNat < 2 ^ 32)
    (positive : 0 < k.toNat) : (n.toUInt32 * k).toNat = n.toNat * k.toNat := by
  have small : n.toNat < 2 ^ 32 := (Nat.le_mul_of_pos_right _ positive).trans_lt fits
  rw [UInt32.toNat_mul, UInt64.toNat_toUInt32, Nat.mod_eq_of_lt small, Nat.mod_eq_of_lt fits]

structure Duration where
  secs : UInt64
  nanos : UInt32
  nanos_lt : nanos.toNat < 1000000000
  deriving DecidableEq

namespace Duration

def toNanos (d : Duration) : Nat := d.secs.toNat * 1000000000 + d.nanos.toNat

def fromSecs (secs : UInt64) : Duration := ⟨secs, 0, by decide⟩

theorem millis_nanos (millis : UInt64) :
    ((millis % 1000).toUInt32 * 1000000).toNat = millis.toNat % 1000 * 1000000 := by
  have below : (millis % 1000).toNat < 1000 := UInt64.mod_lt millis (b := 1000) (by decide)
  rw [toNat_toUInt32_mul _ (by decide)]
  · rfl
  · change _ * 1000000 < _
    omega

theorem micros_nanos (micros : UInt64) :
    ((micros % 1000000).toUInt32 * 1000).toNat = micros.toNat % 1000000 * 1000 := by
  have below : (micros % 1000000).toNat < 1000000 := UInt64.mod_lt micros (b := 1000000) (by decide)
  rw [toNat_toUInt32_mul _ (by decide)]
  · rfl
  · change _ * 1000 < _
    omega

def fromMillis (millis : UInt64) : Duration where
  secs := millis / 1000
  nanos := (millis % 1000).toUInt32 * 1000000
  nanos_lt := by
    rw [millis_nanos]
    omega

def fromMicros (micros : UInt64) : Duration where
  secs := micros / 1000000
  nanos := (micros % 1000000).toUInt32 * 1000
  nanos_lt := by
    rw [micros_nanos]
    omega

theorem toNanos_fromSecs (secs : UInt64) : (fromSecs secs).toNanos = secs.toNat * 1000000000 :=
  Nat.add_zero _

theorem toNanos_fromMillis (millis : UInt64) : (fromMillis millis).toNanos = millis.toNat * 1000000 := by
  have quotient : (millis / 1000).toNat = millis.toNat / 1000 := rfl
  rw [toNanos, fromMillis, millis_nanos, quotient]
  omega

theorem toNanos_fromMicros (micros : UInt64) : (fromMicros micros).toNanos = micros.toNat * 1000 := by
  have quotient : (micros / 1000000).toNat = micros.toNat / 1000000 := rfl
  rw [toNanos, fromMicros, micros_nanos, quotient]
  omega

theorem toNanos_lt (d : Duration) : d.toNanos / 1000000000 < 2 ^ 64 := by
  have secs := d.secs.toNat_lt
  have nanos := d.nanos_lt
  unfold toNanos
  omega

theorem toNanos_injective : Function.Injective toNanos := by
  intro ⟨secs, nanos, nanos_lt⟩ ⟨otherSecs, otherNanos, otherNanos_lt⟩ same
  change secs.toNat * 1000000000 + nanos.toNat = otherSecs.toNat * 1000000000 + otherNanos.toNat at same
  have seconds : secs = otherSecs := UInt64.toNat_inj.mp (by omega)
  have rest : nanos = otherNanos := UInt32.toNat_inj.mp (by omega)
  subst seconds rest
  rfl

end Duration

def parseU64 (text : List Char) : Option UInt64 := (parseUnsigned 64 text).map UInt64.ofNat

def parseDurationStr (s : String) : Except String Duration :=
  let s := trim s.toList
  match s.dropSuffix? ['m', 's'] with
  | some num => okOr ((parseU64 num).map .fromMillis) ("无效的毫秒数: " ++ String.ofList s)
  | none =>
      match s.dropSuffix? ['u', 's'] with
      | some num => okOr ((parseU64 num).map .fromMicros) ("无效的微秒数: " ++ String.ofList s)
      | none =>
          let scaled : Option (List Char × UInt64) :=
            match s.dropSuffix? ['s'], s.dropSuffix? ['m'], s.dropSuffix? ['h'] with
            | some num, _, _ => some (num, 1)
            | none, some num, _ => some (num, 60)
            | none, none, some num => some (num, 3600)
            | none, none, none => none
          match scaled with
          | some (num, mul) =>
              okOr ((parseU64 num).map fun n => .fromSecs (n * mul))
                ("无效的时长数值: " ++ String.ofList s)
          | none => okOr ((parseU64 s).map .fromSecs) ("无效的时长: " ++ String.ofList s)

/-! ## Units -/

inductive TimeUnit where
  | millis
  | micros
  | seconds
  | minutes
  | hours
  | bare
  deriving DecidableEq

namespace TimeUnit

def suffix : TimeUnit → List Char
  | millis => ['m', 's']
  | micros => ['u', 's']
  | seconds => ['s']
  | minutes => ['m']
  | hours => ['h']
  | bare => []

def nanos : TimeUnit → Nat
  | millis => 1000000
  | micros => 1000
  | seconds | bare => 1000000000
  | minutes => 60 * 1000000000
  | hours => 3600 * 1000000000

def duration (n : UInt64) : TimeUnit → Duration
  | millis => .fromMillis n
  | micros => .fromMicros n
  | seconds => .fromSecs (n * 1)
  | minutes => .fromSecs (n * 60)
  | hours => .fromSecs (n * 3600)
  | bare => .fromSecs n

theorem suffix_letters (unit : TimeUnit) : ∀ c ∈ unit.suffix, c.isDigit = false := by
  have letters : unit.suffix.all (fun c => !c.isDigit) = true := by cases unit <;> rfl
  intro c member
  simpa using List.all_eq_true.mp letters c member

theorem suffix_injective : Function.Injective suffix := by
  intro unit other same
  cases unit <;> cases other <;> first | rfl | cases same

end TimeUnit

structure Reads (text numeral : List Char) (n : UInt64) (unit : TimeUnit) : Prop where
  split : text = numeral ++ unit.suffix
  numeral : parseU64 numeral = some n

/-- The time that the text denotes, in nanoseconds. -/
def DenotesTime (text : List Char) (time : Nat) : Prop :=
  ∃ numeral n unit, Reads text numeral n unit ∧ time = n.toNat * unit.nanos

section
variable {text numeral other : List Char} {n m : UInt64} {unit unit' : TimeUnit} {d : Duration}

theorem dropSuffix?_eq_some {num : List Char} :
    text.dropSuffix? other = some num ↔ text = num ++ other := by
  simp [List.dropSuffix?_eq_some_iff]

theorem parseU64_getLast (read : parseU64 numeral = some n) :
    ∃ front c, numeral = front ++ [c] ∧ c.isDigit := by
  obtain ⟨value, found, _⟩ := Option.map_eq_some_iff.mp read
  exact parseUnsigned_getLast found

theorem Reads.dropSuffix?_eq_none (reads : Reads text numeral n unit)
    (letters : ∀ c ∈ other, c.isDigit = false) (longer : ¬ other <:+ unit.suffix) :
    text.dropSuffix? other = none := by
  rw [Option.eq_none_iff_forall_ne_some]
  intro num found
  have split := (dropSuffix?_eq_some.mp found).symm.trans reads.split
  obtain ⟨front, c, ends, digit⟩ := parseU64_getLast reads.numeral
  obtain ⟨back, rfl, reaches⟩ | ⟨back, _, inside⟩ := List.append_eq_append_iff.mp split
  · rcases back.eq_nil_or_concat with rfl | ⟨before, last, rfl⟩
    · exact longer (reaches ▸ List.suffix_rfl)
    · rw [List.concat_eq_append, ← List.append_assoc] at ends
      obtain rfl : last = c := by simpa using (List.append_inj' ends rfl).2
      have member : last ∈ other := by simp [reaches]
      rw [letters last member] at digit
      cases digit
  · exact longer ⟨back, inside.symm⟩

theorem Reads.suffix_of_eq (reads : Reads text numeral n unit) {num : List Char}
    (split : text = num ++ unit'.suffix) : unit'.suffix <:+ unit.suffix := by
  by_contra longer
  have missed := reads.dropSuffix?_eq_none unit'.suffix_letters longer
  rw [dropSuffix?_eq_some.mpr split] at missed
  cases missed

theorem Reads.unique {numeral' : List Char} {n' : UInt64} (reads : Reads text numeral n unit)
    (again : Reads text numeral' n' unit') : unit = unit' ∧ n = n' := by
  have one := reads.suffix_of_eq again.split
  have two := again.suffix_of_eq reads.split
  have same : unit = unit' :=
    TimeUnit.suffix_injective (two.eq_of_length_le one.length_le)
  subst same
  have equal := List.append_cancel_right (reads.split.symm.trans again.split)
  subst equal
  exact ⟨rfl, Option.some_inj.mp (reads.numeral.symm.trans again.numeral)⟩

theorem okOr_map_eq_ok {f : UInt64 → Duration} {error : String} :
    okOr ((parseU64 numeral).map f) error = .ok d ↔ ∃ n, parseU64 numeral = some n ∧ f n = d := by
  rw [okOr_eq_ok, Option.map_eq_some_iff]

theorem parseDurationStr_eq_ok {s : String} : parseDurationStr s = .ok d ↔
    ∃ numeral n unit, Reads (trim s.toList) numeral n unit ∧ unit.duration n = d := by
  unfold parseDurationStr
  dsimp only
  generalize trim s.toList = text
  constructor
  · intro parsed
    split at parsed
    · rename_i num millis
      obtain ⟨n, read, made⟩ := okOr_map_eq_ok.mp parsed
      exact ⟨num, n, .millis, ⟨dropSuffix?_eq_some.mp millis, read⟩, made⟩
    split at parsed
    · rename_i num micros
      obtain ⟨n, read, made⟩ := okOr_map_eq_ok.mp parsed
      exact ⟨num, n, .micros, ⟨dropSuffix?_eq_some.mp micros, read⟩, made⟩
    split at parsed
    · rename_i num mul scaled
      obtain ⟨n, read, made⟩ := okOr_map_eq_ok.mp parsed
      split at scaled
      · rename_i seconds
        cases scaled
        exact ⟨num, n, .seconds, ⟨dropSuffix?_eq_some.mp seconds, read⟩, made⟩
      · rename_i minutes
        cases scaled
        exact ⟨num, n, .minutes, ⟨dropSuffix?_eq_some.mp minutes, read⟩, made⟩
      · rename_i hours
        cases scaled
        exact ⟨num, n, .hours, ⟨dropSuffix?_eq_some.mp hours, read⟩, made⟩
      · cases scaled
    · obtain ⟨n, read, made⟩ := okOr_map_eq_ok.mp parsed
      exact ⟨text, n, .bare, ⟨(List.append_nil text).symm, read⟩, made⟩
  · rintro ⟨numeral, n, unit, reads, rfl⟩
    have missed (other : TimeUnit) (longer : ¬ other.suffix <:+ unit.suffix) :
        text.dropSuffix? other.suffix = none :=
      reads.dropSuffix?_eq_none other.suffix_letters longer
    have found : text.dropSuffix? unit.suffix = some numeral := dropSuffix?_eq_some.mpr reads.split
    cases unit with
    | millis =>
        simp only [TimeUnit.suffix] at found
        simp only [found]
        exact okOr_map_eq_ok.mpr ⟨n, reads.numeral, rfl⟩
    | micros =>
        have millis := missed .millis (by decide)
        simp only [TimeUnit.suffix] at millis found
        simp only [millis, found]
        exact okOr_map_eq_ok.mpr ⟨n, reads.numeral, rfl⟩
    | seconds =>
        have millis := missed .millis (by decide)
        have micros := missed .micros (by decide)
        simp only [TimeUnit.suffix] at millis micros found
        simp only [millis, micros, found]
        exact okOr_map_eq_ok.mpr ⟨n, reads.numeral, rfl⟩
    | minutes =>
        have millis := missed .millis (by decide)
        have micros := missed .micros (by decide)
        have seconds := missed .seconds (by decide)
        simp only [TimeUnit.suffix] at millis micros seconds found
        simp only [millis, micros, seconds, found]
        exact okOr_map_eq_ok.mpr ⟨n, reads.numeral, rfl⟩
    | hours =>
        have millis := missed .millis (by decide)
        have micros := missed .micros (by decide)
        have seconds := missed .seconds (by decide)
        have minutes := missed .minutes (by decide)
        simp only [TimeUnit.suffix] at millis micros seconds minutes found
        simp only [millis, micros, seconds, minutes, found]
        exact okOr_map_eq_ok.mpr ⟨n, reads.numeral, rfl⟩
    | bare =>
        obtain rfl : text = numeral := reads.split.trans (List.append_nil numeral)
        have millis := missed .millis (by decide)
        have micros := missed .micros (by decide)
        have seconds := missed .seconds (by decide)
        have minutes := missed .minutes (by decide)
        have hours := missed .hours (by decide)
        simp only [TimeUnit.suffix] at millis micros seconds minutes hours
        simp only [millis, micros, seconds, minutes, hours]
        exact okOr_map_eq_ok.mpr ⟨n, reads.numeral, rfl⟩

end

/-! ## The time that is denoted -/

theorem toNanos_scaled (n mul : UInt64) (fits : n.toNat * mul.toNat < 2 ^ 64) :
    (Duration.fromSecs (n * mul)).toNanos = n.toNat * (mul.toNat * 1000000000) := by
  rw [Duration.toNanos_fromSecs, UInt64.toNat_mul, Nat.mod_eq_of_lt fits, Nat.mul_assoc]

theorem TimeUnit.toNanos_duration {unit : TimeUnit} {n : UInt64} :
    (unit.duration n).toNanos = n.toNat * unit.nanos ↔ n.toNat * unit.nanos / 1000000000 < 2 ^ 64 := by
  constructor
  · intro exact
    exact exact ▸ (unit.duration n).toNanos_lt
  · intro fits
    have below := n.toNat_lt
    cases unit with
    | millis => exact Duration.toNanos_fromMillis n
    | micros => exact Duration.toNanos_fromMicros n
    | seconds => exact toNanos_scaled n 1 (by change n.toNat * 1 < _; omega)
    | minutes =>
        simp only [nanos] at fits
        exact toNanos_scaled n 60 (by change n.toNat * 60 < _; omega)
    | hours =>
        simp only [nanos] at fits
        exact toNanos_scaled n 3600 (by change n.toNat * 3600 < _; omega)
    | bare => exact Duration.toNanos_fromSecs n

theorem TimeUnit.fits_iff {unit : TimeUnit} {n : UInt64} : n.toNat * unit.nanos / 1000000000 < 2 ^ 64 ↔
    (unit = .minutes → n.toNat * 60 < 2 ^ 64) ∧ (unit = .hours → n.toNat * 3600 < 2 ^ 64) := by
  have below := n.toNat_lt
  cases unit <;> simp only [nanos, reduceCtorEq, forall_const, false_implies, and_self, and_true, true_and,
    iff_true] <;> omega

/-- Reading a duration is exact for the text that is not too many minutes or hours. -/
theorem parseDurationStr_exact_iff (s : String) :
    (∀ d, parseDurationStr s = .ok d ↔ ∃ time, DenotesTime (trim s.toList) time ∧
        time / 1000000000 < 2 ^ 64 ∧ d.toNanos = time) ↔
      ∀ numeral n, parseU64 numeral = some n →
        (trim s.toList = numeral ++ ['m'] → n.toNat * 60 < 2 ^ 64) ∧
        (trim s.toList = numeral ++ ['h'] → n.toNat * 3600 < 2 ^ 64) := by
  constructor
  · intro exact numeral n read
    have fits (unit : TimeUnit) (split : trim s.toList = numeral ++ unit.suffix) :
        n.toNat * unit.nanos / 1000000000 < 2 ^ 64 := by
      have reads : Reads (trim s.toList) numeral n unit := ⟨split, read⟩
      have parsed := parseDurationStr_eq_ok.mpr ⟨numeral, n, unit, reads, rfl⟩
      obtain ⟨_, ⟨_, _, _, again, rfl⟩, small, _⟩ := (exact _).mp parsed
      obtain ⟨rfl, rfl⟩ := reads.unique again
      exact small
    exact ⟨fun split => (TimeUnit.fits_iff.mp (fits .minutes split)).1 rfl,
      fun split => (TimeUnit.fits_iff.mp (fits .hours split)).2 rfl⟩
  · intro small d
    have fits {numeral : List Char} {n : UInt64} {unit : TimeUnit}
        (reads : Reads (trim s.toList) numeral n unit) :
        n.toNat * unit.nanos / 1000000000 < 2 ^ 64 := by
      obtain ⟨split, read⟩ := reads
      rw [TimeUnit.fits_iff]
      constructor
      · rintro rfl
        exact (small numeral n read).1 split
      · rintro rfl
        exact (small numeral n read).2 split
    rw [parseDurationStr_eq_ok]
    constructor
    · rintro ⟨numeral, n, unit, reads, rfl⟩
      exact ⟨_, ⟨numeral, n, unit, reads, rfl⟩, fits reads,
        TimeUnit.toNanos_duration.mpr (fits reads)⟩
    · rintro ⟨_, ⟨numeral, n, unit, reads, rfl⟩, representable, same⟩
      refine ⟨numeral, n, unit, reads, Duration.toNanos_injective ?_⟩
      rw [same]
      exact TimeUnit.toNanos_duration.mpr representable

theorem parseDurationStr_exact_not : ¬ ∀ (s : String) d, parseDurationStr s = .ok d ↔
    ∃ time, DenotesTime (trim s.toList) time ∧ time / 1000000000 < 2 ^ 64 ∧ d.toNanos = time := by
  intro claim
  have parsed : parseDurationStr "18446744073709551615m" = .ok (.fromSecs 18446744073709551556) := by
    decide +kernel
  obtain ⟨_, ⟨numeral, n, unit, reads, rfl⟩, representable, _⟩ := (claim _ _).mp parsed
  have most : Reads (trim "18446744073709551615m".toList) "18446744073709551615".toList
      18446744073709551615 .minutes := ⟨by decide, by decide +kernel⟩
  obtain ⟨rfl, rfl⟩ := reads.unique most
  exact absurd representable (by decide)

example : parseDurationStr " 1500ms " = .ok ⟨1, 500000000, by decide⟩ := by decide +kernel

end KafkaProxy.Startup
