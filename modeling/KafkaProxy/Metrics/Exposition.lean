import KafkaProxy.Metrics.Prometheus
import KafkaProxy.Startup.Text

/-!
# The text of `/metrics`

The text that `render_prometheus` puts together, line by line, and a reader of this format as a scraper
has it: a family begins with its HELP and TYPE lines, and the samples that follow are its own.
-/

namespace KafkaProxy
open Startup

/-- How an `f64` value is displayed: like an integer if it is one, and never with an exponent. -/
structure Format where
  display : ℚ → String
  integer : ∀ n : ℤ, display n = toString n
  plain : ∀ q, ∀ c ∈ (display q).toList, c.isDigit ∨ c = '-' ∨ c = '.'

def Format.formatBucket (format : Format) (b : ℚ) : String :=
  if b = ⌊b⌋ then toString ⌊b⌋ ++ ".0" else format.display b

def Label.text (format : Format) : Label → String
  | .none => ""
  | .dir direction => "\x7bdir=\"" ++ direction ++ "\"\x7d"
  | .le bound => "\x7ble=\"" ++ format.formatBucket bound ++ "\"\x7d"
  | .inf => "\x7ble=\"+Inf\"\x7d"

def Sample.line (format : Format) (s : Sample) : String :=
  s.name ++ s.label.text format ++ " " ++ format.display s.value

inductive FamilyKind where
  | counter
  | gauge
  | histogram
  deriving DecidableEq, Repr

def FamilyKind.text : FamilyKind → String
  | counter => "counter"
  | gauge => "gauge"
  | histogram => "histogram"

structure Family where
  name : String
  help : String
  kind : FamilyKind
  samples : List Sample

namespace Family

def plain (name help : String) (kind : FamilyKind) (samples : List (Label × ℚ)) : Family :=
  ⟨name, help, kind, samples.map fun (label, value) => ⟨name, label, value⟩⟩

def ofHistogram (name help : String) (h : Histogram) : Family := ⟨name, help, .histogram, h.render name⟩

def lines (format : Format) (f : Family) : List String :=
  ("# HELP " ++ f.name ++ " " ++ f.help) :: ("# TYPE " ++ f.name ++ " " ++ f.kind.text) ::
    f.samples.map (·.line format)

end Family

namespace AllMetrics

def poolHitRate (m : AllMetrics) : ℚ :=
  if 0 < m.poolHits + m.poolMisses then m.poolHits / (m.poolHits + m.poolMisses) else 0

def families (m : AllMetrics) (rss : Nat) : List Family :=
  [.plain "kafka_proxy_frames_total" "Frames forwarded by direction." .counter
      [(.dir "downstream", m.framesDownstream), (.dir "upstream", m.framesUpstream)],
    .plain "kafka_proxy_bytes_total" "Bytes forwarded by direction." .counter
      [(.dir "downstream", m.bytesDownstream), (.dir "upstream", m.bytesUpstream)],
    .plain "kafka_proxy_requests_in_flight" "In-flight requests." .gauge [(.none, m.requestsInFlight)],
    .plain "kafka_proxy_downstream_connections" "Active downstream connections." .gauge
      [(.none, m.downstreamConnections)],
    .plain "kafka_proxy_upstream_connections" "Active upstream pooled connections." .gauge
      [(.none, m.upstreamConnections)],
    .plain "kafka_proxy_pool_hits_total" "Pool acquire hits." .counter [(.none, m.poolHits)],
    .plain "kafka_proxy_pool_misses_total" "Pool acquire misses." .counter [(.none, m.poolMisses)],
    .plain "kafka_proxy_pool_evictions_total" "Pool connection evictions." .counter
      [(.none, m.poolEvictions)],
    .plain "kafka_proxy_pool_waiters" "Requests waiting for a pooled connection." .gauge
      [(.none, m.poolWaiters)],
    .plain "kafka_proxy_pool_hit_rate" "Derived pool hit rate." .gauge [(.none, m.poolHitRate)],
    .plain "kafka_proxy_auth_failures_total" "Upstream authentication failures." .counter
      [(.none, m.authFailures)],
    .ofHistogram "kafka_proxy_acquire_duration_seconds"
      "Time waiting to acquire an upstream connection." m.acquireHist,
    .ofHistogram "kafka_proxy_request_duration_seconds" "End-to-end request latency." m.requestHist,
    .ofHistogram "kafka_proxy_handshake_duration_seconds"
      "Upstream GSSAPI/TLS handshake duration." m.handshakeHist,
    .plain "kafka_proxy_process_resident_memory_bytes" "Process RSS bytes." .gauge [(.none, rss)],
    .plain "kafka_proxy_cid_map_entries" "correlation_id remap table entries." .gauge
      [(.none, m.cidMapEntries)]]

def exposition (format : Format) (m : AllMetrics) (rss : Nat) : String :=
  String.join (((m.families rss).flatMap (·.lines format)).map (· ++ "\n"))

theorem samples_families (m : AllMetrics) (rss : Nat) :
    (m.families rss).flatMap (·.samples) = m.renderPrometheus rss := by
  simp [families, renderPrometheus, poolHitRate, Family.plain, Family.ofHistogram]

end AllMetrics

/-! ## A scraper -/

structure ScrapedSample where
  name : List Char
  label : Option (List Char × List Char)
  value : List Char
  deriving DecidableEq, Repr

structure ScrapedFamily where
  name : List Char
  kind : Option (List Char)
  samples : List ScrapedSample
  deriving DecidableEq, Repr

namespace Scrape

def legalName : List Char → Bool
  | [] => false
  | c :: rest => (c.isAlpha || c = '_' || c = ':') && rest.all fun c => c.isAlphanum || c = '_' || c = ':'

def readSeries (text : List Char) : Option (List Char × Option (List Char × List Char)) :=
  match rsplitOnce '\x7b' text with
  | none => some (text, none)
  | some (name, labels) => do
      let (key, quoted) ← rsplitOnce '=' labels
      match ← rsplitOnce '"' quoted with
      | ('"' :: value, ['\x7d']) => some (name, some (key, value))
      | _ => none

def readSample (line : List Char) : Option ScrapedSample := do
  let (series, value) ← rsplitOnce ' ' line
  let (name, label) ← readSeries series
  return ⟨name, label, value⟩

def readDigits (text : List Char) : Option Nat :=
  if text.isEmpty || !text.all Char.isDigit then none else some (Nat.ofDigitChars 10 text 0)

def readInteger : List Char → Option ℤ
  | '-' :: digits => (readDigits digits).map fun n => -(n : ℤ)
  | digits => (readDigits digits).map fun n => (n : ℤ)

/-- A histogram has three series, any other family one. -/
def belongs (family : ScrapedFamily) (name : List Char) : Bool :=
  if family.kind = some "histogram".toList then
    name ∈ ["_bucket", "_sum", "_count"].map fun suffix => family.name ++ suffix.toList
  else name = family.name

/-- One line more. The family that it belongs to stands in front. -/
def addLine (read : List ScrapedFamily) (line : List Char) : Option (List ScrapedFamily) :=
  match List.isPrefixOf? "# HELP ".toList line with
  | some rest =>
      let name := rest.takeWhile (· ≠ ' ')
      if legalName name && name ∉ read.map (·.name) then some (⟨name, none, []⟩ :: read) else none
  | none =>
      match List.isPrefixOf? "# TYPE ".toList line with
      | some rest =>
          match rsplitOnce ' ' rest, read with
          | some (name, kind), ⟨current, none, []⟩ :: others =>
              if name = current && kind ∈ ["counter", "gauge", "histogram"].map (·.toList) then
                some (⟨current, some kind, []⟩ :: others)
              else none
          | _, _ => none
      | none =>
          match readSample line, read with
          | some sample, family :: others =>
              if family.kind.isSome && belongs family sample.name then
                some ({ family with samples := family.samples ++ [sample] } :: others)
              else none
          | _, _ => none

end Scrape

def scrape (text : String) : Option (List ScrapedFamily) :=
  let lines := text.toList.splitOn '\n'
  if lines.getLast? = some [] then (lines.dropLast.foldlM Scrape.addLine []).map List.reverse else none

/-! ## What the scraper accepts -/

namespace Scrape

structure WellFormed (read : List ScrapedFamily) : Prop where
  distinct : (read.map (·.name)).Nodup
  legal : ∀ family ∈ read, legalName family.name
  belongs : ∀ family ∈ read, ∀ sample ∈ family.samples, belongs family sample.name

variable {read after : List ScrapedFamily} {line : List Char}

theorem WellFormed.addLine (wellFormed : WellFormed read) (added : addLine read line = some after) :
    WellFormed after := by
  obtain ⟨distinct, legal, belong⟩ := wellFormed
  unfold Scrape.addLine at added
  split at added
  · dsimp only at added
    split at added <;> cases added
    rename_i new
    simp only [Bool.and_eq_true, decide_eq_true_eq] at new
    refine ⟨List.nodup_cons.mpr ⟨new.2, distinct⟩, ?_, ?_⟩
    · exact List.forall_mem_cons.mpr ⟨new.1, legal⟩
    · exact List.forall_mem_cons.mpr ⟨fun _ none => absurd none List.not_mem_nil, belong⟩
  · split at added
    · split at added
      · split at added <;> cases added
        refine ⟨distinct, ?_, ?_⟩
        · exact List.forall_mem_cons.mpr (List.forall_mem_cons.mp legal)
        · exact List.forall_mem_cons.mpr
            ⟨fun _ none => absurd none List.not_mem_nil, (List.forall_mem_cons.mp belong).2⟩
      · cases added
    · split at added
      · split at added <;> cases added
        rename_i fits
        simp only [Bool.and_eq_true] at fits
        refine ⟨distinct, ?_, ?_⟩
        · exact List.forall_mem_cons.mpr (List.forall_mem_cons.mp legal)
        · obtain ⟨own, others⟩ := List.forall_mem_cons.mp belong
          refine List.forall_mem_cons.mpr ⟨fun sample member => ?_, others⟩
          cases List.mem_append.mp member with
          | inl earlier => exact own sample earlier
          | inr last =>
              rw [List.mem_singleton.mp last]
              exact fits.2
      · cases added

theorem WellFormed.lines (wellFormed : WellFormed read) {lines : List (List Char)}
    (added : lines.foldlM Scrape.addLine read = some after) : WellFormed after := by
  induction lines generalizing read with
  | nil =>
      cases added
      exact wellFormed
  | cons line rest ih =>
      rw [List.foldlM_cons] at added
      obtain ⟨next, first, remaining⟩ := Option.bind_eq_some_iff.mp added
      exact ih (wellFormed.addLine first) remaining

end Scrape

theorem scrape_wellFormed {text : String} {families : List ScrapedFamily}
    (read : scrape text = some families) : Scrape.WellFormed families := by
  unfold scrape at read
  dsimp only at read
  split at read
  · obtain ⟨reversed, added, rfl⟩ := Option.map_eq_some_iff.mp read
    have empty : Scrape.WellFormed [] := ⟨List.nodup_nil, nofun, nofun⟩
    obtain ⟨distinct, legal, belongs⟩ := empty.lines added
    constructor
    · rw [List.map_reverse]
      exact List.nodup_reverse.mpr distinct
    · exact fun family member => legal family (List.mem_reverse.mp member)
    · exact fun family member => belongs family (List.mem_reverse.mp member)
  · cases read

/-! ## The text read back -/

def Label.scraped (format : Format) : Label → Option (List Char × List Char)
  | .none => Option.none
  | .dir direction => some ("dir".toList, direction.toList)
  | .le bound => some ("le".toList, (format.formatBucket bound).toList)
  | .inf => some ("le".toList, "+Inf".toList)

def Sample.scraped (format : Format) (s : Sample) : ScrapedSample :=
  ⟨s.name.toList, s.label.scraped format, (format.display s.value).toList⟩

def Family.scraped (format : Format) (f : Family) : ScrapedFamily :=
  ⟨f.name.toList, some f.kind.text.toList, f.samples.map (·.scraped format)⟩

def special : List Char := ['{', '}', '=', '"', ' ', '\n']

def Unmarked (text : List Char) : Prop := ∀ c ∈ special, c ∉ text

instance (text : List Char) : Decidable (Unmarked text) := List.decidableBAll (· ∉ text) special

namespace Scrape

theorem isPrefixOf?_append (front rest : List Char) : List.isPrefixOf? front (front ++ rest) = some rest := by
  induction front with
  | nil => cases rest <;> rfl
  | cons c front ih => simp [List.isPrefixOf?, ih]

theorem unmarked_display (format : Format) (q : ℚ) : Unmarked (format.display q).toList := by
  have other : special.all (fun c => c.isDigit = false ∧ c ≠ '-' ∧ c ≠ '.') := by decide
  intro c marked member
  obtain ⟨digit, minus, dot⟩ := of_decide_eq_true (List.all_eq_true.mp other c marked)
  rcases format.plain q c member with number | sign | point
  · rw [digit] at number
    cases number
  · exact minus sign
  · exact dot point

theorem unmarked_formatBucket (format : Format) (b : ℚ) : Unmarked (format.formatBucket b).toList := by
  unfold Format.formatBucket
  split
  · have fraction : Unmarked ".0".toList := by decide
    intro c marked
    rw [← format.integer, String.toList_append, List.mem_append, not_or]
    exact ⟨unmarked_display format _ c marked, fraction c marked⟩
  · exact unmarked_display format b

theorem unmarked_of_legalName {name : List Char} (legal : legalName name) : Unmarked name := by
  have other : special.all (fun c => (c.isAlpha || c = '_' || c = ':') = false ∧
      (c.isAlphanum || c = '_' || c = ':') = false) := by decide
  cases name with
  | nil => cases legal
  | cons first rest =>
      simp only [legalName, Bool.and_eq_true, List.all_eq_true] at legal
      intro c marked member
      obtain ⟨start, inside⟩ := of_decide_eq_true (List.all_eq_true.mp other c marked)
      cases List.mem_cons.mp member with
      | inl same =>
          rw [← same, start] at legal
          cases legal.1
      | inr later =>
          have letter := legal.2 c later
          rw [inside] at letter
          cases letter

theorem readSeries_bare {name : List Char} (unmarked : Unmarked name) :
    readSeries name = some (name, none) := by
  have absent := rsplitOnce_eq_none.mpr (unmarked '\x7b' (by decide))
  simp only [readSeries, absent]

theorem readSeries_labelled {name key value : List Char} (keyed : Unmarked key) (valued : Unmarked value) :
    readSeries (name ++ '\x7b' :: (key ++ '=' :: '"' :: (value ++ ['"', '\x7d']))) =
      some (name, some (key, value)) := by
  have absent (c : Char) (marked : c ∈ special) (other : c ∉ ['"', '\x7d']) :
      c ∉ '"' :: (value ++ ['"', '\x7d']) := by
    simp only [List.mem_cons, List.mem_append, not_or] at other ⊢
    exact ⟨other.1, valued c marked, other.1, other.2⟩
  have brace : '\x7b' ∉ key ++ '=' :: '"' :: (value ++ ['"', '\x7d']) := by
    rw [List.mem_append, List.mem_cons, not_or, not_or]
    exact ⟨keyed _ (by decide), by decide, absent _ (by decide) (by decide)⟩
  have quoted : rsplitOnce '"' ('"' :: (value ++ ['"', '\x7d'])) = some ('"' :: value, ['\x7d']) :=
    @rsplitOnce_append '"' ('"' :: value) _ (by decide)
  simp only [readSeries, rsplitOnce_append brace, rsplitOnce_append (absent '=' (by decide) (by decide)),
    quoted, Option.bind_eq_bind, Option.bind_some]

end Scrape

structure Sample.Legal (s : Sample) : Prop where
  name : Scrape.legalName s.name.toList
  direction : ∀ direction, s.label = .dir direction → Unmarked direction.toList

namespace Scrape

theorem readSeries_line (format : Format) {s : Sample} (legal : s.Legal) :
    readSeries (s.name ++ s.label.text format).toList = some (s.name.toList, s.label.scraped format) := by
  have unmarked := unmarked_of_legalName legal.name
  rw [String.toList_append]
  cases label : s.label with
  | none => simpa [Label.text, Label.scraped] using readSeries_bare unmarked
  | dir direction =>
      have keyed : Unmarked "dir".toList := by decide
      have read := @readSeries_labelled s.name.toList _ _ keyed (legal.direction direction label)
      simpa [Label.text, Label.scraped] using read
  | le bound =>
      have keyed : Unmarked "le".toList := by decide
      have read := @readSeries_labelled s.name.toList _ _ keyed (unmarked_formatBucket format bound)
      simpa [Label.text, Label.scraped] using read
  | inf =>
      have keyed : Unmarked "le".toList := by decide
      have valued : Unmarked "+Inf".toList := by decide
      have read := @readSeries_labelled s.name.toList _ _ keyed valued
      simpa [Label.text, Label.scraped] using read

theorem readSample_line (format : Format) {s : Sample} (legal : s.Legal) :
    readSample (s.line format).toList = some (s.scraped format) := by
  have value := unmarked_display format s.value ' ' (by decide)
  have split : rsplitOnce ' ' (s.line format).toList =
      some ((s.name ++ s.label.text format).toList, (format.display s.value).toList) := by
    have text : (s.line format).toList =
        (s.name ++ s.label.text format).toList ++ ' ' :: (format.display s.value).toList := by
      simp [Sample.line]
    rw [text]
    exact rsplitOnce_append value
  simp only [readSample, split, Option.bind_eq_bind, Option.bind_some, readSeries_line format legal]
  rfl

theorem newline_line (format : Format) {s : Sample} (legal : s.Legal) : '\n' ∉ (s.line format).toList := by
  have marked : '\n' ∈ special := by decide
  have label : '\n' ∉ (s.label.text format).toList := by
    cases text : s.label with
    | none => exact List.not_mem_nil
    | dir direction =>
        have inside := legal.direction direction text _ marked
        simp [Label.text, inside]
    | le bound =>
        have inside := unmarked_formatBucket format bound _ marked
        simp [Label.text, inside]
    | inf =>
        show '\n' ∉ "\x7ble=\"+Inf\"\x7d".toList
        decide
  have name := unmarked_of_legalName legal.name _ marked
  have value := unmarked_display format s.value _ marked
  simp [Sample.line, name, label, value]

theorem head_line (format : Format) {s : Sample} (legal : s.Legal) :
    ∃ c rest, (s.line format).toList = c :: rest ∧ c ≠ '#' := by
  have name := legal.name
  cases text : s.name.toList with
  | nil =>
      rw [text] at name
      cases name
  | cons c rest =>
      rw [text] at name
      refine ⟨c, rest ++ (s.label.text format).toList ++ ' ' :: (format.display s.value).toList, ?_, ?_⟩
      · simp [Sample.line, text]
      · rintro rfl
        simp [legalName] at name

end Scrape

structure Family.Legal (f : Family) : Prop where
  name : Scrape.legalName f.name.toList
  help : '\n' ∉ f.help.toList
  samples : ∀ s ∈ f.samples, s.Legal
  belongs : ∀ s ∈ f.samples, Scrape.belongs ⟨f.name.toList, some f.kind.text.toList, []⟩ s.name.toList

namespace Scrape

theorem newline_lines (format : Format) {f : Family} (legal : f.Legal) :
    ∀ line ∈ f.lines format, '\n' ∉ line.toList := by
  have name := unmarked_of_legalName legal.name '\n' (by decide)
  have kind : '\n' ∉ f.kind.text.toList := by cases f.kind <;> decide
  intro line member
  simp only [Family.lines, List.mem_cons] at member
  obtain rfl | rfl | sample := member
  · simp [name, legal.help]
  · simp [name, kind]
  · obtain ⟨s, here, rfl⟩ := List.mem_map.mp sample
    exact newline_line format (legal.samples s here)

variable {read : List ScrapedFamily}

theorem addLine_help {name help : List Char} (legal : legalName name) (fresh : name ∉ read.map (·.name)) :
    addLine read ("# HELP ".toList ++ (name ++ ' ' :: help)) = some (⟨name, none, []⟩ :: read) := by
  have blank := unmarked_of_legalName legal ' ' (by decide)
  have word : (name ++ ' ' :: help).takeWhile (· ≠ ' ') = name := by
    rw [List.takeWhile_append_of_pos, List.takeWhile_cons_of_neg (by decide), List.append_nil]
    intro c member
    rw [decide_eq_true_eq]
    rintro rfl
    exact blank member
  simp only [addLine, isPrefixOf?_append, word]
  rw [if_pos]
  rw [legal, decide_eq_true fresh]
  rfl

theorem addLine_type {name : List Char} (kind : FamilyKind) :
    addLine (⟨name, none, []⟩ :: read) ("# TYPE ".toList ++ (name ++ ' ' :: kind.text.toList)) =
      some (⟨name, some kind.text.toList, []⟩ :: read) := by
  have blank : ' ' ∉ kind.text.toList := by cases kind <;> decide
  have known : kind.text.toList ∈ ["counter", "gauge", "histogram"].map (·.toList) := by
    cases kind <;> decide
  have other : List.isPrefixOf? "# HELP ".toList ("# TYPE ".toList ++ (name ++ ' ' :: kind.text.toList)) =
      none := rfl
  simp only [addLine, other, isPrefixOf?_append, rsplitOnce_append blank, known, decide_true,
    Bool.and_self, if_true]

theorem addLine_sample (format : Format) {s : Sample} (legal : s.Legal) {family : ScrapedFamily}
    (kind : family.kind.isSome) (fits : belongs family s.name.toList) :
    addLine (family :: read) (s.line format).toList =
      some ({ family with samples := family.samples ++ [s.scraped format] } :: read) := by
  obtain ⟨c, rest, text, other⟩ := head_line format legal
  have comment (word : List Char) : List.isPrefixOf? ('#' :: word) (s.line format).toList = none := by
    rw [text, List.isPrefixOf?, if_neg]
    simpa using other.symm
  have help := comment " HELP ".toList
  have type := comment " TYPE ".toList
  have fits : belongs family (s.scraped format).name := fits
  unfold addLine
  rw [show "# HELP ".toList = '#' :: " HELP ".toList from rfl, help,
    show "# TYPE ".toList = '#' :: " TYPE ".toList from rfl, type, readSample_line format legal]
  simp only [kind, fits, Bool.and_self, if_true]

theorem addLines_samples (format : Format) {samples : List Sample} {family : ScrapedFamily}
    (legal : ∀ s ∈ samples, s.Legal) (kind : family.kind.isSome)
    (fits : ∀ s ∈ samples, belongs family s.name.toList) :
    (samples.map fun s => (s.line format).toList).foldlM addLine (family :: read) =
      some ({ family with samples := family.samples ++ samples.map (·.scraped format) } :: read) := by
  induction samples generalizing family with
  | nil => simp
  | cons s rest ih =>
      obtain ⟨first, others⟩ := List.forall_mem_cons.mp legal
      obtain ⟨own, remaining⟩ := List.forall_mem_cons.mp fits
      have later := @ih { family with samples := family.samples ++ [s.scraped format] } others kind remaining
      rw [List.map_cons, List.foldlM_cons, addLine_sample format first kind own, Option.bind_eq_bind,
        Option.bind_some, later, List.map_cons, List.append_assoc, List.singleton_append]

theorem addLines_family (format : Format) {f : Family} (legal : f.Legal)
    (fresh : f.name.toList ∉ read.map (·.name)) :
    ((f.lines format).map (·.toList)).foldlM addLine read = some (f.scraped format :: read) := by
  have help : ("# HELP " ++ f.name ++ " " ++ f.help).toList =
      "# HELP ".toList ++ (f.name.toList ++ ' ' :: f.help.toList) := by simp
  have type : ("# TYPE " ++ f.name ++ " " ++ f.kind.text).toList =
      "# TYPE ".toList ++ (f.name.toList ++ ' ' :: f.kind.text.toList) := by simp
  rw [Family.lines, List.map_cons, List.map_cons, List.foldlM_cons, help, addLine_help legal.name fresh,
    Option.bind_eq_bind, Option.bind_some, List.foldlM_cons, type, addLine_type, Option.bind_eq_bind,
    Option.bind_some, List.map_map]
  exact addLines_samples format legal.samples rfl legal.belongs

theorem addLines_families (format : Format) {families : List Family} (legal : ∀ f ∈ families, f.Legal)
    (distinct : (families.map (·.name)).Nodup) (fresh : ∀ f ∈ families, f.name.toList ∉ read.map (·.name)) :
    ((families.flatMap (·.lines format)).map (·.toList)).foldlM addLine read =
      some ((families.map (·.scraped format)).reverse ++ read) := by
  induction families generalizing read with
  | nil => rfl
  | cons f rest ih =>
      obtain ⟨first, others⟩ := List.forall_mem_cons.mp legal
      obtain ⟨new, remaining⟩ := List.forall_mem_cons.mp fresh
      obtain ⟨apart, distinct⟩ := List.nodup_cons.mp distinct
      have later : ∀ g ∈ rest, g.name.toList ∉ (f.scraped format :: read).map (·.name) := by
        intro g member
        rw [List.map_cons, List.mem_cons, not_or]
        refine ⟨fun same => apart ?_, remaining g member⟩
        show f.name ∈ rest.map (·.name)
        rw [← String.toList_inj.mp same]
        exact List.mem_map_of_mem member
      rw [List.flatMap_cons, List.map_append, List.foldlM_append, addLines_family format first new,
        Option.bind_eq_bind, Option.bind_some, ih others distinct later, List.map_cons, List.reverse_cons,
        List.append_assoc, List.singleton_append]

theorem readDigits_toDigits (n : Nat) : readDigits (Nat.toDigits 10 n) = some n := by
  have digits : ∀ c ∈ Nat.toDigits 10 n, c.isDigit :=
    fun c member => Nat.isDigit_of_mem_toDigits (by decide) (by decide) member
  have valid : ((Nat.toDigits 10 n).isEmpty || !(Nat.toDigits 10 n).all Char.isDigit) = false := by
    simpa [Nat.toDigits_ne_nil] using digits
  rw [readDigits, if_neg (by rw [valid]; decide), Nat.ofDigitChars_ten_toDigits]

theorem readInteger_display (format : Format) (n : ℤ) :
    readInteger (format.display n).toList = some n := by
  rw [format.integer]
  cases n with
  | ofNat n =>
      have text : (toString (Int.ofNat n)).toList = Nat.toDigits 10 n := by
        show (Nat.repr n).toList = _
        rw [Nat.toList_repr]
      have unsigned : ∀ rest, Nat.toDigits 10 n ≠ '-' :: rest := by
        intro rest same
        have sign : '-' ∈ Nat.toDigits 10 n := by rw [same]; exact List.mem_cons_self
        exact absurd (Nat.isDigit_of_mem_toDigits (by decide) (by decide) sign) (by decide)
      rw [text, readInteger.eq_def]
      split
      · rename_i rest same
        exact absurd same (unsigned rest)
      · rw [readDigits_toDigits]
        rfl
  | negSucc n =>
      have text : (toString (Int.negSucc n)).toList = '-' :: Nat.toDigits 10 (n + 1) := by
        show ("-" ++ Nat.repr (n + 1)).toList = _
        rw [String.toList_append, Nat.toList_repr]
        rfl
      rw [text, readInteger, readDigits_toDigits]
      rfl

theorem splitOn_lines {lines : List (List Char)} (clean : ∀ line ∈ lines, '\n' ∉ line) :
    (lines.flatMap (· ++ ['\n'])).splitOn '\n' = lines ++ [[]] := by
  induction lines with
  | nil => rfl
  | cons line rest ih =>
      obtain ⟨first, others⟩ := List.forall_mem_cons.mp clean
      rw [List.flatMap_cons, List.append_assoc, List.singleton_append,
        List.splitOn_append_cons_self_of_not_mem first, ih others, List.cons_append]

end Scrape

/-! ## The families of the proxy -/

namespace Family

theorem legal_plain {name help : String} {kind : FamilyKind} {samples : List (Label × ℚ)}
    (legal : Scrape.legalName name.toList) (clean : '\n' ∉ help.toList) (other : kind ≠ .histogram)
    (directions : ∀ s ∈ samples, ∀ direction, s.1 = .dir direction → Unmarked direction.toList) :
    (plain name help kind samples).Legal := by
  refine ⟨legal, clean, ?_, ?_⟩
  · intro s member
    obtain ⟨⟨label, value⟩, here, rfl⟩ := List.mem_map.mp member
    exact ⟨legal, directions _ here⟩
  · intro s member
    obtain ⟨⟨label, value⟩, here, rfl⟩ := List.mem_map.mp member
    have text : some kind.text.toList ≠ some "histogram".toList := by
      cases kind with
      | histogram => exact absurd rfl other
      | counter | gauge => decide
    show Scrape.belongs ⟨name.toList, some kind.text.toList, []⟩ name.toList
    rw [Scrape.belongs, if_neg text, decide_eq_true rfl]

theorem legalName_append {name suffix : List Char} (legal : Scrape.legalName name)
    (rest : suffix.all fun c => c.isAlphanum || c = '_' || c = ':') : Scrape.legalName (name ++ suffix) := by
  cases name with
  | nil => cases legal
  | cons c name =>
      simp only [Scrape.legalName, List.cons_append, Bool.and_eq_true, List.all_append] at legal ⊢
      exact ⟨legal.1, legal.2, rest⟩

theorem legal_ofHistogram {name help : String} {h : Histogram} (legal : Scrape.legalName name.toList)
    (clean : '\n' ∉ help.toList) : (ofHistogram name help h).Legal := by
  have names : ∀ s ∈ h.render name, (∃ suffix ∈ ["_bucket", "_sum", "_count"], s.name = name ++ suffix) ∧
      ∀ direction, s.label ≠ .dir direction := by
    intro s member
    rw [Histogram.render, List.mem_append, ← List.map_uncurry_zip_eq_zipWith] at member
    cases member with
    | inl bucket =>
        obtain ⟨⟨bound, c⟩, _, rfl⟩ := List.mem_map.mp bucket
        exact ⟨⟨"_bucket", by decide, rfl⟩, fun direction label => by cases label⟩
    | inr total =>
        simp only [List.mem_cons, List.not_mem_nil, or_false] at total
        obtain rfl | rfl | rfl := total
        · exact ⟨⟨"_bucket", by decide, rfl⟩, fun direction label => by cases label⟩
        · exact ⟨⟨"_sum", by decide, rfl⟩, fun direction label => by cases label⟩
        · exact ⟨⟨"_count", by decide, rfl⟩, fun direction label => by cases label⟩
  have suffixes : ∀ suffix ∈ ["_bucket", "_sum", "_count"],
      suffix.toList.all fun c => c.isAlphanum || c = '_' || c = ':' := by decide
  refine ⟨legal, clean, ?_, ?_⟩
  · intro s member
    obtain ⟨⟨suffix, known, same⟩, other⟩ := names s member
    refine ⟨?_, fun direction label => absurd label (other direction)⟩
    rw [same, String.toList_append]
    exact legalName_append legal (suffixes suffix known)
  · intro s member
    obtain ⟨⟨suffix, known, same⟩, _⟩ := names s member
    show Scrape.belongs ⟨name.toList, some "histogram".toList, []⟩ s.name.toList
    rw [Scrape.belongs, if_pos rfl, decide_eq_true_eq, same, String.toList_append]
    exact List.mem_map_of_mem known

end Family

namespace AllMetrics

theorem families_legal (m : AllMetrics) (rss : Nat) : ∀ f ∈ m.families rss, f.Legal := by
  have bare (value : ℚ) : ∀ s ∈ [(Label.none, value)], ∀ direction, s.1 = .dir direction →
      Unmarked direction.toList := by
    intro s member direction label
    rw [List.mem_singleton.mp member] at label
    cases label
  have ways (down up : ℚ) : ∀ s ∈ [(Label.dir "downstream", down), (.dir "upstream", up)],
      ∀ direction, s.1 = .dir direction → Unmarked direction.toList := by
    simp only [List.forall_mem_cons, Label.dir.injEq, forall_eq']
    exact ⟨by decide, by decide, nofun⟩
  simp only [families, List.forall_mem_cons]
  refine ⟨?_, ?_, ?_, ?_, ?_, ?_, ?_, ?_, ?_, ?_, ?_, ?_, ?_, ?_, ?_, ?_, nofun⟩
  case refine_1 => exact Family.legal_plain (by decide) (by decide) nofun (ways _ _)
  case refine_2 => exact Family.legal_plain (by decide) (by decide) nofun (ways _ _)
  case refine_12 => exact Family.legal_ofHistogram (by decide) (by decide)
  case refine_13 => exact Family.legal_ofHistogram (by decide) (by decide)
  case refine_14 => exact Family.legal_ofHistogram (by decide) (by decide)
  all_goals exact Family.legal_plain (by decide) (by decide) nofun (bare _)

theorem scrape_exposition (format : Format) (m : AllMetrics) (rss : Nat) :
    scrape (m.exposition format rss) = some ((m.families rss).map (·.scraped format)) := by
  have legal := m.families_legal rss
  have text : (m.exposition format rss).toList =
      (((m.families rss).flatMap (·.lines format)).map (·.toList)).flatMap (· ++ ['\n']) := by
    rw [exposition, String.toList_join, List.flatMap_map, List.flatMap_map]
    simp
  have clean : ∀ line ∈ ((m.families rss).flatMap (·.lines format)).map (·.toList), '\n' ∉ line := by
    intro line member
    obtain ⟨spelt, here, rfl⟩ := List.mem_map.mp member
    obtain ⟨f, listed, own⟩ := List.mem_flatMap.mp here
    exact Scrape.newline_lines format (legal f listed) spelt own
  have distinct : ((m.families rss).map (·.name)).Nodup := by
    simp only [families, Family.plain, Family.ofHistogram, List.map_cons, List.map_nil]
    decide
  have unread : ∀ f ∈ m.families rss, f.name.toList ∉ ([] : List ScrapedFamily).map (·.name) :=
    fun _ _ => List.not_mem_nil
  have added := Scrape.addLines_families format legal distinct unread
  rw [scrape, text, Scrape.splitOn_lines clean, List.getLast?_concat, if_pos rfl, List.dropLast_concat,
    added, Option.map_some, List.append_nil, List.reverse_reverse]

/-- The text reads back as the samples, in their order, each in a family of its own name, and the
integers among them come back as numbers. -/
theorem exposition_round_trip (format : Format) (m : AllMetrics) (rss : Nat) :
    ∃ families, scrape (m.exposition format rss) = some families ∧ Scrape.WellFormed families ∧
      families.flatMap (·.samples) = (m.renderPrometheus rss).map (·.scraped format) ∧
      ∀ s ∈ m.renderPrometheus rss, ∀ n : ℤ, s.value = n →
        Scrape.readInteger (s.scraped format).value = some n := by
  refine ⟨_, m.scrape_exposition format rss, scrape_wellFormed (m.scrape_exposition format rss), ?_, ?_⟩
  · rw [← samples_families, List.flatMap_map, List.map_flatMap]
    rfl
  · intro s _ n value
    rw [Sample.scraped, value]
    exact Scrape.readInteger_display format n

end AllMetrics

/-! ## Decimal fractions -/

namespace Format

/-- The digits of `rest / den` after the point, at most `count` of them. -/
def fraction (den : Nat) : Nat → Nat → List Char
  | 0, _ | _, 0 => []
  | count + 1, rest => Nat.digitChar (10 * rest / den) :: fraction den count (10 * rest % den)

def displayDecimal (q : ℚ) : String :=
  if q.den = 1 then toString q.num
  else String.ofList ((toString ⌊|q|⌋).toList ++ '.' :: fraction q.den 17 (q.num.natAbs % q.den) |>
    fun digits => if q < 0 then '-' :: digits else digits)

theorem isDigit_fraction {den count rest : Nat} (smaller : rest < den) :
    ∀ c ∈ fraction den count rest, c.isDigit := by
  induction count generalizing rest with
  | zero => cases rest <;> nofun
  | succ count ih =>
      cases rest with
      | zero => nofun
      | succ rest =>
          have digit : 10 * (rest + 1) / den < 10 := Nat.div_lt_of_lt_mul (by omega)
          have first : (Nat.digitChar (10 * (rest + 1) / den)).isDigit := by
            rw [Nat.isDigit_digitChar, decide_eq_true digit]
          have others := @ih (10 * (rest + 1) % den) (Nat.mod_lt _ (by omega))
          show ∀ c ∈ Nat.digitChar (10 * (rest + 1) / den) :: fraction den count (10 * (rest + 1) % den), _
          exact List.forall_mem_cons.mpr ⟨first, others⟩

theorem plain_toString (n : ℤ) : ∀ c ∈ (toString n).toList, c.isDigit ∨ c = '-' ∨ c = '.' := by
  have digits (m : Nat) : ∀ c ∈ (Nat.repr m).toList, c.isDigit := by
    intro c member
    rw [Nat.toList_repr] at member
    exact Nat.isDigit_of_mem_toDigits (by decide) (by decide) member
  intro c member
  cases n with
  | ofNat n => exact .inl (digits n c member)
  | negSucc n =>
      have split : c ∈ ("-" ++ Nat.repr (n + 1)).toList := member
      rw [String.toList_append, List.mem_append] at split
      cases split with
      | inl sign => exact .inr (.inl (List.mem_singleton.mp sign))
      | inr digit => exact .inl (digits _ c digit)

/-- Exact where the fraction has at most 17 digits. -/
def decimal : Format where
  display := displayDecimal
  integer n := by simp [displayDecimal]
  plain q := by
    have smaller : q.num.natAbs % q.den < q.den := Nat.mod_lt _ q.den_pos
    have digits : ∀ c ∈ (toString ⌊|q|⌋).toList ++ '.' :: fraction q.den 17 (q.num.natAbs % q.den),
        c.isDigit ∨ c = '-' ∨ c = '.' := by
      intro c member
      rw [List.mem_append, List.mem_cons] at member
      obtain whole | rfl | digit := member
      · exact plain_toString _ c whole
      · exact .inr (.inr rfl)
      · exact .inl (isDigit_fraction smaller c digit)
    unfold displayDecimal
    split
    · exact plain_toString q.num
    · rw [String.toList_ofList]
      dsimp only
      split
      · exact List.forall_mem_cons.mpr ⟨.inr (.inl rfl), digits⟩
      · exact digits

end Format

example : Sample.line .decimal ⟨"acquire_bucket", .le (5 / 10000), 3⟩ =
    "acquire_bucket\x7ble=\"0.0005\"\x7d 3" := by decide +kernel

end KafkaProxy
