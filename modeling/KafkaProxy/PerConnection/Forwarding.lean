import KafkaProxy.PerConnection.Rewriting

/-!
# What one relay forwards

A record of the run keeps the frames that the client has sent, the requests that the relay has read
and each frame of the broker with the request that it answers. A client does not use a correlation
id again before the answer is written to it, and a broker answers each request at most once.
-/

namespace KafkaProxy.PerConnection
open Library Startup

/-- `requests` are those that get an answer, and an answer comes with its request's place in them.
The relay has read the answers in `taken` and has not read those in `arrived`. -/
structure Trace where
  sent : List Frame
  requests : List RequestHeader
  taken : List (Frame × Nat)
  arrived : List (Frame × Nat)
  deriving DecidableEq, Repr

def Arrival.frame? : Arrival → Option Frame
  | .frame data => some data
  | .error | .eof => none

def ForwarderAction.delivered : ForwarderAction → Option Frame
  | .arrive item => item.frame?
  | _ => none

def frames (read : List Arrival) : List Frame := read.filterMap Arrival.frame?

namespace Trace

def start : Trace := ⟨[], [], [], []⟩

def answers (t : Trace) : List (Frame × Nat) := t.taken ++ t.arrived

def target (t : Trace) (data : Frame) : Option Nat :=
  (List.range t.requests.length).find? fun i =>
    t.requests[i]?.map (·.correlationId) = parseResponseCid data ∧ i ∉ t.answers.map (·.2)

def arrive (t : Trace) : Option Frame → Trace
  | some data => { t with arrived := t.arrived ++ ((t.target data).map (data, ·)).toList }
  | none => t

def take (t : Trace) : Option Frame → Trace
  | some _ => { t with taken := t.taken ++ t.arrived.take 1, arrived := t.arrived.drop 1 }
  | none => t

def note (silent : Frame → Bool) (r : Relay) : RelayAction → Trace → Trace
  | .tick, t => t
  | .down action, t =>
      { t with
        sent := t.sent ++ action.delivered.toList
        requests := t.requests ++ (requestOf silent r (.down action)).toList }
  | .up action, t => (t.arrive action.delivered).take (r.upToDown.incoming action)

def Open (t : Trace) (i : Nat) : Prop := i ∉ t.taken.map (·.2)

def Shows (codecs : Codecs) (map : RewriteMap) (requests : List RequestHeader) (out : Frame)
    (answer : Frame × Nat) : Prop :=
  out = answer.1 ∨ ∃ header, requests[answer.2]? = some header ∧
    needsRewrite header.apiKey = true ∧
    rewriteResponse codecs header.apiKey header.apiVersion answer.1 map = some out

end Trace

/-- A request has another correlation id than each request whose answer is not written yet, and a
frame of the broker answers a request that has no answer. -/
def Orderly (silent : Frame → Bool) (s : Relay × Trace) : RelayAction → Prop
  | .tick => True
  | .down action => ∀ header ∈ requestOf silent s.1 (.down action), ∀ i < s.2.requests.length,
      i ∉ (s.2.taken.take s.1.upToDown.written.length).map (·.2) →
      s.2.requests[i]?.map (·.correlationId) ≠ some header.correlationId
  | .up action => ∀ data ∈ action.delivered, s.2.target data ≠ none

instance (silent : Frame → Bool) (s : Relay × Trace) (action : RelayAction) :
    Decidable (Orderly silent s action) :=
  match action with
  | .tick => inferInstanceAs (Decidable True)
  | .down action => inferInstanceAs (Decidable (∀ header ∈ requestOf silent s.1 (.down action), _))
  | .up action => inferInstanceAs (Decidable (∀ data ∈ action.delivered, _))

def Relay.traced (silent : Frame → Bool) (idle : Option Nat) (codecs : Codecs) (map : RewriteMap) :
    System (Relay × Trace) RelayAction :=
  (Relay.system idle codecs map).watch .start (Trace.note silent)

/-! ## What is read -/

@[simp] theorem frames_frame (data : Frame) (rest : List Arrival) :
    frames (.frame data :: rest) = data :: frames rest := rfl

@[simp] theorem frames_error (rest : List Arrival) : frames (.error :: rest) = frames rest := rfl

@[simp] theorem frames_eof (rest : List Arrival) : frames (.eof :: rest) = frames rest := rfl

theorem frames_concat (read : List Arrival) (item : Arrival) :
    frames (read ++ [item]) = frames read ++ item.frame?.toList := by
  rw [frames, List.filterMap_append]
  cases item <;> rfl

theorem Forwarder.Change.frames {idle : Option Nat} {now : Nat}
    {handle : Frame → Pending → Frame × Pending} {f g : Forwarder} {before after : Pending}
    {action : ForwarderAction} (change : Change idle now handle f before action g after) :
    frames f.read ++ action.delivered.toList = (f.incoming action).toList ++ frames g.read := by
  cases change with
  | arrive item => exact (frames_concat f.read item).symm
  | frame waits queue => simp [ForwarderAction.delivered, incoming, queue]
  | error waits queue => simp [ForwarderAction.delivered, incoming, queue, stop]
  | eof waits queue => simp [ForwarderAction.delivered, incoming, queue, stop]
  | _ => simp [ForwarderAction.delivered, incoming, stop, turn]

theorem record_fst (data : Frame) (pending : Pending) : (record data pending).1 = data := by
  unfold record
  split
  · split <;> rfl
  · rfl

theorem restore_cases (codecs : Codecs) (map : RewriteMap) {data : Frame} {cid : Int32}
    (parsed : parseResponseCid data = some cid) (pending : Pending) :
    (∀ other, (restore codecs map data pending).2.lookup other =
      if other = cid then none else pending.lookup other) ∧
    ((restore codecs map data pending).1 = data ∨ ∃ key version out,
      pending.lookup cid = some (key, version) ∧
      rewriteResponse codecs key version data map = some out ∧
      (restore codecs map data pending).1 = out) := by
  simp only [restore, parsed]
  cases found : pending.lookup cid with
  | none =>
      constructor
      · intro other
        by_cases same : other = cid
        · rw [if_pos same, same]
          exact found
        · rw [if_neg same]
      · exact .inl rfl
  | some entry =>
      obtain ⟨key, version⟩ := entry
      constructor
      · intro other
        by_cases same : other = cid
        · rw [if_pos same, same]
          exact AList.lookup_erase _ _
        · rw [if_neg same]
          exact AList.lookup_erase_ne same
      · cases rewritten : rewriteResponse codecs key version data map with
        | none => exact .inl (by simp only [rewritten, Option.getD_none])
        | some out =>
            exact .inr ⟨key, version, out, rfl, rewritten, by simp only [rewritten, Option.getD_some]⟩

theorem record_lookup {data : Frame} {pending : Pending} {cid : Int32} {key version : Int16}
    (found : (record data pending).2.lookup cid = some (key, version)) :
    pending.lookup cid = some (key, version) ∨
      parseRequestHeader data = some ⟨key, version, cid⟩ ∧ needsRewrite key = true := by
  cases parsed : parseRequestHeader data with
  | none =>
      rw [record_none parsed] at found
      exact .inl found
  | some header =>
      rw [record_some parsed] at found
      split at found
      · rename_i kept
        rw [Bool.and_eq_true] at kept
        by_cases same : cid = header.correlationId
        · rw [same, AList.lookup_insert] at found
          cases found
          exact .inr ⟨by rw [same], kept.1⟩
        · rw [AList.lookup_insert_ne same] at found
          exact .inl found
      · exact .inl found

theorem getElem?_append_toList {α : Type} {l : List α} {o : Option α} {i : Nat} {a : α} :
    (l ++ o.toList)[i]? = some a ↔ l[i]? = some a ∨ i = l.length ∧ o = some a := by
  by_cases early : i < l.length
  · simp [List.getElem?_append_left early, early.ne]
  · have missing : l[i]? = none := List.getElem?_eq_none (Nat.le_of_not_lt early)
    rw [List.getElem?_append_right (Nat.le_of_not_lt early), missing]
    cases o with
    | none => simp
    | some b =>
        simp only [Option.toList_some, List.getElem?_singleton]
        split <;> grind

theorem delivered_or_incoming (f : Forwarder) (action : ForwarderAction) :
    action.delivered = none ∨ f.incoming action = none := by
  cases action with
  | next => exact .inl rfl
  | _ => exact .inr rfl

namespace Relay

variable {silent : Frame → Bool} {idle : Option Nat} {codecs : Codecs} {map : RewriteMap}

structure Follows (codecs : Codecs) (map : RewriteMap) (s : Relay × Trace) : Prop where
  down : ∃ outs, s.1.downToUp.Writes outs ∧ outs ++ frames s.1.downToUp.read = s.2.sent
  queue : frames s.1.upToDown.read = s.2.arrived.map (·.1)
  up : ∃ outs, s.1.upToDown.Writes outs ∧
    List.Forall₂ (Trace.Shows codecs map s.2.requests) outs s.2.taken
  answers : ∀ answer ∈ s.2.answers, ∃ header, s.2.requests[answer.2]? = some header ∧
    parseResponseCid answer.1 = some header.correlationId
  once : (s.2.answers.map (·.2)).Nodup
  apart : ∀ i j header other, s.2.Open i → s.2.Open j → s.2.requests[i]? = some header →
    s.2.requests[j]? = some other → header.correlationId = other.correlationId → i = j
  entries : ∀ cid key version, s.1.pending.lookup cid = some (key, version) →
    ∃ i, s.2.Open i ∧ s.2.requests[i]? = some ⟨key, version, cid⟩ ∧ needsRewrite key = true

theorem requestOf_eq_some {r : Relay} {action : ForwarderAction} {data : Frame}
    {header : RequestHeader} (incoming : r.downToUp.incoming action = some data)
    (parsed : parseRequestHeader data = some header) (kept : needsRewrite header.apiKey = true) :
    requestOf silent r (.down action) = some header := by
  simp [requestOf, incoming, parsed, kept]

theorem Follows.down_step {r : Relay} {t : Trace} {action : ForwarderAction} {downToUp : Forwarder}
    {pending : Pending} {last : Nat} (follows : Follows codecs map (r, t))
    (orderly : Orderly silent (r, t) (.down action))
    (change : Forwarder.Change idle r.now record r.downToUp r.pending action downToUp pending) :
    Follows codecs map ({ r with downToUp, pending, last }, t.note silent r (.down action)) := by
  obtain ⟨⟨outs, writes, sent⟩, queue, ⟨shown, wrote, fits⟩, answers, once, apart, entries⟩ := follows
  simp only at writes sent queue wrote fits answers once apart entries
  have grown {i : Nat} {header : RequestHeader} (known : t.requests[i]? = some header) :
      (t.note silent r (.down action)).requests[i]? = some header :=
    getElem?_append_toList.mpr (.inl known)
  refine ⟨⟨_, change.writes writes, ?_⟩, queue, ⟨shown, wrote, ?_⟩, ?_, once, ?_, ?_⟩
  · simp only [record_fst, List.map_id']
    rw [List.append_assoc, ← change.frames, ← List.append_assoc, sent]
    rfl
  · apply fits.imp
    rintro out answer (same | ⟨header, known, rest⟩)
    · exact .inl same
    · exact .inr ⟨header, grown known, rest⟩
  · intro answer member
    obtain ⟨header, known, echoes⟩ := answers answer member
    exact ⟨header, grown known, echoes⟩
  · -- Only a new request could share its id with an older one, and the client does not let it.
    have fresh {i : Nat} {header other : RequestHeader} (waits : t.Open i)
        (known : t.requests[i]? = some header)
        (asks : requestOf silent r (.down action) = some other) :
        header.correlationId ≠ other.correlationId := by
      intro same
      refine orderly other asks i (List.getElem?_eq_some_iff.mp known).1 ?_ (by simp [known, same])
      intro early
      exact waits (List.map_subset _ (List.take_subset ..) early)
    intro i j header other iOpen jOpen iKnown jKnown same
    obtain iOld | ⟨iLast, iAsks⟩ := getElem?_append_toList.mp iKnown
    · obtain jOld | ⟨_, jAsks⟩ := getElem?_append_toList.mp jKnown
      · exact apart i j header other iOpen jOpen iOld jOld same
      · exact absurd same (fresh iOpen iOld jAsks)
    · obtain jOld | ⟨jLast, _⟩ := getElem?_append_toList.mp jKnown
      · exact absurd same.symm (fresh jOpen jOld iAsks)
      · rw [iLast, jLast]
  · intro cid key version found
    simp only [change.pending] at found
    have old (before : r.pending.lookup cid = some (key, version)) :
        ∃ i, t.Open i ∧ (t.note silent r (.down action)).requests[i]? = some ⟨key, version, cid⟩ ∧
          needsRewrite key = true := by
      obtain ⟨i, waits, known, kept⟩ := entries cid key version before
      exact ⟨i, waits, grown known, kept⟩
    cases read : r.downToUp.incoming action with
    | none =>
        rw [read] at found
        exact old found
    | some data =>
        rw [read] at found
        obtain before | ⟨parsed, kept⟩ := record_lookup found
        · exact old before
        · refine ⟨t.requests.length, ?_, getElem?_append_toList.mpr
            (.inr ⟨rfl, requestOf_eq_some read parsed kept⟩), kept⟩
          intro early
          obtain ⟨answer, member, place⟩ := List.mem_map.mp early
          obtain ⟨header, known, _⟩ := answers answer (List.mem_append_left _ member)
          rw [place] at known
          exact absurd (List.getElem?_eq_some_iff.mp known).1 (lt_irrefl _)

theorem target_eq_some {t : Trace} {data : Frame} {i : Nat} (found : t.target data = some i) :
    (∃ header, t.requests[i]? = some header ∧
      parseResponseCid data = some header.correlationId) ∧ i ∉ t.answers.map (·.2) := by
  have holds := List.find?_some found
  rw [decide_eq_true_iff] at holds
  obtain ⟨same, unanswered⟩ := holds
  have inside := List.mem_range.mp (List.mem_of_find?_eq_some found)
  refine ⟨⟨t.requests[i], List.getElem?_eq_getElem inside, ?_⟩, unanswered⟩
  rw [← same, List.getElem?_eq_getElem inside]
  rfl

theorem Follows.arrive {r : Relay} {t : Trace} {action : ForwarderAction} {upToDown : Forwarder}
    {pending : Pending} {data : Frame} (follows : Follows codecs map (r, t))
    (orderly : Orderly silent (r, t) (.up action)) (delivered : action.delivered = some data)
    (change : Forwarder.Change none r.now (restore codecs map) r.upToDown r.pending action upToDown
      pending) :
    Follows codecs map ({ r with upToDown, pending }, t.note silent r (.up action)) := by
  obtain ⟨down, queue, ⟨shown, wrote, fits⟩, answers, once, apart, entries⟩ := follows
  have quiet : r.upToDown.incoming action = none := by
    obtain none | quiet := delivered_or_incoming r.upToDown action
    · cases none.symm.trans delivered
    · exact quiet
  obtain ⟨i, found⟩ := Option.ne_none_iff_exists'.mp (orderly data delivered)
  obtain ⟨known, unanswered⟩ := target_eq_some found
  have noted : t.note silent r (.up action) = { t with arrived := t.arrived ++ [(data, i)] } := by
    simp only [Trace.note, delivered, quiet, Trace.arrive, Trace.take]
    simp only at found
    simp [found]
  have stored := change.pending
  have written := change.writes wrote
  have read := change.frames
  rw [quiet, Option.elim_none] at stored
  rw [quiet, Option.toList_none, List.map_nil, List.append_nil] at written
  rw [quiet, delivered, Option.toList_none, List.nil_append, Option.toList_some] at read
  rw [noted]
  refine ⟨down, ?_, ⟨shown, written, fits⟩, ?_, ?_, apart, stored ▸ entries⟩
  · simp only at queue
    simp [← read, queue]
  · intro answer member
    simp only [Trace.answers, ← List.append_assoc, List.mem_append, List.mem_singleton] at member
    obtain old | rfl := member
    · exact answers answer (List.mem_append.mpr old)
    · exact known
  · simp only [Trace.answers, ← List.append_assoc, List.map_append, List.map_singleton] at *
    rw [← List.concat_eq_append]
    exact once.concat unanswered

theorem Follows.read {r : Relay} {t : Trace} {action : ForwarderAction} {upToDown : Forwarder}
    {pending : Pending} {data : Frame} (follows : Follows codecs map (r, t))
    (incoming : r.upToDown.incoming action = some data)
    (change : Forwarder.Change none r.now (restore codecs map) r.upToDown r.pending action upToDown
      pending) :
    Follows codecs map ({ r with upToDown, pending }, t.note silent r (.up action)) := by
  obtain ⟨down, queue, ⟨shown, wrote, fits⟩, answers, once, apart, entries⟩ := follows
  have quiet : action.delivered = none := by
    obtain quiet | none := delivered_or_incoming r.upToDown action
    · exact quiet
    · cases none.symm.trans incoming
  have stored := change.pending
  have written := change.writes wrote
  have read := change.frames
  rw [incoming, Option.elim_some] at stored
  rw [incoming, Option.toList_some, List.map_singleton] at written
  rw [incoming, quiet, Option.toList_none, List.append_nil, Option.toList_some,
    List.singleton_append] at read
  simp only at queue fits answers once apart entries
  rw [read] at queue
  obtain ⟨⟨item, i⟩, rest, arrived, own, remains⟩ := List.map_eq_cons_iff.mp queue.symm
  obtain rfl : data = item := own.symm
  have noted : t.note silent r (.up action) =
      { t with taken := t.taken ++ [(data, i)], arrived := rest } := by
    simp [Trace.note, quiet, incoming, Trace.arrive, Trace.take, arrived]
  have together : t.answers = t.taken ++ (data, i) :: rest := by rw [Trace.answers, arrived]
  obtain ⟨header, known, echoes⟩ := answers (data, i) (by simp [together])
  obtain ⟨remaining, result⟩ := restore_cases codecs map echoes r.pending
  have opened : t.Open i := by
    rw [together, List.map_append, List.nodup_append] at once
    intro early
    exact once.2.2 i early i (by simp) rfl
  rw [noted]
  refine ⟨down, remains.symm, ⟨_, written, ?_⟩, ?_, ?_, ?_, ?_⟩
  · apply List.rel_append fits
    apply List.Forall₂.cons _ .nil
    obtain same | ⟨key, version, out, found, rewritten, same⟩ := result
    · exact .inl same
    · -- The entry is that of the request which is answered: no other open one has its id.
      obtain ⟨j, waits, listed, kept⟩ := entries _ key version found
      cases apart j i _ header waits opened listed known rfl
      exact .inr ⟨_, listed, kept, same ▸ rewritten⟩
  · intro answer member
    refine answers answer ?_
    rw [together]
    simpa [Trace.answers] using member
  · rw [together] at once
    simpa [Trace.answers] using once
  · have fewer {j : Nat} (waits : j ∉ (t.taken ++ [(data, i)]).map (·.2)) : t.Open j := by
      intro early
      exact waits (by simp [List.mem_map.mp early])
    intro j k one other jOpen kOpen
    exact apart j k one other (fewer jOpen) (fewer kOpen)
  · intro cid key version found
    simp only [stored, remaining] at found
    split at found
    · cases found
    · rename_i other
      obtain ⟨j, waits, listed, kept⟩ := entries cid key version found
      refine ⟨j, ?_, listed, kept⟩
      have different : j ≠ i := by
        intro same
        rw [same] at listed
        cases listed.symm.trans known
        exact other rfl
      simp only [Trace.Open, List.map_append, List.mem_append, not_or, List.map_singleton,
        List.mem_singleton]
      exact ⟨waits, different⟩

theorem Follows.up_step {r : Relay} {t : Trace} {action : ForwarderAction} {upToDown : Forwarder}
    {pending : Pending} (follows : Follows codecs map (r, t))
    (orderly : Orderly silent (r, t) (.up action))
    (change : Forwarder.Change none r.now (restore codecs map) r.upToDown r.pending action upToDown
      pending) :
    Follows codecs map ({ r with upToDown, pending }, t.note silent r (.up action)) := by
  cases delivered : action.delivered with
  | some data => exact follows.arrive orderly delivered change
  | none =>
      cases incoming : r.upToDown.incoming action with
      | some data => exact follows.read incoming change
      | none =>
          obtain ⟨down, queue, ⟨shown, wrote, fits⟩, answers, once, apart, entries⟩ := follows
          have noted : t.note silent r (.up action) = t := by
            simp [Trace.note, delivered, incoming, Trace.arrive, Trace.take]
          have stored := change.pending
          have written := change.writes wrote
          have read := change.frames
          rw [incoming, Option.elim_none] at stored
          rw [incoming, Option.toList_none, List.map_nil, List.append_nil] at written
          rw [incoming, delivered, Option.toList_none, List.nil_append, List.append_nil] at read
          rw [noted]
          exact ⟨down, read ▸ queue, ⟨shown, written, fits⟩, answers, once, apart, stored ▸ entries⟩

theorem Follows.step {s t : Relay × Trace} {action : RelayAction} (follows : Follows codecs map s)
    (orderly : Orderly silent s action)
    (taken : (traced silent idle codecs map).step s action = some t) : Follows codecs map t := by
  obtain ⟨r, trace⟩ := s
  obtain ⟨next, after⟩ := t
  obtain ⟨stepped, noted⟩ := System.watch_step.mp taken
  simp only at stepped noted
  subst noted
  cases action with
  | tick =>
      simp only [system, Relay.step] at stepped
      split at stepped <;> cases stepped
      exact { follows with }
  | down action =>
      obtain ⟨⟨downToUp, pending⟩, called, rfl⟩ := Option.map_eq_some_iff.mp stepped
      exact follows.down_step orderly (.of_step called)
  | up action =>
      obtain ⟨⟨upToDown, pending⟩, called, rfl⟩ := Option.map_eq_some_iff.mp stepped
      exact follows.up_step orderly (.of_step called)

theorem follows_of_reach {s : Relay × Trace}
    (reach : (traced silent idle codecs map).Reach (Orderly silent) s) : Follows codecs map s := by
  induction reach with
  | initial first =>
      obtain ⟨started, empty⟩ := first
      rw [System.initial, system] at started
      have whole : _ = (start idle, Trace.start) := Prod.ext started empty
      rw [whole]
      refine ⟨⟨[], ⟨[], rfl, .inl rfl⟩, rfl⟩, rfl, ⟨[], ⟨[], rfl, .inl rfl⟩, .nil⟩, ?_, .nil, ?_, ?_⟩
      · intro answer member
        cases member
      · intro i j header other _ _ first
        cases first
      · intro cid key version found
        cases found
  | next _ orderly taken ih => exact ih.step orderly taken

theorem Writes.starts {f : Forwarder} {outs : List Frame} (writes : f.Writes outs) :
    f.written <+: outs := by
  obtain ⟨hand, same, _⟩ := writes
  exact ⟨hand, same.symm⟩

/-- The broker gets the frames of the client and the client those of the broker, but for the
rewritten answers of requests that ask for it, and an entry waits for the answer to its request. -/
theorem forwarded {s : Relay × Trace}
    (reach : (traced silent idle codecs map).Reach (Orderly silent) s) :
    s.1.downToUp.written <+: s.2.sent ∧
    (∀ (k : Nat) (out : Frame), s.1.upToDown.written[k]? = some out →
      ∃ (data : Frame) (i : Nat) (header : RequestHeader),
        s.2.answers[k]? = some (data, i) ∧ s.2.requests[i]? = some header ∧
        parseResponseCid data = some header.correlationId ∧
        (out = data ∨ needsRewrite header.apiKey = true ∧
          rewriteResponse codecs header.apiKey header.apiVersion data map = some out)) ∧
    ∀ cid ∈ s.1.pending, ∃ (i : Nat) (header : RequestHeader), s.2.requests[i]? = some header ∧
      header.correlationId = cid ∧ needsRewrite header.apiKey = true ∧ s.2.Open i := by
  obtain ⟨⟨outs, writes, sent⟩, _, ⟨shown, wrote, fits⟩, answers, _, _, entries⟩ :=
    follows_of_reach reach
  refine ⟨?_, ?_, ?_⟩
  · rw [← sent]
    exact (Writes.starts writes).trans (List.prefix_append ..)
  · intro k out written
    obtain ⟨inside, here⟩ := List.getElem?_eq_some_iff.mp written
    obtain ⟨hand, same, _⟩ := wrote
    have early : k < shown.length := by
      rw [same, List.length_append]
      omega
    have matched : k < s.2.taken.length := fits.length_eq ▸ early
    have shows := fits.get early matched
    have own : shown[k] = out := by
      simp only [same, List.getElem_append_left inside, here]
    rw [List.get_eq_getElem, own] at shows
    have listed : s.2.answers[k]? = some s.2.taken[k] := by
      rw [Trace.answers, List.getElem?_append_left matched, List.getElem?_eq_getElem matched]
    obtain ⟨header, known, echoes⟩ := answers _ (List.mem_of_getElem? listed)
    refine ⟨_, _, header, listed, known, echoes, ?_⟩
    obtain plain | ⟨other, also, kept, rewritten⟩ := shows
    · exact .inl plain
    · cases also.symm.trans known
      exact .inr ⟨kept, rewritten⟩
  · intro cid member
    obtain ⟨⟨key, version⟩, found⟩ := Option.isSome_iff_exists.mp (AList.lookup_isSome.mpr member)
    obtain ⟨i, waits, known, kept⟩ := entries cid key version found
    exact ⟨i, _, known, rfl, kept, waits⟩

theorem forwarded_one : ∃ s : Relay × Trace, s.1.upToDown.written = [bothShown] ∧
    s.1.downToUp.written <+: s.2.sent ∧
    ∃ (data : Frame) (i : Nat) (header : RequestHeader),
      s.2.answers[0]? = some (data, i) ∧ s.2.requests[i]? = some header ∧
      parseResponseCid data = some header.correlationId ∧
      (bothShown = data ∨ needsRewrite header.apiKey = true ∧
        rewriteResponse (metadataCodecs bothKnown) header.apiKey header.apiVersion data
          oneServerMap = some bothShown) := by
  obtain ⟨s, reach, written⟩ := (traced (fun _ => false) none (metadataCodecs bothKnown)
    oneServerMap).exists_reach (Orderly fun _ => false) (.start none, .start)
    [.down (.arrive (.frame (metadataRequest 7))), .down .next, .down .sent,
      .up (.arrive (.frame bothListed)), .up .next, .up .sent]
    (fun s => s.1.upToDown.written = [bothShown]) ⟨rfl, rfl⟩ (by decide +kernel)
  obtain ⟨broker, client, _⟩ := forwarded reach
  exact ⟨s, written, broker, client 0 bothShown (by rw [written]; rfl)⟩

end Relay
end KafkaProxy.PerConnection
