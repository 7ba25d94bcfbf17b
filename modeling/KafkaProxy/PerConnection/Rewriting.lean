import KafkaProxy.Library.Watch
import KafkaProxy.PerConnection.Basic
import KafkaProxy.Startup.Advertised

/-!
# Which responses of a client are rewritten

A record of the run keeps the requests that were read and not yet answered, and each response that
was read with the request it answers. Requests for which `silent` holds get no response.
-/

namespace KafkaProxy.PerConnection
open Library Startup

structure Asked where
  header : RequestHeader
  remembered : Bool
  deriving DecidableEq, Repr

def Asked.cid (asked : Asked) : Int32 := asked.header.correlationId

def Asked.entry (asked : Asked) : Option (Int16 × Int16) :=
  if needsRewrite asked.header.apiKey && asked.remembered then
    some (asked.header.apiKey, asked.header.apiVersion)
  else none

structure Log where
  outstanding : List Asked
  answered : List (Frame × Option Asked)
  deriving DecidableEq, Repr

namespace Log

def start : Log := ⟨[], []⟩

def request (log : Log) (cid : Int32) : Option Asked := log.outstanding.find? (·.cid = cid)

def ask (log : Log) (header : RequestHeader) (remembered : Bool) : Log :=
  { log with outstanding := log.outstanding ++ [⟨header, remembered⟩] }

def answer (log : Log) (data : Frame) : Log :=
  match parseResponseCid data with
  | some cid =>
      { outstanding := log.outstanding.filter (·.cid ≠ cid)
        answered := log.answered ++ [(data, log.request cid)] }
  | none => { log with answered := log.answered ++ [(data, none)] }

def shown (codecs : Codecs) (map : RewriteMap) : Frame × Option Asked → Frame
  | (data, some asked) =>
      if asked.remembered then
        (rewriteResponse codecs asked.header.apiKey asked.header.apiVersion data map).getD data
      else data
  | (data, none) => data

theorem request_ask {log : Log} {header : RequestHeader} {remembered : Bool}
    (fresh : ∀ asked ∈ log.outstanding, asked.cid ≠ header.correlationId) (cid : Int32) :
    (log.ask header remembered).request cid =
      if cid = header.correlationId then some ⟨header, remembered⟩ else log.request cid := by
  rw [request, ask, List.find?_append]
  split
  · rename_i same
    have missing : log.outstanding.find? (·.cid = cid) = none := by
      apply List.find?_eq_none.mpr
      intro asked member
      simpa [same] using fresh asked member
    rw [missing]
    simp [Asked.cid, same]
  · rename_i other
    simp [request, Asked.cid, Ne.symm other]

theorem request_filter (log : Log) (cid other : Int32) :
    (log.outstanding.filter (·.cid ≠ cid)).find? (·.cid = other) =
      if other = cid then none else log.request other := by
  rw [List.find?_filter]
  split
  · rename_i same
    simp [same]
  · rename_i apart
    rw [request]
    congr 1
    funext asked
    by_cases hit : asked.cid = other
    · simp [hit, apart]
    · simp [hit]

def Tracks (log : Log) (pending : Pending) : Prop :=
  ∀ cid, pending.lookup cid = (log.request cid).bind Asked.entry

theorem Tracks.ask {log : Log} {pending : Pending} {header : RequestHeader}
    (tracks : log.Tracks pending)
    (fresh : ∀ asked ∈ log.outstanding, asked.cid ≠ header.correlationId) :
    (log.ask header (pending.size < maxPending)).Tracks
      (if needsRewrite header.apiKey && pending.size < maxPending then
        pending.insert header.correlationId (header.apiKey, header.apiVersion) else pending) := by
  intro cid
  have known := tracks cid
  rw [request_ask fresh]
  by_cases same : cid = header.correlationId
  · subst same
    have missing : log.request header.correlationId = none := by
      apply List.find?_eq_none.mpr
      simpa using fresh
    rw [missing] at known
    rw [if_pos rfl, Option.bind_some, Asked.entry]
    split
    · rw [AList.lookup_insert]
    · exact known
  · rw [if_neg same]
    split
    · rw [AList.lookup_insert_ne same, known]
    · exact known

theorem Tracks.answer {codecs : Codecs} {map : RewriteMap} {log : Log} {pending : Pending}
    (tracks : log.Tracks pending) (data : Frame) :
    (log.answer data).Tracks (restore codecs map data pending).2 := by
  unfold Log.answer restore
  cases parseResponseCid data with
  | none => exact tracks
  | some cid =>
      have known := tracks cid
      intro other
      simp only [request, request_filter]
      cases found : pending.lookup cid with
      | none =>
          simp only
          split
          · rename_i same
            rw [same, found, Option.bind_none]
          · exact tracks other
      | some entry =>
          simp only
          split
          · rename_i same
            rw [same, AList.lookup_erase, Option.bind_none]
          · rename_i apart
            rw [AList.lookup_erase_ne apart, tracks other, request]

theorem Tracks.shown {codecs : Codecs} {map : RewriteMap} {log : Log} {pending : Pending}
    (tracks : log.Tracks pending) (data : Frame) :
    (log.answer data).answered.map (Log.shown codecs map) =
      log.answered.map (Log.shown codecs map) ++ [(restore codecs map data pending).1] := by
  unfold Log.answer restore
  cases parseResponseCid data with
  | none => simp [Log.shown]
  | some cid =>
      have known := tracks cid
      cases found : log.request cid with
      | none =>
          rw [found, Option.bind_none] at known
          simp [known, found, Log.shown]
      | some asked =>
          rw [found, Option.bind_some, Asked.entry] at known
          split at known
          · rename_i kept
            simp only [Bool.and_eq_true] at kept
            simp [known, found, Log.shown, kept]
          · rename_i plain
            simp only [Bool.and_eq_true, not_and, Bool.not_eq_true] at plain
            cases rewritable : needsRewrite asked.header.apiKey with
            | true => simp [known, found, Log.shown, plain rewritable]
            | false =>
                simp [known, found, Log.shown, rewriteResponse_of_not_needsRewrite rewritable]

end Log

/-! ## What is written -/

namespace Forwarder

def incoming (f : Forwarder) : ForwarderAction → Option Frame
  | .next =>
      match f.read with
      | .frame data :: _ => some data
      | _ => none
  | _ => none

def inHand (f : Forwarder) : List Frame :=
  match f.phase with
  | .sending data => [data]
  | .select _ | .flushing | .returned _ => []

/-- The frames `outs` are written in this order, but for one in hand and one whose write failed. -/
def Writes (f : Forwarder) (outs : List Frame) : Prop :=
  ∃ hand, outs = f.written ++ hand ∧ (hand = f.inHand ∨ f.phase = .returned .writeFailed)

variable {idle : Option Nat} {now : Nat} {handle : Frame → Pending → Frame × Pending}
  {f g : Forwarder} {before after : Pending} {action : ForwarderAction}

theorem Change.pending (change : Change idle now handle f before action g after) :
    after = ((f.incoming action).elim before fun data => (handle data before).2) := by
  cases change with
  | frame waits queue => simp [incoming, queue]
  | error waits queue => simp [incoming, queue]
  | eof waits queue => simp [incoming, queue]
  | _ => rfl

theorem step_frame {timeoutAt : Option Nat} {data : Frame} {rest : List Arrival}
    (waits : f.phase = .select timeoutAt) (queue : f.read = .frame data :: rest) :
    f.step idle now handle before .next =
      some ({ f with read := rest, phase := .sending (handle data before).1 },
        (handle data before).2) := by
  simp only [step, waits, queue]

theorem Writes.of_waiting {timeoutAt : Option Nat} {outs : List Frame} (writes : f.Writes outs)
    (waits : f.phase = .select timeoutAt) : outs = f.written := by
  obtain ⟨hand, same, own | failed⟩ := writes
  · simpa [own, inHand, waits] using same
  · cases waits.symm.trans failed

theorem Change.writes {outs : List Frame} (writes : f.Writes outs)
    (change : Change idle now handle f before action g after) :
    g.Writes (outs ++ (f.incoming action).toList.map fun data => (handle data before).1) := by
  cases change with
  | arrive item => simpa [incoming, Writes, inHand] using writes
  | @frame timeoutAt data rest waits queue =>
      refine ⟨[(handle data before).1], ?_, .inl rfl⟩
      simp [incoming, queue, writes.of_waiting waits]
  | error waits queue =>
      exact ⟨[], by simp [incoming, queue, writes.of_waiting waits, stop], .inl rfl⟩
  | eof waits queue =>
      exact ⟨[], by simp [incoming, queue, writes.of_waiting waits, stop], .inl rfl⟩
  | elapsed waits empty late =>
      exact ⟨[], by simp [incoming, writes.of_waiting waits, stop], .inl rfl⟩
  | idleTick waits due clean =>
      exact ⟨[], by simp [incoming, writes.of_waiting waits, turn], .inl rfl⟩
  | flushTick waits due dirty =>
      exact ⟨[], by simp [incoming, writes.of_waiting waits], .inl rfl⟩
  | flushed flushes =>
      obtain ⟨hand, same, own | failed⟩ := writes
      · exact ⟨[], by simp [incoming, same, own, inHand, flushes, turn], .inl rfl⟩
      · cases flushes.symm.trans failed
  | flushFailed flushes =>
      obtain ⟨hand, same, _⟩ := writes
      exact ⟨hand, by simp [incoming, same, stop], .inr rfl⟩
  | @sent data sends =>
      obtain ⟨hand, same, own | failed⟩ := writes
      · exact ⟨[], by simp [incoming, same, own, inHand, sends, turn], .inl rfl⟩
      · cases sends.symm.trans failed
  | sendFailed sends =>
      obtain ⟨hand, same, _⟩ := writes
      exact ⟨hand, by simp [incoming, same, stop], .inr rfl⟩

end Forwarder

theorem record_none {data : Frame} {pending : Pending} (parsed : parseRequestHeader data = none) :
    record data pending = (data, pending) := by
  rw [record, parsed]

theorem record_some {data : Frame} {pending : Pending} {header : RequestHeader}
    (parsed : parseRequestHeader data = some header) :
    (record data pending).2 = if needsRewrite header.apiKey && pending.size < maxPending then
      pending.insert header.correlationId (header.apiKey, header.apiVersion) else pending := by
  rw [record, parsed]
  exact apply_ite Prod.snd _ _ _

section
variable (silent : Frame → Bool)

def requestOf (r : Relay) : RelayAction → Option RequestHeader
  | .down action =>
      (r.downToUp.incoming action).bind fun data =>
        (parseRequestHeader data).filter fun header => needsRewrite header.apiKey || !silent data
  | _ => none

def responseOf (r : Relay) : RelayAction → Option Frame
  | .up action => r.upToDown.incoming action
  | _ => none

def Log.note (r : Relay) (action : RelayAction) (log : Log) : Log :=
  match requestOf silent r action, responseOf r action with
  | some header, _ => log.ask header (r.pending.size < maxPending)
  | none, some data => log.answer data
  | none, none => log

/-- The next request has another correlation id than each request that awaits its response. -/
def Distinct (s : Relay × Log) (action : RelayAction) : Prop :=
  ∀ header ∈ requestOf silent s.1 action, ∀ asked ∈ s.2.outstanding,
    asked.cid ≠ header.correlationId

instance (s : Relay × Log) (action : RelayAction) : Decidable (Distinct silent s action) :=
  inferInstanceAs (Decidable (∀ header ∈ requestOf silent s.1 action, _))

def Relay.watched (idle : Option Nat) (codecs : Codecs) (map : RewriteMap) :
    System (Relay × Log) RelayAction :=
  (Relay.system idle codecs map).watch .start (Log.note silent)

end

namespace Relay

variable {silent : Frame → Bool} {idle : Option Nat} {codecs : Codecs} {map : RewriteMap}

structure Faithful (codecs : Codecs) (map : RewriteMap) (s : Relay × Log) : Prop where
  tracks : s.2.Tracks s.1.pending
  writes : s.1.upToDown.Writes (s.2.answered.map (Log.shown codecs map))

theorem Faithful.down {r : Relay} {log : Log} {action : ForwarderAction} {downToUp : Forwarder}
    {pending : Pending} (faithful : Faithful codecs map (r, log))
    (distinct : Distinct silent (r, log) (.down action))
    (change : Forwarder.Change idle r.now record r.downToUp r.pending action downToUp pending) :
    (log.note silent r (.down action)).Tracks pending ∧
      (log.note silent r (.down action)).answered = log.answered := by
  have stored := change.pending
  unfold Distinct at distinct
  unfold Log.note
  simp only [requestOf, responseOf] at distinct ⊢
  cases taken : r.downToUp.incoming action with
  | none =>
      rw [taken] at stored
      simpa [stored] using faithful.tracks
  | some data =>
      rw [taken, Option.elim_some] at stored
      rw [taken, Option.bind_some] at distinct
      rw [Option.bind_some]
      cases parsed : parseRequestHeader data with
      | none =>
          rw [record_none parsed] at stored
          simpa [stored] using faithful.tracks
      | some header =>
          rw [record_some parsed] at stored
          rw [parsed, Option.filter_some] at distinct
          rw [Option.filter_some]
          by_cases asks : needsRewrite header.apiKey || !silent data
          · rw [if_pos asks] at distinct ⊢
            exact ⟨stored ▸ faithful.tracks.ask (distinct header rfl), rfl⟩
          · rw [if_neg asks]
            simp only [Bool.or_eq_true, not_or, Bool.not_eq_true] at asks
            rw [asks.1, Bool.false_and, if_neg Bool.false_ne_true] at stored
            exact ⟨stored ▸ faithful.tracks, rfl⟩

theorem Faithful.up {r : Relay} {log : Log} {action : ForwarderAction} {upToDown : Forwarder}
    {pending : Pending} (faithful : Faithful codecs map (r, log))
    (change : Forwarder.Change none r.now (restore codecs map) r.upToDown r.pending action upToDown
      pending) :
    Faithful codecs map ({ r with upToDown, pending }, log.note silent r (.up action)) := by
  have stored := change.pending
  have written := change.writes faithful.writes
  unfold Log.note
  simp only [requestOf, responseOf]
  cases taken : r.upToDown.incoming action with
  | none =>
      rw [taken, Option.elim_none] at stored
      rw [taken, Option.toList_none, List.map_nil, List.append_nil] at written
      exact ⟨stored ▸ faithful.tracks, written⟩
  | some data =>
      rw [taken, Option.elim_some] at stored
      rw [taken, Option.toList_some, List.map_singleton] at written
      refine ⟨stored ▸ faithful.tracks.answer data, ?_⟩
      rw [faithful.tracks.shown data]
      exact written

theorem Faithful.step {s t : Relay × Log} {action : RelayAction} (faithful : Faithful codecs map s)
    (distinct : Distinct silent s action)
    (taken : (watched silent idle codecs map).step s action = some t) : Faithful codecs map t := by
  obtain ⟨r, log⟩ := s
  obtain ⟨next, after⟩ := t
  obtain ⟨stepped, noted⟩ := System.watch_step.mp taken
  simp only at stepped noted
  subst noted
  cases action with
  | tick =>
      simp only [system, Relay.step] at stepped
      split at stepped <;> cases stepped
      exact ⟨faithful.tracks, faithful.writes⟩
  | down action =>
      obtain ⟨⟨downToUp, pending⟩, called, rfl⟩ := Option.map_eq_some_iff.mp stepped
      obtain ⟨tracks, answered⟩ := faithful.down distinct (.of_step called)
      refine ⟨tracks, ?_⟩
      simp only [answered]
      exact faithful.writes
  | up action =>
      obtain ⟨⟨upToDown, pending⟩, called, rfl⟩ := Option.map_eq_some_iff.mp stepped
      exact faithful.up (.of_step called)

theorem faithful_of_reach {s : Relay × Log}
    (reach : (watched silent idle codecs map).Reach (Distinct silent) s) :
    Faithful codecs map s := by
  induction reach with
  | initial first =>
      obtain ⟨started, empty⟩ := first
      rw [System.initial, system] at started
      exact ⟨fun cid => by rw [started, empty]; rfl, [], by rw [started, empty]; rfl,
        .inl (by rw [started]; rfl)⟩
  | next _ distinct taken ih => exact ih.step distinct taken

/-- A response is written in its turn, as the rewritten frame if its request was remembered. -/
theorem responses_rewritten {s : Relay × Log} {j : Nat} {data out : Frame} {asked : Asked}
    (reach : (watched silent idle codecs map).Reach (Distinct silent) s)
    (answers : s.2.answered[j]? = some (data, some asked))
    (rewritten : rewriteResponse codecs asked.header.apiKey asked.header.apiVersion data map =
      some out) :
    let frame := if asked.remembered then out else data
    s.1.upToDown.written[j]? = some frame ∨
      s.1.upToDown.phase = .sending frame ∧ j = s.1.upToDown.written.length ∨
      s.1.upToDown.phase = .returned .writeFailed ∧ s.1.upToDown.written.length ≤ j := by
  intro frame
  obtain ⟨hand, same, own⟩ := (faithful_of_reach reach).writes
  have shown : (s.2.answered.map (Log.shown codecs map))[j]? = some frame := by
    simp [answers, Log.shown, rewritten, frame]
  rw [same] at shown
  by_cases done : j < s.1.upToDown.written.length
  · rw [List.getElem?_append_left done] at shown
    exact .inl shown
  · have later := Nat.le_of_not_lt done
    rw [List.getElem?_append_right later] at shown
    obtain rfl | failed := own
    · right; left
      unfold Forwarder.inHand at shown
      cases phase : s.1.upToDown.phase with
      | sending held =>
          rw [phase] at shown
          obtain ⟨place, here⟩ := List.getElem?_eq_some_iff.mp shown
          simp only [List.length_singleton, Nat.lt_one_iff] at place
          simp only [place, List.getElem_cons_zero] at here
          exact ⟨by rw [here], by omega⟩
      | select timeoutAt => simp [phase] at shown
      | flushing => simp [phase] at shown
      | returned why => simp [phase] at shown
    · exact .inr (.inr ⟨failed, later⟩)

def metadataRequest (cid : Int32) : Frame := [0, 3, 0, 0] ++ putI32 cid

theorem parse_metadataRequest (cid : Int32) :
    parseRequestHeader (metadataRequest cid) = some ⟨apiKeyMetadata, 0, cid⟩ := by
  have long : ¬ (metadataRequest cid).length < 8 := by simp [metadataRequest]
  have key (rest : Frame) : getI16 (0 :: 3 :: rest) = apiKeyMetadata := by
    simp only [getI16, List.take_succ_cons, List.take_zero]
    decide
  have version (rest : Frame) : getI16 (0 :: 0 :: rest) = 0 := by
    simp only [getI16, List.take_succ_cons, List.take_zero]
    decide
  have last : getI32 (putI32 cid) = cid := by simpa using getI32_putI32_append cid []
  rw [parseRequestHeader, if_neg long]
  simp [metadataRequest, key, version, last]

def bothShown : Frame :=
  putI32 7 ++ metadataBody [⟨1, "proxy", 19092, none⟩, ⟨2, "b2", 9092, none⟩]

theorem rewrite_bothListed : rewriteResponse (metadataCodecs bothKnown) apiKeyMetadata 0 bothListed
    oneServerMap = some bothShown := by
  decide +kernel

theorem responses_rewritten_one : ∃ s : Relay × Log,
    s.2.answered[0]? = some (bothListed, some ⟨⟨apiKeyMetadata, 0, 7⟩, true⟩) ∧
    (s.1.upToDown.written[0]? = some bothShown ∨
      s.1.upToDown.phase = .sending bothShown ∧ 0 = s.1.upToDown.written.length ∨
      s.1.upToDown.phase = .returned .writeFailed ∧ s.1.upToDown.written.length ≤ 0) := by
  obtain ⟨s, reach, answers⟩ := (watched (fun _ => false) none (metadataCodecs bothKnown)
    oneServerMap).exists_reach (Distinct fun _ => false) (.start none, .start)
    [.down (.arrive (.frame (metadataRequest 7))), .down .next, .down .sent,
      .up (.arrive (.frame bothListed)), .up .next]
    (fun s => s.2.answered[0]? = some (bothListed, some ⟨⟨apiKeyMetadata, 0, 7⟩, true⟩)) ⟨rfl, rfl⟩
    (by decide +kernel)
  exact ⟨s, answers, responses_rewritten reach answers rewrite_bothListed⟩

/-! ## More requests than the map keeps -/

structure Filled (n : Nat) (s : Relay × Log) : Prop where
  size : s.1.pending.size = min n maxPending
  waits : s.1.downToUp.phase = .select none
  empty : s.1.downToUp.read = []
  quiet : s.1.upToDown = .start none 0
  answered : s.2.answered = []

theorem reach_down {r : Relay} {log : Log} (action : ForwarderAction) {downToUp : Forwarder}
    {pending : Pending} (reach : (watched silent idle codecs map).Reach (Distinct silent) (r, log))
    (distinct : Distinct silent (r, log) (.down action))
    (stepped : r.downToUp.step idle r.now record r.pending action = some (downToUp, pending)) :
    ∃ t, (watched silent idle codecs map).Reach (Distinct silent)
        (t, log.note silent r (.down action)) ∧
      t.downToUp = downToUp ∧ t.pending = pending ∧ t.upToDown = r.upToDown := by
  cases taken : r.downToUpStep idle action with
  | none => simp [downToUpStep, stepped] at taken
  | some t =>
      refine ⟨t, .next reach distinct (System.watch_step.mpr ⟨taken, rfl⟩), ?_⟩
      simp only [downToUpStep, stepped, Option.map_some, Option.some.injEq] at taken
      simp [← taken]

theorem reach_up {r : Relay} {log : Log} (action : ForwarderAction) {upToDown : Forwarder}
    {pending : Pending} (reach : (watched silent idle codecs map).Reach (Distinct silent) (r, log))
    (stepped : r.upToDown.step none r.now (restore codecs map) r.pending action =
      some (upToDown, pending)) :
    (watched silent idle codecs map).Reach (Distinct silent)
      ({ r with upToDown, pending }, log.note silent r (.up action)) := by
  refine .next reach (a := .up action) nofun (System.watch_step.mpr ⟨?_, rfl⟩)
  exact Option.map_eq_some_iff.mpr ⟨(upToDown, pending), stepped, rfl⟩

theorem Filled.next {n : Nat} {s : Relay × Log} (filled : Filled n s) (cid : Int32)
    (reach : (watched silent none codecs map).Reach (Distinct silent) s)
    (fresh : ∀ asked ∈ s.2.outstanding, asked.cid ≠ cid) :
    ∃ t, (watched silent none codecs map).Reach (Distinct silent) t ∧ Filled (n + 1) t ∧
      t.2 = s.2.ask ⟨apiKeyMetadata, 0, cid⟩ (n < maxPending) := by
  obtain ⟨r, log⟩ := s
  obtain ⟨size, waits, empty, quiet, answered⟩ := filled
  have tracks := (faithful_of_reach reach).tracks
  simp only at size waits empty quiet answered fresh tracks
  have absent : cid ∉ r.pending := by
    have missing : log.request cid = none := by
      apply List.find?_eq_none.mpr
      simpa using fresh
    apply AList.lookup_eq_none.mp
    rw [tracks cid, missing, Option.bind_none]
  have unasked (r : Relay) (frame : Frame) :
      Distinct silent (r, log) (.down (.arrive (.frame frame))) := by
    intro header asked
    cases asked
  obtain ⟨q, arrived, own, same, still⟩ :=
    reach_down (.arrive (.frame (metadataRequest cid))) reach (unasked r _) rfl
  have asks : requestOf silent q (.down .next) = some ⟨apiKeyMetadata, 0, cid⟩ := by
    simp [requestOf, Forwarder.incoming, own, empty, parse_metadataRequest, needsRewrite]
  have distinct : Distinct silent (q, log) (.down .next) := by
    intro header asked
    rw [asks] at asked
    exact Option.mem_some.mp asked ▸ fresh
  obtain ⟨p, recorded, sends, stored, quietly⟩ := reach_down .next arrived distinct
    (Forwarder.step_frame (by rw [own, waits]) (by rw [own, empty]; rfl))
  obtain ⟨t, sent, turned, kept, silently⟩ := reach_down .sent recorded
    (by intro header asked; cases asked) (by rw [sends]; rfl)
  have noted : log.note silent q (.down .next) =
      log.ask ⟨apiKeyMetadata, 0, cid⟩ (n < maxPending) := by
    have small : q.pending.size < maxPending ↔ n < maxPending := by
      rw [same, size]
      omega
    simp only [Log.note, asks, small]
  have grown : t.pending.size = min (n + 1) maxPending := by
    rw [kept, stored, record_some (parse_metadataRequest cid), same]
    split
    · rename_i room
      simp only [Bool.and_eq_true, decide_eq_true_eq] at room
      rw [Table.size_insert_of_notMem _ absent]
      omega
    · rename_i full
      simp only [needsRewrite, apiKeyMetadata, decide_true, Bool.true_or, Bool.true_and,
        decide_eq_true_eq] at full
      omega
  refine ⟨_, sent, ⟨grown, ?_, ?_, ?_, ?_⟩, noted⟩
  · rw [turned]
    rfl
  · rw [turned]
    rfl
  · rw [silently, quietly, still, quiet]
  · change (log.note silent q (.down .next)).answered = []
    rw [noted]
    exact answered

theorem filled_reachable (n : Nat) (few : n ≤ maxPending) :
    ∃ s, (watched silent none codecs map).Reach (Distinct silent) s ∧ Filled n s ∧
      ∀ asked ∈ s.2.outstanding, ∃ m < n, asked.cid = Int32.ofNat (m + 8) := by
  induction n with
  | zero =>
      exact ⟨(.start none, .start), .initial ⟨rfl, rfl⟩, ⟨rfl, rfl, rfl, rfl, rfl⟩, nofun⟩
  | succ n ih =>
      obtain ⟨s, reach, filled, cids⟩ := ih (Nat.le_of_succ_le few)
      have fresh : ∀ asked ∈ s.2.outstanding, asked.cid ≠ Int32.ofNat (n + 8) := by
        intro asked member same
        obtain ⟨m, before, own⟩ := cids asked member
        have values := congrArg Int32.toInt (own.symm.trans same)
        unfold maxPending at few
        simp only [Int32.toInt_ofNat', Int32.size, Int.bmod_def] at values
        omega
      obtain ⟨t, reach, filled, noted⟩ := filled.next _ reach fresh
      refine ⟨t, reach, filled, ?_⟩
      rw [noted]
      intro asked member
      obtain old | new := List.mem_append.mp member
      · obtain ⟨m, before, own⟩ := cids asked old
        exact ⟨m, Nat.lt_succ_of_lt before, own⟩
      · rw [List.mem_singleton.mp new]
        exact ⟨n, Nat.lt_succ_self n, rfl⟩

theorem forgotten_reachable :
    ∃ s, (watched silent none codecs map).Reach (Distinct silent) s ∧
      s.2.answered = [(bothListed, some ⟨⟨apiKeyMetadata, 0, 7⟩, false⟩)] ∧
      s.1.upToDown.written = [] ∧ s.1.upToDown.phase = .sending bothListed := by
  obtain ⟨s, reach, filled, cids⟩ := @filled_reachable silent codecs map maxPending (Nat.le_refl _)
  have fresh : ∀ asked ∈ s.2.outstanding, asked.cid ≠ 7 := by
    intro asked member same
    obtain ⟨m, before, own⟩ := cids asked member
    have values := congrArg Int32.toInt (own.symm.trans same)
    unfold maxPending at before
    simp only [Int32.toInt_ofNat', Int32.size, Int.bmod_def, Int32.reduceToInt] at values
    omega
  obtain ⟨⟨r, log⟩, reach, filled, noted⟩ := filled.next 7 reach fresh
  have known : log.request 7 = some ⟨⟨apiKeyMetadata, 0, 7⟩, false⟩ := by
    simp only at noted
    rw [noted, Log.request_ask fresh]
    simp
  have arrived := reach_up (.arrive (.frame bothListed)) reach rfl
  have taken := reach_up .next arrived (Forwarder.step_frame (by rw [filled.quiet]; rfl)
    (by rw [filled.quiet]; rfl))
  have answered : (log.answer bothListed).answered =
      [(bothListed, some ⟨⟨apiKeyMetadata, 0, 7⟩, false⟩)] := by
    have parsed : parseResponseCid bothListed = some 7 := by decide +kernel
    have empty : log.answered = [] := filled.answered
    simp [Log.answer, parsed, empty, known]
  have shown := @Log.Tracks.shown codecs map _ _ (faithful_of_reach reach).tracks bothListed
  rw [answered, filled.answered] at shown
  simp only [List.map_nil, List.nil_append, List.map_singleton, List.cons.injEq, and_true] at shown
  refine ⟨_, taken, ?_, ?_, ?_⟩
  · have queue : r.upToDown.read ++ [.frame bothListed] = [.frame bothListed] := by
      rw [filled.quiet]
      rfl
    simp only [Log.note, requestOf, responseOf, Forwarder.incoming, queue]
    exact answered
  · rw [filled.quiet]
    rfl
  · exact congrArg Phase.sending shown.symm

theorem responses_forgotten : ¬ ∀ s j data out asked,
    (watched (fun _ => false) none (metadataCodecs bothKnown) oneServerMap).Reach
      (Distinct fun _ => false) s →
    s.2.answered[j]? = some (data, some asked) →
    rewriteResponse (metadataCodecs bothKnown) asked.header.apiKey asked.header.apiVersion data
      oneServerMap = some out →
    s.1.upToDown.written[j]? = some out ∨
      s.1.upToDown.phase = .sending out ∧ j = s.1.upToDown.written.length ∨
      s.1.upToDown.phase = .returned .writeFailed ∧ s.1.upToDown.written.length ≤ j := by
  intro claim
  obtain ⟨s, reach, answered, written, held⟩ := @forgotten_reachable (fun _ => false)
    (metadataCodecs bothKnown) oneServerMap
  have there : s.2.answered[0]? = some (bothListed, some ⟨⟨apiKeyMetadata, 0, 7⟩, false⟩) := by
    rw [answered]
    rfl
  obtain done | ⟨sends, _⟩ | ⟨failed, _⟩ :=
    claim s 0 bothListed bothShown _ reach there rewrite_bothListed
  · rw [written] at done
    cases done
  · have unchanged := Phase.sending.inj (sends.symm.trans held)
    exact absurd unchanged (by decide +kernel)
  · cases failed.symm.trans held

end Relay
end KafkaProxy.PerConnection
