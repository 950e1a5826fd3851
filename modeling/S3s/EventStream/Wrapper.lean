import S3s.EventStream.Message
import S3s.Library.Polling

/-! # The event stream

Events become messages, messages become chunks, and a wrapper hands the chunks out one
by one, however often its source has nothing yet.
-/
namespace S3s.EventStream

open Polling

/-- `Progress` and `Stats` -/
structure Details where
  bytesProcessed : Option Int
  bytesReturned : Option Int
  bytesScanned : Option Int

/-- `SelectObjectContentEvent` -/
inductive SelectObjectContentEvent where
  | cont
  | «end»
  | progress (details : Option Details)
  | records (payload : Option Bytes)
  | stats (details : Option Details)

/-- `S3ErrorCode`: one of the known codes, by its text, or one of the caller's own. -/
inductive S3ErrorCode where
  | known (text : Bytes)
  | custom (text : Bytes)

/-- `S3Error` -/
structure S3Error where
  code : S3ErrorCode
  message : Option Bytes

/-- `xml_payload`, at the two types it is used at: the XML documents of the details. -/
structure XmlPayload where
  progress : Details → Bytes
  stats : Details → Bytes

def eventType : Bytes := ascii ":event-type"
def messageType : Bytes := ascii ":message-type"
def contentType : Bytes := ascii ":content-type"

/-- `into_message` -/
def SelectObjectContentEvent.intoMessage (xml : XmlPayload) : SelectObjectContentEvent → Message
  | cont => ⟨[⟨eventType, ascii "Cont"⟩, ⟨messageType, ascii "event"⟩], none⟩
  | «end» => ⟨[⟨eventType, ascii "End"⟩, ⟨messageType, ascii "event"⟩], none⟩
  | progress details =>
    ⟨[⟨eventType, ascii "Progress"⟩, ⟨contentType, ascii "text/xml"⟩, ⟨messageType, ascii "event"⟩],
      details.map xml.progress⟩
  | records payload =>
    ⟨[⟨eventType, ascii "Records"⟩, ⟨contentType, ascii "application/octet-stream"⟩,
      ⟨messageType, ascii "event"⟩], payload⟩
  | stats details =>
    ⟨[⟨eventType, ascii "Stats"⟩, ⟨contentType, ascii "text/xml"⟩, ⟨messageType, ascii "event"⟩],
      details.map xml.stats⟩

/-- `request_level_error` -/
def requestLevelError (e : S3Error) : Message :=
  let code := match e.code with
    | .known text => text
    | .custom text => text
  ⟨[⟨ascii ":error-code", code⟩, ⟨ascii ":error-message", e.message.getD []⟩,
    ⟨messageType, ascii "error"⟩], none⟩

/-- An item of the source. -/
abbrev SourceItem := Except S3Error SelectObjectContentEvent

/-- The message of an item. -/
def messageOf (xml : XmlPayload) : SourceItem → Message
  | .ok event => event.intoMessage xml
  | .error err => requestLevelError err

/-- `event_into_chunks` -/
def eventIntoChunks (crc : Crc32) (xml : XmlPayload) (ev : SourceItem) :
    Except SerError (List Bytes) := (messageOf xml ev).serializeChunks crc

/-- The chunks that are still to be handed out. -/
structure Pending where
  chunks : List Bytes
  idx : Nat
  idx_le : idx ≤ chunks.length

namespace Pending

def clear : Pending := ⟨[], 0, le_rfl⟩

/-- The chunks of a message. -/
def ofChunks (chunks : List Bytes) : Pending := ⟨chunks, 0, Nat.zero_le _⟩

/-- `next_pending` -/
def next (p : Pending) : Option Bytes × Pending :=
  if h : p.idx = p.chunks.length then (none, clear)
  else
    let bytes := p.chunks.get ⟨p.idx, Nat.lt_of_le_of_ne p.idx_le h⟩
    if p.idx + 1 = p.chunks.length then (some bytes, clear)
    else
      (some bytes, ⟨p.chunks.set p.idx [], p.idx + 1, by
        rw [List.length_set]
        exact Nat.lt_of_le_of_ne p.idx_le h⟩)

/-- What will be handed out. -/
def rest (p : Pending) : List Bytes := p.chunks.drop p.idx

@[simp] theorem rest_clear : clear.rest = [] := rfl

@[simp] theorem rest_ofChunks (chunks : List Bytes) : (ofChunks chunks).rest = chunks := rfl

theorem next_of_rest_nil {p : Pending} (h : p.rest = []) : p.next = (none, clear) := by
  have hidx : p.idx = p.chunks.length := le_antisymm p.idx_le (List.drop_eq_nil_iff.mp h)
  rw [next, dif_pos hidx]

theorem next_of_rest_cons {p : Pending} {bytes : Bytes} {chunks : List Bytes}
    (h : p.rest = bytes :: chunks) : ∃ p', p.next = (some bytes, p') ∧ p'.rest = chunks := by
  have hlt : p.idx < p.chunks.length := by
    have hlength := congrArg List.length h
    rw [rest, List.length_drop, List.length_cons] at hlength
    omega
  have hget : p.chunks.get ⟨p.idx, hlt⟩ = bytes ∧ p.chunks.drop (p.idx + 1) = chunks := by
    rw [rest, List.drop_eq_getElem_cons hlt] at h
    exact List.cons.inj h
  rw [next, dif_neg (Nat.ne_of_lt hlt), hget.1]
  by_cases hlast : p.idx + 1 = p.chunks.length
  · rw [if_pos hlast]
    refine ⟨clear, rfl, ?_⟩
    rw [← hget.2, hlast, List.drop_length]
    rfl
  · rw [if_neg hlast]
    refine ⟨_, rfl, ?_⟩
    rw [rest, ← hget.2, List.drop_set_of_lt (Nat.lt_succ_self _)]

end Pending

/-- `Wrapper`. The source is the list of what it will answer, poll by poll, until it ends. -/
structure Wrapper where
  inner : List (Poll SourceItem)
  pending : Pending

namespace Wrapper

variable (crc : Crc32) (xml : XmlPayload)

/-- The loop of `poll_next`: a chunk that is pending, or what the next item of the source becomes. -/
def pollLoop : List (Poll SourceItem) → Pending → Item Bytes SerError × Wrapper
  | [], p =>
    match p.next with
    | (some bytes, p) => (.ready (some (.ok bytes)), ⟨[], p⟩)
    | (none, p) => (.ready none, ⟨[], p⟩)
  | item :: inner, p =>
    match p.next with
    | (some bytes, p) => (.ready (some (.ok bytes)), ⟨item :: inner, p⟩)
    | (none, p) =>
      match item with
      | .pending => (.pending, ⟨inner, p⟩)
      | .ready ev =>
        match eventIntoChunks crc xml ev with
        | .ok chunks => pollLoop inner (.ofChunks chunks)
        | .error err => (.ready (some (.error err)), ⟨inner, p⟩)

/-- `poll_next` -/
def pollNext (w : Wrapper) : Item Bytes SerError × Wrapper := pollLoop crc xml w.inner w.pending

/-- `into_byte_stream` -/
def intoByteStream (source : List (Poll SourceItem)) : Wrapper := ⟨source, .clear⟩

/-- What the stream has to hand out for an item. -/
def itemsOf (ev : SourceItem) : List (Except SerError Bytes) :=
  match eventIntoChunks crc xml ev with
  | .ok chunks => chunks.map .ok
  | .error err => [.error err]

/-- The items of a source, without the polls it had nothing for. -/
def events (source : List (Poll SourceItem)) : List SourceItem :=
  source.filterMap fun
    | .pending => none
    | .ready ev => some ev

/-- What a stream has to hand out for a source. -/
def sourceItems (source : List (Poll SourceItem)) : List (Except SerError Bytes) :=
  (events source).flatMap (itemsOf crc xml)

/-- What the stream still has to hand out. -/
def remaining (w : Wrapper) : List (Except SerError Bytes) :=
  w.pending.rest.map .ok ++ sourceItems crc xml w.inner

/-- How often the source will have nothing yet. -/
def waits (source : List (Poll SourceItem)) : Nat :=
  (source.filter fun
    | .pending => true
    | .ready _ => false).length

/-- What a poll says of what is left. -/
def Answers (w : Wrapper) (r : Item Bytes SerError × Wrapper) : Prop :=
  match r.1 with
  | .pending => w.remaining crc xml = r.2.remaining crc xml ∧ waits w.inner = waits r.2.inner + 1
  | .ready none => w.remaining crc xml = [] ∧ r.2.remaining crc xml = [] ∧ waits r.2.inner = 0
  | .ready (some item) =>
    w.remaining crc xml = item :: r.2.remaining crc xml ∧ waits w.inner = waits r.2.inner

theorem answers_chunk {inner : List (Poll SourceItem)} {p : Pending} {bytes : Bytes}
    {chunks : List Bytes} (h : p.rest = bytes :: chunks) :
    Answers crc xml ⟨inner, p⟩ (.ready (some (.ok bytes)), ⟨inner, p.next.2⟩) := by
  obtain ⟨p', hnext, hrest⟩ := Pending.next_of_rest_cons h
  rw [hnext]
  exact ⟨by simp [remaining, h, hrest], rfl⟩

theorem pollLoop_of_rest_cons {inner : List (Poll SourceItem)} {p : Pending} {bytes : Bytes}
    {chunks : List Bytes} (h : p.rest = bytes :: chunks) :
    pollLoop crc xml inner p = (.ready (some (.ok bytes)), ⟨inner, p.next.2⟩) := by
  obtain ⟨p', hnext, -⟩ := Pending.next_of_rest_cons h
  cases inner <;> simp [pollLoop, hnext]

/-- One poll: it hands out the next of what is left, or says truly that there is nothing, or has
used up one of the waits. -/
theorem pollNext_answers (w : Wrapper) : Answers crc xml w (w.pollNext crc xml) := by
  obtain ⟨inner, p⟩ := w
  change Answers crc xml ⟨inner, p⟩ (pollLoop crc xml inner p)
  induction inner generalizing p with
  | nil =>
    cases hrest : p.rest with
    | nil =>
      rw [pollLoop, Pending.next_of_rest_nil hrest]
      exact ⟨by simp [remaining, hrest, sourceItems, events], rfl, rfl⟩
    | cons bytes chunks =>
      rw [pollLoop_of_rest_cons crc xml hrest]
      exact answers_chunk crc xml hrest
  | cons item inner ih =>
    cases hrest : p.rest with
    | nil =>
      rw [pollLoop, Pending.next_of_rest_nil hrest]
      cases item with
      | pending => exact ⟨by simp [remaining, hrest, sourceItems, events], rfl⟩
      | ready ev =>
        have hwaits : waits (.ready ev :: inner) = waits inner := rfl
        cases hchunks : eventIntoChunks crc xml ev with
        | ok chunks =>
          have hremaining : remaining crc xml ⟨.ready ev :: inner, p⟩ =
              remaining crc xml ⟨inner, .ofChunks chunks⟩ := by
            simp [remaining, hrest, sourceItems, events, itemsOf, hchunks]
          have hloop := ih (.ofChunks chunks)
          simp only [Answers, hremaining, hwaits, hchunks] at hloop ⊢
          exact hloop
        | error err =>
          simp only [hchunks]
          exact ⟨by simp [remaining, hrest, sourceItems, events, itemsOf, hchunks], rfl⟩
    | cons bytes chunks =>
      rw [pollLoop_of_rest_cons crc xml hrest]
      exact answers_chunk crc xml hrest

/-- The results of a number of polls. -/
def results (n : Nat) (w : Wrapper) : List (Item Bytes SerError) :=
  run (fun (_ : Unit) => pollNext crc xml) (List.replicate n ()) w

/-- What was handed out in a number of polls. -/
def yielded (n : Nat) (w : Wrapper) : List (Except SerError Bytes) :=
  (results crc xml n w).filterMap fun
    | .ready (some item) => some item
    | _ => none

/-- A run: what was handed out is the first part of what there was, all of it once the stream has
said that it is at its end. -/
theorem yielded_append (n : Nat) (w : Wrapper) :
    ∃ rest, w.remaining crc xml = yielded crc xml n w ++ rest ∧
      (.ready none ∈ results crc xml n w → rest = []) := by
  induction n generalizing w with
  | zero => exact ⟨w.remaining crc xml, by simp [yielded, results, run], by simp [results, run]⟩
  | succ n ih =>
    have hpoll := pollNext_answers crc xml w
    obtain ⟨rest, hrest, hnone⟩ := ih (w.pollNext crc xml).2
    have hresults : results crc xml (n + 1) w =
        (w.pollNext crc xml).1 :: results crc xml n (w.pollNext crc xml).2 := rfl
    simp only [yielded, hresults] at hrest ⊢
    rw [Answers] at hpoll
    cases hitem : (w.pollNext crc xml).1 with
    | pending =>
      rw [hitem] at hpoll
      exact ⟨rest, by simpa using hpoll.1.trans hrest, by simpa using hnone⟩
    | ready item =>
      cases item with
      | none =>
        rw [hitem] at hpoll
        rw [hpoll.2.1] at hrest
        have hempty := List.append_eq_nil_iff.mp hrest.symm
        exact ⟨[], by simpa [hpoll.1] using hempty.1, fun _ => rfl⟩
      | some item =>
        rw [hitem] at hpoll
        exact ⟨rest, by simpa [hrest] using hpoll.1, by simpa using hnone⟩

/-- A run that is long enough comes to the end. -/
theorem ready_none_mem_results (n : Nat) (w : Wrapper)
    (h : (w.remaining crc xml).length + waits w.inner < n) :
    .ready none ∈ results crc xml n w := by
  induction n generalizing w with
  | zero => omega
  | succ n ih =>
    have hpoll := pollNext_answers crc xml w
    have hresults : results crc xml (n + 1) w =
        (w.pollNext crc xml).1 :: results crc xml n (w.pollNext crc xml).2 := rfl
    rw [hresults, List.mem_cons]
    rw [Answers] at hpoll
    cases hitem : (w.pollNext crc xml).1 with
    | pending =>
      rw [hitem] at hpoll
      refine .inr (ih _ ?_)
      rw [← hpoll.1]
      omega
    | ready item =>
      cases item with
      | none => exact .inl rfl
      | some item =>
        rw [hitem] at hpoll
        refine .inr (ih _ ?_)
        rw [hpoll.1, List.length_cons] at h
        omega

/-- The chunks of an item, or the error in their place. -/
theorem itemsOf_of_fits {ev : SourceItem} (h : (messageOf xml ev).Fits) :
    ∃ chunks : List Bytes, itemsOf crc xml ev = chunks.map .ok ∧
      chunks.flatten = (messageOf xml ev).bytes crc := by
  obtain ⟨chunks, hchunks, hflatten⟩ := Message.serializeChunks_of_fits crc h
  refine ⟨chunks, ?_, hflatten⟩
  rw [itemsOf, eventIntoChunks, hchunks]

theorem itemsOf_of_not_fits {ev : SourceItem} (h : ¬(messageOf xml ev).Fits) :
    ∃ err, itemsOf crc xml ev = [.error err] := by
  obtain ⟨err, herr⟩ := Message.serializeChunks_of_not_fits crc h
  refine ⟨err, ?_⟩
  rw [itemsOf, eventIntoChunks, herr]

/-- The bytes among what was handed out. -/
def bytesOf (items : List (Except SerError Bytes)) : Bytes := items.flatMap fun
  | .ok bytes => bytes
  | .error _ => []

/-- The bytes are those of the messages within the limits, one behind the other. -/
theorem bytesOf_itemsOf (evs : List SourceItem) :
    bytesOf (evs.flatMap (itemsOf crc xml)) =
      ((evs.map (messageOf xml)).filter fun m => m.Fits).flatMap (Message.bytes crc) := by
  induction evs with
  | nil => rfl
  | cons ev evs ih =>
    have hsplit : bytesOf ((ev :: evs).flatMap (itemsOf crc xml)) =
        bytesOf (itemsOf crc xml ev) ++ bytesOf (evs.flatMap (itemsOf crc xml)) := by
      simp [bytesOf]
    rw [hsplit, ih]
    by_cases h : (messageOf xml ev).Fits
    · obtain ⟨chunks, hchunks, hflatten⟩ := itemsOf_of_fits crc xml h
      have hbytes : bytesOf (itemsOf crc xml ev) = (messageOf xml ev).bytes crc := by
        rw [hchunks, ← hflatten, bytesOf, List.flatMap_map, List.flatMap_id']
      simp [hbytes, h]
    · obtain ⟨err, herr⟩ := itemsOf_of_not_fits crc xml h
      simp [herr, h, bytesOf]

/-- The stream of a source: what is handed out poll by poll is the chunks of the messages, in
order; read as frames it is the messages within the limits, and each of the others has an error
in its place. -/
theorem event_stream_encoding (source : List (Poll SourceItem)) :
    (∀ n, ∃ rest, sourceItems crc xml source = yielded crc xml n (intoByteStream source) ++ rest ∧
      (.ready none ∈ results crc xml n (intoByteStream source) → rest = [])) ∧
      (∀ n, (sourceItems crc xml source).length + waits source < n →
        .ready none ∈ results crc xml n (intoByteStream source)) ∧
      Wire.readAll (readFrame crc) (bytesOf (sourceItems crc xml source)) =
        some ((((events source).map (messageOf xml)).filter fun m => m.Fits).map Message.frame) ∧
      ∀ ev ∈ events source,
        ((messageOf xml ev).Fits → ∃ chunks : List Bytes, itemsOf crc xml ev = chunks.map .ok) ∧
          (¬(messageOf xml ev).Fits → ∃ err, itemsOf crc xml ev = [.error err]) := by
  have hremaining : (intoByteStream source).remaining crc xml = sourceItems crc xml source := rfl
  refine ⟨?_, ?_, ?_, ?_⟩
  · intro n
    exact hremaining ▸ yielded_append crc xml n (intoByteStream source)
  · intro n hn
    exact ready_none_mem_results crc xml n (intoByteStream source) hn
  · rw [sourceItems, bytesOf_itemsOf]
    apply readAll_bytes
    simp
  · intro ev _
    refine ⟨fun h => ?_, itemsOf_of_not_fits crc xml⟩
    obtain ⟨chunks, hchunks, -⟩ := itemsOf_of_fits crc xml h
    exact ⟨chunks, hchunks⟩

end Wrapper

end S3s.EventStream
