import Conproxy.Cache.Calls

/-!
# The events that an operation publishes

The number of events that `insert`, `remove` and `clear` put on the CDC channel. Only the
presence of a sender and the payload of the operation matter; where the change came from is
not known to the store.
-/

namespace Conproxy.CacheStore

set_option autoImplicit false

variable {p : Platform}

def published (s : CacheStore) : List CdcEvent := (s.cdcSender.map EventSender.sent).getD []

def eventCount (s : CacheStore) : Nat := s.published.length

theorem eventCount_congr {s s' : CacheStore} (h : s'.cdcSender = s.cdcSender) :
    s'.eventCount = s.eventCount := by
  simp only [eventCount, published, h]

theorem cdcSender_of_frame {s s' : CacheStore} (h : s'.frame = s.frame) :
    s'.cdcSender = s.cdcSender := by
  have hsender : s'.frame.cdcSender = s.frame.cdcSender := by rw [h]
  exact hsender

theorem isSome_publish (s : CacheStore) (now : Clock) (t : CdcEventType) (b : CdcEventBuilder) :
    (s.publish now t b).cdcSender.isSome = s.cdcSender.isSome := by
  simp [publish]

theorem eventCount_publish (s : CacheStore) (now : Clock) (t : CdcEventType)
    (b : CdcEventBuilder) :
    (s.publish now t b).eventCount = s.eventCount + if s.cdcSender.isSome then 1 else 0 := by
  simp only [eventCount, published, publish]
  cases s.cdcSender with
  | none => rfl
  | some sender => simp

theorem eventCount_publish_of {s t : CacheStore} (h : t.cdcSender = s.cdcSender) (now : Clock)
    (ty : CdcEventType) (b : CdcEventBuilder) :
    (t.publish now ty b).eventCount = s.eventCount + if s.cdcSender.isSome then 1 else 0 := by
  rw [eventCount_publish, eventCount_congr h, h]

theorem cdcSender_removeAll (hs : List QueryHash) (s : CacheStore) :
    (removeAll p hs s).2.cdcSender = s.cdcSender := by
  refine removeAll_invariant (fun t => t.cdcSender = s.cdcSender) (fun t ht h _ => ?_) rfl
  exact (cdcSender_of_frame (frame_trackedRemove t h)).trans ht

theorem eventCount_publishRemoves (now : Clock) (qs : List String) (s : CacheStore) :
    (publishRemoves now qs s).eventCount =
        s.eventCount + (if s.cdcSender.isSome then qs.length else 0) ∧
      (publishRemoves now qs s).cdcSender.isSome = s.cdcSender.isSome := by
  induction qs generalizing s with
  | nil => simp [publishRemoves]
  | cons q rest ih =>
    obtain ⟨hcount, hsome⟩ := ih (s.publish now .remove (.remove q))
    rw [isSome_publish] at hcount hsome
    refine ⟨?_, hsome⟩
    rw [publishRemoves, hcount, eventCount_publish]
    split
    · rw [List.length_cons]
      omega
    · rfl

theorem eventCount_evictFromUpstream (s : CacheStore) (scan : Scan) (now : Clock)
    (upstreamId : String) {count : Nat} (hne : count ≠ 0) :
    (s.evictFromUpstream p scan now upstreamId count).2.eventCount = s.eventCount +
        (if s.cdcSender.isSome then
          ((removeAll p ((s.upstreamHashes scan now upstreamId).take count) s).1.filterMap
            CacheEntry.queryText).length
        else 0) ∧
      (s.evictFromUpstream p scan now upstreamId count).2.cdcSender.isSome =
        s.cdcSender.isSome := by
  simp only [evictFromUpstream, hne, if_false]
  have hsender := cdcSender_removeAll (p := p)
    ((s.upstreamHashes scan now upstreamId).take count) s
  generalize removeAll p ((s.upstreamHashes scan now upstreamId).take count) s = removed
    at hsender ⊢
  obtain ⟨hcount, hsome⟩ := eventCount_publishRemoves now
    (if s.cdcSender.isSome then removed.1.filterMap CacheEntry.queryText else []) removed.2
  rw [hsender] at hcount hsome
  rw [eventCount_congr hsender] at hcount
  have hstats (f : EvictionStats → EvictionStats) (t : CacheStore) :
      (t.updateStats f).eventCount = t.eventCount := rfl
  constructor
  · split
    all_goals
      first | rw [hstats, hcount] | rw [hcount]
      cases s.cdcSender with
      | none => rfl
      | some sender => rfl
  · split
    · exact hsome
    · exact hsome

/-- The query texts of the entries that an insertion for this upstream evicts first. -/
def evictedTexts (p : Platform) (s : CacheStore) (scan : Scan) (now : Clock)
    (upstreamId : String) : List String :=
  match s.perUpstreamLimit with
  | some limit =>
    if limit ≤ s.countForUpstream upstreamId then
      (removeAll p ((s.upstreamHashes scan now upstreamId).take 1) s).1.filterMap
        CacheEntry.queryText
    else []
  | none => []

theorem eventCount_makeRoomForUpstream (s : CacheStore) (scan : Scan) (now : Clock)
    (upstreamId : String) :
    (s.makeRoomForUpstream p scan now upstreamId).eventCount = s.eventCount +
        (if s.cdcSender.isSome then (s.evictedTexts p scan now upstreamId).length else 0) ∧
      (s.makeRoomForUpstream p scan now upstreamId).cdcSender.isSome = s.cdcSender.isSome := by
  unfold makeRoomForUpstream evictedTexts
  cases s.perUpstreamLimit with
  | none => simp
  | some limit =>
    dsimp only
    split
    · exact eventCount_evictFromUpstream s scan now upstreamId Nat.one_ne_zero
    · simp

theorem cdcSender_rememberExact (s : CacheStore) (query : String) (h : QueryHash) :
    (s.rememberExact p query h).cdcSender = s.cdcSender := by
  unfold rememberExact
  split <;> rfl

theorem cdcSender_admitted (b : Bool) (s : CacheStore) (h : QueryHash) :
    (if b then s.s3fifoAdmit p h else s).cdcSender = s.cdcSender := by
  split
  · exact cdcSender_of_frame (frame_s3fifoAdmit s h)
  · rfl

theorem eventCount_announce {room stored : CacheStore} (h : stored.cdcSender = room.cdcSender)
    (response : QueryResponse) (now : Clock) (builder : List UInt8 → CdcEventBuilder) :
    (match if room.cdcSender.isSome then p.toVec response else none with
      | some bytes => stored.publish now .insert (builder bytes)
      | none => stored).eventCount = room.eventCount +
        if room.cdcSender.isSome then (if (p.toVec response).isSome then 1 else 0) else 0 := by
  cases hsend : room.cdcSender.isSome with
  | false => exact eventCount_congr h
  | true =>
    cases p.toVec response with
    | none => exact eventCount_congr h
    | some bytes =>
      have hcount := eventCount_publish_of h now .insert (builder bytes)
      rw [hsend] at hcount
      exact hcount

/-- The events of an insertion: one for every evicted text, and one for the entry itself if
its response serializes. -/
theorem eventCount_insert (s : CacheStore) (scan : Scan) (now : Clock) (query : String)
    (response : QueryResponse) (upstreamId : String) :
    (s.insert p scan now query response upstreamId).eventCount = s.eventCount +
      if s.cdcSender.isSome then
        (s.evictedTexts p scan now upstreamId).length + (if (p.toVec response).isSome then 1 else 0)
      else 0 := by
  obtain ⟨hcount, hsome⟩ := eventCount_makeRoomForUpstream (p := p) s scan now upstreamId
  simp only [CacheStore.insert, insertImpl]
  generalize s.makeRoomForUpstream p scan now upstreamId = room at hcount hsome ⊢
  have hsender (t : CacheStore) (ht : t.cdcSender = room.cdcSender) :
      (if decide (hashQuery p query ∉ room.entries) then
        (t.rememberExact p query (hashQuery p query)).s3fifoAdmit p (hashQuery p query)
      else t.rememberExact p query (hashQuery p query)).cdcSender = room.cdcSender :=
    (cdcSender_admitted _ _ _).trans ((cdcSender_rememberExact t query _).trans ht)
  generalize newEntry p now response upstreamId (some query) "default" = entry
  have hstored : ((room.persistEntry p now (hashQuery p query) entry).trackedInsert p
      (hashQuery p query) entry).cdcSender = room.cdcSender := rfl
  generalize (room.persistEntry p now (hashQuery p query) entry).trackedInsert p
    (hashQuery p query) entry = stored at hstored ⊢
  refine (eventCount_announce (hsender stored hstored) response now
    (fun bytes => .insert query bytes upstreamId)).trans ?_
  rw [hcount, hsome]
  split
  · omega
  · rfl

theorem eventCount_remove (s : CacheStore) (now : Clock) (query : String) :
    (s.remove p now query).eventCount = s.eventCount + if s.cdcSender.isSome then 1 else 0 := by
  have hsender : (s.trackedRemove p (hashQuery p query)).2.cdcSender = s.cdcSender :=
    cdcSender_of_frame (frame_trackedRemove s _)
  exact eventCount_publish_of hsender now .remove (.remove query)

theorem eventCount_clear (s : CacheStore) (now : Clock) :
    (s.clear now).eventCount = s.eventCount + if s.cdcSender.isSome then 1 else 0 :=
  eventCount_publish_of (s := s) rfl now .remove (.remove "")

end Conproxy.CacheStore
