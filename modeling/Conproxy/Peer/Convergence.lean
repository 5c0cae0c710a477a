import Conproxy.Lib.LastWrite
import Conproxy.Lib.Machine
import Conproxy.Sample
import Conproxy.Peer.Receiver

/-!
# Convergence of replicated events

The entry of one key under a sequence of events for it is a register stamped on arrival: an
applied entry carries the wall clock of its application, and a removal is not compared with
anything. The events therefore converge to the newest one in every order of arrival only when
they are all removals, or all insertions of one response.
-/

namespace Conproxy

open CacheStore

set_option autoImplicit false

variable (p : Platform)

structure Arrival where
  event : CdcEvent
  scan : Scan
  now : Clock

def receiveEvent (localNodeId : String) (s : CacheStore) (a : Arrival) : CacheStore :=
  handleEvent p a.event localNodeId a.scan a.now s

def cachedResponse (key : String) (s : CacheStore) : Option QueryResponse :=
  (s.entries.lookup (hashQuery p key)).map CacheEntry.response

def CdcEvent.target (event : CdcEvent) : Option QueryResponse :=
  if event.eventType = .insert then p.fromSlice event.payload else none

/-- A remote INSERT with a parsable payload, or a remote REMOVE, for the key. -/
structure KeyEvent (localNodeId key : String) (event : CdcEvent) : Prop where
  remote : event.originNodeId ≠ localNodeId
  key_eq : event.queryKey = key
  kind : event.eventType = .remove ∨
    event.eventType = .insert ∧ event.payload ≠ [] ∧ (p.fromSlice event.payload).isSome = true

def CdcEvent.write (event : CdcEvent) : LastWrite.Write QueryResponse :=
  ⟨event.timestampMs, event.target p⟩

/-- What last-write-wins asks for: the payload of the event with the greatest timestamp if it
is an INSERT, and no entry if it is a REMOVE. -/
def lastWrite (events : List CdcEvent) : Option QueryResponse :=
  LastWrite.newest (events.map (CdcEvent.write p))

/-- The entry of a key as a register: the response, and the time at which it was stored. -/
def register (key : String) (s : CacheStore) : Option (QueryResponse × Nat) :=
  (s.entries.lookup (hashQuery p key)).map fun e => (e.response, localTimestampMs e)

variable {p}

theorem register_of_touched {s s' : CacheStore} (h : Touched s s') (key : String) :
    register p key s' = register p key s := by
  have hlookup := congrArg (Option.map fun e : CacheEntry => (e.response, localTimestampMs e))
    (h.lookup (hashQuery p key))
  rw [Option.map_map, Option.map_map] at hlookup
  exact hlookup

theorem MapsToItself.rememberExact {s : CacheStore} {key : String} (hs : MapsToItself p key s) :
    MapsToItself p key (s.rememberExact p key (hashQuery p key)) := by
  unfold CacheStore.rememberExact
  split
  · intro m hm
    simpa using hm.symm
  · exact hs

structure Ready (p : Platform) (key : String) (n : Nat) (s : CacheStore) : Prop where
  room : HasRoom n s
  maps : MapsToItself p key s

theorem HasRoom.mono {m n : Nat} {s : CacheStore} (hs : HasRoom n s) (h : m ≤ n) :
    HasRoom m s := by
  have hroom := hs.room
  exact ⟨hs.unlimited, by omega⟩

theorem Ready.mono {key : String} {m n : Nat} {s : CacheStore} (hs : Ready p key n s)
    (h : m ≤ n) : Ready p key m s :=
  ⟨hs.room.mono h, hs.maps⟩

theorem Ready.touched {key : String} {n : Nat} {s s' : CacheStore} (hs : Ready p key n s)
    (h : Touched s s') (hmaps : MapsToItself p key s') : Ready p key n s' := by
  refine ⟨⟨⟨?_, ?_⟩, ?_⟩, hmaps⟩
  · rw [h.memory]
    exact hs.room.unlimited.memory
  · rw [h.upstream]
    exact hs.room.unlimited.upstream
  · rw [Core.slots, core_queues, h.queues]
    exact hs.room.room

theorem MapsToItself.insert {key : String} {n : Nat} {s : CacheStore} (hs : MapsToItself p key s)
    (hroom : HasRoom (n + 1) s) (scan : Scan) (now : Clock) (response : QueryResponse)
    (upstreamId : String) : MapsToItself p key (s.insert p scan now key response upstreamId) := by
  simp only [CacheStore.insert, CacheStore.insertImpl,
    makeRoomForUpstream_of_none hroom.unlimited.upstream]
  generalize newEntry p now response upstreamId (some key) "default" = entry
  have hmaps : MapsToItself p key ((s.persistEntry p now (hashQuery p key) entry).trackedInsert p
      (hashQuery p key) entry) := hs
  have hqueues : ((s.persistEntry p now (hashQuery p key) entry).trackedInsert p
      (hashQuery p key) entry).core.slots.length < s.s3fifo.capacity := by
    have hle : s.s3fifo.slots.length + (n + 1) ≤ s.s3fifo.capacity := hroom.room
    exact lt_of_lt_of_le (Nat.lt_add_of_pos_right (Nat.succ_pos n)) hle
  have hlimit : ((s.persistEntry p now (hashQuery p key) entry).trackedInsert p
      (hashQuery p key) entry).maxMemoryBytes = 0 := hroom.unlimited.memory
  generalize hstored : ((s.persistEntry p now (hashQuery p key) entry).trackedInsert p
    (hashQuery p key) entry) = stored at hmaps hqueues hlimit ⊢
  have hcap : s.s3fifo.capacity = stored.s3fifo.capacity := by rw [← hstored]; rfl
  have hadm : MapsToItself p key (if decide (hashQuery p key ∉ s.entries) = true then
      (stored.rememberExact p key (hashQuery p key)).s3fifoAdmit p (hashQuery p key)
      else stored.rememberExact p key (hashQuery p key)) := by
    split
    · have hcore := core_rememberExact p stored key (hashQuery p key)
      have hroom' := (s3fifoAdmit_of_room (p := p) (h := hashQuery p key)
        (s := stored.rememberExact p key (hashQuery p key))
        ((rememberExact_maxMemoryBytes stored key _).trans hlimit)
        (by rw [hcore, ← core_queues, hcore, core_queues, ← hcap]; exact hqueues)).2
      unfold MapsToItself
      rw [hroom']
      exact hmaps.rememberExact
    · exact hmaps.rememberExact
  split
  · exact hadm
  · exact hadm

theorem insert_ready {key : String} {n : Nat} {s : CacheStore} (hs : Ready p key (n + 1) s)
    (scan : Scan) (now : Clock) (response : QueryResponse) (upstreamId : String) :
    Ready p key n (s.insert p scan now key response upstreamId) ∧
      register p key (s.insert p scan now key response upstreamId) =
        some (response, now.nowMs) := by
  have hins := inserted_insertImpl (p := p) s scan now key response upstreamId "default"
  simp only [singleInsertion, makeRoomForUpstream_of_none hs.room.unlimited.upstream] at hins
  obtain ⟨hroom, hentries⟩ := hs.room.inserted
    (hs.room.unlimited.insertImpl scan now key response upstreamId "default") hins
  refine ⟨⟨hroom, hs.maps.insert hs.room scan now response upstreamId⟩, ?_⟩
  · simp only [register, CacheStore.insert, hentries, AList.lookup_insert]
    rfl

theorem lookup_erase_mem {t : Table QueryHash} {k x m : QueryHash}
    (h : m ∈ (t.erase k).lookup x) : m ∈ t.lookup x := by
  by_cases hx : x = k
  · rw [hx, AList.lookup_erase] at h
    cases h
  · rwa [AList.lookup_erase_ne hx] at h

theorem remove_ready {key : String} {n : Nat} {s : CacheStore} (hs : Ready p key n s)
    (now : Clock) :
    Ready p key n (s.remove p now key) ∧ register p key (s.remove p now key) = none := by
  have hframe := frame_trackedRemove (p := p) s (hashQuery p key)
  have hlimits := hs.room.unlimited.of_frame hframe
  have hcore : (s.trackedRemove p (hashQuery p key)).2.s3fifo = s.s3fifo ∧
      (s.trackedRemove p (hashQuery p key)).2.entries.lookup (hashQuery p key) = none ∧
      ∀ m ∈ (s.trackedRemove p (hashQuery p key)).2.exactToNormalized.lookup
        (hashQueryExact p key), m = hashQuery p key := by
    unfold trackedRemove
    cases hl : s.entries.lookup (hashQuery p key) with
    | none => exact ⟨rfl, hl, hs.maps⟩
    | some old =>
      refine ⟨rfl, AList.lookup_erase _ _, ?_⟩
      intro m hm
      apply hs.maps m
      simp only [forgetExact] at hm
      split at hm
      · exact lookup_erase_mem hm
      · exact hm
  refine ⟨⟨⟨⟨hlimits.memory, hlimits.upstream⟩, ?_⟩, ?_⟩, ?_⟩
  · have hroom := hs.room.room
    rw [Core.slots, core_queues] at hroom ⊢
    exact hcore.1 ▸ hroom
  · intro m hm
    exact hcore.2.2 m (lookup_erase_mem hm)
  · have hnone : (s.remove p now key).entries.lookup (hashQuery p key) = none := hcore.2.1
    rw [register, hnone]
    rfl

/-- The store refines the register: an event for the key is received as its write. -/
theorem receiveEvent_register {localNodeId key : String} {n : Nat} {s : CacheStore}
    (hs : Ready p key (n + 1) s) {a : Arrival} (hkey : key ≠ "")
    (ha : KeyEvent p localNodeId key a.event) (hlive : a.event.expiredAt a.now = false) :
    Ready p key n (receiveEvent p localNodeId s a) ∧
      register p key (receiveEvent p localNodeId s a) =
        LastWrite.receive (register p key s) a.now.nowMs (a.event.write p) := by
  have hkeyEq := ha.key_eq
  rcases ha.kind with hremove | ⟨hinsert, hpayload, hparse⟩
  · have hdedup : deduplicate p a.event localNodeId a.now s = (.apply, s) := by
      simp [deduplicate, ha.remote, hlive, hremove]
    have happly : receiveEvent p localNodeId s a = s.remove p a.now key := by
      simp [receiveEvent, handleEvent, hdedup, applyEvent, hremove, hkeyEq, hkey]
    obtain ⟨hready, hnone⟩ := remove_ready hs a.now
    rw [happly]
    refine ⟨hready.mono (Nat.le_succ n), ?_⟩
    rw [hnone]
    simp [LastWrite.receive, CdcEvent.write, CdcEvent.target, hremove]
  · obtain ⟨response, hresponse⟩ := Option.isSome_iff_exists.mp hparse
    have htarget : a.event.target p = some response := by
      simp [CdcEvent.target, hinsert, hresponse]
    obtain ⟨hget, hmaps⟩ := get_of_maps hs.maps
    have htouched := touched_get (p := p) s key
    rcases hr : s.get p key with ⟨found, s'⟩
    rw [hr] at hget hmaps htouched
    have hready := hs.touched htouched hmaps
    have happly : (applyEvent p a.event a.scan a.now s').2 =
        s'.insert p a.scan a.now key response a.event.upstreamId := by
      simp [applyEvent, hinsert, hpayload, hresponse, hkeyEq]
    obtain ⟨hnext, hstored⟩ := insert_ready hready a.scan a.now response a.event.upstreamId
    cases hl : s.entries.lookup (hashQuery p key) with
    | none =>
      have hfound : found = none := hget.trans hl
      have hreceive : receiveEvent p localNodeId s a =
          s'.insert p a.scan a.now key response a.event.upstreamId := by
        rw [← happly]
        simp [receiveEvent, handleEvent, deduplicate, ha.remote, hlive, hinsert, hkeyEq, hr, hfound]
      rw [hreceive]
      refine ⟨hnext, ?_⟩
      rw [hstored]
      simp [LastWrite.receive, CdcEvent.write, htarget, register, hl]
    | some existing =>
      have hfound : found = some existing := hget.trans hl
      have hregister : register p key s =
          some (existing.response, localTimestampMs existing) := by
        simp [register, hl]
      by_cases hstale : a.event.timestampMs ≤ localTimestampMs existing
      · have hreceive : receiveEvent p localNodeId s a = s' := by
          simp [receiveEvent, handleEvent, deduplicate, ha.remote, hlive, hinsert, hkeyEq, hr,
            hfound, hstale]
        rw [hreceive, register_of_touched htouched key, hregister]
        refine ⟨hready.mono (Nat.le_succ n), ?_⟩
        simp [LastWrite.receive, CdcEvent.write, htarget, hstale]
      · have hreceive : receiveEvent p localNodeId s a =
            s'.insert p a.scan a.now key response a.event.upstreamId := by
          rw [← happly]
          simp [receiveEvent, handleEvent, deduplicate, ha.remote, hlive, hinsert, hkeyEq, hr,
            hfound, hstale]
        rw [hreceive]
        refine ⟨hnext, ?_⟩
        rw [hstored, hregister]
        simp [LastWrite.receive, CdcEvent.write, htarget, hstale]

theorem receive_all_register {localNodeId key : String} (hkey : key ≠ "") {s : CacheStore}
    {arrivals : List Arrival} (hs : Ready p key arrivals.length s)
    (harrivals : ∀ a ∈ arrivals, KeyEvent p localNodeId key a.event ∧
      a.event.expiredAt a.now = false) :
    register p key (Machine.run (receiveEvent p localNodeId) s arrivals) =
      LastWrite.replay (register p key s)
        (arrivals.map fun a => (a.event.write p, a.now.nowMs)) := by
  induction arrivals generalizing s with
  | nil => rfl
  | cons a rest ih =>
    obtain ⟨hevent, hlive⟩ := harrivals a List.mem_cons_self
    obtain ⟨hnext, hregister⟩ := receiveEvent_register hs hkey hevent hlive
    have hrest := ih hnext (fun b hb => harrivals b (List.mem_cons_of_mem _ hb))
    rw [hregister] at hrest
    exact hrest

/-- All events are removals, or all are insertions of one response. -/
def OneOutcome (p : Platform) (events : List CdcEvent) : Prop :=
  (∀ e ∈ events, e.eventType = .remove) ∨
    ∃ response, ∀ e ∈ events, e.eventType = .insert ∧ p.fromSlice e.payload = some response

/-- In every order of arrival, with a clock that does not go back, the key ends with the last
write. -/
def Converges (p : Platform) (localNodeId key : String) (s : CacheStore)
    (events : List CdcEvent) : Prop :=
  ∀ arrivals : List Arrival, (arrivals.map Arrival.event).Perm events →
    (∀ a ∈ arrivals, a.event.expiredAt a.now = false) →
    arrivals.Pairwise (fun a b => a.now.nowMs ≤ b.now.nowMs) →
    cachedResponse p key (Machine.run (receiveEvent p localNodeId) s arrivals) =
      lastWrite p events

theorem target_of_remove {event : CdcEvent} (h : event.eventType = .remove) :
    event.target p = none := by
  simp [CdcEvent.target, h]

theorem target_of_insert {event : CdcEvent} (h : event.eventType = .insert) :
    event.target p = p.fromSlice event.payload := by
  simp [CdcEvent.target, h]

theorem uniform_iff_oneOutcome {localNodeId key : String} {events : List CdcEvent}
    (hevents : ∀ e ∈ events, KeyEvent p localNodeId key e) :
    LastWrite.Uniform (events.map (CdcEvent.write p)) ↔ OneOutcome p events := by
  unfold LastWrite.Uniform OneOutcome
  simp only [List.forall_mem_map, CdcEvent.write]
  constructor
  · rintro (hnone | ⟨response, hsome⟩)
    · apply Or.inl
      intro e he
      rcases (hevents e he).kind with hremove | ⟨hinsert, -, hparse⟩
      · exact hremove
      · have htarget := hnone e he
        rw [target_of_insert hinsert] at htarget
        simp [htarget] at hparse
    · refine Or.inr ⟨response, ?_⟩
      intro e he
      have htarget := hsome e he
      rcases (hevents e he).kind with hremove | ⟨hinsert, -, -⟩
      · rw [target_of_remove hremove] at htarget
        cases htarget
      · rw [target_of_insert hinsert] at htarget
        exact ⟨hinsert, htarget⟩
  · rintro (hremove | ⟨response, hinsert⟩)
    · exact Or.inl fun e he => target_of_remove (hremove e he)
    · refine Or.inr ⟨response, ?_⟩
      intro e he
      rw [target_of_insert (hinsert e he).1]
      exact (hinsert e he).2

theorem cachedResponse_eq (key : String) (s : CacheStore) :
    cachedResponse p key s = (register p key s).map Prod.fst := by
  simp only [cachedResponse, register, Option.map_map]
  rfl

def arriveAt (time : Nat) (event : CdcEvent) : Arrival :=
  ⟨event, Scan.stored, ⟨0, time * 1000000⟩⟩

theorem arriveAt_nowMs (time : Nat) (event : CdcEvent) : (arriveAt time event).now.nowMs = time :=
  Nat.mul_div_cancel time (by decide)

/-- Events for a key that the node does not hold converge to the last write in every order of
arrival exactly when there is one outcome only. -/
theorem converges_iff {localNodeId key : String} (hkey : key ≠ "") {s : CacheStore}
    {events : List CdcEvent} (hs : Ready p key events.length s)
    (habsent : hashQuery p key ∉ s.entries)
    (hevents : ∀ e ∈ events, KeyEvent p localNodeId key e)
    (hlive : ∀ e ∈ events, e.absoluteExpiryMs = 0 ∨
      ∀ e' ∈ events, e'.timestampMs < e.absoluteExpiryMs) :
    Converges p localNodeId key s events ↔ OneOutcome p events := by
  rw [← uniform_iff_oneOutcome hevents]
  have hempty : register p key s = none := by
    simp [register, AList.lookup_eq_none.mpr habsent]
  have hrun : ∀ arrivals : List Arrival, (arrivals.map Arrival.event).Perm events →
      (∀ a ∈ arrivals, a.event.expiredAt a.now = false) →
      cachedResponse p key (Machine.run (receiveEvent p localNodeId) s arrivals) =
        (LastWrite.replay none
          (arrivals.map fun a => (a.event.write p, a.now.nowMs))).map Prod.fst := by
    intro arrivals hperm hfresh
    have hlength : arrivals.length = events.length := by simpa using hperm.length_eq
    rw [cachedResponse_eq, receive_all_register hkey (hlength ▸ hs), hempty]
    intro a ha
    exact ⟨hevents _ (hperm.mem_iff.mp (List.mem_map_of_mem ha)), hfresh a ha⟩
  constructor
  · intro hconv
    by_contra hnot
    obtain ⟨m, hmax⟩ : ∃ m, events.argmax CdcEvent.timestampMs = some m := by
      apply Option.ne_none_iff_exists'.mp
      intro hnone
      rw [List.argmax_eq_none.mp hnone] at hnot
      exact hnot (Or.inl (by simp))
    have htop : m ∈ events := List.argmax_mem hmax
    obtain ⟨order, hperm, hne⟩ := LastWrite.exists_order_not_newest (CdcEvent.write p) hnot
      m.timestampMs (fun e he => List.le_of_mem_argmax he hmax)
    apply hne
    have harrive : ((order.map (arriveAt m.timestampMs)).map Arrival.event).Perm events := by
      rw [List.map_map]
      exact (List.map_id order).symm ▸ hperm
    have hfresh : ∀ a ∈ order.map (arriveAt m.timestampMs), a.event.expiredAt a.now = false := by
      intro a ha
      obtain ⟨e, he, rfl⟩ := List.mem_map.mp ha
      have hin : e ∈ events := hperm.mem_iff.mp he
      simp only [CdcEvent.expiredAt, arriveAt_nowMs]
      rcases hlive e hin with hzero | hlater
      · simp [arriveAt, hzero]
      · have hlt : ¬ e.absoluteExpiryMs ≤ m.timestampMs := Nat.not_le.mpr (hlater m htop)
        simp [arriveAt, hlt]
    have hmono : (order.map (arriveAt m.timestampMs)).Pairwise
        (fun a b => a.now.nowMs ≤ b.now.nowMs) := by
      rw [List.pairwise_map]
      apply List.pairwise_of_forall
      intro a b
      rw [arriveAt_nowMs, arriveAt_nowMs]
    have hfinal := hconv _ harrive hfresh hmono
    rw [hrun _ harrive hfresh, List.map_map] at hfinal
    have hsame : (fun a : Arrival => (a.event.write p, a.now.nowMs)) ∘ arriveAt m.timestampMs =
        fun e => (e.write p, m.timestampMs) := by
      funext e
      simp only [Function.comp_apply, arriveAt_nowMs]
      rfl
    rw [hsame] at hfinal
    exact hfinal
  · intro huniform arrivals hperm hfresh _
    rw [hrun arrivals hperm hfresh]
    apply LastWrite.replay_newest_of_uniform huniform
    rw [List.map_map]
    have hmap := hperm.map (CdcEvent.write p)
    rw [List.map_map] at hmap
    exact hmap

def insertThenRemove : List CdcEvent :=
  [⟨1, 1000, .insert, "q", (encodeText (textResponse "x")).getD [], "u", "", "b", 0⟩,
    ⟨2, 2000, .remove, "q", [], "", "", "b", 0⟩]

theorem insertThenRemove_converges_iff :
    Converges Platform.sample "a" "q" (CacheStore.new 60000000000 60000000000 10)
      insertThenRemove ↔ OneOutcome Platform.sample insertThenRemove := by
  refine converges_iff (by decide) ⟨⟨⟨rfl, rfl⟩, by decide⟩, by simp [MapsToItself, CacheStore.new,
    CacheStore.withJitter]⟩ (AList.notMem_empty _) ?_ (by simp [insertThenRemove])
  intro e he
  simp only [insertThenRemove, List.mem_cons, List.not_mem_nil, or_false] at he
  rcases he with rfl | rfl
  · exact ⟨by decide, rfl, Or.inr ⟨rfl, by decide +kernel, by decide +kernel⟩⟩
  · exact ⟨by decide, rfl, Or.inl rfl⟩

/-- When the REMOVE overtakes the INSERT, the removed entry stays cached. -/
theorem insertThenRemove_not_converging :
    ¬ Converges Platform.sample "a" "q" (CacheStore.new 60000000000 60000000000 10)
      insertThenRemove := by
  intro h
  have hfinal := h (insertThenRemove.reverse.map (arriveAt 3000)) (by decide +kernel)
    (by decide +kernel) (by decide +kernel)
  have hsome := congrArg Option.isSome hfinal
  revert hsome
  decide +kernel

end Conproxy
