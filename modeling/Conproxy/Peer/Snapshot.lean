import Conproxy.Peer.Convergence

/-!
# Snapshot transfer

`stream_snapshot` sends every entry of a cache as an INSERT event, and the other node receives
the events like any others. The key of an entry is derived again from its text, and the events
carry the time of the stream: the receiver ends with the entries of the source only if their keys
are the hashes of their texts, and a local entry is safe only if it was stored after the stream
had begun.
-/

namespace Conproxy

open CacheStore

set_option autoImplicit false

section Stream

variable (p : Platform)

def snapshotTuple (e : CacheEntry) : Option (String × List UInt8 × String) :=
  (p.toVec e.response).map fun json => (e.queryText.getD "", json, e.upstreamId)

def snapshotEntries (s : CacheStore) (scan : Scan) : List (String × List UInt8 × String) :=
  (s.iter scan).filterMap fun x => snapshotTuple p x.2

/-- The durations as whole milliseconds in a `u64`, added to the time of the stream. -/
def snapshotExpiryMs (s : CacheStore) (now : Clock) : Nat :=
  let ttlMs := (s.freshDuration + s.staleDuration) / 1000000 % 2 ^ 64
  if 0 < ttlMs then min (now.nowMs + ttlMs) (2 ^ 64 - 1) else 0

def snapshotEvent (s : CacheStore) (nodeId : String) (now : Clock) (i : Nat)
    (x : String × List UInt8 × String) : CdcEvent where
  sequence := i + 1
  timestampMs := now.nowMs
  eventType := .insert
  queryKey := x.1
  payload := x.2.1
  upstreamId := x.2.2
  contextId := ""
  originNodeId := nodeId
  absoluteExpiryMs := snapshotExpiryMs s now

def streamSnapshot (s : CacheStore) (scan : Scan) (nodeId : String) (now : Clock) :
    List CdcEvent :=
  (snapshotEntries p s scan).mapIdx (snapshotEvent s nodeId now)

/-- The stream with the entry that each event was made of. -/
def sourcedSnapshot (s : CacheStore) (scan : Scan) (nodeId : String) (now : Clock) :
    List (CacheEntry × CdcEvent) :=
  ((s.iter scan).filterMap fun x => (snapshotTuple p x.2).map fun t => (x.2, t)).mapIdx
    fun i x => (x.1, snapshotEvent s nodeId now i x.2)

theorem streamSnapshot_eq (s : CacheStore) (scan : Scan) (nodeId : String) (now : Clock) :
    streamSnapshot p s scan nodeId now = (sourcedSnapshot p s scan nodeId now).map Prod.snd := by
  have hentries : snapshotEntries p s scan = ((s.iter scan).filterMap fun x =>
      (snapshotTuple p x.2).map fun t => (x.2, t)).map Prod.snd := by
    rw [List.map_filterMap]
    simp only [Option.map_map, Function.comp_def, Option.map_id']
    rfl
  rw [streamSnapshot, hentries, sourcedSnapshot]
  apply List.ext_getElem?
  intro i
  simp [Option.map_map, Function.comp_def]

/-- An event on its way from the entry of the source to the receiver. -/
structure Transfer where
  entry : CacheEntry
  arrival : Arrival

def receiveTransfer (localNodeId : String) (s : CacheStore) (x : Transfer) : CacheStore :=
  receiveEvent p localNodeId s x.arrival

def Arrival.parsed (a : Arrival) : Option QueryResponse :=
  if a.event.expiredAt a.now = true ∨ a.event.payload = [] then none
  else p.fromSlice a.event.payload

def Arrival.key (a : Arrival) : QueryHash := hashQuery p a.event.queryKey

/-- Whether the receiver stores the event. -/
def accepts (localNodeId : String) (s : CacheStore) (a : Arrival) : Bool :=
  match deduplicate p a.event localNodeId a.now s with
  | (.apply, s') => (applyEvent p a.event a.scan a.now s').1
  | _ => false

end Stream

variable {p : Platform}

structure RemoteInsert (localNodeId : String) (a : Arrival) : Prop where
  remote : a.event.originNodeId ≠ localNodeId
  insert : a.event.eventType = .insert

def Arrival.Beats (p : Platform) (a : Arrival) (s : CacheStore) : Prop :=
  ∀ l, s.entries.lookup (a.key p) = some l → localTimestampMs l < a.event.timestampMs

theorem receiveEvent_accepted {localNodeId : String} {a : Arrival}
    (ha : RemoteInsert localNodeId a) {s : CacheStore}
    (hs : MapsToItself p a.event.queryKey s) {response : QueryResponse}
    (hparsed : a.parsed p = some response) (hbeats : a.Beats p s) :
    accepts p localNodeId s a = true ∧
      receiveEvent p localNodeId s a = (s.get p a.event.queryKey).2.insert p a.scan a.now
        a.event.queryKey response a.event.upstreamId := by
  have hget := (get_of_maps hs).1
  simp only [Arrival.parsed] at hparsed
  split at hparsed
  · cases hparsed
  · rename_i hlive
    rw [not_or, Bool.not_eq_true] at hlive
    have hdedup : deduplicate p a.event localNodeId a.now s =
        (.apply, (s.get p a.event.queryKey).2) := by
      rcases hr : s.get p a.event.queryKey with ⟨_ | l, s'⟩
      · simp [deduplicate, ha.remote, ha.insert, hlive.1, hr]
      · rw [hr] at hget
        have hlt := hbeats l hget.symm
        simp [deduplicate, ha.remote, ha.insert, hlive.1, hr, Nat.not_le.mpr hlt]
    simp [accepts, receiveEvent, handleEvent, hdedup, applyEvent, ha.insert, hlive.2, hparsed]

theorem receiveEvent_refused {localNodeId : String} {a : Arrival}
    (ha : RemoteInsert localNodeId a) {s : CacheStore}
    (hs : MapsToItself p a.event.queryKey s)
    (hrefused : a.parsed p = none ∨ ¬ a.Beats p s) :
    accepts p localNodeId s a = false ∧
      (receiveEvent p localNodeId s a = s ∨
        receiveEvent p localNodeId s a = (s.get p a.event.queryKey).2) := by
  have hget := (get_of_maps hs).1
  by_cases hexpired : a.event.expiredAt a.now = true
  · have hdedup : deduplicate p a.event localNodeId a.now s = (.expired, s) := by
      simp [deduplicate, ha.remote, hexpired]
    simp [accepts, receiveEvent, handleEvent, hdedup]
  · rw [Bool.not_eq_true] at hexpired
    rcases hr : s.get p a.event.queryKey with ⟨found, s'⟩
    rw [hr] at hget
    by_cases hbeats : a.Beats p s
    · -- the event passes the comparison and fails to parse
      have hnone : a.parsed p = none := hrefused.resolve_right (not_not.mpr hbeats)
      have hdedup : deduplicate p a.event localNodeId a.now s = (.apply, s') := by
        cases found with
        | none => simp [deduplicate, ha.remote, ha.insert, hexpired, hr]
        | some l =>
          have hlt := hbeats l hget.symm
          simp [deduplicate, ha.remote, ha.insert, hexpired, hr, Nat.not_le.mpr hlt]
      have happly : applyEvent p a.event a.scan a.now s' = (false, s') := by
        by_cases hpayload : a.event.payload = []
        · simp [applyEvent, ha.insert, hpayload]
        · simp only [Arrival.parsed, hexpired, hpayload, Bool.false_eq_true, or_self,
            if_false] at hnone
          simp [applyEvent, ha.insert, hpayload, hnone]
      simp [accepts, receiveEvent, handleEvent, hdedup, happly]
    · have hlocal : ∃ l, s.entries.lookup (a.key p) = some l ∧
          a.event.timestampMs ≤ localTimestampMs l := by
        simpa only [Arrival.Beats, not_forall, not_lt, exists_prop] using hbeats
      obtain ⟨l, hl, hle⟩ := hlocal
      obtain rfl : found = some l := hget.trans hl
      have hdedup : deduplicate p a.event localNodeId a.now s = (.stale, s') := by
        simp [deduplicate, ha.remote, ha.insert, hexpired, hr, hle]
      simp [accepts, receiveEvent, handleEvent, hdedup]

theorem accepts_iff {localNodeId : String} {a : Arrival} (ha : RemoteInsert localNodeId a)
    {s : CacheStore} (hs : MapsToItself p a.event.queryKey s) :
    accepts p localNodeId s a = true ↔ (a.parsed p).isSome = true ∧ a.Beats p s := by
  constructor
  · intro haccepts
    by_contra hnot
    have hrefused : a.parsed p = none ∨ ¬ a.Beats p s := by
      rw [not_and_or, Bool.not_eq_true, Option.isSome_eq_false_iff,
        Option.isNone_iff_eq_none] at hnot
      exact hnot
    rw [(receiveEvent_refused ha hs hrefused).1] at haccepts
    cases haccepts
  · rintro ⟨hparsed, hbeats⟩
    obtain ⟨response, hresponse⟩ := Option.isSome_iff_exists.mp hparsed
    exact (receiveEvent_accepted ha hs hresponse hbeats).1

/-- The mappings after an event are those of the texts before it and of its own text. -/
theorem Recorded.receiveEvent {localNodeId : String} {a : Arrival}
    (ha : RemoteInsert localNodeId a) {texts : List String} {s : CacheStore}
    (hs : Recorded p texts s) (hmaps : MapsToItself p a.event.queryKey s)
    (htext : a.event.queryKey ∈ texts) : Recorded p texts (receiveEvent p localNodeId s a) := by
  have hget : Recorded p texts (s.get p a.event.queryKey).2 := by
    intro x m hx
    rcases mapsOnly_getWithHitType s a.event.queryKey x m hx with hold | hnew
    · exact hs x m hold
    · exact ⟨_, htext, hnew⟩
  cases hparsed : a.parsed p with
  | none =>
    rcases (receiveEvent_refused ha hmaps (Or.inl hparsed)).2 with heq | heq <;> rw [heq]
    · exact hs
    · exact hget
  | some response =>
    by_cases hbeats : a.Beats p s
    · rw [(receiveEvent_accepted ha hmaps hparsed hbeats).2]
      intro x m hx
      rcases exec_mapsOnly (p := p) (s.get p a.event.queryKey).2 ⟨a.now, a.scan,
        .insert a.event.queryKey response a.event.upstreamId⟩ rfl x m hx with hold | hnew
      · exact hget x m hold
      · exact ⟨_, htext, hnew⟩
    · rcases (receiveEvent_refused ha hmaps (Or.inr hbeats)).2 with heq | heq <;> rw [heq]
      · exact hs
      · exact hget

/-- The insertion of the event evicts nothing. -/
def Arrival.HasRoom (p : Platform) (s : CacheStore) (a : Arrival) : Prop :=
  ∀ response, a.parsed p = some response → ∀ k, ¬ Removable p (s.get p a.event.queryKey).2
    ⟨a.now, a.scan, .insert a.event.queryKey response a.event.upstreamId⟩ k

theorem hasRoom_of_parsed {s : CacheStore} {a : Arrival} {response : QueryResponse}
    (hparsed : a.parsed p = some response)
    (hvictims : (s.get p a.event.queryKey).2.roomVictims a.scan a.now a.event.upstreamId = [])
    (hfits : ∀ i ∈ insertions p (s.get p a.event.queryKey).2
      ⟨a.now, a.scan, .insert a.event.queryKey response a.event.upstreamId⟩, ¬ i.NeedsRoom p) :
    a.HasRoom p s := by
  intro response' hresponse k hremovable
  obtain rfl : response = response' := Option.some.inj (hparsed.symm.trans hresponse)
  rcases hremovable with hvictim | ⟨i, hi, hneeds⟩
  · rw [hvictims] at hvictim
    cases hvictim
  · exact hfits i hi hneeds

def responseAt (s : CacheStore) (k : QueryHash) : Option QueryResponse :=
  (s.entries.lookup k).map CacheEntry.response

theorem mem_iff_responseAt {s : CacheStore} {k : QueryHash} :
    k ∈ s.entries ↔ (responseAt s k).isSome = true := by
  rw [responseAt, Option.isSome_map, AList.lookup_isSome]

theorem Touched.responseAt {s s' : CacheStore} (h : Touched s s') (k : QueryHash) :
    responseAt s' k = responseAt s k := by
  have hlookup := congrArg (Option.map CacheEntry.response) (h.lookup k)
  rw [Option.map_map, Option.map_map] at hlookup
  exact hlookup

/-- An insertion that evicts nothing changes the response of its own key and no other. -/
theorem responseAt_insert {s : CacheStore} {scan : Scan} {now : Clock} {query upstreamId : String}
    {response : QueryResponse}
    (hroom : ∀ k, ¬ Removable p s ⟨now, scan, .insert query response upstreamId⟩ k)
    (k : QueryHash) :
    responseAt (s.insert p scan now query response upstreamId) k =
      if k = hashQuery p query then some response else responseAt s k := by
  have hwrites := exec_writes (p := p) s ⟨now, scan, .insert query response upstreamId⟩ rfl
  have hcontent (e' : CacheEntry)
      (hl : (s.insert p scan now query response upstreamId).entries.lookup k = some e') :=
    exec_content (p := p) s ⟨now, scan, .insert query response upstreamId⟩ hl
  change Writes p _ (some query) s [singleInsertion p s scan now (hashQuery p query) response
    upstreamId (some query) "default"] (s.insert p scan now query response upstreamId) at hwrites
  simp only [insertions, List.mem_singleton, exists_eq_left, forall_eq] at hcontent
  generalize s.insert p scan now query response upstreamId = s' at hwrites hcontent ⊢
  by_cases hk : k = hashQuery p query
  · have hmem : k ∈ s'.entries := by
      rw [hk]
      exact hwrites.mem_inserted (hroom _)
    obtain ⟨e', hl⟩ := WeightedTable.lookup_of_mem _ hmem
    rw [if_pos hk]
    rcases hcontent e' hl with ⟨-, hsame⟩ | ⟨hne, -⟩
    · simp only [responseAt, hl, Option.map_some, hsame.response]
      rfl
    · exact absurd hk hne
  · rw [if_neg hk]
    cases hl : s'.entries.lookup k with
    | none =>
      have hnot : k ∉ s.entries := by
        intro hmem
        exact AList.lookup_eq_none.mp hl (hwrites.mem (hroom k) hmem)
      simp [responseAt, hl, AList.lookup_eq_none.mpr hnot]
    | some e' =>
      rcases hcontent e' hl with ⟨heq, -⟩ | ⟨-, e, hold, hsame⟩
      · exact absurd heq hk
      · simp [responseAt, hl, hold, hsame.response]

/-- One event: a key that was there keeps its response or takes that of the event, a new key
takes that of the event, and no other key changes. -/
theorem responseAt_receiveEvent {localNodeId : String} {a : Arrival}
    (ha : RemoteInsert localNodeId a) {s : CacheStore} (hs : MapsToItself p a.event.queryKey s)
    (hroom : a.HasRoom p s) :
    (∀ k, k ≠ a.key p ∨ a.parsed p = none →
      responseAt (receiveEvent p localNodeId s a) k = responseAt s k) ∧
    (∀ response, a.parsed p = some response →
      (responseAt (receiveEvent p localNodeId s a) (a.key p)).isSome = true ∧
        (a.key p ∉ s.entries →
          responseAt (receiveEvent p localNodeId s a) (a.key p) = some response)) := by
  have htouched := touched_get (p := p) s a.event.queryKey
  have hrefused (h : a.parsed p = none ∨ ¬ a.Beats p s) (k : QueryHash) :
      responseAt (receiveEvent p localNodeId s a) k = responseAt s k := by
    rcases (receiveEvent_refused ha hs h).2 with heq | heq
    · rw [heq]
    · rw [heq]
      exact htouched.responseAt k
  cases hparsed : a.parsed p with
  | none => exact ⟨fun k _ => hrefused (Or.inl hparsed) k, fun response h => by cases h⟩
  | some response =>
    by_cases hbeats : a.Beats p s
    · have hinsert := responseAt_insert (hroom response hparsed)
      rw [← (receiveEvent_accepted ha hs hparsed hbeats).2] at hinsert
      refine ⟨fun k hk => ?_, fun response' heq => ?_⟩
      · have hne : k ≠ hashQuery p a.event.queryKey := hk.resolve_right (by simp)
        rw [hinsert, if_neg hne]
        exact htouched.responseAt k
      · cases heq
        rw [hinsert, Arrival.key, if_pos rfl]
        exact ⟨rfl, fun _ => rfl⟩
    · refine ⟨fun k _ => hrefused (Or.inr hbeats) k, fun response' _ => ?_⟩
      rw [hrefused (Or.inr hbeats)]
      have hmem : a.key p ∈ s.entries := by
        by_contra hnot
        refine hbeats fun l hl => ?_
        exact absurd (WeightedTable.mem_of_lookup _ hl) hnot
      exact ⟨mem_iff_responseAt.mp hmem, fun hnot => absurd hmem hnot⟩

def NoCollision (p : Platform) (texts : List String) : Prop :=
  ∀ text ∈ texts, ∀ other ∈ texts, hashQueryExact p text = hashQueryExact p other → text = other

/-- An event of the stream as the receiver knows it. -/
structure Delivered (localNodeId : String) (texts : List String) (x : Transfer) : Prop where
  remote : RemoteInsert localNodeId x.arrival
  text : x.arrival.event.queryKey ∈ texts

section Runs

variable {localNodeId : String} {texts : List String} (hfree : NoCollision p texts)
include hfree

theorem Delivered.maps {x : Transfer} (hx : Delivered localNodeId texts x) {s : CacheStore}
    (hs : Recorded p texts s) : MapsToItself p x.arrival.event.queryKey s :=
  hs.mapsToItself fun text htext => hfree text htext _ hx.text

theorem Delivered.recorded {x : Transfer} (hx : Delivered localNodeId texts x) {s : CacheStore}
    (hs : Recorded p texts s) : Recorded p texts (receiveTransfer p localNodeId s x) :=
  hs.receiveEvent hx.remote (hx.maps hfree hs) hx.text

/-- Keys that no readable event carries keep their response. -/
theorem responseAt_run {xs : List Transfer} (hxs : ∀ x ∈ xs, Delivered localNodeId texts x)
    {s : CacheStore} (hs : Recorded p texts s)
    (hroom : Machine.AllSteps (receiveTransfer p localNodeId)
      (fun s x => x.arrival.HasRoom p s) s xs) {k : QueryHash}
    (hk : k ∉ (xs.filter fun x => (x.arrival.parsed p).isSome).map fun x => x.arrival.key p) :
    responseAt (Machine.run (receiveTransfer p localNodeId) s xs) k = responseAt s k := by
  induction xs generalizing s with
  | nil => rfl
  | cons x rest ih =>
    have hx := hxs x (by simp)
    have hstep := (responseAt_receiveEvent hx.remote (hx.maps hfree hs) hroom.1).1 k
    have hkrest : k ∉ (rest.filter fun x => (x.arrival.parsed p).isSome).map
        fun x => x.arrival.key p := by
      intro hmem
      obtain ⟨y, hy, hyk⟩ := List.mem_map.mp hmem
      rw [List.mem_filter] at hy
      exact hk (List.mem_map.mpr ⟨y, List.mem_filter.mpr ⟨List.mem_cons_of_mem _ hy.1, hy.2⟩, hyk⟩)
    have hother : k ≠ x.arrival.key p ∨ x.arrival.parsed p = none := by
      by_contra hnot
      rw [not_or, not_ne_iff] at hnot
      refine hk (List.mem_map.mpr ⟨x, List.mem_filter.mpr ⟨by simp, ?_⟩, hnot.1.symm⟩)
      exact Option.isSome_iff_ne_none.mpr hnot.2
    have hrest := ih (fun y hy => hxs y (by simp [hy])) (hx.recorded hfree hs) hroom.2 hkrest
    exact hrest.trans (hstep hother)

/-- Different keys that are all new end with the responses of their events. -/
theorem responseAt_run_new {xs : List Transfer}
    (hxs : ∀ x ∈ xs, Delivered localNodeId texts x) {s : CacheStore} (hs : Recorded p texts s)
    (hroom : Machine.AllSteps (receiveTransfer p localNodeId)
      (fun s x => x.arrival.HasRoom p s) s xs)
    (hnodup : (xs.map fun x => x.arrival.key p).Nodup)
    (hnew : ∀ x ∈ xs, x.arrival.key p ∉ s.entries) {x : Transfer} (hx : x ∈ xs)
    {response : QueryResponse} (hparsed : x.arrival.parsed p = some response) :
    responseAt (Machine.run (receiveTransfer p localNodeId) s xs) (x.arrival.key p) =
      some response := by
  induction xs generalizing s with
  | nil => cases hx
  | cons y rest ih =>
    have hy := hxs y (by simp)
    rw [List.map_cons, List.nodup_cons] at hnodup
    obtain ⟨hothers, hown⟩ := responseAt_receiveEvent hy.remote (hy.maps hfree hs) hroom.1
    have hrest : ∀ z ∈ rest, Delivered localNodeId texts z := fun z hz => hxs z (by simp [hz])
    rcases List.mem_cons.mp hx with rfl | hx
    · have hlater : x.arrival.key p ∉ (rest.filter fun x => (x.arrival.parsed p).isSome).map
          fun x => x.arrival.key p := by
        intro hmem
        obtain ⟨z, hz, hzk⟩ := List.mem_map.mp hmem
        exact hnodup.1 (List.mem_map.mpr ⟨z, (List.mem_filter.mp hz).1, hzk⟩)
      have hafter := responseAt_run hfree hrest (hy.recorded hfree hs) hroom.2 hlater
      exact hafter.trans ((hown response hparsed).2 (hnew x (by simp)))
    · refine ih hrest (hy.recorded hfree hs) hroom.2 hnodup.2 (fun z hz => ?_) hx
      have hne : z.arrival.key p ≠ y.arrival.key p := by
        intro heq
        exact hnodup.1 (List.mem_map.mpr ⟨z, hz, heq⟩)
      have hkept := hothers (z.arrival.key p) (Or.inl hne)
      rw [mem_iff_responseAt]
      change ¬ (responseAt (receiveEvent p localNodeId s y.arrival) _).isSome = true
      rw [hkept, ← mem_iff_responseAt]
      exact hnew z (by simp [hz])

end Runs

/-! ## The transfer -/

theorem delivered_of_stream {source : CacheStore} {scan : Scan} {nodeId localNodeId : String}
    (hnode : nodeId ≠ localNodeId) {now : Clock} {transfers : List Transfer}
    (hstream : transfers.map (fun x => (x.entry, x.arrival.event)) =
      sourcedSnapshot p source scan nodeId now) (texts : List String) :
    ∀ x ∈ transfers, Delivered localNodeId
      (texts ++ transfers.map fun x => x.arrival.event.queryKey) x := by
  intro x hx
  have hmem : (x.entry, x.arrival.event) ∈ sourcedSnapshot p source scan nodeId now := by
    rw [← hstream]
    exact List.mem_map.mpr ⟨x, hx, rfl⟩
  obtain ⟨i, hi, heq⟩ := List.mem_mapIdx.mp hmem
  have hevent : snapshotEvent source nodeId now i _ = x.arrival.event := congrArg Prod.snd heq
  refine ⟨⟨?_, ?_⟩, List.mem_append_right _ (List.mem_map.mpr ⟨x, hx, rfl⟩)⟩
  · rw [← hevent]
    exact hnode
  · rw [← hevent]
    rfl

/-- The stream is as long as the source has entries when each of them serializes, and shorter
otherwise. -/
theorem length_stream {source : CacheStore} {scan : Scan} {nodeId : String} {now : Clock}
    {transfers : List Transfer}
    (hstream : transfers.map (fun x => (x.entry, x.arrival.event)) =
      sourcedSnapshot p source scan nodeId now) :
    transfers.length ≤ source.entries.keys.length ∧
      (transfers.length = source.entries.keys.length ↔
        ∀ x ∈ source.iter scan, (p.toVec x.2.response).isSome = true) := by
  have hiter : source.entries.keys.length = (source.iter scan).length := by
    rw [iter, (scan.perm _).length_eq, List.length_map]
    exact List.length_map _
  have hlen := congrArg List.length hstream
  rw [List.length_map, sourcedSnapshot, List.length_mapIdx] at hlen
  rw [hlen, hiter]
  refine ⟨List.length_filterMap_le _ _, List.filterMap_length_eq_length.trans ?_⟩
  simp only [Option.isSome_map, snapshotTuple]

/-- Every entry of the source serializes, its event arrives in time and reads back, the texts of
different entries hash differently, and what is read back is what the source holds under the
hash of the text. -/
structure TransfersWhole (p : Platform) (source : CacheStore) (scan : Scan)
    (transfers : List Transfer) : Prop where
  written : ∀ x ∈ source.iter scan, (p.toVec x.2.response).isSome = true
  read : ∀ x ∈ transfers, ∃ response, x.arrival.parsed p = some response ∧
    responseAt source (x.arrival.key p) = some response
  distinct : (transfers.map fun x => x.arrival.key p).Nodup

/-- The wall clock of the first entry is past that of the second. -/
def Later (l e : CacheEntry) : Prop := ∃ a ∈ l.cachedAtWall, ∃ b ∈ e.cachedAtWall, b < a

/-- No entry that is later than the one of the source is replaced. -/
def KeepsLater (p : Platform) (localNodeId : String) (s : CacheStore) (x : Transfer) : Prop :=
  ∀ l, s.entries.lookup (x.arrival.key p) = some l → Later l x.entry →
    accepts p localNodeId s x.arrival = false

/-- An entry that is later than the one of the source was stored after the stream had begun, or
the event is not readable. -/
def StoredSince (p : Platform) (s : CacheStore) (x : Transfer) : Prop :=
  ∀ l, s.entries.lookup (x.arrival.key p) = some l → Later l x.entry →
    x.arrival.parsed p = none ∨ x.arrival.event.timestampMs ≤ localTimestampMs l

theorem keepsLater_iff {localNodeId : String} {s : CacheStore} {x : Transfer}
    (hx : RemoteInsert localNodeId x.arrival) (hs : MapsToItself p x.arrival.event.queryKey s) :
    KeepsLater p localNodeId s x ↔ StoredSince p s x := by
  refine forall_congr' fun l => forall_congr' fun hl => forall_congr' fun _ => ?_
  have hbeats : x.arrival.Beats p s ↔ localTimestampMs l < x.arrival.event.timestampMs := by
    constructor
    · exact fun h => h l hl
    · intro hlt l' hl'
      obtain rfl : l = l' := Option.some.inj (hl.symm.trans hl')
      exact hlt
  rw [← Bool.not_eq_true, accepts_iff hx hs, hbeats, not_and_or, Bool.not_eq_true,
    Option.isSome_eq_false_iff, Option.isNone_iff_eq_none, not_lt]

theorem allSteps_keepsLater_iff {localNodeId : String} {texts : List String}
    (hfree : NoCollision p texts) {xs : List Transfer}
    (hxs : ∀ x ∈ xs, Delivered localNodeId texts x) {s : CacheStore}
    (hs : Recorded p texts s) :
    Machine.AllSteps (receiveTransfer p localNodeId) (KeepsLater p localNodeId) s xs ↔
      Machine.AllSteps (receiveTransfer p localNodeId) (StoredSince p) s xs := by
  induction xs generalizing s with
  | nil => exact Iff.rfl
  | cons x rest ih =>
    have hx := hxs x (by simp)
    exact and_congr (keepsLater_iff hx.remote (hx.maps hfree hs))
      (ih (fun y hy => hxs y (by simp [hy])) (hx.recorded hfree hs))

section Whole

variable {localNodeId : String} {texts : List String} {source receiver : CacheStore} {scan : Scan}
  {transfers : List Transfer} (hfree : NoCollision p texts)
  (hdelivered : ∀ x ∈ transfers, Delivered localNodeId texts x)
  (hrecorded : Recorded p texts receiver) (hempty : receiver.entries = ∅)
  (hroom : Machine.AllSteps (receiveTransfer p localNodeId)
    (fun s x => x.arrival.HasRoom p s) receiver transfers)
  (hlen : transfers.length ≤ source.entries.keys.length)
  (hwritten : transfers.length = source.entries.keys.length ↔
    ∀ x ∈ source.iter scan, (p.toVec x.2.response).isSome = true)
include hfree hdelivered hrecorded hempty hroom

theorem responseAt_whole (hnodup : (transfers.map fun x => x.arrival.key p).Nodup) {x : Transfer}
    (hx : x ∈ transfers) {response : QueryResponse} (hparsed : x.arrival.parsed p = some response) :
    responseAt (Machine.run (receiveTransfer p localNodeId) receiver transfers) (x.arrival.key p) =
      some response := by
  refine responseAt_run_new hfree hdelivered hrecorded hroom hnodup (fun y _ => ?_) hx hparsed
  rw [hempty]
  exact AList.notMem_empty _

include hwritten

theorem same_of_whole (hwhole : TransfersWhole p source scan transfers) (k : QueryHash) :
    responseAt (Machine.run (receiveTransfer p localNodeId) receiver transfers) k =
      responseAt source k := by
  -- the keys of the events are as many as the keys of the source, and all among them
  have hsub : (transfers.map fun x => x.arrival.key p) ⊆ source.entries.keys := by
    intro j hj
    obtain ⟨x, hx, rfl⟩ := List.mem_map.mp hj
    obtain ⟨response, -, hresponse⟩ := hwhole.read x hx
    exact mem_iff_responseAt.mpr (by rw [hresponse]; rfl)
  have hperm := (List.subperm_of_subset hwhole.distinct hsub).perm_of_length_le
    (by rw [List.length_map, hwritten.mpr hwhole.written])
  by_cases hk : k ∈ transfers.map fun x => x.arrival.key p
  · obtain ⟨x, hx, rfl⟩ := List.mem_map.mp hk
    obtain ⟨response, hparsed, hresponse⟩ := hwhole.read x hx
    rw [hresponse]
    exact responseAt_whole hfree hdelivered hrecorded hempty hroom hwhole.distinct hx hparsed
  · have hunread : k ∉ (transfers.filter fun x => (x.arrival.parsed p).isSome).map
        fun x => x.arrival.key p := by
      intro hmem
      obtain ⟨x, hx, hxk⟩ := List.mem_map.mp hmem
      exact hk (List.mem_map.mpr ⟨x, (List.mem_filter.mp hx).1, hxk⟩)
    have hsource : k ∉ source.entries := fun hmem => hk (hperm.mem_iff.mpr hmem)
    rw [responseAt_run hfree hdelivered hrecorded hroom hunread]
    simp [responseAt, hempty, AList.lookup_eq_none.mpr hsource]

include hlen

theorem whole_of_same
    (hsame : ∀ k, responseAt (Machine.run (receiveTransfer p localNodeId) receiver transfers) k =
      responseAt source k) : TransfersWhole p source scan transfers := by
  -- every key of the source comes from a readable event, and there are no more events than keys
  have hsub : source.entries.keys ⊆
      (transfers.filter fun x => (x.arrival.parsed p).isSome).map fun x => x.arrival.key p := by
    intro k hk
    by_contra hunread
    have hgone := responseAt_run hfree hdelivered hrecorded hroom hunread
    rw [hsame k] at hgone
    have hmem := mem_iff_responseAt.mp hk
    rw [hgone, ← mem_iff_responseAt, hempty] at hmem
    exact AList.notMem_empty _ hmem
  have hsubperm := List.subperm_of_subset source.entries.keys_nodup hsub
  have hkeys := hsubperm.length_le
  rw [List.length_map] at hkeys
  have hfilter := List.length_filter_le (fun x => (x.arrival.parsed p).isSome) transfers
  have hall : ∀ x ∈ transfers, (x.arrival.parsed p).isSome = true :=
    List.length_filter_eq_length_iff.mp (by omega)
  have hperm := hsubperm.perm_of_length_le (by rw [List.length_map]; omega)
  have hnodup := hperm.nodup source.entries.keys_nodup
  rw [List.filter_eq_self.mpr hall] at hnodup
  refine ⟨hwritten.mp (by omega), fun x hx => ?_, hnodup⟩
  obtain ⟨response, hparsed⟩ := Option.isSome_iff_exists.mp (hall x hx)
  refine ⟨response, hparsed, ?_⟩
  rw [← hsame]
  exact responseAt_whole hfree hdelivered hrecorded hempty hroom hnodup hx hparsed

end Whole

/-- A stream into an empty cache with room makes it a copy of the source exactly when the entries
transfer whole; and a stream into any reachable cache spares the later local entries exactly when
they were all stored after it had begun. -/
theorem snapshot_transfer_iff (p : Platform) (source : CacheStore) (scan : Scan)
    (nodeId localNodeId : String) (hnode : nodeId ≠ localNodeId) (now : Clock)
    (freshDuration staleDuration : Duration) (maxEntries : Nat) (ttlJitterPercent : ℚ)
    (calls : List Call) (transfers : List Transfer)
    (hstream : transfers.map (fun x => (x.entry, x.arrival.event)) =
      sourcedSnapshot p source scan nodeId now)
    (hfree : NoCollision p
      (mappedTexts calls ++ transfers.map fun x => x.arrival.event.queryKey)) :
    let receiver := Machine.run (exec p)
      (withJitter freshDuration staleDuration maxEntries ttlJitterPercent) calls
    (receiver.entries = ∅ →
      Machine.AllSteps (receiveTransfer p localNodeId) (fun s x => x.arrival.HasRoom p s) receiver
        transfers →
      ((∀ k, responseAt (Machine.run (receiveTransfer p localNodeId) receiver transfers) k =
        responseAt source k) ↔ TransfersWhole p source scan transfers)) ∧
    (Machine.AllSteps (receiveTransfer p localNodeId) (KeepsLater p localNodeId) receiver
        transfers ↔
      Machine.AllSteps (receiveTransfer p localNodeId) (StoredSince p) receiver transfers) := by
  intro receiver
  have hdelivered := delivered_of_stream hnode hstream (mappedTexts calls)
  have hrecorded : Recorded p (mappedTexts calls ++
      transfers.map fun x => x.arrival.event.queryKey) receiver := by
    have hrun := (recorded_withJitter (p := p) freshDuration staleDuration maxEntries
      ttlJitterPercent).run calls
    intro x m hx
    obtain ⟨text, htext, hmap⟩ := hrun x m hx
    exact ⟨text, List.mem_append_left _ htext, hmap⟩
  constructor
  · intro hempty hroom
    obtain ⟨hlen, hwritten⟩ := length_stream hstream
    exact ⟨whole_of_same hfree hdelivered hrecorded hempty hroom hlen hwritten,
      fun hwhole => same_of_whole hfree hdelivered hrecorded hempty hroom hwritten hwhole⟩
  · exact allSteps_keepsLater_iff hfree hdelivered hrecorded

def storedBy (s : CacheStore) (time : Nat) (op : Op) : CacheStore :=
  exec Platform.sample s ⟨⟨0, time * 1000000⟩, Scan.stored, op⟩

def streamedAt (source : CacheStore) (sent received : Nat) : List Transfer :=
  (sourcedSnapshot Platform.sample source Scan.stored "b" ⟨0, sent * 1000000⟩).map fun x =>
    ⟨x.1, arriveAt received x.2⟩

theorem streamedAt_events (source : CacheStore) (sent received : Nat) :
    (streamedAt source sent received).map (fun x => (x.entry, x.arrival.event)) =
      sourcedSnapshot Platform.sample source Scan.stored "b" ⟨0, sent * 1000000⟩ := by
  rw [streamedAt, List.map_map]
  exact List.map_id _

def emptyReceiver : CacheStore := withJitter 60000000000 60000000000 10 0

def storedText : CacheStore := storedBy emptyReceiver 0 (.insert "q" (textResponse "a") "u")

def storedTwo : CacheStore := storedBy storedText 0 (.insert "r" (textResponse "b") "u")

def storedHash : CacheStore :=
  storedBy emptyReceiver 0 (.insertByHash 5 (textResponse "a") "u" none)

def transferOf (sequence : Nat) (text : Option String) (content : String) : Transfer :=
  ⟨newEntry Platform.sample ⟨0, 0⟩ (textResponse content) "u" text "default",
    arriveAt 3 ⟨sequence, 2, .insert, text.getD "",
      textResponseHead ++ utf8 content ++ textResponseTail, "u", "", "b", 120002⟩⟩

theorem streamedAt_storedText : streamedAt storedText 2 3 = [transferOf 1 (some "q") "a"] := rfl

theorem streamedAt_storedTwo :
    streamedAt storedTwo 2 3 = [transferOf 1 (some "r") "b", transferOf 2 (some "q") "a"] := rfl

theorem streamedAt_storedHash : streamedAt storedHash 2 3 = [transferOf 1 none "a"] := rfl

theorem decodeText_encoded {content : String} (hcontent : textOfBytes (utf8 content) = content) :
    decodeText (textResponseHead ++ utf8 content ++ textResponseTail) =
      some (textResponse content) := by
  have hframe : textResponseHead <+: (textResponseHead ++ utf8 content ++ textResponseTail) ∧
      textResponseTail <:+ (textResponseHead ++ utf8 content ++ textResponseTail) := by
    rw [List.append_assoc]
    exact ⟨List.prefix_append _ _, (List.suffix_append _ _).trans (List.suffix_append _ _)⟩
  have hlength : (textResponseHead ++ utf8 content ++ textResponseTail).length -
      textResponseHead.length - textResponseTail.length = (utf8 content).length := by
    simp only [List.length_append]
    omega
  rw [decodeText, if_pos hframe, hlength, List.append_assoc, List.drop_left, List.take_left,
    hcontent]

theorem parsed_transferOf (sequence : Nat) (text : Option String) {content : String}
    (hcontent : textOfBytes (utf8 content) = content) :
    (transferOf sequence text content).arrival.parsed Platform.sample =
      some (textResponse content) := by
  have hlive : ¬ ((transferOf sequence text content).arrival.event.expiredAt
        (transferOf sequence text content).arrival.now = true ∨
      (transferOf sequence text content).arrival.event.payload = []) := by
    have hbytes : textResponseHead ≠ [] := by decide +kernel
    rw [CdcEvent.expiredAt, transferOf, arriveAt_nowMs]
    simp [arriveAt, hbytes]
  rw [Arrival.parsed, if_neg hlive]
  exact decodeText_encoded hcontent

theorem textOfBytes_letters :
    textOfBytes (utf8 "a") = "a" ∧ textOfBytes (utf8 "b") = "b" := by
  decide +kernel

theorem hasRoom_transferOf (text : Option String) (htext : text = some "q" ∨ text = none) :
    (transferOf 1 text "a").arrival.HasRoom Platform.sample emptyReceiver := by
  apply hasRoom_of_parsed (parsed_transferOf 1 text textOfBytes_letters.1)
  · rcases htext with rfl | rfl <;> decide +kernel
  · rcases htext with rfl | rfl <;> decide +kernel

theorem hasRoom_storedTwo :
    Machine.AllSteps (receiveTransfer Platform.sample "a")
      (fun s x => x.arrival.HasRoom Platform.sample s) emptyReceiver
      [transferOf 1 (some "r") "b", transferOf 2 (some "q") "a"] := by
  refine ⟨?_, ?_, trivial⟩
  · apply hasRoom_of_parsed (parsed_transferOf 1 (some "r") textOfBytes_letters.2) <;>
      decide +kernel
  · apply hasRoom_of_parsed (parsed_transferOf 2 (some "q") textOfBytes_letters.1) <;>
      decide +kernel

/-- A receiver that stored another text under one of the keys when the stream was made. -/
def laterReceiver : CacheStore := storedBy emptyReceiver 2 (.insert "q" (textResponse "c") "u")

theorem entries_transferred :
    (∀ k, responseAt (Machine.run (receiveTransfer Platform.sample "a") emptyReceiver
      (streamedAt storedTwo 2 3)) k = responseAt storedTwo k) ∧
    Machine.AllSteps (receiveTransfer Platform.sample "a") (KeepsLater Platform.sample "a")
      laterReceiver (streamedAt storedTwo 2 3) := by
  rw [streamedAt_storedTwo]
  have hwhole : TransfersWhole Platform.sample storedTwo Scan.stored
      [transferOf 1 (some "r") "b", transferOf 2 (some "q") "a"] := by
    refine ⟨by decide +kernel, ?_, by decide +kernel⟩
    rintro x (⟨⟩ | ⟨_, ⟨⟩ | ⟨_, ⟨⟩⟩⟩)
    · exact ⟨textResponse "b", parsed_transferOf 1 _ textOfBytes_letters.2, rfl⟩
    · exact ⟨textResponse "a", parsed_transferOf 2 _ textOfBytes_letters.1, rfl⟩
  have hsince : Machine.AllSteps (receiveTransfer Platform.sample "a") (StoredSince Platform.sample)
      laterReceiver [transferOf 1 (some "r") "b", transferOf 2 (some "q") "a"] := by
    refine ⟨?_, ?_, trivial⟩
    · intro l hl
      cases hl
    · intro l hl _
      have hstored : ((receiveTransfer Platform.sample "a" laterReceiver
          (transferOf 1 (some "r") "b")).entries.lookup ((transferOf 2 (some "q")
            "a").arrival.key Platform.sample)).map localTimestampMs = some 2 := by
        decide +kernel
      rw [hl, Option.map_some] at hstored
      exact .inr (Option.some.inj hstored).ge
  constructor
  · refine ((snapshot_transfer_iff Platform.sample storedTwo Scan.stored "b" "a" (by decide)
      ⟨0, 2000000⟩ 60000000000 60000000000 10 0 [] _ (streamedAt_events storedTwo 2 3)
      ?_).1 rfl hasRoom_storedTwo).2 hwhole
    unfold NoCollision
    decide +kernel
  · refine (snapshot_transfer_iff Platform.sample storedTwo Scan.stored "b" "a" (by decide)
      ⟨0, 2000000⟩ 60000000000 60000000000 10 0
      [⟨⟨0, 2000000⟩, Scan.stored, .insert "q" (textResponse "c") "u"⟩] _
      (streamedAt_events storedTwo 2 3) ?_).2.2 hsince
    unfold NoCollision
    decide +kernel

/-- The entry of a hash without a text arrives under the hash of the empty text, and an entry that
was stored one millisecond after that of the source gives way to it. -/
theorem snapshot_not_a_copy :
    (emptyReceiver.entries = ∅ ∧ Machine.AllSteps (receiveTransfer Platform.sample "a")
      (fun s x => x.arrival.HasRoom Platform.sample s) emptyReceiver (streamedAt storedHash 2 3) ∧
    ¬ ∀ k, responseAt (Machine.run (receiveTransfer Platform.sample "a") emptyReceiver
      (streamedAt storedHash 2 3)) k = responseAt storedHash k) ∧
    ¬ Machine.AllSteps (receiveTransfer Platform.sample "a") (KeepsLater Platform.sample "a")
      (storedBy emptyReceiver 1 (.insert "q" (textResponse "b") "u"))
      (streamedAt storedText 2 3) := by
  refine ⟨⟨rfl, ?_, ?_⟩, ?_⟩
  · rw [streamedAt_storedHash]
    exact ⟨hasRoom_transferOf _ (Or.inr rfl), trivial⟩
  · intro hcopy
    have hlost := congrArg Option.isSome (hcopy 5)
    revert hlost
    decide +kernel
  · rw [streamedAt_storedText]
    rintro ⟨hkeeps, -⟩
    have hrefused := hkeeps _ rfl ⟨1000000, rfl, 0, rfl, by decide⟩
    revert hrefused
    decide +kernel

end Conproxy
