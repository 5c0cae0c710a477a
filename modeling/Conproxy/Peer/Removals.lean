import Conproxy.Sample
import Conproxy.Cache.Events
import Conproxy.Cache.Keys
import Conproxy.Peer.Receiver

/-!
# What a replica makes of removals

The four removals of the store encode what they removed in the key of REMOVE events: the text
of an entry, the empty text for everything, and a count for a filtered eviction. `apply_event`
reads the first two back. A replica with the same keys follows exactly if every key is among
the removed ones just when an event hits it.
-/

namespace Conproxy

open CacheStore

set_option autoImplicit false

inductive Removal where
  | remove (query : String)
  | evictFromUpstream (upstreamId : String) (count : Nat)
  | evictFilter (criteria : EvictCriteria)
  | clear
deriving DecidableEq

section Replica

variable (p : Platform) (scan : Scan)

def Removal.exec (now : Clock) (s : CacheStore) : Removal → CacheStore
  | .remove query => s.remove p now query
  | .evictFromUpstream upstreamId count => (s.evictFromUpstream p scan now upstreamId count).2
  | .evictFilter criteria => (s.evictFilter p scan now criteria).2
  | .clear => s.clear now

/-- The events that the operation adds to the channel. -/
def Removal.events (now : Clock) (s : CacheStore) (op : Removal) : List CdcEvent :=
  (op.exec p scan now s).published.drop s.published.length

/-- A replica that applies events in order, reading its clock for each. -/
def applyEvents (clock : Nat → Clock) : List CdcEvent → Nat → CacheStore → CacheStore
  | [], _, replica => replica
  | event :: rest, i, replica =>
    applyEvents clock rest (i + 1) (applyEvent p event scan (clock i) replica).2

/-- After its own operation and after the events the two stores hold the same keys. -/
def Removal.Faithful (now : Clock) (clock : Nat → Clock) (s replica : CacheStore)
    (op : Removal) : Prop :=
  ∀ k, k ∈ (applyEvents p scan clock (op.events p scan now s) 0 replica).entries ↔
    k ∈ (op.exec p scan now s).entries

/-- The keys that the operation removes. -/
def Removal.removed (now : Clock) (s : CacheStore) : Removal → List QueryHash
  | .remove query => [hashQuery p query]
  | .evictFromUpstream upstreamId count => (s.upstreamHashes scan now upstreamId).take count
  | .evictFilter criteria => s.matchingHashes p scan now criteria
  | .clear => s.entries.keys

def textsOf (s : CacheStore) (hashes : List QueryHash) : List String :=
  (hashes.filterMap s.entries.lookup).filterMap CacheEntry.queryText

/-- The keys of the events that the operation publishes. -/
def Removal.texts (now : Clock) (s : CacheStore) : Removal → List String
  | .remove query => [query]
  | .evictFromUpstream upstreamId count =>
    textsOf s ((s.upstreamHashes scan now upstreamId).take count)
  | .evictFilter criteria =>
    match s.matchingHashes p scan now criteria with
    | [] => []
    | hashes => ["bulk:" ++ toString hashes.length]
  | .clear => [""]

/-- A REMOVE event with this key hits a stored hash. -/
def Hits (text : String) (k : QueryHash) : Prop := text = "" ∨ hashQuery p text = k

end Replica

variable {p : Platform} {scan : Scan} {now : Clock}

theorem mem_exec (s : CacheStore) (op : Removal) (k : QueryHash) :
    k ∈ (op.exec p scan now s).entries ↔ k ∈ s.entries ∧ k ∉ op.removed p scan now s := by
  cases op with
  | remove query =>
    rw [Removal.removed, List.mem_singleton]
    exact mem_trackedRemove s (hashQuery p query) k
  | evictFromUpstream upstreamId count =>
    have hkeys := mem_removeAll (p := p) ((s.upstreamHashes scan now upstreamId).take count) s k
    simp only [Removal.exec, Removal.removed, evictFromUpstream]
    split
    case isTrue hzero => simp [hzero]
    case isFalse =>
      dsimp only
      split
      · exact (congrArg (k ∈ ·) (entries_publishRemoves _ _)).to_iff.trans hkeys
      · exact (congrArg (k ∈ ·) (entries_publishRemoves _ _)).to_iff.trans hkeys
  | evictFilter criteria =>
    have hkeys := mem_removeAll (p := p) (s.matchingHashes p scan now criteria) s k
    simp only [Removal.exec, Removal.removed, evictFilter]
    split
    · exact hkeys
    · exact hkeys
  | clear =>
    refine iff_of_false (AList.notMem_empty k) ?_
    rintro ⟨hk, hnot⟩
    exact hnot (AList.mem_keys.2 hk)

/-- The store after an operation that published REMOVE events with these keys, as far as it
has a sender. -/
def SendsRemoves (s s' : CacheStore) (texts : List String) : Prop :=
  ∃ events, s'.published = s.published ++ events ∧
    (∀ event ∈ events, event.eventType = .remove) ∧
    events.map CdcEvent.queryKey = if s.cdcSender.isSome then texts else []

theorem SendsRemoves.of_sender {s s' : CacheStore} (h : s'.cdcSender = s.cdcSender) :
    SendsRemoves s s' [] := by
  refine ⟨[], ?_, by simp, by simp⟩
  rw [published, h, List.append_nil, published]

theorem SendsRemoves.publish {s s' : CacheStore} (h : s'.cdcSender = s.cdcSender) (text : String) :
    SendsRemoves s (s'.publish now .remove (.remove text)) [text] := by
  unfold SendsRemoves published CacheStore.publish
  simp only [h]
  cases s.cdcSender with
  | none => exact ⟨[], by simp⟩
  | some sender =>
    exact ⟨[sender.stamp now.nowMs .remove (.remove text)], by simp [EventSender.stamp,
      CdcEventBuilder.remove]⟩

theorem SendsRemoves.trans {s s' s'' : CacheStore} {first rest : List String}
    (h : SendsRemoves s s' first) (hsender : s'.cdcSender.isSome = s.cdcSender.isSome)
    (h' : SendsRemoves s' s'' rest) : SendsRemoves s s'' (first ++ rest) := by
  obtain ⟨events, hpub, htype, hkeys⟩ := h
  obtain ⟨events', hpub', htype', hkeys'⟩ := h'
  refine ⟨events ++ events', by rw [hpub', hpub, List.append_assoc], ?_, ?_⟩
  · intro event hevent
    rcases List.mem_append.1 hevent with hevent | hevent
    · exact htype event hevent
    · exact htype' event hevent
  · rw [List.map_append, hkeys, hkeys', hsender]
    split <;> rfl

theorem publishes_publishRemoves (now : Clock) (texts : List String) (s : CacheStore) :
    SendsRemoves s (publishRemoves now texts s) texts := by
  induction texts generalizing s with
  | nil => exact .of_sender rfl
  | cons text rest ih =>
    have hfirst : SendsRemoves s (s.publish now .remove (.remove text)) [text] :=
      SendsRemoves.publish rfl text
    exact hfirst.trans (isSome_publish s now _ _) (ih (s.publish now .remove (.remove text)))

theorem publishes_removes (now : Clock) {s s' : CacheStore} (h : s'.cdcSender = s.cdcSender)
    (texts : List String) :
    SendsRemoves s (publishRemoves now (if s.cdcSender.isSome then texts else []) s') texts := by
  have hsome : s'.cdcSender.isSome = s.cdcSender.isSome := congrArg Option.isSome h
  obtain ⟨events, hpub, htype, hkeys⟩ := (SendsRemoves.of_sender h).trans hsome
    (publishes_publishRemoves now (if s.cdcSender.isSome then texts else []) s')
  refine ⟨events, hpub, htype, hkeys.trans ?_⟩
  split <;> rfl

theorem publishes_exec (s : CacheStore) (op : Removal) :
    SendsRemoves s (op.exec p scan now s) (op.texts p scan now s) := by
  cases op with
  | remove query =>
    have hsender : (s.trackedRemove p (hashQuery p query)).2.cdcSender = s.cdcSender :=
      cdcSender_of_frame (frame_trackedRemove s _)
    exact SendsRemoves.publish hsender query
  | evictFromUpstream upstreamId count =>
    have hnodup : ((s.upstreamHashes scan now upstreamId).take count).Nodup :=
      (nodup_upstreamHashes s upstreamId).sublist (List.take_sublist count _)
    have hfst := removeAll_fst (p := p) hnodup s
    have hsender := cdcSender_removeAll (p := p)
      ((s.upstreamHashes scan now upstreamId).take count) s
    simp only [Removal.exec, Removal.texts, evictFromUpstream]
    split
    case isTrue hzero =>
      rw [hzero, List.take_zero]
      exact .of_sender rfl
    case isFalse =>
      have hremoves := publishes_removes now hsender (textsOf s
        ((s.upstreamHashes scan now upstreamId).take count))
      rw [hfst]
      split
      · exact hremoves
      · exact hremoves
  | evictFilter criteria =>
    have hsender := cdcSender_removeAll (p := p) (s.matchingHashes p scan now criteria) s
    have hmem : ∀ k ∈ s.matchingHashes p scan now criteria, k ∈ s.entries :=
      fun k hk => mem_of_mem_matchingHashes hk
    have hlength := length_removeAll (p := p) (nodup_matchingHashes s criteria) s hmem
    simp only [Removal.exec, Removal.texts, evictFilter]
    rw [hlength]
    cases hhashes : s.matchingHashes p scan now criteria with
    | nil => exact .of_sender rfl
    | cons h rest =>
      rw [hhashes] at hsender
      rw [if_pos (by simp)]
      exact SendsRemoves.publish hsender _
  | clear => exact SendsRemoves.publish rfl ""

theorem mem_applyEvent {event : CdcEvent} (htype : event.eventType = .remove)
    (replica : CacheStore) (k : QueryHash) :
    k ∈ (applyEvent p event scan now replica).2.entries ↔
      k ∈ replica.entries ∧ ¬ Hits p event.queryKey k := by
  unfold applyEvent Hits
  rw [htype]
  dsimp only
  split
  case isTrue hempty =>
    refine iff_of_false (AList.notMem_empty k) ?_
    simp [hempty]
  case isFalse hsome =>
    simp only [hsome, false_or]
    rw [← ne_eq, ne_comm]
    exact mem_trackedRemove replica (hashQuery p event.queryKey) k

theorem mem_applyEvents {clock : Nat → Clock} {events : List CdcEvent}
    (htype : ∀ event ∈ events, event.eventType = .remove) (i : Nat) (replica : CacheStore)
    (k : QueryHash) :
    k ∈ (applyEvents p scan clock events i replica).entries ↔
      k ∈ replica.entries ∧ ∀ text ∈ events.map CdcEvent.queryKey, ¬ Hits p text k := by
  induction events generalizing i replica with
  | nil => simp [applyEvents]
  | cons event rest ih =>
    rw [List.forall_mem_cons] at htype
    rw [applyEvents, ih htype.2, mem_applyEvent htype.1, List.map_cons, List.forall_mem_cons,
      and_assoc]

/-- A replica with the same keys follows exactly if the events hit the removed keys. -/
theorem faithful_iff_hits {clock : Nat → Clock} {s replica : CacheStore}
    (hsame : ∀ k, k ∈ replica.entries ↔ k ∈ s.entries) (op : Removal) :
    op.Faithful p scan now clock s replica ↔
      ∀ k ∈ s.entries, k ∈ op.removed p scan now s ↔
        s.cdcSender.isSome = true ∧ ∃ text ∈ op.texts p scan now s, Hits p text k := by
  have hpublishes : SendsRemoves s (op.exec p scan now s) (op.texts p scan now s) :=
    publishes_exec s op
  obtain ⟨events, hpub, htype, hkeys⟩ := hpublishes
  have hevents : op.events p scan now s = events := by
    rw [Removal.events, hpub, List.drop_left]
  unfold Removal.Faithful
  rw [hevents]
  simp only [mem_applyEvents htype, hsame, hkeys, mem_exec]
  refine forall_congr' fun k => ?_
  rw [and_congr_right_iff]
  refine imp_congr_right fun _ => ?_
  rw [← not_iff_not (a := k ∈ _)]
  refine Iff.comm.trans (iff_congr Iff.rfl ?_)
  cases s.cdcSender.isSome with
  | false => simp
  | true => simp

/-- When a removal can be read back from its events. Without a sender nothing may go. The
empty text stands for everything. An upstream's entries have to lie under the hashes of their
texts, and a batch of a filtered eviction can only be the query that its count spells. -/
def Removal.Decodes (p : Platform) (scan : Scan) (now : Clock) (s : CacheStore)
    (op : Removal) : Prop :=
  if s.cdcSender.isSome then
    match op with
    | .remove query => query = "" → ∀ k ∈ s.entries, k = hashQuery p ""
    | .evictFromUpstream upstreamId count =>
      let evicted := (s.upstreamHashes scan now upstreamId).take count
      if "" ∈ textsOf s evicted then ∀ k ∈ s.entries, k ∈ evicted
      else ∀ k ∈ s.entries, k ∈ evicted ↔ k ∈ (textsOf s evicted).map (hashQuery p)
    | .evictFilter criteria =>
      s.matchingHashes p scan now criteria = [] ∨
        s.matchingHashes p scan now criteria = [hashQuery p "bulk:1"]
    | .clear => True
  else ∀ k ∈ s.entries, k ∉ op.removed p scan now s

theorem exists_hits_iff {texts : List String} (hempty : "" ∉ texts) (k : QueryHash) :
    (∃ text ∈ texts, Hits p text k) ↔ k ∈ texts.map (hashQuery p) := by
  rw [List.mem_map]
  refine exists_congr fun text => and_congr_right fun htext => ?_
  unfold Hits
  refine or_iff_right ?_
  rintro rfl
  exact hempty htext

theorem bulk_ne_empty (n : Nat) : "bulk:" ++ toString n ≠ "" := by
  intro h
  have hlength := congrArg String.length h
  rw [String.length_append] at hlength
  exact absurd hlength (by simp)

/-- One event for a whole batch hits one key at most. -/
theorem bulk_hits_iff {hashes : List QueryHash} (hnodup : hashes.Nodup) (s : CacheStore)
    (hmem : ∀ k ∈ hashes, k ∈ s.entries) (hne : hashes ≠ []) :
    (∀ k ∈ s.entries, k ∈ hashes ↔
      hashQuery p ("bulk:" ++ toString hashes.length) = k) ↔
      hashes = [hashQuery p "bulk:1"] := by
  have htext : "bulk:" ++ toString 1 = "bulk:1" := by decide
  constructor
  · intro h
    cases hashes with
    | nil => exact absurd rfl hne
    | cons a rest =>
      have hall : ∀ k ∈ a :: rest, hashQuery p ("bulk:" ++ toString (a :: rest).length) = k :=
        fun k hk => (h k (hmem k hk)).1 hk
      rw [List.nodup_cons] at hnodup
      cases rest with
      | nil =>
        have ha := hall a List.mem_cons_self
        rw [List.length_singleton, htext] at ha
        rw [ha]
      | cons b rest =>
        have hab : a = b := (hall a List.mem_cons_self).symm.trans (hall b (by simp))
        exact absurd (hab ▸ List.mem_cons_self) hnodup.1
  · intro h k hk
    rw [h, List.mem_singleton, List.length_singleton, htext]
    exact eq_comm

/-- An upstream's eviction can be read back if every entry lies under the hash of a non-empty
text of its own, as the insertions of queries leave it. -/
theorem decodes_evictFromUpstream {s : CacheStore} (hsender : s.cdcSender.isSome = true)
    (hown : ∀ h e, s.entries.lookup h = some e →
      ∃ text, e.queryText = some text ∧ text ≠ "" ∧ hashQuery p text = h)
    (upstreamId : String) (count : Nat) :
    (Removal.evictFromUpstream upstreamId count).Decodes p scan now s := by
  have htexts : ∀ hashes text, text ∈ textsOf s hashes →
      text ≠ "" ∧ hashQuery p text ∈ hashes := by
    intro hashes text htext
    obtain ⟨e, he, hq⟩ := List.mem_filterMap.1 htext
    obtain ⟨h, hh, hl⟩ := List.mem_filterMap.1 he
    obtain ⟨text', hq', hne, hhash⟩ := hown h e hl
    obtain rfl : text' = text := Option.some.inj (hq'.symm.trans hq)
    exact ⟨hne, hhash ▸ hh⟩
  unfold Removal.Decodes
  rw [if_pos hsender]
  dsimp only
  rw [if_neg fun h => (htexts _ _ h).1 rfl]
  intro k hk
  constructor
  · intro hevicted
    obtain ⟨e, hl⟩ := WeightedTable.lookup_of_mem s.entries hk
    obtain ⟨text, hq, -, hhash⟩ := hown k e hl
    have he : e ∈ ((s.upstreamHashes scan now upstreamId).take count).filterMap
        s.entries.lookup := List.mem_filterMap.2 ⟨k, hevicted, hl⟩
    exact List.mem_map.2 ⟨text, List.mem_filterMap.2 ⟨e, he, hq⟩, hhash⟩
  · intro htext
    obtain ⟨text, hmem, rfl⟩ := List.mem_map.1 htext
    exact (htexts _ _ hmem).2

theorem removal_faithful_iff (p : Platform) (scan : Scan) (now : Clock) (clock : Nat → Clock)
    (s replica : CacheStore) (op : Removal)
    (hsame : ∀ k, k ∈ replica.entries ↔ k ∈ s.entries) :
    op.Faithful p scan now clock s replica ↔ op.Decodes p scan now s := by
  rw [faithful_iff_hits hsame]
  unfold Removal.Decodes
  split
  case isFalse hsender => simp [hsender]
  case isTrue hsender =>
    simp only [hsender, true_and]
    cases op with
    | remove query =>
      simp only [Removal.removed, Removal.texts, List.mem_singleton, exists_eq_left, Hits]
      by_cases hempty : query = ""
      · simp [hempty]
      · simp [hempty, eq_comm]
    | clear =>
      simp [Removal.removed, Removal.texts, Hits, AList.mem_keys]
    | evictFromUpstream upstreamId count =>
      simp only [Removal.removed, Removal.texts]
      split
      case isTrue hempty =>
        refine forall₂_congr fun k _ => iff_true_right ?_
        exact ⟨"", hempty, .inl rfl⟩
      case isFalse hempty => simp only [exists_hits_iff hempty]
    | evictFilter criteria =>
      have hnodup : (s.matchingHashes p scan now criteria).Nodup := nodup_matchingHashes s criteria
      have hmem : ∀ k ∈ s.matchingHashes p scan now criteria, k ∈ s.entries :=
        fun k hk => mem_of_mem_matchingHashes hk
      simp only [Removal.removed, Removal.texts]
      generalize s.matchingHashes p scan now criteria = hashes at hnodup hmem ⊢
      cases hashes with
      | nil => simp
      | cons h rest =>
        rw [or_iff_right (List.cons_ne_nil h rest),
          ← bulk_hits_iff hnodup s hmem (List.cons_ne_nil h rest)]
        simp only [List.mem_singleton, exists_eq_left, Hits, bulk_ne_empty, false_or]

/-- A cache with one entry, on a node that broadcasts and on one that does not. -/
def oneEntry (sender : Option EventSender) : CacheStore :=
  ({ CacheStore.new 60000000000 60000000000 10 with cdcSender := sender }).insert Platform.sample
    Scan.stored ⟨0, 0⟩ "q" (textResponse "x") "u"

theorem removed_text_followed :
    (∀ k, k ∈ (oneEntry none).entries ↔ k ∈ (oneEntry (some (.new "a"))).entries) ∧
    (Removal.remove "q").Faithful Platform.sample Scan.stored ⟨0, 0⟩ (fun _ => ⟨0, 0⟩)
      (oneEntry (some (.new "a"))) (oneEntry none) := by
  have hsame : ∀ k, k ∈ (oneEntry none).entries ↔ k ∈ (oneEntry (some (.new "a"))).entries :=
    fun _ => Iff.rfl
  refine ⟨hsame, (removal_faithful_iff _ _ _ _ _ _ _ hsame).2 ?_⟩
  intro hempty
  exact absurd hempty (by decide)

/-- The replica keeps the entries of a filtered eviction. -/
theorem filtered_eviction_lost :
    ¬ ∀ (p : Platform) (scan : Scan) (now : Clock) (clock : Nat → Clock)
      (s replica : CacheStore) (op : Removal), s.cdcSender.isSome = true →
      replica.entries = s.entries →
      (∀ k e, s.entries.lookup k = some e → e.queryText.isSome = true) →
      op.Faithful p scan now clock s replica := by
  intro h
  have htexts : ∀ k e, (oneEntry (some (.new "a"))).entries.lookup k = some e →
      e.queryText.isSome = true := by
    intro k e hl
    have hall : ∀ entry ∈ (oneEntry (some (.new "a"))).entries.entries,
        entry.2.queryText.isSome = true := by decide +kernel
    exact hall ⟨k, e⟩ (AList.mem_lookup_iff.1 hl)
  have hfaithful := h Platform.sample Scan.stored ⟨0, 0⟩ (fun _ => ⟨0, 0⟩)
    (oneEntry (some (.new "a"))) (oneEntry none) (.evictFilter ⟨none, none, none, none⟩) rfl rfl
    htexts (hashQuery Platform.sample "q")
  exact absurd (hfaithful.1 (by decide +kernel)) (by decide +kernel)

end Conproxy
