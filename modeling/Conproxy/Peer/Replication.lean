import Conproxy.Peer.Join

/-!
# Replication

A node with all its tasks acts on its cache as one caller: every run is a run of calls and events,
of which each receiver has a share of its own. A receiver's share is what its peer has sent, and
a peer whose snapshot is whole makes the node a copy of itself.
-/

namespace Conproxy

open CacheStore

set_option autoImplicit false

variable {p : Platform} {atLeast : Nat → Nat → Bool}

/-- A call, or an event of the snapshot or of a receiver. -/
inductive CacheStep where
  | call (call : Call)
  | loaded (a : Arrival)
  | received (i : Nat) (a : Arrival)

def CacheStep.receivedAt (i : Nat) : CacheStep → Option Arrival
  | .received j a => if j = i then some a else none
  | _ => none

def cacheStep (p : Platform) (localNodeId : String) (s : CacheStore) : CacheStep → CacheStore
  | .call call => exec p s call
  | .loaded a => receiveEvent p localNodeId s a
  | .received _ a => receiveEvent p localNodeId s a

/-- The messages that a receiver gets. -/
def PeerStep.messagesAt (i : Nat) : PeerStep → List Message
  | .received j m => if j = i then [m] else []
  | _ => []

def PeerNode.cacheSteps (n : PeerNode) : PeerStep → List CacheStep
  | .call call => [.call call]
  | .received i m => if i < n.receivers.length then m.arrival.toList.map (.received i) else []
  | .receiverFailed _ => []
  | .join (.message m) =>
    match n.task.map JoinTask.phase with
    | some (.streaming _) => m.arrival.toList.map .loaded
    | _ => []
  | .join _ => []

/-- The events that are sent to a subscriber of everything before it is gone. -/
def delivered : List Received → List CdcEvent
  | [] => []
  | .event event connected :: rest => if connected then event :: delivered rest else []
  | .lagged _ :: rest => delivered rest
  | .closed :: _ => []

theorem subscribe_all (consumerId : String) (received : List Received) :
    CdcServiceImpl.subscribe ⟨consumerId, []⟩ received =
      (delivered received).map internalToProto := by
  change CdcServiceImpl.forward [] received = _
  induction received with
  | nil => rfl
  | cons r rest ih =>
    cases r with
    | event event connected =>
      cases connected with
      | true => exact congrArg (internalToProto event :: ·) ih
      | false => rfl
    | lagged skipped => exact ih
    | closed => rfl

namespace PeerNode

variable {n : PeerNode}

theorem nextPeer_eq (n : PeerNode) (peers : List String) :
    (n.nextPeer peers).cache = n.cache ∧ (n.nextPeer peers).nodeId = n.nodeId ∧
      (n.nextPeer peers).receivers = n.receivers := by
  cases peers with
  | nil => exact ⟨rfl, rfl, rfl⟩
  | cons peerAddr rest => exact ⟨rfl, rfl, rfl⟩

/-- Of the events of the join task only the messages of the stream reach the cache, and none of
them changes anything else than the task and the state. -/
theorem joinStep_eq (n : PeerNode) (e : JoinEvent) :
    (n.joinStep p atLeast e).cache =
        Machine.run (cacheStep p n.nodeId) n.cache (n.cacheSteps (.join e)) ∧
      (n.joinStep p atLeast e).nodeId = n.nodeId ∧
      (n.joinStep p atLeast e).receivers = n.receivers := by
  cases htask : n.task with
  | none =>
    rw [joinStep_of_none htask, cacheSteps.eq_def]
    cases e <;> simp [htask]
  | some task =>
    obtain ⟨peerAddr, rest, phase⟩ := task
    unfold joinStep
    rw [htask, cacheSteps.eq_def, htask]
    cases phase with
    | requesting =>
      cases e with
      | requested ok =>
        cases ok with
        | true => exact ⟨rfl, rfl, rfl⟩
        | false => exact n.nextPeer_eq rest
      | message m => exact ⟨rfl, rfl, rfl⟩
      | ended ok => exact ⟨rfl, rfl, rfl⟩
      | parityChecked remote => exact ⟨rfl, rfl, rfl⟩
    | streaming applied =>
      cases e with
      | requested ok => exact ⟨rfl, rfl, rfl⟩
      | message m =>
        dsimp only [load, Option.map_some]
        cases m.arrival with
        | none => exact ⟨rfl, rfl, rfl⟩
        | some a => exact ⟨rfl, rfl, rfl⟩
      | ended ok =>
        cases ok with
        | true => exact ⟨rfl, rfl, rfl⟩
        | false => exact n.nextPeer_eq rest
      | parityChecked remote => exact ⟨rfl, rfl, rfl⟩
    | checking applied =>
      cases e with
      | requested ok => exact ⟨rfl, rfl, rfl⟩
      | message m => exact ⟨rfl, rfl, rfl⟩
      | ended ok => exact ⟨rfl, rfl, rfl⟩
      | parityChecked remote =>
        cases remote with
        | none => exact n.nextPeer_eq rest
        | some remote =>
          dsimp only
          split
          · exact ⟨rfl, rfl, rfl⟩
          · exact n.nextPeer_eq rest

theorem handle_eq (stats : PeerReplicationStats) (localNodeId : String) (cache : CacheStore)
    (m : Message) : (stats.handle p localNodeId cache m).1 =
      Machine.run (receiveEvent p localNodeId) cache m.arrival.toList ∧
    (stats.handle p localNodeId cache m).2.eventsReceived = stats.eventsReceived ∧
    (stats.handle p localNodeId cache m).2.eventsApplied +
        (stats.handle p localNodeId cache m).2.eventsSkipped =
      stats.eventsApplied + stats.eventsSkipped + UInt64.ofNat m.arrival.toList.length := by
  unfold PeerReplicationStats.handle
  cases m.arrival with
  | none => exact ⟨rfl, rfl, (UInt64.add_zero _).symm⟩
  | some a =>
    refine ⟨rfl, ?_, ?_⟩
    · dsimp only
      split <;> rfl
    · dsimp only
      split
      · rw [UInt64.add_assoc, UInt64.add_comm 1, ← UInt64.add_assoc]
        rfl
      · exact (UInt64.add_assoc _ _ _).symm

theorem run_map_received (localNodeId : String) (i : Nat) (cache : CacheStore)
    (arrivals : List Arrival) :
    Machine.run (cacheStep p localNodeId) cache (arrivals.map (.received i)) =
      Machine.run (receiveEvent p localNodeId) cache arrivals := by
  induction arrivals generalizing cache with
  | nil => rfl
  | cons a rest ih => exact ih (receiveEvent p localNodeId cache a)

theorem step_eq (n : PeerNode) (e : PeerStep) :
    (n.step p atLeast e).cache =
        Machine.run (cacheStep p n.nodeId) n.cache (n.cacheSteps e) ∧
      (n.step p atLeast e).nodeId = n.nodeId ∧
      (n.step p atLeast e).receivers.length = n.receivers.length := by
  cases e with
  | call call => exact ⟨rfl, rfl, rfl⟩
  | received i m =>
    unfold step receive cacheSteps
    dsimp only
    by_cases hi : i < n.receivers.length
    · rw [List.getElem?_eq_getElem hi, if_pos hi, run_map_received]
      exact ⟨(handle_eq _ n.nodeId n.cache m).1, rfl, List.length_set⟩
    · rw [List.getElem?_eq_none (Nat.le_of_not_lt hi), if_neg hi]
      exact ⟨rfl, rfl, rfl⟩
  | receiverFailed i =>
    unfold step receiverFailed
    dsimp only
    cases n.receivers[i]? with
    | none => exact ⟨rfl, rfl, rfl⟩
    | some stats => exact ⟨rfl, rfl, List.length_set⟩
  | join e =>
    obtain ⟨hcache, hnodeId, hreceivers⟩ := n.joinStep_eq e
    exact ⟨hcache, hnodeId, congrArg List.length hreceivers⟩

/-- A step counts the messages that it hands to a receiver. -/
theorem counters_step (n : PeerNode) {i : Nat} {stats : PeerReplicationStats}
    (h : n.receivers[i]? = some stats) (e : PeerStep) :
    ∃ stats', (n.step p atLeast e).receivers[i]? = some stats' ∧
      stats'.eventsReceived = stats.eventsReceived + UInt64.ofNat (e.messagesAt i).length ∧
      stats'.eventsApplied + stats'.eventsSkipped = stats.eventsApplied + stats.eventsSkipped +
        UInt64.ofNat ((e.messagesAt i).filterMap Message.arrival).length := by
  have hsame : stats.eventsReceived = stats.eventsReceived + UInt64.ofNat 0 ∧
      stats.eventsApplied + stats.eventsSkipped =
        stats.eventsApplied + stats.eventsSkipped + UInt64.ofNat 0 :=
    ⟨(UInt64.add_zero _).symm, (UInt64.add_zero _).symm⟩
  cases e with
  | call call => exact ⟨stats, h, hsame⟩
  | join e => exact ⟨stats, (n.joinStep_eq e).2.2 ▸ h, hsame⟩
  | receiverFailed j =>
    unfold step receiverFailed
    dsimp only
    by_cases hj : j = i
    · subst hj
      rw [h]
      exact ⟨_, List.getElem?_set_self (List.getElem?_eq_some_iff.mp h).1, hsame⟩
    · refine ⟨stats, ?_, hsame⟩
      cases n.receivers[j]? with
      | none => exact h
      | some other => exact (List.getElem?_set_ne hj).trans h
  | received j m =>
    unfold step receive PeerStep.messagesAt
    dsimp only
    by_cases hj : j = i
    · subst hj
      rw [h, if_pos rfl]
      obtain ⟨-, hreceived, hboth⟩ : _ = Machine.run (receiveEvent p n.nodeId) n.cache _ ∧ _ :=
        handle_eq { stats with eventsReceived := stats.eventsReceived + 1 } n.nodeId n.cache m
      refine ⟨_, List.getElem?_set_self (List.getElem?_eq_some_iff.mp h).1, hreceived, ?_⟩
      rw [hboth]
      cases harrival : m.arrival with
      | none => simp [harrival]
      | some a => simp [harrival]
    · rw [if_neg hj]
      refine ⟨stats, ?_, hsame⟩
      cases n.receivers[j]? with
      | none => exact h
      | some other => exact (List.getElem?_set_ne hj).trans h

theorem counters_run {i : Nat} {stats : PeerReplicationStats} (h : n.receivers[i]? = some stats)
    (steps : List PeerStep) :
    ∃ stats', (Machine.run (PeerNode.step p atLeast) n steps).receivers[i]? = some stats' ∧
      stats'.eventsReceived = stats.eventsReceived +
        UInt64.ofNat (steps.flatMap (PeerStep.messagesAt i)).length ∧
      stats'.eventsApplied + stats'.eventsSkipped = stats.eventsApplied + stats.eventsSkipped +
        UInt64.ofNat
          ((steps.flatMap (PeerStep.messagesAt i)).filterMap Message.arrival).length := by
  induction steps generalizing n stats with
  | nil => exact ⟨stats, h, (UInt64.add_zero _).symm, (UInt64.add_zero _).symm⟩
  | cons e steps ih =>
    obtain ⟨stats₁, h₁, hreceived₁, hboth₁⟩ := n.counters_step h e
    obtain ⟨stats₂, h₂, hreceived₂, hboth₂⟩ := ih h₁
    refine ⟨stats₂, h₂, ?_, ?_⟩
    · rw [hreceived₂, hreceived₁, List.flatMap_cons, List.length_append, UInt64.ofNat_add,
        UInt64.add_assoc]
    · rw [hboth₂, hboth₁, List.flatMap_cons, List.filterMap_append, List.length_append,
        UInt64.ofNat_add, UInt64.add_assoc]

/-- The share of a receiver in what reaches the cache is what its messages carry. -/
theorem receivedAt_cacheSteps {i : Nat} (hi : i < n.receivers.length) (e : PeerStep) :
    (n.cacheSteps e).filterMap (CacheStep.receivedAt i) =
      (e.messagesAt i).filterMap Message.arrival := by
  cases e with
  | call call => rfl
  | receiverFailed j => rfl
  | received j m =>
    unfold cacheSteps PeerStep.messagesAt
    dsimp only
    by_cases hj : j = i
    · subst hj
      rw [if_pos hi, if_pos rfl]
      cases harrival : m.arrival <;> simp [harrival, CacheStep.receivedAt]
    · rw [if_neg hj]
      split
      · cases m.arrival <;> simp [CacheStep.receivedAt, hj]
      · rfl
  | join e =>
    rw [cacheSteps.eq_def]
    cases e with
    | message m =>
      dsimp only
      split
      · cases m.arrival <;> simp [CacheStep.receivedAt, PeerStep.messagesAt]
      · rfl
    | requested ok => rfl
    | ended ok => rfl
    | parityChecked remote => rfl

end PeerNode

section Replication

variable (p atLeast)

/-- All that a run does to the cache, in order. -/
def cacheStepsOf (n : PeerNode) (steps : List PeerStep) : List CacheStep :=
  Machine.outputs (PeerNode.step p atLeast) PeerNode.cacheSteps n steps

/-- The streams of the connections that a receiver has had, each with the number of messages that
had come when it broke off. -/
abbrev Connections := List (List Received × Nat)

def Connections.messages (consumerId : String) (cs : Connections) : List ProtoCdcEvent :=
  cs.flatMap fun c => (CdcServiceImpl.subscribe ⟨consumerId, []⟩ c.1).take c.2

def Connections.events (cs : Connections) : List CdcEvent :=
  cs.flatMap fun c => (delivered c.1).take c.2

/-- The calls and the events of all tasks reach the cache one after another. Those of a receiver
are the events that its peer has sent, each of them once and in order, and each of them is counted
as applied or as skipped. -/
structure Replicates (localNodeId : String) (cache : CacheStore) (n n' : PeerNode) (i : Nat)
    (cs : Connections) (steps : List PeerStep) : Prop where
  cache : n'.cache =
    Machine.run (cacheStep p localNodeId) cache (cacheStepsOf p atLeast n steps)
  events : ((cacheStepsOf p atLeast n steps).filterMap (CacheStep.receivedAt i)).map
    Arrival.event = cs.events
  counted : ∃ stats, n'.receivers[i]? = some stats ∧
    stats.eventsReceived = UInt64.ofNat cs.events.length ∧
    stats.eventsApplied + stats.eventsSkipped = stats.eventsReceived

variable {p atLeast}

theorem Connections.messages_eq (consumerId : String) (cs : Connections) :
    cs.messages consumerId = cs.events.map internalToProto := by
  unfold messages events
  rw [List.map_flatMap]
  congr 1
  funext c
  rw [subscribe_all, List.map_take]

theorem event_filterMap_arrival {messages : List Message} {events : List CdcEvent}
    (h : messages.map Message.event = events.map internalToProto) :
    (messages.filterMap Message.arrival).map Arrival.event = events := by
  have harrival (m : Message) : m.arrival.map Arrival.event = protoToInternal m.event := by
    rw [Message.arrival, Option.map_map]
    exact Option.map_id'
  rw [List.map_filterMap]
  simp only [harrival]
  have hread : messages.filterMap (fun m => protoToInternal m.event) =
      (messages.map Message.event).filterMap protoToInternal := by
    rw [List.filterMap_map]
    rfl
  rw [hread, h, List.filterMap_map]
  have hsame : protoToInternal ∘ internalToProto = some :=
    funext protoToInternal_internalToProto
  rw [hsame, List.filterMap_some]

theorem receivers_started (settings : PeerSettings) (cache : CacheStore) :
    (PeerManager.started settings cache).nodeId = settings.nodeId ∧
      (PeerManager.started settings cache).cache = cache ∧
      (PeerManager.started settings cache).receivers =
        settings.peers.map fun _ => ⟨0, 0, 0, 0⟩ := by
  obtain ⟨nodeId, peers, snapshotOnJoin⟩ := settings
  cases peers with
  | nil => exact ⟨rfl, rfl, rfl⟩
  | cons peerAddr rest => cases snapshotOnJoin <;> exact ⟨rfl, rfl, rfl⟩

open PeerManager in
theorem stream_replicates (p : Platform) (atLeast : Nat → Nat → Bool) (settings : PeerSettings)
    (cache : CacheStore) (steps : List PeerStep) (i : Nat) (hi : i < settings.peers.length)
    (cs : Connections)
    (hmessages : (steps.flatMap (PeerStep.messagesAt i)).map Message.event =
      cs.messages ("peer-" ++ settings.nodeId)) :
    Replicates p atLeast settings.nodeId cache (started settings cache)
      (Machine.run (PeerNode.step p atLeast) (started settings cache) steps) i cs steps := by
  obtain ⟨hnodeId, hcache, hreceivers⟩ := receivers_started settings cache
  have hlength : i < (started settings cache).receivers.length := by
    rw [hreceivers, List.length_map]
    exact hi
  have hevents := event_filterMap_arrival (hmessages.trans (cs.messages_eq _))
  constructor
  · have hkeep (n : PeerNode) (e : PeerStep) (h : n.nodeId = settings.nodeId) :
        (n.step p atLeast e).nodeId = settings.nodeId := (n.step_eq e).2.1.trans h
    have hstep (n : PeerNode) (e : PeerStep) (h : n.nodeId = settings.nodeId) :
        (n.step p atLeast e).cache =
          Machine.run (cacheStep p settings.nodeId) n.cache (n.cacheSteps e) := by
      rw [(n.step_eq e).1, h]
    rw [Machine.run_outputs hkeep hstep hnodeId steps, hcache]
    rfl
  · have hkeep (n : PeerNode) (e : PeerStep) (h : i < n.receivers.length) :
        i < (n.step p atLeast e).receivers.length := (n.step_eq e).2.2 ▸ h
    have hshare (n : PeerNode) (e : PeerStep) (h : i < n.receivers.length) :
        (n.cacheSteps e).filterMap (CacheStep.receivedAt i) =
          (e.messagesAt i).filterMap Message.arrival := n.receivedAt_cacheSteps h e
    rw [cacheStepsOf, Machine.filterMap_outputs hkeep hshare hlength, ← hevents,
      List.filterMap_flatMap]
  · have hzero : (started settings cache).receivers[i]? = some ⟨0, 0, 0, 0⟩ := by
      rw [hreceivers, List.getElem?_map, List.getElem?_eq_getElem hi]
      rfl
    obtain ⟨stats, hstats, hreceived, hboth⟩ := PeerNode.counters_run hzero steps
    have hcount := congrArg List.length hevents
    have hall := congrArg List.length (hmessages.trans (cs.messages_eq _))
    rw [List.length_map] at hcount
    rw [List.length_map, List.length_map] at hall
    refine ⟨stats, hstats, ?_, ?_⟩
    · rw [hreceived, hall, UInt64.zero_add]
    · rw [hboth, hreceived, hcount, hall]
      rfl

/-- A receiver whose connection breaks off after one event and comes back with lag. -/
theorem replicates_after_reconnect : ∃ stats,
    (Machine.run (PeerNode.step Platform.sample fun _ _ => true)
      (PeerManager.started ⟨"a", ["b:9090"], false⟩ (withJitter 60000000000 60000000000 10 0))
      [.received 0 (arriveAt 3 sampleEvent).message, .receiverFailed 0,
        .received 0 (arriveAt 9 sampleEvent).message]).receivers[0]? = some stats ∧
    stats.eventsReceived = 2 ∧ stats.eventsApplied + stats.eventsSkipped = 2 := by
  obtain ⟨stats, hstats, hreceived, hboth⟩ := (stream_replicates Platform.sample
    (fun _ _ => true) ⟨"a", ["b:9090"], false⟩ (withJitter 60000000000 60000000000 10 0)
    [.received 0 (arriveAt 3 sampleEvent).message, .receiverFailed 0,
      .received 0 (arriveAt 9 sampleEvent).message] 0 Nat.one_pos
    [([.event sampleEvent true, .event sampleEvent true], 1),
      ([.lagged 5, .event sampleEvent true], 1)] rfl).counted
  exact ⟨stats, hstats, hreceived, hboth.trans hreceived⟩

end Replication

section Whole

/-- What a peer that answers everything tells the join task. -/
def wholeJoin (transfers : List Transfer) (status : PeerStatusResponse) : List PeerStep :=
  .join (.requested true) ::
    (transfers.map fun x => .join (.message x.arrival.message)) ++
      [.join (.ended true), .join (.parityChecked (some status.cacheEntryCount))]

theorem run_messages (p : Platform) (atLeast : Nat → Nat → Bool) {task : JoinTask}
    (transfers : List Transfer) {n : PeerNode} {applied : Nat}
    (htask : n.task = some { task with phase := .streaming applied }) :
    ∃ applied', Machine.run (PeerNode.step p atLeast) n
        (transfers.map fun x => .join (.message x.arrival.message)) =
      { n with
        cache := Machine.run (receiveTransfer p n.nodeId) n.cache transfers
        task := some { task with phase := .streaming applied' } } := by
  induction transfers generalizing n applied with
  | nil =>
    refine ⟨applied, ?_⟩
    rw [← htask]
    rfl
  | cons x rest ih =>
    have hstep : ∃ applied', n.step p atLeast (.join (.message x.arrival.message)) =
        { n with
          cache := receiveTransfer p n.nodeId n.cache x
          task := some { task with phase := .streaming applied' } } := by
      unfold PeerNode.step PeerNode.joinStep
      dsimp only
      rw [htask]
      dsimp only [PeerNode.load]
      rw [arrival_message]
      exact ⟨_, rfl⟩
    obtain ⟨applied', heq⟩ := hstep
    rw [List.map_cons, Machine.run_cons, heq]
    exact ih rfl

theorem len_eq_of_responseAt {s s' : CacheStore} (h : ∀ k, responseAt s k = responseAt s' k) :
    s.len = s'.len := by
  apply List.Perm.length_eq
  rw [List.perm_ext_iff_of_nodup s.entries.keys_nodup s'.entries.keys_nodup]
  intro k
  change k ∈ s.entries ↔ k ∈ s'.entries
  rw [mem_iff_responseAt, h k, ← mem_iff_responseAt]

/-- A peer whose entries transfer whole brings the node to readiness in one round: the node ends
with the responses of the peer, and no other peer is asked. -/
theorem join_copies (p : Platform) (atLeast : Nat → Nat → Bool)
    (hparity : ∀ k, 0 < k → atLeast k k = true) (source : PeerNode) (sender : EventSender)
    (scan : Scan) (now : Clock) (n : PeerNode) (peerAddr : String) (rest : List String)
    (htask : n.task = some ⟨peerAddr, rest, .requesting⟩) (hnode : sender.nodeId ≠ n.nodeId)
    (freshDuration staleDuration : Duration) (maxEntries : Nat) (ttlJitterPercent : ℚ)
    (calls : List Call) (hcache : n.cache = Machine.run (exec p)
      (withJitter freshDuration staleDuration maxEntries ttlJitterPercent) calls)
    (hempty : n.cache.entries = ∅) (transfers : List Transfer)
    (hstream : transfers.map (fun x => (x.entry, x.arrival.event)) =
      sourcedSnapshot p source.cache scan sender.nodeId now)
    (hfree : NoCollision p
      (mappedTexts calls ++ transfers.map fun x => x.arrival.event.queryKey))
    (hroom : Machine.AllSteps (receiveTransfer p n.nodeId) (fun s x => x.arrival.HasRoom p s)
      n.cache transfers)
    (hwhole : TransfersWhole p source.cache scan transfers) :
    let n' := Machine.run (PeerNode.step p atLeast) n
      (wholeJoin transfers (source.getStatus sender))
    n'.state = .ready ∧ n'.task = none ∧ n'.cache.len = source.cache.len ∧
      ∀ k, responseAt n'.cache k = responseAt source.cache k := by
  intro n'
  have hdelivered := delivered_of_stream hnode hstream (mappedTexts calls)
  have hrecorded : Recorded p (mappedTexts calls ++
      transfers.map fun x => x.arrival.event.queryKey) n.cache := by
    intro x m hx
    rw [hcache] at hx
    obtain ⟨text, htext, hmap⟩ := (recorded_withJitter (p := p) freshDuration staleDuration
      maxEntries ttlJitterPercent).run calls x m hx
    exact ⟨text, List.mem_append_left _ htext, hmap⟩
  have hsame := same_of_whole hfree hdelivered hrecorded hempty hroom (length_stream hstream).2
    hwhole
  have hlen := len_eq_of_responseAt hsame
  have hreaches : reachesParity atLeast
      (Machine.run (receiveTransfer p n.nodeId) n.cache transfers).len source.cache.len = true := by
    unfold reachesParity
    rw [hlen]
    split
    · exact hparity _ ‹_›
    · exact hparity 1 Nat.one_pos
  have hrequested : n.step p atLeast (.join (.requested true)) =
      n.inPhase ⟨peerAddr, rest, .requesting⟩ (.streaming 0) := by
    unfold PeerNode.step PeerNode.joinStep
    dsimp only
    rw [htask]
  obtain ⟨applied, hloaded⟩ := run_messages p atLeast transfers
    (n := n.inPhase ⟨peerAddr, rest, .requesting⟩ (.streaming 0)) rfl
  have hend : n' = { n with
      cache := Machine.run (receiveTransfer p n.nodeId) n.cache transfers
      state := .ready
      task := none } := by
    change Machine.run (PeerNode.step p atLeast) n (_ :: _ ++ _) = _
    rw [List.cons_append, Machine.run_cons, hrequested, Machine.run_append, hloaded]
    exact if_pos hreaches
  rw [hend]
  exact ⟨rfl, rfl, hlen, hsame⟩

/-- Four fifths of the size of the peer. -/
def fourFifths (localCount remote : Nat) : Bool := decide (4 * remote ≤ 5 * localCount)

/-- A node whose first peer does not answer. -/
def secondTry : PeerNode :=
  Machine.run (PeerNode.step Platform.sample fourFifths)
    (PeerManager.started ⟨"a", ["c:9090", "b:9090"], true⟩ emptyReceiver)
    [.join (.requested false)]

theorem second_try_copies :
    let n' := Machine.run (PeerNode.step Platform.sample fourFifths) secondTry
      (wholeJoin (streamedAt storedText 2 3)
        ((PeerNode.mk "b" storedText .ready [] none).getStatus (EventSender.new "b")))
    n'.state = .ready ∧ n'.task = none ∧ n'.cache.len = storedText.len ∧
      ∀ k, responseAt n'.cache k = responseAt storedText k := by
  apply join_copies Platform.sample fourFifths (fun k hk => ?_)
    ⟨"b", storedText, .ready, [], none⟩ (EventSender.new "b") Scan.stored ⟨0, 2000000⟩ secondTry
    "b:9090" [] rfl ?_ 60000000000 60000000000 10 0 [] rfl rfl (streamedAt storedText 2 3)
    (streamedAt_events storedText 2 3)
  · unfold NoCollision
    decide +kernel
  · rw [streamedAt_storedText]
    exact ⟨hasRoom_transferOf _ (Or.inl rfl), trivial⟩
  · rw [streamedAt_storedText]
    refine ⟨by decide +kernel, ?_, by decide +kernel⟩
    intro x hx
    obtain rfl := List.mem_singleton.mp hx
    exact ⟨textResponse "a", parsed_transferOf 1 _ textOfBytes_letters.1, rfl⟩
  · decide
  · apply decide_eq_true
    omega

end Whole

end Conproxy
