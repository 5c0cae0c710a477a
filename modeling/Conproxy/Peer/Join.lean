import Conproxy.Lib.Costs
import Conproxy.Lib.Outputs
import Conproxy.Peer.Snapshot
import Conproxy.Subscription

/-!
# Joining the peers

`PeerManager` of `peer/mod.rs` with the tasks that `start` spawns: one receiver for each peer, which
handles the messages of that peer's change stream, and one task that asks the peers for a snapshot,
one after the other, until the cache is as large as that of a peer. The tasks share the cache with
the callers, and a step is what one of them does next.
-/

namespace Conproxy

open CacheStore

set_option autoImplicit false

def CdcEventType.fromProto : Nat → Option CdcEventType
  | 1 => some insert
  | 2 => some remove
  | 3 => some fetchStart
  | 4 => some fetchCancel
  | _ => none

theorem CdcEventType.fromProto_toProto (t : CdcEventType) : fromProto t.toProto = some t := by
  cases t <;> rfl

def protoToInternal (event : ProtoCdcEvent) : Option CdcEvent :=
  (CdcEventType.fromProto event.eventType).map fun eventType =>
    { sequence := event.sequence
      timestampMs := event.timestampMs
      eventType := eventType
      queryKey := event.queryKey
      payload := event.payload
      upstreamId := event.upstreamId
      contextId := event.contextId
      originNodeId := event.originNodeId
      absoluteExpiryMs := event.absoluteExpiryMs }

theorem protoToInternal_internalToProto (event : CdcEvent) :
    protoToInternal (internalToProto event) = some event := by
  have htype : CdcEventType.fromProto (internalToProto event).eventType = some event.eventType :=
    CdcEventType.fromProto_toProto event.eventType
  rw [protoToInternal, htype]
  rfl

/-- A message of a stream, with the clock and the scans of the cache when it is handled. -/
structure Message where
  event : ProtoCdcEvent
  scan : Scan
  now : Clock

/-- A message of an unknown type is no event. -/
def Message.arrival (m : Message) : Option Arrival :=
  (protoToInternal m.event).map fun event => ⟨event, m.scan, m.now⟩

/-- The event as it was sent. -/
def Arrival.message (a : Arrival) : Message := ⟨internalToProto a.event, a.scan, a.now⟩

theorem arrival_message (a : Arrival) : a.message.arrival = some a := by
  rw [Message.arrival, Arrival.message, protoToInternal_internalToProto]
  rfl

inductive PeerState where
  | warming
  | ready
deriving DecidableEq

/-- What the manager reads of its configuration, with the defaults resolved. -/
structure PeerSettings where
  nodeId : String
  peers : List String
  snapshotOnJoin : Bool

/-- The counters of a receiver, which wrap. -/
structure PeerReplicationStats where
  eventsReceived : UInt64
  eventsApplied : UInt64
  eventsSkipped : UInt64
  errors : UInt64
deriving DecidableEq

/-- Where the join task waits: for the answer to its request, for the messages of the stream, with
the number applied so far, or for the status of the peer. -/
inductive JoinPhase where
  | requesting
  | streaming (applied : Nat)
  | checking (applied : Nat)
deriving DecidableEq

structure JoinTask where
  peerAddr : String
  rest : List String
  phase : JoinPhase
deriving DecidableEq

structure PeerNode where
  nodeId : String
  cache : CacheStore
  state : PeerState
  receivers : List PeerReplicationStats
  task : Option JoinTask

/-- What the join task is told. -/
inductive JoinEvent where
  | requested (ok : Bool)
  | message (m : Message)
  | ended (ok : Bool)
  | parityChecked (remote : Option Nat)

/-- What happens next at a node: a call of the cache, a message or an error at one of the receivers,
or something that the join task waits for. -/
inductive PeerStep where
  | call (call : Call)
  | received (i : Nat) (m : Message)
  | receiverFailed (i : Nat)
  | join (e : JoinEvent)

namespace PeerNode

/-- The head of the loop over the peers. After the last one the node is ready with a cold cache. -/
def nextPeer (n : PeerNode) : List String → PeerNode
  | [] => { n with state := .ready, task := none }
  | peerAddr :: rest => { n with task := some ⟨peerAddr, rest, .requesting⟩ }

end PeerNode

namespace PeerManager

def new (config : PeerSettings) (cache : CacheStore) : PeerNode where
  nodeId := config.nodeId
  cache := cache
  state := if config.peers.isEmpty || !config.snapshotOnJoin then .ready else .warming
  receivers := []
  task := none

def start (config : PeerSettings) (n : PeerNode) : PeerNode :=
  if config.peers.isEmpty then n
  else
    let n := { n with receivers := config.peers.map fun _ => ⟨0, 0, 0, 0⟩ }
    if config.snapshotOnJoin && !config.peers.isEmpty then n.nextPeer config.peers else n

/-- The node when its tasks are spawned. -/
def started (config : PeerSettings) (cache : CacheStore) : PeerNode :=
  start config (new config cache)

end PeerManager

/-- `get_status`: what a peer answers to the check. -/
structure PeerStatusResponse where
  nodeId : String
  state : String
  cacheEntryCount : Nat
  sequence : Nat

def PeerState.asStr : PeerState → String
  | warming => "warming"
  | ready => "ready"

def PeerNode.getStatus (n : PeerNode) (sender : EventSender) : PeerStatusResponse :=
  ⟨sender.nodeId, n.state.asStr, n.cache.len, sender.sequence⟩

section Steps

-- whether the quotient of the two counts is at least the threshold
variable (p : Platform) (atLeast : Nat → Nat → Bool)

/-- `handle_event` with its counters. -/
def PeerReplicationStats.handle (localNodeId : String) (cache : CacheStore) (m : Message)
    (stats : PeerReplicationStats) : CacheStore × PeerReplicationStats :=
  match m.arrival with
  | none => (cache, stats)
  | some a =>
    (receiveEvent p localNodeId cache a,
      if accepts p localNodeId cache a then
        { stats with eventsApplied := stats.eventsApplied + 1 }
      else { stats with eventsSkipped := stats.eventsSkipped + 1 })

/-- A cache of a peer that is empty counts as parity. -/
def reachesParity (localCount remote : Nat) : Bool :=
  if 0 < remote then atLeast localCount remote else atLeast 1 1

namespace PeerNode

def receive (n : PeerNode) (i : Nat) (m : Message) : PeerNode :=
  match n.receivers[i]? with
  | none => n
  | some stats =>
    let stats := { stats with eventsReceived := stats.eventsReceived + 1 }
    let (cache, stats) := stats.handle p n.nodeId n.cache m
    { n with cache := cache, receivers := n.receivers.set i stats }

def receiverFailed (n : PeerNode) (i : Nat) : PeerNode :=
  match n.receivers[i]? with
  | none => n
  | some stats =>
    { n with receivers := n.receivers.set i { stats with errors := stats.errors + 1 } }

def inPhase (n : PeerNode) (task : JoinTask) (phase : JoinPhase) : PeerNode :=
  { n with task := some { task with phase := phase } }

/-- A message of the snapshot stream. -/
def load (n : PeerNode) (task : JoinTask) (applied : Nat) (m : Message) : PeerNode :=
  match m.arrival with
  | none => n
  | some a =>
    let applied' := if accepts p n.nodeId n.cache a then min (applied + 1) (2 ^ 64 - 1) else applied
    { n with cache := receiveEvent p n.nodeId n.cache a }.inPhase task (.streaming applied')

/-- The body of the join task. Events that it does not wait for do not occur. -/
def joinStep (n : PeerNode) (e : JoinEvent) : PeerNode :=
  match n.task with
  | none => n
  | some task =>
    match task.phase, e with
    | .requesting, .requested true => n.inPhase task (.streaming 0)
    | .requesting, .requested false => n.nextPeer task.rest
    | .streaming applied, .message m => n.load p task applied m
    | .streaming applied, .ended true => n.inPhase task (.checking applied)
    | .streaming _, .ended false => n.nextPeer task.rest
    | .checking _, .parityChecked (some remote) =>
      if reachesParity atLeast n.cache.len remote then { n with state := .ready, task := none }
      else n.nextPeer task.rest
    | .checking _, .parityChecked none => n.nextPeer task.rest
    | _, _ => n

def step (n : PeerNode) : PeerStep → PeerNode
  | .call call => { n with cache := exec p n.cache call }
  | .received i m => n.receive p i m
  | .receiverFailed i => n.receiverFailed i
  | .join e => n.joinStep p atLeast e

end PeerNode

end Steps

/-! ## The course of the join -/

/-- The task is waiting for the event. -/
def JoinPhase.awaits : JoinPhase → JoinEvent → Bool
  | requesting, .requested _ => true
  | streaming _, .ended _ => true
  | checking _, .parityChecked _ => true
  | _, _ => false

/-- How many answers of the peer are still to come. -/
def JoinPhase.left : JoinPhase → Nat
  | requesting => 3
  | streaming _ => 2
  | checking _ => 1

theorem JoinPhase.one_le_left (phase : JoinPhase) : 1 ≤ phase.left := by
  cases phase with
  | requesting => exact Nat.succ_le_succ (Nat.zero_le 2)
  | streaming applied => exact Nat.succ_le_succ (Nat.zero_le 1)
  | checking applied => exact Nat.le_refl 1

namespace PeerNode

def work (n : PeerNode) : Nat :=
  match n.task with
  | none => 0
  | some task => task.phase.left + 3 * task.rest.length

/-- The peers that are not asked yet. -/
def toAsk (n : PeerNode) : List String :=
  match n.task with
  | none => []
  | some task => if task.phase = .requesting then task.peerAddr :: task.rest else task.rest

/-- An answer that the join task waits for. -/
def moves (n : PeerNode) : PeerStep → Nat
  | .join e => if n.task.any fun task => task.phase.awaits e then 1 else 0
  | _ => 0

/-- The peer that answers a request for a snapshot. -/
def asks (n : PeerNode) : PeerStep → List String
  | .join (.requested _) => (n.task.filter fun task => task.phase = .requesting).toList.map
      JoinTask.peerAddr
  | _ => []

end PeerNode

variable {p : Platform} {atLeast : Nat → Nat → Bool}

inductive JoinMove (atLeast : Nat → Nat → Bool) (n : PeerNode) (task : JoinTask) (e : JoinEvent) :
    PeerNode → Prop where
  | ignored (h : task.phase.awaits e = false) : JoinMove atLeast n task e n
  | loaded {applied applied' : Nat} (cache : CacheStore) (h : task.phase.awaits e = false)
      (hphase : task.phase = .streaming applied) :
      JoinMove atLeast n task e ({ n with cache := cache }.inPhase task (.streaming applied'))
  | answered {phase : JoinPhase} (h : task.phase.awaits e = true) (hphase : phase ≠ .requesting)
      (hleft : phase.left + 1 = task.phase.left) : JoinMove atLeast n task e (n.inPhase task phase)
  | failed (h : task.phase.awaits e = true) : JoinMove atLeast n task e (n.nextPeer task.rest)
  | reached {applied remote : Nat} (hphase : task.phase = .checking applied)
      (h : e = .parityChecked (some remote))
      (hparity : reachesParity atLeast n.cache.len remote = true) :
      JoinMove atLeast n task e { n with state := .ready, task := none }

theorem joinMove {n : PeerNode} {task : JoinTask} (htask : n.task = some task) (e : JoinEvent) :
    JoinMove atLeast n task e (n.joinStep p atLeast e) := by
  obtain ⟨peerAddr, rest, phase⟩ := task
  unfold PeerNode.joinStep
  rw [htask]
  cases phase with
  | requesting =>
    cases e with
    | requested ok =>
      cases ok with
      | true => exact .answered rfl (fun h => nomatch h) rfl
      | false => exact .failed rfl
    | message m => exact .ignored rfl
    | ended ok => exact .ignored rfl
    | parityChecked remote => exact .ignored rfl
  | streaming applied =>
    cases e with
    | requested ok => exact .ignored rfl
    | message m =>
      dsimp only [PeerNode.load]
      cases m.arrival with
      | none => exact .ignored rfl
      | some a => exact .loaded _ rfl rfl
    | ended ok =>
      cases ok with
      | true => exact .answered rfl (fun h => nomatch h) rfl
      | false => exact .failed rfl
    | parityChecked remote => exact .ignored rfl
  | checking applied =>
    cases e with
    | requested ok => exact .ignored rfl
    | message m => exact .ignored rfl
    | ended ok => exact .ignored rfl
    | parityChecked remote =>
      cases remote with
      | none => exact .failed rfl
      | some remote =>
        dsimp only
        by_cases hparity : reachesParity atLeast n.cache.len remote = true
        · rw [if_pos hparity]
          exact .reached rfl rfl hparity
        · rw [if_neg hparity]
          exact .failed rfl

namespace PeerNode

variable {n : PeerNode}

theorem joinStep_of_none (htask : n.task = none) (e : JoinEvent) : n.joinStep p atLeast e = n := by
  unfold joinStep
  rw [htask]

theorem receive_eq (n : PeerNode) (i : Nat) (m : Message) :
    (n.receive p i m).task = n.task ∧ (n.receive p i m).state = n.state ∧
      (n.receive p i m).nodeId = n.nodeId := by
  unfold receive
  cases n.receivers[i]? with
  | none => exact ⟨rfl, rfl, rfl⟩
  | some stats => exact ⟨rfl, rfl, rfl⟩

theorem receiverFailed_eq (n : PeerNode) (i : Nat) :
    (n.receiverFailed i).task = n.task ∧ (n.receiverFailed i).state = n.state ∧
      (n.receiverFailed i).nodeId = n.nodeId ∧ (n.receiverFailed i).cache = n.cache := by
  unfold receiverFailed
  cases n.receivers[i]? with
  | none => exact ⟨rfl, rfl, rfl, rfl⟩
  | some stats => exact ⟨rfl, rfl, rfl, rfl⟩

/-- A step is one of the join task, or leaves the task and the state alone. -/
theorem step_cases (n : PeerNode) (e : PeerStep) :
    (∃ task event, n.task = some task ∧ e = .join event ∧
      JoinMove atLeast n task event (n.step p atLeast e)) ∨
    ((n.step p atLeast e).task = n.task ∧ (n.step p atLeast e).state = n.state ∧
      n.moves e = 0 ∧ n.asks e = []) := by
  cases e with
  | call call => exact .inr ⟨rfl, rfl, rfl, rfl⟩
  | received i m => exact .inr ⟨(n.receive_eq i m).1, (n.receive_eq i m).2.1, rfl, rfl⟩
  | receiverFailed i =>
    exact .inr ⟨(n.receiverFailed_eq i).1, (n.receiverFailed_eq i).2.1, rfl, rfl⟩
  | join event =>
    cases htask : n.task with
    | some task => exact .inl ⟨task, event, rfl, rfl, joinMove htask event⟩
    | none =>
      have hstep : n.step p atLeast (.join event) = n := joinStep_of_none htask event
      rw [hstep]
      refine .inr ⟨htask, rfl, ?_, ?_⟩
      · rw [moves, htask]
        rfl
      · rw [asks.eq_def]
        cases event with
        | requested ok => simp [htask]
        | message m => rfl
        | ended ok => rfl
        | parityChecked remote => rfl

theorem work_of_task_eq {n' : PeerNode} (h : n'.task = n.task) : n'.work = n.work := by
  rw [work, h, work]

theorem toAsk_of_task_eq {n' : PeerNode} (h : n'.task = n.task) : n'.toAsk = n.toAsk := by
  rw [toAsk, h, toAsk]

theorem work_nextPeer (peers : List String) : (n.nextPeer peers).work = 3 * peers.length := by
  cases peers with
  | nil => rfl
  | cons peerAddr rest =>
    have hwork : (n.nextPeer (peerAddr :: rest)).work = 3 + 3 * rest.length := rfl
    rw [hwork, List.length_cons]
    omega

theorem toAsk_nextPeer (peers : List String) : (n.nextPeer peers).toAsk = peers := by
  cases peers with
  | nil => rfl
  | cons peerAddr rest => rfl

theorem moves_join {task : JoinTask} (htask : n.task = some task) (e : JoinEvent) :
    n.moves (.join e) = if task.phase.awaits e then 1 else 0 := by
  rw [moves, htask]
  rfl

/-- Every answer is one of those that are left. -/
theorem moves_add_work_le (n : PeerNode) (e : PeerStep) :
    n.moves e + (n.step p atLeast e).work ≤ n.work := by
  rcases n.step_cases e with ⟨task, event, htask, rfl, hmove⟩ | ⟨htask, -, hmoves, -⟩
  · have hwork : n.work = task.phase.left + 3 * task.rest.length := by rw [work, htask]
    have hleft := task.phase.one_le_left
    rw [moves_join htask, hwork]
    generalize n.step p atLeast (.join event) = n' at hmove
    cases hmove with
    | ignored h => rw [h, if_neg Bool.false_ne_true, hwork, Nat.zero_add]
    | loaded cache h hphase =>
      rw [h, if_neg Bool.false_ne_true, Nat.zero_add, hphase]
      exact Nat.le_refl _
    | answered h hphase hless =>
      rw [h, if_pos rfl, ← hless]
      simp only [work, inPhase]
      omega
    | failed h =>
      rw [h, if_pos rfl, work_nextPeer]
      omega
    | reached hphase h hparity =>
      rw [hphase, h]
      exact Nat.add_le_add_left (Nat.zero_le _) 1
  · rw [hmoves, work_of_task_eq htask, Nat.zero_add]

/-- The check succeeds. -/
def Attains (atLeast : Nat → Nat → Bool) (n : PeerNode) (e : PeerStep) : Prop :=
  ∃ task applied remote, n.task = some task ∧ task.phase = .checking applied ∧
    e = .join (.parityChecked (some remote)) ∧ reachesParity atLeast n.cache.len remote = true

theorem asks_join {task : JoinTask} (htask : n.task = some task) (e : JoinEvent) :
    n.asks (.join e) = if task.phase = .requesting ∧ task.phase.awaits e = true
      then [task.peerAddr] else [] := by
  obtain ⟨peerAddr, rest, phase⟩ := task
  cases phase with
  | requesting => cases e <;> simp [asks, htask, JoinPhase.awaits]
  | streaming applied => cases e <;> simp [asks, htask]
  | checking applied => cases e <;> simp [asks, htask]

/-- The peers are asked in order; a peer is passed over only when the check has succeeded. -/
theorem asks_append_toAsk (n : PeerNode) (e : PeerStep) :
    n.asks e ++ (n.step p atLeast e).toAsk = n.toAsk ∨
      n.Attains atLeast e ∧ n.asks e = [] ∧ (n.step p atLeast e).toAsk = [] := by
  rcases n.step_cases e with ⟨task, event, htask, rfl, hmove⟩ | ⟨htask, -, -, hasks⟩
  · have htoAsk : n.toAsk = if task.phase = .requesting then task.peerAddr :: task.rest
        else task.rest := by rw [toAsk, htask]
    rw [asks_join htask, htoAsk]
    generalize n.step p atLeast (.join event) = n' at hmove
    cases hmove with
    | ignored h =>
      rw [h, htoAsk]
      simp
    | loaded cache h hphase =>
      rw [hphase]
      simp [toAsk, inPhase]
    | answered h hphase hless =>
      rw [h]
      simp only [toAsk, inPhase, if_neg hphase]
      by_cases hrequest : task.phase = .requesting
      · simp [hrequest]
      · simp [hrequest]
    | failed h =>
      rw [h, toAsk_nextPeer]
      by_cases hrequest : task.phase = .requesting
      · simp [hrequest]
      · simp [hrequest]
    | reached hphase h hparity =>
      refine .inr ⟨⟨task, _, _, htask, hphase, congrArg _ h, hparity⟩, ?_, rfl⟩
      rw [hphase]
      simp
  · rw [hasks, toAsk_of_task_eq htask]
    exact .inl rfl

/-- The node is warming as long as it has a join task. -/
def Consistent (n : PeerNode) : Prop := n.state = .warming ↔ n.task.isSome = true

theorem consistent_nextPeer (hn : n.state = .warming) (peers : List String) :
    (n.nextPeer peers).Consistent := by
  cases peers with
  | nil => exact ⟨nofun, nofun⟩
  | cons peerAddr rest => exact ⟨fun _ => rfl, fun _ => hn⟩

theorem Consistent.step (hn : n.Consistent) (e : PeerStep) : (n.step p atLeast e).Consistent := by
  rcases n.step_cases e with ⟨task, event, htask, rfl, hmove⟩ | ⟨htask, hstate, -, -⟩
  · have hwarming : n.state = .warming := hn.mpr (by rw [htask]; rfl)
    generalize n.step p atLeast (.join event) = n' at hmove
    cases hmove with
    | ignored h => exact hn
    | loaded cache h hphase => exact ⟨fun _ => rfl, fun _ => hwarming⟩
    | answered h hphase hless => exact ⟨fun _ => rfl, fun _ => hwarming⟩
    | failed h => exact consistent_nextPeer hwarming task.rest
    | reached hphase h hparity => exact ⟨nofun, nofun⟩
  · unfold Consistent
    rw [htask, hstate]
    exact hn

theorem ready_step (hn : n.Consistent) (hready : n.state = .ready) (e : PeerStep) :
    (n.step p atLeast e).state = .ready := by
  rcases n.step_cases e with ⟨task, event, htask, -, -⟩ | ⟨-, hstate, -, -⟩
  · have hwarming : n.state = .warming := hn.mpr (by rw [htask]; rfl)
    rw [hready] at hwarming
    cases hwarming
  · rw [hstate]
    exact hready

theorem Consistent.task_of_ready (hn : n.Consistent) (hready : n.state = .ready) :
    n.task = none := by
  cases htask : n.task with
  | none => rfl
  | some task =>
    have hwarming := hn.mpr (by rw [htask]; rfl)
    rw [hready] at hwarming
    cases hwarming

theorem Consistent.toAsk_of_ready (hn : n.Consistent) (hready : n.state = .ready) :
    n.toAsk = [] := by
  rw [toAsk, hn.task_of_ready hready]

theorem Consistent.ready_of_work (hn : n.Consistent) (hwork : n.work = 0) : n.state = .ready := by
  cases hstate : n.state with
  | ready => rfl
  | warming =>
    obtain ⟨task, htask⟩ := Option.isSome_iff_exists.mp (hn.mp hstate)
    have hleft := task.phase.one_le_left
    rw [work, htask] at hwork
    dsimp only at hwork
    omega

end PeerNode

section Join

variable (p atLeast)

/-- The peers that have answered a request for a snapshot, in order. -/
def asked (n : PeerNode) (steps : List PeerStep) : List String :=
  Machine.outputs (PeerNode.step p atLeast) PeerNode.asks n steps

/-- The number of answers that the join task has had. -/
def answers (n : PeerNode) (steps : List PeerStep) : Nat :=
  Machine.total (PeerNode.step p atLeast) PeerNode.moves n steps

/-- At some step of the run the check succeeds. -/
def Attained (n : PeerNode) (steps : List PeerStep) : Prop :=
  ∃ before e after, steps = before ++ e :: after ∧
    (Machine.run (PeerNode.step p atLeast) n before).Attains atLeast e

/-- The course of a join from a node `n` to a node `n'`: the node is warming as long as the task
runs, and ready for good after it. The peers are asked in their order, with three answers of each
at most, and the node is ready because the check has succeeded or every peer was asked. -/
structure JoinsPeers (settings : PeerSettings) (n n' : PeerNode) (steps : List PeerStep) :
    Prop where
  warming : n'.state = .warming ↔ n'.task.isSome = true
  stays : ∀ before after, steps = before ++ after →
    (Machine.run (PeerNode.step p atLeast) n before).state = .ready → n'.state = .ready
  order : asked p atLeast n steps <+: settings.peers
  answered : answers p atLeast n steps ≤ 3 * settings.peers.length
  done : answers p atLeast n steps = 3 * settings.peers.length → n'.state = .ready
  cause : n'.state = .ready → settings.snapshotOnJoin = false ∨
    asked p atLeast n steps = settings.peers ∨ Attained p atLeast n steps

variable {p atLeast} {n : PeerNode}

namespace PeerNode

theorem Consistent.run (hn : n.Consistent) (steps : List PeerStep) :
    (Machine.run (PeerNode.step p atLeast) n steps).Consistent :=
  Machine.run_preserves (fun _ e h => h.step e) hn steps

theorem ready_run (hn : n.Consistent) (hready : n.state = .ready) (steps : List PeerStep) :
    (Machine.run (PeerNode.step p atLeast) n steps).state = .ready := by
  induction steps generalizing n with
  | nil => exact hready
  | cons e steps ih => exact ih (hn.step e) (ready_step hn hready e)

end PeerNode

theorem asked_prefix (n : PeerNode) (steps : List PeerStep) :
    asked p atLeast n steps ++ (Machine.run (PeerNode.step p atLeast) n steps).toAsk <+:
      n.toAsk := by
  apply Machine.outputs_prefix
  intro n e
  rcases n.asks_append_toAsk e with heq | ⟨-, hasks, htoAsk⟩
  · rw [heq]
  · rw [hasks, htoAsk]
    exact List.nil_prefix

theorem answers_add_work_le (n : PeerNode) (steps : List PeerStep) :
    answers p atLeast n steps + (Machine.run (PeerNode.step p atLeast) n steps).work ≤ n.work :=
  Machine.total_add_potential_le PeerNode.moves_add_work_le n steps

/-- Unless the check has succeeded, the peers that have been asked and those that have not are
the peers. -/
theorem asked_append_toAsk (n : PeerNode) (steps : List PeerStep) :
    asked p atLeast n steps ++ (Machine.run (PeerNode.step p atLeast) n steps).toAsk = n.toAsk ∨
      Attained p atLeast n steps := by
  induction steps generalizing n with
  | nil => exact .inl rfl
  | cons e steps ih =>
    rcases n.asks_append_toAsk e with heq | ⟨hattains, -, -⟩
    · rcases ih (n.step p atLeast e) with hrest | ⟨before, e', after, rfl, hattains⟩
      · left
        rw [← heq, ← hrest, ← List.append_assoc]
        rfl
      · exact .inr ⟨e :: before, e', after, rfl, hattains⟩
    · exact .inr ⟨[], e, steps, rfl, hattains⟩

namespace PeerManager

variable {settings : PeerSettings} {cache : CacheStore}

theorem toAsk_started : (started settings cache).toAsk =
    if settings.snapshotOnJoin then settings.peers else [] := by
  obtain ⟨nodeId, peers, snapshotOnJoin⟩ := settings
  cases snapshotOnJoin with
  | false => cases peers <;> rfl
  | true => cases peers <;> rfl

theorem started_consistent : (started settings cache).Consistent ∧
    (started settings cache).work = 3 * (started settings cache).toAsk.length := by
  obtain ⟨nodeId, peers, snapshotOnJoin⟩ := settings
  cases peers with
  | nil => exact ⟨⟨nofun, nofun⟩, rfl⟩
  | cons peerAddr rest =>
    cases snapshotOnJoin with
    | false => exact ⟨⟨nofun, nofun⟩, rfl⟩
    | true => exact ⟨⟨fun _ => rfl, fun _ => rfl⟩, Nat.add_comm 3 (3 * rest.length)⟩

end PeerManager

open PeerManager in
theorem peer_joins (p : Platform) (atLeast : Nat → Nat → Bool) (settings : PeerSettings)
    (cache : CacheStore) (steps : List PeerStep) :
    JoinsPeers p atLeast settings (started settings cache)
      (Machine.run (PeerNode.step p atLeast) (started settings cache) steps) steps := by
  obtain ⟨hstarted, hwork⟩ : (started settings cache).Consistent ∧ _ := started_consistent
  have htoAsk : (started settings cache).toAsk <+: settings.peers := by
    rw [toAsk_started]
    split
    · exact List.prefix_rfl
    · exact List.nil_prefix
  have hlength := htoAsk.length_le
  have hconsistent : (Machine.run (PeerNode.step p atLeast) (started settings cache)
      steps).Consistent := hstarted.run steps
  have hpaid : answers p atLeast (started settings cache) steps + _ ≤ _ :=
    answers_add_work_le (started settings cache) steps
  have horder : asked p atLeast (started settings cache) steps ++ _ <+: _ :=
    asked_prefix (started settings cache) steps
  constructor
  · exact hconsistent
  · rintro before after rfl hready
    rw [Machine.run_append]
    exact PeerNode.ready_run (hstarted.run before) hready after
  · exact ((List.prefix_append _ _).trans horder).trans htoAsk
  · omega
  · intro hall
    exact hconsistent.ready_of_work (by omega)
  · intro hready
    cases hjoin : settings.snapshotOnJoin with
    | false => exact .inl rfl
    | true =>
      right
      have hasked : asked p atLeast (started settings cache) steps ++ _ = _ ∨ _ :=
        asked_append_toAsk (started settings cache) steps
      rcases hasked with heq | hattained
      · left
        rw [toAsk_started, hjoin, if_pos rfl, hconsistent.toAsk_of_ready hready,
          List.append_nil] at heq
        exact heq
      · exact .inr hattained

end Join

end Conproxy
