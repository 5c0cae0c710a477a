import Mathlib.Logic.Function.Basic
import Conproxy.Lib.Machine
import Conproxy.Sample
import Conproxy.Cache.Events
import Conproxy.Peer.Receiver

/-!
# A mesh of replicating nodes

Every node reads the events of its peers in the order in which they were sent; the peers are
interleaved in any way. A delivered event that is accepted goes through the operations that
publish, under the id of the node that applies it, so the suppression of echoes by origin id
does not stop it. A delivery stays silent exactly when nothing is applied, or the node has no
sender.
-/

namespace Conproxy

open CacheStore

set_option autoImplicit false

variable (p : Platform)

structure Node where
  nodeId : String
  store : CacheStore

/-- The nodes, and how many events of a peer (second argument) a node (first) has read. -/
structure Mesh (ι : Type) where
  nodes : ι → Node
  cursor : ι → ι → Nat

structure Delivery (ι : Type) where
  src : ι
  dst : ι
  scan : Scan
  now : Clock

inductive LocalChange where
  | insert (query : String) (response : QueryResponse) (upstreamId : String)
  | remove (query : String)
  | clear

def LocalChange.apply (change : LocalChange) (scan : Scan) (now : Clock) (s : CacheStore) :
    CacheStore :=
  match change with
  | .insert query response upstreamId => s.insert p scan now query response upstreamId
  | .remove query => s.remove p now query
  | .clear => s.clear now

namespace Mesh

variable {ι : Type} [DecidableEq ι]

def count (m : Mesh ι) (i : ι) : Nat := (m.nodes i).store.eventCount

def pending (m : Mesh ι) (d : Delivery ι) : Option CdcEvent :=
  if d.src = d.dst then none
  else (m.nodes d.src).store.published[m.cursor d.dst d.src]?

def setStore (m : Mesh ι) (i : ι) (s : CacheStore) : Mesh ι :=
  { m with nodes := Function.update m.nodes i { m.nodes i with store := s } }

def advance (m : Mesh ι) (d : Delivery ι) : Mesh ι :=
  { m with
    cursor := Function.update m.cursor d.dst
      (Function.update (m.cursor d.dst) d.src (m.cursor d.dst d.src + 1)) }

def change (m : Mesh ι) (i : ι) (scan : Scan) (now : Clock) (c : LocalChange) : Mesh ι :=
  m.setStore i (c.apply p scan now (m.nodes i).store)

/-- A delivery without a pending event does nothing. -/
def deliver (m : Mesh ι) (d : Delivery ι) : Mesh ι :=
  match m.pending d with
  | some event =>
    (m.setStore d.dst (handleEvent p event (m.nodes d.dst).nodeId d.scan d.now
      (m.nodes d.dst).store)).advance d
  | none => m

@[simp] theorem count_advance (m : Mesh ι) (d : Delivery ι) (i : ι) :
    (m.advance d).count i = m.count i := rfl

theorem count_setStore (m : Mesh ι) (i j : ι) (s : CacheStore) :
    (m.setStore i s).count j = if j = i then s.eventCount else m.count j := by
  unfold count setStore
  split
  · rename_i hji
    subst hji
    simp
  · rename_i hji
    simp [Function.update_of_ne hji]

end Mesh

/-- An accepted event is a change that a store with a sender publishes: a removal, or an
insertion whose payload decodes to a response that serializes again or that pushes another
entry of its upstream out. -/
def Publishes (s : CacheStore) (scan : Scan) (now : Clock) (event : CdcEvent) : Prop :=
  event.eventType = .remove ∨
    event.eventType = .insert ∧ event.payload ≠ [] ∧
      ∃ response ∈ p.fromSlice event.payload,
        (p.toVec response).isSome = true ∨ s.evictedTexts p scan now event.upstreamId ≠ []

def Originates (node : Node) (scan : Scan) (now : Clock) (event : CdcEvent) : Prop :=
  node.store.cdcSender.isSome = true ∧
    (deduplicate p event node.nodeId now node.store).1 = .apply ∧
    Publishes p (deduplicate p event node.nodeId now node.store).2 scan now event

def Mesh.Echoes {ι : Type} [DecidableEq ι] (m : Mesh ι) (d : Delivery ι) : Prop :=
  ∃ event ∈ m.pending d, Originates p (m.nodes d.dst) d.scan d.now event

variable {p}

theorem eventCount_applyEvent (event : CdcEvent) (scan : Scan) (now : Clock) (s : CacheStore) :
    s.eventCount ≤ (applyEvent p event scan now s).2.eventCount ∧
      ((applyEvent p event scan now s).2.eventCount = s.eventCount ↔
        ¬ (s.cdcSender.isSome = true ∧ Publishes p s scan now event)) := by
  unfold applyEvent Publishes
  cases event.eventType with
  | fetchStart | fetchCancel => simp
  | remove =>
    dsimp only
    split
    · simp [eventCount_clear]
    · simp [eventCount_remove]
  | insert =>
    dsimp only
    split
    · rename_i hpayload
      simp [hpayload]
    · rename_i hpayload
      cases hslice : p.fromSlice event.payload with
      | none => simp
      | some response =>
        have hcount := eventCount_insert (p := p) s scan now event.queryKey response
          event.upstreamId
        dsimp only
        rw [hcount]
        cases s.cdcSender.isSome with
        | false => simp
        | true =>
          cases hvec : p.toVec response with
          | none => simp [hpayload, hvec]
          | some bytes => simp [hpayload, hvec]

theorem eventCount_handleEvent (node : Node) (scan : Scan) (now : Clock) (event : CdcEvent) :
    node.store.eventCount ≤
        (handleEvent p event node.nodeId scan now node.store).eventCount ∧
      ((handleEvent p event node.nodeId scan now node.store).eventCount =
        node.store.eventCount ↔ ¬ Originates p node scan now event) := by
  have htouched := touched_deduplicate (p := p) event node.nodeId now node.store
  unfold handleEvent Originates
  rcases hr : deduplicate p event node.nodeId now node.store with ⟨result, s⟩
  rw [hr] at htouched
  have hsender : s.cdcSender = node.store.cdcSender := htouched.sender
  rw [← hsender, ← eventCount_congr hsender]
  cases result with
  | apply => simpa using eventCount_applyEvent event scan now s
  | echo | stale | expired => simp

namespace Mesh

variable {ι : Type} [DecidableEq ι]

theorem count_deliver (m : Mesh ι) (d : Delivery ι) (i : ι) :
    m.count i ≤ (m.deliver p d).count i := by
  unfold deliver
  cases m.pending d with
  | none => exact le_rfl
  | some event =>
    dsimp only
    rw [count_advance, count_setStore]
    split
    · rename_i hi
      subst hi
      exact (eventCount_handleEvent (m.nodes d.dst) d.scan d.now event).1
    · exact le_rfl

theorem deliver_silent_iff (m : Mesh ι) (d : Delivery ι) :
    (∀ i, (m.deliver p d).count i = m.count i) ↔ ¬ m.Echoes p d := by
  unfold deliver Echoes
  cases m.pending d with
  | none => simp
  | some event =>
    have hevent := (eventCount_handleEvent (p := p) (m.nodes d.dst) d.scan d.now event).2
    simp only [Option.mem_def, Option.some.injEq, exists_eq_left', count_advance, count_setStore]
    rw [← hevent]
    constructor
    · intro h
      have hdst := h d.dst
      rw [if_pos rfl] at hdst
      exact hdst
    · intro h i
      split
      · rename_i hi
        subst hi
        exact h
      · rfl

theorem count_run (m : Mesh ι) (ds : List (Delivery ι)) (i : ι) :
    m.count i ≤ (Machine.run (deliver p) m ds).count i := by
  induction ds generalizing m with
  | nil => exact le_rfl
  | cons d rest ih => exact (count_deliver m d i).trans (ih _)

theorem count_run_of_silent {m : Mesh ι} {ds : List (Delivery ι)}
    (h : Machine.AllSteps (deliver p) (fun m d => ∀ i, (m.deliver p d).count i = m.count i) m ds)
    (i : ι) : (Machine.run (deliver p) m ds).count i = m.count i := by
  induction ds generalizing m with
  | nil => rfl
  | cons d rest ih => exact (ih h.2).trans (h.1 i)

end Mesh

/-- The change publishes more than one event: an insertion that pushes another entry out. -/
def LocalChange.Splits (p : Platform) (c : LocalChange) (scan : Scan) (now : Clock)
    (s : CacheStore) : Prop :=
  match c with
  | .insert _ response upstreamId =>
    s.cdcSender.isSome = true ∧ (p.toVec response).isSome = true ∧
      s.evictedTexts p scan now upstreamId ≠ []
  | .remove _ => False
  | .clear => False

theorem length_removeAll_le (hs : List QueryHash) (s : CacheStore) :
    (removeAll p hs s).1.length ≤ hs.length := by
  induction hs generalizing s with
  | nil => exact le_rfl
  | cons h rest ih =>
    unfold removeAll
    rcases s.trackedRemove p h with ⟨_ | old, s'⟩
    · exact (ih s').trans (Nat.le_succ _)
    · exact Nat.succ_le_succ (ih s')

theorem length_evictedTexts_le (s : CacheStore) (scan : Scan) (now : Clock)
    (upstreamId : String) : (s.evictedTexts p scan now upstreamId).length ≤ 1 := by
  unfold evictedTexts
  cases s.perUpstreamLimit with
  | none => exact Nat.zero_le _
  | some limit =>
    dsimp only
    split
    · refine (List.length_filterMap_le _ _).trans ((length_removeAll_le _ s).trans ?_)
      simp
    · exact Nat.zero_le _

theorem eventCount_localChange_le_iff (c : LocalChange) (scan : Scan) (now : Clock)
    (s : CacheStore) :
    (c.apply p scan now s).eventCount ≤ s.eventCount + 1 ↔ ¬ c.Splits p scan now s := by
  cases c with
  | insert query response upstreamId =>
    have hcount := eventCount_insert (p := p) s scan now query response upstreamId
    have hle := length_evictedTexts_le (p := p) s scan now upstreamId
    simp only [LocalChange.apply, LocalChange.Splits, hcount]
    rw [ne_eq, ← List.length_eq_zero_iff]
    cases s.cdcSender.isSome with
    | false => simp
    | true =>
      cases (p.toVec response).isSome with
      | false => simpa using hle
      | true =>
        simp only [if_true, true_and]
        omega
  | remove query =>
    simp only [LocalChange.apply, LocalChange.Splits, eventCount_remove, not_false_eq_true,
      iff_true]
    split <;> omega
  | clear =>
    simp only [LocalChange.apply, LocalChange.Splits, eventCount_clear, not_false_eq_true,
      iff_true]
    split <;> omega

/-- After a local change of the first mesh gave the second, no delivery makes its destination
originate an event, and every node has originated at most one. -/
structure Quiescent (p : Platform) {ι : Type} [DecidableEq ι] (m m' : Mesh ι)
    (ds : List (Delivery ι)) : Prop where
  silent : Machine.AllSteps (Mesh.deliver p)
    (fun m d => ∀ i, (m.deliver p d).count i = m.count i) m' ds
  once : ∀ i, (Machine.run (Mesh.deliver p) m' ds).count i ≤ m.count i + 1

/-- A change is quiescent in exactly the runs in which it publishes one event at most and no
delivery reaches a node with a sender that applies it. -/
theorem quiescent_iff {ι : Type} [DecidableEq ι] (m : Mesh ι) (i : ι) (c : LocalChange)
    (scan : Scan) (now : Clock) (ds : List (Delivery ι)) :
    Quiescent p m (m.change p i scan now c) ds ↔
      ¬ c.Splits p scan now (m.nodes i).store ∧
        Machine.AllSteps (Mesh.deliver p) (fun m d => ¬ m.Echoes p d)
          (m.change p i scan now c) ds := by
  have hcount (j : ι) := Mesh.count_setStore m i j (c.apply p scan now (m.nodes i).store)
  constructor
  · intro h
    constructor
    · rw [← eventCount_localChange_le_iff]
      have hle := (Mesh.count_run (p := p) (m.change p i scan now c) ds i).trans (h.once i)
      rw [Mesh.change, hcount, if_pos rfl] at hle
      exact hle
    · exact Machine.allSteps_imp (fun m d => (m.deliver_silent_iff d).mp) h.silent
  · rintro ⟨hsplit, hdeliver⟩
    have hsilent := Machine.allSteps_imp
      (fun (m : Mesh ι) d => (m.deliver_silent_iff (p := p) d).mpr) hdeliver
    refine ⟨hsilent, ?_⟩
    intro j
    rw [Mesh.count_run_of_silent hsilent j, Mesh.change, hcount]
    split
    · rename_i hj
      subst hj
      exact (eventCount_localChange_le_iff c scan now (m.nodes j).store).mpr hsplit
    · exact Nat.le_succ _

def pairMesh : Mesh Bool where
  nodes i :=
    let nodeId := if i then "b" else "a"
    ⟨nodeId, (CacheStore.new 60000000000 60000000000 10).withCdcSender (EventSender.new nodeId)⟩
  cursor _ _ := 0

/-- A removal on one node comes back to it as a removal of its peer, and is published again. -/
theorem removal_not_quiescent :
    ¬ Quiescent Platform.sample pairMesh
      (pairMesh.change Platform.sample false Scan.stored ⟨0, 0⟩ (.remove "q"))
      [⟨false, true, Scan.stored, ⟨0, 0⟩⟩, ⟨true, false, Scan.stored, ⟨0, 0⟩⟩] := by
  intro h
  have honce := h.once false
  revert honce
  decide +kernel

end Conproxy
