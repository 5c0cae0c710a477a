import Conproxy.Types

/-!
# Change events

The events of `cdc/event.rs` and the sender that stamps them. The broadcast channel is the
list of everything sent so far; a subscriber reads it from where it joined.
-/

namespace Conproxy

set_option autoImplicit false

/-- One reading of the two clocks, in nanoseconds: `Instant::now` and `SystemTime::now`. -/
structure Clock where
  instant : Nat
  wall : Nat
deriving DecidableEq

def millis (wall : Nat) : Nat := wall / 1000000

def Clock.nowMs (now : Clock) : Nat := millis now.wall

inductive CdcEventType where
  | insert
  | remove
  | fetchStart
  | fetchCancel
deriving DecidableEq

structure CdcEvent where
  sequence : Nat
  timestampMs : Nat
  eventType : CdcEventType
  queryKey : String
  payload : List UInt8
  upstreamId : String
  contextId : String
  originNodeId : String
  absoluteExpiryMs : Nat
deriving DecidableEq

structure CdcEventBuilder where
  queryKey : String
  payload : List UInt8
  upstreamId : String
  contextId : String
  absoluteExpiryMs : Nat

def CdcEventBuilder.insert (queryKey : String) (payload : List UInt8) (upstreamId : String) :
    CdcEventBuilder := ⟨queryKey, payload, upstreamId, "", 0⟩

def CdcEventBuilder.remove (queryKey : String) : CdcEventBuilder := ⟨queryKey, [], "", "", 0⟩

structure EventSender where
  sequence : Nat
  nodeId : String
  sent : List CdcEvent
deriving DecidableEq

def EventSender.new (nodeId : String) : EventSender := ⟨1, nodeId, []⟩

/-- The event that `send` puts on the channel. -/
def EventSender.stamp (sender : EventSender) (nowMs : Nat) (eventType : CdcEventType)
    (b : CdcEventBuilder) : CdcEvent where
  sequence := sender.sequence
  timestampMs := nowMs
  eventType := eventType
  queryKey := b.queryKey
  payload := b.payload
  upstreamId := b.upstreamId
  contextId := b.contextId
  originNodeId := sender.nodeId
  absoluteExpiryMs := b.absoluteExpiryMs

def EventSender.send (sender : EventSender) (nowMs : Nat) (eventType : CdcEventType)
    (b : CdcEventBuilder) : EventSender :=
  { sender with
    sequence := sender.sequence + 1
    sent := sender.sent ++ [sender.stamp nowMs eventType b] }

@[simp] theorem EventSender.send_sent (sender : EventSender) (nowMs : Nat)
    (eventType : CdcEventType) (b : CdcEventBuilder) :
    (sender.send nowMs eventType b).sent =
      sender.sent ++ [sender.stamp nowMs eventType b] := rfl

end Conproxy
