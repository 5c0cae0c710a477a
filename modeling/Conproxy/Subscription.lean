import Conproxy.Cdc

/-!
# Subscriptions to change events

`subscribe` of `cdc/stream.rs`. The requested names are parsed first, and names that are not known
are dropped; whether anything is filtered at all is then decided by what is left.
-/

namespace Conproxy

set_option autoImplicit false

namespace CdcEventType

def toProto : CdcEventType → Nat
  | insert => 1
  | remove => 2
  | fetchStart => 3
  | fetchCancel => 4

/-- `as_str`: the name for filtering. -/
def asStr : CdcEventType → String
  | insert => "insert"
  | remove => "remove"
  | fetchStart => "fetch_start"
  | fetchCancel => "fetch_cancel"

/-- The names that `subscribe` parses. -/
def parse : String → Option CdcEventType
  | "insert" => some insert
  | "remove" => some remove
  | "fetch_start" => some fetchStart
  | "fetch_cancel" => some fetchCancel
  | _ => none

theorem parse_asStr (t : CdcEventType) : parse t.asStr = some t := by
  cases t <;> rfl

theorem parse_eq_some_iff {name : String} {t : CdcEventType} :
    parse name = some t ↔ name = t.asStr := by
  constructor
  · intro h
    unfold parse at h
    split at h
    · cases h
      rfl
    · cases h
      rfl
    · cases h
      rfl
    · cases h
      rfl
    · cases h
  · rintro rfl
    exact parse_asStr t

end CdcEventType

/-- The event of the wire format, with the number of its type. -/
structure ProtoCdcEvent where
  sequence : Nat
  timestampMs : Nat
  eventType : Nat
  queryKey : String
  payload : List UInt8
  upstreamId : String
  contextId : String
  originNodeId : String
  absoluteExpiryMs : Nat
deriving DecidableEq

def internalToProto (event : CdcEvent) : ProtoCdcEvent where
  sequence := event.sequence
  timestampMs := event.timestampMs
  eventType := event.eventType.toProto
  queryKey := event.queryKey
  payload := event.payload
  upstreamId := event.upstreamId
  contextId := event.contextId
  originNodeId := event.originNodeId
  absoluteExpiryMs := event.absoluteExpiryMs

structure CdcSubscribeRequest where
  consumerId : String
  eventTypes : List String

/-- What `recv` on the broadcast channel answers, with whether the client is still there when an
event is sent on. -/
inductive Received where
  | event (event : CdcEvent) (connected : Bool)
  | lagged (skipped : Nat)
  | closed

namespace CdcServiceImpl

def filter (request : CdcSubscribeRequest) : List CdcEventType :=
  request.eventTypes.filterMap CdcEventType.parse

/-- The loop of the spawned task: what goes into the client's stream. -/
def forward (filter : List CdcEventType) : List Received → List ProtoCdcEvent
  | [] => []
  | .event event connected :: rest =>
    if !filter.isEmpty && !filter.contains event.eventType then forward filter rest
    else if connected then internalToProto event :: forward filter rest
    else []
  | .lagged _ :: rest => forward filter rest
  | .closed :: _ => []

def subscribe (request : CdcSubscribeRequest) (received : List Received) : List ProtoCdcEvent :=
  forward (filter request) received

end CdcServiceImpl

/-- The events as a subscriber without lag that stays connected receives them. -/
def withoutLag (events : List CdcEvent) : List Received := events.map fun event => .event event true

def CdcSubscribeRequest.asksFor (request : CdcSubscribeRequest) (event : CdcEvent) : Bool :=
  request.eventTypes.isEmpty || request.eventTypes.contains event.eventType.asStr

/-- The stream carries the events that are asked for, in order. -/
def DeliversAsked (request : CdcSubscribeRequest) (events : List CdcEvent) : Prop :=
  CdcServiceImpl.subscribe request (withoutLag events) =
    (events.filter request.asksFor).map internalToProto

def CdcSubscribeRequest.namesKnown (request : CdcSubscribeRequest) : Bool :=
  request.eventTypes.any fun name => (CdcEventType.parse name).isSome

instance (request : CdcSubscribeRequest) (events : List CdcEvent) :
    Decidable (DeliversAsked request events) :=
  inferInstanceAs (Decidable (_ = _))

namespace CdcServiceImpl

def passes (types : List CdcEventType) (event : CdcEvent) : Bool :=
  types.isEmpty || types.contains event.eventType

theorem forward_withoutLag (types : List CdcEventType) (events : List CdcEvent) :
    forward types (withoutLag events) = (events.filter (passes types)).map internalToProto := by
  induction events with
  | nil => rfl
  | cons event rest ih =>
    have hcons : forward types (withoutLag (event :: rest)) =
        if !passes types event then forward types (withoutLag rest)
        else internalToProto event :: forward types (withoutLag rest) := by
      rw [passes, Bool.not_or]
      rfl
    rw [hcons, ih, List.filter_cons]
    cases passes types event with
    | true => rfl
    | false => rfl

theorem mem_filter_iff {request : CdcSubscribeRequest} {t : CdcEventType} :
    t ∈ filter request ↔ t.asStr ∈ request.eventTypes := by
  constructor
  · intro h
    obtain ⟨name, hname, hparse⟩ := List.mem_filterMap.mp h
    exact CdcEventType.parse_eq_some_iff.mp hparse ▸ hname
  · intro h
    exact List.mem_filterMap.mpr ⟨t.asStr, h, CdcEventType.parse_asStr t⟩

theorem filter_isEmpty (request : CdcSubscribeRequest) :
    (filter request).isEmpty = !request.namesKnown := by
  unfold filter CdcSubscribeRequest.namesKnown
  induction request.eventTypes with
  | nil => rfl
  | cons name rest ih =>
    rw [List.filterMap_cons, List.any_cons]
    cases CdcEventType.parse name with
    | none => exact ih
    | some t => rfl

end CdcServiceImpl

theorem CdcSubscribeRequest.namesKnown_of_mem {request : CdcSubscribeRequest} {t : CdcEventType}
    (h : t.asStr ∈ request.eventTypes) : request.namesKnown = true := by
  apply List.any_eq_true.mpr
  exact ⟨t.asStr, h, by rw [CdcEventType.parse_asStr]; rfl⟩

section Delivers

open CdcServiceImpl

variable {request : CdcSubscribeRequest} {events : List CdcEvent}

theorem subscribe_of_known (h : request.namesKnown = true) : DeliversAsked request events := by
  have hlist : request.eventTypes.isEmpty = false := by
    cases hcase : request.eventTypes with
    | nil => simp [CdcSubscribeRequest.namesKnown, hcase] at h
    | cons name rest => rfl
  have hasked (event : CdcEvent) : passes (filter request) event = request.asksFor event := by
    rw [passes, filter_isEmpty, h, CdcSubscribeRequest.asksFor, hlist, Bool.eq_iff_iff]
    simp [mem_filter_iff]
  unfold DeliversAsked subscribe
  rw [forward_withoutLag, List.filter_congr fun event _ => hasked event]

theorem subscribe_of_unknown (h : request.namesKnown = false) :
    subscribe request (withoutLag events) = events.map internalToProto := by
  have hall (event : CdcEvent) : passes (filter request) event = true := by
    rw [passes, filter_isEmpty, h]
    rfl
  unfold subscribe
  rw [forward_withoutLag, List.filter_eq_self.mpr fun event _ => hall event]

theorem asksFor_of_unknown (h : request.namesKnown = false) (hlist : request.eventTypes ≠ [])
    (event : CdcEvent) : request.asksFor event = false := by
  have hname : event.eventType.asStr ∉ request.eventTypes := by
    intro hmem
    rw [CdcSubscribeRequest.namesKnown_of_mem hmem] at h
    cases h
  simp [CdcSubscribeRequest.asksFor, hlist, hname]

/-- A stream carries what is asked for exactly if the list is empty, or names a type that is known,
or nothing is published. -/
theorem delivers_asked_iff (request : CdcSubscribeRequest) (events : List CdcEvent) :
    DeliversAsked request events ↔
      request.eventTypes = [] ∨ request.namesKnown = true ∨ events = [] := by
  cases hknown : request.namesKnown with
  | true => simp [subscribe_of_known hknown]
  | false =>
    unfold DeliversAsked
    rw [subscribe_of_unknown hknown]
    by_cases hlist : request.eventTypes = []
    · have hall : events.filter request.asksFor = events := by
        apply List.filter_eq_self.mpr
        intro event _
        simp [CdcSubscribeRequest.asksFor, hlist]
      simp [hall, hlist]
    · have hnone : events.filter request.asksFor = [] := by
        apply List.filter_eq_nil_iff.mpr
        intro event _
        simp [asksFor_of_unknown hknown hlist]
      simp [hnone, hlist]

end Delivers

def sampleEvent : CdcEvent := ⟨1, 1000, .insert, "a", [], "wiki", "default", "node", 0⟩

/-- No event type is called `clear`. -/
theorem clear_receives_insert : ¬ DeliversAsked ⟨"monitor", ["clear"]⟩ [sampleEvent] := by
  decide

end Conproxy
