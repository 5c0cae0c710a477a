import Conproxy.Cache.Mappings
import Conproxy.Cache.Reload

/-!
# The peer receiver

`deduplicate` and `apply_event` of `peer/receiver.rs`. The lookup in `deduplicate` is an
ordinary `get`, so it touches the entry. An accepted event goes through the same `insert`,
`remove` and `clear` as a local change.
-/

namespace Conproxy

open CacheStore

set_option autoImplicit false

variable (p : Platform)

inductive DeduplicateResult where
  | apply
  | echo
  | stale
  | expired
deriving DecidableEq

def localTimestampMs (e : CacheEntry) : Nat := (e.cachedAtWall.map millis).getD 0

def CdcEvent.expiredAt (event : CdcEvent) (now : Clock) : Bool :=
  0 < event.absoluteExpiryMs && event.absoluteExpiryMs ≤ now.nowMs

def deduplicate (event : CdcEvent) (localNodeId : String) (now : Clock) (cache : CacheStore) :
    DeduplicateResult × CacheStore :=
  if event.originNodeId = localNodeId then (.echo, cache)
  else if event.expiredAt now then (.expired, cache)
  else if event.eventType = .insert then
    match cache.get p event.queryKey with
    | (some existing, cache') =>
      if event.timestampMs ≤ localTimestampMs existing then (.stale, cache') else (.apply, cache')
    | (none, cache') => (.apply, cache')
  else (.apply, cache)

/-- `apply_event`: whether the event was applied, and the cache after it. -/
def applyEvent (event : CdcEvent) (scan : Scan) (now : Clock) (cache : CacheStore) :
    Bool × CacheStore :=
  match event.eventType with
  | .insert =>
    if event.payload = [] then (false, cache)
    else
      match p.fromSlice event.payload with
      | some response =>
        (true, cache.insert p scan now event.queryKey response event.upstreamId)
      | none => (false, cache)
  | .remove =>
    if event.queryKey = "" then (true, cache.clear now)
    else (true, cache.remove p now event.queryKey)
  | .fetchStart => (false, cache)
  | .fetchCancel => (false, cache)

def handleEvent (event : CdcEvent) (localNodeId : String) (scan : Scan) (now : Clock)
    (cache : CacheStore) : CacheStore :=
  match deduplicate p event localNodeId now cache with
  | (.apply, cache') => (applyEvent p event scan now cache').2
  | (_, cache') => cache'

variable {p}

theorem touched_deduplicate (event : CdcEvent) (localNodeId : String) (now : Clock)
    (cache : CacheStore) : Touched cache (deduplicate p event localNodeId now cache).2 := by
  unfold deduplicate
  split
  · exact .refl cache
  · split
    · exact .refl cache
    · split
      · have h := touched_get (p := p) cache event.queryKey
        rcases hr : cache.get p event.queryKey with ⟨_ | existing, cache'⟩
        · rw [hr] at h
          exact h
        · rw [hr] at h
          dsimp only
          split
          · exact h
          · exact h
      · exact .refl cache

end Conproxy
