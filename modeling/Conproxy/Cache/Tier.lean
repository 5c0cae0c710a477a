import Conproxy.Cache.Calls

/-!
# The semantic tier behind the store

The store keeps a handle to a semantic tier. Lookups, evictions and plain insertions leave the
tier alone, so what is in it was put there by insertions that came with an embedding.
-/

namespace Conproxy.CacheStore

set_option autoImplicit false

variable {p : Platform} {s s' : CacheStore}

theorem semantic_of_frame (h : s'.frame = s.frame) : s'.semantic = s.semantic := by
  have hsemantic : s'.frame.semantic = s.frame.semantic := by rw [h]
  exact hsemantic

theorem semantic_getByHash (s : CacheStore) (h : QueryHash) :
    (s.getByHash h).2.semantic = s.semantic := by
  unfold getByHash
  split <;> rfl

theorem semantic_getMapped (s : CacheStore) (exact : QueryHash) :
    (s.getMapped exact).2.semantic = s.semantic := by
  unfold getMapped
  split
  · exact semantic_getByHash s _
  · rfl

theorem semantic_getWithHitType (s : CacheStore) (query : String) :
    (s.getWithHitType p query).2.semantic = s.semantic := by
  simp only [getWithHitType]
  split
  · have h := semantic_getByHash s (hashQuery p query)
    rcases hr : s.getByHash (hashQuery p query) with ⟨_ | e, s'⟩
    · rw [hr] at h
      exact h
    · rw [hr] at h
      exact h
  · have hmapped := semantic_getMapped s (hashQueryExact p query)
    rcases hr : s.getMapped (hashQueryExact p query) with ⟨_ | e, s'⟩
    · rw [hr] at hmapped
      have h := (semantic_getByHash s' (hashQuery p query)).trans hmapped
      dsimp only
      rcases hr' : s'.getByHash (hashQuery p query) with ⟨_ | e, s''⟩
      · rw [hr'] at h
        exact h
      · rw [hr'] at h
        exact h
    · rw [hr] at hmapped
      exact hmapped

theorem semantic_getVerified (s : CacheStore) (query : String) :
    (s.getVerified p query).2.semantic = s.semantic := by
  simp only [getVerified]
  split
  · split
    · exact semantic_of_frame (frame_trackedRemove s _)
    · rfl
  · rfl

theorem semantic_removeAll (hs : List QueryHash) (s : CacheStore) :
    (removeAll p hs s).2.semantic = s.semantic := by
  refine removeAll_invariant (fun t => t.semantic = s.semantic) (fun t ht h _ => ?_) rfl
  exact (semantic_of_frame (frame_trackedRemove t h)).trans ht

theorem semantic_publishRemoves (now : Clock) (qs : List String) (s : CacheStore) :
    (publishRemoves now qs s).semantic = s.semantic := by
  induction qs generalizing s with
  | nil => rfl
  | cons q rest ih => exact ih (s.publish now .remove (.remove q))

theorem semantic_evictFromUpstream (s : CacheStore) (scan : Scan) (now : Clock)
    (upstreamId : String) (count : Nat) :
    (s.evictFromUpstream p scan now upstreamId count).2.semantic = s.semantic := by
  unfold evictFromUpstream
  dsimp only
  split
  · rfl
  · split
    · exact (semantic_publishRemoves now _ _).trans (semantic_removeAll _ s)
    · exact (semantic_publishRemoves now _ _).trans (semantic_removeAll _ s)

theorem semantic_makeRoomForUpstream (s : CacheStore) (scan : Scan) (now : Clock)
    (upstreamId : String) :
    (s.makeRoomForUpstream p scan now upstreamId).semantic = s.semantic := by
  unfold makeRoomForUpstream
  split
  · split
    · exact semantic_evictFromUpstream s scan now upstreamId 1
    · rfl
  · rfl

theorem semantic_evictExpired (target : Nat) (hs : List QueryHash) (evicted : Nat)
    (s : CacheStore) : (evictExpired p target hs evicted s).2.semantic = s.semantic := by
  induction hs generalizing evicted s with
  | nil => rfl
  | cons h rest ih =>
    have hstep := semantic_of_frame (frame_trackedRemove (p := p) s h)
    unfold evictExpired
    split
    · rfl
    · rcases hr : s.trackedRemove p h with ⟨_ | old, s'⟩
      · rw [hr] at hstep
        exact (ih _ s').trans hstep
      · rw [hr] at hstep
        exact (ih _ s').trans hstep

theorem semantic_evictRounds (rounds evicted : Nat) (s : CacheStore) :
    (evictRounds p rounds evicted s).2.semantic = s.semantic := by
  induction rounds generalizing evicted s with
  | zero => rfl
  | succ rounds ih =>
    have hstep := semantic_of_frame (evictSmallThenMain_spec (p := p) s).frame
    unfold evictRounds
    split
    · rfl
    · rw [s3fifoEvictOne]
      rcases hr : s.evictSmallThenMain p with ⟨_ | source, s'⟩
      · rw [hr] at hstep
        exact (ih _ s').trans hstep
      · rw [hr] at hstep
        exact (ih _ s').trans hstep

theorem semantic_evictSmart (s : CacheStore) (scan : Scan) (now : Clock) (target : Nat) :
    (s.evictSmart p scan now target).semantic = s.semantic := by
  unfold evictSmart
  dsimp only
  generalize List.map Prod.fst (List.filter _ (s.iter scan)) = expired
  have hfirst := semantic_evictExpired (p := p) target expired 0 s
  generalize evictExpired p target expired 0 s = first at hfirst ⊢
  have hsecond : (if first.1 < target then
      evictRounds p (target - first.1) 0 first.2 else (0, first.2)).2.semantic = s.semantic := by
    split
    · exact (semantic_evictRounds _ _ _).trans hfirst
    · exact hfirst
  generalize (if first.1 < target then
    evictRounds p (target - first.1) 0 first.2 else (0, first.2)) = second at hsecond ⊢
  split
  · exact hsecond
  · exact hsecond

theorem semantic_enforceMemoryLimit (s : CacheStore) :
    (s.enforceMemoryLimit p).2.semantic = s.semantic := by
  unfold enforceMemoryLimit
  split
  · rfl
  · have h := semantic_of_frame (evictWhile_chain (p := p) (overMemory s.maxMemoryBytes)
      (s.len + 1) ⟨0, 0⟩ s).2
    dsimp only
    split
    · exact h
    · exact h

theorem semantic_admitted (b : Bool) (s : CacheStore) (h : QueryHash) :
    (if b then s.s3fifoAdmit p h else s).semantic = s.semantic := by
  split
  · exact semantic_of_frame (frame_s3fifoAdmit s h)
  · rfl

theorem semantic_storeEntry (s : CacheStore) (h : QueryHash) (e : CacheEntry) :
    (s.storeEntry p h e).semantic = s.semantic :=
  semantic_admitted _ (s.trackedInsert p h e) h

theorem semantic_rememberExact (s : CacheStore) (query : String) (h : QueryHash) :
    (s.rememberExact p query h).semantic = s.semantic := by
  unfold rememberExact
  split <;> rfl

theorem semantic_insertImpl (s : CacheStore) (scan : Scan) (now : Clock) (query : String)
    (response : QueryResponse) (upstreamId contextId : String) :
    (s.insertImpl p scan now query response upstreamId contextId).semantic = s.semantic := by
  have hroom := semantic_makeRoomForUpstream (p := p) s scan now upstreamId
  simp only [insertImpl]
  generalize s.makeRoomForUpstream p scan now upstreamId = room at hroom ⊢
  have hstored (b : Bool) (t : CacheStore) (ht : t.semantic = room.semantic) :
      (if b then (t.rememberExact p query (hashQuery p query)).s3fifoAdmit p (hashQuery p query)
        else t.rememberExact p query (hashQuery p query)).semantic = s.semantic :=
    (semantic_admitted b _ _).trans ((semantic_rememberExact t query _).trans (ht.trans hroom))
  split
  · exact hstored _ _ rfl
  · exact hstored _ _ rfl

theorem semantic_insertByHash (s : CacheStore) (scan : Scan) (now : Clock) (h : QueryHash)
    (response : QueryResponse) (upstreamId : String) (queryKey : Option String) :
    (s.insertByHash p scan now h response upstreamId queryKey).semantic = s.semantic := by
  have hroom := semantic_makeRoomForUpstream (p := p) s scan now upstreamId
  simp only [insertByHash]
  split
  · exact (semantic_storeEntry _ h _).trans hroom
  · exact (semantic_storeEntry _ h _).trans hroom

theorem semantic_warmup (now : Clock) (upstreamId : String)
    (entries : List (String × QueryResponse)) (inserted : Nat) (s : CacheStore) :
    (warmup p now upstreamId entries inserted s).2.semantic = s.semantic := by
  induction entries generalizing inserted s with
  | nil => rfl
  | cons entry rest ih =>
    unfold warmup
    split
    · exact ih inserted s
    · split
      · rfl
      · exact (ih _ _).trans (semantic_storeEntry s _ _)

theorem semantic_restoreHashes (now : Clock) (t : PersistentCache) (hs : List QueryHash)
    (restored : Nat) (s : CacheStore) :
    (restoreHashes p now t hs restored s).2.semantic = s.semantic := by
  induction hs generalizing restored s with
  | nil => rfl
  | cons h rest ih =>
    unfold restoreHashes
    split
    · rfl
    · split
      · exact (ih _ _).trans (semantic_of_frame (frame_s3fifoAdmit _ h))
      · exact ih restored s

theorem semantic_flushEntries (now : Clock) (es : List (QueryHash × CacheEntry))
    (s : CacheStore) : (flushEntries p now es s).semantic = s.semantic := by
  induction es generalizing s with
  | nil => rfl
  | cons e rest ih => exact ih (s.persistEntry p now e.1 e.2)

def tierAfter (s : CacheStore) : Op → Option SemanticCache
  | .insertByHashWithEmbedding h _ _ (some e) _ => s.semantic.map fun t => t.insert h e
  | .withSemanticCache semantic => some semantic
  | _ => s.semantic

theorem tierAfter_congr (h : s'.semantic = s.semantic) (op : Op) :
    s'.tierAfter op = s.tierAfter op := by
  simp only [tierAfter, h]

theorem semantic_exec (s : CacheStore) (call : Call) :
    (exec p s call).semantic = s.tierAfter call.op := by
  obtain ⟨now, scan, op⟩ := call
  cases op with
  | get query | getWithHitType query => exact semantic_getWithHitType s query
  | getByHash h => exact semantic_getByHash s h
  | getVerified query => exact semantic_getVerified s query
  | insert query response upstreamId =>
    exact semantic_insertImpl s scan now query response upstreamId "default"
  | insertWithContext query response upstreamId contextId =>
    exact semantic_insertImpl s scan now query response upstreamId contextId
  | insertByHash h response upstreamId queryKey =>
    exact semantic_insertByHash s scan now h response upstreamId queryKey
  | insertByHashWithEmbedding h response upstreamId embedding queryKey =>
    have hinsert := semantic_insertByHash (p := p) s scan now h response upstreamId queryKey
    cases embedding with
    | none => exact hinsert
    | some e => exact congrArg (Option.map fun t => t.insert h e) hinsert
  | warmup entries upstreamId => exact semantic_warmup now upstreamId entries 0 s
  | restoreFromPersistence =>
    simp only [exec, restoreFromPersistence, tierAfter]
    split
    · exact semantic_restoreHashes now _ _ 0 s
    · rfl
  | flushToPersistence => exact semantic_flushEntries now (s.iter scan) s
  | extendTtl query =>
    simp only [exec, extendTtl, tierAfter]
    split <;> rfl
  | remove query =>
    have hremoved : (s.trackedRemove p (hashQuery p query)).2.semantic = s.semantic :=
      semantic_of_frame (frame_trackedRemove s _)
    exact hremoved
  | evictSmart targetCount => exact semantic_evictSmart s scan now targetCount
  | evictTrulyExpired =>
    simp only [exec, evictTrulyExpired, tierAfter]
    split
    · exact semantic_removeAll _ s
    · exact semantic_removeAll _ s
  | evictFilter criteria =>
    simp only [exec, evictFilter, tierAfter]
    split
    · exact semantic_removeAll _ s
    · exact semantic_removeAll _ s
  | evictFromUpstream upstreamId count =>
    exact semantic_evictFromUpstream s scan now upstreamId count
  | enforcePerUpstreamLimit upstreamId maxEntries =>
    simp only [exec, enforcePerUpstreamLimit, tierAfter]
    split
    · rfl
    · exact semantic_evictFromUpstream s scan now upstreamId _
  | enforceMemoryLimit => exact semantic_enforceMemoryLimit s
  | removeCorrupted => exact semantic_removeAll _ s
  | updateConfigFingerprint upstreamUrl scopeSeeds =>
    simp only [exec, updateConfigFingerprint, tierAfter]
    split <;> rfl
  | setMaxEntries maxEntries =>
    simp only [exec, setMaxEntries, tierAfter]
    split
    · rename_i s' hs'
      split at hs'
      · cases hs'
      · cases hs'
        rfl
    · rfl
  | clear | setMaxMemoryBytes _ | setPerUpstreamLimit _ | setMaxFrozenDuration _
  | setFreshDuration _ | setStaleDuration _ | setPersistence _ | withNormalizedMatching _
  | withCdcSender _ | withSemanticCache _ => rfl

end Conproxy.CacheStore
