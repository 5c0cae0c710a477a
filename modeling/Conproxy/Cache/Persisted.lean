import Conproxy.Lib.Machine
import Conproxy.Sample
import Conproxy.Cache.Contents

/-!
# What survives a restart

A restart keeps the disk and loses the memory. An entry that has left memory stays out only if it
has left the disk as well, and of all removals only `remove` and `clear` reach the disk. What
does come back is the stored form of an entry, which does not hold all of it.
-/

namespace Conproxy

open Relation CacheStore

set_option autoImplicit false

/-- A new process over the disk of the old one. -/
def CacheStore.restarted (s : CacheStore) (freshDuration staleDuration : Duration)
    (maxEntries : Nat) (ttlJitterPercent : ℚ) : CacheStore :=
  { withJitter freshDuration staleDuration maxEntries ttlJitterPercent with
    persistence := s.persistence }

def CacheStore.OnDisk (s : CacheStore) (h : QueryHash) : Prop :=
  ∃ t ∈ s.persistence, hashBytes h ∈ t.entries

/-- The calls that invalidate an entry on purpose. A cleared store and a changed configuration
invalidate whatever there is. -/
def Invalidates (p : Platform) (s : CacheStore) (call : Call) (h : QueryHash) : Prop :=
  match call.op with
  | .remove query => h = hashQuery p query
  | .clear => True
  | .evictFilter criteria => h ∈ s.matchingHashes p call.scan call.now criteria
  | .evictFromUpstream upstreamId count =>
    h ∈ (s.upstreamHashes call.scan call.now upstreamId).take count
  | .updateConfigFingerprint upstreamUrl scopeSeeds =>
    (s.updateConfigFingerprint p upstreamUrl scopeSeeds).1 = true
  | .getVerified query =>
    h = hashQuery p query ∧ ∃ e, s.entries.lookup h = some e ∧ corrupted p e = true
  | .removeCorrupted => ∃ e, s.entries.lookup h = some e ∧ corrupted p e = true
  | _ => False

/-- The removals that are mirrored on disk. -/
def Op.unpersists : Op → Bool
  | .remove _ | .clear => true
  | _ => false

/-- The call stores a new entry under the hash. -/
def Reinserts (p : Platform) (s : CacheStore) (call : Call) (h : QueryHash) : Prop :=
  call.op ≠ .restoreFromPersistence ∧ ∃ i ∈ insertions p s call, i.hash = h

/-- Neither in memory nor on disk. -/
structure Gone (h : QueryHash) (s : CacheStore) : Prop where
  memory : h ∉ s.entries
  disk : ¬ s.OnDisk h

variable {p : Platform} {R : QueryHash → Prop} {h : QueryHash}

theorem onDisk_congr {s s' : CacheStore} (hs : s'.persistence = s.persistence) :
    s'.OnDisk h ↔ s.OnDisk h := by
  rw [OnDisk, OnDisk, hs]

theorem mem_storeEntry {t : PersistentCache} {k : QueryHash} {e : PersistedEntry}
    (hk : hashBytes h ∈ (t.storeEntry p k e).entries) : hashBytes h ∈ t.entries ∨ h = k := by
  unfold PersistentCache.storeEntry at hk
  split at hk
  · rcases (AList.mem_insert _).mp hk with heq | hold
    · exact Or.inr (hashBytes_injective heq)
    · exact Or.inl hold
  · exact Or.inl hk

theorem onDisk_of_stored {s s' : CacheStore} {k : QueryHash} {e : PersistedEntry}
    (hs : s'.persistence = s.persistence.map fun t => t.storeEntry p k e)
    (hdisk : s'.OnDisk h) : s.OnDisk h ∨ h = k := by
  obtain ⟨t', ht', hmem⟩ := hdisk
  rw [hs] at ht'
  obtain ⟨t, ht, rfl⟩ := Option.map_eq_some_iff.mp ht'
  exact (mem_storeEntry hmem).imp (fun hold => ⟨t, ht, hold⟩) id

theorem onDisk_flushEntries (now : Clock) (es : List (QueryHash × CacheEntry)) (s : CacheStore)
    (hdisk : (flushEntries p now es s).OnDisk h) : s.OnDisk h ∨ h ∈ es.map Prod.fst := by
  induction es generalizing s with
  | nil => exact Or.inl hdisk
  | cons e rest ih =>
    rcases ih (s.persistEntry p now e.1 e.2) hdisk with hdisk | hmem
    · rcases onDisk_of_stored rfl hdisk with hold | rfl
      · exact Or.inl hold
      · exact Or.inr (by simp)
    · exact Or.inr (by simp [hmem])

theorem Gone.pruned {s s' : CacheStore} (hs : Gone h s) (hp : Pruned p R s s') : Gone h s' := by
  refine ⟨?_, by rw [onDisk_congr hp.persistence_eq]; exact hs.disk⟩
  have hmemory := hs.memory
  clear hs
  induction hp with
  | refl => exact hmemory
  | tail _ hstep ih =>
    cases hstep with
    | remove hr =>
      rw [mem_trackedRemove]
      exact fun hk => ih hk.1
    | touch hl hentries =>
      rw [hentries, AList.mem_insert]
      rintro (rfl | hk)
      · exact ih (WeightedTable.mem_of_lookup _ hl)
      · exact ih hk
    | keep hentries =>
      rw [hentries]
      exact ih

theorem Gone.written {i : Insertion} {text : Option String} {s : CacheStore}
    (hw : Written p i text s) (hi : i.hash ≠ h) (hs : Gone h i.store) : Gone h s := by
  refine ⟨?_, fun hdisk => ?_⟩
  · rw [hw.entries, AList.mem_insert]
    rintro (rfl | hk)
    · exact hi rfl
    · exact hs.memory hk
  · rcases hw.disk with hsame | ⟨e, hstored⟩
    · rw [onDisk_congr hsame] at hdisk
      exact hs.disk hdisk
    · rcases onDisk_of_stored hstored hdisk with hold | rfl
      · exact hs.disk hold
      · exact hi rfl

theorem Gone.writes {text : Option String} {s s' : CacheStore} {is : List Insertion}
    (hw : Writes p R text s is s') (hi : ∀ i ∈ is, i.hash ≠ h) (hs : Gone h s) : Gone h s' :=
  hw.invariant (Gone h) (fun i => i.hash ≠ h) (fun _ _ hp hs => hs.pruned hp)
    (fun _ _ hw hi hs => hs.written hw hi) hi hs

theorem onDisk_of_mem_restoreInsertions {now : Clock} {t : PersistentCache} {hs : List QueryHash}
    {s : CacheStore} {i : Insertion} (hi : i ∈ restoreInsertions p now t hs s) :
    hashBytes i.hash ∈ t.entries := by
  induction hs generalizing s with
  | nil => cases hi
  | cons k rest ih =>
    unfold restoreInsertions at hi
    split at hi
    · cases hi
    · cases hload : t.loadEntry p k with
      | none =>
        rw [hload] at hi
        exact ih hi
      | some e =>
        rw [hload] at hi
        rcases List.mem_cons.mp hi with rfl | hi
        · obtain ⟨bytes, hbytes, -⟩ := Option.bind_eq_some_iff.mp hload
          exact WeightedTable.mem_of_lookup _ hbytes
        · exact ih hi

theorem Gone.not_inserted {s : CacheStore} (hs : Gone h s) {call : Call}
    (hcall : ¬ Reinserts p s call h) : ∀ i ∈ insertions p s call, i.hash ≠ h := by
  rintro i hi rfl
  by_cases hop : call.op = .restoreFromPersistence
  · simp only [insertions, hop] at hi
    cases ht : s.persistence with
    | none =>
      rw [ht] at hi
      cases hi
    | some t =>
      rw [ht] at hi
      exact hs.disk ⟨t, ht, onDisk_of_mem_restoreInsertions hi⟩
  · exact hcall ⟨hop, i, hi, rfl⟩

theorem Gone.of_tables_eq {s s' : CacheStore} (hs : Gone h s) (hentries : s'.entries = s.entries)
    (hdisk : s'.persistence = s.persistence) : Gone h s' :=
  ⟨by rw [hentries]; exact hs.memory, by rw [onDisk_congr hdisk]; exact hs.disk⟩

theorem gone_remove (s : CacheStore) (now : Clock) (query : String) :
    Gone (hashQuery p query) (s.remove p now query) := by
  refine ⟨?_, ?_⟩
  · change hashQuery p query ∉ (s.trackedRemove p (hashQuery p query)).2.entries
    rw [mem_trackedRemove]
    exact fun hk => hk.2 rfl
  · rintro ⟨t', ht', hmem⟩
    obtain ⟨t, -, rfl⟩ := Option.map_eq_some_iff.mp ht'
    exact (AList.mem_erase.mp hmem).1 rfl

theorem gone_clear (s : CacheStore) (now : Clock) (h : QueryHash) : Gone h (s.clear now) := by
  refine ⟨AList.notMem_empty h, ?_⟩
  rintro ⟨t', ht', hmem⟩
  obtain ⟨t, -, rfl⟩ := Option.map_eq_some_iff.mp ht'
  exact AList.notMem_empty _ hmem

theorem Gone.remove {s : CacheStore} (hs : Gone h s) (now : Clock) (query : String) :
    Gone h (s.remove p now query) := by
  have hp := hs.pruned (pruned_trackedRemove (p := p) (R := fun _ => True) s
    (h := hashQuery p query) trivial)
  refine ⟨hp.memory, ?_⟩
  rintro ⟨t', ht', hmem⟩
  obtain ⟨t, ht, rfl⟩ := Option.map_eq_some_iff.mp ht'
  exact hp.disk ⟨t, ht, (AList.mem_erase.mp hmem).2⟩

theorem Gone.exec {s : CacheStore} (hs : Gone h s) {call : Call}
    (hcall : ¬ Reinserts p s call h) (hback : ∀ t, call.op ≠ .setPersistence t) :
    Gone h (exec p s call) := by
  have heffect := exec_effect (p := p) s call
  generalize Conproxy.exec p s call = s' at heffect ⊢
  cases heffect with
  | prunes hp => exact hs.pruned hp
  | maps _ hp => exact (hs.pruned hp).of_tables_eq rfl rfl
  | stores _ hw => exact hs.writes hw (hs.not_inserted hcall)
  | @removes query => exact hs.remove call.now query
  | clears => exact gone_clear s call.now h
  | drops => exact ⟨AList.notMem_empty h, hs.disk⟩
  | flushes =>
    refine ⟨?_, fun hdisk => ?_⟩
    · rw [flushToPersistence, flushEntries_eq]
      exact hs.memory
    · rcases onDisk_flushEntries call.now _ s hdisk with hold | hmem
      · exact hs.disk hold
      · obtain ⟨x, hx, rfl⟩ := List.mem_map.mp hmem
        exact hs.memory (mem_of_mem_iter hx)
  | configures hentries _ _ _ hset =>
    rcases hset with hset | ⟨t, hset, -⟩
    · exact hs.of_tables_eq hentries hset
    · exact absurd hset (hback t)

/-- The keys that an invalidation names have left memory. -/
theorem Invalidates.not_mem {s : CacheStore} {call : Call} (hinv : Invalidates p s call h) :
    h ∉ (exec p s call).entries := by
  rcases call with ⟨now, scan, op⟩
  cases op with
  | remove query =>
    cases hinv
    exact (gone_remove s now query).memory
  | clear => exact (gone_clear s now h).memory
  | evictFilter criteria =>
    have hgone : h ∉ (removeAll p (s.matchingHashes p scan now criteria) s).2.entries := by
      rw [mem_removeAll]
      exact fun hk => hk.2 hinv
    simp only [exec, evictFilter]
    split
    · exact hgone
    · exact hgone
  | evictFromUpstream upstreamId count =>
    have hgone : h ∉ (removeAll p ((s.upstreamHashes scan now upstreamId).take count)
        s).2.entries := by
      rw [mem_removeAll]
      exact fun hk => hk.2 hinv
    have hcount : count ≠ 0 := by
      rintro rfl
      cases hinv
    simp only [exec, evictFromUpstream, if_neg hcount]
    split
    · rw [updateStats, entries_publishRemoves]
      exact hgone
    · rw [entries_publishRemoves]
      exact hgone
  | updateConfigFingerprint upstreamUrl scopeSeeds =>
    simp only [Invalidates, updateConfigFingerprint] at hinv
    simp only [exec, updateConfigFingerprint]
    split at hinv
    · rename_i hchanged
      rw [if_pos hchanged]
      exact AList.notMem_empty h
    · cases hinv
  | getVerified query =>
    obtain ⟨rfl, e, hl, hbad⟩ := hinv
    simp only [exec, getVerified, hl, hbad, if_true]
    change hashQuery p query ∉ (s.trackedRemove p (hashQuery p query)).2.entries
    rw [mem_trackedRemove]
    exact fun hk => hk.2 rfl
  | removeCorrupted =>
    obtain ⟨e, hl, hbad⟩ := hinv
    simp only [exec, removeCorrupted]
    rw [mem_removeAll]
    refine fun hk => hk.2 (List.mem_map.mpr ⟨(h, e), ?_, rfl⟩)
    exact List.mem_filter.mpr ⟨mem_iter_iff.mpr hl, hbad⟩
  | _ => cases hinv

theorem Invalidates.gone {s : CacheStore} {call : Call} (hinv : Invalidates p s call h)
    (hdisk : call.op.unpersists = true ∨ ¬ s.OnDisk h) : Gone h (exec p s call) := by
  refine ⟨hinv.not_mem, ?_⟩
  have hprunes := exec_pruned (p := p) s call
  rcases call with ⟨now, scan, op⟩
  cases op with
  | remove query =>
    cases hinv
    exact (gone_remove s now query).disk
  | clear => exact (gone_clear s now h).disk
  | evictFilter | evictFromUpstream | getVerified | removeCorrupted =>
    rw [onDisk_congr (hprunes rfl).persistence_eq]
    exact hdisk.resolve_left (by simp [Op.unpersists])
  | updateConfigFingerprint upstreamUrl scopeSeeds =>
    have hsame : (exec p s ⟨now, scan, .updateConfigFingerprint upstreamUrl
        scopeSeeds⟩).persistence = s.persistence := by
      simp only [exec, updateConfigFingerprint]
      split <;> rfl
    rw [onDisk_congr hsame]
    exact hdisk.resolve_left (by simp [Op.unpersists])
  | _ => cases hinv

/-- An entry that was invalidated by a call that reaches the disk, or while it was not there, and
that is not stored again, does not come back after a restart. -/
theorem invalidated_stays_out (p : Platform) (s : CacheStore) (call : Call) (later : List Call)
    (h : QueryHash) (hinv : Invalidates p s call h)
    (hdisk : call.op.unpersists = true ∨ ¬ s.OnDisk h)
    (hlater : Machine.AllSteps (exec p) (fun s c => ¬ Reinserts p s c h) (exec p s call) later)
    (hback : ∀ c ∈ later, ∀ t, c.op ≠ .setPersistence t)
    (freshDuration staleDuration : Duration) (maxEntries : Nat) (ttlJitterPercent : ℚ)
    (now : Clock) :
    h ∉ (((Machine.run (exec p) (exec p s call) later).restarted freshDuration staleDuration
      maxEntries ttlJitterPercent).restoreFromPersistence p now).2.entries := by
  have hsteps := Machine.allSteps_and hlater
    (Machine.allSteps_of_forall (fun c hc _ => hback c hc) (exec p s call))
  have hstep (s : CacheStore) (c : Call)
      (hc : ¬ Reinserts p s c h ∧ ∀ t, c.op ≠ .setPersistence t) (hs : Gone h s) :
      Gone h (exec p s c) := hs.exec hc.1 hc.2
  have hend := Machine.run_invariant hstep (hinv.gone hdisk) hsteps
  have hnew : Gone h ((Machine.run (exec p) (exec p s call) later).restarted freshDuration
      staleDuration maxEntries ttlJitterPercent) := ⟨AList.notMem_empty h, hend.disk⟩
  have hrestored : Gone h (exec p _ ⟨now, Scan.stored, .restoreFromPersistence⟩) :=
    hnew.exec (fun hre => hre.1 rfl) (by simp)
  exact hrestored.memory

/-- What is written for `q` at the epoch. -/
def storedQ : PersistedEntry where
  query := "q"
  upstreamId := "u"
  response := .ofResponse (textResponse "a")
  cachedAtMs := 0
  extendedCount := 0
  contentHash := CacheEntry.computeContentHash Platform.sample (textResponse "a")

/-- A store with a disk and one entry, in memory and on disk. -/
def persistedQ : CacheStore :=
  Machine.run (exec (Platform.disk storedQ)) (withJitter 1 1 4 0)
    [callNow (.setPersistence ⟨∅⟩), callNow (.insert "q" (textResponse "a") "u")]

theorem removed_entry_stays_out :
    hashQuery (Platform.disk storedQ) "q" ∉
      (((Machine.run (exec (Platform.disk storedQ)) (exec (Platform.disk storedQ) persistedQ
        (callNow (.remove "q"))) [callNow .flushToPersistence]).restarted 1 1 4
        0).restoreFromPersistence (Platform.disk storedQ) ⟨0, 0⟩).2.entries := by
  refine invalidated_stays_out (Platform.disk storedQ) persistedQ (callNow (.remove "q"))
    [callNow .flushToPersistence] _ rfl (Or.inl rfl) ⟨?_, trivial⟩ (by simp [callNow]) 1 1 4 0
    ⟨0, 0⟩
  simp [Reinserts, insertions, callNow]

/-- Evicted by its context, the entry is back after a restart. -/
theorem filtered_entry_comes_back :
    Invalidates (Platform.disk storedQ) persistedQ
        (callNow (.evictFilter ⟨some "default", none, none, none⟩))
        (hashQuery (Platform.disk storedQ) "q") ∧
      hashQuery (Platform.disk storedQ) "q" ∈ (((exec (Platform.disk storedQ) persistedQ
        (callNow (.evictFilter ⟨some "default", none, none, none⟩))).restarted 1 1 4
        0).restoreFromPersistence (Platform.disk storedQ) ⟨0, 0⟩).2.entries := by
  have hevicted : hashQuery (Platform.disk storedQ) "q" ∈
      persistedQ.matchingHashes (Platform.disk storedQ) Scan.stored ⟨0, 0⟩
        ⟨some "default", none, none, none⟩ := by decide +kernel
  exact ⟨hevicted, by decide +kernel⟩

end Conproxy
