import Conproxy.Cache.Residency
import Conproxy.Cache.Keys

/-!
# What a call does to the entries and the exact mappings

`Prune` lists everything that a lookup or an eviction does to the entry map and to the exact
mappings: an entry is removed together with its mapping, an entry is touched, or neither table
changes. The scans and loops are proved to be chains of such steps once, here. An insertion is
a `Written` store between two such chains.
-/

namespace Conproxy

open Relation

set_option autoImplicit false

/-- Everything of a store that lookups and evictions leave alone. -/
def CacheStore.settings (s : CacheStore) : CacheStore :=
  { s with
    entries := ∅
    exactToNormalized := ∅
    totalMemoryBytes := Counter.zero
    s3fifo := S3FifoState.new 0
    evictionStats := EvictionStats.default
    exactHits := 0
    normalizedHits := 0
    cdcSender := none
    semantic := none }

open CacheStore

/-- A step that removes no key outside `R`. -/
inductive Prune (p : Platform) (R : QueryHash → Prop) : CacheStore → CacheStore → Prop where
  | remove (s : CacheStore) {h : QueryHash} (hr : R h) : Prune p R s (s.trackedRemove p h).2
  | touch {s s' : CacheStore} {h : QueryHash} {e e' : CacheEntry}
      (hl : s.entries.lookup h = some e) (hentries : s'.entries = s.entries.insert h e')
      (hsame : SameContent e e')
      (hexact : s'.exactToNormalized = s.exactToNormalized)
      (hsettings : s'.settings = s.settings) : Prune p R s s'
  | keep {s s' : CacheStore} (hentries : s'.entries = s.entries)
      (hexact : s'.exactToNormalized = s.exactToNormalized)
      (hsettings : s'.settings = s.settings) : Prune p R s s'

abbrev Pruned (p : Platform) (R : QueryHash → Prop) : CacheStore → CacheStore → Prop :=
  ReflTransGen (Prune p R)

variable {p : Platform} {R : QueryHash → Prop}

theorem Prune.settings_eq {s s' : CacheStore} (h : Prune p R s s') :
    s'.settings = s.settings := by
  cases h with
  | remove hr =>
    unfold trackedRemove
    split <;> rfl
  | touch _ _ _ _ hsettings => exact hsettings
  | keep _ _ hsettings => exact hsettings

namespace Pruned

theorem settings_eq {s s' : CacheStore} (h : Pruned p R s s') : s'.settings = s.settings := by
  induction h with
  | refl => rfl
  | tail _ hstep ih => exact hstep.settings_eq.trans ih

theorem mem {s s' : CacheStore} (h : Pruned p R s s') {k : QueryHash} (hk : ¬ R k)
    (hs : k ∈ s.entries) : k ∈ s'.entries := by
  induction h with
  | refl => exact hs
  | @tail s₁ s₂ _ hstep ih =>
    cases hstep with
    | @remove h hr =>
      rw [mem_trackedRemove]
      refine ⟨ih, ?_⟩
      rintro rfl
      exact hk hr
    | touch _ hentries =>
      rw [hentries, AList.mem_insert]
      exact Or.inr ih
    | keep hentries =>
      rw [hentries]
      exact ih

theorem persistence_eq {s s' : CacheStore} (h : Pruned p R s s') :
    s'.persistence = s.persistence :=
  show s'.settings.persistence = s.settings.persistence by rw [h.settings_eq]

theorem same {s s' : CacheStore} (hentries : s'.entries = s.entries)
    (hexact : s'.exactToNormalized = s.exactToNormalized)
    (hsettings : s'.settings = s.settings) : Pruned p R s s' :=
  .single (.keep hentries hexact hsettings)

theorem touched {s s' : CacheStore} {h : QueryHash} {e e' : CacheEntry}
    (hl : s.entries.lookup h = some e) (hentries : s'.entries = s.entries.insert h e')
    (hsame : SameContent e e')
    (hexact : s'.exactToNormalized = s.exactToNormalized)
    (hsettings : s'.settings = s.settings) : Pruned p R s s' :=
  .single (.touch hl hentries hsame hexact hsettings)

end Pruned

theorem pruned_trackedRemove (s : CacheStore) {h : QueryHash} (hr : R h) :
    Pruned p R s (s.trackedRemove p h).2 := .single (.remove s hr)

theorem pruned_updateStats (s : CacheStore) (f : EvictionStats → EvictionStats) :
    Pruned p R s (s.updateStats f) := .same rfl rfl rfl

theorem pruned_queues (s : CacheStore) (q : S3FifoState) :
    Pruned p R s { s with s3fifo := q } := .same rfl rfl rfl

theorem pruned_getByHash (s : CacheStore) (h : QueryHash) : Pruned p R s (s.getByHash h).2 := by
  unfold getByHash
  cases hl : s.entries.lookup h with
  | some e => exact .touched hl rfl rfl rfl rfl
  | none => exact .refl

theorem pruned_getMapped (s : CacheStore) (exact : QueryHash) :
    Pruned p R s (s.getMapped exact).2 := by
  unfold getMapped
  split
  · exact pruned_getByHash s _
  · exact .refl

theorem pruned_getVerified (s : CacheStore) (query : String)
    (hr : ∀ e, s.entries.lookup (hashQuery p query) = some e → corrupted p e = true →
      R (hashQuery p query)) :
    Pruned p R s (s.getVerified p query).2 := by
  simp only [getVerified]
  cases hl : s.entries.lookup (hashQuery p query) with
  | some e =>
    dsimp only
    split
    · rename_i hbad
      exact (pruned_trackedRemove s (hr e hl hbad)).trans (Pruned.same rfl rfl rfl)
    · exact .touched hl rfl rfl rfl rfl
  | none => exact .refl

theorem pruned_extendTtl (s : CacheStore) (now : Clock) (query : String) :
    Pruned p R s (s.extendTtl p now query) := by
  simp only [extendTtl]
  cases hl : s.entries.lookup (hashQuery p query) with
  | some old => exact .touched hl rfl rfl rfl rfl
  | none => exact .refl

theorem pruned_readAndResetFreq (s : CacheStore) (h : QueryHash) :
    Pruned p R s (s.readAndResetFreq h).2 := by
  unfold readAndResetFreq
  cases hl : s.entries.lookup h with
  | some e => exact .touched hl rfl rfl rfl rfl
  | none => exact .refl

theorem pruned_recordPromotions (s : CacheStore) (n : Nat) :
    Pruned p R s (s.recordPromotions n) := by
  unfold recordPromotions
  split
  · exact pruned_updateStats s _
  · exact .refl

section Scans

variable (hr : ∀ k, R k)
include hr

theorem pruned_evictFromSmallLoop (attempts promotions : Nat) (s : CacheStore) :
    Pruned p R s (evictFromSmallLoop p attempts promotions s).2 := by
  induction attempts generalizing promotions s with
  | zero => exact pruned_recordPromotions s promotions
  | succ attempts ih =>
    unfold evictFromSmallLoop
    split
    · exact .refl
    · rename_i h rest _
      have hpop := pruned_queues (p := p) (R := R) s { s.s3fifo with small := rest }
      have hread := hpop.trans (pruned_readAndResetFreq _ h)
      dsimp only
      split
      · have hremove := hread.trans (pruned_trackedRemove (p := p) _ (hr h))
        split
        · exact (hremove.trans (pruned_queues _ _)).trans (pruned_recordPromotions _ promotions)
        · exact (hremove.trans (pruned_queues _ _)).trans (ih promotions _)
      · exact (hread.trans (pruned_queues _ _)).trans (ih (promotions + 1) _)

theorem pruned_evictFromMainLoop (attempts : Nat) (s : CacheStore) :
    Pruned p R s (evictFromMainLoop p attempts s).2 := by
  induction attempts generalizing s with
  | zero => exact .refl
  | succ attempts ih =>
    unfold evictFromMainLoop
    split
    · exact .refl
    · rename_i h rest _
      have hpop := pruned_queues (p := p) (R := R) s { s.s3fifo with main := rest }
      have hread := hpop.trans (pruned_readAndResetFreq _ h)
      dsimp only
      split
      · have hremove := hread.trans (pruned_trackedRemove (p := p) _ (hr h))
        split
        · exact hremove
        · exact hremove.trans (ih _)
      · exact (hread.trans (pruned_queues _ _)).trans (ih _)

theorem pruned_evictSmallThenMain (s : CacheStore) : Pruned p R s (s.evictSmallThenMain p).2 := by
  rw [evictSmallThenMain_eq]
  have hfirst : Pruned p R s (s.s3fifoEvictFromSmall p).2 :=
    pruned_evictFromSmallLoop hr _ 0 s
  rcases hres : s.s3fifoEvictFromSmall p with ⟨_ | source, s'⟩
  · rw [hres] at hfirst
    exact hfirst.trans (pruned_evictFromMainLoop hr _ s')
  · rw [hres] at hfirst
    exact hfirst

theorem pruned_evictWhile (exceeds : CacheStore → Bool) (fuel : Nat) (n : Evicted)
    (s : CacheStore) : Pruned p R s (evictWhile exceeds (evictSmallThenMain p) fuel n s).2 := by
  induction fuel generalizing n s with
  | zero => exact .refl
  | succ fuel ih =>
    unfold evictWhile
    split
    · have hstep := pruned_evictSmallThenMain (p := p) hr s
      rcases hres : s.evictSmallThenMain p with ⟨_ | source, s'⟩
      · rw [hres] at hstep
        exact hstep
      · rw [hres] at hstep
        exact hstep.trans (ih _ s')
    · exact .refl

theorem pruned_evictRounds (rounds evicted : Nat) (s : CacheStore) :
    Pruned p R s (evictRounds p rounds evicted s).2 := by
  induction rounds generalizing evicted s with
  | zero => exact .refl
  | succ rounds ih =>
    unfold evictRounds
    split
    · exact .refl
    · have hstep := pruned_evictSmallThenMain (p := p) hr s
      rw [s3fifoEvictOne]
      rcases hres : s.evictSmallThenMain p with ⟨_ | source, s'⟩
      · rw [hres] at hstep
        exact hstep.trans (ih _ s')
      · rw [hres] at hstep
        exact hstep.trans (ih _ s')

theorem pruned_evictExpired (target : Nat) (hs : List QueryHash) (evicted : Nat)
    (s : CacheStore) : Pruned p R s (evictExpired p target hs evicted s).2 := by
  induction hs generalizing evicted s with
  | nil => exact .refl
  | cons h rest ih =>
    unfold evictExpired
    split
    · exact .refl
    · have hstep := pruned_trackedRemove (p := p) s (hr h)
      rcases hres : s.trackedRemove p h with ⟨_ | old, s'⟩
      · rw [hres] at hstep
        exact hstep.trans (ih _ s')
      · rw [hres] at hstep
        exact hstep.trans (ih _ s')

theorem pruned_evictSmart (s : CacheStore) (scan : Scan) (now : Clock) (target : Nat) :
    Pruned p R s (s.evictSmart p scan now target) := by
  unfold evictSmart
  dsimp only
  generalize List.map Prod.fst (List.filter _ (s.iter scan)) = expired
  have hfirst := pruned_evictExpired (p := p) hr target expired 0 s
  generalize evictExpired p target expired 0 s = first at hfirst ⊢
  have hsecond : Pruned p R s (if first.1 < target then
      evictRounds p (target - first.1) 0 first.2 else (0, first.2)).2 := by
    split
    · exact hfirst.trans (pruned_evictRounds hr _ _ _)
    · exact hfirst
  generalize (if first.1 < target then
    evictRounds p (target - first.1) 0 first.2 else (0, first.2)) = second at hsecond ⊢
  split
  · exact hsecond.trans (pruned_updateStats _ _)
  · exact hsecond

end Scans

theorem evictWhile_of_fits {exceeds : CacheStore → Bool}
    {evict : CacheStore → Option EvictionSource × CacheStore} {s : CacheStore}
    (h : exceeds s = false) (fuel : Nat) (n : Evicted) :
    evictWhile exceeds evict fuel n s = (n, s) := by
  cases fuel with
  | zero => rfl
  | succ fuel => simp [evictWhile, h]

def CacheStore.overLimit (s : CacheStore) : Bool :=
  decide (0 < s.maxMemoryBytes) && overMemory s.maxMemoryBytes s

/-- An admission that evicts: the new slot is one too many, or the memory limit is passed. -/
def CacheStore.NeedsRoom (s : CacheStore) (h : QueryHash) : Prop :=
  overCapacity { s with s3fifo := s.s3fifo.push h } = true ∨ s.overLimit = true

instance (s : CacheStore) (h : QueryHash) : Decidable (s.NeedsRoom h) :=
  inferInstanceAs (Decidable (_ ∨ _))

theorem pruned_recordAdmission (s : CacheStore) (g : Bool) (n : Evicted) :
    Pruned p R s (s.recordAdmission g n) := by
  unfold recordAdmission
  split
  · exact pruned_updateStats s _
  · exact .refl

theorem s3fifoAdmit_of_fits {s : CacheStore} {h : QueryHash} (hroom : ¬ s.NeedsRoom h) :
    s.s3fifoAdmit p h = ({ s with s3fifo := s.s3fifo.push h } : CacheStore).recordAdmission
      (decide (h ∈ s.s3fifo.ghostSet)) ⟨0, 0⟩ := by
  simp only [NeedsRoom, overLimit, not_or, Bool.not_eq_true] at hroom
  simp only [s3fifoAdmit, evictToCapacity, evictWhile_of_fits hroom.1]
  split
  · rename_i hpos
    have hfits : overMemory s.maxMemoryBytes s = false := by simpa [hpos] using hroom.2
    change overMemory s.maxMemoryBytes { s with s3fifo := s.s3fifo.push h } = false at hfits
    rw [evictToMemory, evictWhile_of_fits hfits]
  · rfl

theorem not_needsRoom {s : CacheStore} {h : QueryHash} (hlimit : s.maxMemoryBytes = 0)
    (hroom : s.core.slots.length < s.s3fifo.capacity) : ¬ s.NeedsRoom h := by
  have hslots := (s.s3fifo.push_slots h).length_eq
  have hcap := s.s3fifo.push_capacity h
  have hlen : s.core.slots.length = s.s3fifo.slots.length := rfl
  simp only [NeedsRoom, overLimit, hlimit, not_or, Bool.not_eq_true, overCapacity_eq_false]
  refine ⟨?_, rfl⟩
  simp only [Core.slots, core_queues, hslots, hcap, List.length_cons]
  omega

theorem pruned_s3fifoAdmit (s : CacheStore) (h : QueryHash) (hr : s.NeedsRoom h → ∀ k, R k) :
    Pruned p R s (s.s3fifoAdmit p h) := by
  by_cases hroom : s.NeedsRoom h
  · have hfit := (pruned_queues s (s.s3fifo.push h)).trans (pruned_evictWhile (p := p) (hr hroom)
      overCapacity ((s.s3fifo.push h).slots.length + 1) ⟨0, 0⟩
      { s with s3fifo := s.s3fifo.push h })
    unfold s3fifoAdmit
    refine .trans ?_ (pruned_recordAdmission _ _ _)
    split
    · exact hfit.trans (pruned_evictWhile (hr hroom) _ _ _ _)
    · exact hfit
  · rw [s3fifoAdmit_of_fits hroom]
    exact (pruned_queues s _).trans (pruned_recordAdmission _ _ _)

theorem pruned_enforceMemoryLimit (s : CacheStore) (hr : s.overLimit = true → ∀ k, R k) :
    Pruned p R s (s.enforceMemoryLimit p).2 := by
  unfold enforceMemoryLimit
  split
  · exact .refl
  · rename_i hzero
    have h : Pruned p R s (evictToMemory p s.maxMemoryBytes ⟨0, 0⟩ s).2 := by
      cases hover : s.overLimit with
      | true => exact pruned_evictWhile (hr hover) _ _ _ s
      | false =>
        have hfits : overMemory s.maxMemoryBytes s = false := by
          simpa [overLimit, Nat.pos_of_ne_zero hzero] using hover
        rw [evictToMemory, evictWhile_of_fits hfits]
    dsimp only
    split
    · exact h.trans (pruned_updateStats _ _)
    · exact h

theorem pruned_removeAll {hs : List QueryHash} (hr : ∀ h ∈ hs, R h) (s : CacheStore) :
    Pruned p R s (removeAll p hs s).2 := by
  refine removeAll_invariant (Pruned p R s) (fun t ht h hh => ?_) .refl
  exact ht.trans (pruned_trackedRemove t (hr h hh))

theorem pruned_publish (s : CacheStore) (now : Clock) (t : CdcEventType) (b : CdcEventBuilder) :
    Pruned p R s (s.publish now t b) := .same rfl rfl rfl

theorem pruned_publishRemoves (now : Clock) (qs : List String) (s : CacheStore) :
    Pruned p R s (publishRemoves now qs s) := by
  induction qs generalizing s with
  | nil => exact .refl
  | cons q rest ih => exact (pruned_publish s now .remove (.remove q)).trans (ih _)

theorem pruned_evictFromUpstream (s : CacheStore) (scan : Scan) (now : Clock)
    (upstreamId : String) (count : Nat)
    (hr : ∀ h ∈ (s.upstreamHashes scan now upstreamId).take count, R h) :
    Pruned p R s (s.evictFromUpstream p scan now upstreamId count).2 := by
  unfold evictFromUpstream
  split
  · exact .refl
  · have h (qs : List String) :=
      (pruned_removeAll (p := p) hr s).trans (pruned_publishRemoves now qs _)
    dsimp only
    split
    · exact (h _).trans (pruned_updateStats _ _)
    · exact h _

theorem pruned_enforcePerUpstreamLimit (s : CacheStore) (scan : Scan) (now : Clock)
    (upstreamId : String) (maxEntries : Nat)
    (hr : ∀ h ∈ (s.upstreamHashes scan now upstreamId).take
      (s.countForUpstream upstreamId - maxEntries), R h) :
    Pruned p R s (s.enforcePerUpstreamLimit p scan now upstreamId maxEntries).2 := by
  unfold enforcePerUpstreamLimit
  dsimp only
  split
  · exact .refl
  · exact pruned_evictFromUpstream s scan now upstreamId _ hr

/-- The entry that a full upstream loses before an insertion. -/
def CacheStore.roomVictims (s : CacheStore) (scan : Scan) (now : Clock) (upstreamId : String) :
    List QueryHash :=
  match s.perUpstreamLimit with
  | some limit =>
    if limit ≤ s.countForUpstream upstreamId then (s.upstreamHashes scan now upstreamId).take 1
    else []
  | none => []

theorem pruned_makeRoomForUpstream (s : CacheStore) (scan : Scan) (now : Clock)
    (upstreamId : String) (hr : ∀ h ∈ s.roomVictims scan now upstreamId, R h) :
    Pruned p R s (s.makeRoomForUpstream p scan now upstreamId) := by
  unfold roomVictims at hr
  unfold makeRoomForUpstream
  split
  · rename_i limit hlimit
    rw [hlimit] at hr
    dsimp only at hr
    split
    · rename_i hfull
      rw [if_pos hfull] at hr
      exact (pruned_evictFromUpstream s scan now upstreamId 1 hr).trans (pruned_updateStats _ _)
    · exact .refl
  · exact .refl

theorem pruned_evictTrulyExpired (s : CacheStore) (scan : Scan) (now : Clock)
    (hr : ∀ h ∈ ((s.iter scan).filter fun e => s.maxFrozenDuration < age now e.2).map Prod.fst,
      R h) :
    Pruned p R s (s.evictTrulyExpired p scan now).2 := by
  unfold evictTrulyExpired
  dsimp only
  split
  · exact (pruned_removeAll hr s).trans (pruned_updateStats _ _)
  · exact pruned_removeAll hr s

theorem pruned_evictFilter (s : CacheStore) (scan : Scan) (now : Clock) (c : EvictCriteria)
    (hr : ∀ h ∈ s.matchingHashes p scan now c, R h) :
    Pruned p R s (s.evictFilter p scan now c).2 := by
  unfold evictFilter
  dsimp only
  split
  · exact (pruned_removeAll hr s).trans
      ((pruned_updateStats _ _).trans (pruned_publish _ _ _ _))
  · exact pruned_removeAll hr s

/-- The text whose exact hash a lookup or an insertion may map. -/
def Op.mappedText : Op → Option String
  | .get query => some query
  | .getWithHitType query => some query
  | .insert query _ _ => some query
  | .insertWithContext query _ _ _ => some query
  | _ => none

/-- The calls that only look up, touch and evict. -/
def Op.prunes : Op → Bool
  | .getByHash _ | .getVerified _ | .extendTtl _ | .evictSmart _ | .evictTrulyExpired
  | .evictFilter _ | .evictFromUpstream _ _ | .enforcePerUpstreamLimit _ _ | .enforceMemoryLimit
  | .removeCorrupted => true
  | _ => false

/-- The calls that insert. -/
def Op.stores : Op → Bool
  | .insert _ _ _ | .insertWithContext _ _ _ _ | .insertByHash _ _ _ _
  | .insertByHashWithEmbedding _ _ _ _ _ | .warmup _ _ | .restoreFromPersistence => true
  | _ => false

def Insertion.NeedsRoom (p : Platform) (i : Insertion) : Prop :=
  i.admits = true ∧ (i.store.trackedInsert p i.hash i.entry).NeedsRoom i.hash

instance (p : Platform) (i : Insertion) : Decidable (i.NeedsRoom p) :=
  inferInstanceAs (Decidable (_ ∧ _))

/-- The keys that a call may remove without clearing the whole store: those that it names, the
oldest one of a full upstream, and any key when a queue or the memory has to be scanned. -/
def Removable (p : Platform) (s : CacheStore) (call : Call) (h : QueryHash) : Prop :=
  match call.op with
  | .getVerified query =>
    h = hashQuery p query ∧ ∃ e, s.entries.lookup h = some e ∧ corrupted p e = true
  | .remove query => h = hashQuery p query
  | .evictTrulyExpired =>
    h ∈ ((s.iter call.scan).filter fun e => s.maxFrozenDuration < age call.now e.2).map Prod.fst
  | .evictFilter criteria => h ∈ s.matchingHashes p call.scan call.now criteria
  | .evictFromUpstream upstreamId count =>
    h ∈ (s.upstreamHashes call.scan call.now upstreamId).take count
  | .enforcePerUpstreamLimit upstreamId maxEntries =>
    h ∈ (s.upstreamHashes call.scan call.now upstreamId).take
      (s.countForUpstream upstreamId - maxEntries)
  | .removeCorrupted => h ∈ ((s.iter call.scan).filter fun e => corrupted p e.2).map Prod.fst
  | .enforceMemoryLimit => s.overLimit = true
  | .evictSmart _ => True
  | .insert _ _ upstreamId | .insertWithContext _ _ upstreamId _
  | .insertByHash _ _ upstreamId _ | .insertByHashWithEmbedding _ _ upstreamId _ _ =>
    h ∈ s.roomVictims call.scan call.now upstreamId ∨ ∃ i ∈ insertions p s call, i.NeedsRoom p
  | .warmup _ _ | .restoreFromPersistence => ∃ i ∈ insertions p s call, i.NeedsRoom p
  | _ => False

theorem exec_pruned (s : CacheStore) (call : Call) (hop : call.op.prunes = true) :
    Pruned p (Removable p s call) s (exec p s call) := by
  rcases call with ⟨now, scan, op⟩
  cases op with
  | getByHash h => exact pruned_getByHash s h
  | getVerified query =>
    exact pruned_getVerified s query fun e hl hbad => ⟨rfl, e, hl, hbad⟩
  | extendTtl query => exact pruned_extendTtl s now query
  | evictSmart targetCount => exact pruned_evictSmart (fun _ => trivial) s scan now targetCount
  | evictTrulyExpired => exact pruned_evictTrulyExpired s scan now fun _ hh => hh
  | evictFilter criteria => exact pruned_evictFilter s scan now criteria fun _ hh => hh
  | evictFromUpstream upstreamId count =>
    exact pruned_evictFromUpstream s scan now upstreamId count fun _ hh => hh
  | enforcePerUpstreamLimit upstreamId maxEntries =>
    exact pruned_enforcePerUpstreamLimit s scan now upstreamId maxEntries fun _ hh => hh
  | enforceMemoryLimit => exact pruned_enforceMemoryLimit s fun hover _ => hover
  | removeCorrupted => exact pruned_removeAll (fun _ hh => hh) s
  | _ => cases hop

/-- A two-tier lookup prunes, and on a normalized hit it maps the text to the entry found. -/
theorem getWithHitType_cases (s : CacheStore) (query : String) :
    Pruned p R s (s.getWithHitType p query).2 ∨
      ∃ s₁, Pruned p R s s₁ ∧ hashQuery p query ∈ s₁.entries ∧ (s.getWithHitType p query).2 =
        s₁.countNormalizedHit (hashQueryExact p query) (hashQuery p query) := by
  simp only [getWithHitType]
  split
  · have h := pruned_getByHash (p := p) (R := R) s (hashQuery p query)
    rcases hr : s.getByHash (hashQuery p query) with ⟨_ | e, s'⟩
    · rw [hr] at h
      exact Or.inl h
    · rw [hr] at h
      exact Or.inl (h.trans (Pruned.same rfl rfl rfl))
  · have htier := pruned_getMapped (p := p) (R := R) s (hashQueryExact p query)
    rcases hr : s.getMapped (hashQueryExact p query) with ⟨_ | e, s'⟩
    · rw [hr] at htier
      cases hl : s'.entries.lookup (hashQuery p query) with
      | none =>
        simp only [getByHash_of_none hl]
        exact Or.inl htier
      | some e =>
        simp only [getByHash_of_lookup hl]
        refine Or.inr ⟨s'.bumpFreq (hashQuery p query) e, ?_, ?_, rfl⟩
        · exact htier.trans (Pruned.touched hl rfl rfl rfl rfl)
        · exact (AList.mem_insert _).mpr (Or.inl rfl)
    · rw [hr] at htier
      exact Or.inl (htier.trans (Pruned.same rfl rfl rfl))

/-! ## Insertions -/

/-- The store between the map and the queues: the entry is in the map, its copy on disk may be
written, and so may the mapping of the text that the call was given. -/
structure Written (p : Platform) (i : Insertion) (text : Option String) (s : CacheStore) :
    Prop where
  core : s.core = (i.store.trackedInsert p i.hash i.entry).core
  exact : s.exactToNormalized = i.store.exactToNormalized ∨
    ∃ query, text = some query ∧ i.entry.queryText = some query ∧ i.hash = hashQuery p query ∧
      s.exactToNormalized = i.store.exactToNormalized.insert (hashQueryExact p query) i.hash
  settings : s.settings = { i.store.settings with persistence := s.persistence }
  disk : s.persistence = i.store.persistence ∨
    ∃ e, s.persistence = i.store.persistence.map fun t => t.storeEntry p i.hash e

namespace Written

variable {i : Insertion} {text : Option String} {s : CacheStore}

theorem entries (h : Written p i text s) :
    s.entries = i.store.entries.insert i.hash i.entry := congrArg Core.entries h.core

theorem matching (h : Written p i text s) :
    s.normalizedMatching = i.store.normalizedMatching := by
  have hsettings := congrArg CacheStore.normalizedMatching h.settings
  exact hsettings

theorem needsRoom (h : Written p i text s) :
    s.NeedsRoom i.hash ↔ (i.store.trackedInsert p i.hash i.entry).NeedsRoom i.hash := by
  have hqueues : s.s3fifo = (i.store.trackedInsert p i.hash i.entry).s3fifo :=
    congrArg Core.queues h.core
  have hbytes : s.totalMemoryBytes = (i.store.trackedInsert p i.hash i.entry).totalMemoryBytes :=
    congrArg Core.bytes h.core
  have hsettings := congrArg CacheStore.maxMemoryBytes h.settings
  have hlimit : s.maxMemoryBytes = (i.store.trackedInsert p i.hash i.entry).maxMemoryBytes :=
    hsettings
  simp only [NeedsRoom, overLimit, overCapacity, overMemory, hqueues, hbytes, hlimit]

theorem queued (h : Written p i text s) (hr : i.NeedsRoom p → ∀ k, R k) :
    Pruned p R s (if i.admits = true then s.s3fifoAdmit p i.hash else s) := by
  split
  · rename_i hadm
    exact pruned_s3fifoAdmit s i.hash fun hroom => hr ⟨hadm, h.needsRoom.mp hroom⟩
  · exact .refl

end Written

inductive Writes (p : Platform) (R : QueryHash → Prop) (text : Option String) :
    CacheStore → List Insertion → CacheStore → Prop where
  | done {s s' : CacheStore} (h : Pruned p R s s') : Writes p R text s [] s'
  | insert {s s₁ s' : CacheStore} {i : Insertion} {is : List Insertion}
      (hbefore : Pruned p R s i.store) (hwritten : Written p i text s₁)
      (hrest : Writes p R text s₁ is s') : Writes p R text s (i :: is) s'

namespace Writes

variable {text : Option String} {s s' : CacheStore} {is : List Insertion}

theorem after {s₀ : CacheStore} (hpruned : Pruned p R s₀ s) (h : Writes p R text s is s') :
    Writes p R text s₀ is s' := by
  cases h with
  | done h => exact .done (hpruned.trans h)
  | insert hbefore hwritten hrest => exact .insert (hpruned.trans hbefore) hwritten hrest

theorem before {s'' : CacheStore} (h : Writes p R text s is s') (hpruned : Pruned p R s' s'') :
    Writes p R text s is s'' := by
  induction h with
  | done h => exact .done (h.trans hpruned)
  | insert hbefore hwritten _ ih => exact .insert hbefore hwritten (ih hpruned)

theorem invariant (Inv : CacheStore → Prop) (ok : Insertion → Prop)
    (hprune : ∀ s s', Pruned p R s s' → Inv s → Inv s')
    (hwrite : ∀ i s', Written p i text s' → ok i → Inv i.store → Inv s')
    (h : Writes p R text s is s') (hok : ∀ i ∈ is, ok i) (hs : Inv s) : Inv s' := by
  induction h with
  | done h => exact hprune _ _ h hs
  | insert hbefore hwritten _ ih =>
    have hstore := hprune _ _ hbefore hs
    have hnext := hwrite _ _ hwritten (hok _ (by simp)) hstore
    exact ih (fun i hi => hok i (by simp [hi])) hnext

end Writes

theorem Writes.mem {text : Option String} {s s' : CacheStore} {is : List Insertion}
    (h : Writes p R text s is s') {k : QueryHash} (hk : ¬ R k) (hs : k ∈ s.entries) :
    k ∈ s'.entries := by
  refine h.invariant (fun s => k ∈ s.entries) (fun _ => True) ?_ ?_ (fun _ _ => trivial) hs
  · exact fun s₁ s₂ hp hs => hp.mem hk hs
  · intro i s₁ hw _ hs
    rw [hw.entries, AList.mem_insert]
    exact Or.inr hs

theorem Writes.mem_inserted {text : Option String} {s s' : CacheStore} {i : Insertion}
    (h : Writes p R text s [i] s') (hk : ¬ R i.hash) : i.hash ∈ s'.entries := by
  cases h with
  | insert _ hwritten hrest =>
    refine hrest.mem hk ?_
    rw [hwritten.entries, AList.mem_insert]
    exact Or.inl rfl

theorem written_trackedInsert (i : Insertion) (text : Option String) :
    Written p i text (i.store.trackedInsert p i.hash i.entry) :=
  ⟨rfl, Or.inl rfl, rfl, Or.inl rfl⟩

theorem writes_warmup (now : Clock) (upstreamId : String) (items : List (String × QueryResponse))
    (inserted : Nat) (s : CacheStore)
    (hr : ∀ i ∈ warmupInsertions p now upstreamId items s, i.NeedsRoom p → ∀ k, R k) :
    Writes p R none s (warmupInsertions p now upstreamId items s)
      (warmup p now upstreamId items inserted s).2 := by
  induction items generalizing inserted s with
  | nil => exact .done .refl
  | cons item rest ih =>
    rcases item with ⟨query, response⟩
    unfold warmupInsertions at hr ⊢
    unfold warmup
    cases hv : response.validate with
    | error =>
      rw [hv] at hr
      exact ih inserted s hr
    | ok =>
      rw [hv] at hr
      dsimp only at hr ⊢
      split
      · exact .done .refl
      · rename_i hroom
        rw [if_neg hroom] at hr
        have hwritten := written_trackedInsert (p := p) ⟨s, hashQuery p query,
          newEntry p now response upstreamId (some query) "default", false⟩ none
        refine .insert .refl hwritten ((ih _ _ fun i hi => hr i (by simp [hi])).after ?_)
        simpa [Insertion.admits, storeEntry] using hwritten.queued (hr _ (by simp))

theorem writes_restoreHashes (now : Clock) (t : PersistentCache) (hs : List QueryHash)
    (restored : Nat) (s : CacheStore)
    (hr : ∀ i ∈ restoreInsertions p now t hs s, i.NeedsRoom p → ∀ k, R k) :
    Writes p R none s (restoreInsertions p now t hs s)
      (restoreHashes p now t hs restored s).2 := by
  induction hs generalizing restored s with
  | nil => exact .done .refl
  | cons h rest ih =>
    unfold restoreInsertions at hr ⊢
    unfold restoreHashes
    split
    · exact .done .refl
    · rename_i hroom
      rw [if_neg hroom] at hr
      cases hload : t.loadEntry p h with
      | some e =>
        rw [hload] at hr
        have hwritten := written_trackedInsert (p := p) ⟨s, h, restoredEntry now e, true⟩ none
        refine .insert .refl hwritten ((ih _ _ fun i hi => hr i (by simp [hi])).after ?_)
        exact hwritten.queued (hr _ (by simp))
      | none =>
        rw [hload] at hr
        exact ih restored s hr

theorem writes_single {s s₁ s' : CacheStore} {scan : Scan} {now : Clock} {h : QueryHash}
    {response : QueryResponse} {upstreamId contextId : String} {queryText text : Option String}
    (hr : ∀ k ∈ s.roomVictims scan now upstreamId, R k)
    (hwritten : Written p
      (singleInsertion p s scan now h response upstreamId queryText contextId) text s₁)
    (hafter : Pruned p R s₁ s') :
    Writes p R text s [singleInsertion p s scan now h response upstreamId queryText contextId] s' :=
  .insert (pruned_makeRoomForUpstream s scan now upstreamId hr) hwritten (.done hafter)

theorem writes_insertImpl (s : CacheStore) (scan : Scan) (now : Clock) (query : String)
    (response : QueryResponse) (upstreamId contextId : String)
    (hr : ∀ k ∈ s.roomVictims scan now upstreamId, R k)
    (hr' : (singleInsertion p s scan now (hashQuery p query) response upstreamId (some query)
      contextId).NeedsRoom p → ∀ k, R k) :
    Writes p R (some query) s
      [singleInsertion p s scan now (hashQuery p query) response upstreamId (some query) contextId]
      (s.insertImpl p scan now query response upstreamId contextId) := by
  simp only [insertImpl]
  generalize hroom : s.makeRoomForUpstream p scan now upstreamId = room
  generalize hentry : newEntry p now response upstreamId (some query) contextId = entry
  generalize hstored : ((room.persistEntry p now (hashQuery p query) entry).trackedInsert p
    (hashQuery p query) entry).rememberExact p query (hashQuery p query) = stored
  have hwritten : Written p
      (singleInsertion p s scan now (hashQuery p query) response upstreamId (some query) contextId)
      (some query) stored := by
    rw [← hstored]
    simp only [singleInsertion, hroom, hentry]
    unfold rememberExact
    split
    · refine ⟨rfl, Or.inr ⟨query, rfl, ?_, rfl, rfl⟩, rfl, Or.inr ⟨_, rfl⟩⟩
      rw [← hentry]
      rfl
    · exact ⟨rfl, Or.inl rfl, rfl, Or.inr ⟨_, rfl⟩⟩
  have hqueued := hwritten.queued hr'
  simp only [singleInsertion, Insertion.admits, hroom, Bool.false_or] at hqueued
  generalize (if decide (hashQuery p query ∉ room.entries) = true then
    stored.s3fifoAdmit p (hashQuery p query) else stored) = admitted at hqueued ⊢
  refine writes_single hr hwritten (hqueued.trans ?_)
  split
  · exact pruned_publish _ _ _ _
  · exact .refl

theorem writes_insertByHash (s : CacheStore) (scan : Scan) (now : Clock) (h : QueryHash)
    (response : QueryResponse) (upstreamId : String) (queryKey : Option String)
    (hr : ∀ k ∈ s.roomVictims scan now upstreamId, R k)
    (hr' : (singleInsertion p s scan now h response upstreamId queryKey "default").NeedsRoom p →
      ∀ k, R k) :
    Writes p R none s [singleInsertion p s scan now h response upstreamId queryKey "default"]
      (s.insertByHash p scan now h response upstreamId queryKey) := by
  simp only [insertByHash, storeEntry]
  generalize hroom : s.makeRoomForUpstream p scan now upstreamId = room
  generalize hentry : newEntry p now response upstreamId queryKey "default" = entry
  generalize hstored : (room.persistEntry p now h entry).trackedInsert p h entry = stored
  have hwritten : Written p
      (singleInsertion p s scan now h response upstreamId queryKey "default") none stored := by
    rw [← hstored]
    simp only [singleInsertion, hroom, hentry]
    exact ⟨rfl, Or.inl rfl, rfl, Or.inr ⟨_, rfl⟩⟩
  have hqueued := hwritten.queued hr'
  simp only [singleInsertion, Insertion.admits, hroom, Bool.false_or] at hqueued
  change Pruned p R stored (if decide (h ∉ (room.persistEntry p now h entry).entries) = true then
    stored.s3fifoAdmit p h else stored) at hqueued
  generalize (if decide (h ∉ (room.persistEntry p now h entry).entries) = true then
    stored.s3fifoAdmit p h else stored) = admitted at hqueued ⊢
  refine writes_single hr hwritten (hqueued.trans ?_)
  split
  · exact pruned_publish _ _ _ _
  · exact .refl

theorem exec_writes (s : CacheStore) (call : Call) (hop : call.op.stores = true) :
    Writes p (Removable p s call) call.op.mappedText s (insertions p s call)
      (exec p s call) := by
  rcases call with ⟨now, scan, op⟩
  cases op with
  | insert query response upstreamId | insertWithContext query response upstreamId contextId =>
    exact writes_insertImpl s scan now query _ _ _ (fun _ hk => Or.inl hk)
      fun hroom _ => Or.inr ⟨_, List.mem_singleton_self _, hroom⟩
  | insertByHash h response upstreamId queryKey =>
    exact writes_insertByHash s scan now h _ _ _ (fun _ hk => Or.inl hk)
      fun hroom _ => Or.inr ⟨_, List.mem_singleton_self _, hroom⟩
  | insertByHashWithEmbedding h response upstreamId embedding queryKey =>
    have hins : Writes p (Removable p s ⟨now, scan, .insertByHashWithEmbedding h response
        upstreamId embedding queryKey⟩) none s
        [singleInsertion p s scan now h response upstreamId queryKey "default"]
        (s.insertByHash p scan now h response upstreamId queryKey) :=
      writes_insertByHash s scan now h _ _ _ (fun _ hk => Or.inl hk)
        fun hroom _ => Or.inr ⟨_, List.mem_singleton_self _, hroom⟩
    cases embedding with
    | some e => exact hins.before (Pruned.same rfl rfl rfl)
    | none => exact hins
  | warmup entries upstreamId =>
    exact writes_warmup now upstreamId entries 0 s fun i hi hroom _ => ⟨i, hi, hroom⟩
  | restoreFromPersistence =>
    simp only [exec, restoreFromPersistence]
    cases ht : s.persistence with
    | some t =>
      have hins : insertions p s ⟨now, scan, .restoreFromPersistence⟩ =
          restoreInsertions p now t t.allEntryHashes s := by
        simp only [insertions, ht]
      rw [hins]
      refine writes_restoreHashes now t _ 0 s fun i hi hroom _ => ⟨i, ?_, hroom⟩
      rw [hins]
      exact hi
    | none =>
      have hins : insertions p s ⟨now, scan, .restoreFromPersistence⟩ = [] := by
        simp only [insertions, ht]
      rw [hins]
      exact .done .refl
  | _ => cases hop

/-- What a call does to the entries, the mappings and the settings that later calls depend on. -/
inductive Effect (p : Platform) (s : CacheStore) (call : Call) : CacheStore → Prop where
  | prunes {s' : CacheStore} (h : Pruned p (Removable p s call) s s') : Effect p s call s'
  | maps {s₁ : CacheStore} {query : String} (hop : call.op.mappedText = some query)
      (h : Pruned p (Removable p s call) s s₁) (hmem : hashQuery p query ∈ s₁.entries) :
      Effect p s call (s₁.countNormalizedHit (hashQueryExact p query) (hashQuery p query))
  | stores {s' : CacheStore} (hop : call.op.stores = true)
      (h : Writes p (Removable p s call) call.op.mappedText s (insertions p s call) s') :
      Effect p s call s'
  | removes {query : String} (hop : call.op = .remove query) :
      Effect p s call (s.remove p call.now query)
  | clears (hop : call.op = .clear) : Effect p s call (s.clear call.now)
  | drops {upstreamUrl : Option String} {scopeSeeds : List String} {fingerprint : Nat}
      (hop : call.op = .updateConfigFingerprint upstreamUrl scopeSeeds) :
      Effect p s call ({ s with configFingerprint := fingerprint } : CacheStore).dropAll
  | flushes (hop : call.op = .flushToPersistence) :
      Effect p s call (s.flushToPersistence p call.scan call.now)
  | configures {s' : CacheStore} (hentries : s'.entries = s.entries)
      (hexact : s'.exactToNormalized = s.exactToNormalized)
      (hmatching : s'.normalizedMatching = s.normalizedMatching ∨
        call.op = .withNormalizedMatching s'.normalizedMatching)
      (hlimit : s'.perUpstreamLimit = s.perUpstreamLimit ∨
        call.op = .setPerUpstreamLimit s'.perUpstreamLimit)
      (hdisk : s'.persistence = s.persistence ∨
        ∃ t, call.op = .setPersistence t ∧ s'.persistence = some t) : Effect p s call s'

theorem effect_getWithHitType (s : CacheStore) (call : Call) {query : String}
    (hop : call.op.mappedText = some query) : Effect p s call (s.getWithHitType p query).2 := by
  rcases getWithHitType_cases (p := p) s query with h | ⟨s₁, h, hmem, heq⟩
  · exact .prunes h
  · rw [heq]
    exact .maps hop h hmem

theorem exec_effect (s : CacheStore) (call : Call) : Effect p s call (exec p s call) := by
  have hprunes := exec_pruned (p := p) s call
  have hstores := exec_writes (p := p) s call
  rcases call with ⟨now, scan, op⟩
  cases op with
  | get query | getWithHitType query => exact effect_getWithHitType s _ rfl
  | getByHash | getVerified | extendTtl | evictSmart | evictTrulyExpired | evictFilter
  | evictFromUpstream | enforcePerUpstreamLimit | enforceMemoryLimit | removeCorrupted =>
    exact .prunes (hprunes rfl)
  | insert | insertWithContext | insertByHash | insertByHashWithEmbedding | warmup
  | restoreFromPersistence => exact .stores rfl (hstores rfl)
  | flushToPersistence => exact .flushes rfl
  | remove query => exact .removes rfl
  | clear => exact .clears rfl
  | updateConfigFingerprint upstreamUrl scopeSeeds =>
    simp only [exec, updateConfigFingerprint]
    split
    · exact .drops rfl
    · exact .configures rfl rfl (Or.inl rfl) (Or.inl rfl) (Or.inl rfl)
  | setMaxEntries maxEntries =>
    by_cases hzero : maxEntries = 0
    · simp only [exec, setMaxEntries, hzero, if_true]
      exact .prunes .refl
    · simp only [exec, setMaxEntries, hzero, if_false]
      exact .configures rfl rfl (Or.inl rfl) (Or.inl rfl) (Or.inl rfl)
  | withNormalizedMatching enabled =>
    exact .configures rfl rfl (Or.inr rfl) (Or.inl rfl) (Or.inl rfl)
  | setPerUpstreamLimit limit =>
    exact .configures rfl rfl (Or.inl rfl) (Or.inr rfl) (Or.inl rfl)
  | setPersistence t =>
    exact .configures rfl rfl (Or.inl rfl) (Or.inl rfl) (Or.inr ⟨t, rfl, rfl⟩)
  | setMaxMemoryBytes | setMaxFrozenDuration | setFreshDuration | setStaleDuration
  | withCdcSender | withSemanticCache =>
    exact .configures rfl rfl (Or.inl rfl) (Or.inl rfl) (Or.inl rfl)

theorem flushEntries_eq (now : Clock) (es : List (QueryHash × CacheEntry)) (s : CacheStore) :
    flushEntries p now es s =
      { s with persistence := (flushEntries p now es s).persistence } := by
  induction es generalizing s with
  | nil => rfl
  | cons e rest ih =>
    rw [flushEntries, ih]
    rfl

end Conproxy
