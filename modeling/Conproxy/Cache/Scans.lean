import Conproxy.Cache.Core

/-!
# The eviction scans as chains of steps

Every scan is a chain of `Evict` steps. A scan that returns a source took one entry out of the
map and one slot off the queues; a scan that returns nothing looked at every slot and kept
every resident key. A cold resident key with a slot therefore makes the scan succeed, and this
is what ends the eviction loops of an admission.
-/

namespace Conproxy

open Relation

set_option autoImplicit false

variable {p : Platform}

namespace Evicts

theorem len_le {c c' : Core} (h : Evicts p c c') : c'.len ≤ c.len := by
  induction h with
  | refl => exact le_rfl
  | tail _ hstep ih => exact hstep.len_le.trans ih

theorem slots_length_le {c c' : Core} (h : Evicts p c c') :
    c'.slots.length ≤ c.slots.length := by
  induction h with
  | refl => exact le_rfl
  | tail _ hstep ih => exact hstep.slots_length_le.trans ih

end Evicts

namespace CacheStore

structure ScanSpec (p : Platform) (s : CacheStore) (r : Option EvictionSource × CacheStore) :
    Prop where
  chain : Evicts p s.core r.2.core
  frame : r.2.frame = s.frame
  found_len : r.1 ≠ none → r.2.core.len < s.core.len
  found_slots : r.1 ≠ none → r.2.core.slots.length < s.core.slots.length
  kept : r.1 = none → ∀ k ∈ s.entries, k ∈ r.2.entries

namespace ScanSpec

theorem refl (s : CacheStore) : ScanSpec p s (none, s) where
  chain := .refl
  frame := rfl
  found_len := fun h => absurd rfl h
  found_slots := fun h => absurd rfl h
  kept := fun _ _ hk => hk

theorem prepend {s s' : CacheStore} {r : Option EvictionSource × CacheStore}
    (hchain : Evicts p s.core s'.core) (hframe : s'.frame = s.frame)
    (hkept : ∀ k ∈ s.entries, k ∈ s'.entries) (h : ScanSpec p s' r) : ScanSpec p s r where
  chain := hchain.trans h.chain
  frame := h.frame.trans hframe
  found_len := fun hr => (h.found_len hr).trans_le hchain.len_le
  found_slots := fun hr => (h.found_slots hr).trans_le hchain.slots_length_le
  kept := fun hr k hk => h.kept hr k (hkept k hk)

end ScanSpec

theorem scanSpec_evicted {s s' : CacheStore} {source : EvictionSource} {h : QueryHash}
    {e : CacheEntry} (hl : s.entries.lookup h = some e) (hframe : s'.frame = s.frame)
    (hentries : s'.entries = (s.entries.insert h (withFreq e 0)).erase h)
    (hslots : s'.core.slots.length < s.core.slots.length)
    (hstep : Evict p { s.core with entries := s.entries.insert h (withFreq e 0) } s'.core) :
    ScanSpec p s (some source, s') where
  chain := (ReflTransGen.single (Evict.cool hl)).tail hstep
  frame := hframe
  found_len := by
    intro _
    have hm := WeightedTable.mem_of_lookup _ hl
    have hins : h ∈ s.entries.insert h (withFreq e 0) := by simp
    have := WeightedTable.length_keys_erase _ hins
    rw [WeightedTable.length_keys_insert _ hm] at this
    simp only [Core.len, core_entries, hentries]
    omega
  found_slots := fun _ => hslots
  kept := fun hr => absurd hr (by simp)

theorem evictFromSmallLoop_spec (attempts promotions : Nat) (s : CacheStore) :
    ScanSpec p s (evictFromSmallLoop p attempts promotions s) := by
  induction attempts generalizing promotions s with
  | zero =>
    have hcore : (s.recordPromotions promotions).core = s.core := core_recordPromotions s _
    refine ⟨?_, frame_recordPromotions s _, fun h => absurd rfl h, fun h => absurd rfl h, ?_⟩
    · simp only [evictFromSmallLoop, hcore]
      exact .refl
    · intro _ k hk
      have hentries : (s.recordPromotions promotions).entries = s.entries :=
        congrArg Core.entries hcore
      simpa only [evictFromSmallLoop, hentries] using hk
  | succ attempts ih =>
    cases hs : s.s3fifo.small with
    | nil =>
      simp only [evictFromSmallLoop, hs]
      exact .refl s
    | cons h rest =>
      cases smallHead (p := p) attempts promotions hs with
      | evicted s' e hl heq hframe hcore =>
        rw [heq]
        apply scanSpec_evicted hl hframe (congrArg Core.entries hcore)
        · rw [hcore]
          simp [Core.slots, S3FifoState.slots, S3FifoState.addGhost, hs]
        · rw [hcore]
          exact Evict.evictSmall (e := withFreq e 0) hs (AList.lookup_insert _)
      | dropped s' hn heq hframe hcore =>
        rw [heq]
        refine .prepend ?_ hframe ?_ (ih promotions s')
        · rw [hcore]
          exact .single (.dropSmall hs hn)
        · intro k hk
          have hentries : s'.entries = s.entries := congrArg Core.entries hcore
          rwa [hentries]
      | promoted s' e hl heq hframe hcore =>
        rw [heq]
        refine .prepend ?_ hframe ?_ (ih (promotions + 1) s')
        · rw [hcore]
          exact (ReflTransGen.single (Evict.cool hl)).tail (.promote hs)
        · intro k hk
          have hentries : s'.entries = s.entries.insert h (withFreq e 0) :=
            congrArg Core.entries hcore
          simp [hentries, hk]

theorem evictFromMainLoop_spec (attempts : Nat) (s : CacheStore) :
    ScanSpec p s (evictFromMainLoop p attempts s) := by
  induction attempts generalizing s with
  | zero => exact .refl s
  | succ attempts ih =>
    cases hm : s.s3fifo.main with
    | nil =>
      simp only [evictFromMainLoop, hm]
      exact .refl s
    | cons h rest =>
      cases mainHead (p := p) attempts hm with
      | evicted s' e hl heq hframe hcore =>
        rw [heq]
        apply scanSpec_evicted hl hframe (congrArg Core.entries hcore)
        · rw [hcore]
          simp [Core.slots, S3FifoState.slots, hm]
        · rw [hcore]
          exact Evict.evictMain (e := withFreq e 0) hm (AList.lookup_insert _)
      | dropped s' hn heq hframe hcore =>
        rw [heq]
        refine .prepend ?_ hframe ?_ (ih s')
        · rw [hcore]
          exact .single (.dropMain hm hn)
        · intro k hk
          have hentries : s'.entries = s.entries := congrArg Core.entries hcore
          rwa [hentries]
      | recycled s' e hl hf heq hframe hcore =>
        rw [heq]
        refine .prepend ?_ hframe ?_ (ih s')
        · rw [hcore]
          exact (ReflTransGen.single (Evict.cool hl)).tail (.recycle hm)
        · intro k hk
          have hentries : s'.entries = s.entries.insert h (withFreq e 0) :=
            congrArg Core.entries hcore
          simp [hentries, hk]

theorem evictSmallThenMain_eq (s : CacheStore) :
    s.evictSmallThenMain p =
      match s.s3fifoEvictFromSmall p with
      | (some source, s') => (some source, s')
      | (none, s') => s'.s3fifoEvictFromMain p := by
  have hsmall : (if s.s3fifo.small ≠ [] then s.s3fifoEvictFromSmall p else (none, s)) =
      s.s3fifoEvictFromSmall p := by
    by_cases hs : s.s3fifo.small = []
    · simp [s3fifoEvictFromSmall, hs, evictFromSmallLoop, recordPromotions]
    · simp [hs]
  simp only [evictSmallThenMain, hsmall]
  rcases s.s3fifoEvictFromSmall p with ⟨_ | source, s'⟩
  · by_cases hm : s'.s3fifo.main = []
    · simp [s3fifoEvictFromMain, hm, evictFromMainLoop]
    · simp [hm]
  · rfl

theorem evictSmallThenMain_spec (s : CacheStore) : ScanSpec p s (s.evictSmallThenMain p) := by
  rw [evictSmallThenMain_eq]
  have hfirst : ScanSpec p s (s.s3fifoEvictFromSmall p) := evictFromSmallLoop_spec _ 0 s
  rcases hr : s.s3fifoEvictFromSmall p with ⟨_ | source, s'⟩
  · rw [hr] at hfirst
    exact .prepend hfirst.chain hfirst.frame (hfirst.kept rfl) (evictFromMainLoop_spec _ s')
  · rw [hr] at hfirst
    exact hfirst

/-- A scan of the whole small queue that finds nothing empties it. -/
theorem evictFromSmallLoop_none (attempts promotions : Nat) (s : CacheStore)
    (hlen : s.s3fifo.small.length ≤ attempts)
    (hnone : (evictFromSmallLoop p attempts promotions s).1 = none) :
    (evictFromSmallLoop p attempts promotions s).2.s3fifo.small = [] := by
  induction attempts generalizing promotions s with
  | zero =>
    have hnil : s.s3fifo.small = [] := List.length_eq_zero_iff.mp (by omega)
    have hcore := core_recordPromotions s promotions
    rw [← hnil]
    exact congrArg (fun c => c.queues.small) hcore
  | succ attempts ih =>
    cases hs : s.s3fifo.small with
    | nil => simp only [evictFromSmallLoop, hs]
    | cons h rest =>
      rw [hs, List.length_cons] at hlen
      cases smallHead (p := p) attempts promotions hs with
      | evicted s' e hl heq hframe hcore =>
        rw [heq] at hnone
        cases hnone
      | dropped s' hn heq hframe hcore =>
        rw [heq] at hnone ⊢
        have hsmall : s'.s3fifo.small = rest := congrArg (fun c => c.queues.small) hcore
        exact ih promotions s' (by rw [hsmall]; omega) hnone
      | promoted s' e hl heq hframe hcore =>
        rw [heq] at hnone ⊢
        have hsmall : s'.s3fifo.small = rest := congrArg (fun c => c.queues.small) hcore
        exact ih (promotions + 1) s' (by rw [hsmall]; omega) hnone

theorem evictFromMainLoop_found (attempts : Nat) (s : CacheStore) {k : QueryHash}
    {e : CacheEntry} (hl : s.entries.lookup k = some e) (hcold : e.freq = 0)
    (hk : k ∈ s.s3fifo.main.take attempts) : (evictFromMainLoop p attempts s).1 ≠ none := by
  induction attempts generalizing s with
  | zero => simp at hk
  | succ attempts ih =>
    cases hm : s.s3fifo.main with
    | nil => simp [hm] at hk
    | cons h rest =>
      rw [hm, List.take_succ_cons, List.mem_cons] at hk
      cases mainHead (p := p) attempts hm with
      | evicted s' e' hl' heq hframe hcore => simp [heq]
      | dropped s' hn heq hframe hcore =>
        have hne : k ≠ h := by
          rintro rfl
          exact hn (WeightedTable.mem_of_lookup _ hl)
        have hentries : s'.entries = s.entries := congrArg Core.entries hcore
        have hmain : s'.s3fifo.main = rest := congrArg (fun c => c.queues.main) hcore
        rw [heq]
        apply ih s'
        · rwa [hentries]
        · rw [hmain]
          exact hk.resolve_left hne
      | recycled s' e' hl' hf heq hframe hcore =>
        have hne : k ≠ h := by
          rintro rfl
          rw [hl] at hl'
          cases hl'
          exact hf hcold
        have hentries : s'.entries = s.entries.insert h (withFreq e' 0) :=
          congrArg Core.entries hcore
        have hmain : s'.s3fifo.main = rest ++ [h] := congrArg (fun c => c.queues.main) hcore
        rw [heq]
        apply ih s'
        · rw [hentries, AList.lookup_insert_ne hne, hl]
        · rw [hmain, List.take_append]
          apply List.mem_append_left
          exact hk.resolve_left hne

end CacheStore

theorem Evicts.cold {c c' : Core} {k : QueryHash} (h : Evicts p c c') (hk : c.Cold k) :
    c'.Cold k := by
  induction h with
  | refl => exact hk
  | tail _ hstep ih => exact hstep.cold ih

namespace CacheStore

theorem evictSmallThenMain_found {s : CacheStore} {k : QueryHash} (hk : k ∈ s.entries)
    (hcold : s.core.Cold k) : (s.evictSmallThenMain p).1 ≠ none := by
  rw [evictSmallThenMain_eq]
  have hfirst : ScanSpec p s (s.s3fifoEvictFromSmall p) := evictFromSmallLoop_spec _ 0 s
  have hempty := evictFromSmallLoop_none (p := p) s.s3fifo.small.length 0 s le_rfl
  rcases hr : s.s3fifoEvictFromSmall p with ⟨_ | source, s'⟩
  · rw [hr] at hfirst
    have hloop : evictFromSmallLoop p s.s3fifo.small.length 0 s = (none, s') := hr
    rw [hloop] at hempty
    have hsmall : s'.s3fifo.small = [] := hempty rfl
    obtain ⟨e, hl⟩ := WeightedTable.lookup_of_mem _ (hfirst.kept rfl k hk)
    obtain ⟨hfreq, hslot⟩ := hfirst.chain.cold hcold e hl
    have hmain : k ∈ s'.s3fifo.main := by
      simpa [Core.slots, S3FifoState.slots, hsmall] using hslot
    exact evictFromMainLoop_found s'.s3fifo.main.length s' hl hfreq (by simpa)
  · simp

section Loop

variable {exceeds : CacheStore → Bool} {evict : CacheStore → Option EvictionSource × CacheStore}
  (measure : CacheStore → Nat)

/-- Once the measure is below the rounds that are left, more rounds change nothing: the loop
has ended by itself. -/
theorem evictWhile_enough
    (hdec : ∀ s, (evict s).1 ≠ none → measure (evict s).2 < measure s) (fuel more : Nat)
    (n : Evicted) (s : CacheStore) (hfuel : measure s < fuel) :
    evictWhile exceeds evict (fuel + more) n s = evictWhile exceeds evict fuel n s := by
  induction fuel generalizing n s with
  | zero => omega
  | succ fuel ih =>
    rw [Nat.succ_add]
    unfold evictWhile
    cases exceeds s with
    | false => rfl
    | true =>
      have hlt := hdec s
      rcases hr : evict s with ⟨_ | source, s'⟩
      · rfl
      · rw [hr] at hlt
        have hmeasure : measure s' < measure s := hlt (by simp)
        exact ih (n.add source) s' (by omega)

/-- A loop whose rounds keep an invariant, make progress while the limit is exceeded and lower
a measure ends below the limit. -/
theorem evictWhile_spec (Inv : CacheStore → Prop)
    (hinv : ∀ s, Inv s → exceeds s = true → Inv (evict s).2)
    (hfound : ∀ s, Inv s → exceeds s = true → (evict s).1 ≠ none)
    (hdec : ∀ s, (evict s).1 ≠ none → measure (evict s).2 < measure s) (fuel : Nat) (n : Evicted)
    (s : CacheStore) (hs : Inv s) (hfuel : measure s < fuel) :
    Inv (evictWhile exceeds evict fuel n s).2 ∧
      exceeds (evictWhile exceeds evict fuel n s).2 = false := by
  induction fuel generalizing n s with
  | zero => omega
  | succ fuel ih =>
    unfold evictWhile
    cases hexceeds : exceeds s with
    | false => exact ⟨hs, hexceeds⟩
    | true =>
      have hne := hfound s hs hexceeds
      have hlt := hdec s hne
      have hkeep := hinv s hs hexceeds
      rcases hr : evict s with ⟨_ | source, s'⟩
      · simp [hr] at hne
      · rw [hr] at hlt hkeep
        have hmeasure : measure s' < measure s := hlt
        exact ih (n.add source) s' hkeep (by omega)

end Loop

theorem evictToCapacity_enough (more : Nat) (n : Evicted) (s : CacheStore) :
    evictWhile overCapacity (s3fifoEvictOne p) (s.s3fifo.slots.length + 1 + more) n s =
      evictToCapacity p n s :=
  evictWhile_enough (fun s => s.core.slots.length)
    (fun s => (evictSmallThenMain_spec s).found_slots) _ more n s (Nat.lt_succ_self _)

theorem evictToMemory_enough (limit more : Nat) (n : Evicted) (s : CacheStore) :
    evictWhile (overMemory limit) (s3fifoEvictOneMemory p) (s.len + 1 + more) n s =
      evictToMemory p limit n s :=
  evictWhile_enough (fun s => s.core.len)
    (fun s => (evictSmallThenMain_spec s).found_len) _ more n s (Nat.lt_succ_self _)

theorem evictWhile_chain (exceeds : CacheStore → Bool) (fuel : Nat) (n : Evicted) (s : CacheStore) :
    Evicts p s.core (evictWhile exceeds (evictSmallThenMain p) fuel n s).2.core ∧
      (evictWhile exceeds (evictSmallThenMain p) fuel n s).2.frame = s.frame := by
  induction fuel generalizing n s with
  | zero => exact ⟨.refl, rfl⟩
  | succ fuel ih =>
    unfold evictWhile
    cases exceeds s with
    | false => exact ⟨.refl, rfl⟩
    | true =>
      have hspec := evictSmallThenMain_spec (p := p) s
      rcases hr : s.evictSmallThenMain p with ⟨_ | source, s'⟩
      · rw [hr] at hspec
        exact ⟨hspec.chain, hspec.frame⟩
      · rw [hr] at hspec
        obtain ⟨hchain, hframe⟩ := ih (n.add source) s'
        exact ⟨hspec.chain.trans hchain, hframe.trans hspec.frame⟩

end CacheStore
end Conproxy
