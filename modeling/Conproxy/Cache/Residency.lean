import Conproxy.Lib.Machine
import Conproxy.Cache.Calls

/-!
# Residency and capacity

Every resident key has a queue slot, and the slots never outnumber the capacity that the
queues were created with. The bound rests on the admission: the scan may skip hot keys and
may give up, but the key that was just admitted is cold and has a slot, so while it is
resident every round of the loop evicts something.
-/

namespace Conproxy

open Relation CacheStore

set_option autoImplicit false

variable {p : Platform}

def Core.Resident (c : Core) : Prop := ∀ k ∈ c.entries, k ∈ c.slots

/-- Every resident key has a slot, and the slots fit the capacity. -/
structure Core.Fits (c : Core) (capacity : Nat) : Prop where
  resident : c.Resident
  bounded : c.slots.length ≤ capacity
  capacity_eq : c.queues.capacity = capacity

theorem Evict.resident {c c' : Core} (h : Evict p c c') (hc : c.Resident) : c'.Resident := by
  intro k hk
  cases h.view with
  | cool h e hl hentries _ hslots =>
    rw [hentries, AList.mem_insert] at hk
    refine hslots.mem_iff.mpr (hc k ?_)
    rcases hk with rfl | hk
    · exact WeightedTable.mem_of_lookup _ hl
    · exact hk
  | rotate hentries _ hslots => exact hslots.mem_iff.mpr (hc k (hentries ▸ hk))
  | evict h e hl hentries _ hslots =>
    rw [hentries, AList.mem_erase] at hk
    have hmem := hslots.mem_iff.mp (hc k hk.2)
    exact (List.mem_cons.mp hmem).resolve_left hk.1
  | drop h hn hentries _ hslots =>
    rw [hentries] at hk
    have hmem := hslots.mem_iff.mp (hc k hk)
    apply (List.mem_cons.mp hmem).resolve_left
    rintro rfl
    exact hn hk

theorem Evicts.resident {c c' : Core} (h : Evicts p c c') (hc : c.Resident) : c'.Resident := by
  induction h with
  | refl => exact hc
  | tail _ hstep ih => exact hstep.resident ih

theorem Shrink.resident {c c' : Core} (h : Shrink p c c') (hc : c.Resident) : c'.Resident := by
  intro k hk
  cases h with
  | evict h => exact h.resident hc k hk
  | touch hl =>
    rcases (AList.mem_insert _).mp hk with rfl | hk
    · exact hc _ (WeightedTable.mem_of_lookup _ hl)
    · exact hc k hk
  | remove hl => exact hc k (AList.mem_erase.mp hk).2
  | clear => exact absurd hk (AList.notMem_empty k)

theorem Shrink.fits {c c' : Core} {capacity : Nat} (h : Shrink p c c') (hc : c.Fits capacity) :
    c'.Fits capacity := by
  refine ⟨h.resident hc.resident, ?_, ?_⟩
  · cases h with
    | evict h => exact h.slots_length_le.trans hc.bounded
    | touch | remove => exact hc.bounded
    | clear => exact Nat.zero_le _
  · cases h with
    | evict h => exact h.capacity_eq.trans hc.capacity_eq
    | touch | remove | clear => exact hc.capacity_eq

theorem Shrinks.fits {c c' : Core} {capacity : Nat} (h : Shrinks p c c')
    (hc : c.Fits capacity) : c'.Fits capacity := by
  induction h with
  | refl => exact hc
  | tail _ hstep ih => exact hstep.fits ih

theorem S3FifoState.push_slots (q : S3FifoState) (h : QueryHash) :
    (q.push h).slots.Perm (h :: q.slots) := by
  unfold S3FifoState.push S3FifoState.slots
  split
  · rw [← List.append_assoc]
    exact List.perm_append_singleton _ _
  · simp only [List.append_assoc, List.singleton_append]
    exact List.perm_middle

theorem S3FifoState.push_capacity (q : S3FifoState) (h : QueryHash) :
    (q.push h).capacity = q.capacity := by
  unfold S3FifoState.push
  split <;> rfl

/-- The state of the capacity loop of an admission: at most one slot too many, and none once
the new key is gone. -/
structure Admitting (capacity : Nat) (k : QueryHash) (s : CacheStore) : Prop where
  cold : s.core.Cold k
  capacity_eq : s.s3fifo.capacity = capacity
  bounded : s.core.slots.length ≤ capacity + 1
  gone : k ∉ s.entries → s.core.slots.length ≤ capacity

theorem overCapacity_eq_true {s : CacheStore} :
    overCapacity s = true ↔ s.s3fifo.capacity < s.core.slots.length := by
  simp [overCapacity, Core.slots, S3FifoState.slots]

theorem overCapacity_eq_false {s : CacheStore} :
    overCapacity s = false ↔ s.core.slots.length ≤ s.s3fifo.capacity := by
  simp [overCapacity, Core.slots, S3FifoState.slots]

theorem Evicts.capacity_eq {c c' : Core} (h : Evicts p c c') :
    c'.queues.capacity = c.queues.capacity := by
  induction h with
  | refl => rfl
  | tail _ hstep ih => exact hstep.capacity_eq.trans ih

theorem Admitting.found {capacity : Nat} {k : QueryHash} {s : CacheStore}
    (h : Admitting capacity k s) (hover : overCapacity s = true) :
    (s.s3fifoEvictOne p).1 ≠ none := by
  refine evictSmallThenMain_found (k := k) ?_ h.cold
  by_contra hk
  have hlt := overCapacity_eq_true.mp hover
  have hle := h.gone hk
  rw [h.capacity_eq] at hlt
  omega

theorem Admitting.step {capacity : Nat} {k : QueryHash} {s : CacheStore}
    (h : Admitting capacity k s) (hover : overCapacity s = true) :
    Admitting capacity k (s.s3fifoEvictOne p).2 := by
  have hspec := evictSmallThenMain_spec (p := p) s
  have hlt := hspec.found_slots (h.found hover)
  have hbound := h.bounded
  refine ⟨hspec.chain.cold h.cold, hspec.chain.capacity_eq.trans h.capacity_eq, ?_, fun _ => ?_⟩
  · exact (Nat.le_of_lt hlt).trans hbound
  · exact Nat.le_of_lt_succ (hlt.trans_le hbound)

theorem evictToCapacity_bounded {capacity : Nat} {k : QueryHash} {s : CacheStore} (n : Evicted)
    (h : Admitting capacity k s) :
    (evictToCapacity p n s).2.core.slots.length ≤ capacity := by
  have hloop := evictWhile_spec (fun s => s.core.slots.length) (Admitting capacity k)
    (fun s hs hover => hs.step (p := p) hover) (fun s hs hover => hs.found hover)
    (fun s hs => (evictSmallThenMain_spec s).found_slots hs)
    (s.s3fifo.slots.length + 1) n s h (Nat.lt_succ_self _)
  have hle := overCapacity_eq_false.mp hloop.2
  rwa [hloop.1.capacity_eq] at hle

theorem s3fifoAdmit_chain (s : CacheStore) (h : QueryHash) :
    Evicts p { s.core with queues := s.s3fifo.push h } (s.s3fifoAdmit p h).core := by
  have hfit := (evictWhile_chain (p := p) overCapacity
    ((s.s3fifo.push h).slots.length + 1) ⟨0, 0⟩ { s with s3fifo := s.s3fifo.push h }).1
  simp only [s3fifoAdmit, core_recordAdmission]
  split
  · exact hfit.trans (evictWhile_chain _ _ _ _).1
  · exact hfit

theorem s3fifoAdmit_bounded {capacity : Nat} {s : CacheStore} {h : QueryHash} {e : CacheEntry}
    (hl : s.entries.lookup h = some e) (hcold : e.freq = 0)
    (hbound : s.core.slots.length ≤ capacity) (hcap : s.s3fifo.capacity = capacity) :
    (s.s3fifoAdmit p h).core.slots.length ≤ capacity := by
  have hslots := s.s3fifo.push_slots h
  have hstart : Admitting capacity h { s with s3fifo := s.s3fifo.push h } := by
    refine ⟨?_, (s.s3fifo.push_capacity h).trans hcap, ?_, fun hn => ?_⟩
    · intro e' hl'
      obtain rfl : e' = e := Option.some.inj (hl'.symm.trans hl)
      exact ⟨hcold, hslots.mem_iff.mpr (by simp)⟩
    · exact hslots.length_eq.le.trans (Nat.succ_le_succ hbound)
    · exact absurd (WeightedTable.mem_of_lookup _ hl) hn
  have hfit := evictToCapacity_bounded (p := p) ⟨0, 0⟩ hstart
  simp only [s3fifoAdmit, core_recordAdmission]
  split
  · exact (evictWhile_chain _ _ _ _).1.slots_length_le.trans hfit
  · exact hfit

theorem resident_trackedInsert {s : CacheStore} {h : QueryHash} {e : CacheEntry}
    (hm : h ∈ s.entries) (hs : s.core.Resident) : (s.trackedInsert p h e).core.Resident := by
  intro k hk
  rcases (AList.mem_insert _).mp hk with rfl | hk
  · exact hs _ hm
  · exact hs k hk

theorem resident_push {s stored : CacheStore} {h : QueryHash} {e : CacheEntry}
    (hstored : stored.core = (s.trackedInsert p h e).core) (hs : s.core.Resident) :
    Core.Resident { stored.core with queues := stored.s3fifo.push h } := by
  have hqueues : stored.s3fifo = s.s3fifo := congrArg Core.queues hstored
  intro k hk
  apply (stored.s3fifo.push_slots h).mem_iff.mpr
  have hk' : k ∈ (s.trackedInsert p h e).core.entries := by
    rw [← hstored]
    exact hk
  rcases (AList.mem_insert _).mp hk' with rfl | hk'
  · exact List.mem_cons_self
  · rw [hqueues]
    exact List.mem_cons_of_mem _ (hs k hk')

theorem Inserted.fits {i : Insertion} {s' : CacheStore} {capacity : Nat} (h : Inserted p i s')
    (hs : i.store.core.Fits capacity) : s'.core.Fits capacity := by
  rcases h.cases with ⟨-, hmem, hcore⟩ | ⟨-, stored, hstored, -, hcore⟩
  · rw [hcore]
    exact ⟨resident_trackedInsert hmem hs.resident, hs.bounded, hs.capacity_eq⟩
  · have hentries : stored.entries = i.store.entries.insert i.hash i.entry :=
      congrArg Core.entries hstored
    have hqueues : stored.s3fifo = i.store.s3fifo := congrArg Core.queues hstored
    have hchain := s3fifoAdmit_chain (p := p) stored i.hash
    rw [hcore]
    refine ⟨hchain.resident (resident_push hstored hs.resident), ?_, ?_⟩
    · refine s3fifoAdmit_bounded (e := i.entry) ?_ h.cold ?_ (hqueues ▸ hs.capacity_eq)
      · rw [hentries, AList.lookup_insert]
      · rw [Core.slots, core_queues, hqueues]
        exact hs.bounded
    · rw [hchain.capacity_eq]
      exact (stored.s3fifo.push_capacity i.hash).trans (hqueues ▸ hs.capacity_eq)

theorem exec_fits {capacity : Nat} (s : CacheStore) (call : Call) (hs : s.core.Fits capacity) :
    (exec p s call).core.Fits capacity := by
  by_cases hop : ∃ n, call.op = .setMaxMemoryBytes n
  · obtain ⟨n, hn⟩ := hop
    simp only [exec, hn]
    exact hs
  · have hsteps := exec_steps (p := p) s call (fun n hn => hop ⟨n, hn⟩)
    refine hsteps.invariant (fun s => s.core.Fits capacity) (fun _ => True) ?_ ?_
      (fun _ _ => trivial) hs
    · exact fun s s' h hs => h.core.fits hs
    · exact fun i s' h _ hs => h.fits hs

theorem run_fits {capacity : Nat} {s : CacheStore} (hs : s.core.Fits capacity)
    (calls : List Call) : (Machine.run (exec p) s calls).core.Fits capacity := by
  induction calls generalizing s with
  | nil => exact hs
  | cons call rest ih => exact ih (exec_fits s call hs)

theorem withJitter_fits (freshDuration staleDuration : Duration) (maxEntries : Nat)
    (ttlJitterPercent : ℚ) :
    (withJitter freshDuration staleDuration maxEntries ttlJitterPercent).core.Fits
      (max maxEntries 1) where
  resident := fun k hk => absurd hk (AList.notMem_empty k)
  bounded := Nat.zero_le _
  capacity_eq := S3FifoState.new_capacity maxEntries

/-- After every run from a new store, whatever the calls are: the resident keys have slots,
the slots fit the two capacities, and these add up to the limit given to the constructor. -/
theorem residency_and_capacity (freshDuration staleDuration : Duration) (maxEntries : Nat)
    (calls : List Call) :
    let s := Machine.run (exec p) (CacheStore.new freshDuration staleDuration maxEntries) calls
    (∀ k ∈ s.entries, k ∈ s.s3fifo.small ++ s.s3fifo.main) ∧
      s.s3fifo.small.length + s.s3fifo.main.length ≤
        s.s3fifo.smallCapacity + s.s3fifo.mainCapacity ∧
      s.s3fifo.smallCapacity + s.s3fifo.mainCapacity = max maxEntries 1 ∧
      s.len ≤ max maxEntries 1 := by
  intro s
  have hfits : s.core.Fits (max maxEntries 1) :=
    run_fits (withJitter_fits freshDuration staleDuration maxEntries _) calls
  have hcap : s.s3fifo.smallCapacity + s.s3fifo.mainCapacity = max maxEntries 1 :=
    hfits.capacity_eq
  have hbound := hfits.bounded
  rw [Core.slots, core_queues, S3FifoState.slots, List.length_append] at hbound
  refine ⟨hfits.resident, hbound.trans hcap.ge, hcap, ?_⟩
  exact (WeightedTable.length_keys_le s.entries hfits.resident).trans hfits.bounded

end Conproxy
