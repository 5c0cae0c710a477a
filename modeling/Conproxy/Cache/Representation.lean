import Mathlib.Data.Finset.Dedup
import Conproxy.Sample
import Conproxy.Cache.Residency

/-!
# The queues represent the resident keys

Removals outside the scans leave queue slots behind. A key that is admitted again while such
a slot is left has two slots, and when both are popped the ghost list gets it twice. In runs
that admit no key with a leftover slot the slots are distinct, the ghost list and the ghost
set agree, and no slot's key is a ghost.
-/

namespace Conproxy

open Relation CacheStore

set_option autoImplicit false

variable {p : Platform}

structure Represents (s : CacheStore) : Prop where
  once : ∀ k ∈ s.entries, (s.s3fifo.small ++ s.s3fifo.main).count k = 1
  ghost_nodup : s.s3fifo.ghost.Nodup
  ghostSet_eq : s.s3fifo.ghostSet = s.s3fifo.ghost.toFinset
  ghost_bounded : s.s3fifo.ghost.length ≤ s.s3fifo.ghostCapacity
  not_ghost : ∀ k ∈ s.entries, k ∉ s.s3fifo.ghost

/-- The invariant of the queues: distinct slots, a ghost list that agrees with its set, and no
ghost among the slots. -/
structure S3FifoState.Clean (q : S3FifoState) : Prop where
  nodup : q.slots.Nodup
  ghost_nodup : q.ghost.Nodup
  ghostSet_eq : q.ghostSet = q.ghost.toFinset
  positive : 0 < q.ghostCapacity
  bounded : q.ghost.length ≤ q.ghostCapacity
  apart : ∀ k ∈ q.slots, k ∉ q.ghost

namespace S3FifoState

theorem trimGhost_spec {capacity : Nat} (hpos : 0 < capacity) (ghost : List QueryHash)
    (hnodup : ghost.Nodup) :
    (trimGhost capacity ghost ghost.toFinset).1 <:+ ghost ∧
      (trimGhost capacity ghost ghost.toFinset).1.length < capacity ∧
      (trimGhost capacity ghost ghost.toFinset).2 =
        (trimGhost capacity ghost ghost.toFinset).1.toFinset := by
  induction ghost with
  | nil => exact ⟨List.suffix_refl _, hpos, rfl⟩
  | cons old rest ih =>
    obtain ⟨hold, hrest⟩ := List.nodup_cons.mp hnodup
    unfold trimGhost
    split
    · have herase : (old :: rest).toFinset.erase old = rest.toFinset := by
        rw [List.toFinset_cons, Finset.erase_insert (by simpa using hold)]
      rw [herase]
      obtain ⟨hsuffix, hlen, hset⟩ := ih hrest
      exact ⟨hsuffix.trans (List.suffix_cons _ _), hlen, hset⟩
    · rename_i hlt
      exact ⟨List.suffix_refl _, Nat.lt_of_not_le hlt, rfl⟩

theorem Clean.addGhost {q q' : S3FifoState} {h : QueryHash} (hq : q.Clean)
    (hslots : q.slots.Perm (h :: q'.slots)) (hghost : q'.ghost = q.ghost)
    (hset : q'.ghostSet = q.ghostSet) (hcap : q'.ghostCapacity = q.ghostCapacity) :
    (q'.addGhost h).Clean := by
  have hnodup : (h :: q'.slots).Nodup := hslots.nodup_iff.mp hq.nodup
  obtain ⟨hfresh, hrest⟩ := List.nodup_cons.mp hnodup
  have hnot : h ∉ q.ghost := hq.apart h (hslots.mem_iff.mpr List.mem_cons_self)
  obtain ⟨hsuffix, hlen, htrim⟩ := trimGhost_spec hq.positive q.ghost hq.ghost_nodup
  have hnotTrim : h ∉ (trimGhost q.ghostCapacity q.ghost q.ghost.toFinset).1 :=
    fun hmem => hnot (hsuffix.subset hmem)
  refine ⟨hrest, ?_, ?_, hcap ▸ hq.positive, ?_, ?_⟩
  · simp only [S3FifoState.addGhost, hghost, hset, hcap, hq.ghostSet_eq]
    rw [List.nodup_append_comm, List.singleton_append, List.nodup_cons]
    exact ⟨hnotTrim, hq.ghost_nodup.sublist hsuffix.sublist⟩
  · simp only [S3FifoState.addGhost, hghost, hset, hcap, hq.ghostSet_eq, htrim]
    ext k
    simp
  · simp only [S3FifoState.addGhost, hghost, hset, hcap, hq.ghostSet_eq, List.length_append,
      List.length_singleton]
    exact hlen
  · intro k hk hmem
    simp only [S3FifoState.addGhost, hghost, hset, hcap, hq.ghostSet_eq, List.mem_append,
      List.mem_singleton] at hmem
    have hk' : k ∈ q'.slots := hk
    rcases hmem with hmem | rfl
    · exact hq.apart k (hslots.mem_iff.mpr (List.mem_cons_of_mem _ hk')) (hsuffix.subset hmem)
    · exact hfresh hk'

theorem Clean.of_slots {q q' : S3FifoState} (hq : q.Clean) (hslots : q'.slots.Subperm q.slots)
    (hghost : q'.ghost = q.ghost) (hset : q'.ghostSet = q.ghostSet)
    (hcap : q'.ghostCapacity = q.ghostCapacity) : q'.Clean := by
  refine ⟨?_, hghost ▸ hq.ghost_nodup, ?_, hcap ▸ hq.positive, ?_, ?_⟩
  · obtain ⟨l, hperm, hsub⟩ := hslots
    exact hperm.nodup_iff.mp (hq.nodup.sublist hsub)
  · rw [hset, hghost, hq.ghostSet_eq]
  · rw [hghost, hcap]
    exact hq.bounded
  · intro k hk
    rw [hghost]
    exact hq.apart k (hslots.subset hk)

theorem Clean.push {q : S3FifoState} {h : QueryHash} (hq : q.Clean) (hfresh : h ∉ q.slots) :
    (q.push h).Clean := by
  have hnodup : (q.push h).slots.Nodup :=
    (q.push_slots h).nodup_iff.mpr (List.nodup_cons.mpr ⟨hfresh, hq.nodup⟩)
  by_cases hmem : h ∈ q.ghostSet
  · have hpush : q.push h = { q with
        ghostSet := q.ghostSet.erase h
        ghost := q.ghost.filter (· ≠ h)
        main := q.main ++ [h] } := if_pos hmem
    refine ⟨hnodup, ?_, ?_, ?_, ?_, ?_⟩
    · rw [hpush]
      exact hq.ghost_nodup.filter _
    · rw [hpush]
      ext k
      simp [hq.ghostSet_eq, and_comm]
    · rw [hpush]
      exact hq.positive
    · rw [hpush]
      exact (List.length_filter_le _ _).trans hq.bounded
    · intro k hk
      rw [hpush]
      rcases List.mem_cons.mp ((q.push_slots h).mem_iff.mp hk) with rfl | hk
      · simp
      · intro hin
        exact hq.apart k hk (List.mem_filter.mp hin).1
  · have hpush : q.push h = { q with small := q.small ++ [h] } := if_neg hmem
    have hnot : h ∉ q.ghost := by
      rw [hq.ghostSet_eq] at hmem
      simpa using hmem
    refine ⟨hnodup, ?_, ?_, ?_, ?_, ?_⟩
    · rw [hpush]
      exact hq.ghost_nodup
    · rw [hpush]
      exact hq.ghostSet_eq
    · rw [hpush]
      exact hq.positive
    · rw [hpush]
      exact hq.bounded
    · intro k hk
      rw [hpush]
      rcases List.mem_cons.mp ((q.push_slots h).mem_iff.mp hk) with rfl | hk
      · exact hnot
      · exact hq.apart k hk

end S3FifoState

structure Core.Clean (c : Core) : Prop where
  resident : c.Resident
  queues : c.queues.Clean

theorem Evict.clean {c c' : Core} (h : Evict p c c') (hc : c.queues.Clean) : c'.queues.Clean := by
  cases h with
  | cool hl => exact hc
  | promote hs =>
    refine hc.of_slots (List.Perm.subperm ?_) rfl rfl rfl
    simp only [S3FifoState.slots, hs, List.cons_append]
    rw [← List.append_assoc]
    exact List.perm_append_singleton _ _
  | recycle hm =>
    refine hc.of_slots (List.Perm.subperm ?_) rfl rfl rfl
    simp only [S3FifoState.slots, hm]
    exact (List.perm_append_singleton _ _).append_left _
  | evictSmall hs hl =>
    refine hc.addGhost ?_ rfl rfl rfl
    simp only [S3FifoState.slots, hs, List.cons_append]
    exact List.Perm.refl _
  | dropSmall hs hl =>
    refine hc.addGhost ?_ rfl rfl rfl
    simp only [S3FifoState.slots, hs, List.cons_append]
    exact List.Perm.refl _
  | evictMain hm hl | dropMain hm hl =>
    refine hc.of_slots (List.Sublist.subperm ?_) rfl rfl rfl
    simp only [S3FifoState.slots, hm]
    exact (List.sublist_cons_self _ _).append_left _

theorem Evicts.clean {c c' : Core} (h : Evicts p c c') (hc : c.Clean) : c'.Clean := by
  refine ⟨h.resident hc.resident, ?_⟩
  have hqueues := hc.queues
  clear hc
  induction h with
  | refl => exact hqueues
  | tail _ hstep ih => exact hstep.clean ih

theorem Shrink.clean {c c' : Core} (h : Shrink p c c') (hc : c.Clean) : c'.Clean := by
  refine ⟨h.resident hc.resident, ?_⟩
  cases h with
  | evict h => exact h.clean hc.queues
  | touch | remove => exact hc.queues
  | clear =>
    exact ⟨List.nodup_nil, List.nodup_nil, rfl, hc.queues.positive, Nat.zero_le _, by
      intro k hk
      simp [S3FifoState.slots, S3FifoState.clear] at hk⟩

theorem Shrinks.clean {c c' : Core} (h : Shrinks p c c') (hc : c.Clean) : c'.Clean := by
  induction h with
  | refl => exact hc
  | tail _ hstep ih => exact hstep.clean ih

/-- The key of the insertion has no slot, or the insertion does not ask for one. -/
def Insertion.Fresh (i : Insertion) : Prop := i.admits = true → i.hash ∉ i.store.s3fifo.slots

instance (i : Insertion) : Decidable i.Fresh := inferInstanceAs (Decidable (_ → _))

theorem Inserted.clean {i : Insertion} {s' : CacheStore} (h : Inserted p i s') (hi : i.Fresh)
    (hs : i.store.core.Clean) : s'.core.Clean := by
  rcases h.cases with ⟨-, hmem, hcore⟩ | ⟨hadm, stored, hstored, -, hcore⟩
  · rw [hcore]
    exact ⟨resident_trackedInsert hmem hs.resident, hs.queues⟩
  · rw [hcore]
    have hfresh := hi (by simpa [Insertion.admits] using hadm)
    have hqueues : stored.s3fifo = i.store.s3fifo := congrArg Core.queues hstored
    refine (s3fifoAdmit_chain stored i.hash).clean ⟨?_, ?_⟩
    · exact resident_push hstored hs.resident
    · rw [hqueues]
      exact hs.queues.push hfresh

theorem exec_clean (s : CacheStore) (call : Call) (hcall : ∀ i ∈ insertions p s call, i.Fresh)
    (hs : s.core.Clean) : (exec p s call).core.Clean := by
  by_cases hop : ∃ n, call.op = .setMaxMemoryBytes n
  · obtain ⟨n, hn⟩ := hop
    simp only [exec, hn]
    exact hs
  · have hsteps := exec_steps (p := p) s call (fun n hn => hop ⟨n, hn⟩)
    refine hsteps.invariant (fun s => s.core.Clean) Insertion.Fresh ?_ ?_ hcall hs
    · exact fun s s' h hs => h.core.clean hs
    · exact fun i s' h hi hs => h.clean hi hs

theorem withJitter_clean (freshDuration staleDuration : Duration) (maxEntries : Nat)
    (ttlJitterPercent : ℚ) :
    (withJitter freshDuration staleDuration maxEntries ttlJitterPercent).core.Clean := by
  refine ⟨(withJitter_fits freshDuration staleDuration maxEntries _).resident, ?_⟩
  exact ⟨List.nodup_nil, List.nodup_nil, rfl, Nat.lt_of_lt_of_le Nat.one_pos (le_max_right _ _),
    Nat.zero_le _, fun k hk => absurd hk (List.not_mem_nil)⟩

theorem Core.Clean.represents {s : CacheStore} (hs : s.core.Clean) : Represents s where
  once := fun k hk => List.count_eq_one_of_mem hs.queues.nodup (hs.resident k hk)
  ghost_nodup := hs.queues.ghost_nodup
  ghostSet_eq := hs.queues.ghostSet_eq
  ghost_bounded := hs.queues.bounded
  not_ghost := fun k hk => hs.queues.apart k (hs.resident k hk)

/-- In every run whose insertions admit only keys without a leftover slot, the queues
represent the resident keys in every state reached. -/
theorem represents_of_fresh (freshDuration staleDuration : Duration) (maxEntries : Nat)
    (ttlJitterPercent : ℚ) (calls : List Call)
    (hcalls : Machine.AllSteps (exec p) (fun s call => ∀ i ∈ insertions p s call, i.Fresh)
      (withJitter freshDuration staleDuration maxEntries ttlJitterPercent) calls) :
    Represents (Machine.run (exec p)
      (withJitter freshDuration staleDuration maxEntries ttlJitterPercent) calls) := by
  have hclean := Machine.run_invariant (fun s call hcall hs => exec_clean (p := p) s call hcall hs)
    (withJitter_clean freshDuration staleDuration maxEntries ttlJitterPercent) hcalls
  exact hclean.represents

theorem represents_after_remove :
    Represents (Machine.run (exec Platform.sample) (CacheStore.new 60000000000 60000000000 10)
      [callNow (.insert "a" (textResponse "x") "u"), callNow (.insert "b" (textResponse "y") "u"),
        callNow (.remove "a")]) :=
  represents_of_fresh _ _ _ (1 / 10) _ (by decide +kernel)

theorem not_represents_after_reinsert :
    ¬ Represents (Machine.run (exec Platform.sample) (CacheStore.new 60000000000 60000000000 10)
      [callNow (.insert "a" (textResponse "x") "u"), callNow (.remove "a"),
        callNow (.insert "a" (textResponse "x") "u")]) := by
  intro h
  have honce := h.once (hashQuery Platform.sample "a") (by decide +kernel)
  revert honce
  decide +kernel

end Conproxy
