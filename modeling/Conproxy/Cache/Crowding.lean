import Conproxy.Cache.Admission

/-!
# Evictions at an insertion

A new key evicts an entry as soon as the queues have no free slot. A slot outlives its entry, and a
key that comes back gets a second one, so slots run out before the entries do; and the number of
slots stays the one of the constructor when `max_entries` is set.
-/

namespace Conproxy

open CacheStore SecondChance

set_option autoImplicit false

variable {p : Platform} {s s' : CacheStore} {i : Insertion} {capacity : Nat}

/-- The new key or an entry of the store is not there afterwards. -/
def Evicting (s s' : CacheStore) (new : QueryHash) : Prop :=
  ∃ k, (k = new ∨ k ∈ s.entries) ∧ k ∉ s'.entries

theorem len_le_slots (hfits : s.core.Fits capacity) : s.len ≤ s.core.slots.length :=
  WeightedTable.length_keys_le s.entries hfits.resident

theorem Inserted.evicting_iff (h : Inserted p i s') (hnew : i.hash ∉ i.store.entries)
    (hmemory : i.store.maxMemoryBytes = 0) (hfits : i.store.core.Fits capacity) :
    Evicting i.store s' i.hash ↔ i.store.core.slots.length = capacity := by
  obtain ⟨hroom, hfull⟩ := h.mem_iff hnew hmemory hfits
  rcases Nat.lt_or_eq_of_le hfits.bounded with hlt | heq
  · refine iff_of_false ?_ hlt.ne
    rintro ⟨k, hk, hgone⟩
    exact hgone ((hroom hlt k).mpr hk)
  · refine iff_of_true ?_ heq
    obtain ⟨v, hv, hmem⟩ := hfull heq
    refine ⟨v, ?_, fun hin => ((hmem v).mp hin).1 rfl⟩
    by_cases hself : v = i.hash
    · exact .inl hself
    · have hin := (victim_mem hv).2
      rw [Function.update_of_ne hself] at hin
      exact .inr (isSome_heat_iff.mp hin)

-- the second key takes the place of the first one
example :
    (Machine.run (exec Platform.sample) (withJitter 1 1 1 0)
      [callNow (.insert "q" (textResponse "a") "u"),
        callNow (.insert "r" (textResponse "b") "u")]).entries.keys =
      [hashQuery Platform.sample "r"] := by
  decide +kernel

/-- In every state without a memory limit or a limit per upstream that a run can reach, a call that
inserts one new key evicts only above `max_entries` exactly if a slot is free, or the slots beyond
the number of entries leave room for `max_entries`. -/
theorem premature_eviction_iff (p : Platform) (freshDuration staleDuration : Duration)
    (maxEntries : Nat) (ttlJitterPercent : ℚ) (calls : List Call) (call : Call) (i : Insertion) :
    let s := Machine.run (exec p)
      (withJitter freshDuration staleDuration maxEntries ttlJitterPercent) calls
    s.maxMemoryBytes = 0 → s.perUpstreamLimit = none →
    insertions p s call = [i] → i.hash ∉ s.entries →
    ((Evicting s (exec p s call) i.hash → s.maxEntries < s.len + 1) ↔
      s.s3fifo.slots.length < s.s3fifo.capacity ∨
        s.maxEntries + (s.s3fifo.slots.length - s.len) ≤ s.s3fifo.capacity) := by
  intro s hmemory hlimit hone hnew
  have hfits : s.core.Fits (max maxEntries 1) :=
    run_fits (withJitter_fits freshDuration staleDuration maxEntries ttlJitterPercent) calls
  have hcapacity : s.s3fifo.capacity = max maxEntries 1 := hfits.capacity_eq
  have hbounded : s.s3fifo.slots.length ≤ max maxEntries 1 := hfits.bounded
  have hlen : s.len ≤ s.s3fifo.slots.length := len_le_slots hfits
  obtain ⟨hstore, hins⟩ := exec_one hlimit hone
  have hevicting : Evicting s (exec p s call) i.hash ↔
      s.s3fifo.slots.length = max maxEntries 1 := by
    have hiff := hins.evicting_iff (by rwa [hstore]) (by rwa [hstore]) (by rwa [hstore])
    rwa [hstore] at hiff
  rw [hevicting, hcapacity]
  omega

theorem full_store_evicts :
    Evicting (Machine.run (exec Platform.sample) (withJitter 1 1 1 0) oneRead)
        (exec Platform.sample (Machine.run (exec Platform.sample) (withJitter 1 1 1 0) oneRead)
          (callNow (.insert "r" (textResponse "c") "u"))) (hashQuery Platform.sample "r") →
      (Machine.run (exec Platform.sample) (withJitter 1 1 1 0) oneRead).maxEntries <
        (Machine.run (exec Platform.sample) (withJitter 1 1 1 0) oneRead).len + 1 :=
  (premature_eviction_iff Platform.sample 1 1 1 0 oneRead
    (callNow (.insert "r" (textResponse "c") "u"))
    ⟨_, hashQuery Platform.sample "r", _, _⟩ (by decide +kernel) (by decide +kernel) rfl
    (by decide +kernel)).mpr (.inr (by decide +kernel))

def removedOnce : List Call :=
  [callNow (.insert "q" (textResponse "a") "u"), callNow (.remove "q"),
    callNow (.insert "r" (textResponse "b") "u")]

/-- A store for two has one entry, and the slot of one that was removed. The next key takes the
place of the entry. -/
theorem removed_slot_evicts :
    (Machine.run (exec Platform.sample) (withJitter 1 1 2 0) removedOnce).maxMemoryBytes = 0 ∧
    (Machine.run (exec Platform.sample) (withJitter 1 1 2 0) removedOnce).perUpstreamLimit = none ∧
    (Machine.run (exec Platform.sample) (withJitter 1 1 2 0) removedOnce).maxEntries = 2 ∧
    (Machine.run (exec Platform.sample) (withJitter 1 1 2 0) removedOnce).len = 1 ∧
    hashQuery Platform.sample "t" ∉
      (Machine.run (exec Platform.sample) (withJitter 1 1 2 0) removedOnce).entries ∧
    Evicting (Machine.run (exec Platform.sample) (withJitter 1 1 2 0) removedOnce)
      (exec Platform.sample (Machine.run (exec Platform.sample) (withJitter 1 1 2 0) removedOnce)
        (callNow (.insert "t" (textResponse "c") "u"))) (hashQuery Platform.sample "t") := by
  refine ⟨by decide +kernel, by decide +kernel, by decide +kernel, by decide +kernel,
    by decide +kernel, hashQuery Platform.sample "r", .inr ?_, ?_⟩
  · decide +kernel
  · decide +kernel

end Conproxy
