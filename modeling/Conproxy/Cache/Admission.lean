import Conproxy.Lib.SecondChance
import Conproxy.Cache.UpstreamLimit
import Conproxy.Cache.Mappings

/-!
# Which entry an admission evicts

An admission pushes the slot of the new key first and scans for a victim afterwards, so the new
key itself is among the candidates: it goes if every slot that the scan meets before its own is
warm. A key can have several slots, because a removal leaves its slot in the queue; such a key
is cooled at its first slot and evicted at the second one.
-/

namespace Conproxy

open CacheStore SecondChance

set_option autoImplicit false

namespace CacheStore

/-- The frequency counter of a resident key. -/
def heat (s : CacheStore) (k : QueryHash) : Option Nat := (s.entries.lookup k).map CacheEntry.freq

/-- The slots that the admission of a key scans before the slot that it gives to the key. -/
def scanned (s : CacheStore) (h : QueryHash) : List QueryHash :=
  if h ∈ s.s3fifo.ghostSet then s.s3fifo.small ++ s.s3fifo.main else s.s3fifo.small

variable {p : Platform} {s s' : CacheStore} {h k : QueryHash} {e : CacheEntry}

theorem heat_of_lookup (hl : s.entries.lookup h = some e) : s.heat h = some e.freq :=
  congrArg (Option.map CacheEntry.freq) hl

theorem heat_eq_none_iff : s.heat h = none ↔ h ∉ s.entries :=
  Option.map_eq_none_iff.trans AList.lookup_eq_none

theorem isSome_heat_iff : (s.heat h).isSome = true ↔ h ∈ s.entries := by
  change ((s.entries.lookup h).map CacheEntry.freq).isSome = true ↔ _
  rw [Option.isSome_map, AList.lookup_isSome]

theorem heat_congr (hentries : s'.entries = s.entries) : s'.heat = s.heat := by
  funext k
  exact congrArg (fun t => (AList.lookup k t).map CacheEntry.freq) hentries

theorem heat_insert (hentries : s'.entries = s.entries.insert h e) :
    s'.heat = Function.update s.heat h (some e.freq) := by
  funext k
  by_cases hk : k = h
  · rw [hk, Function.update_self]
    exact heat_of_lookup (by rw [hentries, AList.lookup_insert])
  · rw [Function.update_of_ne hk]
    exact congrArg (Option.map CacheEntry.freq) (by rw [hentries, AList.lookup_insert_ne hk])

theorem mem_of_evicted (hentries : s'.entries = (s.entries.insert h (withFreq e 0)).erase h)
    (k : QueryHash) : k ∈ s'.entries ↔ k ≠ h ∧ k ∈ s.entries := by
  rw [hentries, AList.mem_erase, AList.mem_insert]
  constructor
  · rintro ⟨hne, hk⟩
    exact ⟨hne, hk.resolve_left hne⟩
  · rintro ⟨hne, hk⟩
    exact ⟨hne, .inr hk⟩

theorem mem_of_cooled {e e' : CacheEntry} (hl : s.entries.lookup h = some e)
    (hentries : s'.entries = s.entries.insert h e') (k : QueryHash) :
    k ∈ s'.entries ↔ k ∈ s.entries := by
  rw [hentries, AList.mem_insert, or_iff_right_of_imp]
  rintro rfl
  exact WeightedTable.mem_of_lookup _ hl

theorem smallLoop_victim (attempts promotions : Nat) (s : CacheStore)
    (hlen : s.s3fifo.small.length ≤ attempts) (hv : victim s.heat s.s3fifo.small = some k) :
    (evictFromSmallLoop p attempts promotions s).1 ≠ none ∧
      ∀ j, j ∈ (evictFromSmallLoop p attempts promotions s).2.entries ↔ j ≠ k ∧ j ∈ s.entries := by
  induction attempts generalizing promotions s with
  | zero =>
    rw [List.length_eq_zero_iff.mp (Nat.le_zero.mp hlen)] at hv
    cases hv
  | succ attempts ih =>
    cases hs : s.s3fifo.small with
    | nil =>
      rw [hs] at hv
      cases hv
    | cons h rest =>
      rw [hs] at hv hlen
      have hrest : rest.length ≤ attempts := Nat.le_of_succ_le_succ hlen
      cases hl : s.entries.lookup h with
      | none =>
        have hn : h ∉ s.entries := AList.lookup_eq_none.mp hl
        obtain ⟨s', heq, -, hcore⟩ := smallLoop_gone (p := p) attempts promotions hs hn
        have hentries : s'.entries = s.entries := congrArg Core.entries hcore
        have hsmall : s'.s3fifo.small = rest := congrArg (fun c => c.queues.small) hcore
        rw [victim_of_none (heat_eq_none_iff.mpr hn), ← heat_congr hentries, ← hsmall] at hv
        obtain ⟨hfound, hmem⟩ := ih promotions s' (by rw [hsmall]; exact hrest) hv
        rw [heq]
        refine ⟨hfound, fun j => ?_⟩
        rw [hmem j, hentries]
      | some e =>
        by_cases hf : e.freq = 0
        · obtain ⟨s', heq, -, hcore⟩ := smallLoop_cold (p := p) attempts promotions hs hl hf
          rw [victim_of_cold (by rw [heat_of_lookup hl, hf])] at hv
          cases hv
          rw [heq]
          exact ⟨by simp, mem_of_evicted (congrArg Core.entries hcore)⟩
        · obtain ⟨s', heq, -, hcore⟩ := smallLoop_warm (p := p) attempts promotions hs hl hf
          have hentries : s'.entries = s.entries.insert h (withFreq e 0) :=
            congrArg Core.entries hcore
          have hsmall : s'.s3fifo.small = rest := congrArg (fun c => c.queues.small) hcore
          have hheat : s'.heat = Function.update s.heat h (some 0) := heat_insert hentries
          rw [victim_of_warm (heat_of_lookup hl) hf, ← hheat, ← hsmall] at hv
          obtain ⟨hfound, hmem⟩ := ih (promotions + 1) s' (by rw [hsmall]; exact hrest) hv
          rw [heq]
          refine ⟨hfound, fun j => ?_⟩
          rw [hmem j, mem_of_cooled hl hentries]

/-- A scan without a victim cools the keys and appends slots to the main queue. -/
theorem smallLoop_none (attempts promotions : Nat) (s : CacheStore)
    (hlen : s.s3fifo.small.length ≤ attempts) (hv : victim s.heat s.s3fifo.small = none) :
    (evictFromSmallLoop p attempts promotions s).1 = none ∧
      (evictFromSmallLoop p attempts promotions s).2.heat = cooled s.heat s.s3fifo.small ∧
      ∃ promoted, (evictFromSmallLoop p attempts promotions s).2.s3fifo.main =
        s.s3fifo.main ++ promoted := by
  induction attempts generalizing promotions s with
  | zero =>
    have hcore : (s.recordPromotions promotions).core = s.core := core_recordPromotions s promotions
    rw [List.length_eq_zero_iff.mp (Nat.le_zero.mp hlen), cooled_nil]
    refine ⟨rfl, heat_congr (congrArg Core.entries hcore), [], ?_⟩
    rw [List.append_nil]
    exact congrArg (fun c => c.queues.main) hcore
  | succ attempts ih =>
    cases hs : s.s3fifo.small with
    | nil =>
      simp only [evictFromSmallLoop, hs, cooled_nil]
      exact ⟨trivial, trivial, [], (List.append_nil _).symm⟩
    | cons h rest =>
      rw [hs] at hv hlen
      have hrest : rest.length ≤ attempts := Nat.le_of_succ_le_succ hlen
      cases hl : s.entries.lookup h with
      | none =>
        have hn : h ∉ s.entries := AList.lookup_eq_none.mp hl
        have hnone := heat_eq_none_iff.mpr hn
        obtain ⟨s', heq, -, hcore⟩ := smallLoop_gone (p := p) attempts promotions hs hn
        have hheat : s'.heat = s.heat := heat_congr (congrArg Core.entries hcore)
        have hsmall : s'.s3fifo.small = rest := congrArg (fun c => c.queues.small) hcore
        have hmain : s'.s3fifo.main = s.s3fifo.main := congrArg (fun c => c.queues.main) hcore
        rw [victim_of_none hnone, ← hheat, ← hsmall] at hv
        have hend := ih promotions s' (by rw [hsmall]; exact hrest) hv
        rw [hheat, hsmall, hmain] at hend
        rw [heq, cooled_cons_of_none hnone]
        exact hend
      | some e =>
        have hsome := heat_of_lookup hl
        by_cases hf : e.freq = 0
        · rw [victim_of_cold (by rw [hsome, hf])] at hv
          cases hv
        · obtain ⟨s', heq, -, hcore⟩ := smallLoop_warm (p := p) attempts promotions hs hl hf
          have hheat : s'.heat = Function.update s.heat h (some 0) :=
            heat_insert (congrArg Core.entries hcore)
          have hsmall : s'.s3fifo.small = rest := congrArg (fun c => c.queues.small) hcore
          have hmain : s'.s3fifo.main = s.s3fifo.main ++ [h] :=
            congrArg (fun c => c.queues.main) hcore
          rw [victim_of_warm hsome hf, ← hheat, ← hsmall] at hv
          obtain ⟨hnone, hcooled, promoted, hpromoted⟩ :=
            ih (promotions + 1) s' (by rw [hsmall]; exact hrest) hv
          rw [heq, cooled_cons_of_some hsome, ← hheat, ← hsmall]
          refine ⟨hnone, hcooled, h :: promoted, ?_⟩
          rw [hpromoted, hmain, List.append_assoc]
          rfl

theorem mainLoop_victim (attempts : Nat) (s : CacheStore)
    (hlen : attempts ≤ s.s3fifo.main.length)
    (hv : victim s.heat (s.s3fifo.main.take attempts) = some k) :
    (evictFromMainLoop p attempts s).1 ≠ none ∧
      ∀ j, j ∈ (evictFromMainLoop p attempts s).2.entries ↔ j ≠ k ∧ j ∈ s.entries := by
  induction attempts generalizing s with
  | zero => cases hv
  | succ attempts ih =>
    cases hm : s.s3fifo.main with
    | nil =>
      rw [hm] at hv
      cases hv
    | cons h rest =>
      rw [hm] at hv hlen
      rw [List.take_succ_cons] at hv
      have hrest : attempts ≤ rest.length := Nat.le_of_succ_le_succ hlen
      cases hl : s.entries.lookup h with
      | none =>
        have hn : h ∉ s.entries := AList.lookup_eq_none.mp hl
        obtain ⟨s', heq, -, hcore⟩ := mainLoop_gone (p := p) attempts hm hn
        have hentries : s'.entries = s.entries := congrArg Core.entries hcore
        have hmain : s'.s3fifo.main = rest := congrArg (fun c => c.queues.main) hcore
        rw [victim_of_none (heat_eq_none_iff.mpr hn), ← heat_congr hentries, ← hmain] at hv
        obtain ⟨hfound, hmem⟩ := ih s' (by rw [hmain]; exact hrest) hv
        rw [heq]
        refine ⟨hfound, fun j => ?_⟩
        rw [hmem j, hentries]
      | some e =>
        by_cases hf : e.freq = 0
        · obtain ⟨s', heq, -, hcore⟩ := mainLoop_cold (p := p) attempts hm hl hf
          rw [victim_of_cold (by rw [heat_of_lookup hl, hf])] at hv
          cases hv
          rw [heq]
          exact ⟨by simp, mem_of_evicted (congrArg Core.entries hcore)⟩
        · obtain ⟨s', heq, -, hcore⟩ := mainLoop_warm (p := p) attempts hm hl hf
          have hentries : s'.entries = s.entries.insert h (withFreq e 0) :=
            congrArg Core.entries hcore
          have hmain : s'.s3fifo.main = rest ++ [h] := congrArg (fun c => c.queues.main) hcore
          have hheat : s'.heat = Function.update s.heat h (some 0) := heat_insert hentries
          -- The slot at the tail comes after all slots that are left to be scanned.
          have htake : s'.s3fifo.main.take attempts = rest.take attempts := by
            rw [hmain, List.take_append_of_le_length hrest]
          rw [victim_of_warm (heat_of_lookup hl) hf, ← hheat, ← htake] at hv
          obtain ⟨hfound, hmem⟩ := ih s' (by rw [hmain, List.length_append]; omega) hv
          rw [heq]
          refine ⟨hfound, fun j => ?_⟩
          rw [hmem j, mem_of_cooled hl hentries]

/-- One round evicts the victim of the small queue followed by the main one. -/
theorem evictSmallThenMain_victim (s : CacheStore)
    (hv : victim s.heat s.s3fifo.slots = some k) :
    (s.evictSmallThenMain p).1 ≠ none ∧
      ∀ j, j ∈ (s.evictSmallThenMain p).2.entries ↔ j ≠ k ∧ j ∈ s.entries := by
  rw [evictSmallThenMain_eq, s3fifoEvictFromSmall]
  rw [S3FifoState.slots] at hv
  cases hsmall : victim s.heat s.s3fifo.small with
  | some v =>
    rw [victim_append_of_some hsmall] at hv
    cases hv
    obtain ⟨hfound, hmem⟩ := smallLoop_victim (p := p) _ 0 s le_rfl hsmall
    rcases hr : evictFromSmallLoop p s.s3fifo.small.length 0 s with ⟨_ | source, s'⟩
    · rw [hr] at hfound
      exact absurd rfl hfound
    · rw [hr] at hmem
      exact ⟨by simp, hmem⟩
  | none =>
    rw [victim_append_of_none hsmall] at hv
    obtain ⟨hnone, hheat, promoted, hmain⟩ := smallLoop_none (p := p) _ 0 s le_rfl hsmall
    rcases hr : evictFromSmallLoop p s.s3fifo.small.length 0 s with ⟨_ | source, s'⟩
    · rw [hr] at hheat hmain
      have hscan : victim s'.heat (s'.s3fifo.main.take s'.s3fifo.main.length) = some k := by
        rw [List.take_length, hmain, hheat]
        exact victim_append_of_some hv
      obtain ⟨hfound, hmem⟩ := mainLoop_victim (p := p) _ s' le_rfl hscan
      refine ⟨hfound, fun j => ?_⟩
      have hsame : j ∈ s'.entries ↔ j ∈ s.entries := by
        rw [← isSome_heat_iff, ← isSome_heat_iff, hheat, isSome_cooled]
      rw [← hsame]
      exact hmem j
    · rw [hr] at hnone
      cases hnone

-- the first of the two entries has been read, so the round takes the second one
example :
    let s := Machine.run (exec Platform.sample) (withJitter 1 1 4 0)
      [callNow (.insert "q" (textResponse "a") "u"), callNow (.get "q"),
        callNow (.insert "r" (textResponse "b") "u")]
    (s.evictSmallThenMain Platform.sample).2.entries.keys = [hashQuery Platform.sample "q"] := by
  decide +kernel

theorem victim_push {v : QueryHash} (hv : victim s.heat (s.scanned h ++ [h]) = some v) :
    victim s.heat (s.s3fifo.push h).slots = some v := by
  unfold scanned at hv
  unfold S3FifoState.push S3FifoState.slots
  split at hv
  · rename_i hghost
    rw [if_pos hghost]
    rwa [List.append_assoc] at hv
  · rename_i hghost
    rw [if_neg hghost]
    exact victim_append_of_some hv

theorem evictToCapacity_once (n : Evicted) (hover : overCapacity s = true)
    (hfits : overCapacity (s.s3fifoEvictOne p).2 = false) :
    (evictToCapacity p n s).2 = (s.s3fifoEvictOne p).2 := by
  unfold evictToCapacity evictWhile
  rw [if_pos hover]
  rcases hr : s.s3fifoEvictOne p with ⟨_ | source, s'⟩
  · rfl
  · rw [hr] at hfits
    dsimp only
    exact congrArg Prod.snd (evictWhile_of_fits hfits _ _)

/-- The entries after an admission without a memory limit: all of them if there is room for a
slot, and all but the victim if there is none. -/
theorem mem_s3fifoAdmit {capacity : Nat} (hl : s.entries.lookup h = some e) (hf : e.freq = 0)
    (hmemory : s.maxMemoryBytes = 0) (hcapacity : s.s3fifo.capacity = capacity) :
    (s.core.slots.length < capacity →
      ∀ j, j ∈ (s.s3fifoAdmit p h).entries ↔ j ∈ s.entries) ∧
    (s.core.slots.length = capacity →
      ∃ v, victim s.heat (s.scanned h ++ [h]) = some v ∧
        ∀ j, j ∈ (s.s3fifoAdmit p h).entries ↔ j ≠ v ∧ j ∈ s.entries) := by
  let pushed : CacheStore := { s with s3fifo := s.s3fifo.push h }
  have hcold : s.heat h = some 0 := by rw [heat_of_lookup hl, hf]
  have hslots : pushed.core.slots.length = s.core.slots.length + 1 :=
    (s.s3fifo.push_slots h).length_eq
  have hpushed : pushed.s3fifo.capacity = capacity := (s.s3fifo.push_capacity h).trans hcapacity
  have hadmitted : (s.s3fifoAdmit p h).entries = (evictToCapacity p ⟨0, 0⟩ pushed).2.entries := by
    have hcore : (s.s3fifoAdmit p h).core = (evictToCapacity p ⟨0, 0⟩ pushed).2.core := by
      have hunlimited : ¬ 0 < s.maxMemoryBytes := by omega
      simp only [s3fifoAdmit, core_recordAdmission, if_neg hunlimited]
      rfl
    exact congrArg Core.entries hcore
  constructor
  · intro hlt j
    have hfits : overCapacity pushed = false := by
      rw [overCapacity_eq_false, hslots, hpushed]
      exact hlt
    rw [hadmitted, evictToCapacity, evictWhile_of_fits hfits]
  · intro hfull
    have hover : overCapacity pushed = true := by
      rw [overCapacity_eq_true, hslots, hpushed, hfull]
      exact Nat.lt_succ_self _
    obtain ⟨v, hv⟩ : ∃ v, victim s.heat (s.scanned h ++ [h]) = some v := by
      cases hnone : victim s.heat (s.scanned h ++ [h]) with
      | some v => exact ⟨v, rfl⟩
      | none =>
        have hwarm := (victim_eq_none_iff _ _).mp hnone h (by simp) 0 hcold
        exact absurd rfl hwarm.1
    obtain ⟨hfound, hmem⟩ := evictSmallThenMain_victim (p := p) pushed (victim_push hv)
    have hround := evictSmallThenMain_spec (p := p) pushed
    have hfits : overCapacity (pushed.s3fifoEvictOne p).2 = false := by
      have hfewer := hround.found_slots hfound
      have hcap := hround.chain.capacity_eq
      rw [overCapacity_eq_false]
      rw [hslots, hfull] at hfewer
      exact (Nat.le_of_lt_succ hfewer).trans (hcap.trans hpushed).ge
    refine ⟨v, hv, fun j => ?_⟩
    rw [hadmitted, evictToCapacity_once _ hover hfits]
    exact hmem j

/-- The slots that are scanned before the first slot of the key itself. -/
def older (s : CacheStore) (h : QueryHash) : List QueryHash :=
  (s.scanned h).takeWhile fun k => !decide (k = h)

/-- The slots that are scanned before the first slot of the key itself or of a cold one. -/
def olderWarm (s : CacheStore) (h : QueryHash) : List QueryHash :=
  (s.scanned h).takeWhile fun k => !decide (k = h ∨ s.heat k = some 0)

/-- One of the slots can be evicted, apart from those of the given keys: its key is cold, or is
cooled at another of the slots. -/
def Spare (s : CacheStore) (gone slots : List QueryHash) : Prop :=
  ∃ k ∈ slots, k ∉ gone ∧
    ∃ e, s.entries.lookup k = some e ∧ (e.freq = 0 ∨ 1 < slots.count k)

end CacheStore

variable {p : Platform} {s s' : CacheStore} {i : Insertion} {capacity : Nat}

/-- The entries after the insertion of a new key. -/
theorem Inserted.mem_iff (h : Inserted p i s') (hnew : i.hash ∉ i.store.entries)
    (hmemory : i.store.maxMemoryBytes = 0) (hfits : i.store.core.Fits capacity) :
    (i.store.core.slots.length < capacity →
      ∀ j, j ∈ s'.entries ↔ j = i.hash ∨ j ∈ i.store.entries) ∧
    (i.store.core.slots.length = capacity →
      ∃ v, victim (Function.update i.store.heat i.hash (some 0))
          (i.store.scanned i.hash ++ [i.hash]) = some v ∧
        ∀ j, j ∈ s'.entries ↔ j ≠ v ∧ (j = i.hash ∨ j ∈ i.store.entries)) := by
  obtain ⟨hin, -⟩ | ⟨-, stored, hstored, hlimit, hcore⟩ :
      (i.hash ∈ i.store.entries ∧ True) ∨ _ := h.cases.imp (fun h => ⟨h.2.1, trivial⟩) id
  · exact absurd hin hnew
  · have hentries : stored.entries = i.store.entries.insert i.hash i.entry :=
      congrArg Core.entries hstored
    have hqueues : stored.s3fifo = i.store.s3fifo := congrArg Core.queues hstored
    have hmem (j : QueryHash) : j ∈ stored.entries ↔ j = i.hash ∨ j ∈ i.store.entries := by
      rw [hentries, AList.mem_insert]
    have hheat : stored.heat = Function.update i.store.heat i.hash (some 0) := by
      rw [heat_insert hentries, h.cold]
    have hscanned : stored.scanned i.hash = i.store.scanned i.hash := by
      unfold scanned
      rw [hqueues]
    have hslots : stored.core.slots = i.store.core.slots := by
      rw [Core.slots, Core.slots, core_queues, core_queues, hqueues]
    have hcapacity : stored.s3fifo.capacity = capacity := by
      rw [hqueues]
      exact hfits.capacity_eq
    obtain ⟨hroom, hfull⟩ := mem_s3fifoAdmit (p := p) (e := i.entry)
      (s := stored) (h := i.hash) (by rw [hentries, AList.lookup_insert]) h.cold
      (hlimit.trans hmemory) hcapacity
    have hafter (j : QueryHash) : j ∈ s'.entries ↔ j ∈ (stored.s3fifoAdmit p i.hash).entries := by
      rw [← core_entries, hcore, core_entries]
    rw [hslots] at hroom hfull
    rw [hheat, hscanned] at hfull
    refine ⟨fun hlt j => ?_, fun heq => ?_⟩
    · rw [hafter, hroom hlt, hmem]
    · obtain ⟨v, hv, hvmem⟩ := hfull heq
      refine ⟨v, hv, fun j => ?_⟩
      rw [hafter, hvmem, hmem]

theorem victim_older_iff (s : CacheStore) (h : QueryHash) :
    victim (Function.update s.heat h (some 0)) (s.older h) = none ↔ ¬ s.Spare [] (s.older h) := by
  rw [victim_eq_none_iff]
  have hne (k : QueryHash) (hk : k ∈ s.older h) : k ≠ h := by
    simpa using List.mem_takeWhile_imp hk
  constructor
  · rintro hnone ⟨k, hk, -, e, hl, hspare⟩
    obtain ⟨hwarm, hcount⟩ := hnone k hk e.freq
      (by rw [Function.update_of_ne (hne k hk), heat_of_lookup hl])
    rcases hspare with hcold | hmore
    · exact hwarm hcold
    · omega
  · intro hnot k hk n hn
    rw [Function.update_of_ne (hne k hk), heat] at hn
    obtain ⟨e, hl, rfl⟩ := Option.map_eq_some_iff.mp hn
    have hpos : 0 < (s.older h).count k := List.count_pos_iff.mpr hk
    constructor
    · intro hcold
      exact hnot ⟨k, hk, List.not_mem_nil, e, hl, .inl hcold⟩
    · by_contra hmore
      exact hnot ⟨k, hk, List.not_mem_nil, e, hl, .inr (by omega)⟩

theorem Inserted.resident_iff (h : Inserted p i s') (hnew : i.hash ∉ i.store.entries)
    (hmemory : i.store.maxMemoryBytes = 0) (hfits : i.store.core.Fits capacity) :
    i.hash ∈ s'.entries ↔
      i.store.core.slots.length < capacity ∨ i.store.Spare [] (i.store.older i.hash) := by
  obtain ⟨hroom, hfull⟩ := h.mem_iff hnew hmemory hfits
  rcases Nat.lt_or_eq_of_le hfits.bounded with hlt | heq
  · exact iff_of_true ((hroom hlt _).mpr (.inl rfl)) (.inl hlt)
  · obtain ⟨v, hv, hmem⟩ := hfull heq
    have hcold : Function.update i.store.heat i.hash (some 0) i.hash = some 0 :=
      Function.update_self ..
    have hself := victim_eq_self_iff hcold (i.store.scanned i.hash)
    have holder := victim_older_iff i.store i.hash
    rw [older] at holder
    rw [hv, holder, Option.some.injEq] at hself
    rw [hmem, heq]
    simp only [true_or, and_true, lt_irrefl, false_or]
    rw [ne_comm, Ne, hself, not_not]
    rfl

theorem queues_removeAll (hs : List QueryHash) (s : CacheStore) :
    (removeAll p hs s).2.s3fifo = s.s3fifo := by
  refine removeAll_invariant (fun t => t.s3fifo = s.s3fifo) (fun t ht h _ => ?_) rfl
  have hstep : (t.trackedRemove p h).2.s3fifo = t.s3fifo := by
    unfold trackedRemove
    split <;> rfl
  exact hstep.trans ht

theorem queues_publishRemoves (now : Clock) (qs : List String) (s : CacheStore) :
    (publishRemoves now qs s).s3fifo = s.s3fifo := by
  induction qs generalizing s with
  | nil => rfl
  | cons q rest ih => exact ih _

theorem queues_makeRoomForUpstream (s : CacheStore) (scan : Scan) (now : Clock)
    (upstreamId : String) : (s.makeRoomForUpstream p scan now upstreamId).s3fifo = s.s3fifo := by
  have hevict : (s.evictFromUpstream p scan now upstreamId 1).2.s3fifo = s.s3fifo := by
    simp only [evictFromUpstream, one_ne_zero, if_false]
    split
    · exact (queues_publishRemoves _ _ _).trans (queues_removeAll _ s)
    · exact (queues_publishRemoves _ _ _).trans (queues_removeAll _ s)
  unfold makeRoomForUpstream
  split
  · split
    · exact hevict
    · rfl
  · rfl

theorem lookup_makeRoomForUpstream (s : CacheStore) (scan : Scan) (now : Clock)
    (upstreamId : String) (k : QueryHash) :
    (s.makeRoomForUpstream p scan now upstreamId).entries.lookup k =
      if k ∈ s.roomVictims scan now upstreamId then none else s.entries.lookup k := by
  unfold makeRoomForUpstream roomVictims
  cases s.perUpstreamLimit with
  | none => rw [if_neg List.not_mem_nil]
  | some limit =>
    dsimp only
    split
    · cases hh : s.upstreamHashes scan now upstreamId with
      | nil =>
        rw [List.take_nil, if_neg List.not_mem_nil]
        simp [evictFromUpstream, hh, removeAll, publishRemoves, updateStats]
      | cons h rest =>
        rw [updateStats, entries_evictFromUpstream_one hh]
        by_cases hk : k = h
        · subst hk
          simp
        · simp [hk, AList.lookup_erase_ne hk]
    · rw [if_neg List.not_mem_nil]

theorem spare_makeRoomForUpstream (s : CacheStore) (scan : Scan) (now : Clock)
    (upstreamId : String) (slots : List QueryHash) :
    (s.makeRoomForUpstream p scan now upstreamId).Spare [] slots ↔
      s.Spare (s.roomVictims scan now upstreamId) slots := by
  constructor
  · rintro ⟨k, hk, -, e, hl, hspare⟩
    rw [lookup_makeRoomForUpstream] at hl
    split at hl
    · cases hl
    · rename_i hnot
      exact ⟨k, hk, hnot, e, hl, hspare⟩
  · rintro ⟨k, hk, hnot, e, hl, hspare⟩
    refine ⟨k, hk, List.not_mem_nil, e, ?_, hspare⟩
    rw [lookup_makeRoomForUpstream, if_neg hnot, hl]

/-! ## An insertion and the lookup after it -/

theorem get_eq_lookup {key : String}
    (hs : s.normalizedMatching = true → MapsToItself p key s) :
    (s.get p key).1 = s.entries.lookup (hashQuery p key) := by
  cases hon : s.normalizedMatching with
  | true => exact (get_of_maps (hs hon)).1
  | false =>
    simp only [CacheStore.get, getWithHitType, hon, if_true]
    cases hl : s.entries.lookup (hashQuery p key) with
    | none =>
      rw [getByHash_of_none hl]
      rfl
    | some e =>
      rw [getByHash_of_lookup hl]
      rfl

/-- The mapping of the text that was inserted is its own, or it went with its entry. -/
theorem mapsToItself_insertImpl (s : CacheStore) (scan : Scan) (now : Clock) (query : String)
    (response : QueryResponse) (upstreamId contextId : String)
    (hon : (s.insertImpl p scan now query response upstreamId contextId).normalizedMatching =
      true) :
    MapsToItself p query (s.insertImpl p scan now query response upstreamId contextId) := by
  simp only [insertImpl] at hon ⊢
  generalize s.makeRoomForUpstream p scan now upstreamId = room at hon ⊢
  generalize newEntry p now response upstreamId (some query) contextId = entry at hon ⊢
  generalize hinserted : (room.persistEntry p now (hashQuery p query) entry).trackedInsert p
    (hashQuery p query) entry = inserted at hon ⊢
  generalize hstored : inserted.rememberExact p query (hashQuery p query) = stored at hon ⊢
  have hqueued : Pruned p (fun _ => True) stored
      (if decide (hashQuery p query ∉ room.entries) = true then
        stored.s3fifoAdmit p (hashQuery p query) else stored) := by
    split
    · exact pruned_s3fifoAdmit stored _ fun _ _ => trivial
    · exact .refl
  generalize (if decide (hashQuery p query ∉ room.entries) = true then
    stored.s3fifoAdmit p (hashQuery p query) else stored) = admitted at hqueued hon ⊢
  have hadmittedted : admitted.normalizedMatching = true → MapsToItself p query admitted := by
    intro hon m hm
    have hmatching := congrArg CacheStore.normalizedMatching hqueued.settings_eq
    have hon' : stored.normalizedMatching = true := hmatching.symm.trans hon
    have hm' := hqueued.forgets _ m hm
    rw [← hstored] at hon' hm'
    unfold rememberExact at hon' hm'
    split at hm'
    · rw [AList.lookup_insert] at hm'
      exact (Option.some.inj hm').symm
    · rename_i hoff
      rw [if_neg hoff] at hon'
      exact absurd hon' hoff
  split at hon
  · exact hadmittedted hon
  · exact hadmittedted hon

/-- The key stays if it is resident after the upstream has made room, if there is room for one
more slot, or if a slot before its own can go. -/
theorem insertImpl_resident_iff (hmemory : s.maxMemoryBytes = 0) (hfits : s.core.Fits capacity)
    (scan : Scan) (now : Clock) (query : String) (response : QueryResponse)
    (upstreamId contextId : String) :
    hashQuery p query ∈ (s.insertImpl p scan now query response upstreamId contextId).entries ↔
      (hashQuery p query ∈ s.entries ∧ hashQuery p query ∉ s.roomVictims scan now upstreamId) ∨
        s.s3fifo.slots.length < capacity ∨
        s.Spare (s.roomVictims scan now upstreamId) (s.older (hashQuery p query)) := by
  have hins := inserted_insertImpl (p := p) s scan now query response upstreamId contextId
  have hshrunk := shrunk_makeRoomForUpstream (p := p) s scan now upstreamId
  have hqueues := queues_makeRoomForUpstream (p := p) s scan now upstreamId
  have hlookup := lookup_makeRoomForUpstream (p := p) s scan now upstreamId (hashQuery p query)
  have hspare := spare_makeRoomForUpstream (p := p) s scan now upstreamId
    (s.older (hashQuery p query))
  rw [singleInsertion] at hins
  generalize s.makeRoomForUpstream p scan now upstreamId = room
    at hins hshrunk hqueues hlookup hspare
  have hmem : hashQuery p query ∈ room.entries ↔
      hashQuery p query ∈ s.entries ∧ hashQuery p query ∉ s.roomVictims scan now upstreamId := by
    rw [← AList.lookup_isSome, ← AList.lookup_isSome, hlookup]
    split
    · rename_i hgone
      simp [hgone]
    · rename_i hgone
      simp [hgone]
  rw [← hmem]
  by_cases hin : hashQuery p query ∈ room.entries
  · refine iff_of_true ?_ (.inl hin)
    rcases hins.cases with ⟨-, -, hcore⟩ | ⟨hforced | hnew, -⟩
    · rw [← core_entries, hcore]
      exact (AList.mem_insert _).mpr (.inl rfl)
    · cases hforced
    · exact absurd hin hnew
  · rw [or_iff_right hin, hins.resident_iff hin (hshrunk.limit.trans hmemory)
      (hshrunk.core.fits hfits), ← hspare]
    have holder : room.older (hashQuery p query) = s.older (hashQuery p query) := by
      simp only [older, scanned, hqueues]
    rw [Core.slots, core_queues, hqueues, holder]

/-- In every state without a memory limit that a run can reach, a lookup right after an insertion
finds the response exactly if the key is resident and is not the entry that its upstream gives up,
there is room for one more slot, or a slot that is scanned before the one of the key can go. -/
theorem insert_then_get_iff (p : Platform) (freshDuration staleDuration : Duration)
    (maxEntries : Nat) (ttlJitterPercent : ℚ) (calls : List Call) (scan : Scan) (now : Clock)
    (query : String) (response : QueryResponse) (upstreamId : String) :
    let s := Machine.run (exec p)
      (withJitter freshDuration staleDuration maxEntries ttlJitterPercent) calls
    let h := hashQuery p query
    let gone := s.roomVictims scan now upstreamId
    s.maxMemoryBytes = 0 →
    ((∃ e, ((s.insert p scan now query response upstreamId).get p query).1 = some e ∧
        e.response = response) ↔
      (h ∈ s.entries ∧ h ∉ gone) ∨ s.s3fifo.slots.length < s.s3fifo.capacity ∨
        s.Spare gone (s.older h)) := by
  intro s h gone hmemory
  have hfits : s.core.Fits (max maxEntries 1) :=
    run_fits (withJitter_fits freshDuration staleDuration maxEntries ttlJitterPercent) calls
  have hcapacity : s.s3fifo.capacity = max maxEntries 1 := hfits.capacity_eq
  have hresident := insertImpl_resident_iff (p := p) hmemory hfits scan now query response
    upstreamId "default"
  have hget : ((s.insert p scan now query response upstreamId).get p query).1 =
      (s.insert p scan now query response upstreamId).entries.lookup h :=
    get_eq_lookup (mapsToItself_insertImpl s scan now query response upstreamId "default")
  rw [hcapacity, ← hresident, hget, ← AList.lookup_isSome, Option.isSome_iff_exists]
  constructor
  · rintro ⟨e, hl, -⟩
    exact ⟨e, hl⟩
  · rintro ⟨e, hl⟩
    refine ⟨e, hl, ?_⟩
    rcases (inserted_insertImpl s scan now query response upstreamId "default").content hl with
      ⟨-, hsame⟩ | ⟨hne, -⟩
    · exact hsame.response
    · exact absurd rfl hne

theorem second_key_found : ∃ e, (((Machine.run (exec Platform.sample) (withJitter 1 1 4 0)
    storedTwice).insert Platform.sample Scan.stored ⟨1, 1⟩ "r" (textResponse "c") "u").get
      Platform.sample "r").1 = some e ∧ e.response = textResponse "c" :=
  (insert_then_get_iff Platform.sample 1 1 4 0 storedTwice Scan.stored ⟨1, 1⟩ "r"
    (textResponse "c") "u" (by decide +kernel)).mpr (.inr (.inl (by decide +kernel)))

def oneRead : List Call :=
  [callNow (.insert "q" (textResponse "a") "u"), callNow (.get "q")]

/-- The only entry of a store for one has been read, so the new one is the victim of its own
admission. -/
theorem new_key_not_found :
    (Machine.run (exec Platform.sample) (withJitter 1 1 1 0) oneRead).maxMemoryBytes = 0 ∧
    ¬ ∃ e, (((Machine.run (exec Platform.sample) (withJitter 1 1 1 0) oneRead).insert
      Platform.sample Scan.stored ⟨1, 1⟩ "r" (textResponse "c") "u").get
        Platform.sample "r").1 = some e ∧ e.response = textResponse "c" := by
  have hnone : (((Machine.run (exec Platform.sample) (withJitter 1 1 1 0) oneRead).insert
      Platform.sample Scan.stored ⟨1, 1⟩ "r" (textResponse "c") "u").get
        Platform.sample "r").1.isSome = false := by
    decide +kernel
  refine ⟨by decide +kernel, ?_⟩
  rintro ⟨e, he, -⟩
  rw [he] at hnone
  cases hnone

theorem warmup_idle {now : Clock} {upstreamId : String} {items : List (String × QueryResponse)}
    (h : warmupInsertions p now upstreamId items s = []) (inserted : Nat) :
    (warmup p now upstreamId items inserted s).2 = s := by
  induction items with
  | nil => rfl
  | cons item rest ih =>
    rcases item with ⟨query, response⟩
    unfold warmupInsertions at h
    unfold warmup
    cases hvalid : response.validate with
    | error =>
      rw [hvalid] at h
      exact ih h
    | ok =>
      simp only [hvalid] at h ⊢
      split at h
      · rename_i hfull
        rw [if_pos hfull]
      · cases h

theorem warmup_one {now : Clock} {upstreamId : String} {items : List (String × QueryResponse)}
    (h : warmupInsertions p now upstreamId items s = [i]) (inserted : Nat) :
    i.store = s ∧ Inserted p i (warmup p now upstreamId items inserted s).2 := by
  induction items with
  | nil => cases h
  | cons item rest ih =>
    rcases item with ⟨query, response⟩
    unfold warmupInsertions at h
    unfold warmup
    cases hvalid : response.validate with
    | error =>
      rw [hvalid] at h
      exact ih h
    | ok =>
      simp only [hvalid] at h ⊢
      split at h
      · cases h
      · rename_i hroom
        obtain ⟨rfl, hrest⟩ := List.cons.inj h
        rw [if_neg hroom, warmup_idle hrest]
        exact ⟨rfl, inserted_storeEntry s _ rfl⟩

theorem restore_idle {now : Clock} {t : PersistentCache} {hs : List QueryHash}
    (h : restoreInsertions p now t hs s = []) (restored : Nat) :
    (restoreHashes p now t hs restored s).2 = s := by
  induction hs with
  | nil => rfl
  | cons k rest ih =>
    unfold restoreInsertions at h
    unfold restoreHashes
    split at h
    · rename_i hfull
      rw [if_pos hfull]
    · rename_i hroom
      rw [if_neg hroom]
      cases hload : t.loadEntry p k with
      | some e =>
        rw [hload] at h
        cases h
      | none =>
        rw [hload] at h
        exact ih h

theorem restore_one {now : Clock} {t : PersistentCache} {hs : List QueryHash}
    (h : restoreInsertions p now t hs s = [i]) (restored : Nat) :
    i.store = s ∧ Inserted p i (restoreHashes p now t hs restored s).2 := by
  induction hs with
  | nil => cases h
  | cons k rest ih =>
    unfold restoreInsertions at h
    unfold restoreHashes
    split at h
    · cases h
    · rename_i hroom
      rw [if_neg hroom]
      cases hload : t.loadEntry p k with
      | some e =>
        simp only [hload] at h ⊢
        obtain ⟨rfl, hrest⟩ := List.cons.inj h
        rw [restore_idle hrest]
        exact ⟨rfl, inserted_restore s k rfl⟩
      | none =>
        rw [hload] at h
        exact ih h

/-- Without a limit per upstream, a call that makes one insertion is that insertion. -/
theorem exec_one {call : Call} (hlimit : s.perUpstreamLimit = none)
    (hone : insertions p s call = [i]) : i.store = s ∧ Inserted p i (exec p s call) := by
  have hroom (scan : Scan) (now : Clock) (upstreamId : String) :
      s.makeRoomForUpstream p scan now upstreamId = s := by
    rw [makeRoomForUpstream, hlimit]
  rcases call with ⟨now, scan, op⟩
  cases op with
  | insert query | insertWithContext query =>
    obtain ⟨rfl, -⟩ := List.cons.inj hone
    exact ⟨hroom _ _ _, inserted_insertImpl s scan now query _ _ _⟩
  | insertByHash h =>
    obtain ⟨rfl, -⟩ := List.cons.inj hone
    exact ⟨hroom _ _ _, inserted_insertByHash s scan now h _ _ _⟩
  | insertByHashWithEmbedding h response upstreamId embedding queryKey =>
    obtain ⟨rfl, -⟩ := List.cons.inj hone
    refine ⟨hroom _ _ _, ?_⟩
    have hins := inserted_insertByHash (p := p) s scan now h response upstreamId queryKey
    cases embedding with
    | some e => exact ⟨hins.cold, hins.stored, hins.limit⟩
    | none => exact hins
  | warmup entries upstreamId => exact warmup_one hone 0
  | restoreFromPersistence =>
    simp only [insertions] at hone
    simp only [exec, restoreFromPersistence]
    cases ht : s.persistence with
    | some t =>
      rw [ht] at hone
      exact restore_one hone 0
    | none =>
      rw [ht] at hone
      cases hone
  | _ => cases hone

/-- Every entry that has been used stays, and at most one entry goes. -/
def Spares (s s' : CacheStore) : Prop :=
  (∀ k e, s.entries.lookup k = some e → e.freq ≠ 0 → k ∈ s'.entries) ∧
    ∀ j ∈ s.entries, ∀ k ∈ s.entries, j ∉ s'.entries → k ∉ s'.entries → j = k

theorem victim_olderWarm_iff (s : CacheStore) (h : QueryHash) :
    (∀ v, victim (Function.update s.heat h (some 0)) (s.scanned h ++ [h]) = some v →
      Function.update s.heat h (some 0) v = some 0) ↔
    ∀ k ∈ s.olderWarm h, k ∈ s.entries → (s.olderWarm h).count k = 1 := by
  have hstops : (fun k => !decide (Function.update s.heat h (some 0) k = some 0)) =
      fun k => !decide (k = h ∨ s.heat k = some 0) := by
    funext k
    by_cases hk : k = h
    · simp [hk]
    · simp [hk]
  have hwarm (k : QueryHash) (hk : k ∈ s.olderWarm h) : k ≠ h ∧ s.heat k ≠ some 0 := by
    simpa using List.mem_takeWhile_imp hk
  rw [victim_cold_iff (Function.update_self ..), hstops, ← olderWarm, victim_eq_none_iff]
  constructor
  · intro hnone k hk hin
    obtain ⟨n, hn⟩ := Option.isSome_iff_exists.mp (isSome_heat_iff.mpr hin)
    exact (hnone k hk n (by rw [Function.update_of_ne (hwarm k hk).1, hn])).2
  · intro hsingle k hk n hn
    rw [Function.update_of_ne (hwarm k hk).1] at hn
    constructor
    · rintro rfl
      exact (hwarm k hk).2 hn
    · exact hsingle k hk (isSome_heat_iff.mp (by rw [hn]; rfl))

theorem Inserted.spares_iff (h : Inserted p i s') (hnew : i.hash ∉ i.store.entries)
    (hmemory : i.store.maxMemoryBytes = 0) (hfits : i.store.core.Fits capacity) :
    Spares i.store s' ↔ i.store.core.slots.length < capacity ∨
      ∀ k ∈ i.store.olderWarm i.hash, k ∈ i.store.entries →
        (i.store.olderWarm i.hash).count k = 1 := by
  obtain ⟨hroom, hfull⟩ := h.mem_iff hnew hmemory hfits
  rcases Nat.lt_or_eq_of_le hfits.bounded with hlt | heq
  · refine iff_of_true ⟨fun k e hl _ => ?_, fun j hj _ _ hgone _ => ?_⟩ (.inl hlt)
    · exact (hroom hlt k).mpr (.inr (WeightedTable.mem_of_lookup _ hl))
    · exact absurd ((hroom hlt j).mpr (.inr hj)) hgone
  · obtain ⟨v, hv, hmem⟩ := hfull heq
    have hone : ∀ j ∈ i.store.entries, j ∉ s'.entries → j = v := by
      intro j hj hgone
      by_contra hne
      exact hgone ((hmem j).mpr ⟨hne, .inr hj⟩)
    rw [heq, or_iff_right (lt_irrefl _), ← victim_olderWarm_iff]
    constructor
    · intro hspares w hw
      obtain rfl : w = v := Option.some.inj (hw.symm.trans hv)
      by_cases hself : w = i.hash
      · rw [hself, Function.update_self]
      · have hin := (victim_mem hv).2
        rw [Function.update_of_ne hself] at hin ⊢
        obtain ⟨n, hn⟩ := Option.isSome_iff_exists.mp hin
        rw [heat] at hn
        obtain ⟨e, hl, rfl⟩ := Option.map_eq_some_iff.mp hn
        by_cases hfreq : e.freq = 0
        · rw [heat_of_lookup hl, hfreq]
        · exact absurd rfl ((hmem w).mp (hspares.1 w e hl hfreq)).1
    · intro hcold
      refine ⟨fun k e hl hfreq => ?_, fun j hj k hk hj' hk' => ?_⟩
      · have hin := WeightedTable.mem_of_lookup _ hl
        refine (hmem k).mpr ⟨?_, .inr hin⟩
        rintro rfl
        have hne : k ≠ i.hash := by
          rintro rfl
          exact hnew hin
        have hzero := hcold k hv
        rw [Function.update_of_ne hne, heat_of_lookup hl] at hzero
        exact hfreq (Option.some.inj hzero)
      · exact (hone j hj hj').trans (hone k hk hk').symm

/-- In every state without a memory limit or a limit per upstream that a run can reach, a call that
inserts one new key spares the entries in use exactly if there is room for one more slot, or none
of the resident keys that are scanned before the first cold one has two slots there. -/
theorem second_chance_iff (p : Platform) (freshDuration staleDuration : Duration)
    (maxEntries : Nat) (ttlJitterPercent : ℚ) (calls : List Call) (call : Call) (i : Insertion) :
    let s := Machine.run (exec p)
      (withJitter freshDuration staleDuration maxEntries ttlJitterPercent) calls
    s.maxMemoryBytes = 0 → s.perUpstreamLimit = none →
    insertions p s call = [i] → i.hash ∉ s.entries →
    (Spares s (exec p s call) ↔ s.s3fifo.slots.length < s.s3fifo.capacity ∨
      ∀ k ∈ s.olderWarm i.hash, k ∈ s.entries → (s.olderWarm i.hash).count k = 1) := by
  intro s hmemory hlimit hone hnew
  have hfits : s.core.Fits (max maxEntries 1) :=
    run_fits (withJitter_fits freshDuration staleDuration maxEntries ttlJitterPercent) calls
  have hcapacity : s.s3fifo.capacity = max maxEntries 1 := hfits.capacity_eq
  obtain ⟨hstore, hins⟩ := exec_one hlimit hone
  have hfits' : i.store.core.Fits (max maxEntries 1) := by rwa [hstore]
  have hspares := hins.spares_iff (by rwa [hstore]) (by rwa [hstore]) hfits'
  rw [hstore] at hspares
  rw [hcapacity]
  exact hspares

theorem read_entry_spared :
    Spares (Machine.run (exec Platform.sample) (withJitter 1 1 1 0) oneRead)
      (exec Platform.sample (Machine.run (exec Platform.sample) (withJitter 1 1 1 0) oneRead)
        (callNow (.insert "r" (textResponse "c") "u"))) := by
  have holder : (Machine.run (exec Platform.sample) (withJitter 1 1 1 0) oneRead).olderWarm
      (hashQuery Platform.sample "r") = [hashQuery Platform.sample "q"] := by
    decide +kernel
  refine (second_chance_iff Platform.sample 1 1 1 0 oneRead
    (callNow (.insert "r" (textResponse "c") "u"))
    ⟨_, hashQuery Platform.sample "r", _, _⟩ ?_ ?_ rfl ?_).mpr (.inr ?_)
  · decide +kernel
  · decide +kernel
  · decide +kernel
  · rw [holder]
    simp

def storedAgain : List Call :=
  [callNow (.insert "q" (textResponse "a") "u"), callNow (.remove "q"),
    callNow (.insert "q" (textResponse "b") "u"), callNow (.get "q")]

/-- The key that was removed and stored again has two slots: it is cooled at the first one and
evicted at the second. -/
theorem read_entry_evicted :
    (Machine.run (exec Platform.sample) (withJitter 1 1 2 0) storedAgain).maxMemoryBytes = 0 ∧
    (Machine.run (exec Platform.sample) (withJitter 1 1 2 0) storedAgain).perUpstreamLimit = none ∧
    hashQuery Platform.sample "r" ∉
      (Machine.run (exec Platform.sample) (withJitter 1 1 2 0) storedAgain).entries ∧
    ¬ Spares (Machine.run (exec Platform.sample) (withJitter 1 1 2 0) storedAgain)
      (exec Platform.sample (Machine.run (exec Platform.sample) (withJitter 1 1 2 0) storedAgain)
        (callNow (.insert "r" (textResponse "c") "u"))) := by
  refine ⟨by decide +kernel, by decide +kernel, by decide +kernel, fun hspares => ?_⟩
  have hused : ((Machine.run (exec Platform.sample) (withJitter 1 1 2 0)
      storedAgain).entries.lookup (hashQuery Platform.sample "q")).map CacheEntry.freq =
        some 1 := by
    decide +kernel
  obtain ⟨e, hl, hfreq⟩ := Option.map_eq_some_iff.mp hused
  have hkept := hspares.1 _ e hl (by rw [hfreq]; decide)
  revert hkept
  decide +kernel

end Conproxy
