import Conproxy.Lib.TwoQueues
import Conproxy.Cache.Admission
import Conproxy.Cache.Contents
import Conproxy.Cache.Memory

/-!
# Rounds of eviction

`s3fifo_evict_one` is a round over the two queues. `enforce_memory_limit` stops at the first round
that finds nothing, although the next one would find an entry: a scan that passes a warm entry cools
it.
-/

namespace Conproxy

open CacheStore SecondChance

set_option autoImplicit false

variable {p : Platform} {s s' : CacheStore} {h : QueryHash} {rest : List QueryHash}

namespace CacheStore

def queues (s : CacheStore) : Queues QueryHash := ⟨s.heat, s.s3fifo.small, s.s3fifo.main⟩

theorem queues_of_core {entries : Table CacheEntry} {q : S3FifoState} {bytes : Counter}
    (hcore : s.core = ⟨entries, q, bytes⟩) :
    s.entries = entries ∧ s.s3fifo = q := by
  constructor
  · exact congrArg Core.entries hcore
  · exact congrArg Core.queues hcore

theorem queues_congr (hcore : s'.core = s.core) : s'.queues = s.queues := by
  have hentries : s'.entries = s.entries := congrArg Core.entries hcore
  have hqueues : s'.s3fifo = s.s3fifo := congrArg Core.queues hcore
  rw [queues, queues, heat_congr hentries, hqueues]

theorem resident_queues (hs : s.core.Resident) : s.queues.Resident := fun k hk =>
  hs k (isSome_heat_iff.1 hk)

theorem heat_evicted {e : CacheEntry}
    (hentries : s'.entries = (s.entries.insert h (withFreq e 0)).erase h) :
    s'.heat = Function.update s.heat h none := by
  funext k
  by_cases hk : k = h
  · rw [hk, Function.update_self, heat_eq_none_iff, hentries, AList.mem_erase]
    exact fun hmem => hmem.1 rfl
  · rw [Function.update_of_ne hk, heat, heat, hentries, AList.lookup_erase_ne hk,
      AList.lookup_insert_ne hk]

/-! ## The code's scans -/

theorem smallLoop_scan (attempts promotions : Nat) (s : CacheStore)
    (hlen : s.s3fifo.small.length ≤ attempts) :
    (evictFromSmallLoop p attempts promotions s).1.isSome =
        (scanSmall s.heat s.s3fifo.main s.s3fifo.small).1.isSome ∧
      (evictFromSmallLoop p attempts promotions s).2.queues =
        (scanSmall s.heat s.s3fifo.main s.s3fifo.small).2 := by
  induction attempts generalizing promotions s with
  | zero =>
    have hnil := List.length_eq_zero_iff.mp (Nat.le_zero.mp hlen)
    rw [hnil]
    refine ⟨rfl, (queues_congr (core_recordPromotions s promotions)).trans ?_⟩
    rw [queues, hnil]
    rfl
  | succ attempts ih =>
    cases hs : s.s3fifo.small with
    | nil =>
      simp only [evictFromSmallLoop, hs]
      exact ⟨rfl, by rw [queues, hs]; rfl⟩
    | cons h rest =>
      rw [hs] at hlen
      have hrest : rest.length ≤ attempts := Nat.le_of_succ_le_succ hlen
      cases hl : s.entries.lookup h with
      | none =>
        have hn : h ∉ s.entries := AList.lookup_eq_none.mp hl
        obtain ⟨s', heq, -, hcore⟩ := smallLoop_gone (p := p) attempts promotions hs hn
        obtain ⟨hentries, hqueues⟩ := queues_of_core hcore
        have hscan := ih promotions s' (by rw [hqueues]; exact hrest)
        rw [heat_congr hentries, hqueues] at hscan
        rw [heq, scanSmall_of_none (heat_eq_none_iff.mpr hn)]
        exact hscan
      | some e =>
        have hsome := heat_of_lookup hl
        by_cases hf : e.freq = 0
        · obtain ⟨s', heq, -, hcore⟩ := smallLoop_cold (p := p) attempts promotions hs hl hf
          obtain ⟨hentries, hqueues⟩ := queues_of_core hcore
          rw [heq, scanSmall_of_cold (by rw [hsome, hf])]
          refine ⟨rfl, ?_⟩
          rw [queues, heat_evicted hentries, hqueues]
          rfl
        · obtain ⟨s', heq, -, hcore⟩ := smallLoop_warm (p := p) attempts promotions hs hl hf
          obtain ⟨hentries, hqueues⟩ := queues_of_core hcore
          have hheat : s'.heat = Function.update s.heat h (some 0) := heat_insert hentries
          have hscan := ih (promotions + 1) s' (by rw [hqueues]; exact hrest)
          rw [hheat, hqueues] at hscan
          rw [heq, scanSmall_of_warm hsome hf]
          exact hscan

theorem mainLoop_scan (tail slots : List QueryHash) (s : CacheStore) (hsmall : s.s3fifo.small = [])
    (hmain : s.s3fifo.main = slots ++ tail) :
    (evictFromMainLoop p slots.length s).1.isSome = (scanMain s.heat tail slots).1.isSome ∧
      (evictFromMainLoop p slots.length s).2.queues = (scanMain s.heat tail slots).2 := by
  induction slots generalizing tail s with
  | nil =>
    refine ⟨rfl, ?_⟩
    change s.queues = ⟨s.heat, [], tail⟩
    rw [queues, hsmall, hmain, List.nil_append]
  | cons h rest ih =>
    have hm : s.s3fifo.main = h :: (rest ++ tail) := hmain
    rw [List.length_cons]
    cases hl : s.entries.lookup h with
    | none =>
      have hn : h ∉ s.entries := AList.lookup_eq_none.mp hl
      obtain ⟨s', heq, -, hcore⟩ := mainLoop_gone (p := p) rest.length hm hn
      obtain ⟨hentries, hqueues⟩ := queues_of_core hcore
      have hscan := ih tail s' (by rw [hqueues]; exact hsmall) (by rw [hqueues])
      rw [heat_congr hentries] at hscan
      rw [heq, scanMain_of_none (heat_eq_none_iff.mpr hn)]
      exact hscan
    | some e =>
      have hsome := heat_of_lookup hl
      by_cases hf : e.freq = 0
      · obtain ⟨s', heq, -, hcore⟩ := mainLoop_cold (p := p) rest.length hm hl hf
        obtain ⟨hentries, hqueues⟩ := queues_of_core hcore
        rw [heq, scanMain_of_cold (by rw [hsome, hf])]
        refine ⟨rfl, ?_⟩
        rw [queues, heat_evicted hentries, hqueues, hsmall]
      · obtain ⟨s', heq, -, hcore⟩ := mainLoop_warm (p := p) rest.length hm hl hf
        obtain ⟨hentries, hqueues⟩ := queues_of_core hcore
        have hheat : s'.heat = Function.update s.heat h (some 0) := heat_insert hentries
        have hscan := ih (tail ++ [h]) s' (by rw [hqueues]; exact hsmall)
          (by rw [hqueues, ← List.append_assoc])
        rw [hheat] at hscan
        rw [heq, scanMain_of_warm hsome hf]
        exact hscan

/-- `s3fifo_evict_one` is a round. -/
theorem evictSmallThenMain_round (s : CacheStore) :
    (s.evictSmallThenMain p).1.isSome = s.queues.round.1.isSome ∧
      (s.evictSmallThenMain p).2.queues = s.queues.round.2 := by
  rw [evictSmallThenMain_eq, s3fifoEvictFromSmall]
  obtain ⟨hfound, hqueues⟩ := smallLoop_scan (p := p) _ 0 s le_rfl
  rcases round_cases s.queues with ⟨v, hscan, hround⟩ | ⟨hscan, hqueue, hround⟩
  · rw [hround]
    rw [show (scanSmall s.heat s.s3fifo.main s.s3fifo.small).1 = some v from hscan] at hfound
    rcases hr : evictFromSmallLoop p s.s3fifo.small.length 0 s with ⟨_ | source, s'⟩
    · rw [hr] at hfound
      cases hfound
    · rw [hr] at hqueues
      exact ⟨by rw [hscan]; rfl, hqueues⟩
  · rw [hround]
    rw [show (scanSmall s.heat s.s3fifo.main s.s3fifo.small).1 = none from hscan] at hfound
    rcases hr : evictFromSmallLoop p s.s3fifo.small.length 0 s with ⟨_ | source, s'⟩
    · rw [hr] at hqueues
      have hqueues' := hqueues.trans hqueue
      have hempty : s'.s3fifo.small = [] := congrArg Queues.small hqueues'
      have hheat : s'.heat = cooled s.queues.heat s.queues.small :=
        congrArg Queues.heat hqueues'
      have htail : s'.s3fifo.main = s.queues.main ++ living s.queues.heat s.queues.small :=
        congrArg Queues.main hqueues'
      rw [← hheat, ← htail]
      exact mainLoop_scan [] s'.s3fifo.main s' hempty (List.append_nil _).symm
    · rw [hr] at hfound
      cases hfound

example :
    (Machine.run (exec Platform.sample) (withJitter 1 1 4 0)
      [callNow (.insert "q" (textResponse "a") "u")]).queues.round.1 =
      some (hashQuery Platform.sample "q") := by
  decide +kernel

/-- A round that finds something takes one key. -/
theorem evictSmallThenMain_takes (hfound : (s.evictSmallThenMain p).1 ≠ none) :
    ∃ v ∈ s.entries, s.queues.round.1 = some v ∧
      ∀ j, j ∈ (s.evictSmallThenMain p).2.entries ↔ j ≠ v ∧ j ∈ s.entries := by
  obtain ⟨hsome, hqueues⟩ := evictSmallThenMain_round (p := p) s
  rw [← Option.isSome_iff_ne_none, hsome, Option.isSome_iff_exists] at hfound
  obtain ⟨v, hv⟩ := hfound
  have hlive (j : QueryHash) :
      j ∈ (s.evictSmallThenMain p).2.entries ↔ j ≠ v ∧ j ∈ s.entries := by
    rw [← isSome_heat_iff, ← isSome_heat_iff]
    have hround := round_found hv j
    rw [← hqueues] at hround
    exact hround
  have hmem : v ∈ s.entries := by
    by_contra hnot
    have hlen := (evictSmallThenMain_spec (p := p) s).found_len (by
      rw [← Option.isSome_iff_ne_none, hsome, hv]
      rfl)
    refine absurd hlen (Nat.not_lt.2 ?_)
    refine (List.subperm_of_subset s.entries.keys_nodup fun j hj => ?_).length_le
    refine (hlive j).2 ⟨?_, hj⟩
    rintro rfl
    exact hnot hj
  exact ⟨v, hmem, hv, hlive⟩

theorem evictSmallThenMain_len (s : CacheStore) :
    (s.evictSmallThenMain p).2.len +
      (if (s.evictSmallThenMain p).1.isSome then 1 else 0) = s.len := by
  by_cases hfound : (s.evictSmallThenMain p).1 = none
  · have hspec := evictSmallThenMain_spec (p := p) s
    have hle : (s.evictSmallThenMain p).2.len ≤ s.len := hspec.chain.len_le
    have hge : s.len ≤ (s.evictSmallThenMain p).2.len :=
      (List.subperm_of_subset s.entries.keys_nodup (hspec.kept hfound)).length_le
    rw [hfound]
    exact Nat.le_antisymm hle hge
  · obtain ⟨v, hv, -, hmem⟩ := evictSmallThenMain_takes hfound
    rw [if_pos (Option.isSome_iff_ne_none.2 hfound)]
    exact WeightedTable.length_keys_of_mem_iff hv hmem

theorem evictSmallThenMain_of_keeps {kept : QueryHash → Prop} (hs : s.core.Resident)
    (hkeeps : s.queues.Keeps kept) :
    ((∀ k ∈ s.entries, kept k) → (s.evictSmallThenMain p).1 = none) ∧
      ((∃ k ∈ s.entries, ¬ kept k) → (s.evictSmallThenMain p).1 ≠ none ∧
        (s.evictSmallThenMain p).2.queues.Keeps kept) := by
  obtain ⟨hsome, hqueues⟩ := evictSmallThenMain_round (p := p) s
  rw [hqueues, ← Option.isSome_iff_ne_none, hsome, ← Option.isNone_iff_eq_none,
    ← Option.not_isSome, hsome]
  constructor
  · intro hall
    rw [round_of_kept hkeeps fun j hj => hall j (isSome_heat_iff.1 hj)]
    rfl
  · rintro ⟨k, hk, hnot⟩
    obtain ⟨v, hv, -, hafter⟩ := round_takes_other (resident_queues hs) hkeeps
      ⟨k, isSome_heat_iff.2 hk, hnot⟩
    exact ⟨by rw [hv]; rfl, hafter⟩

theorem evictSmallThenMain_of_free (hs : s.core.Resident) (hfree : ∀ kept, ¬ s.queues.Keeps kept)
    (hlive : ∃ k, k ∈ s.entries) :
    (s.evictSmallThenMain p).1 ≠ none ∧
      ∀ kept, ¬ (s.evictSmallThenMain p).2.queues.Keeps kept := by
  obtain ⟨hsome, hqueues⟩ := evictSmallThenMain_round (p := p) s
  obtain ⟨k, hk⟩ := hlive
  obtain ⟨v, hv, hafter⟩ := round_takes (resident_queues hs) hfree ⟨k, isSome_heat_iff.2 hk⟩
  rw [hqueues, ← Option.isSome_iff_ne_none, hsome, hv]
  exact ⟨rfl, hafter⟩

theorem free_of_evict_none (hs : s.core.Resident) (hnone : (s.evictSmallThenMain p).1 = none)
    (kept : QueryHash → Prop) : ¬ (s.evictSmallThenMain p).2.queues.Keeps kept := by
  obtain ⟨hsome, hqueues⟩ := evictSmallThenMain_round (p := p) s
  rw [hqueues]
  refine free_of_round_none (resident_queues hs) ?_ kept
  rw [← Option.isNone_iff_eq_none, ← Option.not_isSome, ← hsome, hnone]
  rfl

theorem keeps_mem {kept : QueryHash → Prop} (hkeeps : s.queues.Keeps kept) {k : QueryHash}
    (hk : kept k) : k ∈ s.entries := by
  obtain ⟨front, -, hkept, -⟩ := hkeeps
  exact isSome_heat_iff.1 ((hkept k).1 hk).1

/-! ## The memory limit -/

/-- The entries whose keys have no slot in front of a cut. -/
def outside (front : List QueryHash) (t : Table CacheEntry) : Table CacheEntry :=
  front.foldl (fun t k => t.erase k) t

def keptBytes (p : Platform) (s : CacheStore) (front : List QueryHash) : Nat :=
  WeightedTable.weight (CacheEntry.approximateSize p) (outside front s.entries)

theorem lookup_outside {front : List QueryHash} {t : Table CacheEntry} {k : QueryHash}
    {e : CacheEntry} :
    (outside front t).lookup k = some e ↔ k ∉ front ∧ t.lookup k = some e := by
  unfold outside
  rw [WeightedTable.lookup_foldl_erase]
  split
  · rename_i hk
    simp [hk]
  · rename_i hk
    simp [hk]

theorem mem_outside {front : List QueryHash} {t : Table CacheEntry} {k : QueryHash} :
    k ∈ outside front t ↔ k ∈ t ∧ k ∉ front := by
  rw [← AList.lookup_isSome, ← AList.lookup_isSome, Option.isSome_iff_exists,
    Option.isSome_iff_exists]
  simp only [lookup_outside]
  constructor
  · rintro ⟨e, hfront, hl⟩
    exact ⟨⟨e, hl⟩, hfront⟩
  · rintro ⟨⟨e, hl⟩, hfront⟩
    exact ⟨e, hfront, hl⟩

/-- A front part of the slots in which every resident key is cold or has two slots, while all other
keys are warm and have one slot, in the main queue. -/
def Cuts (s : CacheStore) (front : List QueryHash) : Prop :=
  Cut s.heat s.s3fifo.slots s.s3fifo.small front

theorem keeps_of_cuts {front : List QueryHash} (hcut : s.Cuts front)
    (hsome : ∃ k, k ∈ outside front s.entries) :
    s.queues.Keeps fun k => k ∈ outside front s.entries := by
  refine ⟨front, hcut, fun k => ?_, hsome⟩
  change k ∈ outside front s.entries ↔ _
  rw [mem_outside, ← isSome_heat_iff]
  rfl

theorem cuts_of_keeps {kept : QueryHash → Prop} (hkeeps : s.queues.Keeps kept) :
    ∃ front, s.Cuts front ∧ ∀ k, kept k ↔ k ∈ outside front s.entries := by
  obtain ⟨front, hcut, hkept, -⟩ := hkeeps
  refine ⟨front, hcut, fun k => ?_⟩
  rw [hkept, mem_outside, ← isSome_heat_iff]
  rfl

theorem keptBytes_le {front : List QueryHash} (hretains : Retains s.entries s'.entries)
    (hmem : ∀ k ∈ outside front s.entries, k ∈ s'.entries) :
    s.keptBytes p front ≤ s'.core.weight p := by
  refine WeightedTable.weight_le_of_lookup _ fun k e hl => ?_
  obtain ⟨e', hl'⟩ := WeightedTable.lookup_of_mem _ (hmem k (WeightedTable.mem_of_lookup _ hl))
  obtain ⟨old, hold, hsame⟩ := hretains k e' hl'
  rw [(lookup_outside.1 hl).2] at hold
  cases hold
  exact ⟨e', hl', hsame.approximateSize_eq⟩

theorem weight_le_keptBytes {front : List QueryHash} (hretains : Retains s.entries s'.entries)
    (hmem : ∀ k ∈ s'.entries, k ∈ outside front s.entries) :
    s'.core.weight p ≤ s.keptBytes p front := by
  refine WeightedTable.weight_le_of_lookup _ fun k e' hl' => ?_
  obtain ⟨e, hl, hsame⟩ := hretains k e' hl'
  have hfront := (mem_outside.1 (hmem k (WeightedTable.mem_of_lookup _ hl'))).2
  exact ⟨e, lookup_outside.2 ⟨hfront, hl⟩, hsame.approximateSize_eq.symm⟩

theorem keptBytes_of_none {front : List QueryHash} (h : ∀ k, k ∉ outside front s.entries) :
    s.keptBytes p front = 0 := by
  have hnil : (outside front s.entries).entries = [] :=
    Classical.not_not.1 fun h' => ((WeightedTable.exists_mem_iff _).2 h').elim h
  rw [keptBytes, WeightedTable.weight, hnil]
  rfl

theorem keptBytes_of_small {front : List QueryHash}
    (hsmall : s.entries.keys = s.s3fifo.small) (hcut : s.Cuts front) :
    s.keptBytes p front = 0 := by
  refine keptBytes_of_none fun k hk => ?_
  obtain ⟨hmem, hfront⟩ := mem_outside.1 hk
  obtain ⟨n, hn⟩ := Option.isSome_iff_exists.1 (isSome_heat_iff.2 hmem)
  exact (hcut.single k hfront n hn).2.2 (hsmall ▸ hmem)

section Loop

variable {kept : QueryHash → Prop}

/-- Rounds never take a kept key. -/
theorem kept_stays (exceeds : CacheStore → Bool) (fuel : Nat) (n : Evicted) (s : CacheStore)
    (hs : s.core.Resident) (hkeeps : s.queues.Keeps kept) {k : QueryHash} (hk : kept k) :
    k ∈ (evictWhile exceeds (evictSmallThenMain p) fuel n s).2.entries := by
  induction fuel generalizing n s with
  | zero => exact keeps_mem hkeeps hk
  | succ fuel ih =>
    have hspec := evictSmallThenMain_spec (p := p) s
    obtain ⟨-, hother⟩ := evictSmallThenMain_of_keeps (p := p) hs hkeeps
    unfold evictWhile
    cases exceeds s with
    | false => exact keeps_mem hkeeps hk
    | true =>
      rcases hr : s.evictSmallThenMain p with ⟨_ | source, s'⟩
      · rw [hr] at hspec
        exact hspec.kept rfl k (keeps_mem hkeeps hk)
      · rw [hr] at hspec hother
        have hrest : ∃ j ∈ s.entries, ¬ kept j := by
          by_contra hall
          have hnone := (evictSmallThenMain_of_keeps (p := p) hs hkeeps).1 (by simpa using hall)
          rw [hr] at hnone
          cases hnone
        exact ih (n.add source) s' (hspec.chain.resident hs) (hother hrest).2

theorem evictWhile_counted (exceeds : CacheStore → Bool) (fuel : Nat) (n : Evicted)
    (s : CacheStore) :
    (evictWhile exceeds (evictSmallThenMain p) fuel n s).1.small +
        (evictWhile exceeds (evictSmallThenMain p) fuel n s).1.main +
        (evictWhile exceeds (evictSmallThenMain p) fuel n s).2.len =
      n.small + n.main + s.len := by
  induction fuel generalizing n s with
  | zero => rfl
  | succ fuel ih =>
    have hlen := evictSmallThenMain_len (p := p) s
    unfold evictWhile
    cases exceeds s with
    | false => rfl
    | true =>
      rcases hr : s.evictSmallThenMain p with ⟨_ | source, s'⟩
      · rw [hr] at hlen
        exact congrArg (n.small + n.main + ·) hlen
      · rw [hr] at hlen
        have hadd : (n.add source).small + (n.add source).main = n.small + n.main + 1 := by
          cases source with
          | small => exact Nat.add_right_comm _ _ _
          | main => rfl
        have hrest := ih (n.add source) s'
        rw [hadd] at hrest
        have hone : s'.len + 1 = s.len := hlen
        rw [if_pos rfl]
        dsimp only
        omega

end Loop

theorem exists_mem_of_over {cap : Nat} (hexact : s.core.Exact p) (hover : overMemory cap s = true) :
    ∃ k, k ∈ s.entries := by
  rw [WeightedTable.exists_mem_iff]
  intro hnil
  have hweight : s.core.weight p = 0 := by
    change WeightedTable.weight _ s.entries = 0
    rw [WeightedTable.weight, hnil]
    rfl
  have hvalue : s.totalMemoryBytes.value = s.core.weight p := hexact.value_eq
  have hlt : cap < s.totalMemoryBytes.value := by simpa [overMemory] using hover
  omega

theorem evictToMemory_fits {cap : Nat} (Inv : CacheStore → Prop)
    (hround : ∀ s', s'.core.Resident → s'.core.Exact p → Retains s.entries s'.entries → Inv s' →
      overMemory cap s' = true →
      (s'.evictSmallThenMain p).1 ≠ none ∧ Inv (s'.evictSmallThenMain p).2)
    (n : Evicted) (hs : s.core.Resident) (hexact : s.core.Exact p) (hstart : Inv s) :
    overMemory cap (evictToMemory p cap n s).2 = false := by
  let Inv' (s' : CacheStore) : Prop :=
    s'.core.Resident ∧ s'.core.Exact p ∧ Retains s.entries s'.entries ∧ Inv s'
  have hnext (s' : CacheStore) (hs' : Inv' s') (hover : overMemory cap s' = true) :
      (s'.evictSmallThenMain p).1 ≠ none ∧ Inv' (s'.evictSmallThenMain p).2 := by
    obtain ⟨hresident, hexact', hretains, hinv⟩ := hs'
    obtain ⟨hfound, hkeep⟩ := hround s' hresident hexact' hretains hinv hover
    have hchain := (evictSmallThenMain_spec (p := p) s').chain
    exact ⟨hfound, hchain.resident hresident, hchain.shrinks.exact hexact',
      hretains.trans hchain.shrinks.retains, hkeep⟩
  exact (evictWhile_spec (fun s => s.core.len) Inv' (fun s' hs' hover => (hnext s' hs' hover).2)
    (fun s' hs' hover => (hnext s' hs' hover).1)
    (fun s => (evictSmallThenMain_spec s).found_len) (s.len + 1) n s
    ⟨hs, hexact, .refl _, hstart⟩ (Nat.lt_succ_self _)).2

theorem evictToMemory_fits_of_keeps {cap : Nat} {kept : QueryHash → Prop} {front : List QueryHash}
    (n : Evicted) (hs : s.core.Resident) (hexact : s.core.Exact p) (hkeeps : s.queues.Keeps kept)
    (hfront : ∀ k, kept k ↔ k ∈ outside front s.entries) (hcap : s.keptBytes p front ≤ cap) :
    overMemory cap (evictToMemory p cap n s).2 = false := by
  refine evictToMemory_fits (fun s' => s'.queues.Keeps kept)
    (fun s' hresident hexact' hretains hkeeps' hover => ?_) n hs hexact hkeeps
  refine (evictSmallThenMain_of_keeps hresident hkeeps').2 ?_
  by_contra hall
  have hle : s'.core.weight p ≤ s.keptBytes p front := weight_le_keptBytes hretains fun k hk =>
    (hfront k).1 (by_contra fun hnot => hall ⟨k, hk, hnot⟩)
  have hvalue : s'.totalMemoryBytes.value = s'.core.weight p := hexact'.value_eq
  have hlt : cap < s'.totalMemoryBytes.value := by simpa [overMemory] using hover
  omega

theorem evictToMemory_fits_of_free {cap : Nat} (n : Evicted) (hs : s.core.Resident)
    (hexact : s.core.Exact p) (hfree : ∀ kept, ¬ s.queues.Keeps kept) :
    overMemory cap (evictToMemory p cap n s).2 = false :=
  evictToMemory_fits (fun s' => ∀ kept, ¬ s'.queues.Keeps kept)
    (fun _ hresident hexact' _ hfree' hover =>
      evictSmallThenMain_of_free hresident hfree' (exists_mem_of_over hexact' hover))
    n hs hexact hfree

/-- `enforce_memory_limit` ends with a store that fits or is empty, and returns how many entries it
has taken. -/
structure ShrinksToLimit (p : Platform) (s : CacheStore) : Prop where
  ends : ∀ more, evictWhile (overMemory s.maxMemoryBytes) (s3fifoEvictOneMemory p)
    (s.len + 1 + more) ⟨0, 0⟩ s = evictToMemory p s.maxMemoryBytes ⟨0, 0⟩ s
  fits : (s.enforceMemoryLimit p).2.totalMemoryBytes.value ≤ s.maxMemoryBytes ∨
    (s.enforceMemoryLimit p).2.len = 0
  counted : (s.enforceMemoryLimit p).1 + (s.enforceMemoryLimit p).2.len = s.len
  taken : ∀ k ∈ (s.enforceMemoryLimit p).2.entries, k ∈ s.entries

theorem enforceMemoryLimit_of_pos (hpos : 0 < s.maxMemoryBytes) :
    (s.enforceMemoryLimit p).1 = (evictToMemory p s.maxMemoryBytes ⟨0, 0⟩ s).1.small +
        (evictToMemory p s.maxMemoryBytes ⟨0, 0⟩ s).1.main ∧
      (s.enforceMemoryLimit p).2.core = (evictToMemory p s.maxMemoryBytes ⟨0, 0⟩ s).2.core := by
  unfold enforceMemoryLimit
  rw [if_neg hpos.ne']
  refine ⟨rfl, ?_⟩
  dsimp only
  split
  · rfl
  · rfl

theorem shrinksToLimit_iff (hs : s.core.Resident) (hexact : s.core.Exact p)
    (hpos : 0 < s.maxMemoryBytes) :
    ShrinksToLimit p s ↔ ∀ front, s.Cuts front → s.keptBytes p front ≤ s.maxMemoryBytes := by
  obtain ⟨hcount, hcore⟩ := enforceMemoryLimit_of_pos (p := p) hpos
  obtain ⟨hchain, -⟩ := evictWhile_chain (p := p) (overMemory s.maxMemoryBytes) (s.len + 1) ⟨0, 0⟩ s
  have hentries : (s.enforceMemoryLimit p).2.entries =
      (evictToMemory p s.maxMemoryBytes ⟨0, 0⟩ s).2.entries := congrArg Core.entries hcore
  have hbytes : (s.enforceMemoryLimit p).2.totalMemoryBytes =
      (evictToMemory p s.maxMemoryBytes ⟨0, 0⟩ s).2.totalMemoryBytes := congrArg Core.bytes hcore
  have hretains : Retains s.entries (s.enforceMemoryLimit p).2.entries := by
    rw [hentries]
    exact hchain.shrinks.retains
  constructor
  · intro hshrinks front hcut
    by_contra hover
    have hkeeps := keeps_of_cuts hcut (by
      by_contra hnone
      rw [keptBytes_of_none (by simpa using hnone)] at hover
      exact hover (Nat.zero_le _))
    have hstays (k : QueryHash) (hk : k ∈ outside front s.entries) :
        k ∈ (s.enforceMemoryLimit p).2.entries := by
      rw [hentries]
      exact kept_stays _ _ _ s hs hkeeps hk
    rcases hshrinks.fits with hfits | hempty
    · have hvalue : (s.enforceMemoryLimit p).2.totalMemoryBytes.value =
          (s.enforceMemoryLimit p).2.core.weight p := by
        have hexact' := hchain.shrinks.exact hexact
        rw [hcore, hbytes]
        exact hexact'.value_eq
      have hle := keptBytes_le (p := p) hretains hstays
      omega
    · obtain ⟨-, -, -, k, hk⟩ := hkeeps
      have hnil : (s.enforceMemoryLimit p).2.entries.keys = [] := List.length_eq_zero_iff.1 hempty
      have hmem : k ∈ (s.enforceMemoryLimit p).2.entries.keys := hstays k hk
      rw [hnil] at hmem
      cases hmem
  · intro hkept
    have hfits : overMemory s.maxMemoryBytes (evictToMemory p s.maxMemoryBytes ⟨0, 0⟩ s).2 =
        false := by
      by_cases hcut : ∃ kept, s.queues.Keeps kept
      · obtain ⟨kept, hkeeps⟩ := hcut
        obtain ⟨front, hfront, hiff⟩ := cuts_of_keeps hkeeps
        exact evictToMemory_fits_of_keeps _ hs hexact hkeeps hiff (hkept front hfront)
      · exact evictToMemory_fits_of_free _ hs hexact fun kept h => hcut ⟨kept, h⟩
    refine ⟨fun more => evictToMemory_enough _ more _ s, .inl ?_, ?_, fun k hk => ?_⟩
    · rw [hbytes]
      simpa [overMemory] using hfits
    · have hlen : (s.enforceMemoryLimit p).2.len =
          (evictToMemory p s.maxMemoryBytes ⟨0, 0⟩ s).2.len := by
        rw [len, len, hentries]
      have hcounted := evictWhile_counted (p := p) (overMemory s.maxMemoryBytes) (s.len + 1)
        ⟨0, 0⟩ s
      rw [hcount, hlen]
      exact hcounted.trans (Nat.zero_add _)
    · obtain ⟨e, hl⟩ := WeightedTable.lookup_of_mem _ hk
      obtain ⟨old, hold, -⟩ := hretains k e hl
      exact WeightedTable.mem_of_lookup _ hold

end CacheStore

/-- In every state that a run can reach, and for every cap, `enforce_memory_limit` shrinks the store
below the cap exactly if no cut of the slots keeps more bytes than the cap. -/
theorem enforced_limit_iff (p : Platform) (freshDuration staleDuration : Duration)
    (maxEntries : Nat) (ttlJitterPercent : ℚ) (calls : List Call) (cap : Nat) (hcap : 0 < cap) :
    let s := (Machine.run (exec p)
      (withJitter freshDuration staleDuration maxEntries ttlJitterPercent) calls).setMaxMemoryBytes
        cap
    ShrinksToLimit p s ↔ ∀ front, s.Cuts front → s.keptBytes p front ≤ cap := by
  have hfits := run_fits (p := p)
    (withJitter_fits freshDuration staleDuration maxEntries ttlJitterPercent) calls
  have hexact : (Machine.run (exec p)
      (withJitter freshDuration staleDuration maxEntries ttlJitterPercent) calls).core.Exact p :=
    run_exact ⟨rfl, rfl⟩ calls
  intro s
  exact shrinksToLimit_iff (s := s) hfits.resident hexact hcap

/-- One entry is warm and in the main queue, two are new. -/
def warmAndNew : List Call :=
  [callNow (.insert "q" (textResponse "a") "u"), callNow (.get "q"),
    callNow (.insert "r" (textResponse "b") "u"), callNow (.get "q"),
    callNow (.insert "s" (textResponse "c") "u"), callNow (.insert "t" (textResponse "d") "u")]

def warmAndNewStore : CacheStore :=
  (Machine.run (exec Platform.sample) (withJitter 1 1 3 0) warmAndNew).setMaxMemoryBytes 300

/-- The two new entries make room. -/
theorem warm_entry_kept :
    ShrinksToLimit Platform.sample warmAndNewStore ∧ warmAndNewStore.len = 3 ∧
      (warmAndNewStore.enforceMemoryLimit Platform.sample).2.len = 1 := by
  have hqueues : warmAndNewStore.s3fifo.small = [371, 372] ∧
      warmAndNewStore.s3fifo.slots = [371, 372, 369] := by
    decide +kernel
  have hkeys : 371 ∈ warmAndNewStore.entries ∧ 372 ∈ warmAndNewStore.entries := by
    decide +kernel
  have hbytes : warmAndNewStore.keptBytes Platform.sample [371, 372] ≤ 300 ∧
      warmAndNewStore.keptBytes Platform.sample [371, 372, 369] ≤ 300 := by
    decide +kernel
  refine ⟨(enforced_limit_iff Platform.sample 1 1 3 0 warmAndNew 300 (by decide)).2
    fun front hcut => ?_, by decide +kernel⟩
  -- a key of the small queue is in front of every cut
  have hfront (k : QueryHash) (hk : k ∈ warmAndNewStore.entries) (hsmall : k ∈ [371, 372]) :
      k ∈ front := by
    by_contra hout
    obtain ⟨n, hn⟩ := Option.isSome_iff_exists.1 (isSome_heat_iff.2 hk)
    exact (hcut.single k hout n hn).2.2 (hqueues.1 ▸ hsmall)
  have hfirst : front <+: warmAndNewStore.s3fifo.slots := hcut.first
  rw [hqueues.2, ← List.mem_inits] at hfirst
  simp only [List.inits, List.map_cons, List.map_nil, List.mem_cons, List.not_mem_nil,
    or_false] at hfirst
  rcases hfirst with rfl | rfl | rfl | rfl
  · cases hfront 371 hkeys.1 (by decide)
  · exact absurd (hfront 372 hkeys.2 (by decide)) (by decide)
  · exact hbytes.1
  · exact hbytes.2
/-- One entry, in the main queue. -/
def warmedTwice : List Call :=
  [callNow (.insert "q" (textResponse "a") "u"), callNow (.get "q"),
    callNow (.insert "r" (textResponse "b") "u"), callNow (.get "q")]

/-- The scan cools the only entry, and the loop stops there. -/
theorem warm_entry_over_limit :
    let s := (Machine.run (exec Platform.sample) (withJitter 1 1 1 0) warmedTwice).setMaxMemoryBytes
      1
    s.len = 1 ∧ (s.enforceMemoryLimit Platform.sample).1 = 0 ∧
      (s.enforceMemoryLimit Platform.sample).2.len = 1 ∧
      1 < (s.enforceMemoryLimit Platform.sample).2.totalMemoryBytes.value ∧
      ¬ ShrinksToLimit Platform.sample s := by
  have hlen : ((Machine.run (exec Platform.sample) (withJitter 1 1 1 0)
      warmedTwice).setMaxMemoryBytes 1 |>.enforceMemoryLimit Platform.sample).2.len = 1 := by
    decide +kernel
  have hbytes : 1 < ((Machine.run (exec Platform.sample) (withJitter 1 1 1 0)
      warmedTwice).setMaxMemoryBytes 1 |>.enforceMemoryLimit
        Platform.sample).2.totalMemoryBytes.value := by
    decide +kernel
  refine ⟨by decide +kernel, by decide +kernel, hlen, hbytes, fun h => ?_⟩
  rcases h.fits with hfits | hempty
  · exact Nat.not_le.2 hbytes hfits
  · cases hlen.symm.trans hempty

end Conproxy
