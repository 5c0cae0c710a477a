import Conproxy.Cache.Freshness
import Conproxy.Cache.Rounds

/-!
# Smart eviction

`evict_smart` takes expired entries, and when there are no more it takes as many rounds as entries
are still wanted. A round that finds nothing is one of these.
-/

namespace Conproxy

open CacheStore SecondChance

set_option autoImplicit false

variable {p : Platform} {s s' : CacheStore} {scan : Scan} {now : Clock}

namespace CacheStore

theorem evictRounds_len (rounds n : Nat) (s : CacheStore) :
    (evictRounds p rounds n s).1 + (evictRounds p rounds n s).2.len = n + s.len := by
  induction rounds generalizing n s with
  | zero => rfl
  | succ rounds ih =>
    have hlen := evictSmallThenMain_len (p := p) s
    unfold evictRounds s3fifoEvictOne
    split
    · rfl
    · rcases hr : s.evictSmallThenMain p with ⟨_ | source, s'⟩
      · rw [hr] at hlen
        have hsame : s'.len = s.len := hlen
        have hrest := ih n s'
        rwa [hsame] at hrest
      · rw [hr] at hlen
        have hone : s'.len + 1 = s.len := hlen
        have hrest := ih (n + 1) s'
        dsimp only
        omega

theorem len_of_no_slots (hs : s.core.Resident) (hsmall : s.s3fifo.small = [])
    (hmain : s.s3fifo.main = []) : s.len = 0 := by
  have hslots : s.core.slots = [] := by
    change s.s3fifo.small ++ s.s3fifo.main = []
    rw [hsmall, hmain, List.append_nil]
  have hle : s.len ≤ s.core.slots.length := WeightedTable.length_keys_le s.entries hs
  rw [hslots] at hle
  exact Nat.le_zero.1 hle

theorem exists_mem_of_len (hpos : 0 < s.len) : ∃ k, k ∈ s.entries :=
  List.exists_mem_of_length_pos hpos

theorem evictRounds_of_empty (rounds n : Nat) (s : CacheStore) (hempty : s.len = 0) :
    (evictRounds p rounds n s).1 = n := by
  induction rounds generalizing n s with
  | zero => rfl
  | succ rounds ih =>
    have hlen := evictSmallThenMain_len (p := p) s
    unfold evictRounds s3fifoEvictOne
    split
    · rfl
    · rcases hr : s.evictSmallThenMain p with ⟨_ | source, s'⟩
      · rw [hr] at hlen
        exact ih n s' (hlen.trans hempty)
      · rw [hr] at hlen
        have hone : s'.len + 1 = s.len := hlen
        omega

/-- Without a cut every round finds an entry while there is one. -/
theorem evictRounds_of_free (rounds n : Nat) (s : CacheStore) (hs : s.core.Resident)
    (hfree : ∀ kept, ¬ s.queues.Keeps kept) :
    (evictRounds p rounds n s).1 = n + min rounds s.len := by
  induction rounds generalizing n s with
  | zero => rw [Nat.zero_min]; rfl
  | succ rounds ih =>
    rcases Nat.eq_zero_or_pos s.len with hempty | hpos
    · rw [evictRounds_of_empty _ n s hempty, hempty, Nat.min_zero, Nat.add_zero]
    · have hlen := evictSmallThenMain_len (p := p) s
      have hspec := evictSmallThenMain_spec (p := p) s
      obtain ⟨hfound, hafter⟩ := evictSmallThenMain_of_free (p := p) hs hfree
        (exists_mem_of_len hpos)
      unfold evictRounds s3fifoEvictOne
      split
      · rename_i hnone
        have hzero := len_of_no_slots hs hnone.1 hnone.2
        omega
      · rcases hr : s.evictSmallThenMain p with ⟨_ | source, s'⟩
        · rw [hr] at hfound
          exact absurd rfl hfound
        · rw [hr] at hlen hspec hafter
          have hone : s'.len + 1 = s.len := hlen
          have hrest := ih (n + 1) s' (hspec.chain.resident hs) hafter
          dsimp only
          omega

theorem kept_len {kept : QueryHash → Prop} {ks : List QueryHash} (hnodup : ks.Nodup)
    (hks : ∀ k, kept k ↔ k ∈ ks) (hkeeps : s.queues.Keeps kept) :
    ks.length ≤ s.len ∧ (ks.length < s.len → ∃ k ∈ s.entries, ¬ kept k) ∧
      (ks.length = s.len → ∀ k ∈ s.entries, kept k) := by
  have hsub : ks.Subperm s.entries.keys :=
    List.subperm_of_subset hnodup fun k hk => keeps_mem hkeeps ((hks k).2 hk)
  refine ⟨hsub.length_le, fun hlt => ?_, fun heq k hk => ?_⟩
  · by_contra hall
    have hsub' : s.entries.keys.Subperm ks :=
      List.subperm_of_subset s.entries.keys_nodup fun k hk =>
        (hks k).1 (by_contra fun hnot => hall ⟨k, hk, hnot⟩)
    exact absurd hsub'.length_le (Nat.not_le.2 hlt)
  · exact (hks k).2 ((hsub.perm_of_length_le heq.ge).mem_iff.2 hk)

/-- The round after the last entry that is not kept finds nothing. -/
theorem evictRounds_of_keeps {kept : QueryHash → Prop} {ks : List QueryHash} (hnodup : ks.Nodup)
    (hks : ∀ k, kept k ↔ k ∈ ks) (rounds n : Nat) (s : CacheStore) (hs : s.core.Resident)
    (hkeeps : s.queues.Keeps kept) :
    (evictRounds p rounds n s).1 =
      n + if rounds + ks.length ≤ s.len then rounds else min (rounds - 1) s.len := by
  induction rounds generalizing n s with
  | zero =>
    obtain ⟨hle, -, -⟩ := kept_len hnodup hks hkeeps
    rw [Nat.zero_add, if_pos hle]
    rfl
  | succ rounds ih =>
    obtain ⟨hle, hother, hall⟩ := kept_len hnodup hks hkeeps
    have hlen := evictSmallThenMain_len (p := p) s
    have hspec := evictSmallThenMain_spec (p := p) s
    obtain ⟨hnone, hfound⟩ := evictSmallThenMain_of_keeps (p := p) hs hkeeps
    unfold evictRounds s3fifoEvictOne
    split
    · rename_i hslots
      have hzero := len_of_no_slots hs hslots.1 hslots.2
      obtain ⟨-, -, -, k, hk⟩ := hkeeps
      have hpos : 0 < ks.length := List.length_pos_of_mem ((hks k).1 hk)
      omega
    · rcases Nat.lt_or_eq_of_le hle with hlt | heq
      · obtain ⟨hne, hafter⟩ := hfound (hother hlt)
        rcases hr : s.evictSmallThenMain p with ⟨_ | source, s'⟩
        · rw [hr] at hne
          exact absurd rfl hne
        · rw [hr] at hlen hspec hafter
          have hone : s'.len + 1 = s.len := hlen
          have hrest := ih (n + 1) s' (hspec.chain.resident hs) hafter
          dsimp only
          rw [hrest]
          split
          · rw [if_pos (by omega)]
            omega
          · rw [if_neg (by omega)]
            omega
      · have hfree := free_of_evict_none (p := p) hs (hnone (hall heq))
        rcases hr : s.evictSmallThenMain p with ⟨_ | source, s'⟩
        · rw [hr] at hlen hspec hfree
          have hsame : s'.len = s.len := hlen
          dsimp only
          rw [evictRounds_of_free _ _ _ (hspec.chain.resident hs) hfree, hsame,
            if_neg (by omega)]
          rfl
        · rw [hr] at hnone
          cases hnone (hall heq)

def Outlived (s : CacheStore) (now : Clock) (k : QueryHash) : Prop :=
  ∃ e, s.entries.lookup k = some e ∧ s.freshDuration + s.staleDuration < age now e

def outlivedKeys (s : CacheStore) (now : Clock) : List QueryHash :=
  (s.entries.entries.filter fun e => s.freshDuration + s.staleDuration < age now e.2).map Sigma.fst

def withoutExpired (s : CacheStore) (now : Clock) : CacheStore :=
  { s with entries := outside (s.outlivedKeys now) s.entries }

/-- The keys that `evict_smart` takes first, in the order of the scan. -/
def expiredHashes (s : CacheStore) (scan : Scan) (now : Clock) : List QueryHash :=
  ((s.iter scan).filter fun e => s.freshDuration + s.staleDuration < age now e.2).map Prod.fst

theorem mem_outlivedKeys {k : QueryHash} : k ∈ s.outlivedKeys now ↔ s.Outlived now k := by
  simp only [outlivedKeys, Outlived, List.mem_map, List.mem_filter, decide_eq_true_eq,
    Sigma.exists, exists_and_right, exists_eq_right]
  refine exists_congr fun e => and_congr_left fun _ => ?_
  rw [← AList.mem_lookup_iff, Option.mem_def]

theorem mem_expiredHashes {k : QueryHash} : k ∈ s.expiredHashes scan now ↔ s.Outlived now k := by
  simp only [expiredHashes, Outlived, List.mem_map, List.mem_filter, decide_eq_true_eq,
    Prod.exists, exists_and_right, exists_eq_right, mem_iter_iff]

theorem nodup_expiredHashes (s : CacheStore) (scan : Scan) (now : Clock) :
    (s.expiredHashes scan now).Nodup :=
  (nodup_iter s scan).sublist (List.filter_sublist.map Prod.fst)

theorem mem_of_outlived {k : QueryHash} (h : s.Outlived now k) : k ∈ s.entries := by
  obtain ⟨e, hl, -⟩ := h
  exact WeightedTable.mem_of_lookup _ hl

theorem entries_trackedRemove (s : CacheStore) (h : QueryHash) :
    (s.trackedRemove p h).2.entries = s.entries.erase h := by
  unfold trackedRemove
  cases hl : s.entries.lookup h with
  | none =>
    refine AList.ext ?_
    rw [WeightedTable.entries_erase,
      List.kerase_of_notMem_keys (AList.lookup_eq_none.1 hl)]
  | some old => rfl

theorem entries_removeAll (hashes : List QueryHash) (s : CacheStore) :
    (removeAll p hashes s).2.entries = outside hashes s.entries := by
  rw [removeAll_snd]
  exact (List.foldl_hom CacheStore.entries fun s h => (entries_trackedRemove s h).symm).symm

/-- The first phase takes the first of the expired keys. -/
theorem evictExpired_eq {target : Nat} {hashes : List QueryHash} (hnodup : hashes.Nodup) (n : Nat)
    (s : CacheStore) (hlive : ∀ k ∈ hashes, k ∈ s.entries) :
    evictExpired p target hashes n s =
      (n + min (target - n) hashes.length, (removeAll p (hashes.take (target - n)) s).2) := by
  induction hashes generalizing n s with
  | nil => simp [evictExpired, removeAll]
  | cons h rest ih =>
    unfold evictExpired
    split
    · rename_i hle
      rw [Nat.sub_eq_zero_of_le hle, Nat.zero_min]
      rfl
    · rename_i hlt
      rw [List.nodup_cons] at hnodup
      obtain ⟨e, hl⟩ := WeightedTable.lookup_of_mem _ (hlive h List.mem_cons_self)
      have hfound := (trackedRemove_of_lookup (p := p) hl).1
      have hrest : ∀ k ∈ rest, k ∈ (s.trackedRemove p h).2.entries := fun k hk =>
        (mem_trackedRemove s h k).2 ⟨hlive k (List.mem_cons_of_mem _ hk), by
          rintro rfl
          exact hnodup.1 hk⟩
      have hstep : target - n = target - (n + 1) + 1 := by omega
      rcases hr : s.trackedRemove p h with ⟨_ | old, s'⟩
      · rw [hr] at hfound
        cases hfound
      · rw [hr] at hrest
        dsimp only
        rw [ih hnodup.2 (n + 1) s' hrest, hstep, List.take_succ_cons, removeAll, hr,
          List.length_cons]
        refine Prod.ext ?_ rfl
        dsimp only
        omega

theorem evictionStats_trackedRemove (s : CacheStore) (h : QueryHash) :
    (s.trackedRemove p h).2.evictionStats = s.evictionStats := by
  unfold trackedRemove
  split <;> rfl

theorem evictionStats_readAndResetFreq (s : CacheStore) (h : QueryHash) :
    (s.readAndResetFreq h).2.evictionStats = s.evictionStats := by
  unfold readAndResetFreq
  split <;> rfl

theorem evictionStats_removeAll (hashes : List QueryHash) (s : CacheStore) :
    (removeAll p hashes s).2.evictionStats = s.evictionStats := by
  refine removeAll_invariant (fun t => t.evictionStats = s.evictionStats) (fun t ht h _ => ?_) rfl
  exact (evictionStats_trackedRemove t h).trans ht

theorem total_recordPromotions (s : CacheStore) (promotions : Nat) :
    (s.recordPromotions promotions).evictionStats.total = s.evictionStats.total := by
  unfold recordPromotions
  split <;> rfl

theorem total_smallLoop (attempts promotions : Nat) (s : CacheStore) :
    (evictFromSmallLoop p attempts promotions s).2.evictionStats.total = s.evictionStats.total := by
  induction attempts generalizing promotions s with
  | zero => exact total_recordPromotions s promotions
  | succ attempts ih =>
    unfold evictFromSmallLoop
    split
    · rfl
    · rename_i h rest hsmall
      have hread := evictionStats_readAndResetFreq
        { s with s3fifo := { s.s3fifo with small := rest } } h
      have hremove := evictionStats_trackedRemove (p := p)
        (readAndResetFreq { s with s3fifo := { s.s3fifo with small := rest } } h).2 h
      have hstep := hremove.trans hread
      dsimp only
      split
      · split
        · rw [total_recordPromotions]
          exact congrArg EvictionStats.total hstep
        · rw [ih]
          exact congrArg EvictionStats.total hstep
      · rw [ih]
        exact congrArg EvictionStats.total hread

theorem total_mainLoop (attempts : Nat) (s : CacheStore) :
    (evictFromMainLoop p attempts s).2.evictionStats.total = s.evictionStats.total := by
  induction attempts generalizing s with
  | zero => rfl
  | succ attempts ih =>
    unfold evictFromMainLoop
    split
    · rfl
    · rename_i h rest hmain
      have hread := evictionStats_readAndResetFreq
        { s with s3fifo := { s.s3fifo with main := rest } } h
      have hremove := evictionStats_trackedRemove (p := p)
        (readAndResetFreq { s with s3fifo := { s.s3fifo with main := rest } } h).2 h
      have hstep := hremove.trans hread
      dsimp only
      split
      · split
        · exact congrArg EvictionStats.total hstep
        · rw [ih]
          exact congrArg EvictionStats.total hstep
      · rw [ih]
        exact congrArg EvictionStats.total hread

theorem total_evictSmallThenMain (s : CacheStore) :
    (s.evictSmallThenMain p).2.evictionStats.total = s.evictionStats.total := by
  have hsmall := total_smallLoop (p := p) s.s3fifo.small.length 0 s
  rw [evictSmallThenMain_eq, s3fifoEvictFromSmall]
  rcases hr : evictFromSmallLoop p s.s3fifo.small.length 0 s with ⟨_ | source, s'⟩
  · rw [hr] at hsmall
    exact (total_mainLoop _ s').trans hsmall
  · rw [hr] at hsmall
    exact hsmall

theorem total_evictRounds (rounds n : Nat) (s : CacheStore) :
    (evictRounds p rounds n s).2.evictionStats.total = s.evictionStats.total := by
  induction rounds generalizing n s with
  | zero => rfl
  | succ rounds ih =>
    have hround := total_evictSmallThenMain (p := p) s
    unfold evictRounds s3fifoEvictOne
    split
    · rfl
    · rcases hr : s.evictSmallThenMain p with ⟨_ | source, s'⟩
      · rw [hr] at hround
        exact (ih n s').trans hround
      · rw [hr] at hround
        exact (ih (n + 1) s').trans hround

variable {n : Nat}

structure FirstPhase (s : CacheStore) (scan : Scan) (now : Clock) (n : Nat) (first : CacheStore) :
    Prop where
  entries : first.entries = outside ((s.expiredHashes scan now).take n) s.entries
  slots : first.s3fifo = s.s3fifo
  stats : first.evictionStats = s.evictionStats

theorem firstPhase (s : CacheStore) (scan : Scan) (now : Clock) (n : Nat) :
    evictExpired p n (s.expiredHashes scan now) 0 s =
        (min n (s.expiredHashes scan now).length, s.evictExpiredPhase p scan now n) ∧
      FirstPhase s scan now n (s.evictExpiredPhase p scan now n) := by
  have heq : evictExpired p n (s.expiredHashes scan now) 0 s = _ :=
    evictExpired_eq (nodup_expiredHashes s scan now) 0 s fun k hk =>
      mem_of_outlived (mem_expiredHashes.1 hk)
  rw [Nat.zero_add, Nat.sub_zero] at heq
  have hphase : s.evictExpiredPhase p scan now n =
      (removeAll p ((s.expiredHashes scan now).take n) s).2 := congrArg Prod.snd heq
  rw [hphase]
  exact ⟨heq, entries_removeAll _ s, queues_removeAll _ s, evictionStats_removeAll _ s⟩

namespace FirstPhase

variable {first : CacheStore} (h : FirstPhase s scan now n first)
include h

theorem mem_iff {k : QueryHash} :
    k ∈ first.entries ↔ k ∈ s.entries ∧ k ∉ (s.expiredHashes scan now).take n := by
  rw [h.entries, mem_outside]

theorem len : first.len + min n (s.expiredHashes scan now).length = s.len := by
  rw [← List.length_take, CacheStore.len, CacheStore.len, h.entries]
  refine WeightedTable.length_keys_foldl_erase s.entries
    ((nodup_expiredHashes s scan now).sublist (List.take_sublist _ _)) fun k hk => ?_
  exact mem_of_outlived (mem_expiredHashes.1 (List.mem_of_mem_take hk))

theorem resident (hs : s.core.Resident) : first.core.Resident := by
  intro k hk
  have hslot := hs k (h.mem_iff.1 hk).1
  change k ∈ first.s3fifo.slots
  rw [h.slots]
  exact hslot

theorem spared {k : QueryHash} (hk : k ∈ s.entries) (hnot : ¬ s.Outlived now k) :
    k ∈ first.entries :=
  h.mem_iff.2 ⟨hk, fun hmem => hnot (mem_expiredHashes.1 (List.mem_of_mem_take hmem))⟩

theorem gone (hn : (s.expiredHashes scan now).length ≤ n) {k : QueryHash}
    (hk : s.Outlived now k) : k ∉ first.entries := by
  intro hmem
  refine (h.mem_iff.1 hmem).2 ?_
  rw [List.take_of_length_le hn]
  exact mem_expiredHashes.2 hk

theorem queues (hn : (s.expiredHashes scan now).length ≤ n) :
    first.queues = (s.withoutExpired now).queues := by
  have hheat : first.heat = (s.withoutExpired now).heat := by
    funext k
    have hiff : k ∈ s.expiredHashes scan now ↔ k ∈ s.outlivedKeys now :=
      mem_expiredHashes.trans mem_outlivedKeys.symm
    change (first.entries.lookup k).map _ =
      ((outside (s.outlivedKeys now) s.entries).lookup k).map _
    rw [h.entries, List.take_of_length_le hn, outside, outside, WeightedTable.lookup_foldl_erase,
      WeightedTable.lookup_foldl_erase]
    simp only [hiff]
  rw [CacheStore.queues, hheat, h.slots]
  rfl

end FirstPhase

theorem evictSmart_after {first second : Nat × CacheStore}
    (hfirst : evictExpired p n (s.expiredHashes scan now) 0 s = first)
    (hsecond : (if first.1 < n then evictRounds p (n - first.1) 0 first.2 else (0, first.2)) =
      second) :
    (s.evictSmart p scan now n).entries = second.2.entries ∧
      (s.evictSmart p scan now n).evictionStats.total =
        second.2.evictionStats.total + (first.1 + second.1) := by
  have heq : s.evictSmart p scan now n =
      let first := evictExpired p n (s.expiredHashes scan now) 0 s
      let second := if first.1 < n then evictRounds p (n - first.1) 0 first.2 else (0, first.2)
      if 0 < first.1 + second.1 then
        second.2.updateStats fun st =>
          { st with expired := st.expired + first.1, total := st.total + (first.1 + second.1) }
      else second.2 := rfl
  dsimp only at heq
  rw [heq, hfirst, hsecond]
  split
  · exact ⟨rfl, rfl⟩
  · rename_i hzero
    rw [Nat.eq_zero_of_not_pos hzero]
    exact ⟨rfl, rfl⟩

theorem evictSmart_of_enough (hn : n ≤ (s.expiredHashes scan now).length) :
    (s.evictSmart p scan now n).entries = (s.evictExpiredPhase p scan now n).entries ∧
      (s.evictSmart p scan now n).len + n = s.len ∧
      (s.evictSmart p scan now n).evictionStats.total = s.evictionStats.total + n := by
  obtain ⟨hphase, hfirst⟩ := firstPhase (p := p) s scan now n
  have hlen := hfirst.len
  rw [Nat.min_eq_left hn] at hphase hlen
  obtain ⟨hentries, htotal⟩ := evictSmart_after hphase (if_neg (Nat.lt_irrefl n))
  refine ⟨hentries, ?_, ?_⟩
  · rw [len, hentries]
    exact hlen
  · rw [htotal, hfirst.stats]
    rfl

theorem evictSmart_of_few (hn : (s.expiredHashes scan now).length < n) :
    (s.evictSmart p scan now n).len + ((s.expiredHashes scan now).length + (evictRounds p
        (n - (s.expiredHashes scan now).length) 0 (s.evictExpiredPhase p scan now n)).1) = s.len ∧
      (s.evictSmart p scan now n).evictionStats.total = s.evictionStats.total +
        ((s.expiredHashes scan now).length + (evictRounds p
          (n - (s.expiredHashes scan now).length) 0 (s.evictExpiredPhase p scan now n)).1) := by
  obtain ⟨hphase, hfirst⟩ := firstPhase (p := p) s scan now n
  have hlen := hfirst.len
  rw [Nat.min_eq_right hn.le] at hphase hlen
  obtain ⟨hentries, htotal⟩ := evictSmart_after hphase (if_pos hn)
  have hrounds := evictRounds_len (p := p) (n - (s.expiredHashes scan now).length) 0
    (s.evictExpiredPhase p scan now n)
  constructor
  · have hsame : (s.evictSmart p scan now n).len = (evictRounds p
        (n - (s.expiredHashes scan now).length) 0 (s.evictExpiredPhase p scan now n)).2.len := by
      rw [len, len, hentries]
    omega
  · rw [htotal, total_evictRounds, hfirst.stats]

/-- What `evict_smart` is for: as many entries go as are wanted, an entry that is not expired only
when all expired ones have gone, and the statistics count them. -/
structure SmartEviction (p : Platform) (s : CacheStore) (scan : Scan) (now : Clock) (n : Nat) :
    Prop where
  removed : (s.evictSmart p scan now n).len + min n s.len = s.len
  taken : ∀ k ∈ (s.evictSmart p scan now n).entries, k ∈ s.entries
  spared : ∀ k ∈ s.entries, ¬ s.Outlived now k → k ∈ (s.evictExpiredPhase p scan now n).entries
  expiredFirst : ∀ k ∈ s.entries, ¬ s.Outlived now k → k ∉ (s.evictSmart p scan now n).entries →
    ∀ j, s.Outlived now j → j ∉ (s.evictExpiredPhase p scan now n).entries
  counted : (s.evictSmart p scan now n).evictionStats.total + (s.evictSmart p scan now n).len =
    s.evictionStats.total + s.len

/-- How many of the entries that are not expired have no slot in front of a cut. -/
def keptCount (s : CacheStore) (now : Clock) (front : List QueryHash) : Nat :=
  (outside front (s.withoutExpired now).entries).keys.length

theorem smartEviction_of_removed
    (hremoved : (s.evictSmart p scan now n).len + min n s.len = s.len) :
    SmartEviction p s scan now n := by
  obtain ⟨-, hfirst⟩ := firstPhase (p := p) s scan now n
  refine ⟨hremoved, fun k hk => ?_, fun k hk hnot => hfirst.spared hk hnot,
    fun k hk hnot hgone j hj => ?_, ?_⟩
  · obtain ⟨e, hl⟩ := WeightedTable.lookup_of_mem _ hk
    obtain ⟨old, hold, -⟩ := (shrunk_evictSmart s scan now n).core.retains k e hl
    exact WeightedTable.mem_of_lookup _ hold
  · rcases Nat.lt_or_ge (s.expiredHashes scan now).length n with hfew | henough
    · exact hfirst.gone hfew.le hj
    · rw [(evictSmart_of_enough henough).1] at hgone
      exact absurd (hfirst.spared hk hnot) hgone
  · rcases Nat.lt_or_ge (s.expiredHashes scan now).length n with hfew | henough
    · obtain ⟨hlen, htotal⟩ := evictSmart_of_few (p := p) hfew
      omega
    · obtain ⟨-, hlen, htotal⟩ := evictSmart_of_enough (p := p) henough
      omega

theorem smartEviction_iff (hs : s.core.Resident) :
    SmartEviction p s scan now n ↔ ∀ front, (s.withoutExpired now).Cuts front →
      s.keptCount now front = 0 ∨ n + s.keptCount now front ≤ s.len ∨ s.len < n := by
  obtain ⟨-, hfirst⟩ := firstPhase (p := p) s scan now n
  have hresident := hfirst.resident hs
  have hlen := hfirst.len
  have hkeys (front : List QueryHash) :
      (outside front (s.withoutExpired now).entries).keys.Nodup :=
    (outside front (s.withoutExpired now).entries).keys_nodup
  constructor
  · intro hsmart front hcut
    have hremoved := hsmart.removed
    by_contra hneg
    rw [not_or, not_or, Nat.not_le, Nat.not_lt] at hneg
    obtain ⟨hpos, hover, hle⟩ := hneg
    have hkeeps := keeps_of_cuts hcut (List.exists_mem_of_length_pos (Nat.pos_of_ne_zero hpos))
    have hall := (firstPhase (p := p) s scan now (s.expiredHashes scan now).length).2
    have hothers := hall.len
    rw [← hall.queues le_rfl] at hkeeps
    have hkept : s.keptCount now front ≤ _ :=
      (kept_len (hkeys front) (fun _ => Iff.rfl) hkeeps).1
    rw [hall.queues le_rfl] at hkeeps
    rw [Nat.min_self] at hothers
    have hfew : (s.expiredHashes scan now).length < n := by omega
    rw [← hfirst.queues hfew.le] at hkeeps
    have hcount := evictRounds_of_keeps (p := p) (hkeys front) (fun _ => Iff.rfl)
      (n - (s.expiredHashes scan now).length) 0 _ hresident hkeeps
    change _ = 0 + if _ + s.keptCount now front ≤ _ then _ else _ at hcount
    obtain ⟨hgone, -⟩ := evictSmart_of_few (p := p) hfew
    rw [Nat.min_eq_right hfew.le] at hlen
    rw [if_neg (by omega)] at hcount
    omega
  · intro hkept
    refine smartEviction_of_removed ?_
    rcases Nat.lt_or_ge (s.expiredHashes scan now).length n with hfew | henough
    · obtain ⟨hremoved, -⟩ := evictSmart_of_few (p := p) hfew
      have hqueues := hfirst.queues hfew.le
      rw [Nat.min_eq_right hfew.le] at hlen
      by_cases hcut : ∃ kept, (s.withoutExpired now).queues.Keeps kept
      · obtain ⟨kept, hkeeps⟩ := hcut
        obtain ⟨front, hfront, hiff⟩ := cuts_of_keeps hkeeps
        have hcases := hkept front hfront
        rw [← hqueues] at hkeeps
        have hcount := evictRounds_of_keeps (p := p) (hkeys front) hiff
          (n - (s.expiredHashes scan now).length) 0 _ hresident hkeeps
        change _ = 0 + if _ + s.keptCount now front ≤ _ then _ else _ at hcount
        have hpos : 0 < s.keptCount now front := by
          obtain ⟨-, -, -, k, hk⟩ := hkeeps
          exact List.length_pos_of_mem ((hiff k).1 hk)
        rcases hcases.resolve_left hpos.ne' with hfits | hmore
        · rw [if_pos (by omega)] at hcount
          omega
        · rw [if_neg (by omega)] at hcount
          omega
      · have hcount := evictRounds_of_free (p := p) (n - (s.expiredHashes scan now).length) 0 _
          hresident fun kept h => hcut ⟨kept, hqueues ▸ h⟩
        omega
    · obtain ⟨-, hremoved, -⟩ := evictSmart_of_enough (p := p) henough
      rw [Nat.min_eq_left henough] at hlen
      omega

end CacheStore

/-- In every state that a run can reach `evict_smart` takes as many entries as it should exactly if
no cut of the slots keeps entries that are not expired, while the rounds go beyond the other entries
and not beyond all of them. -/
theorem smart_eviction_iff (p : Platform) (freshDuration staleDuration : Duration)
    (maxEntries : Nat) (ttlJitterPercent : ℚ) (calls : List Call) (scan : Scan) (now : Clock)
    (n : Nat) :
    let s := Machine.run (exec p)
      (withJitter freshDuration staleDuration maxEntries ttlJitterPercent) calls
    SmartEviction p s scan now n ↔ ∀ front, (s.withoutExpired now).Cuts front →
      s.keptCount now front = 0 ∨ n + s.keptCount now front ≤ s.len ∨ s.len < n :=
  smartEviction_iff (run_fits (withJitter_fits freshDuration staleDuration maxEntries
    ttlJitterPercent) calls).resident

/-- The one round finds the only entry warm, and `evict_smart` takes nothing. -/
theorem warm_entry_not_evicted :
    let s := Machine.run (exec Platform.sample) (withJitter 1 1 1 0) warmedTwice
    s.len = 1 ∧ (s.evictSmart Platform.sample Scan.stored ⟨0, 0⟩ 1).len = 1 ∧
      ¬ SmartEviction Platform.sample s Scan.stored ⟨0, 0⟩ 1 := by
  have hlen : (Machine.run (exec Platform.sample) (withJitter 1 1 1 0) warmedTwice).len = 1 := by
    decide +kernel
  have hafter : ((Machine.run (exec Platform.sample) (withJitter 1 1 1 0) warmedTwice).evictSmart
      Platform.sample Scan.stored ⟨0, 0⟩ 1).len = 1 := by
    decide +kernel
  refine ⟨hlen, hafter, fun h => ?_⟩
  have hremoved := h.removed
  rw [hlen, hafter] at hremoved
  cases hremoved

end Conproxy
