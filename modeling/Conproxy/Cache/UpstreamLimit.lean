import Conproxy.Lib.Machine
import Conproxy.Sample
import Conproxy.Cache.Keys
import Conproxy.Cache.Pruning

/-!
# The limit per upstream

A single insertion makes room before it knows whether its key is new, so the limit holds after
it, but a replacement at the limit costs an entry. `warmup` and `restore_from_persistence` do not
look at the limit at all.
-/

namespace Conproxy

open Relation CacheStore

set_option autoImplicit false

variable {p : Platform} {R : QueryHash → Prop}

def ownWeight (upstreamId : String) (e : CacheEntry) : Nat :=
  if e.upstreamId = upstreamId then 1 else 0

theorem length_filter_eq_sum (upstreamId : String)
    (l : List (Sigma fun _ : QueryHash => CacheEntry)) :
    (l.filter fun e => e.2.upstreamId = upstreamId).length =
      (l.map fun e => ownWeight upstreamId e.2).sum := by
  induction l with
  | nil => rfl
  | cons e rest ih =>
    by_cases he : e.2.upstreamId = upstreamId
    · simp [ownWeight, he, ih, Nat.add_comm]
    · simp [ownWeight, he, ih]

/-- The entries of an upstream under other keys. -/
def CacheStore.countOthers (s : CacheStore) (h : QueryHash) (upstreamId : String) : Nat :=
  ((s.entries.erase h).entries.filter fun e => e.2.upstreamId = upstreamId).length

theorem countForUpstream_eq (s : CacheStore) (upstreamId : String) :
    s.countForUpstream upstreamId = WeightedTable.weight (ownWeight upstreamId) s.entries :=
  length_filter_eq_sum upstreamId _

theorem countOthers_eq (s : CacheStore) (h : QueryHash) (upstreamId : String) :
    s.countOthers h upstreamId =
      WeightedTable.weight (ownWeight upstreamId) (s.entries.erase h) :=
  length_filter_eq_sum upstreamId _

theorem countOthers_le (s : CacheStore) (h : QueryHash) (upstreamId : String) :
    s.countOthers h upstreamId ≤ s.countForUpstream upstreamId := by
  have herase := WeightedTable.weight_erase_add (ownWeight upstreamId) s.entries h
  rw [countOthers_eq, countForUpstream_eq]
  omega

theorem Prune.count_le {s s' : CacheStore} (h : Prune p R s s') (upstreamId : String) :
    s'.countForUpstream upstreamId ≤ s.countForUpstream upstreamId := by
  rw [countForUpstream_eq, countForUpstream_eq]
  cases h with
  | @remove h hr =>
    unfold trackedRemove
    split
    · have herase := WeightedTable.weight_erase_add (ownWeight upstreamId) s.entries h
      exact Nat.le.intro herase
    · exact Nat.le_refl _
  | @touch _ h e e' hl hentries hsame =>
    have hweight : ownWeight upstreamId e' = ownWeight upstreamId e := by
      rw [hsame]
      rfl
    have hinsert := WeightedTable.weight_insert_of_lookup (x := e') (ownWeight upstreamId)
      s.entries hl
    rw [hentries]
    omega
  | keep hentries => rw [hentries]

theorem mem_upstreamHashes {s : CacheStore} {scan : Scan} {now : Clock} {upstreamId : String}
    {h : QueryHash} (hh : h ∈ s.upstreamHashes scan now upstreamId) :
    ∃ e, s.entries.lookup h = some e ∧ e.upstreamId = upstreamId := by
  simp only [upstreamHashes, List.mem_map] at hh
  obtain ⟨x, hx, rfl⟩ := hh
  rw [(List.perm_insertionSort _ _).mem_iff, List.mem_map] at hx
  obtain ⟨⟨k, e⟩, he, rfl⟩ := hx
  rw [List.mem_filter] at he
  exact ⟨e, mem_iter_iff.mp he.1, by simpa using he.2⟩

theorem length_upstreamHashes (s : CacheStore) (scan : Scan) (now : Clock) (upstreamId : String) :
    (s.upstreamHashes scan now upstreamId).length = s.countForUpstream upstreamId := by
  have hperm := (scan.perm (s.entries.entries.map fun e => (e.1, e.2))).filter
    fun e => e.2.upstreamId = upstreamId
  rw [upstreamHashes, List.length_map, List.length_insertionSort, List.length_map]
  rw [iter, hperm.length_eq, List.filter_map, List.length_map]
  rfl

theorem entries_evictFromUpstream_one {s : CacheStore} {scan : Scan} {now : Clock}
    {upstreamId : String} {h : QueryHash} {rest : List QueryHash}
    (hh : s.upstreamHashes scan now upstreamId = h :: rest) :
    (s.evictFromUpstream p scan now upstreamId 1).2.entries = s.entries.erase h := by
  obtain ⟨e, hl, -⟩ := mem_upstreamHashes (h := h) (by rw [hh]; simp)
  have hremove : (removeAll p [h] s).2.entries = s.entries.erase h := by
    simp [removeAll, trackedRemove, hl]
  simp only [evictFromUpstream, hh, List.take_succ_cons, List.take_zero, one_ne_zero, if_false]
  split
  · rw [← hremove]
    exact entries_publishRemoves _ _
  · rw [← hremove]
    exact entries_publishRemoves _ _

/-- After room has been made, one more entry fits under the limit. -/
theorem count_makeRoomForUpstream_lt {s : CacheStore} {limit : Nat} (hlimit : 1 ≤ limit)
    (hs : s.perUpstreamLimit = some limit) (scan : Scan) (now : Clock) (upstreamId : String)
    (hcount : s.countForUpstream upstreamId ≤ limit) :
    (s.makeRoomForUpstream p scan now upstreamId).countForUpstream upstreamId < limit := by
  simp only [makeRoomForUpstream, hs]
  split
  · rename_i hfull
    have hlen := length_upstreamHashes s scan now upstreamId
    cases hh : s.upstreamHashes scan now upstreamId with
    | nil =>
      rw [hh, List.length_nil] at hlen
      omega
    | cons h rest =>
      obtain ⟨e, hl, hown⟩ := mem_upstreamHashes (h := h) (by rw [hh]; simp)
      have herase := WeightedTable.weight_erase_of_lookup (ownWeight upstreamId) s.entries hl
      have hentries := entries_evictFromUpstream_one (p := p) hh
      rw [countForUpstream_eq] at hcount ⊢
      rw [updateStats, hentries]
      simp only [ownWeight, hown, if_true] at herase
      omega
  · omega

structure WithinLimit (limit : Nat) (s : CacheStore) : Prop where
  limit_eq : s.perUpstreamLimit = some limit
  count_le : ∀ upstreamId, s.countForUpstream upstreamId ≤ limit

theorem WithinLimit.of_entries_eq {limit : Nat} {s s' : CacheStore} (hs : WithinLimit limit s)
    (hentries : s'.entries = s.entries) (hlimit : s'.perUpstreamLimit = s.perUpstreamLimit) :
    WithinLimit limit s' := by
  refine ⟨hlimit.trans hs.limit_eq, fun u => ?_⟩
  have hcount := hs.count_le u
  rw [countForUpstream, hentries]
  exact hcount

theorem WithinLimit.of_entries_empty {limit : Nat} {s : CacheStore}
    (hlimit : s.perUpstreamLimit = some limit) (hentries : s.entries = ∅) :
    WithinLimit limit s := by
  refine ⟨hlimit, fun u => ?_⟩
  rw [countForUpstream, hentries]
  exact Nat.zero_le _

theorem WithinLimit.prune {limit : Nat} {s s' : CacheStore} (hs : WithinLimit limit s)
    (h : Prune p R s s') : WithinLimit limit s' := by
  have hsettings := congrArg CacheStore.perUpstreamLimit h.settings_eq
  exact ⟨hsettings.trans hs.limit_eq, fun u => (h.count_le u).trans (hs.count_le u)⟩

theorem WithinLimit.pruned {limit : Nat} {s s' : CacheStore} (hs : WithinLimit limit s)
    (h : Pruned p R s s') : WithinLimit limit s' := by
  induction h with
  | refl => exact hs
  | tail _ hstep ih => exact ih.prune hstep

/-- The upstream of the new entry has room, the replaced entry apart. -/
def Insertion.Fits (limit : Nat) (i : Insertion) : Prop :=
  i.store.countOthers i.hash i.entry.upstreamId < limit

theorem WithinLimit.written {limit : Nat} {i : Insertion} {text : Option String} {s : CacheStore}
    (h : Written p i text s) (hi : i.Fits limit) (hs : WithinLimit limit i.store) :
    WithinLimit limit s := by
  have hsettings := congrArg CacheStore.perUpstreamLimit h.settings
  refine ⟨hsettings.trans hs.limit_eq, fun u => ?_⟩
  have hothers := countOthers_le i.store i.hash u
  have hcount := hs.count_le u
  rw [countForUpstream_eq, h.entries, WeightedTable.weight_insert_eq, ← countOthers_eq]
  by_cases hu : i.entry.upstreamId = u
  · unfold Insertion.Fits at hi
    rw [hu] at hi
    simp only [ownWeight, hu, if_true]
    omega
  · simp only [ownWeight, hu, if_false]
    omega

theorem WithinLimit.writes {limit : Nat} {text : Option String} {s s' : CacheStore}
    {is : List Insertion} (h : Writes p R text s is s') (hi : ∀ i ∈ is, i.Fits limit)
    (hs : WithinLimit limit s) : WithinLimit limit s' :=
  h.invariant (WithinLimit limit) (Insertion.Fits limit)
    (fun _ _ hp hs => hs.pruned hp) (fun _ _ hw hi hs => hs.written hw hi) hi hs

/-- The upstream and the key of a call that makes room and inserts. -/
def Op.checkedInsert (p : Platform) : Op → Option (String × QueryHash)
  | .insert query _ upstreamId => some (upstreamId, hashQuery p query)
  | .insertWithContext query _ upstreamId _ => some (upstreamId, hashQuery p query)
  | .insertByHash h _ upstreamId _ => some (upstreamId, h)
  | .insertByHashWithEmbedding h _ upstreamId _ _ => some (upstreamId, h)
  | _ => none

theorem fits_of_checked {limit : Nat} (hlimit : 1 ≤ limit) {s : CacheStore}
    (hs : WithinLimit limit s) (call : Call) (hop : (call.op.checkedInsert p).isSome = true) :
    ∀ i ∈ insertions p s call, i.Fits limit := by
  have hsingle (h : QueryHash) (response : QueryResponse) (upstreamId : String)
      (queryText : Option String) (contextId : String) :
      (singleInsertion p s call.scan call.now h response upstreamId queryText contextId).Fits
        limit :=
    (countOthers_le _ _ _).trans_lt (count_makeRoomForUpstream_lt hlimit hs.limit_eq call.scan
      call.now upstreamId (hs.count_le upstreamId))
  rcases call with ⟨now, scan, op⟩
  cases op with
  | insert | insertWithContext | insertByHash | insertByHashWithEmbedding =>
    intro i hi
    obtain rfl := List.mem_singleton.mp hi
    exact hsingle _ _ _ _ _
  | _ => cases hop

def Replaces (p : Platform) (s : CacheStore) (call : Call) (upstreamId : String)
    (h : QueryHash) : Prop :=
  call.op.checkedInsert p = some (upstreamId, h) ∧
    ∃ e, s.entries.lookup h = some e ∧ e.upstreamId = upstreamId

/-- Bulk insertions find room for each entry. A replacement finds its upstream below the limit,
or the entry that it replaces is the oldest one and can be admitted again without an eviction. -/
structure RespectsLimit (p : Platform) (limit : Nat) (s : CacheStore) (call : Call) : Prop where
  bulk : call.op.checkedInsert p = none → ∀ i ∈ insertions p s call, i.Fits limit
  replaced : ∀ upstreamId h, Replaces p s call upstreamId h →
    s.countForUpstream upstreamId < limit ∨
      (s.roomVictims call.scan call.now upstreamId = [h] ∧
        ∀ i ∈ insertions p s call, ¬ i.NeedsRoom p)
  configured : ∀ other, call.op = .setPerUpstreamLimit other → other = some limit

theorem WithinLimit.exec {limit : Nat} (hlimit : 1 ≤ limit) {s : CacheStore}
    (hs : WithinLimit limit s) {call : Call} (hcall : RespectsLimit p limit s call) :
    WithinLimit limit (exec p s call) := by
  have heffect := exec_effect (p := p) s call
  generalize Conproxy.exec p s call = s' at heffect ⊢
  cases heffect with
  | prunes h => exact hs.pruned h
  | maps _ h => exact (hs.pruned h).of_entries_eq rfl rfl
  | stores _ h =>
    refine hs.writes h ?_
    cases hchecked : call.op.checkedInsert p with
    | none => exact hcall.bulk hchecked
    | some target => exact fits_of_checked hlimit hs call (by rw [hchecked]; rfl)
  | @removes query =>
    have hremoved := hs.pruned (pruned_trackedRemove (p := p) (R := fun _ => True) s
      (h := hashQuery p query) trivial)
    exact hremoved.of_entries_eq rfl rfl
  | clears => exact .of_entries_empty hs.limit_eq rfl
  | drops => exact .of_entries_empty hs.limit_eq rfl
  | flushes =>
    rw [flushToPersistence, flushEntries_eq]
    exact hs.of_entries_eq rfl rfl
  | configures hentries _ _ hset =>
    rcases hset with hset | hset
    · exact hs.of_entries_eq hentries hset
    · refine ⟨hcall.configured _ hset, fun u => ?_⟩
      have hcount := hs.count_le u
      rw [countForUpstream, hentries]
      exact hcount

/-- A replacement leaves every other entry where it is. -/
def KeepsOthers (p : Platform) (s : CacheStore) (call : Call) : Prop :=
  ∀ upstreamId h, Replaces p s call upstreamId h →
    ∀ k ∈ s.entries, k ≠ h → k ∈ (exec p s call).entries

theorem insertions_of_checked {s : CacheStore} {call : Call} {upstreamId : String}
    {h : QueryHash} (hop : call.op.checkedInsert p = some (upstreamId, h)) :
    ∃ e, insertions p s call =
      [⟨s.makeRoomForUpstream p call.scan call.now upstreamId, h, e, false⟩] := by
  rcases call with ⟨now, scan, op⟩
  cases op with
  | insert | insertWithContext | insertByHash | insertByHashWithEmbedding =>
    cases hop
    exact ⟨_, rfl⟩
  | _ => cases hop

theorem removable_of_checked {s : CacheStore} {call : Call} {upstreamId : String}
    {h k : QueryHash} (hop : call.op.checkedInsert p = some (upstreamId, h))
    (hk : Removable p s call k) : k ∈ s.roomVictims call.scan call.now upstreamId ∨
      ∃ i ∈ insertions p s call, i.NeedsRoom p := by
  rcases call with ⟨now, scan, op⟩
  cases op with
  | insert | insertWithContext | insertByHash | insertByHashWithEmbedding =>
    cases hop
    exact hk
  | _ => cases hop

theorem stores_of_checked {call : Call} (hop : (call.op.checkedInsert p).isSome = true) :
    call.op.stores = true := by
  rcases call with ⟨now, scan, op⟩
  cases op with
  | insert | insertWithContext | insertByHash | insertByHashWithEmbedding => rfl
  | _ => cases hop

theorem RespectsLimit.keepsOthers {limit : Nat} {s : CacheStore} (hs : WithinLimit limit s)
    {call : Call} (hcall : RespectsLimit p limit s call) : KeepsOthers p s call := by
  intro upstreamId h hrep k hk hne
  have hop := hrep.1
  refine (exec_writes s call (stores_of_checked (by rw [hop]; rfl))).mem (fun hr => ?_) hk
  have hr := removable_of_checked hop hr
  rcases hcall.replaced upstreamId h hrep with hlt | ⟨hvictim, hroom⟩
  · have hnot : ¬ limit ≤ s.countForUpstream upstreamId := Nat.not_le.mpr hlt
    have hvictims : s.roomVictims call.scan call.now upstreamId = [] := by
      simp only [roomVictims, hs.limit_eq, if_neg hnot]
    have hstore : s.makeRoomForUpstream p call.scan call.now upstreamId = s := by
      simp only [makeRoomForUpstream, hs.limit_eq, if_neg hnot]
    rcases hr with hvictim | ⟨i, hi, hneeds⟩
    · rw [hvictims] at hvictim
      cases hvictim
    · obtain ⟨e, hins⟩ := insertions_of_checked (p := p) (s := s) hop
      rw [hins, List.mem_singleton, hstore] at hi
      obtain ⟨e', hl, -⟩ := hrep.2
      have hmem := WeightedTable.mem_of_lookup _ hl
      have hadmits := hneeds.1
      simp [hi, Insertion.admits, hmem] at hadmits
  · rcases hr with hk | ⟨i, hi, hneeds⟩
    · rw [hvictim, List.mem_singleton] at hk
      exact hne hk
    · exact hroom i hi hneeds

/-- In a run from an empty store with a limit, no upstream passes it and no replacement costs
another entry, as long as the bulk insertions and the replacements respect it. -/
theorem upstream_limit_kept (p : Platform) (freshDuration staleDuration : Duration)
    (maxEntries : Nat) (ttlJitterPercent : ℚ) (limit : Nat) (hlimit : 1 ≤ limit)
    (calls : List Call)
    (hcalls : Machine.AllSteps (exec p) (RespectsLimit p limit)
      ((withJitter freshDuration staleDuration maxEntries ttlJitterPercent).setPerUpstreamLimit
        (some limit)) calls) :
    let empty := (withJitter freshDuration staleDuration maxEntries
      ttlJitterPercent).setPerUpstreamLimit (some limit)
    (∀ upstreamId, (Machine.run (exec p) empty calls).countForUpstream upstreamId ≤ limit) ∧
      Machine.AllSteps (exec p) (KeepsOthers p) empty calls := by
  intro empty
  have hempty : WithinLimit limit empty := .of_entries_empty rfl rfl
  have hstep (s : CacheStore) (call : Call) (hcall : RespectsLimit p limit s call)
      (hs : WithinLimit limit s) : WithinLimit limit (exec p s call) := hs.exec hlimit hcall
  refine ⟨(Machine.run_invariant hstep hempty hcalls).count_le, ?_⟩
  refine Machine.allSteps_of_invariant hstep ?_ hempty hcalls
  exact fun s call hcall hs => hcall.keepsOthers hs

def storedTwice : List Call :=
  [callNow (.insert "q" (textResponse "a") "u"), callNow (.insert "q" (textResponse "b") "u")]

theorem limit_kept_by_replacement :
    (∀ u, (Machine.run (exec Platform.sample) ((withJitter 1 1 4 0).setPerUpstreamLimit (some 2))
      storedTwice).countForUpstream u ≤ 2) ∧
    Machine.AllSteps (exec Platform.sample) (KeepsOthers Platform.sample)
      ((withJitter 1 1 4 0).setPerUpstreamLimit (some 2)) storedTwice := by
  refine upstream_limit_kept Platform.sample 1 1 4 0 2 (by decide) storedTwice ⟨?_, ?_, trivial⟩
  · refine ⟨fun hop => ?_, fun u h hrep => Or.inl ?_, fun other hop => ?_⟩
    · cases hop
    · cases hrep.1
      decide +kernel
    · cases hop
  · refine ⟨fun hop => ?_, fun u h hrep => Or.inl ?_, fun other hop => ?_⟩
    · cases hop
    · cases hrep.1
      decide +kernel
    · cases hop

def twoStored : List Call :=
  [callNow (.insert "q" (textResponse "a") "u"),
    ⟨⟨1, 1⟩, Scan.stored, .insert "r" (textResponse "b") "u"⟩]

/-- A warm-up puts two entries of one upstream under a limit of one; and at a limit of two the
second entry is stored again at the cost of the first. -/
theorem upstream_limit_passed :
    ¬ (exec Platform.sample ((withJitter 1 1 4 0).setPerUpstreamLimit (some 1))
      (callNow (.warmup [("q", textResponse "a"), ("r", textResponse "b")]
        "u"))).countForUpstream "u" ≤ 1 ∧
    ¬ KeepsOthers Platform.sample (Machine.run (exec Platform.sample)
      ((withJitter 1 1 4 0).setPerUpstreamLimit (some 2)) twoStored)
      ⟨⟨2, 2⟩, Scan.stored, .insert "r" (textResponse "b") "u"⟩ := by
  refine ⟨by decide +kernel, fun hkeeps => ?_⟩
  have hkept := hkeeps "u" (hashQuery Platform.sample "r")
    ⟨rfl, Option.map_eq_some_iff.mp (by decide +kernel)⟩
    (hashQuery Platform.sample "q") (by decide +kernel) (by decide +kernel)
  revert hkept
  decide +kernel

end Conproxy
