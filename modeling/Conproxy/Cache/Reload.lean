import Conproxy.Sample
import Conproxy.Cache.Pruning

/-!
# Reloading the entry limit

`set_max_entries` writes the limit that `warmup` and `restore_from_persistence` read, but the
capacities of the queues stay what the constructor made them. A reload is honoured exactly when
it asks for the capacity that the queues have.
-/

namespace Conproxy

open Relation CacheStore

set_option autoImplicit false

variable {p : Platform}

def insertedHash (p : Platform) (op : Op) : Option QueryHash :=
  match op with
  | .insert query _ _ => some (hashQuery p query)
  | .insertWithContext query _ _ _ => some (hashQuery p query)
  | .insertByHash h _ _ _ => some h
  | .insertByHashWithEmbedding h _ _ _ _ => some h
  | _ => none

theorem s3fifoAdmit_of_room {s : CacheStore} {h : QueryHash} (hlimit : s.maxMemoryBytes = 0)
    (hroom : s.core.slots.length < s.s3fifo.capacity) :
    (s.s3fifoAdmit p h).core = { s.core with queues := s.s3fifo.push h } ∧
      (s.s3fifoAdmit p h).exactToNormalized = s.exactToNormalized := by
  have hexact (t : CacheStore) (g : Bool) (n : Evicted) :
      (t.recordAdmission g n).exactToNormalized = t.exactToNormalized := by
    unfold recordAdmission
    split <;> rfl
  rw [s3fifoAdmit_of_fits (not_needsRoom hlimit hroom), core_recordAdmission, hexact]
  exact ⟨rfl, rfl⟩

theorem makeRoomForUpstream_of_none {s : CacheStore} (hnone : s.perUpstreamLimit = none)
    (scan : Scan) (now : Clock) (upstreamId : String) :
    s.makeRoomForUpstream p scan now upstreamId = s := by
  simp only [makeRoomForUpstream, hnone]

structure Unlimited (s : CacheStore) : Prop where
  memory : s.maxMemoryBytes = 0
  upstream : s.perUpstreamLimit = none

theorem Unlimited.of_frame {s s' : CacheStore} (hs : Unlimited s) (h : s'.frame = s.frame) :
    Unlimited s' := by
  have hmemory : s'.frame.maxMemoryBytes = s.frame.maxMemoryBytes := by rw [h]
  have hupstream : s'.frame.perUpstreamLimit = s.frame.perUpstreamLimit := by rw [h]
  exact ⟨hmemory.trans hs.memory, hupstream.trans hs.upstream⟩

theorem Unlimited.admitted {s : CacheStore} (hs : Unlimited s) (b : Bool) (h : QueryHash) :
    Unlimited (if b then s.s3fifoAdmit p h else s) := by
  split
  · exact hs.of_frame (frame_s3fifoAdmit s h)
  · exact hs

theorem Unlimited.rememberExact {s : CacheStore} (hs : Unlimited s) (query : String)
    (h : QueryHash) : Unlimited (s.rememberExact p query h) := by
  unfold CacheStore.rememberExact
  split
  · exact ⟨hs.memory, hs.upstream⟩
  · exact hs

theorem Unlimited.insertImpl {s : CacheStore} (hs : Unlimited s) (scan : Scan) (now : Clock)
    (query : String) (response : QueryResponse) (upstreamId contextId : String) :
    Unlimited (s.insertImpl p scan now query response upstreamId contextId) := by
  simp only [CacheStore.insertImpl, makeRoomForUpstream_of_none hs.upstream]
  generalize newEntry p now response upstreamId (some query) contextId = entry
  have hstored : Unlimited ((s.persistEntry p now (hashQuery p query) entry).trackedInsert p
      (hashQuery p query) entry) := ⟨hs.memory, hs.upstream⟩
  have hadm := (hstored.rememberExact (p := p) query (hashQuery p query)).admitted (p := p)
    (decide (hashQuery p query ∉ s.entries)) (hashQuery p query)
  split
  · exact ⟨hadm.memory, hadm.upstream⟩
  · exact hadm

theorem Unlimited.insertByHash {s : CacheStore} (hs : Unlimited s) (scan : Scan) (now : Clock)
    (h : QueryHash) (response : QueryResponse) (upstreamId : String) (queryKey : Option String) :
    Unlimited (s.insertByHash p scan now h response upstreamId queryKey) := by
  simp only [CacheStore.insertByHash, makeRoomForUpstream_of_none hs.upstream]
  generalize newEntry p now response upstreamId queryKey "default" = entry
  have hstored : Unlimited ((s.persistEntry p now h entry).trackedInsert p h entry) :=
    ⟨hs.memory, hs.upstream⟩
  have hadm := hstored.admitted (p := p) (decide (h ∉ s.entries)) h
  split
  · exact ⟨hadm.memory, hadm.upstream⟩
  · exact hadm

/-- A single insertion into an unlimited store: one insertion, of the key that the call names,
into the store as it is. -/
theorem exec_single {s : CacheStore} (hs : Unlimited s) {call : Call} {h : QueryHash}
    (hcall : insertedHash p call.op = some h) :
    Unlimited (exec p s call) ∧ ∃ e, Inserted p ⟨s, h, e, false⟩ (exec p s call) := by
  rcases call with ⟨now, scan, op⟩
  have hroom (u : String) := makeRoomForUpstream_of_none (p := p) hs.upstream scan now u
  have hquery (query : String) (response : QueryResponse) (upstreamId contextId : String) :
      ∃ e, Inserted p ⟨s, hashQuery p query, e, false⟩
        (s.insertImpl p scan now query response upstreamId contextId) := by
    have hins := inserted_insertImpl (p := p) s scan now query response upstreamId contextId
    simp only [singleInsertion, hroom] at hins
    exact ⟨_, hins⟩
  have hhash (h : QueryHash) (response : QueryResponse) (upstreamId : String)
      (queryKey : Option String) : ∃ e, Inserted p ⟨s, h, e, false⟩
        (s.insertByHash p scan now h response upstreamId queryKey) := by
    have hins := inserted_insertByHash (p := p) s scan now h response upstreamId queryKey
    simp only [singleInsertion, hroom] at hins
    exact ⟨_, hins⟩
  cases op with
  | insert query response upstreamId =>
    cases hcall
    exact ⟨hs.insertImpl scan now query response upstreamId "default", hquery _ _ _ _⟩
  | insertWithContext query response upstreamId contextId =>
    cases hcall
    exact ⟨hs.insertImpl scan now query response upstreamId contextId, hquery _ _ _ _⟩
  | insertByHash h response upstreamId queryKey =>
    cases hcall
    exact ⟨hs.insertByHash scan now h response upstreamId queryKey, hhash _ _ _ _⟩
  | insertByHashWithEmbedding h response upstreamId embedding queryKey =>
    cases hcall
    have hlimits := hs.insertByHash (p := p) scan now h response upstreamId queryKey
    obtain ⟨e, hins⟩ := hhash h response upstreamId queryKey
    cases embedding with
    | some v => exact ⟨⟨hlimits.memory, hlimits.upstream⟩, e, hins.cold, hins.stored, hins.limit⟩
    | none => exact ⟨hlimits, e, hins⟩
  | _ => cases hcall

/-- Room for so many more keys. -/
structure HasRoom (n : Nat) (s : CacheStore) : Prop where
  unlimited : Unlimited s
  room : s.core.slots.length + n ≤ s.s3fifo.capacity

theorem HasRoom.inserted {n : Nat} {s s' : CacheStore} {h : QueryHash} {e : CacheEntry}
    (hs : HasRoom (n + 1) s) (hlimits : Unlimited s') (hins : Inserted p ⟨s, h, e, false⟩ s') :
    HasRoom n s' ∧ s'.entries = s.entries.insert h e := by
  have hroom : s.s3fifo.slots.length + (n + 1) ≤ s.s3fifo.capacity := hs.room
  rcases hins.cases with ⟨-, -, hcore⟩ | ⟨-, stored, hstored, hlimit, hcore⟩
  · have hqueues : s'.s3fifo = s.s3fifo := congrArg Core.queues hcore
    refine ⟨⟨hlimits, ?_⟩, congrArg Core.entries hcore⟩
    rw [Core.slots, core_queues, hqueues]
    omega
  · have hqueues : stored.s3fifo = s.s3fifo := congrArg Core.queues hstored
    have hlt : stored.core.slots.length < stored.s3fifo.capacity := by
      rw [Core.slots, core_queues, hqueues]
      omega
    rw [(s3fifoAdmit_of_room (hlimit.trans hs.unlimited.memory) hlt).1] at hcore
    have hpushed : s'.s3fifo = s.s3fifo.push h :=
      (congrArg Core.queues hcore).trans (by rw [hqueues])
    refine ⟨⟨hlimits, ?_⟩, (congrArg Core.entries hcore).trans (congrArg Core.entries hstored)⟩
    rw [Core.slots, core_queues, hpushed, (s.s3fifo.push_slots h).length_eq,
      s.s3fifo.push_capacity h, List.length_cons]
    omega

theorem HasRoom.insert {n : Nat} {s : CacheStore} (hs : HasRoom (n + 1) s) {call : Call}
    {h : QueryHash} (hcall : insertedHash p call.op = some h) (hnew : h ∉ s.entries) :
    HasRoom n (exec p s call) ∧ (∀ k, k ∈ (exec p s call).entries ↔ k = h ∨ k ∈ s.entries) ∧
      (exec p s call).len = s.len + 1 := by
  obtain ⟨hlimits, e, hins⟩ := exec_single hs.unlimited hcall
  obtain ⟨hroom, hentries⟩ := hs.inserted hlimits hins
  refine ⟨hroom, ?_, ?_⟩
  · intro k
    rw [hentries, AList.mem_insert]
  · have hkeys : h ∉ s.entries.keys := hnew
    rw [len, hentries, AList.keys_insert, List.erase_of_not_mem hkeys]
    rfl

theorem HasRoom.run {s : CacheStore} {hashes : List QueryHash} {calls : List Call}
    (hs : HasRoom hashes.length s)
    (hcalls : calls.map (fun call => insertedHash p call.op) = hashes.map some)
    (hnodup : hashes.Nodup) (hnew : ∀ h ∈ hashes, h ∉ s.entries) :
    (∀ k, k ∈ (Machine.run (exec p) s calls).entries ↔ k ∈ hashes ∨ k ∈ s.entries) ∧
      (Machine.run (exec p) s calls).len = s.len + hashes.length := by
  induction hashes generalizing s calls with
  | nil =>
    obtain rfl : calls = [] := by simpa using hcalls
    simp
  | cons h rest ih =>
    obtain ⟨call, later, rfl⟩ : ∃ call later, calls = call :: later := by
      cases calls with
      | nil => simp at hcalls
      | cons call later => exact ⟨call, later, rfl⟩
    obtain ⟨hcall, hlater⟩ := List.cons_eq_cons.mp hcalls
    obtain ⟨hfresh, hrest⟩ := List.nodup_cons.mp hnodup
    obtain ⟨hroom, hmem, hlen⟩ := hs.insert hcall (hnew h List.mem_cons_self)
    obtain ⟨hkeys, hcount⟩ := ih hroom hlater hrest (by
      intro k hk hin
      rcases (hmem k).mp hin with rfl | hin
      · exact hfresh hk
      · exact hnew k (List.mem_cons_of_mem _ hk) hin)
    constructor
    · intro k
      rw [Machine.run_cons, hkeys k, hmem k, List.mem_cons]
      tauto
    · rw [Machine.run_cons, hcount, hlen, List.length_cons]
      omega

/-- A store after a run in which `set_max_entries(n)` was the last change of the limit, which
had been `old` until then. -/
def AfterReload (p : Platform) (freshDuration staleDuration : Duration) (maxEntries old n : Nat)
    (s : CacheStore) : Prop :=
  ∃ before after : List Call, (∀ c ∈ after, ∀ m, c.op ≠ .setMaxEntries m) ∧
    old = (Machine.run (exec p) (CacheStore.new freshDuration staleDuration maxEntries)
      before).maxEntries ∧
    s = Machine.run (exec p) (CacheStore.new freshDuration staleDuration maxEntries)
      (before ++ callNow (.setMaxEntries n) :: after)

/-- What a reload promises: later insertions of new keys respect the new limit, and a store
whose limit was raised holds that many entries. An empty store has no entry and no slot of a
removed one. -/
structure ReloadHonoured (p : Platform) (freshDuration staleDuration : Duration)
    (maxEntries n : Nat) : Prop where
  bounded : ∀ old s, AfterReload p freshDuration staleDuration maxEntries old n s →
    ∀ call : Call, (∃ i ∈ insertions p s call, i.hash ∉ s.entries) →
      s.len ≤ n → (exec p s call).len ≤ n
  raised : ∀ old s, AfterReload p freshDuration staleDuration maxEntries old n s → old < n →
    Unlimited s → s.len = 0 → s.s3fifo.slots = [] →
    ∀ (calls : List Call) (hashes : List QueryHash),
      calls.map (fun call => insertedHash p call.op) = hashes.map some →
      hashes.Nodup → hashes.length = n →
      ∀ h ∈ hashes, h ∈ (Machine.run (exec p) s calls).entries

theorem AfterReload.fits {freshDuration staleDuration : Duration} {maxEntries old n : Nat}
    {s : CacheStore} (h : AfterReload p freshDuration staleDuration maxEntries old n s) :
    s.core.Fits (max maxEntries 1) := by
  obtain ⟨before, after, -, -, rfl⟩ := h
  exact run_fits (withJitter_fits freshDuration staleDuration maxEntries _) _

theorem len_le_of_fits {capacity : Nat} {s : CacheStore} (hs : s.core.Fits capacity) :
    s.len ≤ capacity :=
  (WeightedTable.length_keys_le s.entries hs.resident).trans hs.bounded

/-- The first `n` digests, each inserted by one call. -/
def firstHashes (n : Nat) : List QueryHash := (List.range n).map (BitVec.ofNat 256)

def insertCall (h : QueryHash) : Call := callNow (.insertByHash h (textResponse "") "" none)

theorem firstHashes_nodup {n : Nat} (hn : n ≤ 2 ^ 64) : (firstHashes n).Nodup := by
  refine List.Nodup.map_on ?_ List.nodup_range
  intro a ha b hb hab
  have hle : (2 : Nat) ^ 64 ≤ 2 ^ 256 := Nat.pow_le_pow_right (by decide) (by decide)
  have hal := List.mem_range.mp ha
  have hbl := List.mem_range.mp hb
  have heq := congrArg BitVec.toNat hab
  rw [BitVec.toNat_ofNat, BitVec.toNat_ofNat, Nat.mod_eq_of_lt (by omega),
    Nat.mod_eq_of_lt (by omega)] at heq
  exact heq

theorem insertCalls_hashes (hashes : List QueryHash) :
    (hashes.map insertCall).map (fun call => insertedHash p call.op) = hashes.map some := by
  rw [List.map_map]
  rfl

theorem exec_setMaxEntries {s : CacheStore} {n : Nat} (hn : 0 < n) :
    exec p s (callNow (.setMaxEntries n)) = { s with maxEntries := n } := by
  have hne : n ≠ 0 := by omega
  simp only [exec, callNow, setMaxEntries, hne, if_false]

theorem notMem_of_len_eq_zero {s : CacheStore} (hs : s.len = 0) (k : QueryHash) :
    k ∉ s.entries := by
  intro hk
  have hkeys : k ∈ s.entries.keys := hk
  rw [List.length_eq_zero_iff.mp hs] at hkeys
  exact List.not_mem_nil hkeys

def resized (freshDuration staleDuration : Duration) (maxEntries n : Nat) : CacheStore :=
  { CacheStore.new freshDuration staleDuration maxEntries with maxEntries := n }

theorem afterReload_run (freshDuration staleDuration : Duration) (maxEntries : Nat) {n : Nat}
    (hpos : 0 < n) (after : List Call) (hafter : ∀ c ∈ after, ∀ m, c.op ≠ .setMaxEntries m) :
    AfterReload p freshDuration staleDuration maxEntries maxEntries n
      (Machine.run (exec p) (resized freshDuration staleDuration maxEntries n) after) := by
  refine ⟨[], after, hafter, rfl, ?_⟩
  rw [List.nil_append, Machine.run_cons, exec_setMaxEntries hpos]
  rfl

theorem insertCalls_no_resize (hashes : List QueryHash) :
    ∀ c ∈ hashes.map insertCall, ∀ m, c.op ≠ .setMaxEntries m := by
  intro c hc m
  obtain ⟨h, -, rfl⟩ := List.mem_map.mp hc
  simp [insertCall, callNow]

theorem length_firstHashes (n : Nat) : (firstHashes n).length = n := by simp [firstHashes]

/-- Whatever the reload asked for, the store holds as many keys as it was made for. -/
theorem resized_run (freshDuration staleDuration : Duration) {maxEntries m : Nat} (n : Nat)
    (hm : m ≤ maxEntries) (husize : m ≤ 2 ^ 64) :
    let s := Machine.run (exec p) (resized freshDuration staleDuration maxEntries n)
      ((firstHashes m).map insertCall)
    (∀ k, k ∈ s.entries ↔ k ∈ firstHashes m) ∧ s.len = m := by
  intro s
  have hroom : HasRoom (firstHashes m).length
      (resized freshDuration staleDuration maxEntries n) := by
    refine ⟨⟨rfl, rfl⟩, ?_⟩
    have hslots : (resized freshDuration staleDuration maxEntries n).core.slots = [] := rfl
    have hcap : (resized freshDuration staleDuration maxEntries n).s3fifo.capacity =
        max maxEntries 1 := S3FifoState.new_capacity maxEntries
    rw [hslots, hcap, length_firstHashes, List.length_nil]
    omega
  have hempty : ∀ k, k ∉ (resized freshDuration staleDuration maxEntries n).entries :=
    notMem_of_len_eq_zero rfl
  obtain ⟨hkeys, hlen⟩ := hroom.run (p := p) (insertCalls_hashes _) (firstHashes_nodup husize)
    (fun k _ => hempty k)
  constructor
  · intro k
    rw [hkeys k]
    exact or_iff_left (hempty k)
  · rw [length_firstHashes] at hlen
    exact hlen.trans (Nat.zero_add m)

theorem not_honoured_of_lt {freshDuration staleDuration : Duration} {maxEntries n : Nat}
    (hpos : 0 < n) (husize : n < 2 ^ 64) (hlt : n < maxEntries) :
    ¬ ReloadHonoured p freshDuration staleDuration maxEntries n := by
  intro h
  obtain ⟨hkeys, hlen⟩ := resized_run (p := p) freshDuration staleDuration n hlt.le husize.le
  obtain ⟨-, hnext⟩ := resized_run (p := p) freshDuration staleDuration (m := n + 1) n hlt husize
  have hsplit : firstHashes (n + 1) = firstHashes n ++ [BitVec.ofNat 256 n] := by
    simp [firstHashes, List.range_succ]
  have hnew : BitVec.ofNat 256 n ∉ firstHashes n := by
    have hnodup := firstHashes_nodup (n := n + 1) husize
    rw [hsplit, List.nodup_append_comm, List.singleton_append] at hnodup
    exact (List.nodup_cons.mp hnodup).1
  have hreload := afterReload_run (p := p) freshDuration staleDuration maxEntries hpos
    ((firstHashes n).map insertCall) (insertCalls_no_resize _)
  have hbound := h.bounded _ _ hreload (insertCall (BitVec.ofNat 256 n))
    ⟨_, List.mem_singleton_self _, fun hin => hnew ((hkeys _).mp hin)⟩ hlen.le
  rw [hsplit, List.map_append, Machine.run_append] at hnext
  exact absurd (hnext.symm.le.trans hbound) (by omega)

theorem not_honoured_of_gt {freshDuration staleDuration : Duration} {maxEntries n : Nat}
    (husize : n < 2 ^ 64) (hgt : max maxEntries 1 < n) :
    ¬ ReloadHonoured p freshDuration staleDuration maxEntries n := by
  intro h
  have hreload : AfterReload p freshDuration staleDuration maxEntries maxEntries n
      (resized freshDuration staleDuration maxEntries n) :=
    afterReload_run freshDuration staleDuration maxEntries (by omega) [] (by simp)
  have hall := h.raised _ _ hreload (by omega) ⟨rfl, rfl⟩ rfl rfl
    ((firstHashes n).map insertCall) (firstHashes n) (insertCalls_hashes _)
    (firstHashes_nodup husize.le) (length_firstHashes n)
  have hfits := run_fits (p := p) hreload.fits ((firstHashes n).map insertCall)
  have hcount := (List.subperm_of_subset (firstHashes_nodup husize.le) hall).length_le
  have hle := len_le_of_fits hfits
  rw [length_firstHashes] at hcount
  exact absurd (hcount.trans hle) (by omega)

/-- A reload is honoured exactly when it asks for the capacity that the constructor gave the
queues. -/
theorem reload_honoured_iff (freshDuration staleDuration : Duration) (maxEntries n : Nat)
    (hpos : 0 < n) (husize : n < 2 ^ 64) :
    ReloadHonoured p freshDuration staleDuration maxEntries n ↔ n = max maxEntries 1 := by
  constructor
  · intro h
    by_contra hne
    rcases Nat.lt_or_gt_of_ne hne with hlt | hgt
    · exact not_honoured_of_lt hpos husize (by omega) h
    · exact not_honoured_of_gt husize hgt h
  · intro h
    constructor
    · intro old s hs call _ _
      rw [h]
      exact len_le_of_fits (exec_fits s call hs.fits)
    · intro old s hs _ hlimits hempty hslots calls hashes hcalls hnodup hlen k hk
      have hroom : HasRoom hashes.length s := by
        refine ⟨hlimits, ?_⟩
        have hcap : s.s3fifo.capacity = max maxEntries 1 := hs.fits.capacity_eq
        rw [Core.slots, core_queues, hslots, hcap, hlen, h]
        simp
      have hnew : ∀ h ∈ hashes, h ∉ s.entries := fun h _ => notMem_of_len_eq_zero hempty h
      exact ((hroom.run hcalls hnodup hnew).1 k).mpr (Or.inl hk)

theorem reload_to_same_capacity :
    ReloadHonoured Platform.sample 1 1 10 10 ↔ 10 = max 10 1 :=
  reload_honoured_iff 1 1 10 10 (by decide) (by decide)

theorem raised_reload_not_honoured : ¬ ReloadHonoured Platform.sample 1 1 1 2 := by
  intro h
  have hreload := afterReload_run (p := Platform.sample) 1 1 1 (n := 2) (by decide) [] (by simp)
  have hall := h.raised _ _ hreload (by decide) ⟨rfl, rfl⟩ rfl rfl
    [insertCall 1, insertCall 2] [1, 2] rfl (by decide) rfl 1 (by simp)
  revert hall
  decide +kernel

end Conproxy
