import Conproxy.Lib.Machine
import Conproxy.Lib.WeightedTable
import Conproxy.Persistence
import Conproxy.Sample

/-!
# The namespaces of the persisted entries

One table holds the entries of all contexts and those without a context. A key ends in a hash of
fixed length, so no two entries share a key, but a context is listed and cleared by how its keys
begin, and nothing keeps the colon out of a context id or a hash.
-/

namespace Conproxy

open Machine

set_option autoImplicit false

def contextPrefix (contextId : String) : List UInt8 := utf8 ("ctx:" ++ contextId ++ ":")

namespace PersistentCache

def contextKey (contextId : String) (h : QueryHash) : List UInt8 :=
  utf8 "ctx:" ++ utf8 contextId ++ [58] ++ hashBytes h

variable (p : Platform)

def storeEntryForContext (t : PersistentCache) (contextId : String) (h : QueryHash)
    (e : PersistedEntry) : PersistentCache :=
  match p.encodeEntry e with
  | some value => ⟨t.entries.insert (contextKey contextId h) value⟩
  | none => t

/-- The table is scanned in the order of its keys. A key that begins like those of the context
gives its last 32 bytes, if they do not overlap with the beginning. -/
def entriesForContext (t : PersistentCache) (contextId : String) : List QueryHash :=
  (t.entries.keys.insertionSort (· ≤ ·)).filterMap fun k =>
    let hashStart := k.length - 32
    if contextPrefix contextId <+: k ∧ (contextPrefix contextId).length ≤ hashStart ∧
        hashStart + 32 = k.length then
      some (hashOfBytes (k.drop hashStart))
    else none

/-- The count of the removed entries is returned. -/
def clearContext (t : PersistentCache) (contextId : String) : PersistentCache × Nat :=
  let keys := (t.entries.keys.insertionSort (· ≤ ·)).filter fun k => contextPrefix contextId <+: k
  (⟨keys.foldl (fun entries k => entries.erase k) t.entries⟩, keys.length)

end PersistentCache

/-- Where an entry belongs. -/
inductive Place where
  | global
  | context (id : String)
deriving DecidableEq

def Place.key : Place → QueryHash → List UInt8
  | .global, h => hashBytes h
  | .context id, h => PersistentCache.contextKey id h

theorem contextKey_eq (contextId : String) (h : QueryHash) :
    PersistentCache.contextKey contextId h = contextPrefix contextId ++ hashBytes h := by
  have hcolon : utf8 ":" = [58] := by decide +kernel
  rw [PersistentCache.contextKey, contextPrefix, utf8_append, utf8_append, hcolon]

theorem contextPrefix_inj {c d : String} : contextPrefix c = contextPrefix d ↔ c = d := by
  constructor
  · intro h
    simp only [contextPrefix, utf8_append] at h
    exact utf8_inj.1 (List.append_cancel_left (List.append_cancel_right h))
  · rintro rfl
    rfl

/-- No two entries share a key. -/
theorem Place.key_inj {a b : Place} {h i : QueryHash} : a.key h = b.key i ↔ a = b ∧ h = i := by
  have hlong (c : String) (h i : QueryHash) : PersistentCache.contextKey c h ≠ hashBytes i := by
    intro heq
    have hlength := congrArg List.length heq
    simp only [PersistentCache.contextKey, List.length_append, length_hashBytes,
      List.length_singleton] at hlength
    omega
  constructor
  · intro hkey
    cases a with
    | global =>
      cases b with
      | global => exact ⟨rfl, hashBytes_injective hkey⟩
      | context d => exact absurd hkey.symm (hlong d i h)
    | context c =>
      cases b with
      | global => exact absurd hkey (hlong c h i)
      | context d =>
        simp only [Place.key, contextKey_eq] at hkey
        obtain ⟨hstart, hhash⟩ := List.append_inj' hkey (by simp)
        exact ⟨congrArg Place.context (contextPrefix_inj.1 hstart), hashBytes_injective hhash⟩
  · rintro ⟨rfl, rfl⟩
    rfl

namespace PersistentCache

variable {t : PersistentCache} {c : String}

theorem lookup_clearContext (k : List UInt8) :
    (t.clearContext c).1.entries.lookup k =
      if contextPrefix c <+: k then none else t.entries.lookup k := by
  have hmem : k ∈ (t.entries.keys.insertionSort (· ≤ ·)).filter (fun k => contextPrefix c <+: k) ↔
      k ∈ t.entries ∧ contextPrefix c <+: k := by
    rw [List.mem_filter, List.mem_insertionSort, decide_eq_true_iff]
    exact Iff.rfl
  unfold clearContext
  rw [WeightedTable.lookup_foldl_erase]
  simp only [hmem]
  by_cases hk : k ∈ t.entries
  · simp only [hk, true_and]
  · simp [hk, AList.lookup_eq_none.2 hk]

theorem mem_entriesForContext (h : QueryHash) :
    h ∈ t.entriesForContext c ↔ ∃ k ∈ t.entries, contextPrefix c <+: k ∧
      (contextPrefix c).length ≤ k.length - 32 ∧ k.length - 32 + 32 = k.length ∧
        hashOfBytes (k.drop (k.length - 32)) = h := by
  unfold entriesForContext
  simp only [List.mem_filterMap, List.mem_insertionSort, Option.ite_none_right_eq_some,
    Option.some.injEq, and_assoc]
  exact Iff.rfl

theorem hash_of_contextKey (c : String) (h : QueryHash) :
    hashOfBytes ((contextKey c h).drop ((contextKey c h).length - 32)) = h := by
  rw [contextKey_eq, List.length_append, length_hashBytes, Nat.add_sub_cancel, List.drop_left,
    hashOfBytes_hashBytes]

section Own

variable (hown : ∀ k ∈ t.entries, contextPrefix c <+: k → ∃ h, k = contextKey c h)
include hown

theorem mem_entriesForContext_of_own (h : QueryHash) :
    h ∈ t.entriesForContext c ↔ contextKey c h ∈ t.entries := by
  rw [mem_entriesForContext]
  constructor
  · rintro ⟨k, hk, hstart, -, -, rfl⟩
    obtain ⟨h, rfl⟩ := hown k hk hstart
    rw [hash_of_contextKey]
    exact hk
  · intro hk
    have hlength : (contextKey c h).length = (contextPrefix c).length + 32 := by
      rw [contextKey_eq, List.length_append, length_hashBytes]
    refine ⟨contextKey c h, hk, ?_, by omega, by omega, hash_of_contextKey c h⟩
    exact ⟨hashBytes h, (contextKey_eq c h).symm⟩

theorem nodup_entriesForContext : (t.entriesForContext c).Nodup := by
  have hkeys : (t.entries.keys.insertionSort (· ≤ ·)).Nodup :=
    (List.perm_insertionSort _ _).nodup_iff.2 t.entries.keys_nodup
  unfold entriesForContext
  refine List.pairwise_filterMap.2 (hkeys.imp_of_mem fun {k l} hk hl hne => ?_)
  simp only [Option.ite_none_right_eq_some, Option.some.injEq]
  rintro h ⟨⟨hk', -⟩, rfl⟩ i ⟨⟨hl', -⟩, rfl⟩ heq
  obtain ⟨h, rfl⟩ := hown k ((List.mem_insertionSort _).1 hk) hk'
  obtain ⟨i, rfl⟩ := hown l ((List.mem_insertionSort _).1 hl) hl'
  rw [hash_of_contextKey, hash_of_contextKey] at heq
  exact hne (congrArg (contextKey c) heq)

end Own

end PersistentCache

structure StoreCall where
  place : Place
  hash : QueryHash
  entry : PersistedEntry

section

variable (p : Platform)

def StoreCall.apply (t : PersistentCache) (call : StoreCall) : PersistentCache :=
  match call.place with
  | .global => t.storeEntry p call.hash call.entry
  | .context c => t.storeEntryForContext p c call.hash call.entry

def StoreCall.stores (call : StoreCall) : Bool := (p.encodeEntry call.entry).isSome

/-- The table after the calls, from an empty one. -/
def tableOf (calls : List StoreCall) : PersistentCache := run (StoreCall.apply p) ⟨∅⟩ calls

def StoredAt (calls : List StoreCall) (place : Place) (h : QueryHash) : Prop :=
  ∃ call ∈ calls, call.stores p = true ∧ call.place = place ∧ call.hash = h

/-- The context lists and loses exactly what was stored for it. -/
structure KeptApart (calls : List StoreCall) (c : String) : Prop where
  nodup : ((tableOf p calls).entriesForContext c).Nodup
  lists : ∀ h, h ∈ (tableOf p calls).entriesForContext c ↔ StoredAt p calls (.context c) h
  clears : ∀ h,
    ((tableOf p calls).clearContext c).1.entries.lookup (Place.key (.context c) h) = none
  keeps : ∀ (place : Place) (h : QueryHash), place ≠ .context c →
    ((tableOf p calls).clearContext c).1.entries.lookup (place.key h) =
      (tableOf p calls).entries.lookup (place.key h)

end

variable {p : Platform}

theorem StoreCall.mem_apply (t : PersistentCache) (call : StoreCall) (k : List UInt8) :
    k ∈ (call.apply p t).entries ↔
      k ∈ t.entries ∨ call.stores p = true ∧ k = call.place.key call.hash := by
  obtain ⟨place, hash, entry⟩ := call
  unfold StoreCall.apply StoreCall.stores
  cases place with
  | global =>
    unfold PersistentCache.storeEntry
    cases p.encodeEntry entry with
    | none => simp
    | some value => simp [Place.key, or_comm]
  | context c =>
    unfold PersistentCache.storeEntryForContext
    cases p.encodeEntry entry with
    | none => simp
    | some value => simp [Place.key, or_comm]

theorem mem_run_apply (calls : List StoreCall) (t : PersistentCache) (k : List UInt8) :
    k ∈ (run (StoreCall.apply p) t calls).entries ↔
      k ∈ t.entries ∨ ∃ call ∈ calls, call.stores p = true ∧ k = call.place.key call.hash := by
  induction calls generalizing t with
  | nil => simp
  | cons call rest ih =>
    rw [run_cons, ih, StoreCall.mem_apply]
    simp only [List.mem_cons, exists_eq_or_imp, or_assoc]

theorem mem_tableOf (calls : List StoreCall) (k : List UInt8) :
    k ∈ (tableOf p calls).entries ↔
      ∃ call ∈ calls, call.stores p = true ∧ k = call.place.key call.hash := by
  unfold tableOf
  rw [mem_run_apply]
  exact or_iff_right (AList.notMem_empty k)

theorem key_mem_tableOf (calls : List StoreCall) (place : Place) (h : QueryHash) :
    place.key h ∈ (tableOf p calls).entries ↔ StoredAt p calls place h := by
  rw [mem_tableOf]
  refine exists_congr fun call => and_congr_right fun _ => and_congr_right fun _ => ?_
  rw [Place.key_inj, eq_comm, @eq_comm _ h]

/-- A context is kept apart from everything else that was stored exactly if no other key begins
like those of the context. -/
theorem kept_apart_iff (p : Platform) (calls : List StoreCall) (c : String) :
    KeptApart p calls c ↔
      ∀ call ∈ calls, call.stores p = true → contextPrefix c <+: call.place.key call.hash →
        call.place = .context c := by
  constructor
  · intro hapart call hcall hstores hstart
    by_contra hplace
    have hkept := hapart.keeps call.place call.hash hplace
    rw [PersistentCache.lookup_clearContext, if_pos hstart] at hkept
    have hmem : call.place.key call.hash ∈ (tableOf p calls).entries :=
      (mem_tableOf calls _).2 ⟨call, hcall, hstores, rfl⟩
    exact AList.lookup_eq_none.1 hkept.symm hmem
  · intro hforeign
    have hown : ∀ k ∈ (tableOf p calls).entries, contextPrefix c <+: k →
        ∃ h, k = PersistentCache.contextKey c h := by
      intro k hk hstart
      obtain ⟨call, hcall, hstores, rfl⟩ := (mem_tableOf calls k).1 hk
      exact ⟨call.hash, by rw [hforeign call hcall hstores hstart]; rfl⟩
    refine ⟨PersistentCache.nodup_entriesForContext hown, fun h => ?_, fun h => ?_,
      fun place h hplace => ?_⟩
    · rw [PersistentCache.mem_entriesForContext_of_own hown]
      exact key_mem_tableOf calls (.context c) h
    · rw [PersistentCache.lookup_clearContext, if_pos]
      exact ⟨hashBytes h, (contextKey_eq c h).symm⟩
    · rw [PersistentCache.lookup_clearContext]
      split
      · rename_i hstart
        symm
        rw [AList.lookup_eq_none, mem_tableOf]
        rintro ⟨call, hcall, hstores, hkey⟩
        rw [hkey] at hstart
        have hcontext := hforeign call hcall hstores hstart
        exact hplace ((Place.key_inj.1 hkey).1.trans hcontext)
      · rfl

/-- An entry without results for the query `q`. -/
def emptyEntry : PersistedEntry := ⟨"q", "default", ⟨[], "hit", 0, none⟩, 0, 0, 0⟩

/-- Context `a` loses an entry of context `a:b`: both keys begin with `ctx:a:`. -/
theorem neighbour_cleared :
    ¬ ∀ (p : Platform) (calls : List StoreCall) (c : String), KeptApart p calls c := by
  intro h
  have hapart := h (Platform.disk emptyEntry) [⟨.context "a:b", 0, emptyEntry⟩] "a"
  exact absurd (hapart.keeps (.context "a:b") 0 (by decide)) (by decide +kernel)

end Conproxy
