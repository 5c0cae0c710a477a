import Conproxy.Context

/-!
# The table of contexts

What every operation keeps of the table: the default context and the current one are active.
An eviction takes neither of them, so it stops short of the limit only for these two.
-/

namespace Conproxy

open Machine

set_option autoImplicit false

namespace ContextManager

/-- `update_metadata`: the closure changes the record in place. -/
def updateMetadata (m : ContextManager) (id : String) (f : ContextMetadata → ContextMetadata) :
    Except ContextError ContextManager :=
  match m.active.lookup id with
  | some c => .ok { m with active := m.active.insert id { c with metadata := f c.metadata } }
  | none => .error (.notFound id)

variable {m m' : ContextManager}

theorem current_notMem_evictees (scan : ContextScan) : m.current ∉ m.evictees scan :=
  fun h => (mem_of_mem_evictees h).2.1 rfl

theorem default_notMem_evictees (scan : ContextScan) :
    m.config.defaultContext ∉ m.evictees scan :=
  fun h => (mem_of_mem_evictees h).2.2 rfl

theorem mem_removeContexts (ids : List String) (id : String) :
    id ∈ (m.removeContexts ids).active ↔ id ∈ m.active ∧ id ∉ ids := by
  unfold removeContexts
  rw [← AList.lookup_isSome, WeightedTable.lookup_foldl_erase, ← AList.lookup_isSome]
  by_cases hid : id ∈ ids
  · simp [hid]
  · simp [hid]

theorem mem_maybeEvict (scan : ContextScan) (id : String) :
    id ∈ (m.maybeEvict scan).active ↔ id ∈ m.active ∧ id ∉ m.evictees scan := by
  unfold maybeEvict
  split
  · rename_i hroom
    have hnone : m.evictees scan = [] := by
      unfold evictees
      rw [Nat.sub_eq_zero_of_le hroom, List.take_zero]
    simp [hnone]
  · exact mem_removeContexts _ id

theorem current_mem_maybeEvict (scan : ContextScan) (h : m.current ∈ m.active) :
    m.current ∈ (m.maybeEvict scan).active :=
  (mem_maybeEvict scan m.current).2 ⟨h, current_notMem_evictees scan⟩

theorem current_maybeEvict (m : ContextManager) (scan : ContextScan) :
    (m.maybeEvict scan).current = m.current := by
  unfold maybeEvict
  split <;> rfl

theorem config_maybeEvict (m : ContextManager) (scan : ContextScan) :
    (m.maybeEvict scan).config = m.config := by
  unfold maybeEvict
  split <;> rfl

theorem keys_iter (m : ContextManager) (scan : ContextScan) :
    ((m.iter scan).map Prod.fst).Perm m.active.keys := by
  unfold iter
  refine ((scan.perm _).map Prod.fst).trans ?_
  rw [List.map_map]
  exact .refl _

theorem perm_candidates (m : ContextManager) (scan : ContextScan) :
    (m.candidates scan).Perm
      (m.active.keys.filter fun id => id ≠ m.current && id ≠ m.config.defaultContext) := by
  unfold candidates
  refine ((List.perm_insertionSort _ _).map Prod.fst).trans ?_
  rw [List.map_map]
  have hfilter := (keys_iter m scan).filter fun id =>
    id ≠ m.current && id ≠ m.config.defaultContext
  rw [List.filter_map] at hfilter
  exact hfilter

theorem activeCount_le_candidates (m : ContextManager) (scan : ContextScan) :
    m.activeCount ≤ (m.candidates scan).length + 2 := by
  have hnodup := m.active.keys_nodup
  have hfilter : (m.active.keys.erase m.current).erase m.config.defaultContext =
      m.active.keys.filter fun id => id ≠ m.current && id ≠ m.config.defaultContext := by
    rw [(hnodup.erase _).erase_eq_filter, hnodup.erase_eq_filter, List.filter_filter]
    refine List.filter_congr fun id _ => ?_
    simp [bne, Bool.and_comm, Bool.beq_eq_decide_eq]
  have hcurrent : m.active.keys.length - 1 ≤ (m.active.keys.erase m.current).length :=
    List.le_length_erase
  have hdefault : (m.active.keys.erase m.current).length - 1 ≤
      ((m.active.keys.erase m.current).erase m.config.defaultContext).length :=
    List.le_length_erase
  rw [(perm_candidates m scan).length_eq, ← hfilter]
  unfold activeCount
  omega

theorem activeCount_maybeEvict (m : ContextManager) (scan : ContextScan) :
    (m.maybeEvict scan).activeCount ≤ max m.config.maxActiveContexts 2 := by
  unfold maybeEvict
  split
  · rename_i hroom
    exact hroom.trans (le_max_left _ _)
  · rename_i hfull
    have hnodup : (m.evictees scan).Nodup := by
      refine List.Nodup.sublist (List.take_sublist _ _) ?_
      exact (perm_candidates m scan).nodup_iff.2 (m.active.keys_nodup.filter _)
    have hlength := WeightedTable.length_keys_foldl_erase m.active hnodup fun id hid =>
      (mem_of_mem_evictees hid).1
    have hcandidates := activeCount_le_candidates m scan
    have htaken : (m.evictees scan).length =
        min (m.activeCount - m.config.maxActiveContexts) (m.candidates scan).length := by
      simp [evictees]
    simp only [removeContexts, activeCount] at *
    omega

structure WellFormed (m : ContextManager) : Prop where
  default_mem : m.config.defaultContext ∈ m.active
  current_mem : m.current ∈ m.active

theorem wellFormed_new (now : Nat) (config : ContextConfig) : (new now config).WellFormed := by
  have hmem : config.defaultContext ∈ (new now config).active :=
    (AList.mem_insert _).2 (.inl rfl)
  exact ⟨hmem, hmem⟩

theorem WellFormed.mono (h : m.WellFormed) (hconfig : m'.config = m.config)
    (hcurrent : m'.current = m.current) (hmem : ∀ id ∈ m.active, id ∈ m'.active) :
    m'.WellFormed where
  default_mem := by
    rw [hconfig]
    exact hmem _ h.default_mem
  current_mem := by
    rw [hcurrent]
    exact hmem _ h.current_mem

theorem WellFormed.create {now : Nat} {id upstreamUrl collection : String} (h : m.WellFormed)
    (hok : m.create now id upstreamUrl collection = .ok m') :
    m'.WellFormed ∧ m'.config = m.config := by
  unfold ContextManager.create at hok
  split at hok
  · cases hok
  · cases hok
    exact ⟨h.mono rfl rfl fun _ hid => (AList.mem_insert _).2 (.inr hid), rfl⟩

theorem mem_touch {now : Nat} {touched id : String} (h : id ∈ m.active) :
    id ∈ (m.touch now touched).active := by
  unfold touch
  split
  · exact (AList.mem_insert _).2 (.inr h)
  · exact h

/-- What `create_missing` leaves: the context is active, and nothing else has changed. -/
theorem createMissing_spec {now : Nat} {id : String} (hok : m.createMissing now id = .ok m') :
    id ∈ m'.active ∧ (∀ other ∈ m.active, other ∈ m'.active) ∧ m'.config = m.config := by
  unfold createMissing at hok
  split at hok
  · rename_i hmem
    cases hok
    exact ⟨hmem, fun _ h => h, rfl⟩
  · rename_i hnew
    unfold ContextManager.create at hok
    rw [if_neg hnew] at hok
    split at hok
    · cases hok
      exact ⟨(AList.mem_insert _).2 (.inl rfl), fun _ h => (AList.mem_insert _).2 (.inr h), rfl⟩
    · cases hok

theorem enter_spec {now : Nat} {id : String} (hok : m.enter now id = .ok m') :
    m'.current = id ∧ id ∈ m'.active ∧ (∀ other ∈ m.active, other ∈ m'.active) ∧
      m'.config = m.config := by
  unfold enter at hok
  split at hok
  · rename_i m₁ hcreate
    cases hok
    obtain ⟨hid, hkept, hconfig⟩ := createMissing_spec hcreate
    refine ⟨rfl, mem_touch hid, fun other hother => mem_touch (hkept other hother), ?_⟩
    unfold touch
    split <;> exact hconfig
  · cases hok

theorem switch_ok {scan : ContextScan} {now : Nat} {id : String}
    (hok : m.switch scan now id = .ok m') :
    ∃ entered, m.enter now id = .ok entered ∧ m' = entered.maybeEvict scan := by
  unfold ContextManager.switch at hok
  split at hok
  · rename_i entered henter
    cases hok
    exact ⟨entered, henter, rfl⟩
  · cases hok

theorem WellFormed.switch {scan : ContextScan} {now : Nat} {id : String} (h : m.WellFormed)
    (hok : m.switch scan now id = .ok m') : m'.WellFormed ∧ m'.config = m.config := by
  obtain ⟨entered, henter, rfl⟩ := switch_ok hok
  obtain ⟨hcurrent, hid, hkept, hconfig⟩ := enter_spec henter
  have hdefault : entered.config.defaultContext ∈ entered.active := by
    rw [hconfig]
    exact hkept _ h.default_mem
  refine ⟨⟨?_, ?_⟩, (config_maybeEvict entered scan).trans hconfig⟩
  · rw [config_maybeEvict]
    exact (mem_maybeEvict scan _).2 ⟨hdefault, default_notMem_evictees scan⟩
  · rw [current_maybeEvict]
    exact current_mem_maybeEvict scan (hcurrent ▸ hid)

theorem switch_bounded {scan : ContextScan} {now : Nat} {id : String}
    (hok : m.switch scan now id = .ok m') :
    id ∈ m'.active ∧ m'.activeCount ≤ max m.config.maxActiveContexts 2 := by
  obtain ⟨entered, henter, rfl⟩ := switch_ok hok
  obtain ⟨hcurrent, hid, -, hconfig⟩ := enter_spec henter
  subst hcurrent
  exact ⟨current_mem_maybeEvict scan hid, hconfig ▸ activeCount_maybeEvict entered scan⟩

theorem delete_default (m : ContextManager) :
    m.delete m.config.defaultContext = .error .cannotDeleteDefault := if_pos rfl

theorem WellFormed.delete {id : String} (h : m.WellFormed) (hok : m.delete id = .ok m') :
    m'.WellFormed ∧ m'.config = m.config := by
  unfold ContextManager.delete at hok
  split at hok
  · cases hok
  · rename_i hnot
    split at hok
    · cases hok
      have hdefault : m.config.defaultContext ∈ m.active.erase id :=
        AList.mem_erase.2 ⟨fun heq => hnot heq.symm, h.default_mem⟩
      refine ⟨⟨hdefault, ?_⟩, rfl⟩
      dsimp only
      split
      · exact hdefault
      · rename_i hother
        exact AList.mem_erase.2 ⟨hother, h.current_mem⟩
    · cases hok

theorem WellFormed.updateMetadata {id : String} {f : ContextMetadata → ContextMetadata}
    (h : m.WellFormed) (hok : m.updateMetadata id f = .ok m') :
    m'.WellFormed ∧ m'.config = m.config := by
  unfold ContextManager.updateMetadata at hok
  split at hok
  · cases hok
    exact ⟨h.mono rfl rfl fun _ hid => (AList.mem_insert _).2 (.inr hid), rfl⟩
  · cases hok

inductive TableOp where
  | switch (id : String)
  | create (id upstreamUrl collection : String)
  | delete (id : String)
  | updateMetadata (id : String) (f : ContextMetadata → ContextMetadata)

structure TableCall where
  now : Nat
  scan : ContextScan
  op : TableOp

def TableCall.result (m : ContextManager) (call : TableCall) :
    Except ContextError ContextManager :=
  match call.op with
  | .switch id => m.switch call.scan call.now id
  | .create id upstreamUrl collection => m.create call.now id upstreamUrl collection
  | .delete id => m.delete id
  | .updateMetadata id f => m.updateMetadata id f

/-- A call that fails changes nothing. -/
def tableStep (m : ContextManager) (call : TableCall) : ContextManager :=
  (call.result m).toOption.getD m

theorem WellFormed.result {call : TableCall} (h : m.WellFormed) (hok : call.result m = .ok m') :
    m'.WellFormed ∧ m'.config = m.config := by
  rcases call with ⟨now, scan, op⟩
  cases op with
  | switch id => exact h.switch hok
  | create id upstreamUrl collection => exact h.create hok
  | delete id => exact h.delete hok
  | updateMetadata id f => exact h.updateMetadata hok

theorem wellFormed_tableStep (call : TableCall) (h : m.WellFormed) :
    (m.tableStep call).WellFormed ∧ (m.tableStep call).config = m.config := by
  unfold tableStep
  cases hresult : call.result m with
  | ok m' => exact h.result hresult
  | error e => exact ⟨h, rfl⟩

theorem wellFormed_run (calls : List TableCall) (h : m.WellFormed) :
    (run tableStep m calls).WellFormed ∧ (run tableStep m calls).config = m.config := by
  induction calls generalizing m with
  | nil => exact ⟨h, rfl⟩
  | cons call rest ih =>
    obtain ⟨hstep, hconfig⟩ := wellFormed_tableStep call h
    obtain ⟨hrun, hrest⟩ := ih hstep
    exact ⟨hrun, hrest.trans hconfig⟩

/-- In every state that a manager reaches, the default and the current context are active, no
deletion takes the default context, and a switch leaves the table within its limit with the
context active that it switched to. -/
theorem context_table_invariant (start : Nat) (config : ContextConfig)
    (calls : List TableCall) :
    let m := run tableStep (new start config) calls
    config.defaultContext ∈ m.active ∧ m.current ∈ m.active ∧
    (∀ id m', m.delete id = .ok m' →
      id ≠ config.defaultContext ∧ config.defaultContext ∈ m'.active) ∧
    ∀ now scan id m', m.switch scan now id = .ok m' →
      m'.activeCount ≤ max config.maxActiveContexts 2 ∧ id ∈ m'.active := by
  intro m
  obtain ⟨hm, hconfig⟩ := wellFormed_run calls (wellFormed_new start config)
  replace hconfig : m.config = config := hconfig
  refine ⟨hconfig ▸ hm.default_mem, hm.current_mem, fun id m' hok => ?_,
    fun now scan id m' hok => ?_⟩
  · obtain ⟨hm', hconfig'⟩ := hm.delete hok
    have hdefault := hm'.default_mem
    rw [hconfig', hconfig] at hdefault
    refine ⟨?_, hdefault⟩
    rintro rfl
    rw [← hconfig, delete_default] at hok
    cases hok
  · obtain ⟨hid, hcount⟩ := switch_bounded hok
    exact ⟨hconfig ▸ hcount, hid⟩

end ContextManager

end Conproxy
