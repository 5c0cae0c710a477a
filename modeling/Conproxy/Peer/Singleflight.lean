import Mathlib.Data.List.AList
import Mathlib.Logic.Function.Basic
import Conproxy.Cdc
import Conproxy.Lib.Machine

/-!
# Singleflight across peers

`DistributedCoalescer` of `peer/singleflight.rs`. A record that ends by `complete_fetch`, by the
event of its peer or by an insert wakes its waiters. One that is cancelled by this node or replaced
by a later start does not.
-/

namespace Conproxy

open Machine

set_option autoImplicit false

def CdcEventBuilder.fetchStart (queryKey : String) : CdcEventBuilder := ⟨queryKey, [], "", "", 0⟩

def CdcEventBuilder.fetchCancel (queryKey : String) : CdcEventBuilder := ⟨queryKey, [], "", "", 0⟩

/-- A `Notify` is known by its number. -/
structure FetchState where
  originNodeId : String
  notify : Nat

inductive CoalesceDecision where
  | proceed
  | wait (notify : Nat)
deriving DecidableEq

/-- `created` numbers the next `Notify`, and `notified` holds those whose waiters were woken. -/
structure DistributedCoalescer where
  activeFetches : AList fun _ : String => FetchState
  cdcSender : EventSender
  waitTimeout : Duration
  created : Nat
  notified : List Nat

namespace DistributedCoalescer

def new (cdcSender : EventSender) (waitTimeout : Duration) : DistributedCoalescer :=
  ⟨∅, cdcSender, waitTimeout, 0, []⟩

def check (c : DistributedCoalescer) (queryKey : String) : CoalesceDecision :=
  match c.activeFetches.lookup queryKey with
  | some state => .wait state.notify
  | none => .proceed

def registerFetch (c : DistributedCoalescer) (nowMs : Nat) (queryKey : String) :
    DistributedCoalescer :=
  { c with cdcSender := c.cdcSender.send nowMs .fetchStart (.fetchStart queryKey) }

def removeAndNotify (c : DistributedCoalescer) (queryKey : String) : DistributedCoalescer :=
  match c.activeFetches.lookup queryKey with
  | some state =>
    { c with
      activeFetches := c.activeFetches.erase queryKey
      notified := state.notify :: c.notified }
  | none => c

def completeFetch (c : DistributedCoalescer) (queryKey : String) : DistributedCoalescer :=
  c.removeAndNotify queryKey

def cancelFetch (c : DistributedCoalescer) (nowMs : Nat) (queryKey : String) :
    DistributedCoalescer :=
  { c with
    activeFetches := c.activeFetches.erase queryKey
    cdcSender := c.cdcSender.send nowMs .fetchCancel (.fetchCancel queryKey) }

def onRemoteFetchStart (c : DistributedCoalescer) (queryKey originNodeId : String) :
    DistributedCoalescer :=
  { c with
    activeFetches := c.activeFetches.insert queryKey ⟨originNodeId, c.created⟩
    created := c.created + 1 }

def onRemoteFetchCancel (c : DistributedCoalescer) (queryKey : String) : DistributedCoalescer :=
  c.removeAndNotify queryKey

def onRemoteInsert (c : DistributedCoalescer) (queryKey : String) : DistributedCoalescer :=
  c.removeAndNotify queryKey

/-- The number of the `Notify` in the record of a key. -/
def current (c : DistributedCoalescer) (queryKey : String) : Option Nat :=
  (c.activeFetches.lookup queryKey).map FetchState.notify

end DistributedCoalescer

inductive FetchStep where
  | check (queryKey : String)
  | registerFetch (nowMs : Nat) (queryKey : String)
  | completeFetch (queryKey : String)
  | cancelFetch (nowMs : Nat) (queryKey : String)
  | onRemoteFetchStart (queryKey originNodeId : String)
  | onRemoteFetchCancel (queryKey : String)
  | onRemoteInsert (queryKey : String)
deriving DecidableEq

/-- The coalescer with every `Notify` that `check` has handed out and the key it was for. -/
structure Singleflight where
  coalescer : DistributedCoalescer
  handedOut : List (String × Nat)

namespace Singleflight

def new (cdcSender : EventSender) (waitTimeout : Duration) : Singleflight :=
  ⟨.new cdcSender waitTimeout, []⟩

def check (s : Singleflight) (queryKey : String) : Singleflight :=
  match s.coalescer.check queryKey with
  | .wait notify => { s with handedOut := (queryKey, notify) :: s.handedOut }
  | .proceed => s

def step (s : Singleflight) : FetchStep → Singleflight
  | .check queryKey => s.check queryKey
  | .registerFetch nowMs queryKey =>
    { s with coalescer := s.coalescer.registerFetch nowMs queryKey }
  | .completeFetch queryKey => { s with coalescer := s.coalescer.completeFetch queryKey }
  | .cancelFetch nowMs queryKey => { s with coalescer := s.coalescer.cancelFetch nowMs queryKey }
  | .onRemoteFetchStart queryKey originNodeId =>
    { s with coalescer := s.coalescer.onRemoteFetchStart queryKey originNodeId }
  | .onRemoteFetchCancel queryKey =>
    { s with coalescer := s.coalescer.onRemoteFetchCancel queryKey }
  | .onRemoteInsert queryKey => { s with coalescer := s.coalescer.onRemoteInsert queryKey }

/-- What was handed out for a key is still in its record or was notified. -/
def NoneStranded (s : Singleflight) : Prop :=
  ∀ x ∈ s.handedOut, s.coalescer.current x.1 = some x.2 ∨ x.2 ∈ s.coalescer.notified

instance (s : Singleflight) : Decidable s.NoneStranded :=
  inferInstanceAs (Decidable (∀ x ∈ s.handedOut, _ ∨ _))

/-- Nobody waits for the record of the key. -/
def Unwaited (s : Singleflight) (queryKey : String) : Prop :=
  ∀ notify, s.coalescer.current queryKey = some notify → (queryKey, notify) ∉ s.handedOut

/-- No record that somebody waits for is cancelled by this node or replaced. -/
def SparesWaiters (s : Singleflight) : FetchStep → Prop
  | .cancelFetch _ queryKey => s.Unwaited queryKey
  | .onRemoteFetchStart queryKey _ => s.Unwaited queryKey
  | _ => True

end Singleflight

namespace DistributedCoalescer

variable {c c' : DistributedCoalescer} {queryKey : String}

theorem check_eq_wait_iff {notify : Nat} :
    c.check queryKey = .wait notify ↔ c.current queryKey = some notify := by
  unfold check current
  cases c.activeFetches.lookup queryKey <;> simp

theorem current_erase :
    (fun key => ((c.activeFetches.erase queryKey).lookup key).map FetchState.notify) =
      Function.update c.current queryKey none := by
  funext key
  by_cases hkey : key = queryKey
  · rw [hkey, AList.lookup_erase, Function.update_self]
    rfl
  · rw [AList.lookup_erase_ne hkey, Function.update_of_ne hkey]
    rfl

theorem current_cancelFetch (nowMs : Nat) :
    (c.cancelFetch nowMs queryKey).current = Function.update c.current queryKey none :=
  current_erase

theorem current_onRemoteFetchStart (originNodeId : String) :
    (c.onRemoteFetchStart queryKey originNodeId).current =
      Function.update c.current queryKey (some c.created) := by
  funext key
  by_cases hkey : key = queryKey
  · rw [hkey, Function.update_self, current, onRemoteFetchStart, AList.lookup_insert]
    rfl
  · rw [Function.update_of_ne hkey, current, onRemoteFetchStart, AList.lookup_insert_ne hkey]
    rfl

theorem removeAndNotify_of_none (h : c.current queryKey = none) :
    c.removeAndNotify queryKey = c := by
  unfold removeAndNotify
  rw [current, Option.map_eq_none_iff] at h
  rw [h]

theorem removeAndNotify_of_some {notify : Nat} (h : c.current queryKey = some notify) :
    (c.removeAndNotify queryKey).current = Function.update c.current queryKey none ∧
      (c.removeAndNotify queryKey).notified = notify :: c.notified ∧
      (c.removeAndNotify queryKey).created = c.created := by
  unfold removeAndNotify
  rw [current, Option.map_eq_some_iff] at h
  obtain ⟨state, hlookup, rfl⟩ := h
  rw [hlookup]
  exact ⟨current_erase, rfl, rfl⟩

/-- The records have different `Notify`s, and none of them was notified. -/
structure Numbered (c : DistributedCoalescer) : Prop where
  created : ∀ key notify, c.current key = some notify → notify < c.created
  notified : ∀ notify ∈ c.notified, notify < c.created
  pending : ∀ key notify, c.current key = some notify → notify ∉ c.notified
  distinct : ∀ key key' notify, c.current key = some notify → c.current key' = some notify →
    key = key'

theorem numbered_new (cdcSender : EventSender) (waitTimeout : Duration) :
    (new cdcSender waitTimeout).Numbered := by
  constructor <;> simp [new, current]

theorem of_update_none {key : String} {notify : Nat}
    (h : Function.update c.current queryKey none key = some notify) :
    key ≠ queryKey ∧ c.current key = some notify := by
  by_cases hkey : key = queryKey
  · rw [hkey, Function.update_self] at h
    cases h
  · rw [Function.update_of_ne hkey] at h
    exact ⟨hkey, h⟩

theorem Numbered.cancelFetch (h : c.Numbered) (nowMs : Nat) (queryKey : String) :
    (c.cancelFetch nowMs queryKey).Numbered := by
  constructor
  · rw [current_cancelFetch]
    exact fun key notify hkey => h.created key notify (of_update_none hkey).2
  · exact h.notified
  · rw [current_cancelFetch]
    exact fun key notify hkey => h.pending key notify (of_update_none hkey).2
  · rw [current_cancelFetch]
    exact fun key key' notify hkey hkey' =>
      h.distinct key key' notify (of_update_none hkey).2 (of_update_none hkey').2

theorem Numbered.removeAndNotify (h : c.Numbered) (queryKey : String) :
    (c.removeAndNotify queryKey).Numbered := by
  cases hcurrent : c.current queryKey with
  | none =>
    rw [removeAndNotify_of_none hcurrent]
    exact h
  | some notify =>
    obtain ⟨hrecords, hnotified, hcreated⟩ := removeAndNotify_of_some hcurrent
    constructor
    · rw [hrecords, hcreated]
      exact fun key m hkey => h.created key m (of_update_none hkey).2
    · rw [hnotified, hcreated]
      exact List.forall_mem_cons.2 ⟨h.created queryKey notify hcurrent, h.notified⟩
    · rw [hrecords, hnotified]
      intro key m hkey
      obtain ⟨hne, hkey⟩ := of_update_none hkey
      refine List.not_mem_cons_of_ne_of_not_mem ?_ (h.pending key m hkey)
      rintro rfl
      exact hne (h.distinct key queryKey m hkey hcurrent)
    · rw [hrecords]
      exact fun key key' m hkey hkey' =>
        h.distinct key key' m (of_update_none hkey).2 (of_update_none hkey').2

theorem Numbered.onRemoteFetchStart (h : c.Numbered) (queryKey originNodeId : String) :
    (c.onRemoteFetchStart queryKey originNodeId).Numbered := by
  have hcases {key : String} {notify : Nat}
      (hkey : Function.update c.current queryKey (some c.created) key = some notify) :
      key = queryKey ∧ notify = c.created ∨ c.current key = some notify ∧ notify < c.created := by
    by_cases hsame : key = queryKey
    · rw [hsame, Function.update_self, Option.some.injEq] at hkey
      exact .inl ⟨hsame, hkey.symm⟩
    · rw [Function.update_of_ne hsame] at hkey
      exact .inr ⟨hkey, h.created key notify hkey⟩
  constructor
  · rw [current_onRemoteFetchStart]
    intro key notify hkey
    rcases hcases hkey with ⟨-, rfl⟩ | ⟨-, hlt⟩
    · exact Nat.lt_succ_self _
    · exact Nat.lt_succ_of_lt hlt
  · exact fun notify hnotify => Nat.lt_succ_of_lt (h.notified notify hnotify)
  · rw [current_onRemoteFetchStart]
    intro key notify hkey
    rcases hcases hkey with ⟨-, rfl⟩ | ⟨hold, -⟩
    · exact fun hnotified => Nat.lt_irrefl _ (h.notified _ hnotified)
    · exact h.pending key notify hold
  · rw [current_onRemoteFetchStart]
    intro key key' notify hkey hkey'
    rcases hcases hkey with ⟨rfl, rfl⟩ | ⟨hold, hlt⟩
    · rcases hcases hkey' with ⟨rfl, -⟩ | ⟨-, hlt'⟩
      · rfl
      · exact absurd hlt' (Nat.lt_irrefl _)
    · rcases hcases hkey' with ⟨-, rfl⟩ | ⟨hold', -⟩
      · exact absurd hlt (Nat.lt_irrefl _)
      · exact h.distinct key key' notify hold hold'

end DistributedCoalescer

namespace Singleflight

variable {s : Singleflight} {queryKey : String}

theorem check_cases (s : Singleflight) (queryKey : String) :
    s.check queryKey = s ∨ ∃ notify, s.coalescer.current queryKey = some notify ∧
      s.check queryKey = { s with handedOut := (queryKey, notify) :: s.handedOut } := by
  unfold check
  cases hcheck : s.coalescer.check queryKey with
  | proceed => exact .inl rfl
  | wait notify => exact .inr ⟨notify, DistributedCoalescer.check_eq_wait_iff.1 hcheck, rfl⟩

theorem numbered_step (h : s.coalescer.Numbered) (x : FetchStep) :
    (s.step x).coalescer.Numbered := by
  cases x with
  | check queryKey =>
    rw [step]
    rcases check_cases s queryKey with heq | ⟨notify, -, heq⟩
    · rwa [heq]
    · rwa [heq]
  | registerFetch nowMs queryKey => exact ⟨h.created, h.notified, h.pending, h.distinct⟩
  | completeFetch queryKey => exact h.removeAndNotify queryKey
  | cancelFetch nowMs queryKey => exact h.cancelFetch nowMs queryKey
  | onRemoteFetchStart queryKey originNodeId => exact h.onRemoteFetchStart queryKey originNodeId
  | onRemoteFetchCancel queryKey => exact h.removeAndNotify queryKey
  | onRemoteInsert queryKey => exact h.removeAndNotify queryKey

theorem noneStranded_check (h : s.NoneStranded) (queryKey : String) :
    (s.check queryKey).NoneStranded := by
  rcases check_cases s queryKey with heq | ⟨notify, hcurrent, heq⟩
  · rwa [heq]
  · rw [heq]
    exact List.forall_mem_cons.2 ⟨.inl hcurrent, h⟩

theorem noneStranded_removeAndNotify (h : s.NoneStranded) (queryKey : String) :
    NoneStranded { s with coalescer := s.coalescer.removeAndNotify queryKey } := by
  cases hcurrent : s.coalescer.current queryKey with
  | none =>
    rw [DistributedCoalescer.removeAndNotify_of_none hcurrent]
    exact h
  | some notify =>
    obtain ⟨hrecords, hnotified, -⟩ := DistributedCoalescer.removeAndNotify_of_some hcurrent
    intro x hx
    dsimp only
    rw [hrecords, hnotified]
    rcases h x hx with hpending | hdone
    · by_cases hkey : x.1 = queryKey
      · rw [hkey, hcurrent, Option.some.injEq] at hpending
        rw [hpending]
        exact .inr List.mem_cons_self
      · rw [Function.update_of_ne hkey]
        exact .inl hpending
    · exact .inr (List.mem_cons_of_mem _ hdone)

/-- A record that is displaced without a word strands those who wait for it. -/
theorem noneStranded_displace_iff (hnumbered : s.coalescer.Numbered) (h : s.NoneStranded)
    {c : DistributedCoalescer} {record : Option Nat}
    (hcurrent : c.current = Function.update s.coalescer.current queryKey record)
    (hnotified : c.notified = s.coalescer.notified)
    (hnew : ∀ notify, record = some notify → notify = s.coalescer.created) :
    NoneStranded { s with coalescer := c } ↔ s.Unwaited queryKey := by
  constructor
  · intro hnone notify hold hwaited
    rcases hnone (queryKey, notify) hwaited with hpending | hdone
    · dsimp only at hpending
      rw [hcurrent, Function.update_self] at hpending
      exact (hnumbered.created queryKey notify hold).ne (hnew notify hpending)
    · rw [hnotified] at hdone
      exact hnumbered.pending queryKey notify hold hdone
  · intro hunwaited x hx
    dsimp only
    rw [hcurrent, hnotified]
    rcases h x hx with hpending | hdone
    · by_cases hkey : x.1 = queryKey
      · refine absurd hx ?_
        rw [← Prod.eta x, hkey]
        exact hunwaited x.2 (hkey ▸ hpending)
      · rw [Function.update_of_ne hkey]
        exact .inl hpending
    · exact .inr hdone

theorem noneStranded_step_iff (hnumbered : s.coalescer.Numbered) (h : s.NoneStranded)
    (x : FetchStep) : (s.step x).NoneStranded ↔ s.SparesWaiters x := by
  cases x with
  | check queryKey => exact iff_of_true (noneStranded_check h queryKey) trivial
  | registerFetch nowMs queryKey => exact iff_of_true h trivial
  | completeFetch queryKey => exact iff_of_true (noneStranded_removeAndNotify h queryKey) trivial
  | cancelFetch nowMs queryKey =>
    exact noneStranded_displace_iff hnumbered h
      (DistributedCoalescer.current_cancelFetch nowMs) rfl nofun
  | onRemoteFetchStart queryKey originNodeId =>
    refine noneStranded_displace_iff hnumbered h
      (DistributedCoalescer.current_onRemoteFetchStart originNodeId) rfl fun notify hnotify => ?_
    exact (Option.some.inj hnotify).symm
  | onRemoteFetchCancel queryKey =>
    exact iff_of_true (noneStranded_removeAndNotify h queryKey) trivial
  | onRemoteInsert queryKey => exact iff_of_true (noneStranded_removeAndNotify h queryKey) trivial

/-- In a run every `Notify` that was handed out is notified with the end of its record, after every
step, exactly if no record that somebody waits for is cancelled by this node or replaced. -/
theorem none_stranded_iff (cdcSender : EventSender) (waitTimeout : Duration)
    (steps : List FetchStep) :
    AllSteps step (fun s x => (s.step x).NoneStranded) (new cdcSender waitTimeout) steps ↔
      AllSteps step SparesWaiters (new cdcSender waitTimeout) steps := by
  have hinvariant : ∀ (s : Singleflight) (x : FetchStep), s.coalescer.Numbered →
      (s.step x).coalescer.Numbered := fun s x h => numbered_step h x
  have hnumbered : (new cdcSender waitTimeout).coalescer.Numbered :=
    DistributedCoalescer.numbered_new cdcSender waitTimeout
  have hnone : (new cdcSender waitTimeout).NoneStranded := by simp [NoneStranded, new]
  exact allSteps_congr_of_invariant hinvariant
    (fun _ x hnumbered h => noneStranded_step_iff hnumbered h x) hnumbered hnone

/-- The waiter is not notified when this node cancels the fetch, nor when a peer starts another. -/
theorem cancelled_and_replaced_strand :
    ¬ AllSteps step (fun s x => (s.step x).NoneStranded) (new (.new "a") 5000000000)
        [.onRemoteFetchStart "q" "b", .check "q", .cancelFetch 0 "q"] ∧
      ¬ AllSteps step (fun s x => (s.step x).NoneStranded) (new (.new "a") 5000000000)
        [.onRemoteFetchStart "q" "b", .check "q", .onRemoteFetchStart "q" "c"] := by
  decide +kernel

end Singleflight

end Conproxy
