import Conproxy.Cache.Pruning

/-!
# What a call can leave in the store

Every entry after a call is an old one or one that the call inserted, up to counters and age.
Every exact mapping after a call is an old one or maps the text that the call was given.
-/

namespace Conproxy

open Relation CacheStore

set_option autoImplicit false

variable {p : Platform}

namespace SameContent

theorem refl (e : CacheEntry) : SameContent e e := rfl

theorem trans {e e' e'' : CacheEntry} (h : SameContent e e') (h' : SameContent e' e'') :
    SameContent e e'' := by
  unfold SameContent at h h' ⊢
  rw [h', h]

theorem response {e e' : CacheEntry} (h : SameContent e e') : e'.response = e.response := by
  rw [h]

theorem contextId {e e' : CacheEntry} (h : SameContent e e') : e'.contextId = e.contextId := by
  rw [h]

end SameContent

def Retains (t t' : Table CacheEntry) : Prop :=
  ∀ h e', t'.lookup h = some e' → ∃ e, t.lookup h = some e ∧ SameContent e e'

namespace Retains

theorem refl (t : Table CacheEntry) : Retains t t := fun _ e hl => ⟨e, hl, .refl e⟩

theorem trans {t t' t'' : Table CacheEntry} (h : Retains t t') (h' : Retains t' t'') :
    Retains t t'' := by
  intro k e'' hl
  obtain ⟨e', hl', hsame'⟩ := h' k e'' hl
  obtain ⟨e, hl, hsame⟩ := h k e' hl'
  exact ⟨e, hl, hsame.trans hsame'⟩

theorem erase (t : Table CacheEntry) (h : QueryHash) : Retains t (t.erase h) := by
  intro k e hl
  by_cases hk : k = h
  · rw [hk, AList.lookup_erase] at hl
    cases hl
  · rw [AList.lookup_erase_ne hk] at hl
    exact ⟨e, hl, .refl e⟩

theorem touch {t : Table CacheEntry} {h : QueryHash} {e e' : CacheEntry}
    (hl : t.lookup h = some e) (hsame : SameContent e e') : Retains t (t.insert h e') := by
  intro k e'' hk
  by_cases hkh : k = h
  · subst hkh
    rw [AList.lookup_insert] at hk
    cases hk
    exact ⟨e, hl, hsame⟩
  · rw [AList.lookup_insert_ne hkh] at hk
    exact ⟨e'', hk, .refl e''⟩

end Retains

theorem Evict.retains {c c' : Core} (h : Evict p c c') : Retains c.entries c'.entries := by
  cases h.view with
  | cool k e hl hentries =>
    rw [hentries]
    exact .touch hl rfl
  | evict k e hl hentries =>
    rw [hentries]
    exact .erase _ k
  | rotate hentries | drop _ _ hentries =>
    rw [hentries]
    exact .refl _

theorem Shrink.retains {c c' : Core} (h : Shrink p c c') : Retains c.entries c'.entries := by
  cases h with
  | evict h => exact h.retains
  | touch hl hsame => exact .touch hl hsame
  | remove hl => exact .erase _ _
  | clear =>
    intro k e hl
    simp at hl

theorem Shrinks.retains {c c' : Core} (h : Shrinks p c c') : Retains c.entries c'.entries := by
  induction h with
  | refl => exact .refl _
  | tail _ hstep ih => exact ih.trans hstep.retains

theorem retains_s3fifoAdmit (s : CacheStore) (h : QueryHash) :
    Retains s.entries (s.s3fifoAdmit p h).entries :=
  (s3fifoAdmit_chain s h).shrinks.retains

theorem Inserted.content {i : Insertion} {s' : CacheStore} (h : Inserted p i s') {k : QueryHash}
    {e' : CacheEntry} (hl : s'.entries.lookup k = some e') :
    (k = i.hash ∧ SameContent i.entry e') ∨
      (k ≠ i.hash ∧ ∃ e, i.store.entries.lookup k = some e ∧ SameContent e e') := by
  have hkept : Retains (i.store.entries.insert i.hash i.entry) s'.entries := by
    rcases h.cases with ⟨-, -, hcore⟩ | ⟨-, stored, hstored, -, hcore⟩
    · rw [← core_entries s', hcore]
      exact .refl _
    · have hentries : stored.entries = i.store.entries.insert i.hash i.entry :=
        congrArg Core.entries hstored
      rw [← core_entries s', hcore, ← hentries]
      exact retains_s3fifoAdmit stored i.hash
  obtain ⟨e, hin, hsame⟩ := hkept k e' hl
  by_cases hk : k = i.hash
  · subst hk
    rw [AList.lookup_insert] at hin
    cases hin
    exact Or.inl ⟨rfl, hsame⟩
  · rw [AList.lookup_insert_ne hk] at hin
    exact Or.inr ⟨hk, e, hin, hsame⟩

theorem Steps.content {s s' : CacheStore} {is : List Insertion} (h : Steps p s is s')
    {k : QueryHash} {e' : CacheEntry} (hl : s'.entries.lookup k = some e') :
    (∃ i ∈ is, k = i.hash ∧ SameContent i.entry e') ∨
      ((∀ i ∈ is, k ≠ i.hash) ∧ ∃ e, s.entries.lookup k = some e ∧ SameContent e e') := by
  induction h with
  | done h => exact Or.inr ⟨by simp, h.core.retains k e' hl⟩
  | insert hbefore hins _ ih =>
    rcases ih hl with ⟨i, hi, hcontent⟩ | ⟨hrest, e, hmid, hsame⟩
    · exact Or.inl ⟨i, List.mem_cons_of_mem _ hi, hcontent⟩
    · rcases hins.content hmid with ⟨hk, hnew⟩ | ⟨hk, e₁, hstore, hsame₁⟩
      · exact Or.inl ⟨_, List.mem_cons_self, hk, hnew.trans hsame⟩
      · obtain ⟨e₀, hold, hsame₀⟩ := hbefore.core.retains k e₁ hstore
        refine Or.inr ⟨?_, e₀, hold, (hsame₀.trans hsame₁).trans hsame⟩
        intro i hi
        rcases List.mem_cons.mp hi with rfl | hi
        · exact hk
        · exact hrest i hi

/-- An entry after a call was inserted by the call, or it was there before and the call
inserts nothing under its key. -/
theorem exec_content (s : CacheStore) (call : Call) {k : QueryHash} {e' : CacheEntry}
    (hl : (exec p s call).entries.lookup k = some e') :
    (∃ i ∈ insertions p s call, k = i.hash ∧ SameContent i.entry e') ∨
      ((∀ i ∈ insertions p s call, k ≠ i.hash) ∧
        ∃ e, s.entries.lookup k = some e ∧ SameContent e e') := by
  by_cases hop : ∃ n, call.op = .setMaxMemoryBytes n
  · obtain ⟨n, hop⟩ := hop
    simp only [exec, hop] at hl
    exact Or.inr ⟨by simp [insertions, hop], e', hl, .refl e'⟩
  · exact (exec_steps s call (fun n hn => hop ⟨n, hn⟩)).content hl

/-- Every exact mapping of the second store is one of the first. -/
def Forgets (s s' : CacheStore) : Prop :=
  ∀ x m, s'.exactToNormalized.lookup x = some m → s.exactToNormalized.lookup x = some m

namespace Forgets

theorem of_eq {s s' : CacheStore} (h : s'.exactToNormalized = s.exactToNormalized) :
    Forgets s s' := by
  intro x m hx
  rwa [h] at hx

theorem refl (s : CacheStore) : Forgets s s := of_eq rfl

theorem trans {s s' s'' : CacheStore} (h : Forgets s s') (h' : Forgets s' s'') :
    Forgets s s'' :=
  fun x m hx => h x m (h' x m hx)

theorem of_erase {s s' : CacheStore} {k : QueryHash}
    (h : s'.exactToNormalized = s.exactToNormalized.erase k) : Forgets s s' := by
  intro x m hx
  rw [h] at hx
  by_cases hk : x = k
  · rw [hk, AList.lookup_erase] at hx
    cases hx
  · rwa [AList.lookup_erase_ne hk] at hx

end Forgets

theorem forgets_trackedRemove (s : CacheStore) (h : QueryHash) :
    Forgets s (s.trackedRemove p h).2 := by
  unfold trackedRemove
  cases s.entries.lookup h with
  | none => exact .refl s
  | some old =>
    cases hq : old.queryText with
    | none => exact .of_eq (by simp [forgetExact, hq])
    | some text =>
      cases hn : s.normalizedMatching with
      | false => exact .of_eq (by simp [forgetExact, hn])
      | true =>
        refine .of_erase (k := hashQueryExact p text) ?_
        simp only [forgetExact, hn, hq]

theorem Pruned.forgets {R : QueryHash → Prop} {s s' : CacheStore} (h : Pruned p R s s') :
    Forgets s s' := by
  induction h with
  | refl => exact .refl s
  | tail _ hstep ih =>
    refine ih.trans ?_
    cases hstep with
    | remove hr => exact forgets_trackedRemove _ _
    | touch _ _ _ hexact => exact .of_eq hexact
    | keep _ hexact => exact .of_eq hexact

theorem Writes.forgets {R : QueryHash → Prop} {s s' : CacheStore} {is : List Insertion}
    (h : Writes p R none s is s') : Forgets s s' := by
  refine h.invariant (Forgets s) (fun _ => True) ?_ ?_ (fun _ _ => trivial) (.refl s)
  · exact fun s₁ s₂ hp hs => hs.trans hp.forgets
  · intro i s₁ hw _ hs
    rcases hw.exact with hexact | ⟨query, htext, -⟩
    · exact hs.trans (.of_eq hexact)
    · cases htext

def MapsOnly (p : Platform) (text : String) (s s' : CacheStore) : Prop :=
  ∀ x m, s'.exactToNormalized.lookup x = some m →
    s.exactToNormalized.lookup x = some m ∨ (x = hashQueryExact p text ∧ m = hashQuery p text)

namespace MapsOnly

theorem of_forgets {text : String} {s s' : CacheStore} (h : Forgets s s') :
    MapsOnly p text s s' :=
  fun x m hx => Or.inl (h x m hx)

theorem of_insert {text : String} {s s' : CacheStore}
    (h : s'.exactToNormalized =
      s.exactToNormalized.insert (hashQueryExact p text) (hashQuery p text)) :
    MapsOnly p text s s' := by
  intro x m hx
  rw [h] at hx
  by_cases hk : x = hashQueryExact p text
  · rw [hk, AList.lookup_insert] at hx
    cases hx
    exact Or.inr ⟨hk, rfl⟩
  · rw [AList.lookup_insert_ne hk] at hx
    exact Or.inl hx

theorem trans {text : String} {s s' s'' : CacheStore} (h : MapsOnly p text s s')
    (h' : MapsOnly p text s' s'') : MapsOnly p text s s'' := by
  intro x m hx
  rcases h' x m hx with hold | hnew
  · exact h x m hold
  · exact Or.inr hnew

end MapsOnly

theorem forgets_getByHash (s : CacheStore) (h : QueryHash) : Forgets s (s.getByHash h).2 := by
  unfold getByHash
  split <;> exact .of_eq rfl

theorem mapsOnly_getWithHitType (s : CacheStore) (query : String) :
    MapsOnly p query s (s.getWithHitType p query).2 := by
  rcases getWithHitType_cases (p := p) (R := fun _ => False) s query with h | ⟨s₁, h, -, heq⟩
  · exact .of_forgets h.forgets
  · rw [heq]
    exact (MapsOnly.of_forgets h.forgets).trans (.of_insert rfl)

theorem Writes.mapsOnly {R : QueryHash → Prop} {text : String} {s s' : CacheStore}
    {is : List Insertion} (h : Writes p R (some text) s is s') : MapsOnly p text s s' := by
  refine h.invariant (MapsOnly p text s) (fun _ => True) ?_ ?_ (fun _ _ => trivial)
    (.of_forgets (.refl s))
  · exact fun s₁ s₂ hp hs => hs.trans (.of_forgets hp.forgets)
  · intro i s₁ hw _ hs
    rcases hw.exact with hexact | ⟨query, htext, -, hhash, hexact⟩
    · exact hs.trans (.of_forgets (.of_eq hexact))
    · cases htext
      rw [hhash] at hexact
      exact hs.trans (.of_insert hexact)

theorem Forgets.of_empty {s s' : CacheStore} (h : s'.exactToNormalized = ∅) : Forgets s s' := by
  intro x m hx
  rw [h, AList.lookup_empty] at hx
  cases hx

/-- A call either forgets or maps the text that it was given. -/
theorem Effect.mappings {s s' : CacheStore} {call : Call} (h : Effect p s call s') :
    Forgets s s' ∨ ∃ text, call.op.mappedText = some text ∧ MapsOnly p text s s' := by
  cases h with
  | prunes h => exact Or.inl h.forgets
  | maps hop h => exact Or.inr ⟨_, hop, (MapsOnly.of_forgets h.forgets).trans (.of_insert rfl)⟩
  | stores _ h =>
    cases hop : call.op.mappedText with
    | none =>
      rw [hop] at h
      exact Or.inl h.forgets
    | some text =>
      rw [hop] at h
      exact Or.inr ⟨text, rfl, h.mapsOnly⟩
  | @removes query =>
    exact Or.inl ((forgets_trackedRemove (p := p) s (hashQuery p query)).trans
      (.of_erase (k := hashQueryExact p query) rfl))
  | clears => exact Or.inl (.of_empty rfl)
  | drops => exact Or.inl (.of_empty rfl)
  | flushes =>
    rw [flushToPersistence, flushEntries_eq]
    exact Or.inl (.of_eq rfl)
  | configures _ hexact => exact Or.inl (.of_eq hexact)

theorem exec_forgets (s : CacheStore) (call : Call) (hop : call.op.mappedText = none) :
    Forgets s (exec p s call) := by
  rcases (exec_effect (p := p) s call).mappings with h | ⟨text, htext, -⟩
  · exact h
  · rw [hop] at htext
    cases htext

theorem exec_mapsOnly (s : CacheStore) (call : Call) {text : String}
    (hop : call.op.mappedText = some text) : MapsOnly p text s (exec p s call) := by
  rcases (exec_effect (p := p) s call).mappings with h | ⟨text', htext, h⟩
  · exact .of_forgets h
  · rw [hop] at htext
    cases htext
    exact h

end Conproxy
