import Conproxy.Lib.Machine
import Conproxy.Sample
import Conproxy.Cache.Contents
import Conproxy.Cache.Keys

/-!
# The exact mappings

With normalized matching a lookup tries `exact_to_normalized` before it normalizes the text. The
table never changes which entry is found, because every mapping of it was written for the text
that it maps. It is not always cleaned up: the removal of an entry knows only the text that the
entry was stored with, and a mapping of another spelling of it stays behind.
-/

namespace Conproxy

open Relation CacheStore

set_option autoImplicit false

variable {p : Platform}

/-- A lookup of a key changes the counters, the exact mapping and the frequency of entries. -/
structure Touched (s s' : CacheStore) : Prop where
  sender : s'.cdcSender = s.cdcSender
  queues : s'.s3fifo = s.s3fifo
  memory : s'.maxMemoryBytes = s.maxMemoryBytes
  upstream : s'.perUpstreamLimit = s.perUpstreamLimit
  lookup : ∀ k, (s'.entries.lookup k).map (fun e => withFreq e 0) =
    (s.entries.lookup k).map (fun e => withFreq e 0)

theorem Touched.refl (s : CacheStore) : Touched s s := ⟨rfl, rfl, rfl, rfl, fun _ => rfl⟩

theorem Touched.trans {s s' s'' : CacheStore} (h : Touched s s') (h' : Touched s' s'') :
    Touched s s'' :=
  ⟨h'.sender.trans h.sender, h'.queues.trans h.queues, h'.memory.trans h.memory,
    h'.upstream.trans h.upstream, fun k => (h'.lookup k).trans (h.lookup k)⟩

theorem touched_getByHash (s : CacheStore) (h : QueryHash) : Touched s (s.getByHash h).2 := by
  unfold getByHash
  cases hl : s.entries.lookup h with
  | none => exact .refl s
  | some e =>
    refine ⟨rfl, rfl, rfl, rfl, ?_⟩
    intro k
    by_cases hk : k = h
    · subst hk
      simp [bumpFreq, hl, withFreq]
    · simp [bumpFreq, AList.lookup_insert_ne hk]

theorem touched_getMapped (s : CacheStore) (exact : QueryHash) :
    Touched s (s.getMapped exact).2 := by
  unfold getMapped
  split
  · exact touched_getByHash s _
  · exact .refl s

theorem touched_get (s : CacheStore) (query : String) : Touched s (s.get p query).2 := by
  have hnorm (s' : CacheStore) := touched_getByHash s' (hashQuery p query)
  simp only [CacheStore.get, getWithHitType]
  split
  · have h := hnorm s
    rcases hr : s.getByHash (hashQuery p query) with ⟨_ | e, s'⟩
    · rw [hr] at h
      exact h
    · rw [hr] at h
      exact h.trans ⟨rfl, rfl, rfl, rfl, fun _ => rfl⟩
  · have htier := touched_getMapped s (hashQueryExact p query)
    rcases hr : s.getMapped (hashQueryExact p query) with ⟨_ | e, s'⟩
    · rw [hr] at htier
      have h := htier.trans (hnorm s')
      rcases hr' : s'.getByHash (hashQuery p query) with ⟨_ | e, s''⟩
      · rw [hr'] at h
        simpa only [hr'] using h
      · rw [hr'] at h
        have hcount : Touched s'' (s''.countNormalizedHit (hashQueryExact p query)
          (hashQuery p query)) := ⟨rfl, rfl, rfl, rfl, fun _ => rfl⟩
        simpa only [hr'] using h.trans hcount
    · rw [hr] at htier
      exact htier.trans ⟨rfl, rfl, rfl, rfl, fun _ => rfl⟩

variable (p) in
/-- The exact mapping of the key, if there is one, leads to its own hash. -/
def MapsToItself (key : String) (s : CacheStore) : Prop :=
  ∀ m ∈ s.exactToNormalized.lookup (hashQueryExact p key), m = hashQuery p key

theorem getMapped_of_maps {s : CacheStore} {key : String} (hs : MapsToItself p key s) :
    s.getMapped (hashQueryExact p key) = (none, s) ∨
      s.getMapped (hashQueryExact p key) = s.getByHash (hashQuery p key) := by
  unfold getMapped
  cases hm : s.exactToNormalized.lookup (hashQueryExact p key) with
  | none => exact Or.inl rfl
  | some m =>
    rw [hs m hm]
    exact Or.inr rfl

theorem get_of_maps {s : CacheStore} {key : String} (hs : MapsToItself p key s) :
    (s.get p key).1 = s.entries.lookup (hashQuery p key) ∧
      MapsToItself p key (s.get p key).2 := by
  have hmapped := getMapped_of_maps hs
  simp only [CacheStore.get, getWithHitType]
  cases hl : s.entries.lookup (hashQuery p key) with
  | none =>
    rw [getByHash_of_none hl, or_self] at hmapped
    rw [hmapped, getByHash_of_none hl]
    split
    · exact ⟨rfl, hs⟩
    · simp only [getByHash_of_none hl]
      exact ⟨rfl, hs⟩
  | some e =>
    rw [getByHash_of_lookup hl] at hmapped ⊢
    split
    · exact ⟨rfl, hs⟩
    · rcases hmapped with hmapped | hmapped
      · rw [hmapped]
        simp only [getByHash_of_lookup hl]
        refine ⟨rfl, ?_⟩
        intro m hm
        simpa [countNormalizedHit] using hm.symm
      · rw [hmapped]
        exact ⟨rfl, hs⟩

/-- Every exact mapping was written for one of the texts. -/
def Recorded (p : Platform) (texts : List String) (s : CacheStore) : Prop :=
  ∀ x m, s.exactToNormalized.lookup x = some m →
    ∃ text ∈ texts, x = hashQueryExact p text ∧ m = hashQuery p text

/-- The texts that the calls of a run may map. -/
def mappedTexts (calls : List Call) : List String := calls.filterMap fun c => c.op.mappedText

theorem Recorded.exec {texts : List String} {s : CacheStore} (hs : Recorded p texts s)
    (call : Call) : Recorded p (texts ++ call.op.mappedText.toList) (exec p s call) := by
  intro x m hx
  cases hop : call.op.mappedText with
  | none =>
    obtain ⟨text, htext, hmap⟩ := hs x m (exec_forgets s call hop x m hx)
    exact ⟨text, List.mem_append_left _ htext, hmap⟩
  | some text =>
    rcases exec_mapsOnly s call hop x m hx with hold | hnew
    · obtain ⟨text', htext, hmap⟩ := hs x m hold
      exact ⟨text', List.mem_append_left _ htext, hmap⟩
    · exact ⟨text, by simp, hnew⟩

theorem Recorded.run {texts : List String} {s : CacheStore} (hs : Recorded p texts s)
    (calls : List Call) :
    Recorded p (texts ++ mappedTexts calls) (Machine.run (Conproxy.exec p) s calls) := by
  induction calls generalizing texts s with
  | nil => simpa [mappedTexts] using hs
  | cons call rest ih =>
    have hrest := ih (hs.exec call)
    rw [List.append_assoc] at hrest
    have htexts : mappedTexts (call :: rest) = call.op.mappedText.toList ++ mappedTexts rest := by
      cases hop : call.op.mappedText <;> simp [mappedTexts, hop]
    rw [htexts]
    exact hrest

theorem recorded_withJitter (freshDuration staleDuration : Duration) (maxEntries : Nat)
    (ttlJitterPercent : ℚ) :
    Recorded p [] (withJitter freshDuration staleDuration maxEntries ttlJitterPercent) := by
  intro x m hx
  simp [withJitter] at hx

theorem Recorded.mapsToItself {texts : List String} {s : CacheStore} (hs : Recorded p texts s)
    {query : String}
    (hfree : ∀ text ∈ texts, hashQueryExact p text = hashQueryExact p query → text = query) :
    MapsToItself p query s := by
  intro m hm
  obtain ⟨text, htext, hx, rfl⟩ := hs _ m hm
  rw [hfree text htext hx.symm]

/-- In every state of every run, both lookups find what a direct lookup of the normalized hash
finds, as long as no text that the run has mapped collides with the query. -/
theorem two_tier_agrees (p : Platform) (freshDuration staleDuration : Duration)
    (maxEntries : Nat) (ttlJitterPercent : ℚ) (calls : List Call) (query : String)
    (hfree : ∀ text ∈ mappedTexts calls,
      hashQueryExact p text = hashQueryExact p query → text = query) :
    let s := Machine.run (exec p)
      (withJitter freshDuration staleDuration maxEntries ttlJitterPercent) calls
    (s.get p query).1 = s.entries.lookup (hashQuery p query) ∧
      (s.getWithHitType p query).1.map Prod.fst = s.entries.lookup (hashQuery p query) := by
  intro s
  have hrecorded := (recorded_withJitter (p := p) freshDuration staleDuration maxEntries
    ttlJitterPercent).run calls
  have hget := (get_of_maps (hrecorded.mapsToItself hfree)).1
  exact ⟨hget, hget⟩

def secondSpelling : List Call :=
  [callNow (.withNormalizedMatching true), callNow (.insert "q" (textResponse "a") "u"),
    callNow (.get "Q")]

/-- The second lookup of `Q` goes through the mapping that the first one has written. -/
theorem second_spelling_found :
    ((Machine.run (exec Platform.sample) (withJitter 1 1 1 0) secondSpelling).get
      Platform.sample "Q").1.map CacheEntry.queryText = some (some "q") := by
  rw [(two_tier_agrees Platform.sample 1 1 1 0 secondSpelling "Q" (by decide)).1]
  decide +kernel

/-- Every mapping leads to a resident entry. -/
def NoLeak (s : CacheStore) : Prop :=
  ∀ x m, s.exactToNormalized.lookup x = some m → m ∈ s.entries

/-- The text that the first hash was mapped for is the one that the entry was stored with. -/
def OwnSpelling (p : Platform) (s : CacheStore) (x m : QueryHash) : Prop :=
  ∃ e, s.entries.lookup m = some e ∧ e.queryText.map (hashQueryExact p) = some x

/-- Nothing leaks, and what may be removed is mapped only in its own spelling. -/
structure Kept (p : Platform) (R : QueryHash → Prop) (s : CacheStore) : Prop where
  on : s.normalizedMatching = true
  resident : NoLeak s
  own : ∀ x m, s.exactToNormalized.lookup x = some m → R m → OwnSpelling p s x m

variable {R : QueryHash → Prop}

theorem exact_trackedRemove {s : CacheStore} (hon : s.normalizedMatching = true) {h x m : QueryHash}
    {e : CacheEntry} (hl : s.entries.lookup h = some e)
    (hx : (s.trackedRemove p h).2.exactToNormalized.lookup x = some m) :
    s.exactToNormalized.lookup x = some m ∧ e.queryText.map (hashQueryExact p) ≠ some x := by
  simp only [trackedRemove, hl, forgetExact, hon] at hx
  cases hq : e.queryText with
  | none =>
    rw [hq] at hx
    exact ⟨hx, by simp⟩
  | some text =>
    rw [hq] at hx
    by_cases hxt : x = hashQueryExact p text
    · rw [hxt, AList.lookup_erase] at hx
      cases hx
    · rw [AList.lookup_erase_ne hxt] at hx
      exact ⟨hx, by simpa using Ne.symm hxt⟩

theorem Kept.trackedRemove {s : CacheStore} (hs : Kept p R s) {h : QueryHash} (hr : R h) :
    Kept p R (s.trackedRemove p h).2 := by
  cases hl : s.entries.lookup h with
  | none =>
    rw [trackedRemove_of_notMem (AList.lookup_eq_none.mp hl)]
    exact hs
  | some e =>
    -- a mapping that survives leads elsewhere: one to `h` would be of the text that is erased
    have hother (x m : QueryHash)
        (hx : (s.trackedRemove p h).2.exactToNormalized.lookup x = some m) :
        s.exactToNormalized.lookup x = some m ∧ m ≠ h := by
      obtain ⟨hold, hne⟩ := exact_trackedRemove hs.on hl hx
      refine ⟨hold, ?_⟩
      rintro rfl
      obtain ⟨e', hl', hown⟩ := hs.own x m hold hr
      rw [hl] at hl'
      cases hl'
      exact hne hown
    refine ⟨?_, ?_, ?_⟩
    · simp only [CacheStore.trackedRemove, hl]
      exact hs.on
    · intro x m hx
      obtain ⟨hold, hm⟩ := hother x m hx
      rw [mem_trackedRemove]
      exact ⟨hs.resident x m hold, hm⟩
    · intro x m hx hrm
      obtain ⟨hold, hm⟩ := hother x m hx
      obtain ⟨e', hl', hown⟩ := hs.own x m hold hrm
      refine ⟨e', ?_, hown⟩
      rwa [lookup_trackedRemove s hm]

theorem Kept.prune {s s' : CacheStore} (hs : Kept p R s) (h : Prune p R s s') : Kept p R s' := by
  have hon : s'.normalizedMatching = true :=
    (congrArg CacheStore.normalizedMatching h.settings_eq).trans hs.on
  cases h with
  | remove hr => exact hs.trackedRemove hr
  | keep hentries hexact =>
    refine ⟨hon, fun x m hx => ?_, fun x m hx hr => ?_⟩
    · rw [hexact] at hx
      rw [hentries]
      exact hs.resident x m hx
    · rw [hexact] at hx
      rw [OwnSpelling, hentries]
      exact hs.own x m hx hr
  | @touch _ h e e' hl hentries hsame hexact =>
    refine ⟨hon, fun x m hx => ?_, fun x m hx hr => ?_⟩
    · rw [hexact] at hx
      rw [hentries]
      exact (AList.mem_insert _).mpr (Or.inr (hs.resident x m hx))
    · rw [hexact] at hx
      obtain ⟨e₁, hl₁, hown⟩ := hs.own x m hx hr
      rw [OwnSpelling, hentries]
      by_cases hm : m = h
      · subst hm
        rw [hl] at hl₁
        cases hl₁
        refine ⟨e', AList.lookup_insert _, ?_⟩
        rw [hsame]
        exact hown
      · exact ⟨e₁, by rwa [AList.lookup_insert_ne hm], hown⟩

theorem Kept.pruned {s s' : CacheStore} (hs : Kept p R s) (h : Pruned p R s s') :
    Kept p R s' := by
  induction h with
  | refl => exact hs
  | tail _ hstep ih => exact ih.prune hstep

/-- No mapping leads to the key of the insertion but one of its own text. -/
def Insertion.Unmapped (p : Platform) (i : Insertion) : Prop :=
  ∀ x, i.store.exactToNormalized.lookup x = some i.hash →
    i.entry.queryText.map (hashQueryExact p) = some x

theorem Kept.written {i : Insertion} {text : Option String} {s : CacheStore}
    (h : Written p i text s) (hi : R i.hash → i.Unmapped p) (hs : Kept p R i.store) :
    Kept p R s := by
  have hnew : s.entries.lookup i.hash = some i.entry := by
    rw [h.entries, AList.lookup_insert]
  have hold {m : QueryHash} (hm : m ≠ i.hash) :
      s.entries.lookup m = i.store.entries.lookup m := by
    rw [h.entries, AList.lookup_insert_ne hm]
  -- a mapping after the write is an old one, or the new one of the text of the entry
  have hcases (x m : QueryHash) (hx : s.exactToNormalized.lookup x = some m) :
      i.store.exactToNormalized.lookup x = some m ∨ (m = i.hash ∧ OwnSpelling p s x m) := by
    rcases h.exact with hexact | ⟨query, -, htext, -, hexact⟩
    · rw [hexact] at hx
      exact Or.inl hx
    · rw [hexact] at hx
      by_cases hxq : x = hashQueryExact p query
      · rw [hxq, AList.lookup_insert] at hx
        cases hx
        exact Or.inr ⟨rfl, i.entry, hnew, by simp [htext, hxq]⟩
      · rw [AList.lookup_insert_ne hxq] at hx
        exact Or.inl hx
  refine ⟨h.matching.trans hs.on, fun x m hx => ?_, fun x m hx hr => ?_⟩
  · rw [h.entries, AList.mem_insert]
    rcases hcases x m hx with hx | ⟨hm, -⟩
    · exact Or.inr (hs.resident x m hx)
    · exact Or.inl hm
  · rcases hcases x m hx with hx | ⟨-, hown⟩
    · by_cases hm : m = i.hash
      · subst hm
        exact ⟨i.entry, hnew, hi hr x hx⟩
      · obtain ⟨e, hl, hown⟩ := hs.own x m hx hr
        exact ⟨e, by rwa [hold hm], hown⟩
    · exact hown

theorem Kept.writes {text : Option String} {s s' : CacheStore} {is : List Insertion}
    (h : Writes p R text s is s') (hi : ∀ i ∈ is, R i.hash → i.Unmapped p) (hs : Kept p R s) :
    Kept p R s' :=
  h.invariant (Kept p R) (fun i => R i.hash → i.Unmapped p)
    (fun _ _ hp hs => hs.pruned hp) (fun _ _ hw hi hs => hs.written hw hi) hi hs

/-- The text whose mapping a call erases whatever it leads to. -/
def Op.cleanedText : Op → Option String
  | .remove query => some query
  | _ => none

/-- What the call may remove is mapped only in the spelling that the removal cleans up, before
the call and where the call replaces an entry. -/
structure CleansUp (p : Platform) (s : CacheStore) (call : Call) : Prop where
  mapped : ∀ x m, s.exactToNormalized.lookup x = some m → Removable p s call m →
    OwnSpelling p s x m ∨ call.op.cleanedText.map (hashQueryExact p) = some x
  replaced : ∀ i ∈ insertions p s call, Removable p s call i.hash → i.Unmapped p
  enabled : call.op ≠ .withNormalizedMatching false

structure Unleaked (s : CacheStore) : Prop where
  on : s.normalizedMatching = true
  resident : NoLeak s

theorem Unleaked.of_tables_eq {s s' : CacheStore} (hs : Unleaked s)
    (hentries : s'.entries = s.entries) (hexact : s'.exactToNormalized = s.exactToNormalized)
    (hon : s'.normalizedMatching = s.normalizedMatching) : Unleaked s' := by
  refine ⟨hon.trans hs.on, fun x m hx => ?_⟩
  rw [hexact] at hx
  rw [hentries]
  exact hs.resident x m hx

theorem Unleaked.of_exact_empty {s : CacheStore} (hon : s.normalizedMatching = true)
    (hexact : s.exactToNormalized = ∅) : Unleaked s := by
  refine ⟨hon, fun x m hx => ?_⟩
  rw [hexact, AList.lookup_empty] at hx
  cases hx

theorem Unleaked.remove {s : CacheStore} (hs : Unleaked s) {now : Clock} {scan : Scan}
    {query : String} (hcall : CleansUp p s ⟨now, scan, .remove query⟩) :
    Unleaked (s.remove p now query) := by
  have hon : (s.trackedRemove p (hashQuery p query)).2.normalizedMatching = true := by
    unfold trackedRemove
    split <;> exact hs.on
  refine ⟨hon, fun x m hx => ?_⟩
  change ((s.trackedRemove p (hashQuery p query)).2.exactToNormalized.erase
    (hashQueryExact p query)).lookup x = some m at hx
  change m ∈ (s.trackedRemove p (hashQuery p query)).2.entries
  by_cases hxq : x = hashQueryExact p query
  · rw [hxq, AList.lookup_erase] at hx
    cases hx
  · rw [AList.lookup_erase_ne hxq] at hx
    cases hl : s.entries.lookup (hashQuery p query) with
    | none =>
      rw [trackedRemove_of_notMem (AList.lookup_eq_none.mp hl)] at hx ⊢
      exact hs.resident x m hx
    | some e =>
      obtain ⟨hold, hne⟩ := exact_trackedRemove hs.on hl hx
      rw [mem_trackedRemove]
      refine ⟨hs.resident x m hold, ?_⟩
      rintro rfl
      rcases hcall.mapped x _ hold rfl with ⟨e', hl', hown⟩ | hcleaned
      · rw [hl] at hl'
        cases hl'
        exact hne hown
      · exact hxq (Option.some.inj hcleaned).symm

theorem Kept.unleaked {s : CacheStore} (hs : Kept p R s) : Unleaked s := ⟨hs.on, hs.resident⟩

theorem Unleaked.countNormalizedHit {s : CacheStore} (hs : Unleaked s) (x : QueryHash)
    {h : QueryHash} (hmem : h ∈ s.entries) : Unleaked (s.countNormalizedHit x h) := by
  refine ⟨hs.on, fun y m hy => ?_⟩
  by_cases hyx : y = x
  · rw [hyx, CacheStore.countNormalizedHit, AList.lookup_insert] at hy
    cases hy
    exact hmem
  · rw [CacheStore.countNormalizedHit, AList.lookup_insert_ne hyx] at hy
    exact hs.resident y m hy

theorem Unleaked.effect {s s' : CacheStore} (hs : Unleaked s) {call : Call}
    (hcall : CleansUp p s call) (hop : call.op.cleanedText = none) (h : Effect p s call s') :
    Unleaked s' := by
  have hkept : Kept p (Removable p s call) s := by
    refine ⟨hs.on, hs.resident, fun x m hx hr => ?_⟩
    rcases hcall.mapped x m hx hr with hown | hcleaned
    · exact hown
    · rw [hop] at hcleaned
      cases hcleaned
  cases h with
  | prunes h => exact (hkept.pruned h).unleaked
  | maps _ h hmem => exact (hkept.pruned h).unleaked.countNormalizedHit _ hmem
  | stores _ h => exact (hkept.writes h hcall.replaced).unleaked
  | removes hremove =>
    rw [hremove] at hop
    cases hop
  | clears => exact .of_exact_empty hs.on rfl
  | drops => exact .of_exact_empty hs.on rfl
  | flushes =>
    rw [flushToPersistence, flushEntries_eq]
    exact hs.of_tables_eq rfl rfl rfl
  | configures hentries hexact hset =>
    rcases hset with hset | hset
    · exact hs.of_tables_eq hentries hexact hset
    · cases hon : s'.normalizedMatching with
      | true => exact hs.of_tables_eq hentries hexact (hon.trans hs.on.symm)
      | false =>
        rw [hon] at hset
        exact absurd hset hcall.enabled

theorem Unleaked.exec {s : CacheStore} (hs : Unleaked s) {call : Call}
    (hcall : CleansUp p s call) : Unleaked (exec p s call) := by
  have heffect := exec_effect (p := p) s call
  rcases call with ⟨now, scan, op⟩
  cases op with
  | remove query => exact hs.remove hcall
  | _ => exact hs.effect hcall rfl heffect

/-- With normalized matching on, no mapping outlives its entry in a run whose removals meet
entries that are mapped in their own spelling only. -/
theorem mappings_never_leak (p : Platform) (freshDuration staleDuration : Duration)
    (maxEntries : Nat) (ttlJitterPercent : ℚ) (calls : List Call)
    (hcalls : Machine.AllSteps (exec p) (CleansUp p)
      ((withJitter freshDuration staleDuration maxEntries ttlJitterPercent).withNormalizedMatching
        true) calls) :
    NoLeak (Machine.run (exec p)
      ((withJitter freshDuration staleDuration maxEntries ttlJitterPercent).withNormalizedMatching
        true) calls) := by
  have hnew : Unleaked ((withJitter freshDuration staleDuration maxEntries
      ttlJitterPercent).withNormalizedMatching true) := .of_exact_empty rfl rfl
  have hstep (s : CacheStore) (call : Call) (hcall : CleansUp p s call) (hs : Unleaked s) :
      Unleaked (exec p s call) := hs.exec hcall
  exact (Machine.run_invariant hstep hnew hcalls).resident

def storedAndRemoved (spelling : String) : List Call :=
  [callNow (.insert "q" (textResponse "a") "u"), callNow (.get spelling), callNow (.remove "q")]

theorem mappings_gone_after_remove :
    NoLeak (Machine.run (exec Platform.sample)
      ((withJitter 1 1 1 0).withNormalizedMatching true) (storedAndRemoved "q")) := by
  refine mappings_never_leak Platform.sample 1 1 1 0 (storedAndRemoved "q") ⟨?_, ?_, ?_, trivial⟩
  · refine ⟨fun x m hx => ?_, fun i hi _ x hx => ?_, by simp [callNow]⟩
    · simp [withNormalizedMatching, withJitter] at hx
    · obtain rfl := List.mem_singleton.mp hi
      simp [singleInsertion, makeRoomForUpstream, withNormalizedMatching, withJitter] at hx
  · exact ⟨fun x m _ hr => hr.elim, by simp [insertions, callNow], by simp [callNow]⟩
  · refine ⟨fun x m hx _ => Or.inr ?_, by simp [insertions, callNow], by simp [callNow]⟩
    have hrecorded := (recorded_withJitter (p := Platform.sample) 1 1 1 0).run
      [callNow (.withNormalizedMatching true), callNow (.insert "q" (textResponse "a") "u"),
        callNow (.get "q")]
    obtain ⟨text, htext, hmap, -⟩ := hrecorded x m hx
    have hq : ∀ text ∈ mappedTexts [callNow (.withNormalizedMatching true),
        callNow (.insert "q" (textResponse "a") "u"), callNow (.get "q")], text = "q" := by
      decide
    rw [hmap, hq text htext]
    rfl

/-- Found as `Q` and removed as `q`: the mapping of `Q` stays. -/
theorem second_spelling_leaks :
    ¬ NoLeak (Machine.run (exec Platform.sample)
      ((withJitter 1 1 1 0).withNormalizedMatching true) (storedAndRemoved "Q")) := by
  intro hleak
  have hmem := hleak (hashQueryExact Platform.sample "Q") (hashQuery Platform.sample "Q")
    (by decide +kernel)
  revert hmem
  decide +kernel

end Conproxy
