import Conproxy.Lib.Machine
import Conproxy.Lib.Recency
import Conproxy.BestEffort
import Conproxy.Server.Query

/-!
# The content of the semantic tier

`SemanticCache` with its counters. The sequence numbers put the entries into the order of their
last insertion, so the eviction takes the entry that was inserted before all others, in whatever
order the map is scanned.
-/

namespace Conproxy

open Machine Recency

set_option autoImplicit false

namespace F32

/-- A threshold between zero and one is not reached by `NEG_INFINITY`. -/
theorem not_ge_clampUnit (threshold : F32) : ge (infinite true) threshold.clampUnit = false := by
  unfold clampUnit
  split
  · decide
  · split
    · decide
    · rename_i hzero hone
      cases threshold with
      | finite q => rfl
      | nan => rfl
      | infinite negative => cases negative <;> contradiction

end F32

/-- The order in which `evict_lru_one` scans the map. -/
structure VictimScan where
  order : List (QueryHash × Nat) → List (QueryHash × Nat)
  perm : ∀ l, (order l).Perm l

structure SemanticTier where
  cache : SemanticCache
  hits : Nat
  misses : Nat
  evictions : Nat

structure SemanticInsert where
  scan : VictimScan
  hash : QueryHash
  embedding : Embedding

namespace SemanticTier

def new (threshold : F32) (maxEntries : Nat) : SemanticTier :=
  ⟨.new threshold maxEntries, 0, 0, 0⟩

def evictLruOne (scan : VictimScan) (t : SemanticTier) : SemanticTier :=
  match SemanticCache.oldest
      (scan.order (t.cache.embeddings.entries.map fun e => (e.1, e.2.1))) with
  | some (key, _) =>
    { t with
      cache := { t.cache with embeddings := t.cache.embeddings.erase key }
      evictions := t.evictions + 1 }
  | none => t

/-- The new entry with the next sequence number. -/
def put (t : SemanticTier) (hash : QueryHash) (embedding : Embedding) : SemanticTier :=
  { t with
    cache := { t.cache with
      sequence := t.cache.sequence + 1
      embeddings := t.cache.embeddings.insert hash (t.cache.sequence, embedding) } }

def insert (t : SemanticTier) (scan : VictimScan) (hash : QueryHash) (embedding : Embedding) :
    SemanticTier :=
  if t.cache.maxEntries = 0 then t
  else
    let t := t.put hash embedding
    if t.cache.maxEntries < t.cache.embeddings.keys.length then t.evictLruOne scan else t

def lookup (p : Platform) (scan : TierScan) (t : SemanticTier) (query : Embedding) :
    Option QueryHash × SemanticTier :=
  let missed := { t with misses := t.misses + 1 }
  if t.cache.embeddings.entries.isEmpty then (none, missed)
  else
    let entries := t.cache.iter scan
    let best := SemanticCache.best p query entries (.infinite true, none)
    let dimMismatch := entries.any fun e => e.2.length ≠ query.length
    if dimMismatch && best.2.isNone then (none, missed)
    else if F32.ge best.1 t.cache.threshold then (best.2, { t with hits := t.hits + 1 })
    else (none, missed)

def step (t : SemanticTier) (i : SemanticInsert) : SemanticTier :=
  t.insert i.scan i.hash i.embedding

def stored (t : SemanticTier) (hash : QueryHash) : Option Embedding :=
  (t.cache.embeddings.lookup hash).map Prod.snd

end SemanticTier

/-- The inserted hashes with their embeddings, the last one first. -/
def insertHistory (inserts : List SemanticInsert) : List (QueryHash × Embedding) :=
  (inserts.map fun i => (i.hash, i.embedding)).reverse

namespace SemanticTier

/-- A lookup finds something exactly if a stored embedding of the same dimension reaches the
threshold, and then an embedding to which none of this dimension is more similar. -/
structure FindsBest (p : Platform) (t : SemanticTier) (scan : TierScan) (query : Embedding) :
    Prop where
  found : (t.lookup p scan query).1.isSome = true ↔
    ∃ h e, t.stored h = some e ∧ e.length = query.length ∧
      F32.ge (p.cosineSimilarity query e) t.cache.threshold = true
  best : ∀ h, (t.lookup p scan query).1 = some h → ∃ e, t.stored h = some e ∧
    e.length = query.length ∧ F32.ge (p.cosineSimilarity query e) t.cache.threshold = true ∧
      ∀ h' e', t.stored h' = some e' → e'.length = query.length →
        F32.lt (p.cosineSimilarity query e) (p.cosineSimilarity query e') = false

/-- The entries are the most recent ones in order, by their sequence numbers. -/
structure Holds (t : SemanticTier) (history : List (QueryHash × Embedding)) : Prop where
  content : t.cache.embeddings.entries.map (fun x => (x.1, x.2.2)) =
    recent Prod.fst t.cache.maxEntries history
  ordered : t.cache.embeddings.entries.Pairwise fun a b => b.2.1 < a.2.1
  fresh : ∀ x ∈ t.cache.embeddings.entries, x.2.1 < t.cache.sequence
  evictions : t.evictions = (dropped Prod.fst t.cache.maxEntries history).length

variable {t : SemanticTier} {history : List (QueryHash × Embedding)}

theorem mem_of_oldest {l : List (QueryHash × Nat)} {o : QueryHash × Nat}
    (h : SemanticCache.oldest l = some o) : o ∈ l := by
  induction l generalizing o with
  | nil => cases h
  | cons e rest ih =>
    unfold SemanticCache.oldest at h
    cases hrest : SemanticCache.oldest rest with
    | none =>
      rw [hrest] at h
      rw [← Option.some.inj h]
      exact List.mem_cons_self
    | some o' =>
      rw [hrest] at h
      dsimp only at h
      split at h
      · rw [← Option.some.inj h]
        exact List.mem_cons_of_mem _ (ih hrest)
      · rw [← Option.some.inj h]
        exact List.mem_cons_self

theorem oldest_eq_some {l : List (QueryHash × Nat)} {z : QueryHash × Nat} (hz : z ∈ l)
    (hleast : ∀ y ∈ l, y ≠ z → z.2 < y.2) : SemanticCache.oldest l = some z := by
  induction l with
  | nil => cases hz
  | cons e rest ih =>
    unfold SemanticCache.oldest
    by_cases hmem : z ∈ rest
    · rw [ih hmem fun y hy => hleast y (List.mem_cons_of_mem _ hy)]
      dsimp only
      by_cases heq : e = z
      · rw [heq, if_neg (Nat.lt_irrefl _)]
      · rw [if_pos (hleast e List.mem_cons_self heq)]
    · obtain rfl : z = e := (List.mem_cons.1 hz).resolve_right hmem
      cases hrest : SemanticCache.oldest rest with
      | none => rfl
      | some o =>
        have ho := mem_of_oldest hrest
        have hlt := hleast o (List.mem_cons_of_mem _ ho) fun heq => hmem (heq ▸ ho)
        dsimp only
        rw [if_neg (Nat.not_lt.2 hlt.le)]

theorem oldest_of_ordered {front : List (Sigma fun _ : QueryHash => Nat × Embedding)}
    {z : Sigma fun _ : QueryHash => Nat × Embedding} {l : List (QueryHash × Nat)}
    (hordered : (front ++ [z]).Pairwise fun a b => b.2.1 < a.2.1)
    (hperm : l.Perm ((front ++ [z]).map fun e => (e.1, e.2.1))) :
    SemanticCache.oldest l = some (z.1, z.2.1) := by
  refine oldest_eq_some (hperm.mem_iff.2 (by simp)) fun y hy hne => ?_
  obtain ⟨x, hx, rfl⟩ := List.mem_map.1 (hperm.mem_iff.1 hy)
  rcases List.mem_append.1 hx with hfront | hlast
  · exact (List.pairwise_append.1 hordered).2.2 x hfront z (List.mem_singleton.2 rfl)
  · exact absurd (by rw [List.mem_singleton.1 hlast]) hne

theorem erase_last {embeddings : AList fun _ : QueryHash => Nat × Embedding}
    {front : List (Sigma fun _ : QueryHash => Nat × Embedding)}
    {z : Sigma fun _ : QueryHash => Nat × Embedding} (h : embeddings.entries = front ++ [z]) :
    (embeddings.erase z.1).entries = front := by
  have hnodup := embeddings.nodupKeys
  rw [h, List.NodupKeys, List.keys, List.map_append, List.nodup_append'] at hnodup
  have hz : z.1 ∉ front.keys := fun hmem => hnodup.2.2 hmem (by simp)
  change List.kerase z.1 embeddings.entries = front
  rw [h, List.kerase_append_right hz, List.kerase_cons_eq rfl, List.append_nil]

theorem evictLruOne_of_ordered (scan : VictimScan)
    {front : List (Sigma fun _ : QueryHash => Nat × Embedding)}
    {z : Sigma fun _ : QueryHash => Nat × Embedding}
    (hordered : t.cache.embeddings.entries.Pairwise fun a b => b.2.1 < a.2.1)
    (h : t.cache.embeddings.entries = front ++ [z]) :
    t.evictLruOne scan =
      { t with
        cache := { t.cache with embeddings := t.cache.embeddings.erase z.1 }
        evictions := t.evictions + 1 } := by
  have hperm := scan.perm (t.cache.embeddings.entries.map fun e => (e.1, e.2.1))
  rw [h] at hordered
  rw [evictLruOne, oldest_of_ordered hordered (h ▸ hperm)]

theorem map_kerase {entries : List (Sigma fun _ : QueryHash => Nat × Embedding)}
    (hnodup : entries.NodupKeys) (h : QueryHash) :
    (entries.kerase h).map (fun x => (x.1, x.2.2)) =
      (entries.map fun x => (x.1, x.2.2)).filter fun b => b.1 ≠ h := by
  induction entries with
  | nil => rfl
  | cons x rest ih =>
    obtain ⟨hx, hrest⟩ := List.nodupKeys_cons.1 hnodup
    by_cases heq : h = x.1
    · have hall : (rest.map fun y => (y.1, y.2.2)).filter (fun b => decide (b.1 ≠ h)) =
          rest.map fun y => (y.1, y.2.2) := by
        refine List.filter_eq_self.2 fun b hb => ?_
        obtain ⟨y, hy, rfl⟩ := List.mem_map.1 hb
        rw [decide_eq_true_eq, heq]
        rintro hsame
        exact hx (hsame ▸ List.mem_map_of_mem hy)
      rw [List.kerase_cons_eq heq, List.map_cons, List.filter_cons_of_neg (by simpa using heq.symm),
        hall]
    · rw [List.kerase_cons_ne heq, List.map_cons, List.map_cons,
        List.filter_cons_of_pos (by simpa using Ne.symm heq), ih hrest]

theorem content_put (ht : t.Holds history) (h : QueryHash) (e : Embedding) :
    (t.put h e).cache.embeddings.entries.map (fun x => (x.1, x.2.2)) =
      (h, e) :: (recent Prod.fst t.cache.maxEntries history).filter fun b => b.1 ≠ h := by
  rw [← ht.content, ← map_kerase t.cache.embeddings.nodupKeys]
  rfl

theorem ordered_put (ht : t.Holds history) (h : QueryHash) (e : Embedding) :
    (t.put h e).cache.embeddings.entries.Pairwise fun a b => b.2.1 < a.2.1 := by
  have hsub : (t.cache.embeddings.entries.kerase h).Sublist t.cache.embeddings.entries :=
    List.kerase_sublist h _
  exact List.pairwise_cons.2 ⟨fun x hx => ht.fresh x (hsub.subset hx), ht.ordered.sublist hsub⟩

theorem fresh_put (ht : t.Holds history) (h : QueryHash) (e : Embedding) :
    ∀ x ∈ (t.put h e).cache.embeddings.entries, x.2.1 < (t.put h e).cache.sequence := by
  intro x hx
  rcases List.mem_cons.1 hx with rfl | hx
  · exact Nat.lt_succ_self _
  · exact Nat.lt_succ_of_lt (ht.fresh x ((List.kerase_sublist h _).subset hx))

theorem recent_put (ht : t.Holds history) (h : QueryHash) (e : Embedding) :
    recent Prod.fst t.cache.maxEntries ((h, e) :: history) =
      ((t.put h e).cache.embeddings.entries.map fun x => (x.1, x.2.2)).take
        t.cache.maxEntries := by
  rw [content_put ht, recent_cons]

theorem length_put_le (ht : t.Holds history) (h : QueryHash) (e : Embedding) :
    (t.put h e).cache.embeddings.entries.length ≤ t.cache.maxEntries + 1 := by
  have hlength := congrArg List.length (content_put ht h e)
  rw [List.length_map, List.length_cons] at hlength
  rw [hlength]
  exact Nat.succ_le_succ ((List.length_filter_le _ _).trans (length_recent_le _ _ history))

theorem length_dropped_put (ht : t.Holds history) (hmax : 0 < t.cache.maxEntries)
    (h : QueryHash) (e : Embedding) :
    (dropped Prod.fst t.cache.maxEntries ((h, e) :: history)).length =
      (t.put h e).cache.embeddings.entries.length - t.cache.maxEntries + t.evictions := by
  have hlength := congrArg List.length (content_put ht h e)
  rw [List.length_map, List.length_cons] at hlength
  rw [length_dropped_cons hmax, ht.evictions, hlength]

theorem Holds.put (ht : t.Holds history) (hmax : 0 < t.cache.maxEntries) {h : QueryHash}
    {e : Embedding}
    (hroom : (t.put h e).cache.embeddings.entries.length ≤ t.cache.maxEntries) :
    (t.put h e).Holds ((h, e) :: history) := by
  refine ⟨?_, ordered_put ht h e, fresh_put ht h e, ?_⟩
  · refine Eq.trans ?_ (recent_put ht h e).symm
    rw [List.take_of_length_le (by rwa [List.length_map])]
  · refine Eq.trans ?_ (length_dropped_put ht hmax h e).symm
    rw [Nat.sub_eq_zero_of_le hroom, Nat.zero_add]
    rfl

/-- The entry that is evicted is the last of the most recent ones. -/
theorem Holds.evicted (ht : t.Holds history) (hmax : 0 < t.cache.maxEntries) (scan : VictimScan)
    {h : QueryHash} {e : Embedding}
    (hfull : t.cache.maxEntries < (t.put h e).cache.embeddings.entries.length) :
    ((t.put h e).evictLruOne scan).Holds ((h, e) :: history) := by
  have hordered := ordered_put ht h e
  have hfresh := fresh_put ht h e
  have hrecent := recent_put ht h e
  have hdropped := length_dropped_put ht hmax h e
  have hle := length_put_le ht h e
  obtain ⟨front, z, hentries⟩ := (List.eq_nil_or_concat' _).resolve_left
    (List.ne_nil_of_length_pos (Nat.zero_lt_of_lt hfull))
  have hfront := erase_last hentries
  rw [evictLruOne_of_ordered scan hordered hentries]
  rw [hentries] at hrecent hordered hfresh hdropped hle hfull
  rw [List.length_append, List.length_singleton] at hdropped hle hfull
  have hlast : front.length = t.cache.maxEntries := by omega
  rw [List.map_append, List.take_left' (by rw [List.length_map, hlast])] at hrecent
  refine ⟨?_, ?_, ?_, ?_⟩
  · dsimp only
    rw [hfront]
    exact hrecent.symm
  · dsimp only
    rw [hfront]
    exact (List.pairwise_append.1 hordered).1
  · dsimp only
    rw [hfront]
    exact fun x hx => hfresh x (List.mem_append_left _ hx)
  · refine Eq.trans ?_ hdropped.symm
    rw [hlast, Nat.add_sub_cancel_left, Nat.add_comm]
    rfl

/-- The newest entry goes in front, and the last one is evicted if there are too many. -/
theorem Holds.insert (ht : t.Holds history) (scan : VictimScan) (h : QueryHash) (e : Embedding) :
    (t.insert scan h e).Holds ((h, e) :: history) := by
  unfold SemanticTier.insert
  by_cases hzero : t.cache.maxEntries = 0
  · rw [if_pos hzero]
    refine ⟨?_, ht.ordered, ht.fresh, ?_⟩
    · rw [ht.content, hzero]
      rfl
    · rw [ht.evictions, hzero]
      rfl
  have hmax := Nat.pos_of_ne_zero hzero
  have hkeys : (t.put h e).cache.embeddings.keys.length =
      (t.put h e).cache.embeddings.entries.length := List.length_map _
  rw [if_neg hzero]
  dsimp only
  rw [hkeys]
  split
  · rename_i hfull
    exact ht.evicted hmax scan hfull
  · rename_i hroom
    exact ht.put hmax (Nat.not_lt.1 hroom)

/-- Without the counters this is the insertion of the cache, so the order of the scan is of no
account. -/
theorem cache_insert (ht : t.Holds history) (scan : VictimScan) (h : QueryHash) (e : Embedding) :
    (t.insert scan h e).cache = t.cache.insert h e := by
  unfold SemanticTier.insert SemanticCache.insert
  by_cases hzero : t.cache.maxEntries = 0
  · rw [if_pos hzero, if_pos hzero]
  rw [if_neg hzero, if_neg hzero]
  change (if t.cache.maxEntries < (t.put h e).cache.embeddings.keys.length then _ else _ :
    SemanticTier).cache = if t.cache.maxEntries < (t.put h e).cache.embeddings.keys.length then
      (t.put h e).cache.evictLruOne else (t.put h e).cache
  split
  · rename_i hfull
    have hordered := ordered_put ht h e
    obtain ⟨front, z, hentries⟩ := (List.eq_nil_or_concat' _).resolve_left
      (List.ne_nil_of_length_pos ((Nat.zero_lt_of_lt hfull).trans_eq (List.length_map _)))
    rw [evictLruOne_of_ordered scan hordered hentries, SemanticCache.evictLruOne]
    rw [hentries] at hordered
    rw [hentries, oldest_of_ordered hordered (List.Perm.refl _)]
  · rfl

theorem holds_new (threshold : F32) (maxEntries : Nat) : (new threshold maxEntries).Holds [] where
  content := List.take_nil.symm
  ordered := .nil
  fresh := by simp [new, SemanticCache.new]
  evictions := rfl

theorem maxEntries_insert (scan : VictimScan) (h : QueryHash) (e : Embedding) :
    (t.insert scan h e).cache.maxEntries = t.cache.maxEntries ∧
      (t.insert scan h e).cache.threshold = t.cache.threshold := by
  unfold SemanticTier.insert evictLruOne
  dsimp only
  split
  · exact ⟨rfl, rfl⟩
  · split
    · split <;> exact ⟨rfl, rfl⟩
    · exact ⟨rfl, rfl⟩

theorem insertHistory_concat (inserts : List SemanticInsert) (i : SemanticInsert) :
    insertHistory (inserts ++ [i]) = (i.hash, i.embedding) :: insertHistory inserts := by
  rw [insertHistory, List.map_append, List.reverse_append]
  rfl

theorem holds_run (threshold : F32) (maxEntries : Nat) (inserts : List SemanticInsert) :
    (run step (new threshold maxEntries) inserts).Holds (insertHistory inserts) ∧
      (run step (new threshold maxEntries) inserts).cache.maxEntries = maxEntries ∧
      (run step (new threshold maxEntries) inserts).cache.threshold = threshold.clampUnit := by
  induction inserts using List.reverseRecOn with
  | nil => exact ⟨holds_new threshold maxEntries, rfl, rfl⟩
  | append_singleton inserts i ih =>
    obtain ⟨hholds, hmax, hthreshold⟩ := ih
    have hsettings := maxEntries_insert
      (t := run step (new threshold maxEntries) inserts) i.scan i.hash i.embedding
    rw [run_append, insertHistory_concat]
    exact ⟨hholds.insert i.scan i.hash i.embedding, hsettings.1.trans hmax,
      hsettings.2.trans hthreshold⟩

variable {p : Platform} {query : Embedding}

/-- What a scan ends with. -/
structure IsBest (p : Platform) (query : Embedding) (l : List (QueryHash × Embedding))
    (acc found : F32 × Option QueryHash) : Prop where
  source : found = acc ∨ ∃ x ∈ l, x.2.length = query.length ∧
    found = (p.cosineSimilarity query x.2, some x.1)
  rises : acc.1 ≤ found.1
  greatest : ∀ x ∈ l, x.2.length = query.length →
    ¬ found.1 < p.cosineSimilarity query x.2

theorem isBest_best (l : List (QueryHash × Embedding)) (acc : F32 × Option QueryHash) :
    IsBest p query l acc (SemanticCache.best p query l acc) := by
  induction l generalizing acc with
  | nil => exact ⟨.inl rfl, le_rfl, fun x hx => absurd hx List.not_mem_nil⟩
  | cons x rest ih =>
    unfold SemanticCache.best
    dsimp only
    by_cases hlength : x.2.length = query.length
    · rw [if_neg (not_not_intro hlength)]
      by_cases hbetter : F32.lt acc.1 (p.cosineSimilarity query x.2) = true
      · rw [if_pos hbetter]
        obtain ⟨hsource, hrises, hgreatest⟩ := ih (p.cosineSimilarity query x.2, some x.1)
        refine ⟨.inr ?_, (show acc.1 < _ from hbetter).le.trans hrises, fun y hy hy' => ?_⟩
        · rcases hsource with heq | ⟨y, hy, hy', heq⟩
          · exact ⟨x, List.mem_cons_self, hlength, heq⟩
          · exact ⟨y, List.mem_cons_of_mem _ hy, hy', heq⟩
        · rcases List.mem_cons.1 hy with rfl | hy
          · exact not_lt_of_ge hrises
          · exact hgreatest y hy hy'
      · rw [if_neg hbetter]
        obtain ⟨hsource, hrises, hgreatest⟩ := ih acc
        refine ⟨?_, hrises, fun y hy hy' hlt => ?_⟩
        · rcases hsource with heq | ⟨y, hy, hy', heq⟩
          · exact .inl heq
          · exact .inr ⟨y, List.mem_cons_of_mem _ hy, hy', heq⟩
        · rcases List.mem_cons.1 hy with rfl | hy
          · exact hbetter (hrises.trans_lt hlt)
          · exact hgreatest y hy hy' hlt
    · -- An embedding of another dimension is passed over.
      rw [if_pos hlength]
      obtain ⟨hsource, hrises, hgreatest⟩ := ih acc
      refine ⟨?_, hrises, fun y hy hy' => ?_⟩
      · rcases hsource with heq | ⟨y, hy, hy', heq⟩
        · exact .inl heq
        · exact .inr ⟨y, List.mem_cons_of_mem _ hy, hy', heq⟩
      · rcases List.mem_cons.1 hy with rfl | hy
        · exact absurd hy' hlength
        · exact hgreatest y hy hy'

theorem mem_iter_iff (scan : TierScan) {h : QueryHash} {e : Embedding} :
    (h, e) ∈ t.cache.iter scan ↔ t.stored h = some e := by
  rw [SemanticCache.iter, (scan.perm _).mem_iff, List.mem_map, stored, Option.map_eq_some_iff]
  constructor
  · rintro ⟨x, hx, heq⟩
    obtain ⟨rfl, rfl⟩ := Prod.mk.inj heq
    exact ⟨x.2, AList.mem_lookup_iff.2 hx, rfl⟩
  · rintro ⟨entry, hentry, rfl⟩
    exact ⟨⟨h, entry⟩, AList.mem_lookup_iff.1 hentry, rfl⟩

theorem fst_lookup (scan : TierScan) (query : Embedding) :
    (t.lookup p scan query).1 = t.cache.lookup p (t.cache.iter scan) query := by
  unfold SemanticTier.lookup SemanticCache.lookup
  dsimp only
  by_cases hempty : t.cache.embeddings.entries.isEmpty = true
  · have hiter : t.cache.iter scan = [] := by
      have hperm := scan.perm (t.cache.embeddings.entries.map fun e => (e.1, e.2.2))
      rw [List.isEmpty_iff.1 hempty] at hperm
      rw [SemanticCache.iter, List.isEmpty_iff.1 hempty]
      exact hperm.eq_nil
    rw [if_pos hempty, hiter]
    exact (ite_self none).symm
  · rw [if_neg hempty]
    split
    · rename_i hmismatch
      rw [Bool.and_eq_true, Option.isNone_iff_eq_none] at hmismatch
      rw [hmismatch.2, ite_self]
    · split <;> rfl

/-- The best match is returned if it reaches the threshold, and nothing else can. -/
theorem findsBest {threshold : F32} (hthreshold : t.cache.threshold = threshold.clampUnit)
    (p : Platform) (scan : TierScan) (query : Embedding) : t.FindsBest p scan query := by
  have hbest : IsBest p query (t.cache.iter scan) (.infinite true, none) _ := isBest_best _ _
  have hlookup := fst_lookup (t := t) (p := p) scan query
  rw [SemanticCache.lookup] at hlookup
  generalize SemanticCache.best p query (t.cache.iter scan) (.infinite true, none) = found
    at hbest hlookup
  -- What reaches the threshold is a match.
  have hsource (hge : F32.ge found.1 t.cache.threshold = true) :
      ∃ x ∈ t.cache.iter scan, x.2.length = query.length ∧
        found = (p.cosineSimilarity query x.2, some x.1) := by
    refine hbest.source.resolve_left fun heq => ?_
    rw [heq, hthreshold, F32.not_ge_clampUnit] at hge
    cases hge
  refine ⟨⟨fun hsome => ?_, ?_⟩, fun h hfound => ?_⟩
  · rw [hlookup] at hsome
    split at hsome
    · rename_i hge
      obtain ⟨x, hx, hlength, heq⟩ := hsource hge
      rw [heq] at hge
      exact ⟨x.1, x.2, (mem_iter_iff scan).1 hx, hlength, hge⟩
    · cases hsome
  · rintro ⟨h, e, hstored, hlength, hge⟩
    obtain ⟨hle, hnumber⟩ := F32.ge_iff.1 hge
    have hgreatest := hbest.greatest (h, e) ((mem_iter_iff scan).2 hstored) hlength
    have hfound : F32.ge found.1 t.cache.threshold = true :=
      F32.ge_iff.2 ⟨hle.trans (F32.le_of_not_lt (F32.ne_nan_of_le hbest.rises nofun)
        (F32.ne_nan_of_le hle hnumber) hgreatest), hnumber⟩
    obtain ⟨x, -, -, heq⟩ := hsource hfound
    rw [hlookup, if_pos hfound, heq]
    rfl
  · rw [hlookup] at hfound
    split at hfound
    · rename_i hge
      obtain ⟨x, hx, hlength, heq⟩ := hsource hge
      have hgreatest := hbest.greatest
      rw [heq] at hge hfound hgreatest
      obtain rfl : x.1 = h := Option.some.inj hfound
      refine ⟨x.2, (mem_iter_iff scan).1 hx, hlength, hge, fun h' e' hstored hlength' => ?_⟩
      exact Bool.eq_false_of_not_eq_true
        (hgreatest (h', e') ((mem_iter_iff scan).2 hstored) hlength')
    · cases hfound

/-- After any insertions the tier holds the most recent hashes with their last embeddings and has
counted those that it dropped; a lookup finds the best match that reaches the threshold. -/
theorem semantic_tier_content (p : Platform) (threshold : F32) (maxEntries : Nat)
    (inserts : List SemanticInsert) :
    (∀ h e, (run step (new threshold maxEntries) inserts).stored h = some e ↔
        (h, e) ∈ recent Prod.fst maxEntries (insertHistory inserts)) ∧
      (run step (new threshold maxEntries) inserts).evictions =
        (dropped Prod.fst maxEntries (insertHistory inserts)).length ∧
      ∀ scan query, (run step (new threshold maxEntries) inserts).FindsBest p scan query := by
  obtain ⟨hholds, hmax, hthreshold⟩ := holds_run threshold maxEntries inserts
  have hcontent := hholds.content
  have hevictions := hholds.evictions
  rw [hmax] at hcontent hevictions
  refine ⟨fun h e => ?_, hevictions, findsBest hthreshold p⟩
  rw [← hcontent, ← mem_iter_iff TierScan.stored]
  rfl

end SemanticTier

end Conproxy
