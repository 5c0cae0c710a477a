import Mathlib.Data.List.MinMax

/-!
# A register stamped on arrival

A register that receives stamped writes and removals. A write is dropped when the register
holds a value whose time is not older than the stamp; otherwise the register takes the value
with the time of its arrival, not with the stamp. A removal empties the register. Such a
register agrees with "the newest write wins" in every order of arrival only if there is nothing
to decide: all writes are removals, or all carry one value.
-/

namespace LastWrite

set_option autoImplicit false

universe u

variable {V : Type u}

structure Write (V : Type u) where
  stamp : Nat
  value : Option V

def receive (reg : Option (V × Nat)) (now : Nat) (w : Write V) : Option (V × Nat) :=
  match w.value, reg with
  | none, _ => none
  | some v, none => some (v, now)
  | some v, some (old, time) => if w.stamp ≤ time then some (old, time) else some (v, now)

def replay (reg : Option (V × Nat)) (arrivals : List (Write V × Nat)) : Option (V × Nat) :=
  arrivals.foldl (fun r a => receive r a.2 a.1) reg

def newest (ws : List (Write V)) : Option V := (ws.argmax Write.stamp).bind Write.value

def Uniform (ws : List (Write V)) : Prop :=
  (∀ w ∈ ws, w.value = none) ∨ ∃ v, ∀ w ∈ ws, w.value = some v

theorem replay_append (reg : Option (V × Nat)) (as bs : List (Write V × Nat)) :
    replay reg (as ++ bs) = replay (replay reg as) bs := List.foldl_append

theorem replay_removals {arrivals : List (Write V × Nat)}
    (h : ∀ a ∈ arrivals, a.1.value = none) : replay none arrivals = none := by
  induction arrivals with
  | nil => rfl
  | cons a rest ih =>
    have ha : receive none a.2 a.1 = none := by simp [receive, h a List.mem_cons_self]
    have hrest := ih (fun b hb => h b (List.mem_cons_of_mem _ hb))
    rw [replay, List.foldl_cons, ha]
    exact hrest

theorem replay_one_value {v : V} (reg : Option (V × Nat)) {arrivals : List (Write V × Nat)}
    (h : ∀ a ∈ arrivals, a.1.value = some v)
    (hreg : reg.map Prod.fst = some v ∨ (reg = none ∧ arrivals ≠ [])) :
    (replay reg arrivals).map Prod.fst = some v := by
  induction arrivals generalizing reg with
  | nil =>
    rcases hreg with hreg | ⟨-, hne⟩
    · exact hreg
    · exact absurd rfl hne
  | cons a rest ih =>
    have hvalue := h a List.mem_cons_self
    have hnext : (receive reg a.2 a.1).map Prod.fst = some v := by
      rcases hreg with hreg | ⟨hreg, -⟩
      · obtain ⟨⟨old, time⟩, rfl, hold⟩ := Option.map_eq_some_iff.mp hreg
        simp only [receive, hvalue]
        split
        · exact congrArg some hold
        · rfl
      · simp [receive, hvalue, hreg]
    exact ih _ (fun b hb => h b (List.mem_cons_of_mem _ hb)) (Or.inl hnext)

theorem replay_stale {v : V} {time : Nat} {arrivals : List (Write V × Nat)}
    (h : ∀ a ∈ arrivals, a.1.value ≠ none ∧ a.1.stamp ≤ time) :
    replay (some (v, time)) arrivals = some (v, time) := by
  induction arrivals with
  | nil => rfl
  | cons a rest ih =>
    obtain ⟨hvalue, hstamp⟩ := h a List.mem_cons_self
    obtain ⟨w, hw⟩ := Option.ne_none_iff_exists'.mp hvalue
    have ha : receive (some (v, time)) a.2 a.1 = some (v, time) := by
      simp [receive, hw, hstamp]
    rw [replay, List.foldl_cons, ha]
    exact ih (fun b hb => h b (List.mem_cons_of_mem _ hb))

theorem exists_perm_cons {E : Type*} {e : E} {es : List E} (h : e ∈ es) :
    ∃ rest, es.Perm (e :: rest) := by
  obtain ⟨as, bs, rfl⟩ := List.append_of_mem h
  exact ⟨as ++ bs, List.perm_middle⟩

theorem replay_newest_of_uniform {ws : List (Write V)} (h : Uniform ws)
    {arrivals : List (Write V × Nat)} (hperm : (arrivals.map Prod.fst).Perm ws) :
    (replay none arrivals).map Prod.fst = newest ws := by
  have hmem : ∀ a ∈ arrivals, a.1 ∈ ws :=
    fun a ha => hperm.mem_iff.mp (List.mem_map_of_mem ha)
  cases hmax : ws.argmax Write.stamp with
  | none =>
    have hws : ws = [] := List.argmax_eq_none.mp hmax
    rw [hws] at hperm
    obtain rfl : arrivals = [] := by simpa using hperm
    simp [newest, hws, replay]
  | some m =>
    have hm : m ∈ ws := List.argmax_mem hmax
    have hnewest : newest ws = m.value := by simp [newest, hmax]
    rw [hnewest]
    rcases h with hnone | ⟨v, hv⟩
    · rw [replay_removals (fun a ha => hnone _ (hmem a ha)), hnone m hm]
      rfl
    · rw [hv m hm]
      refine replay_one_value none (fun a ha => hv _ (hmem a ha)) (Or.inr ⟨rfl, ?_⟩)
      rintro rfl
      exact List.not_mem_nil (hperm.mem_iff.mpr hm)

/-- Sources whose writes are not uniform arrive in some order that leaves another value than
the newest, all at one time that is no earlier than the stamps. -/
theorem exists_order_not_newest {E : Type*} (f : E → Write V) {es : List E}
    (h : ¬ Uniform (es.map f)) (time : Nat) (htime : ∀ e ∈ es, (f e).stamp ≤ time) :
    ∃ order : List E, order.Perm es ∧
      (replay none (order.map fun e => (f e, time))).map Prod.fst ≠ newest (es.map f) := by
  obtain ⟨hsome, hdiffer⟩ := not_or.mp h
  push Not at hsome hdiffer
  obtain ⟨w, hwmem, hwvalue⟩ := hsome
  obtain ⟨e, he, rfl⟩ := List.mem_map.mp hwmem
  obtain ⟨v, hv⟩ := Option.ne_none_iff_exists'.mp hwvalue
  obtain ⟨m, hmax⟩ : ∃ m, (es.map f).argmax Write.stamp = some m := by
    apply Option.ne_none_iff_exists'.mp
    intro hnone
    rw [List.argmax_eq_none.mp hnone] at hwmem
    exact List.not_mem_nil hwmem
  have hnewest : newest (es.map f) = m.value := by simp [newest, hmax]
  obtain ⟨top, htop, rfl⟩ := List.mem_map.mp (List.argmax_mem hmax)
  rw [hnewest]
  cases htopValue : (f top).value with
  | none =>
    obtain ⟨rest, hrest⟩ := exists_perm_cons he
    have htopRest : top ∈ rest := by
      rcases List.mem_cons.mp (hrest.mem_iff.mp htop) with rfl | hmem
      · rw [hv] at htopValue
        cases htopValue
      · exact hmem
    obtain ⟨others, hothers⟩ := exists_perm_cons htopRest
    refine ⟨others ++ [top, e], ?_, ?_⟩
    · have hpair : (others ++ [top, e]).Perm (e :: top :: others) :=
        List.perm_append_comm.trans (List.Perm.swap _ _ _)
      exact hpair.trans ((hothers.symm.cons e).trans hrest.symm)
    · rw [List.map_append, replay_append]
      simp [replay, receive, htopValue, hv]
  | some x =>
    by_cases hremoval : ∃ r ∈ es, (f r).value = none
    · obtain ⟨r, hr, hrvalue⟩ := hremoval
      obtain ⟨others, hothers⟩ := exists_perm_cons hr
      refine ⟨others ++ [r], List.perm_append_comm.trans hothers.symm, ?_⟩
      rw [List.map_append, replay_append]
      simp [replay, receive, hrvalue]
    · push Not at hremoval
      obtain ⟨y', hy', hyvalue⟩ := hdiffer x
      obtain ⟨y, hy, rfl⟩ := List.mem_map.mp hy'
      obtain ⟨z, hz⟩ := Option.ne_none_iff_exists'.mp (hremoval y hy)
      obtain ⟨others, hothers⟩ := exists_perm_cons hy
      refine ⟨y :: others, hothers.symm, ?_⟩
      have hstale : replay (some (z, time)) (others.map fun e => (f e, time)) = some (z, time) := by
        apply replay_stale
        intro a ha
        obtain ⟨o, ho, rfl⟩ := List.mem_map.mp ha
        have hin : o ∈ es := hothers.mem_iff.mpr (List.mem_cons_of_mem _ ho)
        exact ⟨hremoval o hin, htime o hin⟩
      have hfirst : replay none ((y :: others).map fun e => (f e, time)) =
          replay (some (z, time)) (others.map fun e => (f e, time)) := by
        simp [replay, receive, hz]
      rw [hfirst, hstale]
      intro heq
      apply hyvalue
      rw [hz]
      exact heq

end LastWrite
