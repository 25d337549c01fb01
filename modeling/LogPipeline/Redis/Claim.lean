/-
  LogPipeline.Redis.Claim

  Going through a pending entries list with XAUTOCLAIM, page by page.

  One call examines a prefix of what is pending from the cursor on, claims the
  elements of that prefix that are idle long enough, and answers with the id of
  the first element it has not examined.  What is pending from that id on is the
  rest of the list, unchanged (`xautoclaim_page`); so a loop that follows the
  cursor sees every element once, whatever the pages are.
-/

import LogPipeline.Redis.Delivery

namespace LogPipeline.Redis

namespace Stream

variable {V : Type}

/-- The stored entries of the pending elements that are idle long enough, in the
    order of the list. -/
def due (s : Stream V) (minIdle now : Nat) (ps : List Pending) : List (Entry V) :=
  (ps.filter fun p => decide (minIdle ≤ now - p.deliveredAt)).filterMap fun p =>
    s.entries.find? fun e => decide (e.id = p.id)

theorem due_append (s : Stream V) (minIdle now : Nat) (ps qs : List Pending) :
    s.due minIdle now (ps ++ qs) = s.due minIdle now ps ++ s.due minIdle now qs := by
  unfold due
  rw [List.filter_append, List.filterMap_append]

theorem due_congr {s s' : Stream V} (h : s'.entries = s.entries) (minIdle now : Nat)
    (ps : List Pending) : s'.due minIdle now ps = s.due minIdle now ps := by
  unfold due
  rw [h]

theorem find_eq_some_iff {s : Stream V} {e : Entry V} {id : StreamID} :
    (s.entries.find? fun x => decide (x.id = id)) = some e ↔ e ∈ s.entries ∧ e.id = id := by
  constructor
  · intro h
    exact ⟨List.mem_of_find?_eq_some h, by simpa using List.find?_some h⟩
  · rintro ⟨he, hid⟩
    cases h : s.entries.find? fun x => decide (x.id = id) with
    | none =>
        have hall := List.find?_eq_none.mp h e he
        simp [hid] at hall
    | some x =>
        have hx : x.id = id := by simpa using List.find?_some h
        rw [eq_of_id (List.mem_of_find?_eq_some h) he (hx.trans hid.symm)]

theorem mem_due {s : Stream V} {minIdle now : Nat} {ps : List Pending} {e : Entry V} :
    e ∈ s.due minIdle now ps ↔
      e ∈ s.entries ∧ ∃ p ∈ ps, p.id = e.id ∧ minIdle ≤ now - p.deliveredAt := by
  unfold due
  simp only [List.mem_filterMap, List.mem_filter, decide_eq_true_eq, find_eq_some_iff]
  constructor
  · rintro ⟨p, ⟨hp, hidle⟩, he, hid⟩
    exact ⟨he, p, hp, hid.symm, hidle⟩
  · rintro ⟨he, p, hp, hid, hidle⟩
    exact ⟨p, ⟨hp, hidle⟩, he, hid.symm⟩

/-- The entries come in the order of the pending ids, so in id order. -/
theorem due_sorted {s : Stream V} {minIdle now : Nat} {ps : List Pending}
    (h : (ps.map (·.id)).Pairwise (· < ·)) : (s.due minIdle now ps).Pairwise (·.id < ·.id) := by
  unfold due
  rw [List.pairwise_filterMap]
  have hps : ps.Pairwise (·.id < ·.id) := List.pairwise_map.mp h
  refine (hps.filter _).imp ?_
  intro p q hlt e he e' he'
  rw [(find_eq_some_iff.mp he).2, (find_eq_some_iff.mp he').2]
  exact hlt

-- ============================================================================
-- One page
-- ============================================================================

/-- A scan examines a prefix of the list, claims what is stored and idle in it and
    leaves the rest as it is; it examines something if it may and there is something. -/
theorem claimScan_split (stored : StreamID → Bool) (idle : Pending → Bool)
    (claim : Pending → Pending) (scan count : Nat) (ps : List Pending) :
    ∃ pre post kept, ps = pre ++ post ∧
      claimScan stored idle claim scan count ps =
        (kept ++ post, (pre.filter fun p => idle p && stored p.id).map (·.id),
          post.head?.map (·.id)) ∧
      (0 < scan → 0 < count → ps ≠ [] → pre ≠ []) := by
  fun_induction claimScan stored idle claim scan count ps with
  | case1 => exact ⟨[], [], [], rfl, rfl, fun _ _ h => absurd rfl h⟩
  | case2 count p ps => exact ⟨[], p :: ps, [], rfl, rfl, fun h => absurd h (lt_irrefl 0)⟩
  | case3 scan p ps => exact ⟨[], p :: ps, [], rfl, rfl, fun _ h => absurd h (lt_irrefl 0)⟩
  | case4 scan count p ps hst hidle r ih =>
      obtain ⟨pre, post, kept, rfl, heq, -⟩ := ih
      refine ⟨p :: pre, post, claim p :: kept, rfl, ?_, fun _ _ _ => List.cons_ne_nil _ _⟩
      have hr : r = _ := heq
      rw [hr, List.filter_cons_of_pos (by simp [hst, hidle])]
      rfl
  | case5 scan count p ps hst hidle r ih =>
      obtain ⟨pre, post, kept, rfl, heq, -⟩ := ih
      refine ⟨p :: pre, post, p :: kept, rfl, ?_, fun _ _ _ => List.cons_ne_nil _ _⟩
      have hr : r = _ := heq
      rw [hr, List.filter_cons_of_neg (by simp [hidle])]
      rfl
  | case6 scan count p ps hst ih =>
      obtain ⟨pre, post, kept, rfl, heq, -⟩ := ih
      refine ⟨p :: pre, post, kept, rfl, ?_, fun _ _ _ => List.cons_ne_nil _ _⟩
      rw [heq, List.filter_cons_of_neg (by simp [hst])]

/-- Looking the claimed ids up gives the entries that are due in the prefix. -/
theorem lookup_claimed (s : Stream V) (minIdle now : Nat) (ps : List Pending) :
    ((ps.filter fun p => decide (minIdle ≤ now - p.deliveredAt) && s.stored p.id).map
      (·.id)).filterMap (fun id => s.entries.find? fun e => decide (e.id = id)) =
      s.due minIdle now ps := by
  unfold due
  induction ps with
  | nil => rfl
  | cons p ps ih =>
      by_cases hidle : minIdle ≤ now - p.deliveredAt
      · cases hst : s.stored p.id with
        | true =>
            rw [List.filter_cons_of_pos (by simp [hidle, hst]),
              List.filter_cons_of_pos (by simp [hidle]), List.map_cons, List.filterMap_cons,
              List.filterMap_cons, ih]
        | false =>
            have hnone : (s.entries.find? fun e => decide (e.id = p.id)) = none := by
              rw [List.find?_eq_none]
              exact List.any_eq_false.mp hst
            rw [List.filter_cons_of_neg (by simp [hst]), List.filter_cons_of_pos (by simp [hidle]),
              List.filterMap_cons, hnone, ih]
      · rw [List.filter_cons_of_neg (by simp [hidle]), List.filter_cons_of_neg (by simp [hidle]),
          ih]

/-- One XAUTOCLAIM of a loop over the pending list.  `pre` is what it examines and
    `post` the rest, which is what a call from the returned cursor will find. -/
theorem xautoclaim_page {s : Stream V} {n : String} {g : Group} (hg : s.groups n = some g)
    (consumer : String) (minIdle now : Nat) (start : StreamID) {count scan : Nat}
    (hcount : 0 < count) (hscan : 0 < scan) :
    ∃ pre post s' g',
      s.xautoclaim n consumer minIdle now start count scan =
        some (s.due minIdle now pre, (post.head?.map (·.id)).getD .zero, s') ∧
      (g.pel.filter fun p => decide (start ≤ p.id)) = pre ++ post ∧
      (pre = [] → post = []) ∧
      s'.entries = s.entries ∧ s'.groups n = some g' ∧
      ∀ p, post.head? = some p → (g'.pel.filter fun q => decide (p.id ≤ q.id)) = post := by
  obtain ⟨pre, post, kept, hsplit, hscanned, hne⟩ := claimScan_split s.stored
    (fun p => decide (minIdle ≤ now - p.deliveredAt)) (fun p => ⟨p.id, consumer, now⟩) scan count
    (g.pel.filter fun p => decide (start ≤ p.id))
  have hgscan : Group.scan g s.stored consumer minIdle now start count scan = _ := hscanned
  refine ⟨pre, post, s.setGroup n (Group.claim g s.stored consumer minIdle now start count scan)
    (s.delivered_le n g hg), _, ?_, hsplit, ?_, rfl, setGroup_groups_self .., ?_⟩
  · unfold xautoclaim
    split
    · next hnone =>
        rw [hg] at hnone
        cases hnone
    · next g' hg' =>
        obtain rfl : g = g' := Option.some.inj (hg.symm.trans hg')
        simp only [hgscan, lookup_claimed]
  · intro hpre
    by_contra hpost
    refine hne hscan hcount ?_ hpre
    rw [hsplit, hpre]
    exact hpost
  · intro p hp
    -- everything before `post` has a smaller id than its first element
    have hsorted := (Group.claim g s.stored consumer minIdle now start count scan).sorted
    have hpel : (Group.claim g s.stored consumer minIdle now start count scan).pel =
        ((g.pel.filter fun p => decide (p.id < start)) ++ kept) ++ post := by
      change _ ++ (Group.scan g s.stored consumer minIdle now start count scan).1 = _
      rw [hgscan, List.append_assoc]
    rw [hpel] at hsorted ⊢
    obtain ⟨rest, rfl⟩ : ∃ rest, post = p :: rest := by
      cases post with
      | nil => cases hp
      | cons q rest =>
          cases hp
          exact ⟨rest, rfl⟩
    rw [List.pairwise_map, List.pairwise_append, List.pairwise_cons] at hsorted
    obtain ⟨-, ⟨hafter, -⟩, hbefore⟩ := hsorted
    have hfront : ((g.pel.filter fun p => decide (p.id < start)) ++ kept).filter
        (fun q => decide (p.id ≤ q.id)) = [] := by
      rw [List.filter_eq_nil_iff]
      intro q hq
      simpa using hbefore q hq p (List.mem_cons_self ..)
    have hback : (p :: rest).filter (fun q => decide (p.id ≤ q.id)) = p :: rest := by
      rw [List.filter_eq_self]
      intro q hq
      rcases List.mem_cons.mp hq with rfl | hq
      · simp
      · simpa using (hafter q hq).le
    rw [List.filter_append, hfront, hback, List.nil_append]

end Stream

end LogPipeline.Redis
