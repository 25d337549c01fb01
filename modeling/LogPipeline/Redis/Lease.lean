/-
  LogPipeline.Redis.Lease

  The times at which a consumer group was given its entries.

  A pending entry is leased to its consumer: XREADGROUP gives out only what the group was never
  given, and XAUTOCLAIM only what it was last given at least the minimal idle time ago.
  `Leased` ties the state of a group to the times of its deliveries, and `Read` to what
  XREADGROUP has given it: every command of the server keeps both.
-/

import LogPipeline.Redis.Claim

namespace LogPipeline.Redis.Stream

variable {V : Type}

-- ============================================================================
-- What a scan leaves
-- ============================================================================

/-- A group holds an entry once. -/
theorem Group.eq_of_id {g : Group} {p q : Pending} (hp : p ∈ g.pel) (hq : q ∈ g.pel)
    (h : p.id = q.id) : p = q := by
  have hs : g.pel.Pairwise (·.id < ·.id) := List.pairwise_map.mp g.sorted
  by_contra hne
  rcases List.mem_iff_append.mp hp with ⟨l₁, l₂, hl⟩
  rw [hl] at hq hs
  rw [List.pairwise_append, List.pairwise_cons] at hs
  rcases List.mem_append.mp hq with hq | hq
  · exact absurd h (ne_of_gt (hs.2.2 q hq p List.mem_cons_self))
  · rcases List.mem_cons.mp hq with rfl | hq
    · exact hne rfl
    · exact absurd h (ne_of_lt (hs.2.1.1 q hq))

/-- A scan leaves elements as they were, or claims them. -/
theorem claimScan_mem {stored : StreamID → Bool} {idle : Pending → Bool}
    {claim : Pending → Pending} {scan count : Nat} {ps : List Pending} {q : Pending}
    (h : q ∈ (claimScan stored idle claim scan count ps).1) :
    q ∈ ps ∨ ∃ p ∈ ps, q = claim p := by
  fun_induction claimScan stored idle claim scan count ps with
  | case1 => exact Or.inl h
  | case2 => exact Or.inl h
  | case3 => exact Or.inl h
  | case4 scan count p ps _ _ r ih =>
      rcases List.mem_cons.mp h with rfl | h
      · exact Or.inr ⟨p, List.mem_cons_self, rfl⟩
      · rcases ih h with h | ⟨x, hx, rfl⟩
        · exact Or.inl (List.mem_cons_of_mem _ h)
        · exact Or.inr ⟨x, List.mem_cons_of_mem _ hx, rfl⟩
  | case5 scan count p ps _ _ r ih =>
      rcases List.mem_cons.mp h with rfl | h
      · exact Or.inl List.mem_cons_self
      · rcases ih h with h | ⟨x, hx, rfl⟩
        · exact Or.inl (List.mem_cons_of_mem _ h)
        · exact Or.inr ⟨x, List.mem_cons_of_mem _ hx, rfl⟩
  | case6 scan count p ps _ ih =>
      rcases ih h with h | ⟨x, hx, rfl⟩
      · exact Or.inl (List.mem_cons_of_mem _ h)
      · exact Or.inr ⟨x, List.mem_cons_of_mem _ hx, rfl⟩

/-- What a scan reports as claimed was idle, and is claimed. -/
theorem claimScan_claimed {stored : StreamID → Bool} {idle : Pending → Bool}
    {claim : Pending → Pending} {scan count : Nat} {ps : List Pending} {id : StreamID}
    (h : id ∈ (claimScan stored idle claim scan count ps).2.1) :
    ∃ p ∈ ps, p.id = id ∧ idle p = true ∧
      claim p ∈ (claimScan stored idle claim scan count ps).1 := by
  fun_induction claimScan stored idle claim scan count ps with
  | case1 => cases h
  | case2 => cases h
  | case3 => cases h
  | case4 scan count p ps _ hidle r ih =>
      rcases List.mem_cons.mp h with rfl | h
      · exact ⟨p, List.mem_cons_self, rfl, hidle, List.mem_cons_self⟩
      · obtain ⟨x, hx, hid, hxidle, hmem⟩ := ih h
        exact ⟨x, List.mem_cons_of_mem _ hx, hid, hxidle, List.mem_cons_of_mem _ hmem⟩
  | case5 scan count p ps _ _ r ih =>
      obtain ⟨x, hx, hid, hxidle, hmem⟩ := ih h
      exact ⟨x, List.mem_cons_of_mem _ hx, hid, hxidle, List.mem_cons_of_mem _ hmem⟩
  | case6 scan count p ps _ ih =>
      obtain ⟨x, hx, hid, hxidle, hmem⟩ := ih h
      exact ⟨x, List.mem_cons_of_mem _ hx, hid, hxidle, hmem⟩

section

variable {g : Group} {stored : StreamID → Bool} {consumer : String} {minIdle now : Nat}
  {start : StreamID} {count scan : Nat}

/-- After a claim an element is as it was, or was given to the consumer just now. -/
theorem Group.claim_mem {q : Pending}
    (h : q ∈ (Group.claim g stored consumer minIdle now start count scan).pel) :
    q ∈ g.pel ∨ q.deliveredAt = now := by
  rcases List.mem_append.mp h with h | h
  · exact Or.inl (List.mem_of_mem_filter h)
  · rcases claimScan_mem h with h | ⟨p, -, rfl⟩
    · exact Or.inl (List.mem_of_mem_filter h)
    · exact Or.inr rfl

/-- What was claimed had been idle, and was given to the consumer just now. -/
theorem Group.claim_claimed {id : StreamID}
    (h : id ∈ (Group.scan g stored consumer minIdle now start count scan).2.1) :
    (∃ p ∈ g.pel, p.id = id ∧ minIdle ≤ now - p.deliveredAt) ∧
      ∀ q ∈ (Group.claim g stored consumer minIdle now start count scan).pel, q.id = id →
        q.deliveredAt = now := by
  obtain ⟨p, hp, hid, hidle, hmem⟩ := claimScan_claimed h
  refine ⟨⟨p, List.mem_of_mem_filter hp, hid, by simpa using hidle⟩, fun q hq hqid => ?_⟩
  have hclaimed : (⟨p.id, consumer, now⟩ : Pending) ∈
      (Group.claim g stored consumer minIdle now start count scan).pel :=
    List.mem_append_right _ hmem
  rw [Group.eq_of_id hq hclaimed (hqid.trans hid.symm)]

end

/-- An XAUTOCLAIM reports every entry once. -/
theorem xautoclaim_nodup {s s' : Stream V} {n consumer : String} {minIdle now : Nat}
    {start cursor : StreamID} {count scan : Nat} {es : List (Entry V)}
    (h : s.xautoclaim n consumer minIdle now start count scan = some (es, cursor, s')) :
    (es.map (·.id)).Nodup := by
  unfold xautoclaim at h
  split at h
  · cases h
  · next g hg =>
      simp only [Option.some.injEq, Prod.mk.injEq] at h
      obtain ⟨rfl, -, -⟩ := h
      obtain ⟨pre, post, kept, hsplit, hscanned, -⟩ := claimScan_split s.stored
        (fun p => decide (minIdle ≤ now - p.deliveredAt)) (fun p => ⟨p.id, consumer, now⟩) scan
        count (g.pel.filter fun p => decide (start ≤ p.id))
      have hscan : Group.scan g s.stored consumer minIdle now start count scan = _ := hscanned
      rw [hscan, lookup_claimed]
      have hsorted : (pre.map (·.id)).Pairwise (· < ·) := by
        refine g.sorted.sublist (List.Sublist.map _ ?_)
        exact (List.sublist_append_left pre post).trans (hsplit ▸ List.filter_sublist)
      exact (List.pairwise_map.mpr (due_sorted hsorted)).imp ne_of_lt

-- ============================================================================
-- Leases
-- ============================================================================

/-- The group was given its entries at the given times, and holds each of them at most since it
    was last given it. -/
structure Leased (s : Stream V) (n : String) (now : Nat) (given : StreamID → List Nat) :
    Prop where
  pending_le : ∀ g, s.groups n = some g → ∀ p ∈ g.pel, p.deliveredAt ≤ now
  given_le : ∀ id, ∀ since ∈ given id, since ≤ now
  delivered : ∀ id, ∀ since ∈ given id, ∃ g, s.groups n = some g ∧ id ≤ g.lastDelivered ∧
    ∀ p ∈ g.pel, p.id = id → since ≤ p.deliveredAt

namespace Leased

variable {s s' : Stream V} {n : String} {now : Nat} {given : StreamID → List Nat}

theorem empty (n : String) (now : Nat) : Leased (Stream.empty : Stream V) n now fun _ => [] where
  pending_le := by
    intro g hg
    cases hg
  given_le := by
    intro id since hs
    cases hs
  delivered := by
    intro id since hs
    cases hs

/-- The clock goes on, and other parts of the stream change. -/
theorem congr (h : Leased s n now given) (hg : s'.groups n = s.groups n) {now' : Nat}
    (hle : now ≤ now') : Leased s' n now' given := by
  refine ⟨fun g hg' p hp => ?_, fun id since hs => (h.given_le id since hs).trans hle,
    fun id since hs => ?_⟩
  · exact (h.pending_le g (hg ▸ hg') p hp).trans hle
  · rw [hg]
    exact h.delivered id since hs

theorem xack (h : Leased s n now given) (m : String) (id : StreamID) :
    Leased (s.xack m id).1 n now given := by
  by_cases hm : n = m
  · subst hm
    have hgroup : (s.xack n id).1.groups n = (s.groups n).map fun g => Group.ack g id := by
      rw [xack_groups, if_pos rfl]
    refine ⟨fun g hg p hp => ?_, h.given_le, fun id' since hs => ?_⟩
    · rw [hgroup] at hg
      obtain ⟨g₀, hg₀, rfl⟩ := Option.map_eq_some_iff.mp hg
      exact h.pending_le g₀ hg₀ p (List.mem_of_mem_filter hp)
    · obtain ⟨g, hg, hle, hsince⟩ := h.delivered id' since hs
      refine ⟨Group.ack g id, by rw [hgroup, hg]; rfl, hle, fun p hp => ?_⟩
      exact hsince p (List.mem_of_mem_filter hp)
  · exact h.congr (by rw [xack_groups, if_neg hm]) (Nat.le_refl now)

/-- A group that is created was given nothing. -/
theorem xgroupCreate (h : Leased s n now given) {m : String}
    (hc : s.xgroupCreate m = some s') : Leased s' n now given := by
  obtain ⟨hnone, -, -, hne, -⟩ := xgroupCreate_eq hc
  by_cases hm : n = m
  · subst hm
    have hgiven : ∀ id since, since ∉ given id := by
      intro id since hs
      obtain ⟨g, hg, -⟩ := h.delivered id since hs
      rw [hnone] at hg
      cases hg
    refine ⟨fun g hg p hp => ?_, h.given_le, fun id since hs => absurd hs (hgiven id since)⟩
    unfold Stream.xgroupCreate at hc
    rw [hnone] at hc
    cases hc
    rw [setGroup_groups_self] at hg
    cases hg
    cases hp
  · exact h.congr (hne n hm) (Nat.le_refl now)

/-- XREADGROUP gives out an entry that the group was never given. -/
theorem xreadgroup (h : Leased s n now given) {consumer : String} {e : Entry V}
    (hr : s.xreadgroup n consumer now = some (some e, s')) :
    given e.id = [] ∧ Leased s' n now (Function.update given e.id (now :: given e.id)) := by
  rcases xreadgroup_cases hr with ⟨hnone, -⟩ | ⟨g, x, hlt, hle, hg, hx, hxe, rfl⟩
  · cases hnone
  cases hxe
  have hfresh : given e.id = [] := by
    refine List.eq_nil_iff_forall_not_mem.mpr fun since hs => ?_
    obtain ⟨g', hg', hle', -⟩ := h.delivered e.id since hs
    rw [hg] at hg'
    cases hg'
    exact absurd hle' (not_le.mpr hlt)
  have hat : ∀ id since, since ∈ Function.update given e.id (now :: given e.id) id →
      (id = e.id ∧ since = now) ∨ (id ≠ e.id ∧ since ∈ given id) := by
    intro id since hs
    by_cases hid : id = e.id
    · subst hid
      rw [Function.update_self, hfresh] at hs
      exact Or.inl ⟨rfl, List.mem_singleton.mp hs⟩
    · rw [Function.update_of_ne hid] at hs
      exact Or.inr ⟨hid, hs⟩
  refine ⟨hfresh, fun g' hg' p hp => ?_, fun id since hs => ?_, fun id since hs => ?_⟩
  · rw [setGroup_groups_self] at hg'
    cases hg'
    rcases List.mem_append.mp hp with hp | hp
    · exact h.pending_le g hg p hp
    · rw [List.mem_singleton.mp hp]
  · rcases hat id since hs with ⟨-, rfl⟩ | ⟨-, hs⟩
    · exact Nat.le_refl _
    · exact h.given_le id since hs
  · refine ⟨_, setGroup_groups_self _ _ _ _, ?_⟩
    rcases hat id since hs with ⟨rfl, rfl⟩ | ⟨hid, hs⟩
    · refine ⟨le_refl _, fun p hp hpid => ?_⟩
      rcases List.mem_append.mp hp with hp | hp
      · exact absurd (hpid ▸ g.le_last p hp) (not_le.mpr hlt)
      · rw [List.mem_singleton.mp hp]
    · obtain ⟨g', hg', hle', hsince⟩ := h.delivered id since hs
      rw [hg] at hg'
      cases hg'
      refine ⟨hle'.trans (le_of_lt hlt), fun p hp hpid => ?_⟩
      rcases List.mem_append.mp hp with hp | hp
      · exact hsince p hp hpid
      · rw [List.mem_singleton.mp hp] at hpid
        exact absurd hpid.symm hid

theorem xreadgroup_ne (h : Leased s n now given) {m consumer : String} (hm : n ≠ m)
    {r : Option (Entry V)} (hr : s.xreadgroup m consumer now = some (r, s')) :
    Leased s' n now given := by
  rcases xreadgroup_cases hr with ⟨-, rfl⟩ | ⟨g, x, hlt, hle, -, -, -, rfl⟩
  · exact h
  · exact h.congr (setGroup_groups_ne _ _ _ hm) (Nat.le_refl now)

/-- XAUTOCLAIM gives out entries that were not given for the minimal idle time. -/
theorem xautoclaim (h : Leased s n now given) {consumer : String} {minIdle : Nat}
    {start cursor : StreamID} {count scan : Nat} {es : List (Entry V)}
    (hr : s.xautoclaim n consumer minIdle now start count scan = some (es, cursor, s')) :
    (∀ e ∈ es, ∀ since ∈ given e.id, since + minIdle ≤ now) ∧
    Leased s' n now fun id => if id ∈ es.map (·.id) then now :: given id else given id := by
  have hclaimed : ∀ e ∈ es, ∃ g, s.groups n = some g ∧
      e.id ∈ (Group.scan g s.stored consumer minIdle now start count scan).2.1 := by
    intro e he
    unfold Stream.xautoclaim at hr
    split at hr
    · cases hr
    · next g hg =>
        simp only [Option.some.injEq, Prod.mk.injEq] at hr
        obtain ⟨rfl, -, -⟩ := hr
        obtain ⟨id, hid, hfind⟩ := List.mem_filterMap.mp he
        rw [(find_eq_some_iff.mp hfind).2]
        exact ⟨g, hg, hid⟩
  obtain ⟨-, g, hle, hg, rfl⟩ := xautoclaim_eq hr
  have hclaimed : ∀ id ∈ es.map (·.id),
      id ∈ (Group.scan g s.stored consumer minIdle now start count scan).2.1 := by
    intro id hid
    obtain ⟨e, he, rfl⟩ := List.mem_map.mp hid
    obtain ⟨g', hg', hmem⟩ := hclaimed e he
    rw [hg] at hg'
    cases hg'
    exact hmem
  have hidle : ∀ id ∈ es.map (·.id), id ≤ g.lastDelivered ∧
      ∀ since ∈ given id, since + minIdle ≤ now := by
    intro id hid
    obtain ⟨⟨p, hp, hpid, hpidle⟩, -⟩ := Group.claim_claimed (hclaimed id hid)
    refine ⟨hpid ▸ g.le_last p hp, fun since hs => ?_⟩
    obtain ⟨g', hg', -, hsince⟩ := h.delivered id since hs
    rw [hg] at hg'
    cases hg'
    have hle₁ := hsince p hp hpid
    have hle₂ := h.pending_le g hg p hp
    omega
  refine ⟨fun e he => (hidle e.id (List.mem_map_of_mem he)).2, fun g' hg' p hp => ?_,
    fun id since hs => ?_, fun id since hs => ?_⟩
  · rw [setGroup_groups_self] at hg'
    cases hg'
    rcases Group.claim_mem hp with hp | hp
    · exact h.pending_le g hg p hp
    · exact hp.le
  · split at hs
    · rcases List.mem_cons.mp hs with rfl | hs
      · exact Nat.le_refl _
      · exact h.given_le id since hs
    · exact h.given_le id since hs
  · refine ⟨_, setGroup_groups_self _ _ _ _, ?_⟩
    by_cases hid : id ∈ es.map (·.id)
    · rw [if_pos hid] at hs
      refine ⟨(hidle id hid).1, fun p hp hpid => ?_⟩
      rw [(Group.claim_claimed (hclaimed id hid)).2 p hp hpid]
      rcases List.mem_cons.mp hs with rfl | hs
      · exact Nat.le_refl _
      · exact h.given_le id since hs
    · rw [if_neg hid] at hs
      obtain ⟨g', hg', hle', hsince⟩ := h.delivered id since hs
      rw [hg] at hg'
      cases hg'
      refine ⟨hle', fun p hp hpid => ?_⟩
      rcases Group.claim_mem hp with hp | hp
      · exact hsince p hp hpid
      · rw [hp]
        exact h.given_le id since hs

theorem xautoclaim_ne (h : Leased s n now given) {m consumer : String} (hm : n ≠ m)
    {minIdle : Nat} {start cursor : StreamID} {count scan : Nat} {es : List (Entry V)}
    (hr : s.xautoclaim m consumer minIdle now start count scan = some (es, cursor, s')) :
    Leased s' n now given := by
  obtain ⟨-, g, hle, -, rfl⟩ := xautoclaim_eq hr
  exact h.congr (setGroup_groups_ne _ _ _ hm) (Nat.le_refl now)

end Leased

-- ============================================================================
-- First deliveries
-- ============================================================================

/-- How far a group has read. -/
def lastOf (s : Stream V) (n : String) : Option StreamID := (s.groups n).map (·.lastDelivered)

/-- These are the ids that XREADGROUP has given to the group, newest first: in id order, and no
    stored entry was left out. -/
structure Read (s : Stream V) (n : String) (ids : List StreamID) : Prop where
  sorted : ids.Pairwise fun later earlier => earlier < later
  le_last : ∀ id ∈ ids, ∃ last, s.lastOf n = some last ∧ id ≤ last
  complete : ∀ last, s.lastOf n = some last → ∀ e ∈ s.entries, e.id ≤ last → e.id ∈ ids

namespace Read

variable {s s' : Stream V} {n : String} {ids : List StreamID}

theorem empty (n : String) : Read (Stream.empty : Stream V) n [] where
  sorted := List.Pairwise.nil
  le_last := by
    intro id hid
    cases hid
  complete := by
    intro last hlast
    cases hlast

/-- Entries are removed, and other parts of the groups change. -/
theorem congr (h : Read s n ids) (hlast : s'.lastOf n = s.lastOf n)
    (hsub : ∀ e ∈ s'.entries, e ∈ s.entries) : Read s' n ids := by
  refine ⟨h.sorted, fun id hid => ?_, fun last hl e he hle => ?_⟩
  · rw [hlast]
    exact h.le_last id hid
  · rw [hlast] at hl
    exact h.complete last hl e (hsub e he) hle

/-- A new entry comes after all that was read. -/
theorem xadd (h : Read s n ids) {id : StreamID} (hid : s.lastID < id) (v : V) (trim : Nat) :
    Read (s.xadd id hid v trim) n ids := by
  refine ⟨h.sorted, h.le_last, fun last hl e he hle => ?_⟩
  rcases List.mem_append.mp (List.mem_of_mem_drop he) with he | he
  · exact h.complete last hl e he hle
  · obtain ⟨g, hg, rfl⟩ := Option.map_eq_some_iff.mp hl
    rw [List.mem_singleton.mp he] at hle
    exact absurd (hle.trans (s.delivered_le n g hg)) (not_le.mpr hid)

theorem xack (h : Read s n ids) (m : String) (id : StreamID) : Read (s.xack m id).1 n ids := by
  refine h.congr ?_ fun e he => by rwa [xack_entries] at he
  unfold lastOf
  rw [xack_groups]
  split
  · next hm =>
      rw [hm, Option.map_map]
      rfl
  · rfl

theorem xdel (h : Read s n ids) (id : StreamID) : Read (s.xdel id).1 n ids :=
  h.congr rfl fun _ he => (mem_xdel_entries.mp he).1

/-- A group starts before all entries. -/
theorem xgroupCreate (h : Read s n ids) {m : String} (hc : s.xgroupCreate m = some s') :
    Read s' n ids := by
  obtain ⟨hnone, hentries, -, hne, g, hg, hzero⟩ := xgroupCreate_eq hc
  by_cases hm : n = m
  · subst hm
    have hnil : ids = [] := by
      refine List.eq_nil_iff_forall_not_mem.mpr fun id hid => ?_
      obtain ⟨last, hlast, -⟩ := h.le_last id hid
      rw [lastOf, hnone] at hlast
      cases hlast
    subst hnil
    refine ⟨h.sorted, fun id hid => absurd hid List.not_mem_nil, fun last hl e he hle => ?_⟩
    rw [lastOf, hg, Option.map_some, hzero] at hl
    cases hl
    exact absurd hle (not_le.mpr (s.pos e (hentries ▸ he)))
  · refine h.congr ?_ fun e he => hentries ▸ he
    rw [lastOf, lastOf, hne n hm]

/-- XREADGROUP goes on to the next entry. -/
theorem xreadgroup (h : Read s n ids) {consumer : String} {now : Nat} {e : Entry V}
    (hr : s.xreadgroup n consumer now = some (some e, s')) : Read s' n (e.id :: ids) := by
  rcases xreadgroup_cases hr with ⟨hnone, -⟩ | ⟨g, x, hlt, hle, hg, hx, hxe, rfl⟩
  · cases hnone
  cases hxe
  have hlast : s.lastOf n = some g.lastDelivered := by rw [lastOf, hg]; rfl
  have hlast' : (s.setGroup n (Group.deliver g e.id hlt consumer now) hle).lastOf n =
      some e.id := by
    rw [lastOf, setGroup_groups_self]
    rfl
  have hread : ∀ id ∈ ids, id < e.id := by
    intro id hid
    obtain ⟨last, hl, hidle⟩ := h.le_last id hid
    rw [hlast] at hl
    cases hl
    exact lt_of_le_of_lt hidle hlt
  refine ⟨List.pairwise_cons.mpr ⟨hread, h.sorted⟩, fun id hid => ⟨e.id, hlast', ?_⟩,
    fun last hl y hy hyle => ?_⟩
  · rcases List.mem_cons.mp hid with rfl | hid
    · exact le_refl _
    · exact le_of_lt (hread id hid)
  · rw [hlast'] at hl
    cases hl
    by_cases hold : y.id ≤ g.lastDelivered
    · exact List.mem_cons_of_mem _ (h.complete _ hlast y hy hold)
    · rw [le_antisymm hyle (nextEntry_le hx hy (not_le.mp hold))]
      exact List.mem_cons_self

theorem xreadgroup_ne (h : Read s n ids) {m consumer : String} {now : Nat} (hm : n ≠ m)
    {r : Option (Entry V)} (hr : s.xreadgroup m consumer now = some (r, s')) :
    Read s' n ids := by
  rcases xreadgroup_cases hr with ⟨-, rfl⟩ | ⟨g, x, hlt, hle, -, -, -, rfl⟩
  · exact h
  · refine h.congr ?_ fun _ he => he
    rw [lastOf, lastOf, setGroup_groups_ne _ _ _ hm]

theorem xautoclaim (h : Read s n ids) {m consumer : String} {minIdle now : Nat}
    {start cursor : StreamID} {count scan : Nat} {es : List (Entry V)}
    (hr : s.xautoclaim m consumer minIdle now start count scan = some (es, cursor, s')) :
    Read s' n ids := by
  obtain ⟨-, g, hle, hg, rfl⟩ := xautoclaim_eq hr
  refine h.congr ?_ fun _ he => he
  by_cases hm : n = m
  · subst hm
    rw [lastOf, lastOf, setGroup_groups_self, hg]
    rfl
  · rw [lastOf, lastOf, setGroup_groups_ne _ _ _ hm]

end Read

end LogPipeline.Redis.Stream
