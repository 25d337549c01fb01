/-
  LogPipeline.Redis.Delivery

  What the stream commands do to the delivery state of an entry.

  `Outstanding s n e` is the notion the delivery results are about: the entry is
  stored, and the group `n` has not been given it yet or has it pending.  An
  entry stops being outstanding only by XACK from that group, by XDEL or by
  trimming; every other command keeps it outstanding, one rule for each.

  Trimming evicts the oldest entries.  It spares the outstanding ones exactly if
  what is left of the stream holds the `backlog`: the entries from the oldest
  outstanding one on (`spares_iff`).
-/

import LogPipeline.Redis.Stream
import Mathlib.Data.List.TakeWhile

namespace LogPipeline.Redis
namespace Stream

variable {V : Type}

/-- The group has not been given the id, or does not exist yet. -/
def Undelivered (s : Stream V) (n : String) (id : StreamID) : Prop :=
  ∀ g, s.groups n = some g → g.lastDelivered < id

instance (s : Stream V) (n : String) (id : StreamID) : Decidable (s.Undelivered n id) :=
  decidable_of_iff (∀ g ∈ s.groups n, g.lastDelivered < id) Iff.rfl

/-- The id is in the PEL of the group. -/
def IsPending (s : Stream V) (n : String) (id : StreamID) : Prop :=
  ∃ g, s.groups n = some g ∧ ∃ p ∈ g.pel, p.id = id

/-- The entry is stored, and undelivered to the group or pending in it. -/
def Outstanding (s : Stream V) (n : String) (e : Entry V) : Prop :=
  e ∈ s.entries ∧ (s.Undelivered n e.id ∨ s.IsPending n e.id)

-- ============================================================================
-- Small facts about the commands
-- ============================================================================

@[simp] theorem xadd_groups (s : Stream V) (id : StreamID) (h : s.lastID < id) (v : V)
    (trim : Nat) : (s.xadd id h v trim).groups = s.groups := rfl

@[simp] theorem xadd_lastID (s : Stream V) (id : StreamID) (h : s.lastID < id) (v : V)
    (trim : Nat) : (s.xadd id h v trim).lastID = id := rfl

theorem mem_xadd_entries {s : Stream V} {id : StreamID} {h : s.lastID < id} {v : V} {trim : Nat}
    {e : Entry V} (he : e ∈ (s.xadd id h v trim).entries) : e ∈ s.entries ∨ e = ⟨id, v⟩ := by
  rcases List.mem_append.mp (List.mem_of_mem_drop he) with he | he
  · exact Or.inl he
  · exact Or.inr (List.mem_singleton.mp he)

theorem mem_xadd_zero {s : Stream V} {id : StreamID} {h : s.lastID < id} {v : V} {e : Entry V} :
    e ∈ (s.xadd id h v 0).entries ↔ e ∈ s.entries ∨ e = ⟨id, v⟩ := by
  simp [xadd]

@[simp] theorem setGroup_entries (s : Stream V) (n : String) (g : Group)
    (h : g.lastDelivered ≤ s.lastID) : (s.setGroup n g h).entries = s.entries := rfl

@[simp] theorem setGroup_lastID (s : Stream V) (n : String) (g : Group)
    (h : g.lastDelivered ≤ s.lastID) : (s.setGroup n g h).lastID = s.lastID := rfl

theorem setGroup_groups_self (s : Stream V) (n : String) (g : Group)
    (h : g.lastDelivered ≤ s.lastID) : (s.setGroup n g h).groups n = some g := by
  simp [setGroup]

theorem setGroup_groups_ne (s : Stream V) {n m : String} (g : Group)
    (h : g.lastDelivered ≤ s.lastID) (hm : m ≠ n) :
    (s.setGroup n g h).groups m = s.groups m := by
  simp [setGroup, Function.update_of_ne hm]

@[simp] theorem xack_entries (s : Stream V) (n : String) (id : StreamID) :
    (s.xack n id).1.entries = s.entries := by
  unfold xack
  split <;> rfl

@[simp] theorem xack_lastID (s : Stream V) (n : String) (id : StreamID) :
    (s.xack n id).1.lastID = s.lastID := by
  unfold xack
  split <;> rfl

theorem xack_groups (s : Stream V) (n m : String) (id : StreamID) :
    (s.xack n id).1.groups m =
      if m = n then (s.groups n).map fun g => Group.ack g id else s.groups m := by
  unfold xack
  split
  · next h =>
      split
      · next hm => simp [hm, h]
      · rfl
  · next g h =>
      split
      · next hm => simp [hm, h, setGroup]
      · next hm => exact setGroup_groups_ne s (Group.ack g id) (s.delivered_le n g h) hm

theorem mem_xdel_entries {s : Stream V} {id : StreamID} {e : Entry V} :
    e ∈ (s.xdel id).1.entries ↔ e ∈ s.entries ∧ e.id ≠ id := by
  simp [xdel]

theorem mem_xrange {s : Stream V} {id : StreamID} {e : Entry V} :
    e ∈ s.xrange id id ↔ e ∈ s.entries ∧ e.id = id := by
  simp only [xrange, List.mem_filter, Bool.and_eq_true, decide_eq_true_eq]
  constructor
  · rintro ⟨he, h1, h2⟩
    exact ⟨he, le_antisymm h2 h1⟩
  · rintro ⟨he, rfl⟩
    exact ⟨he, le_refl _, le_refl _⟩

theorem xgroupCreate_eq {s s' : Stream V} {n : String} (h : s.xgroupCreate n = some s') :
    s.groups n = none ∧ s'.entries = s.entries ∧ s'.lastID = s.lastID ∧
      (∀ m, m ≠ n → s'.groups m = s.groups m) ∧
      ∃ g, s'.groups n = some g ∧ g.lastDelivered = .zero := by
  unfold xgroupCreate at h
  split at h
  · cases h
  · next hn =>
      cases h
      exact ⟨hn, rfl, rfl, fun m hm => setGroup_groups_ne s _ _ hm, _,
        setGroup_groups_self s _ _ _, rfl⟩

/-- The summary of a group that exists: the number of pending ids and the first. -/
theorem xpending_eq {s : Stream V} {n : String} {g : Group} (hg : s.groups n = some g) :
    s.xpending n = some ((s.pendingIDs n).length, (s.pendingIDs n).head?) := by
  simp [xpending, pendingIDs, hg]

theorem pendingIDs_sorted (s : Stream V) (n : String) : (s.pendingIDs n).Pairwise (· < ·) := by
  unfold pendingIDs
  split
  · exact List.Pairwise.nil
  · next g hg => exact g.sorted

/-- What one XREADGROUP does: nothing, or it delivers the next entry. -/
theorem xreadgroup_cases {s s' : Stream V} {n consumer : String} {now : Nat}
    {r : Option (Entry V)} (h : s.xreadgroup n consumer now = some (r, s')) :
    (r = none ∧ s' = s) ∨
    ∃ g e hlt hle, s.groups n = some g ∧ s.nextEntry g = some e ∧ r = some e ∧
      s' = s.setGroup n (Group.deliver g e.id hlt consumer now) hle := by
  unfold xreadgroup at h
  split at h
  · cases h
  · next g hg =>
      split at h
      · cases h
        exact Or.inl ⟨rfl, rfl⟩
      · next e he =>
          cases h
          exact Or.inr ⟨g, e, (nextEntry_mem he).2, s.le_last e (nextEntry_mem he).1,
            hg, he, rfl, rfl⟩

/-- What one XAUTOCLAIM does to the stream, and that it hands out stored entries. -/
theorem xautoclaim_eq {s s' : Stream V} {n consumer : String} {minIdle now : Nat}
    {start cursor : StreamID} {count scan : Nat} {es : List (Entry V)}
    (h : s.xautoclaim n consumer minIdle now start count scan = some (es, cursor, s')) :
    (∀ e ∈ es, e ∈ s.entries) ∧
    ∃ g hle, s.groups n = some g ∧
      s' = s.setGroup n (Group.claim g s.stored consumer minIdle now start count scan) hle := by
  unfold xautoclaim at h
  split at h
  · cases h
  · next g hg =>
      simp only [Option.some.injEq, Prod.mk.injEq] at h
      obtain ⟨rfl, -, rfl⟩ := h
      refine ⟨?_, g, s.delivered_le n g hg, hg, rfl⟩
      intro e he
      obtain ⟨id, -, hid⟩ := List.mem_filterMap.mp he
      exact List.mem_of_find?_eq_some hid

-- ============================================================================
-- The rules for outstanding entries
-- ============================================================================

/-- Outstanding depends on the stored entries and on the one group only. -/
theorem Outstanding.congr {s s' : Stream V} {n : String} {e : Entry V}
    (h : s.Outstanding n e) (he : e ∈ s'.entries) (hg : s'.groups n = s.groups n) :
    s'.Outstanding n e := by
  refine ⟨he, ?_⟩
  rcases h.2 with hu | ⟨g, hg', hp⟩
  · exact Or.inl fun g hg' => hu g (hg ▸ hg')
  · exact Or.inr ⟨g, hg ▸ hg', hp⟩

theorem Outstanding.xadd {s : Stream V} {n : String} {e : Entry V} (h : s.Outstanding n e)
    (id : StreamID) (hid : s.lastID < id) (v : V) : (s.xadd id hid v 0).Outstanding n e :=
  h.congr (mem_xadd_zero.mpr (Or.inl h.1)) rfl

/-- A new entry is outstanding for every group. -/
theorem outstanding_xadd (s : Stream V) (n : String) (id : StreamID) (hid : s.lastID < id)
    (v : V) : (s.xadd id hid v 0).Outstanding n ⟨id, v⟩ := by
  refine ⟨mem_xadd_zero.mpr (Or.inr rfl), Or.inl ?_⟩
  intro g hg
  exact lt_of_le_of_lt (s.delivered_le n g hg) hid

/-- XACK settles at most the id it names, in the group it names. -/
theorem Outstanding.xack {s : Stream V} {n m : String} {e : Entry V} {id : StreamID}
    (h : s.Outstanding n e) (hne : m ≠ n ∨ e.id ≠ id) : (s.xack m id).1.Outstanding n e := by
  by_cases hm : m = n
  · subst hm
    have hid : e.id ≠ id := hne.resolve_left (by simp)
    refine ⟨by simpa using h.1, ?_⟩
    rcases h.2 with hu | ⟨g, hg, p, hp, hpid⟩
    · left
      intro g' hg'
      rw [xack_groups, if_pos rfl] at hg'
      obtain ⟨g, hg, rfl⟩ := Option.map_eq_some_iff.mp hg'
      exact hu g hg
    · right
      refine ⟨Group.ack g id, by rw [xack_groups, if_pos rfl, hg]; rfl, p, ?_, hpid⟩
      simp [Group.ack, hp, hpid, hid]
  · refine h.congr (by simpa using h.1) ?_
    rw [xack_groups, if_neg fun h => hm h.symm]

theorem Outstanding.xdel {s : Stream V} {n : String} {e : Entry V} {id : StreamID}
    (h : s.Outstanding n e) (hne : e.id ≠ id) : (s.xdel id).1.Outstanding n e :=
  h.congr (mem_xdel_entries.mpr ⟨h.1, hne⟩) rfl

/-- A group created at `0` has been given nothing. -/
theorem Outstanding.xgroupCreate {s s' : Stream V} {n m : String} {e : Entry V}
    (h : s.Outstanding n e) (hc : s.xgroupCreate m = some s') : s'.Outstanding n e := by
  obtain ⟨-, hent, -, hne, g, hg, hz⟩ := xgroupCreate_eq hc
  by_cases hm : n = m
  · subst hm
    refine ⟨hent ▸ h.1, Or.inl ?_⟩
    intro g' hg'
    obtain rfl : g = g' := by simpa [hg] using hg'
    rw [hz]
    exact s.pos e h.1
  · exact h.congr (hent ▸ h.1) (hne n hm)

/-- XREADGROUP moves the next entry to the PEL and leaves the later ones
    undelivered. -/
theorem Outstanding.xreadgroup {s s' : Stream V} {n m consumer : String} {now : Nat}
    {r : Option (Entry V)} {e : Entry V} (h : s.Outstanding n e)
    (hr : s.xreadgroup m consumer now = some (r, s')) : s'.Outstanding n e := by
  rcases xreadgroup_cases hr with ⟨-, rfl⟩ | ⟨g, x, hlt, hle, hg, hx, -, rfl⟩
  · exact h
  · by_cases hm : n = m
    · subst hm
      refine ⟨h.1, ?_⟩
      rcases h.2 with hu | ⟨g', hg', p, hp, hpid⟩
      · have hxe := nextEntry_le hx h.1 (hu g hg)
        rcases eq_or_lt_of_le hxe with heq | hlt'
        · right
          exact ⟨_, setGroup_groups_self _ _ _ _, ⟨x.id, consumer, now⟩,
            by simp [Group.deliver], heq⟩
        · left
          intro g' hg'
          rw [setGroup_groups_self] at hg'
          cases hg'
          exact hlt'
      · right
        obtain rfl : g = g' := by simpa [hg] using hg'
        exact ⟨_, setGroup_groups_self _ _ _ _, p, by simp [Group.deliver, hp], hpid⟩
    · exact h.congr h.1 (setGroup_groups_ne s _ _ hm)

/-- A claim drops no pending element whose entry is stored. -/
theorem IsPending.xautoclaim {s s' : Stream V} {n m consumer : String} {minIdle now : Nat}
    {start cursor : StreamID} {count scan : Nat} {es : List (Entry V)} {id : StreamID}
    (h : s.IsPending n id) (hst : s.stored id = true)
    (hr : s.xautoclaim m consumer minIdle now start count scan = some (es, cursor, s')) :
    s'.IsPending n id := by
  obtain ⟨-, g, hle, hg, rfl⟩ := xautoclaim_eq hr
  obtain ⟨g', hg', p, hp, hpid⟩ := h
  by_cases hm : n = m
  · subst hm
    obtain rfl : g = g' := by simpa [hg] using hg'
    refine ⟨_, setGroup_groups_self _ _ _ _, ?_⟩
    by_cases hstart : p.id < start
    · exact ⟨p, List.mem_append_left _ (by simp [hp, hstart]), hpid⟩
    · have hrest : ∃ q ∈ g.pel.filter (fun p => decide (start ≤ p.id)), q.id = id :=
        ⟨p, by simp [hp, not_lt.mp hstart], hpid⟩
      have hscan : ∃ q ∈ (Group.scan g s.stored consumer minIdle now start count scan).1,
          q.id = id := by
        unfold Group.scan
        refine mem_claimScan ?_ hrest hst
        intro q
        rfl
      obtain ⟨q, hq, hqid⟩ := hscan
      exact ⟨q, List.mem_append_right _ hq, hqid⟩
  · exact ⟨g', (setGroup_groups_ne s _ _ hm).trans hg', p, hp, hpid⟩

theorem stored_of_mem {s : Stream V} {e : Entry V} (h : e ∈ s.entries) :
    s.stored e.id = true := by
  simp only [stored, List.any_eq_true, decide_eq_true_eq]
  exact ⟨e, h, rfl⟩

theorem Outstanding.xautoclaim {s s' : Stream V} {n m consumer : String} {minIdle now : Nat}
    {start cursor : StreamID} {count scan : Nat} {es : List (Entry V)} {e : Entry V}
    (h : s.Outstanding n e)
    (hr : s.xautoclaim m consumer minIdle now start count scan = some (es, cursor, s')) :
    s'.Outstanding n e := by
  rcases h.2 with hu | hpend
  · obtain ⟨-, g, hle, hg, rfl⟩ := xautoclaim_eq hr
    refine ⟨h.1, Or.inl ?_⟩
    intro g' hg'
    by_cases hm : n = m
    · subst hm
      rw [setGroup_groups_self] at hg'
      cases hg'
      exact hu g hg
    · rw [setGroup_groups_ne s _ _ hm] at hg'
      exact hu g' hg'
  · have hpend' := hpend.xautoclaim (stored_of_mem h.1) hr
    obtain ⟨-, g, hle, hg, rfl⟩ := xautoclaim_eq hr
    exact ⟨h.1, Or.inr hpend'⟩

-- ============================================================================
-- Trimming
-- ============================================================================

/-- The group still has to be given the entry, or to acknowledge it. -/
def Live (s : Stream V) (n : String) (id : StreamID) : Prop :=
  s.Undelivered n id ∨ s.IsPending n id

instance (s : Stream V) (n : String) (id : StreamID) : Decidable (s.IsPending n id) :=
  decidable_of_iff (∃ g ∈ s.groups n, ∃ p ∈ g.pel, p.id = id) Iff.rfl

instance (s : Stream V) (n : String) (id : StreamID) : Decidable (s.Live n id) :=
  inferInstanceAs (Decidable (_ ∨ _))

/-- The entries before the oldest outstanding one. -/
def done (s : Stream V) (n : String) : List (Entry V) :=
  s.entries.takeWhile fun e => !decide (s.Live n e.id)

/-- The entries from the oldest outstanding one on. -/
def waiting (s : Stream V) (n : String) : List (Entry V) :=
  s.entries.dropWhile fun e => !decide (s.Live n e.id)

/-- How many entries are stored from the oldest outstanding one on. -/
def backlog (s : Stream V) (n : String) : Nat := (s.waiting n).length

theorem done_append_waiting (s : Stream V) (n : String) : s.done n ++ s.waiting n = s.entries :=
  List.takeWhile_append_dropWhile

theorem length_done (s : Stream V) (n : String) : (s.done n).length + s.backlog n = s.xlen := by
  unfold backlog xlen
  rw [← List.length_append, s.done_append_waiting n]

theorem Outstanding.mem_waiting {s : Stream V} {n : String} {e : Entry V}
    (h : s.Outstanding n e) : e ∈ s.waiting n := by
  have hmem := h.1
  rw [← s.done_append_waiting n] at hmem
  rcases List.mem_append.mp hmem with hdone | hwait
  · have hnot := List.mem_takeWhile_imp hdone
    simp only [Bool.not_eq_true', decide_eq_false_iff_not] at hnot
    exact absurd h.2 hnot
  · exact hwait

/-- The oldest entry of the backlog is outstanding. -/
theorem outstanding_head {s : Stream V} {n : String} {e : Entry V} {rest : List (Entry V)}
    (h : s.waiting n = e :: rest) : s.Outstanding n e := by
  constructor
  · rw [← s.done_append_waiting n, h]
    simp
  · have hlive := List.head_dropWhile_not (fun e => !decide (s.Live n e.id)) (l := s.entries)
      (by rw [show s.entries.dropWhile _ = e :: rest from h]; simp)
    simp only [show s.entries.dropWhile _ = e :: rest from h, List.head_cons,
      Bool.not_eq_false', decide_eq_true_eq] at hlive
    exact hlive

/-- XADD spares what is outstanding exactly if it evicts only entries before the
    backlog. -/
theorem spares_iff (s : Stream V) (n : String) (id : StreamID) (hid : s.lastID < id) (v : V)
    (trim : Nat) :
    (∀ e, s.Outstanding n e → (s.xadd id hid v trim).Outstanding n e) ↔
      s.backlog n = 0 ∨ trim + s.backlog n ≤ s.xlen := by
  have hlen := s.length_done n
  constructor
  · intro h
    cases hwait : s.waiting n with
    | nil =>
        left
        unfold backlog
        rw [hwait, List.length_nil]
    | cons e rest =>
        right
        by_contra hgt
        have hdone : (s.done n).length < trim := by omega
        have hkept : e ∈ ((s.done n ++ e :: rest) ++ [Entry.mk id v]).drop trim := by
          rw [← hwait, s.done_append_waiting n]
          exact (h e (outstanding_head hwait)).1
        -- the entries that are left come after the evicted ones, and `e` is evicted
        have hsorted := (s.xadd id hid v 0).sorted
        rw [show (s.xadd id hid v 0).entries = s.entries ++ [Entry.mk id v] from rfl,
          ← s.done_append_waiting n, hwait, List.append_assoc, List.pairwise_append] at hsorted
        rw [List.append_assoc, List.drop_append, List.drop_eq_nil_of_le hdone.le,
          List.nil_append] at hkept
        obtain ⟨k, hk⟩ := Nat.exists_eq_add_one_of_ne_zero (Nat.sub_ne_zero_of_lt hdone)
        rw [hk, List.cons_append, List.drop_succ_cons] at hkept
        have hlt := (List.pairwise_cons.mp hsorted.2.1).1 e (List.mem_of_mem_drop hkept)
        exact absurd hlt (lt_irrefl _)
  · intro h e he
    refine he.congr ?_ rfl
    have hwait := he.mem_waiting
    have hpos : 0 < s.backlog n := List.length_pos_of_mem hwait
    have hle : trim ≤ (s.done n).length := by omega
    show e ∈ (s.entries ++ [Entry.mk id v]).drop trim
    rw [← s.done_append_waiting n, List.append_assoc, List.drop_append_of_le_length hle]
    exact List.mem_append_right _ (List.mem_append_left _ hwait)

end Stream
end LogPipeline.Redis
