/-
  LogPipeline.Redis.Stream

  Redis streams with consumer groups, over an arbitrary type of field maps.

  A stream keeps its entries in id order and, for each consumer group, the last
  id delivered to the group and the pending entries list (PEL): the entries
  delivered and not yet acknowledged.  The order facts are fields of the
  structures, so every stream an operation builds has them.

  The operations are those of the server, one atomic command each; what the
  server is free to choose (the id of a new entry, how much an approximate MAXLEN
  trims, how far XAUTOCLAIM scans) is an argument.
-/

import Mathlib.Algebra.Group.Int.Defs
import Mathlib.Algebra.Group.Nat.Defs
import Mathlib.Order.Lattice
import Mathlib.Order.Defs.LinearOrder
import Mathlib.Data.List.Basic
import Mathlib.Data.List.Pairwise
import Mathlib.Logic.Function.Basic
import Mathlib.Tactic.Common

namespace LogPipeline.Redis

-- ============================================================================
-- Entry ids
-- ============================================================================

/-- An entry id `ms-seq`.  Ids are generated by the server from its clock, so the
    milliseconds fit a signed 64-bit integer. -/
structure StreamID where
  ms : Nat
  seq : Nat
  ms_lt : ms < 2 ^ 63

namespace StreamID

@[ext] theorem ext {a b : StreamID} (hms : a.ms = b.ms) (hseq : a.seq = b.seq) : a = b := by
  obtain ⟨m, q, hm⟩ := a
  obtain ⟨m', q', hm'⟩ := b
  obtain rfl : m = m' := hms
  obtain rfl : q = q' := hseq
  rfl

instance : DecidableEq StreamID := fun _ _ => decidable_of_iff _ StreamID.ext_iff.symm

theorem zero_lt_bound : 0 < 2 ^ 63 := by decide

theorem mod_lt (ms : Nat) : ms % 2 ^ 63 < 2 ^ 63 := Nat.mod_lt ms zero_lt_bound

/-- The id with these parts, the milliseconds modulo `2 ^ 63`. -/
def of (ms seq : Nat) : StreamID := ⟨ms % 2 ^ 63, seq, mod_lt ms⟩

/-- The id `0-0`, before every entry. -/
def zero : StreamID := ⟨0, 0, zero_lt_bound⟩

instance : LE StreamID := ⟨fun a b => a.ms < b.ms ∨ a.ms = b.ms ∧ a.seq ≤ b.seq⟩
instance : LT StreamID := ⟨fun a b => a.ms < b.ms ∨ a.ms = b.ms ∧ a.seq < b.seq⟩

instance : DecidableLE StreamID := fun a b =>
  inferInstanceAs (Decidable (a.ms < b.ms ∨ a.ms = b.ms ∧ a.seq ≤ b.seq))

instance : DecidableLT StreamID := fun a b =>
  inferInstanceAs (Decidable (a.ms < b.ms ∨ a.ms = b.ms ∧ a.seq < b.seq))

theorem le_def {a b : StreamID} : a ≤ b ↔ a.ms < b.ms ∨ a.ms = b.ms ∧ a.seq ≤ b.seq := Iff.rfl

theorem lt_def {a b : StreamID} : a < b ↔ a.ms < b.ms ∨ a.ms = b.ms ∧ a.seq < b.seq := Iff.rfl

instance : LinearOrder StreamID where
  le_refl a := by simp [le_def]
  le_trans a b c := by simp only [le_def]; omega
  le_antisymm a b := by
    intro h h'
    simp only [le_def] at h h'
    exact StreamID.ext (by omega) (by omega)
  le_total a b := by simp only [le_def]; omega
  lt_iff_le_not_ge a b := by simp only [le_def, lt_def]; omega
  toDecidableLE := inferInstance
  toDecidableLT := inferInstance

theorem zero_le (a : StreamID) : zero ≤ a := by
  simp only [le_def, zero]
  omega

/-- The textual form `ms-seq`. -/
def toString (a : StreamID) : String := Nat.repr a.ms ++ "-" ++ Nat.repr a.seq

end StreamID

-- ============================================================================
-- Streams and consumer groups
-- ============================================================================

/-- A stream entry: its id and its field map. -/
structure Entry (V : Type) where
  id : StreamID
  values : V

/-- One element of a PEL: the entry, the consumer that holds it and when it was
    last delivered. -/
structure Pending where
  id : StreamID
  consumer : String
  deliveredAt : Nat

/-- A consumer group. -/
structure Group where
  lastDelivered : StreamID
  pel : List Pending
  sorted : (pel.map (·.id)).Pairwise (· < ·)
  pos : ∀ p ∈ pel, StreamID.zero < p.id
  le_last : ∀ p ∈ pel, p.id ≤ lastDelivered

/-- A stream with its consumer groups. -/
structure Stream (V : Type) where
  entries : List (Entry V)
  lastID : StreamID
  groups : String → Option Group
  sorted : entries.Pairwise (·.id < ·.id)
  pos : ∀ e ∈ entries, StreamID.zero < e.id
  le_last : ∀ e ∈ entries, e.id ≤ lastID
  delivered_le : ∀ n g, groups n = some g → g.lastDelivered ≤ lastID

namespace Stream

variable {V : Type}

/-- A stream nobody has written to. -/
def empty : Stream V where
  entries := []
  lastID := .zero
  groups := fun _ => none
  sorted := List.Pairwise.nil
  pos := by simp
  le_last := by simp
  delivered_le := by simp

/-- Entries of a stream are determined by their ids. -/
theorem eq_of_id {s : Stream V} {e e' : Entry V} (he : e ∈ s.entries) (he' : e' ∈ s.entries)
    (h : e.id = e'.id) : e = e' := by
  by_contra hne
  rcases List.mem_iff_append.mp he with ⟨l₁, l₂, hl⟩
  rw [hl] at he'
  have hs := s.sorted
  rw [hl, List.pairwise_append] at hs
  rcases List.mem_append.mp he' with h₁ | h₁
  · exact absurd h (ne_of_gt (hs.2.2 e' h₁ e (List.mem_cons_self ..)))
  · rcases List.mem_cons.mp h₁ with rfl | h₂
    · exact hne rfl
    · exact absurd h (ne_of_lt ((List.pairwise_cons.mp hs.2.1).1 e' h₂))

-- ============================================================================
-- Commands
-- ============================================================================

/-- XLEN. -/
def xlen (s : Stream V) : Nat := s.entries.length

/-- XRANGE `lo` `hi`, both ends included. -/
def xrange (s : Stream V) (lo hi : StreamID) : List (Entry V) :=
  s.entries.filter fun e => decide (lo ≤ e.id) && decide (e.id ≤ hi)

/-- XADD of a new entry with the id `id`, after which the `trim` oldest entries
    are evicted. -/
def xadd (s : Stream V) (id : StreamID) (h : s.lastID < id) (v : V) (trim : Nat) : Stream V where
  entries := (s.entries ++ [Entry.mk id v]).drop trim
  lastID := id
  groups := s.groups
  sorted := by
    refine List.Pairwise.sublist (List.drop_sublist _ _) ?_
    rw [List.pairwise_append]
    refine ⟨s.sorted, List.pairwise_singleton _ _, ?_⟩
    intro a ha b hb
    obtain rfl := List.mem_singleton.mp hb
    exact lt_of_le_of_lt (s.le_last a ha) h
  pos := by
    intro e he
    rcases List.mem_append.mp (List.mem_of_mem_drop he) with he | he
    · exact s.pos e he
    · obtain rfl := List.mem_singleton.mp he
      exact lt_of_le_of_lt (StreamID.zero_le _) h
  le_last := by
    intro e he
    rcases List.mem_append.mp (List.mem_of_mem_drop he) with he | he
    · exact (lt_of_le_of_lt (s.le_last e he) h).le
    · obtain rfl := List.mem_singleton.mp he
      exact le_refl _
  delivered_le := fun n g hg => (lt_of_le_of_lt (s.delivered_le n g hg) h).le

/-- XDEL of one id, with the number of entries deleted. -/
def xdel (s : Stream V) (id : StreamID) : Stream V × Nat :=
  ({ s with
      entries := s.entries.filter fun e => decide (e.id ≠ id)
      sorted := s.sorted.filter _
      pos := fun e he => s.pos e (List.mem_of_mem_filter he)
      le_last := fun e he => s.le_last e (List.mem_of_mem_filter he) },
   (s.entries.filter fun e => decide (e.id = id)).length)

/-- Replace the group `n`. -/
def setGroup (s : Stream V) (n : String) (g : Group) (h : g.lastDelivered ≤ s.lastID) :
    Stream V :=
  { s with
    groups := Function.update s.groups n (some g)
    delivered_le := by
      intro m g' hg'
      by_cases hm : m = n
      · subst hm
        obtain rfl : g = g' := by simpa using hg'
        exact h
      · rw [Function.update_of_ne hm] at hg'
        exact s.delivered_le m g' hg' }

/-- XGROUP CREATE `n` `0`; `none` is the BUSYGROUP error. -/
def xgroupCreate (s : Stream V) (n : String) : Option (Stream V) :=
  match s.groups n with
  | some _ => none
  | none =>
      some (s.setGroup n ⟨.zero, [], List.Pairwise.nil, by simp, by simp⟩ (StreamID.zero_le _))

/-- The oldest entry the group has not been given. -/
def nextEntry (s : Stream V) (g : Group) : Option (Entry V) :=
  s.entries.find? fun e => decide (g.lastDelivered < e.id)

theorem nextEntry_mem {s : Stream V} {g : Group} {e : Entry V} (h : s.nextEntry g = some e) :
    e ∈ s.entries ∧ g.lastDelivered < e.id :=
  ⟨List.mem_of_find?_eq_some h, by simpa using List.find?_some h⟩

/-- Every other entry the group has not been given comes after the next one. -/
theorem nextEntry_le {s : Stream V} {g : Group} {e x : Entry V} (h : s.nextEntry g = some e)
    (hx : x ∈ s.entries) (hgx : g.lastDelivered < x.id) : e.id ≤ x.id := by
  obtain ⟨-, l₁, l₂, hl, hfirst⟩ := List.find?_eq_some_iff_append.mp h
  rw [hl] at hx
  have hs := s.sorted
  rw [hl, List.pairwise_append] at hs
  rcases List.mem_append.mp hx with hx | hx
  · have := hfirst x hx
    simp only [Bool.not_eq_true', decide_eq_false_iff_not] at this
    exact absurd hgx this
  · rcases List.mem_cons.mp hx with rfl | hx
    · exact le_refl _
    · exact ((List.pairwise_cons.mp hs.2.1).1 x hx).le

/-- The group after the entry `e` was delivered to `consumer` at time `now`. -/
def Group.deliver (g : Group) (id : StreamID) (h : g.lastDelivered < id) (consumer : String)
    (now : Nat) : Group where
  lastDelivered := id
  pel := g.pel ++ [⟨id, consumer, now⟩]
  sorted := by
    rw [List.map_append, List.pairwise_append]
    refine ⟨g.sorted, by simp, ?_⟩
    intro a ha b hb
    obtain ⟨p, hp, rfl⟩ := List.mem_map.mp ha
    obtain rfl : b = id := by simpa using hb
    exact lt_of_le_of_lt (g.le_last p hp) h
  pos := by
    intro p hp
    rcases List.mem_append.mp hp with hp | hp
    · exact g.pos p hp
    · obtain rfl := List.mem_singleton.mp hp
      exact lt_of_le_of_lt (StreamID.zero_le _) h
  le_last := by
    intro p hp
    rcases List.mem_append.mp hp with hp | hp
    · exact (lt_of_le_of_lt (g.le_last p hp) h).le
    · obtain rfl := List.mem_singleton.mp hp
      exact le_refl _

/-- XREADGROUP GROUP `n` `consumer` COUNT 1 STREAMS .. `>`: the next entry, if
    there is one, delivered to the consumer.  `none` is the NOGROUP error. -/
def xreadgroup (s : Stream V) (n consumer : String) (now : Nat) :
    Option (Option (Entry V) × Stream V) :=
  match s.groups n with
  | none => none
  | some g =>
      match h : s.nextEntry g with
      | none => some (none, s)
      | some e =>
          some (some e, s.setGroup n (Group.deliver g e.id (nextEntry_mem h).2 consumer now)
            (s.le_last e (nextEntry_mem h).1))

/-- The group after an acknowledgement of `id`. -/
def Group.ack (g : Group) (id : StreamID) : Group where
  lastDelivered := g.lastDelivered
  pel := g.pel.filter fun p => decide (p.id ≠ id)
  sorted := g.sorted.sublist (List.filter_sublist.map _)
  pos := fun p hp => g.pos p (List.mem_of_mem_filter hp)
  le_last := fun p hp => g.le_last p (List.mem_of_mem_filter hp)

/-- XACK of one id, with the number of pending entries acknowledged. -/
def xack (s : Stream V) (n : String) (id : StreamID) : Stream V × Nat :=
  match h : s.groups n with
  | none => (s, 0)
  | some g =>
      (s.setGroup n (Group.ack g id) (s.delivered_le n g h),
       (g.pel.filter fun p => decide (p.id = id)).length)

/-- One XAUTOCLAIM scan over pending elements in id order.  At most `scan`
    elements are examined and at most `count` claimed; an element whose entry is
    no longer stored is dropped from the PEL.  The result is the rest of the PEL,
    the ids claimed and the first element not examined. -/
def claimScan (stored : StreamID → Bool) (idle : Pending → Bool) (claim : Pending → Pending) :
    Nat → Nat → List Pending → List Pending × List StreamID × Option StreamID
  | _, _, [] => ([], [], none)
  | 0, _, p :: ps => (p :: ps, [], some p.id)
  | _ + 1, 0, p :: ps => (p :: ps, [], some p.id)
  | scan + 1, count + 1, p :: ps =>
      if stored p.id then
        if idle p then
          let r := claimScan stored idle claim scan count ps
          (claim p :: r.1, p.id :: r.2.1, r.2.2)
        else
          let r := claimScan stored idle claim scan (count + 1) ps
          (p :: r.1, r.2)
      else claimScan stored idle claim scan (count + 1) ps

/-- A scan keeps the ids of the PEL in place, less some it drops. -/
theorem claimScan_ids_sublist {stored : StreamID → Bool} {idle : Pending → Bool}
    {claim : Pending → Pending} (hclaim : ∀ p, (claim p).id = p.id) (scan count : Nat)
    (ps : List Pending) :
    List.Sublist ((claimScan stored idle claim scan count ps).1.map (·.id)) (ps.map (·.id)) := by
  fun_induction claimScan stored idle claim scan count ps with
  | case1 => exact List.Sublist.refl _
  | case2 => exact List.Sublist.refl _
  | case3 => exact List.Sublist.refl _
  | case4 scan count p ps _ _ r ih =>
      simp only [List.map_cons, hclaim]
      exact ih.cons_cons _
  | case5 scan count p ps _ _ r ih => exact ih.cons_cons _
  | case6 scan count p ps _ ih => exact ih.cons _

/-- A scan drops no element whose entry is still stored. -/
theorem mem_claimScan {stored : StreamID → Bool} {idle : Pending → Bool}
    {claim : Pending → Pending} (hclaim : ∀ p, (claim p).id = p.id) {scan count : Nat}
    {ps : List Pending} {id : StreamID} (h : ∃ p ∈ ps, p.id = id) (hst : stored id = true) :
    ∃ p ∈ (claimScan stored idle claim scan count ps).1, p.id = id := by
  fun_induction claimScan stored idle claim scan count ps with
  | case1 => exact h
  | case2 => exact h
  | case3 => exact h
  | case4 scan count p ps _ _ r ih =>
      obtain ⟨q, hq, rfl⟩ := h
      rcases List.mem_cons.mp hq with rfl | hq
      · exact ⟨claim q, List.mem_cons_self .., hclaim q⟩
      · obtain ⟨x, hx, hxid⟩ := ih ⟨q, hq, rfl⟩
        exact ⟨x, List.mem_cons_of_mem _ hx, hxid⟩
  | case5 scan count p ps _ _ r ih =>
      obtain ⟨q, hq, rfl⟩ := h
      rcases List.mem_cons.mp hq with rfl | hq
      · exact ⟨q, List.mem_cons_self .., rfl⟩
      · obtain ⟨x, hx, hxid⟩ := ih ⟨q, hq, rfl⟩
        exact ⟨x, List.mem_cons_of_mem _ hx, hxid⟩
  | case6 scan count p ps hns ih =>
      obtain ⟨q, hq, rfl⟩ := h
      rcases List.mem_cons.mp hq with rfl | hq
      · exact absurd hst hns
      · exact ih ⟨q, hq, rfl⟩

/-- The scan an XAUTOCLAIM from `start` makes over the PEL of a group. -/
def Group.scan (g : Group) (stored : StreamID → Bool) (consumer : String) (minIdle now : Nat)
    (start : StreamID) (count scan : Nat) : List Pending × List StreamID × Option StreamID :=
  claimScan stored (fun p => decide (minIdle ≤ now - p.deliveredAt))
    (fun p => ⟨p.id, consumer, now⟩) scan count
    (g.pel.filter fun p => decide (start ≤ p.id))

theorem Group.scan_ids_sublist (g : Group) (stored : StreamID → Bool) (consumer : String)
    (minIdle now : Nat) (start : StreamID) (count scan : Nat) :
    List.Sublist ((Group.scan g stored consumer minIdle now start count scan).1.map (·.id))
      ((g.pel.filter fun p => decide (start ≤ p.id)).map (·.id)) := by
  unfold Group.scan
  apply claimScan_ids_sublist
  intro p
  rfl

/-- The group after an XAUTOCLAIM from `start`. -/
def Group.claim (g : Group) (stored : StreamID → Bool) (consumer : String) (minIdle now : Nat)
    (start : StreamID) (count scan : Nat) : Group where
  lastDelivered := g.lastDelivered
  pel := (g.pel.filter fun p => decide (p.id < start)) ++
    (Group.scan g stored consumer minIdle now start count scan).1
  sorted := by
    have hsub := Group.scan_ids_sublist g stored consumer minIdle now start count scan
    rw [List.map_append, List.pairwise_append]
    refine ⟨g.sorted.sublist (List.filter_sublist.map _),
      g.sorted.sublist (hsub.trans (List.filter_sublist.map _)), ?_⟩
    intro a ha b hb
    obtain ⟨p, hp, rfl⟩ := List.mem_map.mp ha
    obtain ⟨q, hq, rfl⟩ := List.mem_map.mp (hsub.subset hb)
    have h1 : p.id < start := by simpa using List.of_mem_filter hp
    have h2 : start ≤ q.id := by simpa using List.of_mem_filter hq
    exact lt_of_lt_of_le h1 h2
  pos := by
    have hsub := Group.scan_ids_sublist g stored consumer minIdle now start count scan
    intro p hp
    rcases List.mem_append.mp hp with hp | hp
    · exact g.pos p (List.mem_of_mem_filter hp)
    · obtain ⟨q, hq, hqp⟩ := List.mem_map.mp (hsub.subset (List.mem_map_of_mem hp))
      exact hqp ▸ g.pos q (List.mem_of_mem_filter hq)
  le_last := by
    have hsub := Group.scan_ids_sublist g stored consumer minIdle now start count scan
    intro p hp
    rcases List.mem_append.mp hp with hp | hp
    · exact g.le_last p (List.mem_of_mem_filter hp)
    · obtain ⟨q, hq, hqp⟩ := List.mem_map.mp (hsub.subset (List.mem_map_of_mem hp))
      exact hqp ▸ g.le_last q (List.mem_of_mem_filter hq)

/-- Whether an entry with this id is stored. -/
def stored (s : Stream V) (id : StreamID) : Bool := s.entries.any fun e => decide (e.id = id)

/-- XAUTOCLAIM: the entries claimed, the cursor (`0-0` at the end) and the
    stream.  `none` is the NOGROUP error. -/
def xautoclaim (s : Stream V) (n consumer : String) (minIdle now : Nat) (start : StreamID)
    (count scan : Nat) : Option (List (Entry V) × StreamID × Stream V) :=
  match h : s.groups n with
  | none => none
  | some g =>
      let r := Group.scan g s.stored consumer minIdle now start count scan
      some (r.2.1.filterMap fun id => s.entries.find? fun e => decide (e.id = id),
        r.2.2.getD .zero,
        s.setGroup n (Group.claim g s.stored consumer minIdle now start count scan)
          (s.delivered_le n g h))

/-- XPENDING, the summary form: how many entries are pending and the smallest
    pending id.  `none` is the NOGROUP error. -/
def xpending (s : Stream V) (n : String) : Option (Nat × Option StreamID) :=
  (s.groups n).map fun g => (g.pel.length, g.pel.head?.map (·.id))

/-- The pending ids of a group; none while the group does not exist. -/
def pendingIDs (s : Stream V) (n : String) : List StreamID :=
  match s.groups n with
  | none => []
  | some g => g.pel.map (·.id)

end Stream

end LogPipeline.Redis
