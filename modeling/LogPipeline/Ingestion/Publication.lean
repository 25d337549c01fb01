/-
  LogPipeline.Ingestion.Publication

  The cached metrics, written and read one cell at a time.

  A process has one metrics updater at most (`updater_unique`), and it stores the four cells in a
  fixed order, the timestamp last (`reachable_inOrder`).  `Decision` loads the timestamp first, so
  that the figures it goes by are not older than the timestamp it has found fresh
  (`refusal_justified`).  `Stop` waits for the updater: when it has returned, nothing is read or
  stored any more (`stopped_throttler_silent`).
-/

import LogPipeline.Ingestion.Admission

namespace LogPipeline.Ingestion

open Conc Go Redis Cluster Queue Bootstrap

-- ============================================================================
-- The order of the stores
-- ============================================================================

/-- The event is a store to the cell. -/
def isStore (p : Nat) (m : Metric) : Ev ⊕ GatewayEv → Bool
  | .inr (.stored q k _) => q == p && k == m
  | _ => false

/-- The number of stores to a cell. -/
def storesOf (o : Trace) (p : Nat) (m : Metric) : Nat := o.countP (isStore p m)

/-- The cells are stored to in turn, the timestamp last. -/
structure InOrder (n : Metric → Nat) : Prop where
  updated_le_age : n .lastUpdated ≤ n .oldestMessageAge
  age_le_pending : n .oldestMessageAge ≤ n .pendingCount
  pending_le_depth : n .pendingCount ≤ n .streamDepth
  depth_le : n .streamDepth ≤ n .lastUpdated + 1

theorem InOrder.const (n : Nat) : InOrder fun _ => n :=
  ⟨Nat.le_refl n, Nat.le_refl n, Nat.le_refl n, Nat.le_succ n⟩

/-- The timestamp is not ahead of any cell. -/
theorem InOrder.updated_le {n : Metric → Nat} (h : InOrder n) (m : Metric) :
    n .lastUpdated ≤ n m := by
  obtain ⟨h₁, h₂, h₃, -⟩ := h
  cases m <;> omega

theorem InOrder.add {n : Metric → Nat} (h : InOrder n) (k : Nat) :
    InOrder fun m => n m + k := by
  obtain ⟨h₁, h₂, h₃, h₄⟩ := h
  exact ⟨by omega, by omega, by omega, by omega⟩

theorem isStore_iff {p : Nat} {m : Metric} {e : Ev ⊕ GatewayEv} :
    isStore p m e = true ↔ ∃ cell, e = .inr (.stored p m cell) := by
  constructor
  · intro h
    unfold isStore at h
    split at h
    · next q k cell =>
        obtain ⟨rfl, rfl⟩ : q = p ∧ k = m := by simpa using h
        exact ⟨cell, rfl⟩
    · cases h
  · rintro ⟨cell, rfl⟩
    simp [isStore]

theorem storesOf_append (o o' : Trace) (p : Nat) (m : Metric) :
    storesOf (o ++ o') p m = storesOf o p m + storesOf o' p m := List.countP_append ..

theorem storesOf_eq_zero {o : Trace} {p : Nat} {m : Metric}
    (h : ∀ cell, .inr (.stored p m cell) ∉ o) : storesOf o p m = 0 := by
  refine List.countP_eq_zero.mpr fun e he hst => ?_
  obtain ⟨cell, rfl⟩ := isStore_iff.mp hst
  exact h cell he

theorem suffix_append_cases {α : Type} {o a b : List α} (h : o <:+ a ++ b) :
    o <:+ b ∨ ∃ a', a' <:+ a ∧ o = a' ++ b := by
  rcases List.suffix_or_suffix_of_suffix h (List.suffix_append a b) with hb | hb
  · exact Or.inl hb
  · obtain ⟨a', rfl⟩ := hb
    refine Or.inr ⟨a', ?_, rfl⟩
    rw [List.suffix_append_self_iff] at h
    exact h

theorem storesOf_cons (p : Nat) (m : Metric) (e : Ev ⊕ GatewayEv) (o : Trace) :
    storesOf (e :: o) p m = storesOf o p m + if isStore p m e then 1 else 0 :=
  List.countP_cons ..

/-- Where nothing is stored. -/
theorem storesOf_of_none {o : Trace} {p : Nat} (h : ∀ m cell, .inr (.stored p m cell) ∉ o) :
    storesOf o p = fun _ => 0 := funext fun m => storesOf_eq_zero (h m)

/-- A round stores to all cells or to none, in order. -/
theorem Round.inOrder {t : Throttler} {p : Nat} {evs : List GatewayEv} (h : Round t p evs) :
    (∃ n, storesOf (evs.map Sum.inr) p = fun _ => n) ∧
      ∀ r, r <:+ evs.map Sum.inr → InOrder (storesOf r p) := by
  cases h with
  | failed hevs =>
      have hnone : ∀ m cell, .inr (.stored p m cell) ∉ (evs.map Sum.inr : Trace) := by
        intro m cell hmem
        obtain ⟨cmd, r, heq⟩ := hevs _ (by simpa using hmem)
        cases heq
      refine ⟨⟨0, storesOf_of_none hnone⟩, fun r hr => ?_⟩
      rw [storesOf_of_none fun m cell hmem => hnone m cell (hr.subset hmem)]
      exact .const 0
  | @published ns evs now depth pending age updated _ _ hread _ =>
      -- before the first store the round only reads
      generalize hrest : ((evs ++ (lengthEvents t.producer p 0 ns).reverse).map Sum.inr : Trace) =
        rest
      have hnone : ∀ m cell, .inr (.stored p m cell) ∉ rest := by
        intro m cell hmem
        rw [← hrest, List.mem_map] at hmem
        obtain ⟨e, he, heq⟩ := hmem
        cases heq
        rcases List.mem_append.mp he with he | he
        · rcases hread.mem _ he with ⟨now, heq⟩ | ⟨cmd, r, heq⟩ <;> cases heq
        · obtain ⟨cmd, r, heq⟩ := lengthEvents_mem _ (List.mem_reverse.mp he)
          cases heq
      have hzero := storesOf_of_none hnone
      rw [List.map_append, hrest]
      simp only [List.map_cons, List.map_nil, List.cons_append, List.nil_append]
      refine ⟨⟨1, ?_⟩, fun r hr => ?_⟩
      · funext m
        simp only [storesOf_cons, hzero]
        cases m <;> simp [isStore]
      · simp only [List.suffix_cons_iff] at hr
        rcases hr with rfl | rfl | rfl | rfl | rfl | hr
        · constructor <;> simp [storesOf_cons, hzero, isStore]
        · constructor <;> simp [storesOf_cons, hzero, isStore]
        · constructor <;> simp [storesOf_cons, hzero, isStore]
        · constructor <;> simp [storesOf_cons, hzero, isStore]
        · constructor <;> simp [storesOf_cons, hzero, isStore]
        · rw [storesOf_of_none fun m cell hmem => hnone m cell (hr.subset hmem)]
          exact .const 0

/-- Between two rounds all cells have been stored to equally often. -/
theorem Rounds.balanced {t : Throttler} {p : Nat} {o : Trace} (h : Rounds t p o) :
    ∃ n, storesOf o p = fun _ => n := by
  induction h with
  | start => exact ⟨0, storesOf_of_none (by simp)⟩
  | @round o evs hrounds hround ih =>
      obtain ⟨n, hn⟩ := ih
      obtain ⟨⟨k, hk⟩, -⟩ := hround.inOrder
      refine ⟨k + n, funext fun m => ?_⟩
      rw [storesOf_append, hk, hn]

/-- At any moment the updater has stored to the cells in order. -/
theorem Rounds.inOrder {t : Throttler} {p : Nat} {o full : Trace} (h : Rounds t p full)
    (ho : o <:+ full) : InOrder (storesOf o p) := by
  induction h generalizing o with
  | start =>
      rw [storesOf_of_none fun m cell hmem => by simpa using ho.subset hmem]
      exact .const 0
  | @round o' evs hrounds hround ih =>
      rcases suffix_append_cases ho with ho | ⟨r, hr, rfl⟩
      · exact ih ho
      · obtain ⟨n, hn⟩ := hrounds.balanced
        have hsum : storesOf (r ++ o') p = fun m => storesOf r p m + n := by
          funext m
          rw [storesOf_append, hn]
        rw [hsum]
        exact (hround.inOrder.2 r hr).add n

-- ============================================================================
-- The events of the updater
-- ============================================================================

/-- The events that only the updater of the process records. -/
inductive OfUpdater (p : Nat) : GatewayEv → Prop
  | updating : OfUpdater p (.updating p)
  | queried (cmd : Cmd) (r : Except RedisError cmd.Reply) : OfUpdater p (.queried p cmd r)
  | stored (m : Metric) (cell : Cell) : OfUpdater p (.stored p m cell)
  | exited : OfUpdater p (.exited p)

theorem Rounds.last {t : Throttler} {p : Nat} {o : Trace} (h : Rounds t p o) :
    o.getLast? = some (.inr (.updating p)) := by
  induction h with
  | start => rfl
  | round _ _ ih => rw [List.getLast?_append, ih]; rfl

section

variable {G : Gateway} {P : Policy G.world} {c : Conf G.world}

/-- The course of a task that records such an event. -/
theorem updater_course (hc : P.Reachable G.init c) {u p : Nat} {e : GatewayEv}
    (hp : OfUpdater p e) (he : .inr e ∈ ownEvents c.store.log u) :
    ∃ t full, G.throttler p = some t ∧ Rounds t p full ∧
      ownEvents c.store.log u <:+ .inr (.exited p) :: full ∧
      .inr (.updating p) ∈ ownEvents c.store.log u := by
  obtain ⟨full, hfull, hsuf⟩ := task_course hc u
  have hmem := hsuf.subset he
  cases hfull with
  | cluster evs => simp at hmem
  | @request _ _ _ o ho =>
      have hmem : .inr e ∈ o := (List.mem_cons.mp hmem).resolve_left (by
        rintro heq
        cases heq
        cases hp)
      rcases ho.mem hmem with rfl | ⟨_, rfl⟩ | ⟨_, rfl⟩ | ⟨_, _, rfl⟩ <;> cases hp
  | @updater t p' o _ ht ho heq =>
      -- whatever it has recorded so far, it began with `updating`
      have hpp : p' = p := by
        have hmem : e = .exited p' ∨ .inr e ∈ o := by
          rcases heq with rfl | rfl
          · exact Or.inr hmem
          · simpa using hmem
        rcases hmem with rfl | hmem
        · cases hp
          rfl
        · rcases ho.mem hmem with rfl | ⟨_, rfl⟩ | ⟨_, _, rfl⟩ | ⟨_, _, rfl⟩ <;> cases hp <;> rfl
      subst hpp
      refine ⟨t, o, ht, ho, ?_, ?_⟩
      · rcases heq with rfl | rfl
        · exact hsuf.trans (List.suffix_cons ..)
        · exact hsuf
      · have hlast : full.getLast? = some (.inr (.updating p')) := by
          rcases heq with rfl | rfl
          · exact ho.last
          · rw [List.getLast?_cons, ho.last]
            rfl
        obtain ⟨newer, rfl⟩ := hsuf
        have hne : ownEvents c.store.log u ≠ [] := List.ne_nil_of_mem he
        rw [List.getLast?_append_of_ne_nil _ hne] at hlast
        exact List.mem_of_getLast? hlast
  | stop ho =>
      rcases ho with rfl | ⟨-, rfl⟩ <;> cases hp <;> simp at hmem

end

-- ============================================================================
-- What a step does to the processes
-- ============================================================================

/-- Nothing happens to the cells and to the updaters. -/
structure Same (G : Gateway) (l l' : Nat → Process) : Prop where
  cells : ∀ p, (l' p).cells = (l p).cells
  wg : ∀ p, (l' p).wg = (l p).wg
  started : ∀ p, (l p).started = true → (l' p).started = true
  throttled : ∀ p, G.throttler p ≠ none → (l' p).started = (l p).started

theorem Same.refl {G : Gateway} {l : Nat → Process} : Same G l l :=
  ⟨fun _ => rfl, fun _ => rfl, fun _ h => h, fun _ _ => rfl⟩

/-- A change to one process that concerns its context or its `stopOnce`, or the set-up of one
    without a throttler. -/
theorem Same.update {G : Gateway} {l : Nat → Process} {p : Nat} {x : Process}
    (hcells : x.cells = (l p).cells) (hwg : x.wg = (l p).wg)
    (hstarted : x.started = (l p).started ∨ (x.started = true ∧ G.throttler p = none)) :
    Same G l (Function.update l p x) := by
  have hat : ∀ q, q = p ∧ Function.update l p x q = x ∨ Function.update l p x q = l q := by
    intro q
    by_cases hq : q = p
    · subst hq
      exact Or.inl ⟨rfl, Function.update_self ..⟩
    · exact Or.inr (Function.update_of_ne hq ..)
  refine ⟨fun q => ?_, fun q => ?_, fun q h => ?_, fun q h => ?_⟩ <;>
    rcases hat q with ⟨rfl, heq⟩ | heq <;> rw [heq]
  · exact hcells
  · exact hwg
  · rcases hstarted with hstarted | ⟨hstarted, -⟩
    · rw [hstarted]
      exact h
    · exact hstarted
  · exact h
  · rcases hstarted with hstarted | ⟨-, hnone⟩
    · exact hstarted
    · exact absurd hnone h

/-- The events that say nothing about the cells and the updaters. -/
def GatewayEv.Plain : GatewayEv → Prop
  | .received .. | .stamped _ | .clock _ | .queried .. | .stopped _ | .responded _ => True
  | _ => False

/-- What an event says about the processes before and after it. -/
inductive Happens (G : Gateway) : GatewayEv → (Nat → Process) → (Nat → Process) → Prop
  | load {l : Nat → Process} (p : Nat) (m : Metric) :
      Happens G (.loaded p m ((l p).cells m)) l l
  | store {l : Nat → Process} (p : Nat) (m : Metric) (v : Int64) :
      Happens G (.stored p m (((l p).store m v).cells m)) l
        (Function.update l p ((l p).store m v))
  | exit {l : Nat → Process} (p : Nat) :
      Happens G (.exited p) l (Function.update l p { l p with wg := (l p).wg - 1 })
  | wait {l : Nat → Process} {p : Nat} : (l p).wg = 0 → Happens G (.waited p) l l
  | setup {l : Nat → Process} {p : Nat} : (l p).started = false → G.throttler p ≠ none →
      Happens G (.updating p) l
        (Function.update l p { l p with started := true, wg := (l p).wg + 1 })
  | stop {l : Nat → Process} {p : Nat} : (l p).started = true → Happens G (.stopping p) l l
  | plain {l l' : Nat → Process} {e : GatewayEv} : e.Plain → Same G l l' → Happens G e l l'

section

variable {G : Gateway}

theorem exec_happens {ch : GatewayChoice} {o : Call} {s : Store} {l l' : Nat → Process}
    {r : o.Res} {ev : Option GatewayEv} (h : Gateway.exec ch o s l = some (r, l', ev)) :
    (ev = none ∧ Same G l l') ∨ ∃ e, ev = some e ∧ Happens G e l l' := by
  cases o with
  | timestamp | now | respond =>
      cases h
      exact Or.inr ⟨_, rfl, .plain trivial .refl⟩
  | load p m =>
      cases h
      exact Or.inr ⟨_, rfl, .load p m⟩
  | store p m v =>
      cases h
      exact Or.inr ⟨_, rfl, .store p m v⟩
  | query p cmd =>
      obtain ⟨r', -, heq⟩ := Option.map_eq_some_iff.mp h
      cases heq
      exact Or.inr ⟨_, rfl, .plain trivial .refl⟩
  | tick p =>
      cases h
      exact Or.inl ⟨rfl, .refl⟩
  | wgDone p =>
      cases h
      exact Or.inr ⟨_, rfl, .exit p⟩
  | onceEnter p =>
      simp only [Gateway.exec] at h
      split at h
      · cases h
        exact Or.inl ⟨rfl, .update rfl rfl (Or.inl rfl)⟩
      · cases h
      · cases h
        exact Or.inl ⟨rfl, .refl⟩
  | cancel p =>
      cases h
      exact Or.inl ⟨rfl, .update rfl rfl (Or.inl rfl)⟩
  | wgWait p =>
      simp only [Gateway.exec] at h
      split at h
      · next hwg =>
          cases h
          exact Or.inr ⟨_, rfl, .wait hwg⟩
      · cases h
  | onceLeave p =>
      cases h
      exact Or.inr ⟨_, rfl, .plain trivial (.update rfl rfl (Or.inl rfl))⟩

theorem startJob_happens {j : GatewayJob} {l l' : Nat → Process} {q : Handler Unit}
    {ev : Option GatewayEv} (h : G.startJob j l = some (q, l', ev)) :
    (ev = none ∧ Same G l l') ∨ ∃ e, ev = some e ∧ Happens G e l l' := by
  cases j with
  | setup p rounds =>
      simp only [Gateway.startJob] at h
      split at h
      · cases h
      next hnew =>
      split at h
      · next hnone =>
          cases h
          exact Or.inl ⟨rfl, .update rfl rfl (Or.inr ⟨rfl, hnone⟩)⟩
      · next t ht =>
          cases h
          exact Or.inr ⟨_, rfl, .setup (by simpa using hnew) (by simp [ht])⟩
  | request p req =>
      simp only [Gateway.startJob] at h
      split at h
      · cases h
        exact Or.inr ⟨_, rfl, .plain trivial .refl⟩
      · cases h
  | stop p =>
      simp only [Gateway.startJob] at h
      split at h
      · next hstarted =>
          cases h
          exact Or.inr ⟨_, rfl, .stop hstarted⟩
      · cases h

/-- One step of a run: nothing happens to the processes, or what the event says. -/
theorem step_happens {x y : Conf G.world} {a : Action G.world} (hxy : x.apply a = some y) :
    (Same G x.store.loc y.store.loc ∧ (y.store.log = x.store.log ∨
      ∃ who ev, y.store.log = ⟨x.store.log.length, who, .inl ev⟩ :: x.store.log)) ∨
    ∃ t e, Happens G e x.store.loc y.store.loc ∧
      y.store.log = ⟨x.store.log.length, some t, .inr e⟩ :: x.store.log := by
  have hbase : ∀ {b : Store} {who : Option Nat}, Records who x.store.base.log b.log →
      Same G x.store.loc (x.store.follow b).loc ∧ ((x.store.follow b).log = x.store.log ∨
        ∃ who ev, (x.store.follow b).log =
          ⟨x.store.log.length, who, .inl ev⟩ :: x.store.log) := by
    intro b who hrec
    rcases x.store.follow_cases hrec with ⟨-, heq⟩ | ⟨ev, -, heq⟩
    · rw [heq]
      exact ⟨.refl, Or.inl rfl⟩
    · rw [heq]
      exact ⟨.refl, Or.inr ⟨who, ev, rfl⟩⟩
  have hown : ∀ {l : Nat → Process} {t : Nat} {ev : Option GatewayEv},
      (ev = none ∧ Same G x.store.loc l) ∨ (∃ e, ev = some e ∧ Happens G e x.store.loc l) →
      (Same G x.store.loc (FrontStore.note { x.store with loc := l } (some t) ev).loc ∧
        ((FrontStore.note { x.store with loc := l } (some t) ev).log = x.store.log ∨
          ∃ who e, (FrontStore.note { x.store with loc := l } (some t) ev).log =
            ⟨x.store.log.length, who, .inl e⟩ :: x.store.log)) ∨
      ∃ t' e, Happens G e x.store.loc (FrontStore.note { x.store with loc := l } (some t) ev).loc ∧
        (FrontStore.note { x.store with loc := l } (some t) ev).log =
          ⟨x.store.log.length, some t', .inr e⟩ :: x.store.log := by
    rintro l t ev (⟨rfl, hsame⟩ | ⟨e, rfl, hhap⟩)
    · exact Or.inl ⟨hsame, Or.inl rfl⟩
    · exact Or.inr ⟨t, e, hhap, rfl⟩
  rcases Conf.apply_cases hxy with ⟨t, ch, o, k, r, s', -, -, hex, rfl⟩ | ⟨t, -, rfl⟩ |
    ⟨e, s', -, henv, rfl⟩ | ⟨j, q, s', -, hst, rfl⟩
  · cases o with
    | inl o =>
        obtain ⟨⟨r', b⟩, hb, heq⟩ := Option.map_eq_some_iff.mp hex
        cases heq
        exact Or.inl (hbase (Cluster.exec_records hb))
    | inr o =>
        obtain ⟨⟨r', l, ev⟩, hl, heq⟩ := Option.map_eq_some_iff.mp hex
        cases heq
        exact hown (exec_happens hl)
  · exact Or.inl ⟨.refl, Or.inl rfl⟩
  · cases e with
    | inl e =>
        obtain ⟨b, hb, rfl⟩ := Option.map_eq_some_iff.mp henv
        exact Or.inl (hbase (move_records hb))
    | inr e =>
        cases e with
        | signal p =>
            cases henv
            exact Or.inl ⟨.update rfl rfl (Or.inl rfl), Or.inl rfl⟩
  · cases j with
    | inl j =>
        obtain ⟨⟨q', b⟩, hb, heq⟩ := Option.map_eq_some_iff.mp hst
        cases heq
        exact Or.inl (hbase (startJob_records hb))
    | inr j =>
        obtain ⟨⟨q', l, ev⟩, hl, heq⟩ := Option.map_eq_some_iff.mp hst
        cases heq
        exact hown (startJob_happens hl)

/-- A step of the cluster records nothing of the processes. -/
theorem own_of_cluster {h h' : List (Event (Ev ⊕ GatewayEv))}
    (hlog : h' = h ∨ ∃ who ev, h' = ⟨h.length, who, .inl ev⟩ :: h) :
    (∀ e ∈ h, e ∈ h') ∧ ∀ e ∈ h', ∀ g, e.ev = .inr g → e ∈ h := by
  rcases hlog with rfl | ⟨who, ev, rfl⟩
  · exact ⟨fun _ he => he, fun _ he _ _ => he⟩
  · refine ⟨fun _ he => List.mem_cons_of_mem _ he, fun e he g hg => ?_⟩
    rcases List.mem_cons.mp he with rfl | he
    · cases hg
    · exact he

/-- A change to one process that keeps one of its fields. -/
theorem update_keeps {β : Type} (f : Process → β) {l : Nat → Process} {p : Nat} {x : Process}
    (hx : f x = f (l p)) (q : Nat) : f (Function.update l p x q) = f (l q) := by
  by_cases hq : q = p
  · subst hq
    rw [Function.update_self, hx]
  · rw [Function.update_of_ne hq]

/-- Set-up is the only event that starts an updater, and nothing takes it back. -/
theorem Happens.started {e : GatewayEv} {l l' : Nat → Process} (h : Happens G e l l') :
    (∀ p, (l p).started = true → (l' p).started = true) ∧
    (∀ p, G.throttler p ≠ none → e ≠ .updating p → (l' p).started = (l p).started) ∧
    ∀ p, e = .updating p → (l p).started = false ∧ (l' p).started = true := by
  cases h with
  | load p m => exact ⟨fun _ h => h, fun _ _ _ => rfl, nofun⟩
  | store p m v =>
      have hsame := update_keeps (·.started) (l := l) (p := p) (x := (l p).store m v) rfl
      exact ⟨fun q h => (hsame q).trans h, fun q _ _ => hsame q, nofun⟩
  | exit p =>
      have hsame := update_keeps (·.started) (l := l) (p := p)
        (x := { l p with wg := (l p).wg - 1 }) rfl
      exact ⟨fun q h => (hsame q).trans h, fun q _ _ => hsame q, nofun⟩
  | wait hwg => exact ⟨fun _ h => h, fun _ _ _ => rfl, nofun⟩
  | @setup _ p hnew hthr =>
      refine ⟨fun q h => ?_, fun q _ hne => ?_, fun q heq => ?_⟩
      · by_cases hq : q = p
        · subst hq
          rw [Function.update_self]
        · rw [Function.update_of_ne hq]
          exact h
      · have hq : q ≠ p := by
          rintro rfl
          exact hne rfl
        rw [Function.update_of_ne hq]
      · cases heq
        exact ⟨hnew, by rw [Function.update_self]⟩
  | stop hstarted => exact ⟨fun _ h => h, fun _ _ _ => rfl, nofun⟩
  | plain hplain hsame =>
      refine ⟨hsame.started, fun p hthr _ => hsame.throttled p hthr, ?_⟩
      rintro p rfl
      exact hplain.elim

/-- Each process has one updater at most, and one if it was set up with a throttler. -/
structure SetUp (s : FrontStore G.front) : Prop where
  owned : ∀ e ∈ s.log, ∀ g, e.ev = .inr g → ∃ t, e.tid = some t
  started : ∀ e ∈ s.log, ∀ p, e.ev = .inr (.updating p) → (s.loc p).started = true
  unique : ∀ e ∈ s.log, ∀ e' ∈ s.log, ∀ p, e.ev = .inr (.updating p) →
    e'.ev = .inr (.updating p) → e = e'
  present : ∀ p, G.throttler p ≠ none → (s.loc p).started = true →
    ∃ e ∈ s.log, e.ev = .inr (.updating p)

variable {P : Policy G.world} {c : Conf G.world}

theorem reachable_setUp (hc : P.Reachable G.init c) : SetUp c.store := by
  refine Reaches.invariant (I := fun c : Conf G.world => SetUp c.store) hc
    ⟨fun _ he => absurd he List.not_mem_nil, fun _ he => absurd he List.not_mem_nil,
      fun _ he => absurd he List.not_mem_nil, fun _ _ h => absurd h Bool.false_ne_true⟩ ?_
  intro x a y _ hI _ hxy
  rcases step_happens hxy with ⟨hsame, hlog⟩ | ⟨t, g, hhap, hlog⟩
  · obtain ⟨hold, hmem⟩ := own_of_cluster hlog
    refine ⟨fun e he g hg => hI.owned e (hmem e he g hg) g hg, fun e he p hp => ?_,
      fun e he e' he' p hp hp' => hI.unique e (hmem e he _ hp) e' (hmem e' he' _ hp') p hp hp',
      fun p hthr hst => ?_⟩
    · exact hsame.started p (hI.started e (hmem e he _ hp) p hp)
    · rw [hsame.throttled p hthr] at hst
      obtain ⟨e, he, hp⟩ := hI.present p hthr hst
      exact ⟨e, hold e he, hp⟩
  · obtain ⟨hmono, hkeep, hnew⟩ := hhap.started
    refine ⟨?_, ?_, ?_, ?_⟩
    · intro e he g' hg'
      rw [hlog] at he
      rcases List.mem_cons.mp he with rfl | he
      · exact ⟨t, rfl⟩
      · exact hI.owned e he g' hg'
    · intro e he p hp
      rw [hlog] at he
      rcases List.mem_cons.mp he with rfl | he
      · cases hp
        exact (hnew p rfl).2
      · exact hmono p (hI.started e he p hp)
    · -- a second set-up would find the process started
      intro e he e' he' p hp hp'
      rw [hlog] at he he'
      rcases List.mem_cons.mp he with rfl | hmem <;> rcases List.mem_cons.mp he' with rfl | hmem'
      · rfl
      · cases hp
        have := hI.started e' hmem' p hp'
        rw [(hnew p rfl).1] at this
        cases this
      · cases hp'
        have := hI.started e hmem p hp
        rw [(hnew p rfl).1] at this
        cases this
      · exact hI.unique e hmem e' hmem' p hp hp'
    · intro p hthr hst
      rw [hlog]
      by_cases hg : g = .updating p
      · subst hg
        exact ⟨_, List.mem_cons_self, rfl⟩
      · rw [hkeep p hthr hg] at hst
        obtain ⟨e, he, hp⟩ := hI.present p hthr hst
        exact ⟨e, List.mem_cons_of_mem _ he, hp⟩

/-- The task of the updater. -/
theorem updater_unique (hc : P.Reachable G.init c) {u u' p : Nat}
    (hu : .inr (.updating p) ∈ ownEvents c.store.log u)
    (hu' : .inr (.updating p) ∈ ownEvents c.store.log u') : u = u' := by
  obtain ⟨e, he, het, hev⟩ := mem_ownEvents.mp hu
  obtain ⟨e', he', het', hev'⟩ := mem_ownEvents.mp hu'
  obtain rfl := (reachable_setUp hc).unique e he e' he' p hev hev'
  rw [het] at het'
  exact Option.some.inj het'

/-- The number of stores to a cell in the history. -/
def storesIn (h : List (Event (Ev ⊕ GatewayEv))) (p : Nat) (m : Metric) : Nat :=
  h.countP fun e => isStore p m e.ev

/-- All stores to the cells of a process are its updater's. -/
theorem storesIn_eq (hc : P.Reachable G.init c) {u p : Nat}
    (hu : .inr (.updating p) ∈ ownEvents c.store.log u) (m : Metric) :
    storesIn c.store.log p m = storesOf (ownEvents c.store.log u) p m := by
  unfold storesIn storesOf ownEvents
  rw [List.countP_map, List.countP_filter]
  refine List.countP_congr fun e he => ?_
  simp only [Function.comp_apply, Bool.and_eq_true, decide_eq_true_eq]
  refine ⟨fun hst => ⟨hst, ?_⟩, fun h => h.1⟩
  obtain ⟨cell, hev⟩ := isStore_iff.mp hst
  obtain ⟨u', het⟩ := (reachable_setUp hc).owned e he _ hev
  obtain ⟨-, -, -, -, -, hu'⟩ := updater_course hc (p := p) (.stored m cell)
    (mem_ownEvents.mpr ⟨e, he, het, hev⟩)
  rw [het, updater_unique hc hu hu']

/-- At any moment of any run, the cells of a process have been stored to in order. -/
theorem reachable_inOrder (hc : P.Reachable G.init c) (p : Nat) :
    InOrder (storesIn c.store.log p) := by
  by_cases hnone : ∃ m, storesIn c.store.log p m ≠ 0
  · obtain ⟨m, hm⟩ := hnone
    obtain ⟨e, he, hst⟩ := List.countP_pos_iff.mp (Nat.pos_of_ne_zero hm)
    obtain ⟨cell, hev⟩ := isStore_iff.mp hst
    obtain ⟨u, het⟩ := (reachable_setUp hc).owned e he _ hev
    obtain ⟨t, full, -, hfull, hsuf, hu⟩ := updater_course hc (p := p)
      (.stored m cell) (mem_ownEvents.mpr ⟨e, he, het, hev⟩)
    rw [show storesIn c.store.log p = storesOf (ownEvents c.store.log u) p from
      funext (storesIn_eq hc hu)]
    rcases List.suffix_cons_iff.mp hsuf with heq | hsuf
    · obtain ⟨n, hn⟩ := hfull.balanced
      have hcount : storesOf (ownEvents c.store.log u) p = fun _ => n := by
        funext m
        rw [heq, storesOf_cons, hn]
        rfl
      rw [hcount]
      exact .const n
    · exact hfull.inOrder hsuf
  · have hzero : storesIn c.store.log p = fun _ => 0 := by
      funext m
      by_contra hm
      exact hnone ⟨m, hm⟩
    rw [hzero]
    exact .const 0

-- ============================================================================
-- What is loaded
-- ============================================================================

/-- The cell was stored, unless it is still as it was made. -/
def Published (h : List (Event (Ev ⊕ GatewayEv))) (p : Nat) (m : Metric) (cell : Cell) : Prop :=
  cell = .zero ∨ ∃ e ∈ h, e.ev = .inr (.stored p m cell)

theorem Published.mono {h h' : List (Event (Ev ⊕ GatewayEv))} {p : Nat} {m : Metric} {cell : Cell}
    (hpub : Published h p m cell) (hsub : ∀ e ∈ h, e ∈ h') : Published h' p m cell := by
  rcases hpub with hzero | ⟨e, he, hev⟩
  · exact Or.inl hzero
  · exact Or.inr ⟨e, hsub e he, hev⟩

/-- How the cells and the loads are tied to the stores. -/
structure CellsInv (s : FrontStore G.front) : Prop where
  version : ∀ p m, ((s.loc p).cells m).version = storesIn s.log p m
  published : ∀ p m, Published s.log p m ((s.loc p).cells m)
  loaded : ∀ e ∈ s.log, ∀ p m cell, e.ev = .inr (.loaded p m cell) →
    Published s.log p m cell ∧ cell.version ≤ storesIn s.log p m
  /-- A cell that is loaded after the timestamp is not older than it. -/
  later : ∀ e ∈ s.log, ∀ e' ∈ s.log, e'.seq < e.seq → ∀ p m cell cell',
    e'.ev = .inr (.loaded p .lastUpdated cell') → e.ev = .inr (.loaded p m cell) →
    cell'.version ≤ cell.version

theorem storesIn_cons (e : Event (Ev ⊕ GatewayEv)) (h : List (Event (Ev ⊕ GatewayEv))) (p : Nat)
    (m : Metric) : storesIn (e :: h) p m = storesIn h p m + if isStore p m e.ev then 1 else 0 :=
  List.countP_cons ..

/-- A new event that is neither a load nor a store, or none. -/
theorem CellsInv.plain {s s' : FrontStore G.front} (hI : CellsInv s)
    (hcells : ∀ p, (s'.loc p).cells = (s.loc p).cells)
    (hlog : s'.log = s.log ∨ ∃ e, s'.log = e :: s.log ∧
      (∀ p m cell, e.ev ≠ .inr (.loaded p m cell)) ∧
      ∀ p m cell, e.ev ≠ .inr (.stored p m cell)) : CellsInv s' := by
  have hsub : ∀ e ∈ s.log, e ∈ s'.log := by
    intro e he
    rcases hlog with hlog | ⟨new, hlog, -⟩ <;> rw [hlog]
    · exact he
    · exact List.mem_cons_of_mem _ he
  have hmem : ∀ e ∈ s'.log, ∀ p m cell, e.ev = .inr (.loaded p m cell) → e ∈ s.log := by
    intro e he p m cell hev
    rcases hlog with hlog | ⟨new, hlog, hload, -⟩
    · rwa [hlog] at he
    · rw [hlog] at he
      rcases List.mem_cons.mp he with rfl | he
      · exact absurd hev (hload p m cell)
      · exact he
  have hstores : ∀ p m, storesIn s'.log p m = storesIn s.log p m := by
    intro p m
    rcases hlog with hlog | ⟨new, hlog, -, hstore⟩
    · rw [hlog]
    · rw [hlog, storesIn_cons, if_neg, Nat.add_zero]
      intro hst
      obtain ⟨cell, hev⟩ := isStore_iff.mp hst
      exact hstore p m cell hev
  refine ⟨fun p m => ?_, fun p m => ?_, fun e he p m cell hev => ?_,
    fun e he e' he' hlt p m cell cell' hev' hev => ?_⟩
  · rw [hcells, hstores]
    exact hI.version p m
  · rw [hcells]
    exact (hI.published p m).mono hsub
  · obtain ⟨hpub, hle⟩ := hI.loaded e (hmem e he p m cell hev) p m cell hev
    rw [hstores]
    exact ⟨hpub.mono hsub, hle⟩
  · exact hI.later e (hmem e he _ _ _ hev) e' (hmem e' he' _ _ _ hev') hlt p m cell cell' hev' hev

theorem CellsInv.load {s s' : FrontStore G.front} (hI : CellsInv s)
    (horder : ∀ p, InOrder (storesIn s.log p)) (hloc : s'.loc = s.loc) {t p : Nat} {m : Metric}
    (hlog : s'.log = ⟨s.log.length, some t, .inr (.loaded p m ((s.loc p).cells m))⟩ :: s.log)
    (hseq : ∀ e ∈ s.log, e.seq < s.log.length) : CellsInv s' := by
  have hsub : ∀ e ∈ s.log, e ∈ s'.log := by
    intro e he
    rw [hlog]
    exact List.mem_cons_of_mem _ he
  have hstores : ∀ q k, storesIn s'.log q k = storesIn s.log q k := by
    intro q k
    rw [hlog, storesIn_cons]
    rfl
  refine ⟨fun q k => ?_, fun q k => ?_, fun e he q k cell hev => ?_,
    fun e he e' he' hlt q k cell cell' hev' hev => ?_⟩
  · rw [hloc, hstores]
    exact hI.version q k
  · rw [hloc]
    exact (hI.published q k).mono hsub
  · rw [hstores]
    rw [hlog] at he
    rcases List.mem_cons.mp he with rfl | he
    · cases hev
      exact ⟨(hI.published p m).mono hsub, (hI.version p m).le⟩
    · obtain ⟨hpub, hle⟩ := hI.loaded e he q k cell hev
      exact ⟨hpub.mono hsub, hle⟩
  · rw [hlog] at he he'
    rcases List.mem_cons.mp he with rfl | he
    · -- the timestamp was loaded before; by now the cells are at least as new
      rcases List.mem_cons.mp he' with rfl | he'
      · exact absurd hlt (Nat.lt_irrefl _)
      · cases hev
        have hle := (hI.loaded e' he' _ _ _ hev').2
        rw [hI.version]
        exact hle.trans ((horder p).updated_le m)
    · rcases List.mem_cons.mp he' with rfl | he'
      · exact absurd (hseq e he) (Nat.not_lt.mpr hlt.le)
      · exact hI.later e he e' he' hlt q k cell cell' hev' hev

theorem CellsInv.store {s s' : FrontStore G.front} (hI : CellsInv s) {t p : Nat} {m : Metric}
    {v : Int64} (hloc : s'.loc = Function.update s.loc p ((s.loc p).store m v))
    (hlog : s'.log =
      ⟨s.log.length, some t, .inr (.stored p m (((s.loc p).store m v).cells m))⟩ :: s.log) :
    CellsInv s' := by
  have hsub : ∀ e ∈ s.log, e ∈ s'.log := by
    intro e he
    rw [hlog]
    exact List.mem_cons_of_mem _ he
  have hmem : ∀ e ∈ s'.log, ∀ q k cell, e.ev = .inr (.loaded q k cell) → e ∈ s.log := by
    intro e he q k cell hev
    rw [hlog] at he
    rcases List.mem_cons.mp he with rfl | he
    · cases hev
    · exact he
  have hcells : ∀ q k, (q = p ∧ k = m ∧
      (s'.loc q).cells k = ⟨v, ((s.loc p).cells m).version + 1⟩) ∨
      (¬ (q = p ∧ k = m) ∧ (s'.loc q).cells k = (s.loc q).cells k) := by
    intro q k
    rw [hloc]
    by_cases hq : q = p
    · subst hq
      rw [Function.update_self]
      by_cases hk : k = m
      · subst hk
        exact Or.inl ⟨rfl, rfl, Function.update_self ..⟩
      · exact Or.inr ⟨fun h => hk h.2, Function.update_of_ne hk ..⟩
    · rw [Function.update_of_ne hq]
      exact Or.inr ⟨fun h => hq h.1, rfl⟩
  have hstores : ∀ q k, storesIn s'.log q k =
      storesIn s.log q k + if q = p ∧ k = m then 1 else 0 := by
    intro q k
    have hiff : ∀ cell, isStore q k (.inr (.stored p m cell)) = true ↔ q = p ∧ k = m := by
      intro cell
      simp only [isStore, Bool.and_eq_true, beq_iff_eq]
      exact and_congr eq_comm eq_comm
    rw [hlog, storesIn_cons]
    simp only [hiff]
  refine ⟨fun q k => ?_, fun q k => ?_, fun e he q k cell hev => ?_,
    fun e he e' he' hlt q k cell cell' hev' hev => ?_⟩
  · rw [hstores]
    rcases hcells q k with ⟨rfl, rfl, heq⟩ | ⟨hne, heq⟩
    · rw [heq, if_pos ⟨rfl, rfl⟩, ← hI.version]
    · rw [heq, if_neg hne, hI.version, Nat.add_zero]
  · rcases hcells q k with ⟨rfl, rfl, heq⟩ | ⟨hne, heq⟩
    · refine Or.inr ⟨_, by rw [hlog]; exact List.mem_cons_self, ?_⟩
      rw [heq]
      simp [Process.store]
    · rw [heq]
      exact (hI.published q k).mono hsub
  · obtain ⟨hpub, hle⟩ := hI.loaded e (hmem e he q k cell hev) q k cell hev
    rw [hstores]
    exact ⟨hpub.mono hsub, hle.trans (Nat.le_add_right ..)⟩
  · exact hI.later e (hmem e he _ _ _ hev) e' (hmem e' he' _ _ _ hev') hlt q k cell cell' hev' hev

/-- What an event says about the cells. -/
theorem Happens.cells {e : GatewayEv} {l l' : Nat → Process} (h : Happens G e l l') :
    ((∀ p, (l' p).cells = (l p).cells) ∧ (∀ p m cell, e ≠ .loaded p m cell) ∧
      ∀ p m cell, e ≠ .stored p m cell) ∨
    (∃ p m, l' = l ∧ e = .loaded p m ((l p).cells m)) ∨
    ∃ p m v, l' = Function.update l p ((l p).store m v) ∧
      e = .stored p m (((l p).store m v).cells m) := by
  cases h with
  | load p m => exact Or.inr (Or.inl ⟨p, m, rfl, rfl⟩)
  | store p m v => exact Or.inr (Or.inr ⟨p, m, v, rfl, rfl⟩)
  | exit p => exact Or.inl ⟨update_keeps (·.cells) rfl, nofun, nofun⟩
  | wait hwg => exact Or.inl ⟨fun _ => rfl, nofun, nofun⟩
  | setup hnew hthr => exact Or.inl ⟨update_keeps (·.cells) rfl, nofun, nofun⟩
  | stop hstarted => exact Or.inl ⟨fun _ => rfl, nofun, nofun⟩
  | plain hplain hsame =>
      refine Or.inl ⟨hsame.cells, ?_, ?_⟩
      · rintro p m cell rfl
        exact hplain
      · rintro p m cell rfl
        exact hplain

theorem reachable_cells (hc : P.Reachable G.init c) : CellsInv c.store := by
  refine Reaches.invariant (I := fun c : Conf G.world => CellsInv c.store) hc
    ⟨fun _ _ => rfl, fun _ _ => Or.inl rfl, fun _ he => absurd he List.not_mem_nil,
      fun _ he => absurd he List.not_mem_nil⟩ ?_
  intro x a y hx hI _ hxy
  have hseq : ∀ e ∈ x.store.log, e.seq < x.store.log.length := fun e he =>
    (Policy.Reachable.ordered rfl hx).stamped.seq_lt he
  rcases step_happens hxy with ⟨hsame, hlog⟩ | ⟨t, g, hhap, hlog⟩
  · refine hI.plain hsame.cells ?_
    rcases hlog with hlog | ⟨who, ev, hlog⟩
    · exact Or.inl hlog
    · exact Or.inr ⟨_, hlog, nofun, nofun⟩
  · rcases hhap.cells with ⟨hcells, hload, hstore⟩ | ⟨p, m, hloc, rfl⟩ | ⟨p, m, v, hloc, rfl⟩
    · refine hI.plain hcells (Or.inr ⟨_, hlog, ?_, ?_⟩)
      · intro p m cell heq
        exact hload p m cell (Sum.inr.inj heq)
      · intro p m cell heq
        exact hstore p m cell (Sum.inr.inj heq)
    · exact hI.load (reachable_inOrder hx) hloc hlog hseq
    · exact hI.store hloc hlog

-- ============================================================================
-- Refusals
-- ============================================================================

/-- The cell was stored in an update of the process, which may still be under way; what it
    stores is what it has read (`Round.published`). -/
def StoredInRound (G : Gateway) (h : List (Event (Ev ⊕ GatewayEv))) (p : Nat) (m : Metric)
    (cell : Cell) : Prop :=
  ∃ u thr evs r o₁ o₂, G.throttler p = some thr ∧ Round thr p evs ∧ r <:+ evs ∧
    .stored p m cell ∈ r ∧ ownEvents h u = o₁ ++ (r.map Sum.inr ++ o₂)

theorem Rounds.stored {t : Throttler} {p : Nat} {o full : Trace} (h : Rounds t p full)
    (ho : o <:+ full) {m : Metric} {cell : Cell} (hst : .inr (.stored p m cell) ∈ o) :
    ∃ evs r o₁ o₂, Round t p evs ∧ r <:+ evs ∧ .stored p m cell ∈ r ∧
      o = o₁ ++ (r.map Sum.inr ++ o₂) := by
  induction h generalizing o with
  | start => simpa using ho.subset hst
  | @round o' evs hrounds hround ih =>
      rcases suffix_append_cases ho with ho | ⟨a, ha, rfl⟩
      · exact ih ho hst
      · obtain ⟨r, hr, rfl⟩ := List.suffix_map_iff.mp ha
        rcases List.mem_append.mp hst with hst | hst
        · exact ⟨evs, r, [], o', hround, hr, by simpa using hst, rfl⟩
        · obtain ⟨evs', r', o₁, o₂, hround', hr', hmem, heq⟩ := ih List.suffix_rfl hst
          exact ⟨evs', r', r.map Sum.inr ++ o₁, o₂, hround', hr', hmem, by
            rw [List.append_assoc, ← heq]⟩

theorem Published.inRound (hc : P.Reachable G.init c) {p : Nat} {m : Metric} {cell : Cell}
    (h : Published c.store.log p m cell) :
    cell = .zero ∨ StoredInRound G c.store.log p m cell := by
  rcases h with hzero | ⟨e, he, hev⟩
  · exact Or.inl hzero
  obtain ⟨u, het⟩ := (reachable_setUp hc).owned e he _ hev
  have hst : .inr (.stored p m cell) ∈ ownEvents c.store.log u :=
    mem_ownEvents.mpr ⟨e, he, het, hev⟩
  obtain ⟨thr, full, hthr, hfull, hsuf, -⟩ := updater_course hc (p := p)
    (.stored m cell) hst
  right
  rcases List.suffix_cons_iff.mp hsuf with heq | hsuf
  · rw [heq] at hst
    obtain ⟨evs, r, o₁, o₂, hround, hr, hmem, hfeq⟩ :=
      hfull.stored List.suffix_rfl ((List.mem_cons.mp hst).resolve_left (by simp))
    exact ⟨u, thr, evs, r, .inr (.exited p) :: o₁, o₂, hthr, hround, hr, hmem, by
      rw [heq, hfeq, List.cons_append]⟩
  · obtain ⟨evs, r, o₁, o₂, hround, hr, hmem, hfeq⟩ := hfull.stored hsuf hst
    exact ⟨u, thr, evs, r, o₁, o₂, hthr, hround, hr, hmem, hfeq⟩

/-- A refusal is a decision by metrics that were fresh. -/
theorem Decided.refused {p : Nat} {throttler : Option Throttler}
    {r : ThrottleDecision × Duration} {evs : List GatewayEv} (h : Decided p throttler r evs)
    (hr : r.1 ≠ .allow) : ∃ thr m now first, throttler = some thr ∧
      ¬ thr.Stale (.ofCells m) now ∧ r = thr.decision (.ofCells m) now ∧
      evs = first ++ sampled p m now := by
  cases h with
  | noop => exact absurd rfl hr
  | disabled => exact absurd rfl hr
  | stale => exact absurd rfl hr
  | @fresh thr m now evs hen hfresh hevs =>
      rcases hevs with rfl | rfl
      · exact ⟨thr, m, now, [], rfl, hfresh, rfl, rfl⟩
      · exact ⟨thr, m, now, [_], rfl, hfresh, rfl, rfl⟩

theorem Answered.refused {p : Nat} {req : Request} {resp : Response} {o : Trace}
    (h : Answered G p req resp o) (hstatus : resp.status = 429 ∨ resp.status = 503) :
    ∃ r decided rest, Decided p (G.throttler p) r decided ∧ r.1 ≠ .allow ∧
      o = decided.map Sum.inr ++ rest := by
  cases h with
  | malformed => simp at hstatus
  | ingested hchosen hevs =>
      cases hevs with
      | circuitOpen hd => exact ⟨_, _, _, hd, nofun, rfl⟩
      | rateLimited hd => exact ⟨_, _, _, hd, nofun, rfl⟩
      | invalid => cases req <;> simp [responseTo, Gateway.refusal] at hstatus
      | failed => cases req <;> simp [responseTo, Gateway.refusal] at hstatus
      | accepted => cases req <;> simp [responseTo, Gateway.acceptance] at hstatus

/-- A request is refused by figures that the process has read.  The depth and the age it is
    judged by were stored in updates that are not older than the one whose timestamp was found
    fresh, although all four cells are written and read one at a time. -/
theorem refusal_justified (hc : P.Reachable G.init c) {t p : Nat} {req : Request}
    {resp : Response} (hreq : .inr (.received p req) ∈ ownEvents c.store.log t)
    (hresp : .inr (.responded resp) ∈ ownEvents c.store.log t)
    (hstatus : resp.status = 429 ∨ resp.status = 503) :
    ∃ thr m now, G.throttler p = some thr ∧ ¬ thr.Stale (.ofCells m) now ∧
      (thr.decision (.ofCells m) now).1 ≠ .allow ∧
      ∀ k, k ≠ .pendingCount → .inr (.loaded p k (m k)) ∈ ownEvents c.store.log t ∧
        (m .lastUpdated).version ≤ (m k).version ∧
        (m k = .zero ∨ StoredInRound G c.store.log p k (m k)) := by
  obtain ⟨o, ho, hown⟩ := answered_course hc hreq hresp
  obtain ⟨r, decided, rest, hdecided, hr, rfl⟩ := ho.refused hstatus
  obtain ⟨thr, m, now, first, hthr, hfresh, rfl, rfl⟩ := hdecided.refused hr
  have hstamped := (Policy.Reachable.ordered rfl hc).stamped
  have hcells := reachable_cells hc
  refine ⟨thr, m, now, hthr, hfresh, hr, fun k hk => ?_⟩
  have hmem : .inr (.loaded p k (m k)) ∈ ownEvents c.store.log t := by
    rw [hown]
    cases k <;> simp [sampled] at hk ⊢
  obtain ⟨e, he, het, hev⟩ := mem_ownEvents.mp hmem
  refine ⟨hmem, ?_, (hcells.loaded e he p k _ hev).1.inRound hc⟩
  -- the timestamp is loaded first
  have hlater : ∀ {o₁ o₂ o₃ : Trace}, ownEvents c.store.log t =
      o₁ ++ .inr (.loaded p k (m k)) ::
        (o₂ ++ .inr (.loaded p .lastUpdated (m .lastUpdated)) :: o₃) →
      (m .lastUpdated).version ≤ (m k).version := by
    intro o₁ o₂ o₃ heq
    obtain ⟨e, he, e', he', hev, hev', hlt⟩ := hstamped.exists_lt heq
    exact hcells.later e he e' he' hlt p k _ _ hev' hev
  cases k with
  | lastUpdated => exact Nat.le_refl _
  | pendingCount => exact absurd rfl hk
  | streamDepth =>
      have heq : ownEvents c.store.log t = .inr (.responded resp) :: (first.map Sum.inr ++
          [.inr (.loaded p .oldestMessageAge (m .oldestMessageAge))]) ++
          .inr (.loaded p .streamDepth (m .streamDepth)) :: ([.inr (.clock now)] ++
            .inr (.loaded p .lastUpdated (m .lastUpdated)) :: rest) := by
        rw [hown]
        simp [sampled]
      exact hlater heq
  | oldestMessageAge =>
      have heq : ownEvents c.store.log t = .inr (.responded resp) :: first.map Sum.inr ++
          .inr (.loaded p .oldestMessageAge (m .oldestMessageAge)) ::
            ([.inr (.loaded p .streamDepth (m .streamDepth)), .inr (.clock now)] ++
            .inr (.loaded p .lastUpdated (m .lastUpdated)) :: rest) := by
        rw [hown]
        simp [sampled]
      exact hlater heq

/-- The refusal after forty seconds. -/
theorem refusal_justified_fortySeconds : ∃ (c : Conf Gateway.ofDefaults.world) (thr : Throttler)
    (m : Metric → Cell) (now : Instant), AnsweredWith 0 429 (ownEvents c.store.log 4) ∧
    Gateway.ofDefaults.throttler 0 = some thr ∧ ¬ thr.Stale (.ofCells m) now ∧
    (thr.decision (.ofCells m) now).1 ≠ .allow ∧
    ∀ k, k ≠ .pendingCount → (m .lastUpdated).version ≤ (m k).version := by
  obtain ⟨c, hc, hanswered⟩ := exists_refused
  obtain ⟨req, resp, hreq, hresp, hstatus⟩ := hanswered.elim
  obtain ⟨thr, m, now, hthr, hfresh, hdecision, hcells⟩ :=
    refusal_justified hc hreq hresp (Or.inl hstatus)
  exact ⟨c, thr, m, now, hanswered, hthr, hfresh, hdecision, fun k hk => (hcells k hk).2.1⟩

-- ============================================================================
-- Stop
-- ============================================================================

/-- The event is in the history. -/
def Recorded (h : List (Event (Ev ⊕ GatewayEv))) (g : GatewayEv) : Prop :=
  ∃ e ∈ h, e.ev = .inr g

theorem not_recorded_nil {g : GatewayEv} : ¬ Recorded [] g := by
  rintro ⟨e, he, -⟩
  cases he

/-- What the wait group says about the updater of a process. -/
structure WaitInv (s : FrontStore G.front) : Prop where
  running : ∀ p, Recorded s.log (.updating p) → ¬ Recorded s.log (.exited p) → (s.loc p).wg ≠ 0
  stopping : ∀ p, Recorded s.log (.stopping p) → (s.loc p).started = true
  /-- `Wait` has returned because the updater had returned. -/
  waited : ∀ e ∈ s.log, ∀ p, e.ev = .inr (.waited p) →
    ∃ e' ∈ s.log, e'.ev = .inr (.exited p) ∧ e'.seq < e.seq

/-- What an event says about the wait group of a process. -/
theorem Happens.wg {e : GatewayEv} {l l' : Nat → Process} (h : Happens G e l l') (p : Nat) :
    (l' p).wg ≠ 0 ∨ e = .exited p ∨ e ≠ .updating p ∧ (l' p).wg = (l p).wg := by
  cases h with
  | load => exact Or.inr (Or.inr ⟨nofun, rfl⟩)
  | store => exact Or.inr (Or.inr ⟨nofun, update_keeps Process.wg (by rfl) p⟩)
  | exit q =>
      right
      by_cases hq : p = q
      · exact Or.inl (by rw [hq])
      · exact Or.inr ⟨nofun, by rw [Function.update_of_ne hq]⟩
  | wait => exact Or.inr (Or.inr ⟨nofun, rfl⟩)
  | @setup _ q =>
      by_cases hq : p = q
      · left
        rw [hq, Function.update_self]
        exact Nat.succ_ne_zero _
      · right
        right
        refine ⟨?_, by rw [Function.update_of_ne hq]⟩
        rintro ⟨⟩
        exact hq rfl
  | stop => exact Or.inr (Or.inr ⟨nofun, rfl⟩)
  | plain hplain hsame =>
      refine Or.inr (Or.inr ⟨?_, hsame.wg p⟩)
      rintro rfl
      exact hplain

theorem Happens.stopping {p : Nat} {l l' : Nat → Process} (h : Happens G (.stopping p) l l') :
    (l p).started = true := by
  cases h with
  | stop hstarted => exact hstarted
  | plain hplain => exact hplain.elim

theorem Happens.waited {p : Nat} {l l' : Nat → Process} (h : Happens G (.waited p) l l') :
    (l p).wg = 0 := by
  cases h with
  | wait hwg => exact hwg
  | plain hplain => exact hplain.elim

/-- The course of a task that stops the throttler. -/
theorem stop_course (hc : P.Reachable G.init c) {t p : Nat} {g : GatewayEv}
    (hg : g = .waited p ∨ g = .stopped p) (h : .inr g ∈ ownEvents c.store.log t) :
    G.throttler p ≠ none ∧ .inr (.stopping p) ∈ ownEvents c.store.log t ∧
      ownEvents c.store.log t <:+ [.inr (.stopped p), .inr (.waited p), .inr (.stopping p)] := by
  obtain ⟨full, hfull, hsuf⟩ := task_course hc t
  have hmem := hsuf.subset h
  cases hfull with
  | cluster evs => simp at hmem
  | @request _ _ _ o ho =>
      rcases List.mem_cons.mp hmem with heq | hmem
      · cases heq
        rcases hg with hg | hg <;> cases hg
      · rcases ho.mem hmem with rfl | ⟨_, rfl⟩ | ⟨_, rfl⟩ | ⟨_, _, rfl⟩ <;>
          rcases hg with hg | hg <;> cases hg
  | @updater _ q o _ _ ho heq =>
      have hmem : g = .exited q ∨ .inr g ∈ o := by
        rcases heq with rfl | rfl
        · exact Or.inr hmem
        · simpa using hmem
      rcases hmem with rfl | hmem
      · rcases hg with hg | hg <;> cases hg
      · rcases ho.mem hmem with rfl | ⟨_, rfl⟩ | ⟨_, _, rfl⟩ | ⟨_, _, rfl⟩ <;>
          rcases hg with hg | hg <;> cases hg
  | @stop q _ ho =>
      rcases ho with rfl | ⟨hthr, rfl⟩
      · rcases hg with rfl | rfl <;> simp at hmem
      · obtain rfl : p = q := by rcases hg with rfl | rfl <;> simpa using hmem
        refine ⟨hthr, ?_, hsuf⟩
        rw [List.suffix_cons_iff, List.suffix_cons_iff, List.suffix_cons_iff] at hsuf
        rcases hsuf with heq | heq | heq | hnil
        · simp [heq]
        · simp [heq]
        · simp [heq]
        · rw [List.suffix_nil.mp hnil] at h
          cases h

theorem reachable_wait (hc : P.Reachable G.init c) : WaitInv c.store := by
  refine Reaches.invariant (I := fun c : Conf G.world => WaitInv c.store) hc
    ⟨fun _ h => absurd h not_recorded_nil, fun _ h => absurd h not_recorded_nil,
      fun _ he => absurd he List.not_mem_nil⟩ ?_
  intro x a y hx hI ha hxy
  have hy : P.Reachable G.init y := hx.tail ha hxy
  rcases step_happens hxy with ⟨hsame, hlog⟩ | ⟨t, g, hhap, hlog⟩
  · obtain ⟨hold, hmem⟩ := own_of_cluster hlog
    refine ⟨?_, ?_, ?_⟩
    · rintro p ⟨e, he, hev⟩ hrun
      rw [hsame.wg]
      refine hI.running p ⟨e, hmem e he _ hev, hev⟩ ?_
      rintro ⟨e', he', hev'⟩
      exact hrun ⟨e', hold e' he', hev'⟩
    · rintro p ⟨e, he, hev⟩
      exact hsame.started p (hI.stopping p ⟨e, hmem e he _ hev, hev⟩)
    · intro e he p hev
      obtain ⟨e', he', hev', hlt⟩ := hI.waited e (hmem e he _ hev) p hev
      exact ⟨e', hold e' he', hev', hlt⟩
  · have hcons : ∀ e, e ∈ y.store.log ↔
        e = ⟨x.store.log.length, some t, .inr g⟩ ∨ e ∈ x.store.log := by
      intro e
      rw [hlog, List.mem_cons]
    have hstopping : ∀ p, Recorded y.store.log (.stopping p) → (y.store.loc p).started = true := by
      rintro p ⟨e, he, hev⟩
      rcases (hcons e).mp he with rfl | he
      · cases hev
        exact hhap.started.1 p hhap.stopping
      · exact hhap.started.1 p (hI.stopping p ⟨e, he, hev⟩)
    refine ⟨?_, hstopping, ?_⟩
    · rintro p ⟨e, he, hev⟩ hrun
      rcases hhap.wg p with hwg | rfl | ⟨hne, hwg⟩
      · exact hwg
      · exact absurd ⟨_, (hcons _).mpr (Or.inl rfl), rfl⟩ hrun
      · rw [hwg]
        refine hI.running p ⟨e, ((hcons e).mp he).resolve_left ?_, hev⟩ ?_
        · rintro rfl
          cases hev
          exact hne rfl
        · rintro ⟨e', he', hev'⟩
          exact hrun ⟨e', (hcons e').mpr (Or.inr he'), hev'⟩
    · intro e he p hev
      rcases (hcons e).mp he with rfl | he
      · -- the wait group is at zero, so that the updater that was started has returned
        cases hev
        obtain ⟨hthr, hstop, -⟩ := stop_course hy (Or.inl rfl)
          (mem_ownEvents.mpr ⟨_, he, rfl, rfl⟩)
        obtain ⟨s, hs, -, hsev⟩ := mem_ownEvents.mp hstop
        obtain ⟨u, hu, huev⟩ := (reachable_setUp hy).present p hthr (hstopping p ⟨s, hs, hsev⟩)
        have hu : u ∈ x.store.log := ((hcons u).mp hu).resolve_left (by rintro rfl; cases huev)
        by_contra hnone
        refine hI.running p ⟨u, hu, huev⟩ ?_ hhap.waited
        rintro ⟨e', he', hev'⟩
        exact hnone ⟨e', (hcons e').mpr (Or.inr he'), hev',
          (Policy.Reachable.ordered rfl hx).stamped.seq_lt he'⟩
      · obtain ⟨e', he', hev', hlt⟩ := hI.waited e he p hev
        exact ⟨e', (hcons e').mpr (Or.inr he'), hev', hlt⟩

/-- When `Stop` has returned, the throttler sends no command and changes no metric any more. -/
theorem stopped_throttler_silent (hc : P.Reachable G.init c) {p : Nat}
    {e e' : Event (Ev ⊕ GatewayEv)} (he : e ∈ c.store.log) (hstopped : e.ev = .inr (.stopped p))
    (he' : e' ∈ c.store.log) {g : GatewayEv} (hg : OfUpdater p g) (hev' : e'.ev = .inr g) :
    e'.seq < e.seq := by
  have hstamped := (Policy.Reachable.ordered rfl hc).stamped
  have hsetUp := reachable_setUp hc
  -- the task that stopped it has waited before
  obtain ⟨t, het⟩ := hsetUp.owned e he _ hstopped
  have hmem := mem_ownEvents.mpr ⟨e, he, het, hstopped⟩
  obtain ⟨-, -, hsuf⟩ := stop_course hc (Or.inr rfl) hmem
  have hown : ownEvents c.store.log t =
      [.inr (.stopped p), .inr (.waited p), .inr (.stopping p)] := by
    refine (List.suffix_cons_iff.mp hsuf).resolve_right fun hsuf => ?_
    simpa using hsuf.subset hmem
  obtain ⟨w, hw, hwt, hwev⟩ := mem_ownEvents.mp
    (show .inr (.waited p) ∈ ownEvents c.store.log t by simp [hown])
  have hwle : w.seq ≤ e.seq := hstamped.own_le hown he het hstopped (by simp) hw hwt
  -- the updater has returned before that, and had recorded everything else
  obtain ⟨x, hx, hxev, hxlt⟩ := (reachable_wait hc).waited w hw p hwev
  obtain ⟨u, hxt⟩ := hsetUp.owned x hx _ hxev
  obtain ⟨u', het'⟩ := hsetUp.owned e' he' _ hev'
  have hxmem := mem_ownEvents.mpr ⟨x, hx, hxt, hxev⟩
  obtain ⟨thr, full, -, hfull, hsuf, hu⟩ := updater_course hc .exited hxmem
  obtain ⟨-, -, -, -, -, hu'⟩ := updater_course hc hg (mem_ownEvents.mpr ⟨e', he', het', hev'⟩)
  obtain rfl := updater_unique hc hu hu'
  have hnew : .inr (.exited p) ∉ full := by
    intro hin
    rcases hfull.mem hin with h | ⟨_, h⟩ | ⟨_, _, h⟩ | ⟨_, _, h⟩ <;> cases h
  have hown : ownEvents c.store.log u = .inr (.exited p) :: full :=
    (List.suffix_cons_iff.mp hsuf).resolve_right fun hsuf => hnew (hsuf.subset hxmem)
  have hle : e'.seq ≤ x.seq := hstamped.own_le hown hx hxt hxev hnew he' het'
  omega

/-- The metrics are updated once, and the throttler is stopped. -/
def stoppedRun : List (Action Gateway.ofDefaults.world) :=
  [Gateway.begin (GatewayJob.setup 0 1)] ++ Gateway.turns 0 8 ++
  [Gateway.begin (GatewayJob.stop 0)] ++ Gateway.turns 1 2 ++ Gateway.turns 0 2 ++
  Gateway.turns 1 2

/-- The event is the return of `Stop`. -/
def isStopped (p : Nat) : Ev ⊕ GatewayEv → Bool
  | .inr (.stopped q) => q == p
  | _ => false

theorem exists_stopped : ∃ c, (Policy.any (W := Gateway.ofDefaults.world)).Reachable
    Gateway.ofDefaults.init c ∧ (∃ e ∈ c.store.log, isStopped 0 e.ev = true) ∧
    ∃ e ∈ c.store.log, isStore 0 .lastUpdated e.ev = true :=
  Policy.exists_reachable_any stoppedRun (by decide +kernel)

/-- The timestamp of the one update was stored before the throttler was stopped. -/
theorem stopped_throttler_silent_run : ∃ (c : Conf Gateway.ofDefaults.world)
    (e e' : Event (Ev ⊕ GatewayEv)) (cell : Cell), e ∈ c.store.log ∧ e' ∈ c.store.log ∧
    e.ev = .inr (.stopped 0) ∧ e'.ev = .inr (.stored 0 .lastUpdated cell) ∧ e'.seq < e.seq := by
  obtain ⟨c, hc, ⟨e, he, hstopped⟩, e', he', hst⟩ := exists_stopped
  have hev : e.ev = .inr (.stopped 0) := by
    unfold isStopped at hstopped
    split at hstopped
    · next q heq => rw [heq, beq_iff_eq.mp hstopped]
    · cases hstopped
  obtain ⟨cell, hev'⟩ := isStore_iff.mp hst
  exact ⟨c, e, e', cell, he, he', hev, hev',
    stopped_throttler_silent hc he hev he' (.stored _ _) hev'⟩

end

end LogPipeline.Ingestion
