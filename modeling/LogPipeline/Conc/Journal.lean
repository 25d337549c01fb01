/-
  LogPipeline.Conc.Journal

  What a single task records.

  The history of a pool interleaves the events of its tasks.  The events of one
  task are those of its own program, whatever the others do: each call it makes
  records what its answer says (`Journal`), so a property of the events of one task
  is proved of the program alone.  `Writes J I Q p o` says that `p`, entered with the
  events `o` recorded, keeps `I` with every call and ends in `Q`; it is proved
  function by function with `Writes.seq`, and `Journal.sound` carries it over to
  every task of every run.
-/

import LogPipeline.Conc.Pool

namespace LogPipeline.Conc

-- ============================================================================
-- The events of one task
-- ============================================================================

section

variable {E : Type}

/-- The events of task `t`, newest first. -/
def ownEvents (h : List (Event E)) (t : Nat) : List E :=
  (h.filter fun e => decide (e.tid = some t)).map (·.ev)

variable {h : List (Event E)} {t : Nat}

theorem ownEvents_cons_self {e : Event E} (he : e.tid = some t) :
    ownEvents (e :: h) t = e.ev :: ownEvents h t := by
  simp [ownEvents, he]

theorem ownEvents_cons_ne {e : Event E} (he : e.tid ≠ some t) :
    ownEvents (e :: h) t = ownEvents h t := by
  simp [ownEvents, he]

theorem mem_ownEvents {ev : E} : ev ∈ ownEvents h t ↔ ∃ e ∈ h, e.tid = some t ∧ e.ev = ev := by
  simp [ownEvents, and_assoc]

/-- A task with no event in the history. -/
theorem ownEvents_eq_nil (hne : ∀ e ∈ h, e.tid ≠ some t) : ownEvents h t = [] := by
  unfold ownEvents
  rw [List.map_eq_nil_iff, List.filter_eq_nil_iff]
  intro e he
  simpa using hne e he

/-- An event of another task leaves the events of this one as they are. -/
theorem Records.ownEvents {h' : List (Event E)} {who : Option Nat} (hr : Records who h h')
    (hne : who ≠ some t) : ownEvents h' t = ownEvents h t := by
  rcases hr with rfl | ⟨ev, rfl⟩
  · rfl
  · exact ownEvents_cons_ne hne

/-- Newer events come first. -/
theorem Stamped.pairwise (hs : Stamped h) : h.Pairwise fun a b => b.seq < a.seq := by
  induction h with
  | nil => exact List.Pairwise.nil
  | cons e h ih =>
      obtain ⟨hseq, hs⟩ := hs
      refine List.Pairwise.cons (fun e' he' => ?_) (ih hs)
      rw [hseq]
      exact hs.seq_lt he'

/-- The order of the events of a task is that of the history. -/
theorem Stamped.exists_lt (hs : Stamped h) {o₁ o₂ o₃ : List E} {x y : E}
    (ho : ownEvents h t = o₁ ++ x :: (o₂ ++ y :: o₃)) :
    ∃ e ∈ h, ∃ e' ∈ h, e.ev = x ∧ e'.ev = y ∧ e'.seq < e.seq := by
  have hpair := hs.pairwise.filter fun e => decide (e.tid = some t)
  obtain ⟨l₁, l, hfilter, -, hl⟩ := List.map_eq_append_iff.mp ho
  obtain ⟨e, l', rfl, hx, hl'⟩ := List.map_eq_cons_iff.mp hl
  obtain ⟨l₂, l'', rfl, -, hl''⟩ := List.map_eq_append_iff.mp hl'
  obtain ⟨e', l₃, rfl, hy, -⟩ := List.map_eq_cons_iff.mp hl''
  have hmem : ∀ a ∈ l₁ ++ e :: (l₂ ++ e' :: l₃), a ∈ h := by
    intro a ha
    rw [← hfilter] at ha
    exact (List.mem_filter.mp ha).1
  rw [hfilter, List.pairwise_append, List.pairwise_cons] at hpair
  exact ⟨e, hmem e (by simp), e', hmem e' (by simp), hx, hy, hpair.2.1.1 e' (by simp)⟩

/-- No event of a task is newer than its newest. -/
theorem Stamped.own_le (hs : Stamped h) {o : List E} {x : E} (ho : ownEvents h t = x :: o)
    {e e' : Event E} (he : e ∈ h) (het : e.tid = some t) (hx : e.ev = x) (hnew : x ∉ o)
    (he' : e' ∈ h) (het' : e'.tid = some t) : e'.seq ≤ e.seq := by
  have hpair := hs.pairwise.filter fun e => decide (e.tid = some t)
  obtain ⟨first, rest, hfilter, hfirst, hrest⟩ := List.map_eq_cons_iff.mp ho
  rw [hfilter, List.pairwise_cons] at hpair
  have hmem : ∀ e ∈ h, e.tid = some t → e = first ∨ e ∈ rest := by
    intro e he het
    have hin : e ∈ h.filter fun e => decide (e.tid = some t) :=
      List.mem_filter.mpr ⟨he, by simpa using het⟩
    rw [hfilter] at hin
    exact List.mem_cons.mp hin
  obtain rfl : e = first := by
    refine (hmem e he het).resolve_right fun hin => hnew ?_
    rw [← hrest, ← hx]
    exact List.mem_map_of_mem hin
  rcases hmem e' he' het' with rfl | hin
  · exact Nat.le_refl _
  · exact Nat.le_of_lt (hpair.1 e' hin)

end

-- ============================================================================
-- Journals
-- ============================================================================

variable {S : Sig} {W : World S} {α β : Type}

/-- What the calls of a task add to its events. -/
structure Journal (W : World S) where
  /-- What a call with this answer may record, newest first. -/
  Logs : (o : S.Op) → S.Res o → List W.Ev → Prop
  exec_logs : ∀ {t ch o s r s'}, W.exec t ch o s = some (r, s') →
    ∃ evs, Logs o r evs ∧ ownEvents (W.hist s') t = evs ++ ownEvents (W.hist s) t

/-- Whatever it is answered, a program that is entered with the events `o` keeps `I` with
    every call, and where it returns `Q` holds of the result and the events. -/
def Writes (J : Journal W) (I : List W.Ev → Prop) (Q : α → List W.Ev → Prop) :
    Prog S α → List W.Ev → Prop
  | .ret a, o => Q a o
  | .call c k, o => ∀ r evs, J.Logs c r evs → I (evs ++ o) ∧ Writes J I Q (k r) (evs ++ o)

namespace Writes

variable {J : Journal W} {I : List W.Ev → Prop} {o : List W.Ev}

theorem mono {Q Q' : α → List W.Ev → Prop} (hQ : ∀ a o, Q a o → Q' a o) {p : Prog S α}
    (h : Writes J I Q p o) : Writes J I Q' p o := by
  induction p generalizing o with
  | ret a => exact hQ a o h
  | call c k ih =>
      intro r evs hlogs
      obtain ⟨hI, hrest⟩ := h r evs hlogs
      exact ⟨hI, ih r hrest⟩

theorem weaken {I' : List W.Ev → Prop} {Q : α → List W.Ev → Prop} (hI : ∀ o, I o → I' o)
    {p : Prog S α} (h : Writes J I Q p o) : Writes J I' Q p o := by
  induction p generalizing o with
  | ret a => exact h
  | call c k ih =>
      intro r evs hlogs
      obtain ⟨hIo, hrest⟩ := h r evs hlogs
      exact ⟨hI _ hIo, ih r hrest⟩

/-- The sequencing rule. -/
theorem seq {R : α → List W.Ev → Prop} {Q : β → List W.Ev → Prop} {p : Prog S α}
    {f : α → Prog S β} (hp : Writes J I R p o) (hf : ∀ a o, R a o → Writes J I Q (f a) o) :
    Writes J I Q (p.bind f) o := by
  induction p generalizing o with
  | ret a => exact hf a o hp
  | call c k ih =>
      intro r evs hlogs
      obtain ⟨hI, hrest⟩ := hp r evs hlogs
      exact ⟨hI, ih r hrest⟩

/-- A program that ends in `Q` has at every moment recorded the beginning of something that
    has `Q`, if every call has some answer. -/
theorem beginning {Q : List W.Ev → Prop} (hans : ∀ c, ∃ r evs, J.Logs c r evs) {p : Prog S α}
    (h : Writes J (fun _ => True) (fun _ => Q) p o) :
    (∃ full, Q full ∧ o <:+ full) ∧
      Writes J (fun o => ∃ full, Q full ∧ o <:+ full) (fun _ _ => True) p o := by
  induction p generalizing o with
  | ret a => exact ⟨⟨o, h, List.suffix_rfl⟩, trivial⟩
  | call c k ih =>
      refine ⟨?_, fun r evs hlogs => ih r (h r evs hlogs).2⟩
      obtain ⟨r, evs, hlogs⟩ := hans c
      obtain ⟨full, hQ, hsuf⟩ := (ih r (h r evs hlogs).2).1
      exact ⟨full, hQ, (List.suffix_append evs o).trans hsuf⟩

end Writes

/-- If every program that can be started keeps `I` from its start on, the events of every
    task of every run have `I`. -/
theorem Journal.sound (J : Journal W) {P : Policy W} {I : List W.Ev → Prop} {s₀ : W.Store}
    (hs₀ : W.hist s₀ = []) (hnil : I [])
    (hstart : ∀ t j s p s', W.start t j s = some (p, s') → ownEvents (W.hist s) t = [] →
      I (ownEvents (W.hist s') t) ∧
        Writes J I (fun _ _ => True) p (ownEvents (W.hist s') t))
    {c : Conf W} (hc : P.Reachable s₀ c) (t : Nat) : I (ownEvents (W.hist c.store) t) := by
  have hinv := Reaches.invariant (I := fun c : Conf W =>
    (∀ t, I (ownEvents (W.hist c.store) t)) ∧ ∀ t p, c.tasks t = some p →
      Writes J I (fun _ _ => True) p (ownEvents (W.hist c.store) t)) hc ?_ ?_
  · exact hinv.1 t
  · refine ⟨fun t => ?_, fun t p h => by cases h⟩
    change I (ownEvents (W.hist s₀) t)
    rw [hs₀]
    exact hnil
  intro x a y hx ⟨hI, hwrites⟩ _ hxy
  have hord := Policy.Reachable.ordered hs₀ hx
  rcases Conf.apply_cases hxy with ⟨t, ch, o, k, r, s', -, hk, hex, rfl⟩ | ⟨t, -, rfl⟩ |
    ⟨e, s', -, henv, rfl⟩ | ⟨j, p, s', -, hst, rfl⟩
  · -- the caller records what its call says, the others nothing
    obtain ⟨evs, hlogs, hown⟩ := J.exec_logs hex
    obtain ⟨hI', hrest⟩ := hwrites t _ hk r evs hlogs
    rw [← hown] at hI' hrest
    have hother : ∀ u, u ≠ t → ownEvents (W.hist s') u = ownEvents (W.hist x.store) u :=
      fun u hu => (W.exec_records hex).ownEvents (by simpa using Ne.symm hu)
    refine ⟨fun u => ?_, fun u q hu => ?_⟩
    · by_cases hut : u = t
      · subst hut
        exact hI'
      · change I (ownEvents (W.hist s') u)
        rw [hother u hut]
        exact hI u
    · rcases update_eq_some hu with ⟨rfl, hq⟩ | ⟨hut, hu⟩
      · cases hq
        exact hrest
      · change Writes J I _ q (ownEvents (W.hist s') u)
        rw [hother u hut]
        exact hwrites u q hu
  · refine ⟨hI, fun u q hu => ?_⟩
    rcases update_eq_some hu with ⟨-, hq⟩ | ⟨-, hu⟩
    · cases hq
    · exact hwrites u q hu
  · have hother : ∀ u, ownEvents (W.hist s') u = ownEvents (W.hist x.store) u :=
      fun u => (W.env_records henv).ownEvents (by simp)
    refine ⟨fun u => ?_, fun u q hu => ?_⟩
    · change I (ownEvents (W.hist s') u)
      rw [hother u]
      exact hI u
    · change Writes J I _ q (ownEvents (W.hist s') u)
      rw [hother u]
      exact hwrites u q hu
  · have hfresh : ownEvents (W.hist x.store) x.next = [] :=
      ownEvents_eq_nil fun e he het => Nat.lt_irrefl _ (hord.tid_lt e he _ het)
    obtain ⟨hI', hwrites'⟩ := hstart x.next j x.store p s' hst hfresh
    have hother : ∀ u, u ≠ x.next → ownEvents (W.hist s') u = ownEvents (W.hist x.store) u :=
      fun u hu => (W.start_records hst).ownEvents (by simpa using Ne.symm hu)
    refine ⟨fun u => ?_, fun u q hu => ?_⟩
    · by_cases hut : u = x.next
      · subst hut
        exact hI'
      · change I (ownEvents (W.hist s') u)
        rw [hother u hut]
        exact hI u
    · rcases update_eq_some hu with ⟨rfl, hq⟩ | ⟨hut, hu⟩
      · cases hq
        exact hwrites'
      · change Writes J I _ q (ownEvents (W.hist s') u)
        rw [hother u hut]
        exact hwrites u q hu

/-- If every program that can be started ends in `Q`, the events of a task of any run are
    the beginning of something that has `Q`. -/
theorem Journal.sound_beginning (J : Journal W) {P : Policy W} {Q : List W.Ev → Prop}
    {s₀ : W.Store} (hs₀ : W.hist s₀ = []) (hans : ∀ c, ∃ r evs, J.Logs c r evs)
    (hstart : ∀ t j s p s', W.start t j s = some (p, s') → ownEvents (W.hist s) t = [] →
      Writes J (fun _ => True) (fun _ => Q) p (ownEvents (W.hist s') t))
    {c : Conf W} (hc : P.Reachable s₀ c) (t : Nat) :
    ownEvents (W.hist c.store) t = [] ∨
      ∃ full, Q full ∧ ownEvents (W.hist c.store) t <:+ full := by
  refine J.sound (I := fun o => o = [] ∨ ∃ full, Q full ∧ o <:+ full) hs₀ (Or.inl rfl) ?_ hc t
  intro t j s p s' hst hnil
  obtain ⟨hfirst, hrest⟩ := (hstart t j s p s' hst hnil).beginning hans
  exact ⟨Or.inr hfirst, hrest.weaken fun o => Or.inr⟩

end LogPipeline.Conc
