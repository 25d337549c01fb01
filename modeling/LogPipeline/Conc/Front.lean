/-
  LogPipeline.Conc.Front

  Front ends: programs that make the calls of a world and calls of their own.

  A front end over a world `W` has a store of its own and calls of its own; these
  may look at the store of `W` but not change it.  Its programs are over both
  signatures (`Sig.plus`), and run in one pool with the programs of `W`.

  What a front-end program does to the store of `W` is what some program of `W` does,
  where which one may depend on the answers it gets on its own calls (`Serves`).
  `Front.refines` makes a run of `W` alone out of every run of the front end: the
  store of `W` is at each moment one that `W` reaches by itself.
-/

import LogPipeline.Conc.Journal
import Mathlib.Data.Set.Basic

namespace LogPipeline.Conc

-- ============================================================================
-- Programs over two signatures
-- ============================================================================

/-- The calls of two signatures. -/
@[reducible] def Sig.plus (S L : Sig) : Sig where
  Op := S.Op ⊕ L.Op
  Res
    | .inl o => S.Res o
    | .inr o => L.Res o

/-- The call is one of the second signature. -/
def IsOwn {S L : Sig} : (S.plus L).Op → Prop
  | .inl _ => False
  | .inr _ => True

namespace Prog

variable {S S' L : Sig} {α β : Type}

theorem bind_assoc {γ : Type} (p : Prog S α) (f : α → Prog S β) (g : β → Prog S γ) :
    (p.bind f).bind g = p.bind fun a => (f a).bind g := by
  induction p with
  | ret a => rfl
  | call o k ih =>
      simp only [call_bind]
      congr 1
      funext r
      exact ih r

/-- Replace each call of a program by a program. -/
def interp (f : (o : S.Op) → Prog S' (S.Res o)) : Prog S α → Prog S' α
  | ret a => ret a
  | call o k => (f o).bind fun r => (k r).interp f

theorem Uses.interp {φ : S.Op → Prop} {ψ : S'.Op → Prop} {f : (o : S.Op) → Prog S' (S.Res o)}
    {p : Prog S α} (hp : p.Uses φ) (hf : ∀ o, φ o → (f o).Uses ψ) : (p.interp f).Uses ψ := by
  induction p with
  | ret a => trivial
  | call o k ih => exact (hf o hp.1).bind fun r => ih r (hp.2 r)

/-- A program of the first signature as one of both. -/
def base : Prog S α → Prog (S.plus L) α
  | ret a => ret a
  | call o k => call (S := S.plus L) (.inl o) fun r => (k r).base

end Prog

-- ============================================================================
-- What a front end asks of its base
-- ============================================================================

section

variable {S L : Sig} {α : Type}

/-- Whatever the program is answered, the calls it makes to its base are those of one of
    the programs in `G`.  An answer to a call of its own may narrow the choice. -/
def Serves : Prog (S.plus L) α → Set (Prog S Unit) → Prop
  | .ret _, G => G.Nonempty
  | .call (.inl o) k, G => G.Nonempty ∧ ∀ r, ∃ G', Serves (k r) G' ∧
      ∀ q ∈ G', ∃ k', .call o k' ∈ G ∧ q = k' r
  | .call (.inr _) k, G => G.Nonempty ∧ ∀ r, ∃ G', Serves (k r) G' ∧ G' ⊆ G

namespace Serves

theorem nonempty {p : Prog (S.plus L) α} {G : Set (Prog S Unit)} (h : Serves p G) :
    G.Nonempty :=
  match p, h with
  | .ret _, h => h
  | .call (.inl _) _, h => h.1
  | .call (.inr _) _, h => h.1

/-- A larger choice serves as well. -/
theorem mono {p : Prog (S.plus L) α} {G G' : Set (Prog S Unit)} (h : Serves p G)
    (hsub : G ⊆ G') : Serves p G' := by
  cases p with
  | ret a => exact Set.Nonempty.mono hsub h
  | call o k =>
      cases o with
      | inl o =>
          obtain ⟨hne, h⟩ := h
          refine ⟨Set.Nonempty.mono hsub hne, fun r => ?_⟩
          obtain ⟨G₁, hG₁, hcall⟩ := h r
          refine ⟨G₁, hG₁, fun q hq => ?_⟩
          obtain ⟨k', hk', hqk⟩ := hcall q hq
          exact ⟨k', hsub hk', hqk⟩
      | inr o =>
          obtain ⟨hne, h⟩ := h
          refine ⟨Set.Nonempty.mono hsub hne, fun r => ?_⟩
          obtain ⟨G₁, hG₁, hsub₁⟩ := h r
          exact ⟨G₁, hG₁, hsub₁.trans hsub⟩

/-- A part that makes no call to the base, and the rest. -/
theorem local_bind {β : Type} {p : Prog (S.plus L) α} {f : α → Prog (S.plus L) β}
    {G : Set (Prog S Unit)} (hp : p.Uses IsOwn) (hne : G.Nonempty)
    (hf : ∀ a, Serves (f a) G) : Serves (p.bind f) G := by
  induction p with
  | ret a => exact hf a
  | call o k ih =>
      cases o with
      | inl o => exact hp.1.elim
      | inr o => exact ⟨hne, fun r => ⟨G, ih r (hp.2 r), subset_rfl⟩⟩

/-- A program that makes no call to the base is served by anything. -/
theorem of_local {p : Prog (S.plus L) α} {G : Set (Prog S Unit)}
    (hp : p.Uses IsOwn) (hne : G.Nonempty) : Serves p G := by
  induction p with
  | ret a => exact hne
  | call o k ih =>
      cases o with
      | inl o => exact hp.1.elim
      | inr o => exact ⟨hne, fun r => ⟨G, ih r (hp.2 r), subset_rfl⟩⟩

/-- A part that is a program of the base, and the rest. -/
theorem base_bind {β : Type} {p : Prog S α} {f : α → Prog (S.plus L) β} {g : α → Prog S Unit}
    (h : ∀ a, Serves (f a) {g a}) : Serves (p.base.bind f) {p.bind g} := by
  induction p with
  | ret a => exact h a
  | call o k ih =>
      refine ⟨⟨_, rfl⟩, fun r => ⟨_, ih r, ?_⟩⟩
      rintro q rfl
      exact ⟨_, rfl, rfl⟩

/-- A program of the base serves itself. -/
theorem base (p : Prog S Unit) : Serves (p.base (L := L)) {p} := by
  induction p with
  | ret a => exact ⟨_, rfl⟩
  | call o k ih =>
      refine ⟨⟨_, rfl⟩, fun r => ⟨_, ih r, ?_⟩⟩
      rintro q rfl
      exact ⟨_, rfl, rfl⟩

end Serves

end

-- ============================================================================
-- Front ends
-- ============================================================================

/-- A front end over a world: its own store and calls, and what it can start. -/
structure Front {S : Sig} (W : World S) (L : Sig) where
  Local : Type
  Ev : Type
  Choice : Type
  Env : Type
  Job : Type
  /-- The answer to a call of its own, and what is recorded.  The store of the base is
      read only. -/
  exec : Choice → (o : L.Op) → W.Store → Local → Option (L.Res o × Local × Option Ev)
  env : Env → Local → Option (Local × Option Ev)
  start : Job → Local → Option (Prog (S.plus L) Unit × Local × Option Ev)

variable {S L : Sig} {W : World S}

/-- The store of the base, that of the front end, and one history for both. -/
structure FrontStore (F : Front W L) where
  base : W.Store
  loc : F.Local
  log : List (Event (W.Ev ⊕ F.Ev))

namespace FrontStore

variable {F : Front W L}

/-- Record an event of the front end, if there is one. -/
def note (s : FrontStore F) (who : Option Nat) : Option F.Ev → FrontStore F
  | none => s
  | some ev => { s with log := ⟨s.log.length, who, .inr ev⟩ :: s.log }

/-- The base has moved: what it has recorded is recorded here. -/
def follow (s : FrontStore F) (b : W.Store) : FrontStore F :=
  match W.hist b with
  | [] => { s with base := b }
  | e :: h =>
      if h.length = (W.hist s.base).length then
        { s with base := b, log := ⟨s.log.length, e.tid, .inl e.ev⟩ :: s.log }
      else { s with base := b }

@[simp] theorem note_base (s : FrontStore F) (who : Option Nat) (ev : Option F.Ev) :
    (s.note who ev).base = s.base := by
  cases ev <;> rfl

theorem note_records (s : FrontStore F) (who : Option Nat) (ev : Option F.Ev) :
    Records who s.log (s.note who ev).log := by
  cases ev with
  | none => exact Or.inl rfl
  | some ev => exact Or.inr ⟨_, rfl⟩

/-- What is recorded when the base moves. -/
theorem follow_cases (s : FrontStore F) {b : W.Store} {who : Option Nat}
    (h : Records who (W.hist s.base) (W.hist b)) :
    (W.hist b = W.hist s.base ∧ s.follow b = { s with base := b }) ∨
    ∃ ev, W.hist b = ⟨(W.hist s.base).length, who, ev⟩ :: W.hist s.base ∧
      s.follow b = { s with base := b, log := ⟨s.log.length, who, .inl ev⟩ :: s.log } := by
  rcases h with h | ⟨ev, h⟩
  · refine Or.inl ⟨h, ?_⟩
    unfold follow
    split
    · rfl
    · next e h' hb =>
        rw [h] at hb
        rw [if_neg]
        rw [hb, List.length_cons]
        omega
  · refine Or.inr ⟨ev, h, ?_⟩
    unfold follow
    split
    · next hb =>
        rw [h] at hb
        cases hb
    · next e h' hb =>
        rw [h] at hb
        cases hb
        rw [if_pos rfl]

theorem follow_base (s : FrontStore F) {b : W.Store} {who : Option Nat}
    (h : Records who (W.hist s.base) (W.hist b)) : (s.follow b).base = b := by
  rcases s.follow_cases h with ⟨-, heq⟩ | ⟨ev, -, heq⟩ <;> rw [heq]

theorem follow_records (s : FrontStore F) {b : W.Store} {who : Option Nat}
    (h : Records who (W.hist s.base) (W.hist b)) : Records who s.log (s.follow b).log := by
  rcases s.follow_cases h with ⟨-, heq⟩ | ⟨ev, -, heq⟩
  · rw [heq]
    exact Or.inl rfl
  · rw [heq]
    exact Or.inr ⟨_, rfl⟩

end FrontStore

namespace Front

variable (F : Front W L)

/-- What one call does: those of the base as the base says. -/
def execBoth (t : Nat) (ch : W.Choice × F.Choice) :
    (o : (S.plus L).Op) → FrontStore F → Option ((S.plus L).Res o × FrontStore F)
  | .inl o, s => (W.exec t ch.1 o s.base).map fun x => (x.1, s.follow x.2)
  | .inr o, s => (F.exec ch.2 o s.base s.loc).map fun x =>
      (x.1, { s with loc := x.2.1 }.note (some t) x.2.2)

def envBoth : W.Env ⊕ F.Env → FrontStore F → Option (FrontStore F)
  | .inl e, s => (W.env e s.base).map s.follow
  | .inr e, s => (F.env e s.loc).map fun x => { s with loc := x.1 }.note none x.2

def startBoth (t : Nat) :
    W.Job ⊕ F.Job → FrontStore F → Option (Prog (S.plus L) Unit × FrontStore F)
  | .inl j, s => (W.start t j s.base).map fun x => (x.1.base, s.follow x.2)
  | .inr j, s => (F.start j s.loc).map fun x =>
      (x.1, { s with loc := x.2.1 }.note (some t) x.2.2)

/-- The base and its front end as one world. -/
@[reducible] def world : World (S.plus L) where
  Store := FrontStore F
  Ev := W.Ev ⊕ F.Ev
  Choice := W.Choice × F.Choice
  Env := W.Env ⊕ F.Env
  Job := W.Job ⊕ F.Job
  hist := FrontStore.log
  exec := F.execBoth
  env := F.envBoth
  start := F.startBoth
  exec_records := by
    intro t ch o s r s' h
    cases o with
    | inl o =>
        obtain ⟨⟨r', b⟩, hb, heq⟩ := Option.map_eq_some_iff.mp h
        cases heq
        exact s.follow_records (W.exec_records hb)
    | inr o =>
        obtain ⟨⟨r', l, ev⟩, -, heq⟩ := Option.map_eq_some_iff.mp h
        cases heq
        exact FrontStore.note_records ..
  env_records := by
    intro e s s' h
    cases e with
    | inl e =>
        obtain ⟨b, hb, rfl⟩ := Option.map_eq_some_iff.mp h
        exact s.follow_records (W.env_records hb)
    | inr e =>
        obtain ⟨⟨l, ev⟩, -, rfl⟩ := Option.map_eq_some_iff.mp h
        exact FrontStore.note_records ..
  start_records := by
    intro t j s p s' h
    cases j with
    | inl j =>
        obtain ⟨⟨q, b⟩, hb, heq⟩ := Option.map_eq_some_iff.mp h
        cases heq
        exact s.follow_records (W.start_records hb)
    | inr j =>
        obtain ⟨⟨q, l, ev⟩, -, heq⟩ := Option.map_eq_some_iff.mp h
        cases heq
        exact FrontStore.note_records ..

/-- The base does what the policy permits, the front end anything; tasks may die. -/
def policy (P : Policy W) : Policy F.world where
  call := fun t ch o s =>
    match o with
    | .inl o => P.call t ch.1 o s.base
    | .inr _ => True
  env := fun e s =>
    match e with
    | .inl e => P.env e s.base
    | .inr _ => True
  start := fun j s =>
    match j with
    | .inl j => P.start j s.base
    | .inr _ => True
  crash := fun _ _ => True

instance (P : Policy W) [∀ t ch o s, Decidable (P.call t ch o s)] :
    ∀ t ch o s, Decidable ((F.policy P).call t ch o s)
  | t, ch, .inl o, s => inferInstanceAs (Decidable (P.call t ch.1 o s.base))
  | _, _, .inr _, _ => isTrue trivial

instance (P : Policy W) [∀ e s, Decidable (P.env e s)] : ∀ e s, Decidable ((F.policy P).env e s)
  | .inl e, s => inferInstanceAs (Decidable (P.env e s.base))
  | .inr _, _ => isTrue trivial

instance (P : Policy W) [∀ j s, Decidable (P.start j s)] :
    ∀ j s, Decidable ((F.policy P).start j s)
  | .inl j, s => inferInstanceAs (Decidable (P.start j s.base))
  | .inr _, _ => isTrue trivial

instance (P : Policy W) : ∀ t s, Decidable ((F.policy P).crash t s) := fun _ _ => isTrue trivial

end Front

-- ============================================================================
-- What the tasks record
-- ============================================================================

theorem FrontStore.ownEvents_note {F : Front W L} (s : FrontStore F) (t : Nat)
    (ev : Option F.Ev) :
    ownEvents (s.note (some t) ev).log t = (ev.map Sum.inr).toList ++ ownEvents s.log t := by
  cases ev with
  | none => rfl
  | some ev => exact ownEvents_cons_self rfl

theorem FrontStore.ownEvents_follow {F : Front W L} (s : FrontStore F) {b : W.Store} {t : Nat}
    {evs : List W.Ev} (hr : Records (some t) (W.hist s.base) (W.hist b))
    (hevs : ownEvents (W.hist b) t = evs ++ ownEvents (W.hist s.base) t) :
    ownEvents (s.follow b).log t = evs.map Sum.inl ++ ownEvents s.log t := by
  rcases s.follow_cases hr with ⟨hb, heq⟩ | ⟨ev, hb, heq⟩
  · rw [hb, List.self_eq_append_left] at hevs
    rw [heq, hevs]
    rfl
  · rw [hb, ownEvents_cons_self rfl, ← List.singleton_append, List.append_cancel_right_eq] at hevs
    rw [heq, ← hevs]
    exact ownEvents_cons_self rfl

/-- The journal of a front end: the calls of the base record what its journal says, its
    own calls what `K` says. -/
def Front.journal (F : Front W L) (J : Journal W) (K : (o : L.Op) → L.Res o → Option F.Ev → Prop)
    (hK : ∀ {ch o b l r l' ev}, F.exec ch o b l = some (r, l', ev) → K o r ev) :
    Journal F.world where
  Logs
    | .inl o, r, evs => ∃ es, J.Logs o r es ∧ evs = es.map Sum.inl
    | .inr o, r, evs => ∃ ev, K o r ev ∧ evs = (ev.map Sum.inr).toList
  exec_logs := by
    intro t ch o s r s' h
    cases o with
    | inl o =>
        obtain ⟨⟨r', b⟩, hb, heq⟩ := Option.map_eq_some_iff.mp h
        cases heq
        obtain ⟨es, hes, hown⟩ := J.exec_logs hb
        exact ⟨_, ⟨es, hes, rfl⟩, s.ownEvents_follow (W.exec_records hb) hown⟩
    | inr o =>
        obtain ⟨⟨r', l, ev⟩, hl, heq⟩ := Option.map_eq_some_iff.mp h
        cases heq
        exact ⟨_, ⟨ev, hK hl, rfl⟩, FrontStore.ownEvents_note _ t ev⟩

-- ============================================================================
-- The base of a run
-- ============================================================================

/-- The events of the base, with their tasks. -/
def baseEvents {A B : Type} (h : List (Event (A ⊕ B))) : List (Option Nat × A) :=
  h.filterMap fun e =>
    match e.ev with
    | .inl a => some (e.tid, a)
    | .inr _ => none

variable {F : Front W L} {P : Policy W} {b₀ : W.Store} {l₀ : F.Local}

/-- The history holds the events of the base in their order. -/
def FrontStore.Faithful (s : FrontStore F) : Prop :=
  baseEvents s.log = (W.hist s.base).map fun e => (e.tid, e.ev)

theorem FrontStore.Faithful.note {s : FrontStore F} (h : s.Faithful) (l : F.Local)
    (who : Option Nat) (ev : Option F.Ev) :
    (FrontStore.note { s with loc := l } who ev).Faithful := by
  cases ev with
  | none => exact h
  | some ev => exact h

theorem FrontStore.Faithful.follow {s : FrontStore F} (h : s.Faithful) {b : W.Store}
    {who : Option Nat} (hr : Records who (W.hist s.base) (W.hist b)) : (s.follow b).Faithful := by
  unfold FrontStore.Faithful at h ⊢
  rcases s.follow_cases hr with ⟨hb, heq⟩ | ⟨ev, hb, heq⟩
  · rw [heq, hb]
    exact h
  · rw [heq]
    change baseEvents (_ :: s.log) = (W.hist b).map _
    rw [hb, List.map_cons, ← h]
    rfl

/-- The events of the base in the history are those the base has recorded. -/
theorem FrontStore.Faithful.mem_iff {s : FrontStore F} (h : s.Faithful) {t : Nat} {ev : W.Ev} :
    .inl ev ∈ ownEvents s.log t ↔ ev ∈ ownEvents (W.hist s.base) t := by
  have hlog : (some t, ev) ∈ baseEvents s.log ↔ .inl ev ∈ ownEvents s.log t := by
    rw [mem_ownEvents]
    unfold baseEvents
    rw [List.mem_filterMap]
    constructor
    · rintro ⟨e, he, heq⟩
      split at heq
      · next a ha =>
          obtain ⟨het, rfl⟩ : e.tid = some t ∧ a = ev := by simpa using heq
          exact ⟨e, he, het, ha⟩
      · cases heq
    · rintro ⟨e, he, het, hev⟩
      exact ⟨e, he, by rw [hev, het]⟩
  rw [← hlog, h, mem_ownEvents, List.mem_map]
  simp [Prod.ext_iff]

theorem Front.reachable_faithful (hb₀ : W.hist b₀ = []) {Q : Policy F.world} {c : Conf F.world}
    (hc : Q.Reachable ⟨b₀, l₀, []⟩ c) : c.store.Faithful := by
  refine Reaches.invariant (I := fun c : Conf F.world => c.store.Faithful) hc ?_ ?_
  · change baseEvents [] = (W.hist b₀).map _
    rw [hb₀]
    rfl
  intro x a y _ hI _ hxy
  rcases Conf.apply_cases hxy with ⟨t, ch, o, k, r, s', -, -, hex, rfl⟩ | ⟨t, -, rfl⟩ |
    ⟨e, s', -, henv, rfl⟩ | ⟨j, p, s', -, hst, rfl⟩
  · cases o with
    | inl o =>
        obtain ⟨⟨r', b⟩, hb, heq⟩ := Option.map_eq_some_iff.mp hex
        cases heq
        exact hI.follow (W.exec_records hb)
    | inr o =>
        obtain ⟨⟨r', l, ev⟩, -, heq⟩ := Option.map_eq_some_iff.mp hex
        cases heq
        exact hI.note ..
  · exact hI
  · cases e with
    | inl e =>
        obtain ⟨b, hb, rfl⟩ := Option.map_eq_some_iff.mp henv
        exact hI.follow (W.env_records hb)
    | inr e =>
        obtain ⟨⟨l, ev⟩, -, rfl⟩ := Option.map_eq_some_iff.mp henv
        exact hI.note ..
  · cases j with
    | inl j =>
        obtain ⟨⟨q, b⟩, hb, heq⟩ := Option.map_eq_some_iff.mp hst
        cases heq
        exact hI.follow (W.start_records hb)
    | inr j =>
        obtain ⟨⟨q, l, ev⟩, -, heq⟩ := Option.map_eq_some_iff.mp hst
        cases heq
        exact hI.note ..

/-- `c'` has the base store of `c`, and runs the programs that were guessed for its
    tasks. -/
structure Matches (c : Conf F.world) (g : Nat → Prog S Unit) (c' : Conf W) : Prop where
  store : c'.store = c.store.base
  next : c'.next = c.next
  tasks : ∀ t p, c.tasks t = some p → c'.tasks t = some (g t)

/-- Every live task is served by the programs in `G t`, and whichever of them is guessed
    for each task, the base has a run in which the tasks run what was guessed. -/
structure Guessable (P : Policy W) (b₀ : W.Store) (c : Conf F.world)
    (G : Nat → Set (Prog S Unit)) : Prop where
  serves : ∀ t p, c.tasks t = some p → Serves p (G t)
  guess : ∀ g : Nat → Prog S Unit, (∀ t p, c.tasks t = some p → g t ∈ G t) →
    ∃ c', P.Reachable b₀ c' ∧ Matches c g c'

namespace Guessable

variable {c : Conf F.world} {G : Nat → Set (Prog S Unit)}

theorem exists_guess (h : Guessable P b₀ c G) (t : Nat) :
    ∃ q, ∀ p, c.tasks t = some p → q ∈ G t := by
  cases ht : c.tasks t with
  | none => exact ⟨.ret (), nofun⟩
  | some p =>
      obtain ⟨q, hq⟩ := (h.serves t p ht).nonempty
      exact ⟨q, fun _ _ => hq⟩

theorem exists_run (h : Guessable P b₀ c G) :
    ∃ c', P.Reachable b₀ c' ∧ c'.store = c.store.base := by
  choose g hg using h.exists_guess
  obtain ⟨c', hc', hm⟩ := h.guess g hg
  exact ⟨c', hc', hm.store⟩

/-- A task that is gone asks for nothing more. -/
theorem gone (h : Guessable P b₀ c G) (t : Nat) : Guessable P b₀ (c.setTask t none) G := by
  have hlive : ∀ u p, (c.setTask t none).tasks u = some p → u ≠ t ∧ c.tasks u = some p := by
    intro u p hu
    by_cases hut : u = t
    · subst hut
      simp [Conf.setTask] at hu
    · exact ⟨hut, by simpa [Conf.setTask, Function.update_of_ne hut] using hu⟩
  refine ⟨fun u p hu => h.serves u p (hlive u p hu).2, fun g hg => ?_⟩
  -- the guess for the task itself is free
  obtain ⟨q, hq⟩ := h.exists_guess t
  obtain ⟨c', hc', hm⟩ := h.guess (Function.update g t q) (by
    intro u p hu
    by_cases hut : u = t
    · subst hut
      simpa using hq p hu
    · rw [Function.update_of_ne hut]
      exact hg u p (by simpa [Conf.setTask, Function.update_of_ne hut] using hu))
  refine ⟨c', hc', hm.store, hm.next, fun u p hu => ?_⟩
  obtain ⟨hut, hu'⟩ := hlive u p hu
  have := hm.tasks u p hu'
  rwa [Function.update_of_ne hut] at this

/-- The front end's own store and history do not matter to the base. -/
theorem of_base_eq (h : Guessable P b₀ c G) {s : FrontStore F} (hs : s.base = c.store.base) :
    Guessable P b₀ { c with store := s } G := by
  refine ⟨h.serves, fun g hg => ?_⟩
  obtain ⟨c', hc', hm⟩ := h.guess g hg
  exact ⟨c', hc', by rw [hm.store, hs], hm.next, hm.tasks⟩

/-- Replace what is left of a task and what may be guessed for it, where every guess for
    the rest comes from a guess made before. -/
theorem advance (h : Guessable P b₀ c G) {t : Nat} {p : Prog (S.plus L) Unit}
    {G' : Set (Prog S Unit)} {s : FrontStore F} (hp : Serves p G') (ht : c.tasks t ≠ none)
    (hback : ∀ q ∈ G', ∃ q₀ ∈ G t, ∀ c', P.Reachable b₀ c' → c'.store = c.store.base →
      c'.tasks t = some q₀ → ∃ c'', P.Reachable b₀ c'' ∧ c''.store = s.base ∧
        c''.next = c'.next ∧ c''.tasks = Function.update c'.tasks t (some q)) :
    Guessable P b₀ (({ c with store := s } : Conf F.world).setTask t (some p))
      (Function.update G t G') := by
  refine ⟨fun u q hu => ?_, fun g hg => ?_⟩
  · by_cases hut : u = t
    · subst hut
      obtain rfl : p = q := by simpa [Conf.setTask] using hu
      simpa using hp
    · rw [Function.update_of_ne hut]
      exact h.serves u q (by simpa [Conf.setTask, Function.update_of_ne hut] using hu)
  · have hgt : g t ∈ G' := by simpa using hg t p (by simp [Conf.setTask])
    obtain ⟨q₀, hq₀, hrun⟩ := hback _ hgt
    obtain ⟨c', hc', hm⟩ := h.guess (Function.update g t q₀) (by
      intro u q hu
      by_cases hut : u = t
      · subst hut
        simpa using hq₀
      · have := hg u q (by simpa [Conf.setTask, Function.update_of_ne hut] using hu)
        simpa [Function.update_of_ne hut] using this)
    obtain ⟨p₀, hp₀⟩ := Option.ne_none_iff_exists'.mp ht
    have hat : c'.tasks t = some q₀ := by simpa using hm.tasks t p₀ hp₀
    obtain ⟨c'', hc'', hstore, hnext, htasks⟩ := hrun c' hc' hm.store hat
    refine ⟨c'', hc'', hstore, by rw [hnext, hm.next]; rfl, fun u q hu => ?_⟩
    rw [htasks]
    by_cases hut : u = t
    · subst hut
      simp
    · rw [Function.update_of_ne hut]
      have := hm.tasks u q (by simpa [Conf.setTask, Function.update_of_ne hut] using hu)
      rwa [Function.update_of_ne hut] at this

/-- A new task, which the base starts too. -/
theorem spawn (h : Guessable P b₀ c G) {p : Prog (S.plus L) Unit} {G' : Set (Prog S Unit)}
    {s : FrontStore F} (hp : Serves p G') (hfresh : c.tasks c.next = none)
    (hstart : ∀ q ∈ G', ∃ j, P.start j c.store.base ∧
      W.start c.next j c.store.base = some (q, s.base)) :
    Guessable P b₀ (({ c with store := s, next := c.next + 1 } : Conf F.world).setTask c.next
      (some p)) (Function.update G c.next G') := by
  have hold : ∀ u q, (({ c with store := s, next := c.next + 1 } : Conf F.world).setTask c.next
      (some p)).tasks u = some q → u ≠ c.next → c.tasks u = some q := by
    intro u q hu hut
    simpa [Conf.setTask, Function.update_of_ne hut] using hu
  refine ⟨fun u q hu => ?_, fun g hg => ?_⟩
  · by_cases hut : u = c.next
    · subst hut
      obtain rfl : p = q := by simpa [Conf.setTask] using hu
      simpa using hp
    · rw [Function.update_of_ne hut]
      exact h.serves u q (hold u q hu hut)
  · have hgt : g c.next ∈ G' := by simpa using hg c.next p (by simp [Conf.setTask])
    obtain ⟨j, hperm, hst⟩ := hstart _ hgt
    obtain ⟨c', hc', hm⟩ := h.guess g (by
      intro u q hu
      have hut : u ≠ c.next := by
        rintro rfl
        rw [hfresh] at hu
        cases hu
      have := hg u q (by simpa [Conf.setTask, Function.update_of_ne hut] using hu)
      rwa [Function.update_of_ne hut] at this)
    rw [← hm.store] at hperm
    rw [← hm.store, ← hm.next] at hst
    have happly : c'.apply (.start j) =
        some ({ c' with store := s.base, next := c'.next + 1 }.setTask c'.next
          (some (g c'.next))) := by
      simp only [Conf.apply, hst]
    have hpermits : P.Permits c' (.start j) := hperm
    refine ⟨_, Reaches.tail hc' hpermits happly, rfl, by simp [Conf.setTask, hm.next], ?_⟩
    intro u q hu
    by_cases hut : u = c.next
    · subst hut
      simp [Conf.setTask, hm.next]
    · have := hm.tasks u q (hold u q hu hut)
      simpa [Conf.setTask, hm.next, Function.update_of_ne hut] using this

end Guessable

-- ============================================================================
-- Refinement
-- ============================================================================

/-- Each program the front end starts is served by programs that the base can start,
    whatever its store, without changing it. -/
def Front.Served (F : Front W L) (P : Policy W) : Prop :=
  ∀ j l p l' ev, F.start j l = some (p, l', ev) → ∃ G, Serves p G ∧
    ∀ q ∈ G, ∀ t b, ∃ jb, P.start jb b ∧ W.start t jb b = some (q, b)

theorem Front.reachable_guessable (hF : F.Served P) {c : Conf F.world}
    (hc : (F.policy P).Reachable ⟨b₀, l₀, []⟩ c) : ∃ G, Guessable P b₀ c G := by
  refine Reaches.invariant (I := fun c => ∃ G, Guessable P b₀ c G) hc ?_ ?_
  · refine ⟨fun _ => ∅, by simp [Conf.init], fun g _ => ⟨_, Reaches.refl, rfl, rfl, ?_⟩⟩
    simp [Conf.init]
  intro x a y hx hI hperm hxy
  obtain ⟨G, hG⟩ := hI
  rcases Conf.apply_cases hxy with ⟨t, ch, o, k, r, s', rfl, hk, hex, rfl⟩ | ⟨t, -, rfl⟩ |
    ⟨e, s', rfl, henv, rfl⟩ | ⟨j, p, s', rfl, hst, rfl⟩
  · have hcall : (F.policy P).call t ch o x.store := by simpa [Policy.Permits, hk] using hperm
    have hserves := hG.serves t _ hk
    cases o with
    | inl o =>
        obtain ⟨⟨r', b⟩, hb, heq⟩ := Option.map_eq_some_iff.mp hex
        cases heq
        obtain ⟨-, hnext⟩ := hserves
        obtain ⟨G', hG', hback⟩ := hnext r'
        refine ⟨_, hG.advance hG' (by simp [hk]) fun q hq => ?_⟩
        obtain ⟨k', hk', rfl⟩ := hback q hq
        refine ⟨_, hk', fun c' hc' hstore hat => ?_⟩
        have hperm' : P.Permits c' (.step t ch.1) := by
          simp only [Policy.Permits, hat, hstore]
          exact hcall
        rw [← hstore] at hb
        refine ⟨_, Reaches.tail hc' hperm' (Conf.apply_call hat hb), ?_, rfl, rfl⟩
        rw [hstore] at hb
        exact (FrontStore.follow_base _ (W.exec_records hb)).symm
    | inr o =>
        obtain ⟨⟨r', l, ev⟩, -, heq⟩ := Option.map_eq_some_iff.mp hex
        cases heq
        obtain ⟨-, hnext⟩ := hserves
        obtain ⟨G', hG', hsub⟩ := hnext r'
        refine ⟨_, hG.advance hG' (by simp [hk]) fun q hq => ?_⟩
        refine ⟨q, hsub hq, fun c' hc' hstore hat => ⟨c', hc', ?_, rfl, ?_⟩⟩
        · simpa using hstore
        · rw [← hat, Function.update_eq_self]
  · exact ⟨G, hG.gone t⟩
  · cases e with
    | inl e =>
        obtain ⟨b, hb, rfl⟩ := Option.map_eq_some_iff.mp henv
        refine ⟨G, hG.serves, fun g hg => ?_⟩
        obtain ⟨c', hc', hm⟩ := hG.guess g hg
        have hperm' : P.Permits c' (.env e) := by
          change P.env e c'.store
          rw [hm.store]
          exact hperm
        have happly : c'.apply (.env e) = some { c' with store := b } := by
          simp only [Conf.apply, hm.store, hb, Option.map_some]
        refine ⟨_, Reaches.tail hc' hperm' happly, ?_, hm.next, hm.tasks⟩
        exact (FrontStore.follow_base _ (W.env_records hb)).symm
    | inr e =>
        obtain ⟨⟨l, ev⟩, -, rfl⟩ := Option.map_eq_some_iff.mp henv
        exact ⟨G, hG.of_base_eq (by simp)⟩
  · have hfresh : x.tasks x.next = none := by
      by_contra hne
      exact Nat.lt_irrefl _ ((Policy.Reachable.ordered (by exact rfl) hx).task_lt _ hne)
    cases j with
    | inl j =>
        obtain ⟨⟨q, b⟩, hb, heq⟩ := Option.map_eq_some_iff.mp hst
        cases heq
        refine ⟨_, hG.spawn (Serves.base q) hfresh ?_⟩
        rintro _ rfl
        refine ⟨j, hperm, ?_⟩
        rw [FrontStore.follow_base _ (W.start_records hb)]
        exact hb
    | inr j =>
        obtain ⟨⟨q, l, ev⟩, hq, heq⟩ := Option.map_eq_some_iff.mp hst
        cases heq
        obtain ⟨G', hG', hjob⟩ := hF _ _ _ _ _ hq
        refine ⟨_, hG.spawn hG' hfresh fun q hq => ?_⟩
        obtain ⟨jb, hjb, hstart⟩ := hjob q hq x.next x.store.base
        exact ⟨jb, hjb, by simpa using hstart⟩

/-- Refinement: the store of the base, as it is at any moment of a run of the front end,
    is one that the base reaches by itself. -/
theorem Front.refines (hF : F.Served P) {c : Conf F.world}
    (hc : (F.policy P).Reachable ⟨b₀, l₀, []⟩ c) :
    ∃ c', P.Reachable b₀ c' ∧ c'.store = c.store.base := by
  obtain ⟨G, hG⟩ := Front.reachable_guessable hF hc
  exact hG.exists_run

end LogPipeline.Conc
