/-
  LogPipeline.Cluster.Lease

  How often and when a message is handed to a worker.

  The poll loops of a partition read its messages in order, each of them once (`Tracked.read`);
  whatever is delivered again was reclaimed, and had not been delivered for the reclaim idle
  time (`deliveries_leased`).  A delivery starts one goroutine at most: what a loop has been
  given is in its hands until it is handed over to `g.Go`, and `hands` is the automaton that
  counts it.
-/

import LogPipeline.Cluster.AckSafety
import LogPipeline.Cluster.Control
import LogPipeline.Redis.Lease
import Mathlib.Data.List.Perm.Basic

namespace LogPipeline.Cluster

open Conc Go Redis Queue Bootstrap

-- ============================================================================
-- Deliveries
-- ============================================================================

/-- A message of a stream, and the group that reads it. -/
structure Message where
  stream : String
  group : String
  id : StreamID
  deriving DecidableEq

/-- The message that a delivery is of. -/
def Deployment.message (D : Deployment) (d : Delivery) : Message :=
  ⟨D.stream d.run, D.group d.run, d.id⟩

/-- The messages that the reply to a command delivers. -/
def Cmd.gives : (c : Cmd) → Except RedisError c.Reply → List Message
  | .xReadGroup stream group _ _, .ok msgs => msgs.map fun m => ⟨stream, group, m.id⟩
  | .xAutoClaim stream group _ _ _ _, .ok (msgs, _) => msgs.map fun m => ⟨stream, group, m.id⟩
  | _, _ => []

/-- The ids that the reply to an XREADGROUP of the group delivers. -/
def Cmd.reads (stream group : String) : (c : Cmd) → Except RedisError c.Reply → List StreamID
  | .xReadGroup name n _ _, .ok msgs =>
      if name = stream ∧ n = group then msgs.map (·.id) else []
  | _, _ => []

def Ev.gives : Ev → List Message
  | .cmd _ c reply _ => c.gives reply
  | _ => []

/-- When the event delivers the message. -/
def Ev.givesAt (m : Message) : Ev → Option Nat
  | .cmd _ c reply now => if m ∈ c.gives reply then some now else none
  | _ => none

def Ev.reads (stream group : String) : Ev → List StreamID
  | .cmd _ c reply _ => c.reads stream group reply
  | _ => []

/-- The times at which a message was delivered, newest first. -/
def Log.deliveries (h : Log) (m : Message) : List Nat := h.filterMap fun e => e.ev.givesAt m

/-- The ids that XREADGROUP has given to a group, newest first. -/
def Log.reads (h : Log) (stream group : String) : List StreamID :=
  h.flatMap fun e => e.ev.reads stream group

/-- The message whose processing the event begins. -/
def Ev.begins (D : Deployment) : Ev → Option Message
  | .started d => some (D.message d)
  | _ => none

/-- How many goroutines have begun to process a message. -/
def Log.starts (D : Deployment) (h : Log) (m : Message) : Nat :=
  h.countP fun e => decide (e.ev.begins D = some m)

/-- How long a message has to be idle to be reclaimed, as the server is told. -/
def Deployment.lease (D : Deployment) : Nat := formatMs D.cfg.worker.reclaimIdleTime

/-- A claim waits for the reclaim idle time. -/
def Cmd.Patient (D : Deployment) : Cmd → Prop
  | .xAutoClaim _ _ _ minIdle _ _ => minIdle = D.cfg.worker.reclaimIdleTime
  | _ => True

-- ============================================================================
-- The server
-- ============================================================================

/-- What the groups are given agrees with what was logged. -/
structure Tracked (s : Store) : Prop where
  leased : ∀ stream group, (s.streams stream).Leased group s.now fun id =>
    s.log.deliveries ⟨stream, group, id⟩
  read : ∀ stream group, (s.streams stream).Read group (s.log.reads stream group)
  once : ∀ e ∈ s.log, e.ev.gives.Nodup

theorem tracked_init : Tracked Store.init where
  leased := fun _ _ => Stream.Leased.empty ..
  read := fun _ _ => Stream.Read.empty _
  once := by
    intro e he
    cases he

section

variable {s s' : Store}

theorem Log.deliveries_cons (e : Event Ev) (h : Log) (m : Message) :
    Log.deliveries (e :: h) m = (e.ev.givesAt m).toList ++ h.deliveries m := by
  unfold Log.deliveries
  rw [List.filterMap_cons]
  cases e.ev.givesAt m <;> rfl

theorem Log.reads_cons (e : Event Ev) (h : Log) (stream group : String) :
    Log.reads (e :: h) stream group = e.ev.reads stream group ++ h.reads stream group :=
  List.flatMap_cons

theorem Ev.givesAt_of_not_mem {ev : Ev} {m : Message} (h : m ∉ ev.gives) : ev.givesAt m = none := by
  cases ev with
  | cmd ctx c reply now => exact if_neg h
  | _ => rfl

theorem Ev.givesAt_of_mem {ctx : Ctx} {c : Cmd} {reply : Except RedisError c.Reply} {now : Nat}
    {m : Message} (h : m ∈ c.gives reply) : (Ev.cmd ctx c reply now).givesAt m = some now :=
  if_pos h

/-- A step that delivers nothing. -/
theorem Tracked.quiet (hI : Tracked s)
    (hleased : ∀ stream group given, (s.streams stream).Leased group s.now given →
      (s'.streams stream).Leased group s'.now given)
    (hread : ∀ stream group ids, (s.streams stream).Read group ids →
      (s'.streams stream).Read group ids)
    (hlog : s'.log = s.log ∨ ∃ e, s'.log = e :: s.log ∧ e.ev.gives = [] ∧
      ∀ stream group, e.ev.reads stream group = []) : Tracked s' := by
  have hdel : ∀ m, s'.log.deliveries m = s.log.deliveries m := by
    intro m
    rcases hlog with hlog | ⟨e, hlog, hgives, -⟩
    · rw [hlog]
    · rw [hlog, Log.deliveries_cons, Ev.givesAt_of_not_mem (by simp [hgives])]
      rfl
  have hreads : ∀ stream group, s'.log.reads stream group = s.log.reads stream group := by
    intro stream group
    rcases hlog with hlog | ⟨e, hlog, -, hnone⟩
    · rw [hlog]
    · rw [hlog, Log.reads_cons, hnone]
      rfl
  refine ⟨fun stream group => ?_, fun stream group => ?_, fun e he => ?_⟩
  · simp only [hdel]
    exact hleased stream group _ (hI.leased stream group)
  · rw [hreads]
    exact hread stream group _ (hI.read stream group)
  · rcases hlog with hlog | ⟨e', hlog, hgives, -⟩
    · exact hI.once e (hlog ▸ he)
    · rw [hlog] at he
      rcases List.mem_cons.mp he with rfl | he
      · rw [hgives]
        exact List.nodup_nil
      · exact hI.once e he

/-- A command that changes one stream and delivers nothing. -/
theorem Tracked.setStream (hI : Tracked s) {t : Nat} {ctx : Ctx} {c : Cmd}
    {reply : Except RedisError c.Reply} {name : String} {x : Stream Values}
    (hleased : ∀ group given, (s.streams name).Leased group s.now given →
      x.Leased group s.now given)
    (hread : ∀ group ids, (s.streams name).Read group ids → x.Read group ids)
    (hgives : c.gives reply = []) (hnone : ∀ stream group, c.reads stream group reply = []) :
    Tracked ((s.setStream name x).record (some t) (.cmd ctx c reply s.now)) := by
  refine hI.quiet (fun stream group given h => ?_) (fun stream group ids h => ?_)
    (Or.inr ⟨_, rfl, hgives, hnone⟩)
  · by_cases hs : stream = name
    · subst hs
      change ((s.setStream stream x).streams stream).Leased group s.now given
      rw [setStream_self]
      exact hleased group given h
    · change ((s.setStream name x).streams stream).Leased group s.now given
      rw [setStream_ne s x hs]
      exact h
  · by_cases hs : stream = name
    · subst hs
      change ((s.setStream stream x).streams stream).Read group ids
      rw [setStream_self]
      exact hread group ids h
    · change ((s.setStream name x).streams stream).Read group ids
      rw [setStream_ne s x hs]
      exact h

/-- A command that changes nothing and delivers nothing. -/
theorem Tracked.unchanged (hI : Tracked s) {t : Nat} {ctx : Ctx} {c : Cmd}
    {reply : Except RedisError c.Reply} (hgives : c.gives reply = [])
    (hnone : ∀ stream group, c.reads stream group reply = []) :
    Tracked (s.record (some t) (.cmd ctx c reply s.now)) :=
  hI.quiet (fun _ _ _ h => h) (fun _ _ _ h => h) (Or.inr ⟨_, rfl, hgives, hnone⟩)

/-- An XREADGROUP that finds a message. -/
theorem Tracked.readGroup (hI : Tracked s) (t : Nat) (ctx : Ctx) (block : Duration)
    {name n consumer : String} {e : Entry Values} {x : Stream Values}
    (hr : (s.streams name).xreadgroup n consumer s.now = some (some e, x)) :
    s.log.deliveries ⟨name, n, e.id⟩ = [] ∧
    Tracked ((s.setStream name x).record (some t)
      (.cmd ctx (.xReadGroup name n consumer block) (.ok [e]) s.now)) := by
  obtain ⟨hfresh, hleased⟩ := (hI.leased name n).xreadgroup hr
  have hgives : (Cmd.xReadGroup name n consumer block).gives (.ok [e]) = [⟨name, n, e.id⟩] := rfl
  have hother : ∀ stream group id, ¬ (stream = name ∧ group = n ∧ id = e.id) →
      Ev.givesAt ⟨stream, group, id⟩
        (.cmd ctx (.xReadGroup name n consumer block) (.ok [e]) s.now) = none := by
    intro stream group id hne
    refine Ev.givesAt_of_not_mem fun hmem => hne ?_
    change _ ∈ (Cmd.xReadGroup name n consumer block).gives (.ok [e]) at hmem
    rw [hgives, List.mem_singleton] at hmem
    cases hmem
    exact ⟨rfl, rfl, rfl⟩
  refine ⟨hfresh, fun stream group => ?_, fun stream group => ?_, fun e' he' => ?_⟩
  · change ((s.setStream name x).streams stream).Leased group s.now fun id =>
      Log.deliveries (⟨s.log.length, some t, _⟩ :: s.log) ⟨stream, group, id⟩
    simp only [Log.deliveries_cons]
    by_cases hs : stream = name
    · subst hs
      rw [setStream_self]
      by_cases hn : group = n
      · subst hn
        convert hleased using 1
        funext id
        by_cases hid : id = e.id
        · subst hid
          rw [Function.update_self, Ev.givesAt_of_mem (by simp [hgives])]
          rfl
        · rw [Function.update_of_ne hid, hother _ _ _ fun h => hid h.2.2]
          rfl
      · have hsame := (hI.leased stream group).xreadgroup_ne hn hr
        convert hsame using 1
        funext id
        rw [hother _ _ _ fun h => hn h.2.1]
        rfl
    · rw [setStream_ne s x hs]
      convert hI.leased stream group using 1
      funext id
      rw [hother _ _ _ fun h => hs h.1]
      rfl
  · change ((s.setStream name x).streams stream).Read group
      (Log.reads (⟨s.log.length, some t, _⟩ :: s.log) stream group)
    rw [Log.reads_cons]
    change Stream.Read _ group ((if name = stream ∧ n = group then [e.id] else []) ++ _)
    by_cases hs : stream = name
    · subst hs
      rw [setStream_self]
      by_cases hn : group = n
      · subst hn
        rw [if_pos ⟨rfl, rfl⟩]
        exact (hI.read stream group).xreadgroup hr
      · rw [if_neg fun h => hn h.2.symm]
        exact (hI.read stream group).xreadgroup_ne hn hr
    · rw [setStream_ne s x hs, if_neg fun h => hs h.1.symm]
      exact hI.read stream group
  · rcases List.mem_cons.mp he' with rfl | he'
    · exact List.nodup_singleton _
    · exact hI.once e' he'

/-- An XAUTOCLAIM. -/
theorem Tracked.autoClaim (hI : Tracked s) (t : Nat) (ctx : Ctx) {name n consumer : String}
    {minIdle : Duration} {start cursor : StreamID} {count : Int64} {scan : Nat}
    {es : List (Entry Values)} {x : Stream Values}
    (hr : (s.streams name).xautoclaim n consumer (formatMs minIdle) s.now start count.toInt.toNat
      scan = some (es, cursor, x)) :
    (∀ e ∈ es, ∀ since ∈ s.log.deliveries ⟨name, n, e.id⟩, since + formatMs minIdle ≤ s.now) ∧
    Tracked ((s.setStream name x).record (some t)
      (.cmd ctx (.xAutoClaim name n consumer minIdle start count) (.ok (es, cursor)) s.now)) := by
  obtain ⟨hidle, hleased⟩ := (hI.leased name n).xautoclaim hr
  have hmem : ∀ stream group id, (⟨stream, group, id⟩ : Message) ∈
      (Cmd.xAutoClaim name n consumer minIdle start count).gives (.ok (es, cursor)) ↔
      stream = name ∧ group = n ∧ id ∈ es.map (·.id) := by
    intro stream group id
    change _ ∈ es.map (fun m => (⟨name, n, m.id⟩ : Message)) ↔ _
    simp only [List.mem_map, Message.mk.injEq]
    constructor
    · rintro ⟨m, hm, rfl, rfl, rfl⟩
      exact ⟨rfl, rfl, m, hm, rfl⟩
    · rintro ⟨rfl, rfl, m, hm, rfl⟩
      exact ⟨m, hm, rfl, rfl, rfl⟩
  refine ⟨hidle, fun stream group => ?_, fun stream group => ?_, fun e' he' => ?_⟩
  · change ((s.setStream name x).streams stream).Leased group s.now fun id =>
      Log.deliveries (⟨s.log.length, some t, _⟩ :: s.log) ⟨stream, group, id⟩
    simp only [Log.deliveries_cons]
    by_cases hs : stream = name
    · subst hs
      rw [setStream_self]
      by_cases hn : group = n
      · subst hn
        convert hleased using 1
        funext id
        split
        · next hid =>
            rw [Ev.givesAt_of_mem ((hmem _ _ _).mpr ⟨rfl, rfl, hid⟩)]
            rfl
        · next hid =>
            rw [Ev.givesAt_of_not_mem fun h => hid ((hmem _ _ _).mp h).2.2]
            rfl
      · have hsame := (hI.leased stream group).xautoclaim_ne hn hr
        convert hsame using 1
        funext id
        rw [Ev.givesAt_of_not_mem fun h => hn ((hmem _ _ _).mp h).2.1]
        rfl
    · rw [setStream_ne s x hs]
      convert hI.leased stream group using 1
      funext id
      rw [Ev.givesAt_of_not_mem fun h => hs ((hmem _ _ _).mp h).1]
      rfl
  · change ((s.setStream name x).streams stream).Read group
      (Log.reads (⟨s.log.length, some t, _⟩ :: s.log) stream group)
    rw [Log.reads_cons]
    by_cases hs : stream = name
    · subst hs
      rw [setStream_self]
      exact (hI.read stream group).xautoclaim hr
    · rw [setStream_ne s x hs]
      exact hI.read stream group
  · rcases List.mem_cons.mp he' with rfl | he'
    · have hnodup := (Stream.xautoclaim_nodup hr).map (f := Message.mk name n) fun a b h => by
        cases h
        rfl
      rwa [List.map_map] at hnodup
    · exact hI.once e' he'

/-- A command delivers what was not delivered for the reclaim idle time, if that is what a
    claim asks for. -/
theorem Tracked.command (hI : Tracked s) {t : Nat} {ch : Choice} {ctx : Ctx} {c : Cmd}
    {reply : Except RedisError c.Reply} {s₁ : Store}
    (hans : answer ch ctx c s = some (reply, s₁)) :
    (∀ D, c.Patient D → ∀ m ∈ c.gives reply, ∀ since ∈ s.log.deliveries m,
      since + D.lease ≤ s.now) ∧
    Tracked (s₁.record (some t) (.cmd ctx c reply s.now)) := by
  have herror : ∀ err : RedisError, c.gives (.error err) = [] ∧
      ∀ stream group, c.reads stream group (.error err) = [] := by
    intro err
    cases c <;> exact ⟨rfl, fun _ _ => rfl⟩
  have hlost : ∀ err : RedisError, (∀ D, c.Patient D → ∀ m ∈ c.gives (.error err),
      ∀ since ∈ s.log.deliveries m, since + D.lease ≤ s.now) ∧
      Tracked (s.record (some t) (.cmd ctx c (.error err) s.now)) := by
    intro err
    obtain ⟨hgives, hnone⟩ := herror err
    refine ⟨fun D _ m hm => ?_, hI.unchanged hgives hnone⟩
    rw [hgives] at hm
    cases hm
  rcases answer_cases hans with ⟨-, rfl, rfl⟩ | ⟨-, _, -, rfl, rfl⟩ | ⟨-, -, hrun⟩
  · exact hlost _
  · exact hlost _
  cases c with
  | setNX key value ttl =>
      refine ⟨fun _ _ _ hm => absurd hm List.not_mem_nil, ?_⟩
      rcases runCmd_setNX hrun with ⟨-, -, rfl⟩ | ⟨-, -, rfl⟩ | ⟨-, -, rfl⟩ <;>
        exact hI.quiet (fun _ _ _ h => h) (fun _ _ _ h => h)
          (Or.inr ⟨_, rfl, rfl, fun _ _ => rfl⟩)
  | xAdd name maxLen v =>
      refine ⟨fun _ _ _ hm => absurd hm List.not_mem_nil, ?_⟩
      simp only [runCmd] at hrun
      split at hrun
      · next hid =>
          split at hrun
          · cases hrun
            exact hI.setStream (fun _ _ h => h.congr (by rfl) (Nat.le_refl _))
              (fun _ _ h => h.xadd hid v ch.trim) rfl fun _ _ => rfl
          · cases hrun
      · cases hrun
  | xAck name group id =>
      cases hrun
      exact ⟨fun _ _ _ hm => absurd hm List.not_mem_nil, hI.setStream (fun _ _ h => h.xack group id)
        (fun _ _ h => h.xack group id) rfl fun _ _ => rfl⟩
  | xDel name id =>
      cases hrun
      exact ⟨fun _ _ _ hm => absurd hm List.not_mem_nil, hI.setStream
        (fun _ _ h => h.congr (by rfl) (Nat.le_refl _)) (fun _ _ h => h.xdel id) rfl
        fun _ _ => rfl⟩
  | xRange name lo hi =>
      cases hrun
      exact ⟨fun _ _ _ hm => absurd hm List.not_mem_nil, hI.unchanged rfl fun _ _ => rfl⟩
  | xReadGroup name group consumer block =>
      simp only [runCmd] at hrun
      split at hrun
      · cases hrun
        exact hlost _
      · next x hx =>
          cases hrun
          have hsame : x = s.streams name := by
            rcases Stream.xreadgroup_cases hx with ⟨-, rfl⟩ | ⟨_, _, _, _, _, _, hsome, _⟩
            · rfl
            · cases hsome
          exact ⟨fun _ _ _ hm => absurd hm List.not_mem_nil, hI.setStream (fun _ _ h => hsame ▸ h)
            (fun _ _ h => hsame ▸ h) rfl fun _ _ => rfl⟩
      · next e x hx =>
          cases hrun
          obtain ⟨hfresh, htracked⟩ := hI.readGroup t ctx block hx
          refine ⟨fun D _ m hm since hs => ?_, htracked⟩
          rw [List.mem_singleton.mp hm, hfresh] at hs
          cases hs
  | xAutoClaim name group consumer minIdle start count =>
      simp only [runCmd] at hrun
      split at hrun
      · cases hrun
        exact hlost _
      · next es cursor x hx =>
          cases hrun
          obtain ⟨hidle, htracked⟩ := hI.autoClaim t ctx hx
          refine ⟨fun D hp m hm since hs => ?_, htracked⟩
          obtain ⟨e, he, rfl⟩ := List.mem_map.mp hm
          have hlease : D.lease = formatMs minIdle := by rw [Deployment.lease, ← hp]
          rw [hlease]
          exact hidle e he since hs
  | xGroupCreateMkStream name group =>
      simp only [runCmd] at hrun
      split at hrun
      · cases hrun
        exact hlost _
      · next x hx =>
          cases hrun
          exact ⟨fun _ _ _ hm => absurd hm List.not_mem_nil,
            hI.setStream (fun _ _ h => h.xgroupCreate hx)
              (fun _ _ h => h.xgroupCreate hx) rfl fun _ _ => rfl⟩
  | xLen name =>
      cases hrun
      exact ⟨fun _ _ _ hm => absurd hm List.not_mem_nil, hI.unchanged rfl fun _ _ => rfl⟩
  | xPending name group =>
      simp only [runCmd] at hrun
      split at hrun
      · cases hrun
        exact hlost _
      · cases hrun
        exact ⟨fun _ _ _ hm => absurd hm List.not_mem_nil, hI.unchanged rfl fun _ _ => rfl⟩

end

theorem reachable_tracked {D : Deployment} {P : Policy (world D)} {c : Conf (world D)}
    (hc : P.Reachable Store.init c) : Tracked c.store := by
  refine reachable_invariant tracked_init (fun x s' _ hI hm _ => ?_) hc
  cases hm with
  | redis _ hans => exact (hI.command hans).2
  | @tick ms _ =>
      exact hI.quiet (fun _ _ _ h => h.congr rfl (Nat.le_add_right ..)) (fun _ _ _ h => h)
        (Or.inl rfl)
  | silent hq hlog =>
      refine hI.quiet (fun _ _ _ h => ?_) (fun _ _ _ h => ?_) (Or.inl hlog)
      · rw [hq.streams, hq.now]
        exact h
      · rw [hq.streams]
        exact h
  | @logged _ who ev hq hlog hcmd _ =>
      have hnone : ev.gives = [] ∧ ∀ stream group, ev.reads stream group = [] := by
        cases ev with
        | cmd ctx c reply now => exact absurd ⟨ctx, c, reply, now, rfl⟩ hcmd
        | _ => exact ⟨rfl, fun _ _ => rfl⟩
      refine hI.quiet (fun _ _ _ h => ?_) (fun _ _ _ h => ?_) (Or.inr ⟨_, hlog, hnone⟩)
      · rw [hq.streams, hq.now]
        exact h
      · rw [hq.streams]
        exact h

-- ============================================================================
-- What is in the hands of a task
-- ============================================================================

/-- The message that a loop hands over to `g.Go`. -/
def Op.handed (D : Deployment) : Op → List Message
  | .goProcess run _ id => [⟨D.stream run, D.group run, id⟩]
  | _ => []

def Op.received : (o : Op) → o.Res → List Message
  | .redis _ c, reply => c.gives reply
  | _, _ => []

def Op.Patient (D : Deployment) : Op → Prop
  | .redis _ c => c.Patient D
  | _ => True

/-- A task holds what it was given, until it hands it over or drops it. -/
@[reducible] def hands (D : Deployment) : Typestate sig (List Message) where
  Next x o r y := o.Patient D ∧
    ∀ m, (o.handed D).count m + y.count m ≤ x.count m + (o.received r).count m
  Final _ := True

section

variable {D : Deployment}

/-- A call that hands nothing over. -/
theorem hands_drop {x : List Message} {o : Op} {r : o.Res} (hp : o.Patient D)
    (ho : o.handed D = []) : (hands D).Next x o r [] := by
  refine ⟨hp, fun m => ?_⟩
  rw [ho]
  simp

/-- A call that neither delivers nor hands over. -/
theorem hands_keep {x : List Message} {o : Op} {r : o.Res} (hp : o.Patient D)
    (ho : o.handed D = []) : (hands D).Next x o r x := by
  refine ⟨hp, fun m => ?_⟩
  rw [ho]
  simp

/-- The stages of the tasks that handle no deliveries, or one that was handed over to them. -/
def Stage.HandsFree : Stage → Prop
  | .polling _ | .polled _ | .waiting _ | .reclaiming _ | .reclaimed _ => False
  | _ => True

theorem Control.handsFree {x y : Stage} {o : Op} {r : o.Res} (h : Control D x o r y)
    (hx : x.HandsFree) : (o.Patient D ∧ o.handed D = []) ∧ y.HandsFree := by
  cases h with
  | @command _ _ c _ hjob =>
      cases c with
      | setNX | xAdd | xAck => exact ⟨⟨trivial, rfl⟩, trivial⟩
      | _ => exact hjob.elim
  | _ => first | exact hx.elim | exact ⟨⟨trivial, rfl⟩, trivial⟩

theorem hands_of_control {α : Type} {Q : α → Stage → Prop} {p : Program α} {x : Stage}
    (h : Typed (control D) Q p x) (hx : x.HandsFree) :
    Typed (hands D) (fun _ y => y = []) p [] := by
  have : ∀ o, Nonempty (sig.Res o) := Op.res_nonempty
  have huses : p.Uses fun o : Op => o.Patient D ∧ o.handed D = [] :=
    h.uses (J := Stage.HandsFree) (fun hx hnext => Control.handsFree hnext hx) hx
  exact Typed.of_uses (fun o r ho => hands_drop ho.1 ho.2) huses

/-- What a worker holds of the messages it was given. -/
def heldBy (D : Deployment) (run : Nat) (claimed : List (JobEnvelope × StreamID)) :
    List Message :=
  claimed.map fun m => ⟨D.stream run, D.group run, m.2⟩

theorem heldBy_append (run : Nat) (claimed claimed' : List (JobEnvelope × StreamID)) :
    heldBy D run (claimed ++ claimed') = heldBy D run claimed ++ heldBy D run claimed' :=
  List.map_append

theorem count_parsed_le (run : Nat) (msgs : List (Entry Values)) (m : Message) :
    (heldBy D run (Consumer.parsed msgs)).count m ≤
      (msgs.map fun x => (⟨D.stream run, D.group run, x.id⟩ : Message)).count m := by
  have hsub := (parsed_ids_sublist msgs).map (Message.mk (D.stream run) (D.group run))
  rw [List.map_map, List.map_map] at hsub
  exact hsub.count_le m

/-- The rule for one call. -/
theorem hands_call {α : Type} {Q : α → List Message → Prop} {o : Op} {k : o.Res → Program α}
    {x : List Message}
    (h : ∀ r : o.Res, ∃ y, (hands D).Next x o r y ∧ Typed (hands D) Q (k r) y) :
    Typed (hands D) Q ((call o).bind k) x :=
  h

theorem hands_consume (run : Nat) (block : Duration) :
    Typed (hands D) (fun r y => (y = [] ∧ ∀ m, r ≠ .ok (some m)) ∨
        ∃ m, r = .ok (some m) ∧ y = heldBy D run [m])
      ((D.worker run).consumer.consume (.worker run) block) [] := by
  refine hands_call fun r => ?_
  match r with
  | .error .nil => exact ⟨[], hands_drop trivial rfl, Or.inl ⟨rfl, nofun⟩⟩
  | .error (.server msg) => exact ⟨[], hands_drop trivial rfl, Or.inl ⟨rfl, nofun⟩⟩
  | .error .context => exact ⟨[], hands_drop trivial rfl, Or.inl ⟨rfl, nofun⟩⟩
  | .ok [] => exact ⟨[], hands_drop trivial rfl, Or.inl ⟨rfl, nofun⟩⟩
  | .ok (msg :: rest) =>
      dsimp only
      cases hp : Consumer.parseMessage msg with
      | error err => exact ⟨[], hands_drop trivial rfl, Or.inl ⟨rfl, nofun⟩⟩
      | ok m =>
          refine ⟨heldBy D run [m], ⟨trivial, fun x => ?_⟩, Or.inr ⟨m, rfl, rfl⟩⟩
          have hgives : Op.received (.redis (.worker run) (.xReadGroup
              (D.worker run).consumer.streamName (D.worker run).consumer.consumerGroup
              (D.worker run).consumer.consumerName block)) (.ok (msg :: rest)) =
              heldBy D run [m] ++ rest.map fun y => ⟨D.stream run, D.group run, y.id⟩ := by
            rw [heldBy, List.map_singleton, (parseMessage_eq_ok.mp hp).2]
            rfl
          rw [hgives, List.count_append]
          change 0 + _ ≤ 0 + _
          omega

theorem hands_pollLoop (run rounds : Nat) :
    Typed (hands D) (fun _ _ => True) ((D.worker run).pollLoop rounds) [] := by
  induction rounds with
  | zero => trivial
  | succ rounds ih =>
      intro b
      refine ⟨[], hands_keep trivial rfl, ?_⟩
      cases b with
      | true => trivial
      | false =>
          refine (hands_consume run _).seq ?_
          intro res y hy
          match res with
          | .error err =>
              intro b
              refine ⟨[], hands_drop trivial rfl, ?_⟩
              cases b with
              | true => trivial
              | false => exact ih
          | .ok none =>
              rcases hy with ⟨rfl, -⟩ | ⟨m, ⟨⟩, -⟩
              exact ih
          | .ok (some (e, id)) =>
              obtain rfl : y = heldBy D run [(e, id)] := by
                rcases hy with ⟨-, hne⟩ | ⟨m, ⟨⟩, rfl⟩
                · exact absurd rfl (hne (e, id))
                · rfl
              intro b
              refine ⟨_, hands_keep trivial rfl, ?_⟩
              cases b with
              | true => exact fun _ => ⟨[], ⟨trivial, fun m => Nat.le_refl _⟩, ih⟩
              | false => trivial

theorem hands_dispatchAll (run : Nat) (claimed : List (JobEnvelope × StreamID)) :
    Typed (hands D) (fun _ _ => True) ((D.worker run).dispatchAll claimed)
      (heldBy D run claimed) := by
  induction claimed with
  | nil => trivial
  | cons m rest ih =>
      intro b
      refine ⟨_, hands_keep trivial rfl, ?_⟩
      cases b with
      | true =>
          refine fun _ => ⟨heldBy D run rest, ⟨trivial, fun x => ?_⟩, ih⟩
          change ([⟨D.stream run, D.group run, m.2⟩] : List Message).count x +
            (heldBy D run rest).count x ≤ (heldBy D run (m :: rest)).count x + 0
          rw [heldBy, heldBy, List.map_cons, List.count_cons, List.count_cons, List.count_nil]
          omega
      | false => trivial

theorem hands_reclaimPages (run : Nat) (batch : Int64) (pages : Nat) (cursor : StreamID)
    (all : List (JobEnvelope × StreamID)) :
    Typed (hands D) (fun r y => ∀ claimed, r = some (claimed, none) → y = heldBy D run claimed)
      ((D.worker run).consumer.reclaimPages run D.cfg.worker.reclaimIdleTime batch pages cursor all)
      (heldBy D run all) := by
  induction pages generalizing cursor all with
  | zero =>
      rintro claimed ⟨⟩
  | succ pages ih =>
      refine hands_call fun r => ?_
      match r with
      | .error .nil =>
          refine ⟨_, hands_keep rfl rfl, ?_⟩
          rintro claimed ⟨⟩
          rfl
      | .error (.server msg) => exact ⟨[], hands_drop rfl rfl, by rintro claimed ⟨⟩⟩
      | .error .context => exact ⟨[], hands_drop rfl rfl, by rintro claimed ⟨⟩⟩
      | .ok (messages, next) =>
          refine ⟨heldBy D run (all ++ Consumer.parsed messages), ⟨rfl, fun m => ?_⟩, ?_⟩
          · have hle := count_parsed_le (D := D) run messages m
            rw [heldBy_append, List.count_append]
            change 0 + _ ≤ _ + (messages.map fun x =>
              (⟨D.stream run, D.group run, x.id⟩ : Message)).count m
            omega
          · dsimp only
            split
            · rintro claimed ⟨⟩
              rfl
            · refine hands_call fun b => ⟨_, hands_keep trivial rfl, ?_⟩
              cases b with
              | true => rintro claimed ⟨⟩
              | false => exact ih next _

theorem hands_tryReclaim (run pages : Nat) (x : List Message) :
    Typed (hands D) (fun _ _ => True) ((D.worker run).tryReclaim pages) x := by
  intro r
  refine ⟨[], hands_drop trivial rfl, ?_⟩
  match r with
  | .error err => trivial
  | .ok false => trivial
  | .ok true =>
      refine (hands_reclaimPages run _ pages .zero []).seq ?_
      intro res y hy
      match res with
      | none => trivial
      | some (_, some err) => trivial
      | some (claimed, none) =>
          obtain rfl := hy claimed rfl
          exact (hands_dispatchAll run claimed).seq fun _ _ _ => trivial

theorem hands_reclaimTicks (run pages ticks : Nat) (x : List Message) :
    Typed (hands D) (fun _ _ => True) ((D.worker run).reclaimTicks pages ticks) x := by
  induction ticks generalizing x with
  | zero => trivial
  | succ ticks ih =>
      intro b
      refine ⟨[], hands_drop trivial rfl, ?_⟩
      cases b with
      | true => trivial
      | false => exact (hands_tryReclaim run pages []).seq fun _ y _ => ih y

/-- Every program starts with nothing in its hands. -/
theorem hands_start {t : Nat} {j : Job} {s s' : Store} {p : Program Unit}
    (h : startJob D t j s = some (p, s')) : Typed (hands D) (fun _ _ => True) p [] := by
  cases j with
  | poll run rounds =>
      cases h
      exact hands_pollLoop run rounds
  | reclaim run pages ticks =>
      cases h
      exact (hands_tryReclaim run pages []).seq fun _ y _ => hands_reclaimTicks run pages ticks y
  | process index =>
      have htyped := typed_start h
      simp only [startJob] at h
      split at h
      · next d hd =>
          refine (hands_of_control htyped ?_).mono fun _ _ _ => trivial
          simp only [Job.stage, hd]
          trivial
      · cases h
  | _ => exact (hands_of_control (typed_start h) trivial).mono fun _ _ _ => trivial

-- ============================================================================
-- Deliveries and goroutines
-- ============================================================================

/-- How often a message was delivered. -/
def Log.given : Log → Message → Nat
  | [], _ => 0
  | e :: h, m => e.ev.gives.count m + Log.given h m

/-- How many goroutines wait to be scheduled for a message. -/
def readyFor (D : Deployment) (s : Store) (m : Message) : Nat :=
  s.ready.countP fun d => decide (D.message d = m)

def Ev.Patient (D : Deployment) : Ev → Prop
  | .cmd _ c _ _ => c.Patient D
  | _ => True

/-- Every goroutine that was started, waits to be scheduled or may still be handed over is for a
    delivery of its own. -/
structure HandedOver (D : Deployment) (s : Store) (n : Nat) (st : Nat → Option (List Message)) :
    Prop where
  patient : ∀ e ∈ s.log, e.ev.Patient D
  counted : ∀ m, s.log.starts D m + readyFor D s m + tally (fun x => x.count m) st n ≤
    s.log.given m

theorem Log.starts_cons (e : Event Ev) (h : Log) (m : Message) :
    Log.starts D (e :: h) m = h.starts D m + if e.ev.begins D = some m then 1 else 0 := by
  unfold Log.starts
  rw [List.countP_cons]
  simp only [decide_eq_true_eq]

theorem readyFor_append (s : Store) (d : Delivery) (m : Message) :
    readyFor D { s with ready := s.ready ++ [d] } m =
      readyFor D s m + ([D.message d] : List Message).count m := by
  unfold readyFor
  rw [List.countP_append, List.countP_singleton, List.count_cons, List.count_nil, Nat.zero_add]
  by_cases h : D.message d = m <;> simp [h]

/-- What one call does to the counts. -/
structure Counted (D : Deployment) (o : Op) (r : o.Res) (s s' : Store) : Prop where
  starts : ∀ m, s'.log.starts D m = s.log.starts D m
  ready : ∀ m, readyFor D s' m = readyFor D s m + (o.handed D).count m
  given : ∀ m, s'.log.given m = s.log.given m + (o.received r).count m
  patient : o.Patient D → (∀ e ∈ s.log, e.ev.Patient D) → ∀ e ∈ s'.log, e.ev.Patient D

/-- A call that logs an event, or nothing, and leaves the waiting goroutines alone. -/
theorem Counted.of_log {o : Op} {r : o.Res} {s s' : Store} (hready : s'.ready = s.ready)
    (ho : o.handed D = []) (hlog : (s'.log = s.log ∧ o.received r = []) ∨
      ∃ e, s'.log = e :: s.log ∧ e.ev.begins D = none ∧ e.ev.gives = o.received r ∧
        (o.Patient D → e.ev.Patient D)) : Counted D o r s s' := by
  have hready' : ∀ m, readyFor D s' m = readyFor D s m + (o.handed D).count m := by
    intro m
    rw [ho]
    unfold readyFor
    rw [hready]
    rfl
  rcases hlog with ⟨hlog, hrec⟩ | ⟨e, hlog, hbegins, hgives, hpat⟩
  · refine ⟨fun m => by rw [hlog], hready', fun m => ?_, fun _ h => by rwa [hlog]⟩
    rw [hlog, hrec]
    rfl
  · refine ⟨fun m => ?_, hready', fun m => ?_, fun hp h x hx => ?_⟩
    · rw [hlog, Log.starts_cons, hbegins]
      rfl
    · rw [hlog, Log.given, hgives, Nat.add_comm]
    · rw [hlog] at hx
      rcases List.mem_cons.mp hx with rfl | hx
      · exact hpat hp
      · exact h x hx

theorem exec_counted {t : Nat} {ch : Choice} {o : Op} {s s' : Store} {r : o.Res}
    (h : exec D t ch o s = some (r, s')) : Counted D o r s s' := by
  cases o with
  | redis ctx c =>
      obtain ⟨s₁, hans, rfl⟩ := exec_redis h
      have hframe := answer_frame hans
      have hlog : (s₁.record (some t) (.cmd ctx c r s.now)).log =
          ⟨s.log.length, some t, .cmd ctx c r s.now⟩ :: s.log := by
        rw [Store.record, hframe.log]
      exact .of_log hframe.ready rfl (Or.inr ⟨_, hlog, rfl, rfl, fun hp => hp⟩)
  | goProcess run e id =>
      cases h
      exact ⟨fun _ => rfl, readyFor_append s ⟨run, e, id⟩, fun _ => rfl, fun _ h => h⟩
  | semAcquire run =>
      simp only [exec] at h
      split at h
      · cases h
        exact .of_log rfl rfl (Or.inl ⟨rfl, rfl⟩)
      · split at h
        · cases h
          exact .of_log rfl rfl (Or.inl ⟨rfl, rfl⟩)
        · cases h
  | uuid | invoke | await | note | jobEnd =>
      cases h
      exact .of_log rfl rfl (Or.inr ⟨_, rfl, rfl, rfl, fun _ => trivial⟩)
  | now | ctxDone | timerOrDone | jobBegin | jobDone =>
      cases h
      exact .of_log rfl rfl (Or.inl ⟨rfl, rfl⟩)

/-- A step that starts no goroutine and delivers nothing. -/
theorem HandedOver.quiet {s s' : Store} {n : Nat} {st st' : Nat → Option (List Message)}
    (h : HandedOver D s n st) {n' : Nat}
    (htally : ∀ m, tally (fun x => x.count m) st' n' ≤ tally (fun x => x.count m) st n)
    (hready : s'.ready = s.ready)
    (hlog : s'.log = s.log ∨ ∃ e, s'.log = e :: s.log ∧ e.ev.begins D = none ∧
      e.ev.gives = [] ∧ e.ev.Patient D) : HandedOver D s' n' st' := by
  have hbound : ∀ m, s.log.starts D m + readyFor D s' m + tally (fun x => x.count m) st' n' ≤
      s.log.given m := by
    intro m
    have hcounted := h.counted m
    have hle := htally m
    have hsame : readyFor D s' m = readyFor D s m := by
      unfold readyFor
      rw [hready]
    omega
  rcases hlog with hlog | ⟨e, hlog, hbegins, hgives, hpat⟩
  · exact ⟨by rw [hlog]; exact h.patient, fun m => by rw [hlog]; exact hbound m⟩
  · refine ⟨fun x hx => ?_, fun m => ?_⟩
    · rw [hlog] at hx
      rcases List.mem_cons.mp hx with rfl | hx
      · exact hpat
      · exact h.patient x hx
    · rw [hlog, Log.starts_cons, hbegins, if_neg (by simp), Log.given, hgives, List.count_nil,
        Nat.zero_add]
      exact hbound m

/-- A goroutine is scheduled. -/
theorem HandedOver.schedule {s : Store} {n index t : Nat} {st : Nat → Option (List Message)}
    {d : Delivery} (h : HandedOver D s n st) (hd : s.ready[index]? = some d) :
    HandedOver D ({ s with ready := s.ready.eraseIdx index }.record (some t) (.started d)) (n + 1)
      (Function.update st n (some [])) := by
  refine ⟨fun x hx => ?_, fun m => ?_⟩
  · rcases List.mem_cons.mp hx with rfl | hx
    · trivial
    · exact h.patient x hx
  · obtain ⟨hlt, hget⟩ := List.getElem?_eq_some_iff.mp hd
    have hperm := (List.getElem_cons_eraseIdx_perm hlt).countP_eq fun d => decide (D.message d = m)
    rw [hget, List.countP_cons] at hperm
    simp only [decide_eq_true_eq] at hperm
    have hcounted := h.counted m
    rw [tally_push]
    change Log.starts D (⟨s.log.length, some t, .started d⟩ :: s.log) m +
      (s.ready.eraseIdx index).countP (fun d => decide (D.message d = m)) +
      (tally _ st n + ([] : List Message).count m) ≤ 0 + s.log.given m
    rw [Log.starts_cons]
    simp only [Ev.begins, Option.some.injEq, List.count_nil]
    unfold readyFor at hcounted
    omega

theorem handedOver_keeps : (hands D).Keeps (Policy.any (W := world D)).Permits
    fun c st => HandedOver D c.store c.next st where
  call := by
    intro c st t ch o k r s' x y h _ hcall _
    have hcounted := exec_counted hcall.exec
    refine ⟨hcounted.patient hcall.next.1 h.patient, fun m => ?_⟩
    have htally := @tally_update _ (fun x : List Message => x.count m) st c.next t hcall.lt (some y)
    rw [hcall.stage] at htally
    simp only [weight] at htally
    have hbefore := h.counted m
    have hnext := hcall.next.2 m
    change s'.log.starts D m + readyFor D s' m + tally _ (Function.update st t (some y)) c.next ≤
      s'.log.given m
    rw [hcounted.starts, hcounted.ready, hcounted.given]
    omega
  ret := fun h _ _ _ => h.quiet (fun _ => tally_drop) rfl (Or.inl rfl)
  crash := fun h _ => h.quiet (fun _ => tally_drop) rfl (Or.inl rfl)
  env := by
    intro c st m s' h _ hm
    cases m with
    | tick ms =>
        cases hm
        exact h.quiet (fun _ => Nat.le_refl _) rfl (Or.inl rfl)
    | cancel run =>
        cases hm
        exact h.quiet (fun _ => Nat.le_refl _) rfl (Or.inr ⟨_, rfl, rfl, rfl, trivial⟩)
  start := by
    intro c st j p s' h hfree _ hst
    refine ⟨[], hands_start hst, ?_⟩
    have hpush : ∀ m, tally (fun x : List Message => x.count m)
        (Function.update st c.next (some [])) (c.next + 1) ≤
        tally (fun x : List Message => x.count m) st c.next := by
      intro m
      rw [tally_push]
      exact Nat.le_refl _
    cases j with
    | process index =>
        simp only [startJob] at hst
        split at hst
        · next d hd =>
            cases hst
            exact h.schedule hd
        · cases hst
    | _ =>
        cases hst
        exact h.quiet hpush rfl (Or.inl rfl)

theorem reachable_handedOver {P : Policy (world D)} {c : Conf (world D)}
    (hc : P.Reachable Store.init c) : ∃ st, HandedOver D c.store c.next st := by
  have hinit : HandedOver D Store.init 0 fun _ => none :=
    ⟨fun _ he => absurd he List.not_mem_nil, fun _ => Nat.le_refl 0⟩
  obtain ⟨st, -, h⟩ := (hands D).sound handedOver_keeps rfl hinit
    (Reaches.mono (fun c a _ => Policy.any_permits c a) hc)
  exact ⟨st, h⟩

-- ============================================================================
-- The results
-- ============================================================================

/-- An event delivers a message once, if at all. -/
theorem Ev.count_gives_le {ev : Ev} (honce : ev.gives.Nodup) (m : Message) :
    ev.gives.count m ≤ (ev.givesAt m).toList.length := by
  cases ev with
  | cmd ctx c reply now =>
      by_cases hm : m ∈ c.gives reply
      · rw [Ev.givesAt_of_mem hm]
        exact List.nodup_iff_count_le_one.mp honce m
      · exact (List.count_eq_zero_of_not_mem hm).trans_le (Nat.zero_le _)
  | _ => exact Nat.zero_le _

theorem given_le_deliveries {h : Log} (honce : ∀ e ∈ h, e.ev.gives.Nodup) (m : Message) :
    h.given m ≤ (h.deliveries m).length := by
  induction h with
  | nil => exact Nat.le_refl 0
  | cons e h ih =>
      have hrest := ih fun x hx => honce x (List.mem_cons_of_mem _ hx)
      have hfirst := Ev.count_gives_le (honce e List.mem_cons_self) m
      rw [Log.given, Log.deliveries_cons, List.length_append]
      omega

variable {P : Policy (world D)} {c : Conf (world D)}

/-- Any two deliveries of a message are the reclaim idle time apart. -/
theorem reachable_spaced (hc : P.Reachable Store.init c) (m : Message) :
    (c.store.log.deliveries m).Pairwise fun later earlier => earlier + D.lease ≤ later := by
  refine Reaches.invariant (I := fun c : Conf (world D) => (c.store.log.deliveries m).Pairwise
    fun later earlier => earlier + D.lease ≤ later) hc List.Pairwise.nil ?_
  intro x a y hx hI hp hxy
  have hy : P.Reachable Store.init y := hx.tail hp hxy
  obtain ⟨st, hhanded⟩ := reachable_handedOver hy
  have hmoves := apply_moves hp hxy
  generalize y.store = s' at hhanded hmoves ⊢
  cases hmoves with
  | @redis t ch ctx cmd reply s₁ _ hans =>
      have hlog : (s₁.record (some t) (.cmd ctx cmd reply x.store.now)).log =
          ⟨x.store.log.length, some t, .cmd ctx cmd reply x.store.now⟩ :: x.store.log := by
        rw [Store.record, (answer_frame hans).log]
      rw [hlog, Log.deliveries_cons]
      by_cases hm : m ∈ cmd.gives reply
      · have hpat : cmd.Patient D := hhanded.patient _ List.mem_cons_self
        rw [Ev.givesAt_of_mem hm]
        refine List.pairwise_cons.mpr ⟨?_, hI⟩
        exact ((reachable_tracked hx).command (t := t) hans).1 D hpat m hm
      · rw [Ev.givesAt_of_not_mem hm]
        exact hI
  | tick _ => exact hI
  | silent _ hlog =>
      rw [hlog]
      exact hI
  | @logged _ who ev _ hlog hcmd _ =>
      have hnone : ev.givesAt m = none := by
        cases ev with
        | cmd ctx c reply now => exact absurd ⟨ctx, c, reply, now, rfl⟩ hcmd
        | _ => rfl
      rw [hlog, Log.deliveries_cons, hnone]
      exact hI

/-- A worker that crashes, and the message reclaimed by another one. -/
def redelivered : List (Action (world (.ofDefaults true))) :=
  oneJob _ ++ [.start (.process 0)] ++ steps 3 2 ++ [.crash 3] ++ reclaimed _

/-- Any two deliveries of a message are the reclaim idle time apart, and no more goroutines
    process it than it has deliveries. -/
theorem deliveries_leased (hc : P.Reachable Store.init c) (m : Message) :
    (c.store.log.deliveries m).Pairwise (fun later earlier => earlier + D.lease ≤ later) ∧
    (∀ since ∈ c.store.log.deliveries m, since ≤ c.store.now) ∧
    c.store.log.starts D m ≤ (c.store.log.deliveries m).length := by
  have htracked := reachable_tracked hc
  obtain ⟨st, hhanded⟩ := reachable_handedOver hc
  refine ⟨reachable_spaced hc m, (htracked.leased m.stream m.group).given_le m.id, ?_⟩
  have hcounted := hhanded.counted m
  have hle := given_le_deliveries htracked.once m
  omega

/-- The message of the run is delivered when it is read and a minute later. -/
theorem deliveries_leased_redelivered : ∃ (c : Conf (world (.ofDefaults true))) (m : Message),
    c.store.log.deliveries m = [60000, 0] ∧ c.store.log.starts (.ofDefaults true) m = 2 ∧
    (c.store.log.deliveries m).Pairwise
      fun later earlier => earlier + (Deployment.ofDefaults true).lease ≤ later := by
  obtain ⟨c, hc, hdeliveries, hstarts⟩ :
      ∃ c, (Policy.any (W := world (.ofDefaults true))).Reachable Store.init c ∧
      c.store.log.deliveries ⟨(Deployment.ofDefaults true).stream 0,
        (Deployment.ofDefaults true).group 0, .of 1 0⟩ = [60000, 0] ∧
      c.store.log.starts (.ofDefaults true) ⟨(Deployment.ofDefaults true).stream 0,
        (Deployment.ofDefaults true).group 0, .of 1 0⟩ = 2 :=
    Policy.exists_reachable_any redelivered (by decide +kernel)
  exact ⟨c, _, hdeliveries, hstarts, (deliveries_leased hc _).1⟩

end

end LogPipeline.Cluster
