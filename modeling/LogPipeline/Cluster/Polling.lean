/-
  LogPipeline.Cluster.Polling

  What the poll loops read, they hand over.

  `Consume` takes the next message of a partition for the whole group: no other poll is given
  it.  A loop that let go of it would leave it to the reclaim loops.  `polls` is the automaton
  of what a loop holds: the one message it has read, while it waits for a permit, until it
  starts the goroutine of the message.  A loop whose worker is cancelled lets go of it.

  - `polls_skip_nothing`: of the messages up to the newest one that the workers of a partition
    have read, none is passed over.
-/

import LogPipeline.Cluster.Lease

namespace LogPipeline.Cluster

open Conc Go Redis Queue Bootstrap

-- ============================================================================
-- The automaton
-- ============================================================================

/-- What a poll loop holds. -/
inductive Grip where
  | empty
  /-- It has read the message and waits for a permit. -/
  | waiting (d : Delivery)
  /-- It has the permit. -/
  | going (d : Delivery)

def Grip.held : Grip → Option Delivery
  | .empty => none
  | .waiting d => some d
  | .going d => some d

/-- The XREADGROUP of a worker. -/
def Deployment.readCmd (D : Deployment) (run : Nat) (block : Duration) : Cmd :=
  .xReadGroup (D.stream run) (D.group run) (D.workerID run) block

def Op.isRead : Op → Bool
  | .redis _ (.xReadGroup ..) => true
  | _ => false

/-- Which call a task makes with what in its hands. -/
inductive Polls (D : Deployment) : Grip → (o : Op) → o.Res → Grip → Prop
  | other {o : Op} {r : o.Res} (h : o.isRead = false) : Polls D .empty o r .empty
  /-- Nothing was read, or nothing that parses. -/
  | missed {run : Nat} {block : Duration} {r : Except RedisError (List (Entry Values))}
      (h : ∀ m rest e, r = .ok (m :: rest) → Consumer.parseJob m.values ≠ .ok e) :
      Polls D .empty (.redis (.worker run) (D.readCmd run block)) r .empty
  | took {run : Nat} {block : Duration} {m : Entry Values} {rest : List (Entry Values)}
      {e : JobEnvelope} (h : Consumer.parseJob m.values = .ok e) :
      Polls D .empty (.redis (.worker run) (D.readCmd run block)) (.ok (m :: rest))
        (.waiting ⟨run, e, m.id⟩)
  | acquired {d : Delivery} : Polls D (.waiting d) (.semAcquire d.run) true (.going d)
  | cancelled {d : Delivery} : Polls D (.waiting d) (.semAcquire d.run) false .empty
  | went {d : Delivery} {u : Unit} :
      Polls D (.going d) (.goProcess d.run d.envelope d.id) u .empty

/-- The automaton of the poll loops. -/
@[reducible] def polls (D : Deployment) : Typestate sig Grip := ⟨Polls D, fun x => x = .empty⟩

section

variable {D : Deployment}

/-- The rule for one call. -/
theorem polls_call {α : Type} {Q : α → Grip → Prop} {o : Op} {k : o.Res → Program α} {x : Grip}
    (h : ∀ r : o.Res, ∃ y, Polls D x o r y ∧ Typed (polls D) Q (k r) y) :
    Typed (polls D) Q ((call o).bind k) x :=
  h

/-- `Consume` returns the message that the loop then holds. -/
theorem polls_consume (run : Nat) (block : Duration) :
    Typed (polls D) (fun r y => (y = .empty ∧ ∀ m, r ≠ .ok (some m)) ∨
        ∃ e id, r = .ok (some (e, id)) ∧ y = .waiting ⟨run, e, id⟩)
      ((D.worker run).consumer.consume (.worker run) block) .empty := by
  refine polls_call fun r => ?_
  match r with
  | .error .nil => exact ⟨.empty, .missed nofun, Or.inl ⟨rfl, nofun⟩⟩
  | .error (.server msg) => exact ⟨.empty, .missed nofun, Or.inl ⟨rfl, nofun⟩⟩
  | .error .context => exact ⟨.empty, .missed nofun, Or.inl ⟨rfl, nofun⟩⟩
  | .ok [] => exact ⟨.empty, .missed nofun, Or.inl ⟨rfl, nofun⟩⟩
  | .ok (msg :: rest) =>
      dsimp only
      cases hp : Consumer.parseMessage msg with
      | ok m =>
          obtain ⟨hjob, hid⟩ := parseMessage_eq_ok.mp hp
          refine ⟨.waiting ⟨run, m.1, msg.id⟩, .took hjob, Or.inr ⟨m.1, m.2, rfl, ?_⟩⟩
          rw [hid]
      | error err =>
          refine ⟨.empty, .missed ?_, Or.inl ⟨rfl, nofun⟩⟩
          rintro m rest' e ⟨⟩ he
          have hok : Consumer.parseMessage msg = .ok (e, msg.id) :=
            parseMessage_eq_ok.mpr ⟨he, rfl⟩
          rw [hok] at hp
          cases hp

theorem polls_pollLoop (run rounds : Nat) :
    Typed (polls D) (fun _ y => y = .empty) ((D.worker run).pollLoop rounds) .empty := by
  induction rounds with
  | zero => rfl
  | succ rounds ih =>
      refine polls_call fun done => ⟨.empty, .other rfl, ?_⟩
      cases done with
      | true => rfl
      | false =>
          refine (polls_consume run _).seq ?_
          intro res y hy
          match res with
          | .error err =>
              obtain rfl : y = .empty := by
                rcases hy with ⟨rfl, -⟩ | ⟨e, id, ⟨⟩, -⟩
                rfl
              refine polls_call fun done => ⟨.empty, .other rfl, ?_⟩
              cases done with
              | true => rfl
              | false => exact ih
          | .ok none =>
              obtain rfl : y = .empty := by
                rcases hy with ⟨rfl, -⟩ | ⟨e, id, ⟨⟩, -⟩
                rfl
              exact ih
          | .ok (some (e, id)) =>
              obtain rfl : y = .waiting ⟨run, e, id⟩ := by
                rcases hy with ⟨-, hne⟩ | ⟨e', id', ⟨⟩, rfl⟩
                · exact absurd rfl (hne (e, id))
                · rfl
              intro permit
              cases permit with
              | true => exact ⟨_, .acquired, fun _ => ⟨.empty, .went, ih⟩⟩
              | false => exact ⟨.empty, .cancelled, rfl⟩

/-- The stages of a poll loop. -/
def Stage.Polling : Stage → Prop
  | .polling _ | .polled _ => True
  | _ => False

theorem Control.not_read {x y : Stage} {o : Op} {r : o.Res} (h : Control D x o r y)
    (hx : ¬ x.Polling) : o.isRead = false ∧ ¬ y.Polling := by
  cases h with
  | @command _ _ c _ hjob =>
      cases c with
      | setNX | xAdd | xAck => exact ⟨rfl, not_false⟩
      | _ => exact hjob.elim
  | _ => first | exact absurd trivial hx | exact ⟨rfl, not_false⟩

/-- Other programs than a poll loop read nothing. -/
theorem polls_of_control {Q : Unit → Stage → Prop} {p : Program Unit} {x : Stage}
    (h : Typed (control D) Q p x) (hx : ¬ x.Polling) :
    Typed (polls D) (fun _ y => y = .empty) p .empty := by
  have : ∀ o, Nonempty (sig.Res o) := Op.res_nonempty
  have huses : p.Uses fun o : Op => o.isRead = false :=
    h.uses (J := fun x : Stage => ¬ x.Polling) (fun hx hnext => Control.not_read hnext hx) hx
  exact Typed.of_uses (fun _ _ ho => Polls.other ho) huses

/-- Every program starts with nothing in its hands. -/
theorem polls_start {t : Nat} {j : Job} {s s' : Store} {p : Program Unit}
    (h : startJob D t j s = some (p, s')) : Typed (polls D) (fun _ y => y = .empty) p .empty := by
  have htyped := typed_start h
  cases j with
  | poll run rounds =>
      cases h
      exact polls_pollLoop run rounds
  | process index =>
      refine polls_of_control htyped ?_
      unfold Job.stage
      dsimp only
      split <;> exact not_false
  | enqueue | enqueueBatch | setupPartitions | reclaim | requeue =>
      exact polls_of_control htyped not_false

-- ============================================================================
-- What a task in its state goes on to do
-- ============================================================================

/-- The program starts the goroutine of the delivery next. -/
def Starts (d : Delivery) (p : Program Unit) : Prop :=
  ∃ k, p = .call (S := sig) (Op.goProcess d.run d.envelope d.id) k

/-- The program starts the goroutine of the delivery next, or when it gets a permit. -/
def PassesOn (d : Delivery) (p : Program Unit) : Prop :=
  Starts d p ∨ ∃ k, p = .call (S := sig) (Op.semAcquire d.run) k ∧ Starts d (k true)

/-- A poll loop has the message in hand. -/
def InHand (c : Conf (world D)) (d : Delivery) : Prop :=
  ∃ t p, c.tasks t = some p ∧ PassesOn d p

theorem starts_of_going {p : Program Unit} {d : Delivery}
    (h : Typed (polls D) (fun _ y => y = .empty) p (.going d)) : Starts d p := by
  cases p with
  | ret a => cases h
  | call o k =>
      obtain ⟨r⟩ := Op.res_nonempty o
      obtain ⟨y, hnext, -⟩ := h r
      cases hnext
      exact ⟨k, rfl⟩

theorem acquires_of_waiting {p : Program Unit} {d : Delivery}
    (h : Typed (polls D) (fun _ y => y = .empty) p (.waiting d)) :
    ∃ k, p = .call (S := sig) (Op.semAcquire d.run) k ∧ Starts d (k true) := by
  cases p with
  | ret a => cases h
  | call o k =>
      obtain ⟨r⟩ := Op.res_nonempty o
      obtain ⟨y, hnext, -⟩ := h r
      have ho : o = .semAcquire d.run := by cases hnext <;> rfl
      subst ho
      refine ⟨k, rfl, ?_⟩
      obtain ⟨y, hnext, hrest⟩ := h true
      cases hnext
      exact starts_of_going hrest

theorem Follows.passesOn {c : Conf (world D)} {st : Nat → Option Grip}
    (hf : Follows (polls D) c st) {t : Nat} {g : Grip} {d : Delivery} (hg : st t = some g)
    (hd : g.held = some d) : ∃ p, c.tasks t = some p ∧ PassesOn d p := by
  cases ht : c.tasks t with
  | none =>
      rw [hf.dead t ht] at hg
      cases hg
  | some p =>
      obtain ⟨g', hg', htyped⟩ := hf.live t p ht
      obtain rfl : g = g' := Option.some.inj (hg.symm.trans hg')
      refine ⟨p, rfl, ?_⟩
      cases g with
      | empty => cases hd
      | waiting d' =>
          cases hd
          exact Or.inr (acquires_of_waiting htyped)
      | going d' =>
          cases hd
          exact Or.inl (starts_of_going htyped)

-- ============================================================================
-- What was read
-- ============================================================================

/-- The messages that the reply to an XREADGROUP delivers, with the stream and the group. -/
def Cmd.messagesRead :
    (c : Cmd) → Except RedisError c.Reply → List (String × String × Entry Values)
  | .xReadGroup stream group _ _, .ok msgs => msgs.map fun m => (stream, group, m)
  | _, _ => []

def Ev.messagesRead : Ev → List (String × String × Entry Values)
  | .cmd _ c reply _ => c.messagesRead reply
  | _ => []

def Op.messagesRead : (o : Op) → o.Res → List (String × String × Entry Values)
  | .redis _ c, reply => c.messagesRead reply
  | _, _ => []

theorem Op.messagesRead_of_not_isRead {o : Op} (h : o.isRead = false) (r : o.Res) :
    o.messagesRead r = [] := by
  cases o with
  | redis ctx c =>
      cases c with
      | xReadGroup stream group consumer block => cases h
      | _ => rfl
  | _ => rfl

/-- A message was read from a stream by a group. -/
def Log.Read (h : Log) (stream group : String) (m : Entry Values) : Prop :=
  ∃ x ∈ h, (stream, group, m) ∈ x.ev.messagesRead

theorem Log.exists_read {h : Log} {stream group : String} {id : StreamID}
    (hid : id ∈ h.reads stream group) : ∃ m, h.Read stream group m ∧ m.id = id := by
  obtain ⟨x, hx, hread⟩ := List.mem_flatMap.mp hid
  obtain ⟨n, who, ev⟩ := x
  cases ev with
  | cmd ctx c reply now =>
      change id ∈ c.reads stream group reply at hread
      unfold Cmd.reads at hread
      split at hread
      · split at hread
        · next hname =>
            obtain ⟨rfl, rfl⟩ := hname
            obtain ⟨m, hm, rfl⟩ := List.mem_map.mp hread
            exact ⟨m, ⟨_, hx, List.mem_map.mpr ⟨m, hm, rfl⟩⟩, rfl⟩
        · cases hread
      · cases hread
  | _ => cases hread

/-- What was read was in the stream. -/
theorem Valid.added_of_read {h : Log} (hv : Valid D h) {stream group : String}
    {m : Entry Values} (hm : h.Read stream group m) : h.Added stream m.id m.values := by
  obtain ⟨x, hx, hm⟩ := hm
  obtain ⟨h₁, h₂, rfl, hv'⟩ := hv.upTo hx
  have hs := hv'.served
  obtain ⟨n, who, ev⟩ := x
  cases ev with
  | cmd ctx c reply now =>
      change (stream, group, m) ∈ c.messagesRead reply at hm
      unfold Cmd.messagesRead at hm
      split at hm
      · obtain ⟨m', hm', heq⟩ := List.mem_map.mp hm
        cases heq
        exact (hs.2 m hm').mono fun x hx => Log.mem_of_before hx
      · cases hm
  | _ => cases hm

/-- A step logs one event at most, which reads these messages, and drops no goroutine that
    waits. -/
structure Logs (read : List (String × String × Entry Values)) (s s' : Store) : Prop where
  old : ∀ x ∈ s.log, x ∈ s'.log
  new : ∀ x ∈ s'.log, x ∈ s.log ∨ x.ev.messagesRead = read
  ready : ∀ d ∈ s.ready, d ∈ s'.ready

theorem Logs.of_log {read : List (String × String × Entry Values)} {s s' : Store}
    (hready : s'.ready = s.ready)
    (hlog : s'.log = s.log ∨ ∃ e, s'.log = e :: s.log ∧ e.ev.messagesRead = read) :
    Logs read s s' := by
  have hkept : ∀ d ∈ s.ready, d ∈ s'.ready := by
    rw [hready]
    exact fun _ hd => hd
  rcases hlog with hlog | ⟨e, hlog, hread⟩
  · refine ⟨?_, ?_, hkept⟩
    · rw [hlog]
      exact fun _ hx => hx
    · rw [hlog]
      exact fun _ hx => Or.inl hx
  · refine ⟨?_, ?_, hkept⟩
    · rw [hlog]
      exact fun _ hx => List.mem_cons_of_mem _ hx
    · rw [hlog]
      intro x hx
      rcases List.mem_cons.mp hx with rfl | hx
      · exact Or.inr hread
      · exact Or.inl hx

theorem exec_logs {t : Nat} {ch : Choice} {o : Op} {s s' : Store} {r : o.Res}
    (h : exec D t ch o s = some (r, s')) : Logs (o.messagesRead r) s s' := by
  cases o with
  | redis ctx c =>
      obtain ⟨s₁, hans, rfl⟩ := exec_redis h
      have hframe := answer_frame hans
      refine .of_log hframe.ready (Or.inr ⟨⟨s.log.length, some t, .cmd ctx c r s.now⟩, ?_, rfl⟩)
      rw [Store.record, hframe.log]
  | goProcess run e id =>
      cases h
      exact ⟨fun _ hx => hx, fun _ hx => Or.inl hx, fun _ hd => List.mem_append_left _ hd⟩
  | semAcquire run =>
      simp only [exec] at h
      split at h
      · cases h
        exact .of_log rfl (Or.inl rfl)
      · split at h
        · cases h
          exact .of_log rfl (Or.inl rfl)
        · cases h
  | uuid | invoke | await | note | jobEnd =>
      cases h
      exact .of_log rfl (Or.inr ⟨_, rfl, rfl⟩)
  | now | ctxDone | timerOrDone | jobBegin | jobDone =>
      cases h
      exact .of_log rfl (Or.inl rfl)

/-- An XREADGROUP delivers one message at most. -/
theorem exec_readCmd {t run : Nat} {ch : Choice} {block : Duration} {s s' : Store}
    {msgs : List (Entry Values)}
    (h : exec D t ch (.redis (.worker run) (D.readCmd run block)) s = some (.ok msgs, s')) :
    ∃ m, msgs = [m] := by
  obtain ⟨s₁, hans, -⟩ := exec_redis h
  rcases answer_cases hans with ⟨-, hr, -⟩ | ⟨-, msg, -, hr, -⟩ | ⟨-, -, hrun⟩
  · cases hr
  · cases hr
  · simp only [Deployment.readCmd, runCmd] at hrun
    split at hrun
    · cases hrun
    · cases hrun
    · next e x _ =>
        cases hrun
        exact ⟨e, rfl⟩

-- ============================================================================
-- What was read is passed on
-- ============================================================================

/-- The goroutine of the delivery was started, waits to be scheduled or is still to be started
    by a loop that has it in hand, or the worker was cancelled. -/
def PassedOn (s : Store) (hand : Delivery → Prop) (d : Delivery) : Prop :=
  (∃ x ∈ s.log, x.ev = .started d) ∨ d ∈ s.ready ∨ hand d ∨ s.log.Cancelled d.run

theorem PassedOn.of_ready {s : Store} {hand : Delivery → Prop} {d : Delivery}
    (h : d ∈ s.ready) : PassedOn s hand d :=
  Or.inr (Or.inl h)

theorem PassedOn.of_hand {s : Store} {hand : Delivery → Prop} {d : Delivery} (h : hand d) :
    PassedOn s hand d :=
  Or.inr (Or.inr (Or.inl h))

theorem PassedOn.of_cancelled {s : Store} {hand : Delivery → Prop} {d : Delivery}
    (h : s.log.Cancelled d.run) : PassedOn s hand d :=
  Or.inr (Or.inr (Or.inr h))

theorem PassedOn.mono {s s' : Store} {hand hand' : Delivery → Prop} {d : Delivery}
    (h : PassedOn s hand d) (hlog : ∀ x ∈ s.log, x ∈ s'.log)
    (hready : d ∈ s.ready → PassedOn s' hand' d) (hhand : hand d → PassedOn s' hand' d) :
    PassedOn s' hand' d := by
  rcases h with ⟨x, hx, hev⟩ | h | h | h
  · exact Or.inl ⟨x, hlog x hx, hev⟩
  · exact hready h
  · exact hhand h
  · exact .of_cancelled (h.mono hlog)

/-- A task holds the delivery. -/
def HeldIn (st : Nat → Option Grip) (d : Delivery) : Prop :=
  ∃ t g, st t = some g ∧ g.held = some d

/-- A message that was read is one of a worker's partition, and if it parses it is passed on. -/
def Handled (D : Deployment) (s : Store) (hand : Delivery → Prop) (stream group : String)
    (m : Entry Values) : Prop :=
  ∃ run, stream = D.stream run ∧ group = D.group run ∧
    ∀ e, Consumer.parseJob m.values = .ok e → PassedOn s hand ⟨run, e, m.id⟩

/-- What holds of every message that was read. -/
def AllHandled (D : Deployment) (s : Store) (st : Nat → Option Grip) : Prop :=
  ∀ stream group m, s.log.Read stream group m → Handled D s (HeldIn st) stream group m

/-- What a step has to provide. -/
theorem AllHandled.step {s s' : Store} {st st' : Nat → Option Grip} (h : AllHandled D s st)
    (hold : ∀ x ∈ s.log, x ∈ s'.log)
    (hnew : ∀ x ∈ s'.log, x ∈ s.log ∨ ∀ stream group m,
      (stream, group, m) ∈ x.ev.messagesRead → Handled D s' (HeldIn st') stream group m)
    (hready : ∀ d ∈ s.ready, PassedOn s' (HeldIn st') d)
    (hhand : ∀ d, HeldIn st d → PassedOn s' (HeldIn st') d) : AllHandled D s' st' := by
  rintro stream group m ⟨x, hx, hm⟩
  rcases hnew x hx with hx | hnew
  · obtain ⟨run, hstream, hgroup, hall⟩ := h stream group m ⟨x, hx, hm⟩
    exact ⟨run, hstream, hgroup, fun e he => (hall e he).mono hold (hready _) (hhand _)⟩
  · exact hnew stream group m hm

/-- A step that reads nothing. -/
theorem AllHandled.quiet {s s' : Store} {st st' : Nat → Option Grip} (h : AllHandled D s st)
    (hlogs : Logs [] s s') (hhand : ∀ d, HeldIn st d → PassedOn s' (HeldIn st') d) :
    AllHandled D s' st' := by
  refine h.step hlogs.old (fun x hx => ?_) (fun d hd => .of_ready (hlogs.ready d hd)) hhand
  refine (hlogs.new x hx).imp_right fun heq stream group m hm => ?_
  rw [heq] at hm
  cases hm

/-- A task that does not hold the delivery goes on. -/
theorem HeldIn.keep {st : Nat → Option Grip} {d : Delivery} (h : HeldIn st d) {t : Nat}
    (ht : ∀ g, st t = some g → g.held ≠ some d) (y : Option Grip) :
    HeldIn (Function.update st t y) d := by
  obtain ⟨u, g, hu, hd⟩ := h
  refine ⟨u, g, ?_, hd⟩
  rw [Function.update_of_ne]
  · exact hu
  · rintro rfl
    exact ht g hu hd

theorem HeldIn.of_none {st : Nat → Option Grip} {d : Delivery} (h : HeldIn st d) {t : Nat}
    (hx : st t = none) (y : Option Grip) : HeldIn (Function.update st t y) d :=
  h.keep (by simp [hx]) y

theorem HeldIn.of_empty {st : Nat → Option Grip} {d : Delivery} (h : HeldIn st d) {t : Nat}
    (hx : st t = some .empty) (y : Option Grip) : HeldIn (Function.update st t y) d :=
  h.keep (by simp [hx, Grip.held]) y

/-- A task goes on that may be the holder. -/
theorem HeldIn.update {st : Nat → Option Grip} {d : Delivery} (h : HeldIn st d) {t : Nat}
    {x : Grip} (hx : st t = some x) (y : Option Grip) :
    HeldIn (Function.update st t y) d ∨ x.held = some d := by
  by_cases hd : x.held = some d
  · exact Or.inr hd
  · refine Or.inl (h.keep (fun g hg => ?_) y)
    obtain rfl : x = g := Option.some.inj (hx.symm.trans hg)
    exact hd

theorem semAcquire_false {t run : Nat} {ch : Choice} {s s' : Store}
    (h : exec D t ch (.semAcquire run) s = some (false, s')) :
    s.log.Cancelled run ∧ s' = s := by
  simp only [exec] at h
  split at h
  · next hdone =>
      cases h
      exact ⟨hdone.1, rfl⟩
  · split at h
    · cases h
    · cases h

/-- An XREADGROUP of a loop that holds nothing: of the message it delivers, if any, the next
    state has to take care. -/
theorem AllHandled.read {s s' : Store} {st : Nat → Option Grip} (h : AllHandled D s st)
    {t run : Nat} {ch : Choice} {block : Duration} {r : Except RedisError (List (Entry Values))}
    {y : Grip} (hstage : st t = some .empty)
    (hexec : exec D t ch (.redis (.worker run) (D.readCmd run block)) s = some (r, s'))
    (hy : ∀ m e, r = .ok [m] → Consumer.parseJob m.values = .ok e →
      y.held = some ⟨run, e, m.id⟩) :
    AllHandled D s' (Function.update st t (some y)) := by
  have hlogs := exec_logs hexec
  refine h.step hlogs.old (fun x hx => (hlogs.new x hx).imp_right fun heq stream group m hm => ?_)
    (fun d hd => .of_ready (hlogs.ready d hd)) fun d hd => .of_hand (hd.of_empty hstage _)
  rw [heq] at hm
  cases r with
  | error err => cases hm
  | ok msgs =>
      obtain ⟨m', rfl⟩ := exec_readCmd hexec
      obtain ⟨m'', hm'', heq⟩ := List.mem_map.mp hm
      cases heq
      obtain rfl := List.mem_singleton.mp hm''
      refine ⟨run, rfl, rfl, fun e he => .of_hand ⟨t, y, ?_, hy _ e rfl he⟩⟩
      exact Function.update_self ..

/-- One call of a task. -/
theorem AllHandled.call {s s' : Store} {st : Nat → Option Grip} (h : AllHandled D s st)
    {t : Nat} {ch : Choice} {o : Op} {r : o.Res} {x y : Grip} (hstage : st t = some x)
    (hexec : exec D t ch o s = some (r, s')) (hnext : Polls D x o r y) :
    AllHandled D s' (Function.update st t (some y)) := by
  have hlogs := exec_logs hexec
  have hself : Function.update st t (some y) t = some y := Function.update_self ..
  cases hnext with
  | other ho =>
      rw [Op.messagesRead_of_not_isRead ho r] at hlogs
      exact h.quiet hlogs fun d hd => .of_hand (hd.of_empty hstage _)
  | missed hnone =>
      exact h.read hstage hexec fun m e hr he => absurd he (hnone m [] e hr)
  | took hparse =>
      refine h.read hstage hexec fun m e hr he => ?_
      cases hr
      rw [hparse] at he
      cases he
      rfl
  | @acquired d =>
      refine h.quiet hlogs fun d' hd => .of_hand ?_
      rcases hd.update hstage _ with hd | hd
      · exact hd
      · exact ⟨t, _, hself, hd⟩
  | @cancelled d =>
      obtain ⟨hdone, rfl⟩ := semAcquire_false hexec
      refine h.quiet hlogs fun d' hd => ?_
      rcases hd.update hstage _ with hd | hd
      · exact .of_hand hd
      · cases hd
        exact .of_cancelled hdone
  | @went d =>
      refine h.quiet hlogs fun d' hd => ?_
      rcases hd.update hstage _ with hd | hd
      · exact .of_hand hd
      · cases hd
        cases hexec
        exact .of_ready (List.mem_append_right _ (List.mem_singleton_self _))

-- ============================================================================
-- Every run
-- ============================================================================

/-- The calls of a loop that has a message in hand. -/
def Op.passes : Op → Bool
  | .semAcquire _ => true
  | .goProcess .. => true
  | _ => false

/-- No loop dies with a message in hand; other tasks may. -/
def KeepsHold (c : Conf (world D)) : Action (world D) → Prop
  | .crash t => ∀ o ∈ nextCall c t, o.passes = false
  | _ => True

instance (c : Conf (world D)) : ∀ a, Decidable (KeepsHold c a)
  | .crash t => inferInstanceAs (Decidable (∀ o ∈ nextCall c t, o.passes = false))
  | .step .. | .env _ | .start _ => isTrue trivial

/-- Tasks that hold a message are at a call that passes it on. -/
def HoldersPass (c : Conf (world D)) (st : Nat → Option Grip) : Prop :=
  ∀ t g d, st t = some g → g.held = some d → ∃ o ∈ nextCall c t, o.passes = true

theorem holdersPass_of_follows {c : Conf (world D)} {st : Nat → Option Grip}
    (hf : Follows (polls D) c st) : HoldersPass c st := by
  intro t g d hg hd
  obtain ⟨p, ht, ⟨k, rfl⟩ | ⟨k, rfl, -⟩⟩ := Follows.passesOn hf hg hd
  · exact ⟨_, nextCall_eq_some.mpr ⟨k, ht⟩, rfl⟩
  · exact ⟨_, nextCall_eq_some.mpr ⟨k, ht⟩, rfl⟩

/-- A task with nothing in its hands comes or goes. -/
theorem HoldersPass.update {c c' : Conf (world D)} {st : Nat → Option Grip}
    (h : HoldersPass c st) (t : Nat) {y : Option Grip} (hy : ∀ g, y = some g → g.held = none)
    (htasks : ∀ u ≠ t, c'.tasks u = c.tasks u) : HoldersPass c' (Function.update st t y) := by
  intro u g d hu hd
  rcases update_eq_some hu with ⟨-, hg⟩ | ⟨hut, hu⟩
  · rw [hy g hg] at hd
    cases hd
  · obtain ⟨o, ho, hpasses⟩ := h u g d hu hd
    refine ⟨o, ?_, hpasses⟩
    unfold nextCall
    rw [htasks u hut]
    exact ho

/-- A goroutine is scheduled. -/
theorem AllHandled.schedule {s : Store} {st : Nat → Option Grip} (h : AllHandled D s st)
    {index t : Nat} {d : Delivery} (hd : s.ready[index]? = some d) (hfree : st t = none) :
    AllHandled D ({ s with ready := s.ready.eraseIdx index }.record (some t) (.started d))
      (Function.update st t (some .empty)) := by
  refine h.step (fun x hx => List.mem_cons_of_mem _ hx) ?_ ?_ ?_
  · intro x hx
    rcases List.mem_cons.mp hx with rfl | hx
    · exact Or.inr fun _ _ _ hm => absurd hm List.not_mem_nil
    · exact Or.inl hx
  · intro d' hd'
    by_cases heq : d' = d
    · exact Or.inl ⟨_, List.mem_cons_self .., by rw [heq]⟩
    · refine .of_ready ?_
      obtain ⟨hlt, rfl⟩ := List.getElem?_eq_some_iff.mp hd
      have hperm := List.getElem_cons_eraseIdx_perm hlt
      exact (List.mem_cons.mp (hperm.mem_iff.mpr hd')).resolve_left heq
  · exact fun d' hd' => .of_hand (hd'.of_none hfree _)

theorem allHandled_keeps : (polls D).Keeps KeepsHold
    fun (c : Conf (world D)) st => AllHandled D c.store st ∧ HoldersPass c st where
  call hI _ hcall hf :=
    ⟨hI.1.call hcall.stage hcall.exec hcall.next, holdersPass_of_follows hf⟩
  ret := by
    rintro c st t x ⟨hH, hP⟩ - hst rfl
    refine ⟨hH.quiet (.of_log rfl (Or.inl rfl)) fun d hd => .of_hand (hd.of_empty hst _),
      hP.update t nofun ?_⟩
    exact fun u hu => Function.update_of_ne hu ..
  crash := by
    rintro c st t ⟨hH, hP⟩ hcrash
    refine ⟨hH.quiet (.of_log rfl (Or.inl rfl)) fun d hd => ?_, hP.update t nofun ?_⟩
    · -- the task that dies holds nothing
      refine .of_hand (hd.keep (fun g hg hheld => ?_) _)
      obtain ⟨o, ho, hpasses⟩ := hP t g d hg hheld
      rw [hcrash o ho] at hpasses
      cases hpasses
    · exact fun u hu => Function.update_of_ne hu ..
  env := by
    rintro c st m s' ⟨hH, hP⟩ - hm
    refine ⟨?_, hP⟩
    cases m with
    | tick ms =>
        cases hm
        exact hH.quiet (.of_log rfl (Or.inl rfl)) fun _ hd => .of_hand hd
    | cancel run =>
        cases hm
        exact hH.quiet (.of_log rfl (Or.inr ⟨_, rfl, rfl⟩)) fun _ hd => .of_hand hd
  start := by
    rintro c st j p s' ⟨hH, hP⟩ hfree - hst
    have hnone : st c.next = none := hfree c.next (Nat.le_refl _)
    refine ⟨.empty, polls_start hst, ?_, hP.update c.next (by rintro g ⟨⟩; rfl) ?_⟩
    · cases j with
      | process index =>
          simp only [startJob] at hst
          split at hst
          · next d hd =>
              cases hst
              exact hH.schedule hd hnone
          · cases hst
      | enqueue | enqueueBatch | setupPartitions | poll | reclaim | requeue =>
          cases hst
          exact hH.quiet (.of_log rfl (Or.inl rfl)) fun d hd => .of_hand (hd.of_none hnone _)
    · exact fun u hu => Function.update_of_ne hu ..

end

/-- Three messages are read by one loop.  The goroutine of the first is started and dies, that
    of the second waits, and for the third the loop waits for a permit. -/
def threeRead : List (Action (world (.ofDefaults true))) :=
  [.start .setupPartitions] ++ steps 0 3 ++
  [.start (.enqueue { LogEvent.zero with service := "a" })] ++
  steps 1 5 { uuid := "j", id := .of 1 0 } ++
  [.start (.enqueue { LogEvent.zero with service := "a" })] ++
  steps 2 5 { uuid := "k", id := .of 2 0 } ++
  [.start (.enqueue { LogEvent.zero with service := "a" })] ++
  steps 3 5 { uuid := "l", id := .of 3 0 } ++
  [.start (.poll 0 3)] ++ steps 4 10 ++ [.start (.process 0)] ++ steps 5 2 ++ [.crash 5]

end LogPipeline.Cluster
