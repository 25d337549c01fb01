/-
  LogPipeline.Cluster.Retention

  How long dead letters are kept.

  The world of this module has the operations of the dead letter queue as its
  programs, with the `Retry` of any number of workers among them, over the same
  server.  A dead letter that was sent can be looked up, with its content, until
  a `Delete` or `Requeue` of its id is called (`dlq_retains`), as long as no XADD
  on the dead letter stream finds the stream at its MAXLEN: `Send` trims on every
  call, and what it evicts is not its own entry (`dlq_loses_oldest`).  A dead letter
  that is nested too deep to be read is kept, but `Get` does not return it.
-/

import LogPipeline.Cluster.Solo

namespace LogPipeline.Cluster

open Conc Go Redis Queue Bootstrap

-- ============================================================================
-- The operations of the dead letter queue
-- ============================================================================

/-- A call of an operation on the dead letter queue. -/
inductive DlqCall where
  | send (entry : DLQEntry)
  | get (id : StreamID)
  | list (start stop : StreamID) (count : Int64)
  | count
  | delete (id : StreamID)
  | requeue (id : StreamID) (stream : String) (maxLen : Int64)
  /-- `Retry` by a worker. -/
  | retry (run : Nat) (envelope : JobEnvelope) (id : StreamID) (lastError : String)

namespace DlqCall

/-- The program of a call. -/
def program (D : Deployment) : DlqCall → Program Unit
  | .send entry => do let _ ← D.dlq.send .background entry; return ()
  | .get id => do let _ ← D.dlq.get .background id; return ()
  | .list start stop n => do let _ ← D.dlq.list .background start stop n; return ()
  | .count => do let _ ← D.dlq.count .background; return ()
  | .delete id => do let _ ← D.dlq.delete .background id; return ()
  | .requeue id stream maxLen => do
      let _ ← D.dlq.requeue .background id stream maxLen
      return ()
  | .retry run envelope id lastError => do
      let _ ← (D.worker run).consumer.retry (.worker run) envelope id lastError
      return ()

/-- The call is a `Delete` or a `Requeue` of this id. -/
def Removes (id : StreamID) : DlqCall → Prop
  | .delete i => i = id
  | .requeue i _ _ => i = id
  | _ => False

end DlqCall

/-- The server, and the calls that were made. -/
structure DlqStore where
  server : Store
  calls : List DlqCall

def execDlq (D : Deployment) (t : Nat) (ch : Choice) (o : Op) (s : DlqStore) :
    Option (o.Res × DlqStore) :=
  (exec D t ch o s.server).map fun x => (x.1, ⟨x.2, s.calls⟩)

theorem execDlq_eq_some {D : Deployment} {t : Nat} {ch : Choice} {o : Op} {s s' : DlqStore}
    {r : o.Res} : execDlq D t ch o s = some (r, s') ↔
      exec D t ch o s.server = some (r, s'.server) ∧ s'.calls = s.calls := by
  obtain ⟨server, calls⟩ := s'
  unfold execDlq
  rw [Option.map_eq_some_iff]
  constructor
  · rintro ⟨⟨r', s₁⟩, hex, heq⟩
    cases heq
    exact ⟨hex, rfl⟩
  · rintro ⟨hex, rfl⟩
    exact ⟨_, hex, rfl⟩

/-- The dead letter queue as a world of programs. -/
@[reducible] def dlqWorld (D : Deployment) : World sig where
  Store := DlqStore
  Ev := Ev
  Choice := Choice
  Env := Move
  Job := DlqCall
  hist := fun s => s.server.log
  exec := execDlq D
  env := fun m s => (move m s.server).map fun x => ⟨x, s.calls⟩
  start := fun _ j s => some (j.program D, ⟨s.server, j :: s.calls⟩)
  exec_records := fun h => exec_records (execDlq_eq_some.mp h).1
  env_records := by
    intro m s s' h
    obtain ⟨x, hx, rfl⟩ := Option.map_eq_some_iff.mp h
    exact move_records hx
  start_records := by
    intro t j s p s' h
    cases h
    exact Or.inl rfl

-- ============================================================================
-- The property
-- ============================================================================

/-- The logged command is the one with whose reply `Send` of the entry returns this
    id. -/
def Sends (d : DLQ) (entry : DLQEntry) (id : StreamID) (ev : Ev) : Prop :=
  ∃ ctx c reply now, ev = .cmd ctx c reply now ∧
    (d.send ctx entry).Path [⟨Op.redis ctx c, reply⟩] (.ret (.ok id))

/-- `Get` returns the entry. -/
def Retrievable (D : Deployment) (s : Store) (id : StreamID) (entry : DLQEntry) : Prop :=
  ∀ t, ∃ s', (D.dlq.get .background id).solo (exec D t {}) s = some (.ok entry, s')

/-- The text of the entry is not nested deeper than `json.Unmarshal` reads. -/
def DLQEntry.Readable (entry : DLQEntry) : Prop :=
  ∀ text, dlqEntryStruct.marshal entry = .ok text → text.depth ≤ maxNestingDepth

/-- Every dead letter that was sent and can be read can be looked up, unless it was deleted
    or requeued. -/
def Retained (D : Deployment) (s : DlqStore) : Prop :=
  ∀ e ∈ s.server.log, ∀ entry id, Sends D.dlq entry id e.ev →
    (∃ call ∈ s.calls, call.Removes id) ∨
      (Retrievable D s.server id entry ↔ DLQEntry.Readable entry)

/-- An XADD on the dead letter stream finds fewer entries than its MAXLEN. -/
def Op.HasRoom (D : Deployment) (s : Store) : Op → Prop
  | .redis _ (.xAdd stream maxLen _) =>
      stream = D.dlq.streamName → 0 < maxLen → ((s.streams stream).xlen : Int) < maxLen.toInt
  | _ => True

/-- The runs in which the dead letter stream never reaches its MAXLEN. -/
def roomPolicy (D : Deployment) : Policy (dlqWorld D) :=
  { Policy.any with call := fun _ _ o s => o.HasRoom D s.server }

section

variable {D : Deployment}

-- ============================================================================
-- The programs
-- ============================================================================

/-- The calls among which every XDEL on the dead letter stream is accounted for. -/
def Op.DeletesFor (D : Deployment) (calls : List DlqCall) (o : Op) : Prop :=
  ∀ ctx id, o = .redis ctx (.xDel D.dlq.streamName id) → ∃ call ∈ calls, call.Removes id

theorem deletesFor_other {calls : List DlqCall} {o : Op}
    (h : ∀ ctx stream id, o ≠ .redis ctx (.xDel stream id)) : o.DeletesFor D calls :=
  fun ctx id ho => absurd ho (h ctx _ id)

/-- A call deletes no dead letter but the one it names. -/
theorem uses_program {call : DlqCall} {calls : List DlqCall} (hcall : call ∈ calls) :
    (call.program D).Uses (Op.DeletesFor D calls) := by
  have hdel : ∀ id, call.Removes id →
      Op.DeletesFor D calls (.redis .background (.xDel D.dlq.streamName id)) := by
    intro id hid ctx id' ho
    cases ho
    exact ⟨call, hcall, hid⟩
  cases call with
  | send entry => exact uses_discard (uses_send fun v => deletesFor_other (by simp))
  | get id => exact uses_discard (uses_get (deletesFor_other (by simp)))
  | list start stop n =>
      refine uses_discard ⟨deletesFor_other (by simp), fun reply => ?_⟩
      cases reply with
      | error err => trivial
      | ok msgs => trivial
  | count =>
      refine uses_discard ⟨deletesFor_other (by simp), fun reply => ?_⟩
      cases reply with
      | error err => trivial
      | ok n => trivial
  | delete id => exact uses_discard (uses_delete (hdel id rfl))
  | requeue id stream maxLen =>
      exact uses_discard (uses_requeue (deletesFor_other (by simp))
        (fun v => deletesFor_other (by simp)) (hdel id rfl))
  | retry run envelope id err =>
      exact uses_discard (uses_retry (deletesFor_other (by simp))
        (fun _ _ _ => deletesFor_other (by simp)) (deletesFor_other (by simp)))

-- ============================================================================
-- The invariant
-- ============================================================================

/-- What was added to the dead letter stream is there or was removed by a call, and
    the tasks delete for calls that were made. -/
structure DlqInv (D : Deployment) (c : Conf (dlqWorld D)) : Prop where
  kept : ∀ id v, c.store.server.log.Added D.dlq.streamName id v →
    (∃ call ∈ c.store.calls, call.Removes id) ∨
      ⟨id, v⟩ ∈ (c.store.server.streams D.dlq.streamName).entries
  tasks : ∀ t p, c.tasks t = some p → p.Uses (Op.DeletesFor D c.store.calls)

/-- With room left, the server evicts nothing. -/
theorem Op.HasRoom.trim_eq_zero {s s' : Store} {ch : Choice} {ctx : Ctx} {maxLen : Int64}
    {v : Values} {r : Except RedisError StreamID}
    (h : Op.HasRoom D s (.redis ctx (.xAdd D.dlq.streamName maxLen v)))
    (hrun : runCmd ch s (.xAdd D.dlq.streamName maxLen v) = some (r, s')) : ch.trim = 0 := by
  obtain ⟨-, htrim, -⟩ := runCmd_xAdd hrun
  rcases htrim with hzero | ⟨hpos, hle⟩
  · exact hzero
  · have hroom := h rfl hpos
    omega

/-- One executed command. -/
theorem kept_runCmd {s s₁ : Store} {ch : Choice} {ctx : Ctx} {cmd : Cmd}
    {r : Except RedisError cmd.Reply} {calls : List DlqCall} {t : Nat}
    (hkept : ∀ id v, s.log.Added D.dlq.streamName id v →
      (∃ call ∈ calls, call.Removes id) ∨ ⟨id, v⟩ ∈ (s.streams D.dlq.streamName).entries)
    (hroom : Op.HasRoom D s (.redis ctx cmd)) (hdel : Op.DeletesFor D calls (.redis ctx cmd))
    (hrun : runCmd ch s cmd = some (r, s₁)) {id : StreamID} {v : Values}
    (ha : (s₁.record (some t) (.cmd ctx cmd r s.now)).log.Added D.dlq.streamName id v) :
    (∃ call ∈ calls, call.Removes id) ∨ ⟨id, v⟩ ∈ (s₁.streams D.dlq.streamName).entries := by
  obtain ⟨e, he, hev⟩ := ha
  rcases List.mem_cons.mp he with rfl | he
  · -- the entry is the new one
    obtain ⟨ctx', maxLen, now, heq⟩ := hev
    cases heq
    have htrim := hroom.trim_eq_zero hrun
    obtain ⟨hid, -, hlt, rfl⟩ := runCmd_xAdd hrun
    cases hid
    right
    rw [setStream_self, htrim]
    exact Stream.mem_xadd_zero.mpr (Or.inr rfl)
  · rw [(runCmd_frame hrun).log] at he
    rcases hkept id v ⟨e, he, hev⟩ with hcall | hmem
    · exact Or.inl hcall
    · have hstep := runCmd_stream hrun D.dlq.streamName
      have htrim : ∀ maxLen v, cmd = .xAdd D.dlq.streamName maxLen v → ch.trim = 0 := by
        rintro maxLen v rfl
        exact hroom.trim_eq_zero hrun
      rcases hstep.entry htrim hmem with hmem | hcmd
      · exact Or.inr hmem
      · exact Or.inl (hdel ctx id (by rw [hcmd]))

/-- One call of a task. -/
theorem kept_exec {s s' : Store} {ch : Choice} {o : Op} {r : o.Res} {calls : List DlqCall}
    {t : Nat} (hkept : ∀ id v, s.log.Added D.dlq.streamName id v →
      (∃ call ∈ calls, call.Removes id) ∨ ⟨id, v⟩ ∈ (s.streams D.dlq.streamName).entries)
    (hroom : o.HasRoom D s) (hdel : o.DeletesFor D calls)
    (hex : exec D t ch o s = some (r, s')) {id : StreamID} {v : Values}
    (ha : s'.log.Added D.dlq.streamName id v) :
    (∃ call ∈ calls, call.Removes id) ∨ ⟨id, v⟩ ∈ (s'.streams D.dlq.streamName).entries := by
  by_cases hredis : ∃ ctx cmd, o = .redis ctx cmd
  · obtain ⟨ctx, cmd, rfl⟩ := hredis
    obtain ⟨s₁, hans, rfl⟩ := exec_redis hex
    have hlost : ∀ {err}, r = .error err → s₁ = s →
        (∃ call ∈ calls, call.Removes id) ∨ ⟨id, v⟩ ∈ (s₁.streams D.dlq.streamName).entries := by
      rintro err rfl rfl
      obtain ⟨e, he, ctx', maxLen, now, hev⟩ := ha
      rcases List.mem_cons.mp he with rfl | he
      · cases hev
      · exact hkept id v ⟨e, he, ctx', maxLen, now, hev⟩
    rcases answer_cases hans with ⟨-, hr, hs⟩ | ⟨-, msg, -, hr, hs⟩ | ⟨-, -, hrun⟩
    · exact hlost hr hs
    · exact hlost hr hs
    · exact kept_runCmd hkept hroom hdel hrun ha
  · have hne : ∀ ctx cmd, o ≠ .redis ctx cmd := fun ctx cmd ho => hredis ⟨ctx, cmd, ho⟩
    obtain ⟨hquiet, hlog⟩ := exec_quiet hne hex
    obtain ⟨e, he, ctx, maxLen, now, hev⟩ := ha
    rw [hquiet.streams]
    rcases hlog e he with he | hcmd
    · exact hkept id v ⟨e, he, ctx, maxLen, now, hev⟩
    · exact absurd ⟨_, _, _, _, hev⟩ hcmd

theorem Op.DeletesFor.mono {calls calls' : List DlqCall} {o : Op} (h : o.DeletesFor D calls)
    (hsub : ∀ call ∈ calls, call ∈ calls') : o.DeletesFor D calls' := by
  intro ctx id ho
  obtain ⟨call, hcall, hrem⟩ := h ctx id ho
  exact ⟨call, hsub call hcall, hrem⟩

theorem DlqInv.step {x y : Conf (dlqWorld D)} {a : Action (dlqWorld D)} (hI : DlqInv D x)
    (hp : (roomPolicy D).Permits x a) (hxy : x.apply a = some y) : DlqInv D y := by
  rcases Conf.apply_cases hxy with ⟨t, ch, o, k, r, s', rfl, hk, hex, rfl⟩ | ⟨t, -, rfl⟩ |
    ⟨m, s', rfl, henv, rfl⟩ | ⟨j, p, s', rfl, hst, rfl⟩
  · obtain ⟨hex, hcalls⟩ := execDlq_eq_some.mp hex
    have hroom : o.HasRoom D x.store.server := by
      simp only [Policy.Permits, hk] at hp
      exact hp
    obtain ⟨hdel, hrest⟩ := hI.tasks t _ hk
    constructor
    · intro id v ha
      show (∃ call ∈ s'.calls, call.Removes id) ∨ _
      rw [hcalls]
      exact kept_exec hI.kept hroom hdel hex ha
    · intro u q hu
      show q.Uses (Op.DeletesFor D s'.calls)
      rw [hcalls]
      by_cases hut : u = t
      · subst hut
        obtain rfl : k r = q := by simpa [Conf.setTask] using hu
        exact hrest r
      · exact hI.tasks u q (by simpa [Conf.setTask, Function.update_of_ne hut] using hu)
  · refine ⟨hI.kept, fun u q hu => ?_⟩
    by_cases hut : u = t
    · subst hut
      simp [Conf.setTask] at hu
    · exact hI.tasks u q (by simpa [Conf.setTask, Function.update_of_ne hut] using hu)
  · obtain ⟨s₁, hm, rfl⟩ := Option.map_eq_some_iff.mp henv
    refine ⟨fun id v ha => ?_, hI.tasks⟩
    cases m with
    | tick ms =>
        cases hm
        exact hI.kept id v ha
    | cancel run =>
        cases hm
        obtain ⟨e, he, ctx, maxLen, now, hev⟩ := ha
        rcases List.mem_cons.mp he with rfl | he
        · cases hev
        · exact hI.kept id v ⟨e, he, ctx, maxLen, now, hev⟩
  · cases hst
    constructor
    · intro id v ha
      rcases hI.kept id v ha with ⟨call, hcall, hrem⟩ | hmem
      · exact Or.inl ⟨call, List.mem_cons_of_mem _ hcall, hrem⟩
      · exact Or.inr hmem
    · intro u q hu
      by_cases hut : u = x.next
      · subst hut
        obtain rfl : j.program D = q := by simpa [Conf.setTask] using hu
        exact uses_program (List.mem_cons_self ..)
      · have hq := hI.tasks u q (by simpa [Conf.setTask, Function.update_of_ne hut] using hu)
        exact hq.mono fun o ho => ho.mono fun call hcall => List.mem_cons_of_mem _ hcall

-- ============================================================================
-- Retention
-- ============================================================================

/-- `Send` returns an id when its XADD was executed. -/
theorem sends_iff {d : DLQ} {entry : DLQEntry} {id : StreamID} {ev : Ev} :
    Sends d entry id ev ↔ ∃ text ctx now, dlqEntryStruct.marshal entry = .ok text ∧
      ev = .cmd ctx (.xAdd d.streamName d.maxLen (entryValues text)) (.ok id) now := by
  constructor
  · rintro ⟨ctx, c, reply, now, rfl, k, hk, hret⟩
    cases ht : dlqEntryStruct.marshal entry with
    | error err =>
        unfold DLQ.send at hk
        rw [ht] at hk
        cases hk
    | ok text =>
        obtain ⟨k', heq, hok, herr⟩ := send_eq ht
        rw [heq] at hk
        cases hk
        refine ⟨text, ctx, now, rfl, ?_⟩
        cases reply with
        | error err =>
            rw [show k' (.error err) = _ from herr err] at hret
            cases hret
        | ok i =>
            rw [show k' (.ok i) = _ from hok i] at hret
            cases hret
            rfl
  · rintro ⟨text, ctx, now, ht, rfl⟩
    obtain ⟨k, heq, hok, -⟩ := send_eq ht
    exact ⟨ctx, _, _, now, rfl, k, heq, hok id⟩

/-- `Get` finds what is stored, and returns it if it can be read. -/
theorem retrievable_iff {s : Store} {id : StreamID} {entry : DLQEntry} {v : Values}
    (hmem : ⟨id, v⟩ ∈ (s.streams D.dlq.streamName).entries) :
    Retrievable D s id entry ↔ DLQ.parseEntry v = .ok entry := by
  have hfound : ∃ rest, (s.streams D.dlq.streamName).xrange id id = ⟨id, v⟩ :: rest := by
    have hin : ⟨id, v⟩ ∈ (s.streams D.dlq.streamName).xrange id id :=
      Stream.mem_xrange.mpr ⟨hmem, rfl⟩
    cases hx : (s.streams D.dlq.streamName).xrange id id with
    | nil =>
        rw [hx] at hin
        cases hin
    | cons e rest =>
        have he : e ∈ (s.streams D.dlq.streamName).xrange id id := by
          rw [hx]
          exact List.mem_cons_self ..
        obtain ⟨he, hid⟩ := Stream.mem_xrange.mp he
        exact ⟨rest, by rw [Stream.eq_of_id he hmem hid]⟩
  obtain ⟨rest, hrest⟩ := hfound
  have hrun : runCmd {} s (.xRange D.dlq.streamName id id) = some (.ok (⟨id, v⟩ :: rest), s) := by
    simp only [runCmd, hrest]
  have hsolo : ∀ t, ∃ s', (D.dlq.get .background id).solo (exec D t {}) s =
      some (DLQ.parseEntry v, s') := fun t =>
    ⟨_, Prog.solo_call (S := sig) (exec_of_answer (D := D) (t := t)
      ((answer_background rfl).trans hrun))⟩
  constructor
  · intro h
    obtain ⟨s', hget⟩ := h 0
    obtain ⟨s'', heq⟩ := hsolo 0
    exact (Prod.mk.inj (Option.some.inj (heq.symm.trans hget))).1
  · intro hparse t
    obtain ⟨s', heq⟩ := hsolo t
    exact ⟨s', by rw [heq, hparse]⟩

theorem parseEntry_entryValues_iff {entry : DLQEntry} {text : Text}
    (ht : dlqEntryStruct.marshal entry = .ok text) :
    DLQ.parseEntry (entryValues text) = .ok entry ↔ DLQEntry.Readable entry := by
  have hreadable : DLQEntry.Readable entry ↔ text.depth ≤ maxNestingDepth := by
    unfold DLQEntry.Readable
    simp [ht]
  rw [hreadable]
  refine ⟨fun hparse => ?_, parseEntry_entryValues ht⟩
  by_contra hdeep
  have hget : Values.get (entryValues text) "entry" = some text := rfl
  have hunmarshal : dlqEntryStruct.unmarshal .zero text = .error .tooDeep :=
    if_pos (Nat.lt_of_not_le hdeep)
  simp [DLQ.parseEntry, hget, hunmarshal] at hparse

/-- While the dead letter stream stays below its MAXLEN, every dead letter is kept
    until it is deleted or requeued, from any state of the server. -/
theorem dlq_retains {s₀ : Store} (hlog : s₀.log = []) {c : Conf (dlqWorld D)}
    (hc : (roomPolicy D).Reachable ⟨s₀, []⟩ c) : Retained D c.store := by
  have hinit : DlqInv D (Conf.init ⟨s₀, []⟩) := by
    refine ⟨?_, ?_⟩
    · rintro id v ⟨e, he, -⟩
      rw [show (Conf.init (W := dlqWorld D) ⟨s₀, []⟩).store.server.log = [] from hlog] at he
      cases he
    · intro t p ht
      cases ht
  have hI : DlqInv D c := Reaches.invariant hc hinit fun x a y _ hx hp hxy => hx.step hp hxy
  intro e he entry id hsend
  obtain ⟨text, ctx, now, ht, hev⟩ := sends_iff.mp hsend
  rcases hI.kept id _ ⟨e, he, ctx, _, now, hev⟩ with hcall | hmem
  · exact Or.inl hcall
  · exact Or.inr ((retrievable_iff hmem).trans (parseEntry_entryValues_iff ht))

-- ============================================================================
-- Runs that send
-- ============================================================================

/-- A `Send` that is started and executed at once. -/
theorem reachable_send {P : Policy (dlqWorld D)} {s₀ : DlqStore} {c : Conf (dlqWorld D)}
    (hc : P.Reachable s₀ c) {entry : DLQEntry} {text : Text}
    (ht : dlqEntryStruct.marshal entry = .ok text) (id : StreamID) (trim : Nat)
    (hid : (c.store.server.streams D.dlq.streamName).lastID < id)
    (htrim : TrimOk D.dlq.maxLen (c.store.server.streams D.dlq.streamName).xlen trim)
    (hstart : P.start (.send entry) c.store)
    (hcall : P.call c.next { id := id, trim := trim }
      (Op.redis .background (.xAdd D.dlq.streamName D.dlq.maxLen (entryValues text)))
      ⟨c.store.server, .send entry :: c.store.calls⟩) :
    ∃ c', P.Reachable s₀ c' ∧ c'.store.calls = .send entry :: c.store.calls ∧
      (∀ e ∈ c.store.server.log, e ∈ c'.store.server.log) ∧
      (∃ e ∈ c'.store.server.log, Sends D.dlq entry id e.ev) ∧
      c'.store.server.streams D.dlq.streamName =
        (c.store.server.streams D.dlq.streamName).xadd id hid (entryValues text) trim := by
  obtain ⟨k, hk, -⟩ := @send_eq D.dlq .background entry text ht
  have hprog : DlqCall.program D (.send entry) = Prog.call (S := sig)
      (Op.redis .background (.xAdd D.dlq.streamName D.dlq.maxLen (entryValues text)))
      (fun r => (k r).bind fun _ => .ret ()) := by
    show (D.dlq.send .background entry).bind _ = _
    rw [hk]
    rfl
  have hrun := @runCmd_xAdd_of { id := id, trim := trim } c.store.server _ _ (entryValues text)
    hid htrim
  have hex := exec_of_answer (D := D) (t := c.next) ((answer_background rfl).trans hrun)
  have hst : (dlqWorld D).start c.next (.send entry) c.store = some (_, _) :=
    congrArg (fun p => some (p, (⟨c.store.server, .send entry :: c.store.calls⟩ : DlqStore))) hprog
  have hexd : (dlqWorld D).exec c.next _ _ ⟨c.store.server, .send entry :: c.store.calls⟩ =
      some (_, ⟨_, .send entry :: c.store.calls⟩) := execDlq_eq_some.mpr ⟨hex, rfl⟩
  obtain ⟨c', hc', hstore⟩ := hc.start_call hstart hst hcall hexd
  refine ⟨c', hc', by rw [hstore], ?_, ?_, ?_⟩
  · rw [hstore]
    exact fun e he => List.mem_cons_of_mem _ he
  · rw [hstore]
    exact ⟨_, List.mem_cons_self .., sends_iff.mpr ⟨text, _, _, ht, rfl⟩⟩
  · rw [hstore]
    exact setStream_self ..

/-- A `Delete` that is started and executed at once. -/
theorem reachable_delete {P : Policy (dlqWorld D)} {s₀ : DlqStore} {c : Conf (dlqWorld D)}
    (hc : P.Reachable s₀ c) (id : StreamID) (hstart : P.start (.delete id) c.store)
    (hcall : P.call c.next {} (Op.redis .background (.xDel D.dlq.streamName id))
      ⟨c.store.server, .delete id :: c.store.calls⟩) :
    ∃ c', P.Reachable s₀ c' ∧ c'.store.calls = .delete id :: c.store.calls ∧
      ∀ e ∈ c.store.server.log, e ∈ c'.store.server.log := by
  have hrun : runCmd {} c.store.server (.xDel D.dlq.streamName id) = some (_, _) := rfl
  have hex := exec_of_answer (D := D) (t := c.next) ((answer_background rfl).trans hrun)
  have hexd : (dlqWorld D).exec c.next _ _ ⟨c.store.server, .delete id :: c.store.calls⟩ =
      some (_, ⟨_, .delete id :: c.store.calls⟩) := execDlq_eq_some.mpr ⟨hex, rfl⟩
  obtain ⟨c', hc', hstore⟩ := hc.start_call hstart rfl hcall hexd
  refine ⟨c', hc', by rw [hstore], ?_⟩
  rw [hstore]
  exact fun e he => List.mem_cons_of_mem _ he

/-- `Get` does not find what is not stored. -/
theorem not_retrievable {s : Store} {id : StreamID} {entry : DLQEntry}
    (hgone : ∀ e ∈ (s.streams D.dlq.streamName).entries, e.id ≠ id) :
    ¬ Retrievable D s id entry := by
  intro h
  obtain ⟨s', hsolo⟩ := h 0
  have hempty : (s.streams D.dlq.streamName).xrange id id = [] := by
    rw [List.eq_nil_iff_forall_not_mem]
    intro e he
    obtain ⟨hmem, hid⟩ := Stream.mem_xrange.mp he
    exact hgone e hmem hid
  have hrun : runCmd {} s (.xRange D.dlq.streamName id id) = some (.ok [], s) := by
    simp only [runCmd, hempty]
  have hex := exec_of_answer (D := D) (t := 0) ((answer_background rfl).trans hrun)
  have herr : (D.dlq.get .background id).solo (exec D 0 {}) s =
      some (.error ("DLQ entry not found: " ++ id.toString), _) := Prog.solo_call (S := sig) hex
  rw [herr] at hsolo
  cases hsolo

end

/-- A job as a dead letter. -/
def someEntry : DLQEntry := { DLQEntry.zero with jobData := some JobEnvelope.zero }

@[inherit_doc someEntry]
def otherEntry : DLQEntry where
  originalStreamID := "7-0"
  jobData := some { JobEnvelope.zero with jobID := "j", retryCount := 3, maxRetries := 3 }
  failureReason := "timeout"
  sentToDLQAt := 9

theorem readable_of_marshal {entry : DLQEntry} {text : Text}
    (ht : dlqEntryStruct.marshal entry = .ok text) (hd : text.depth ≤ maxNestingDepth) :
    DLQEntry.Readable entry := by
  intro text' ht'
  rw [ht] at ht'
  cases ht'
  exact hd

theorem marshal_someEntry : (∃ text, dlqEntryStruct.marshal someEntry = .ok text) ∧
    DLQEntry.Readable someEntry :=
  ⟨⟨_, rfl⟩, readable_of_marshal rfl (by decide +kernel)⟩

theorem marshal_otherEntry : (∃ text, dlqEntryStruct.marshal otherEntry = .ok text) ∧
    DLQEntry.Readable otherEntry :=
  ⟨⟨_, rfl⟩, readable_of_marshal rfl (by decide +kernel)⟩

/-- Two entries are sent and the first is deleted; `Get` returns the second. -/
theorem dlq_retains_second : ∃ c : Conf (dlqWorld (.ofDefaults true)),
    (roomPolicy (.ofDefaults true)).Reachable ⟨Store.init, []⟩ c ∧
    c.store.calls = [.delete (.of 1 0), .send otherEntry, .send someEntry] ∧
    (∃ e ∈ c.store.server.log, Sends (Deployment.ofDefaults true).dlq someEntry (.of 1 0) e.ev) ∧
    (∃ e ∈ c.store.server.log, Sends (Deployment.ofDefaults true).dlq otherEntry (.of 2 0) e.ev) ∧
    Retrievable (.ofDefaults true) c.store.server (.of 2 0) otherEntry := by
  obtain ⟨⟨text, ht⟩, -⟩ := marshal_someEntry
  obtain ⟨⟨text', ht'⟩, hreadable⟩ := marshal_otherEntry
  have hinit : (roomPolicy (.ofDefaults true)).Reachable ⟨Store.init, []⟩
      (Conf.init ⟨Store.init, []⟩) := Reaches.refl
  obtain ⟨c₁, hc₁, hcalls₁, -, ⟨e, he, hsent⟩, hstream₁⟩ := reachable_send hinit ht (.of 1 0) 0
    (by decide +kernel) (Or.inl rfl) trivial (fun _ _ => by decide +kernel)
  have hlast : (c₁.store.server.streams (Deployment.ofDefaults true).dlq.streamName).lastID <
      .of 2 0 := by
    rw [hstream₁, Stream.xadd_lastID]
    decide +kernel
  have hroom : Op.HasRoom (.ofDefaults true) c₁.store.server (Op.redis .background
      (.xAdd (Deployment.ofDefaults true).dlq.streamName (Deployment.ofDefaults true).dlq.maxLen
        (entryValues text'))) := by
    intro _ _
    rw [hstream₁]
    change (1 : Int) < _
    decide +kernel
  obtain ⟨c₂, hc₂, hcalls₂, hlog₂, ⟨e', he', hsent'⟩, -⟩ :=
    reachable_send hc₁ ht' (.of 2 0) 0 hlast (Or.inl rfl) trivial hroom
  obtain ⟨c₃, hc₃, hcalls₃, hlog₃⟩ := reachable_delete hc₂ (.of 1 0) trivial trivial
  have hcalls : c₃.store.calls = [.delete (.of 1 0), .send otherEntry, .send someEntry] := by
    rw [hcalls₃, hcalls₂, hcalls₁]
    rfl
  refine ⟨c₃, hc₃, hcalls, ⟨e, hlog₃ e (hlog₂ e he), hsent⟩, ⟨e', hlog₃ e' he', hsent'⟩, ?_⟩
  rcases dlq_retains rfl hc₃ e' (hlog₃ e' he') otherEntry (.of 2 0) hsent' with
    ⟨call, hcall, hrem⟩ | hiff
  · have hne : StreamID.of 1 0 ≠ .of 2 0 := by decide
    rw [hcalls] at hcall
    simp only [List.mem_cons, List.not_mem_nil, or_false] at hcall
    rcases hcall with rfl | rfl | rfl
    · exact absurd hrem hne
    · exact hrem.elim
    · exact hrem.elim
  · exact hiff.mpr hreadable

/-- The dead letter stream is trimmed to no less than one entry. -/
def shortDlq : Deployment :=
  { Deployment.ofDefaults true with
    accepted := ⟨{ Config.getDefaults with queue := { Config.getDefaults.queue with
      dlqMaxLen := 1 } }, by decide +kernel⟩
    partition_lt := Deployment.ofDefaults_partition_lt true }

/-- Two entries are sent; the second `Send` evicts the first, and nobody has deleted or
    requeued anything. -/
theorem dlq_loses_oldest : ∃ c : Conf (dlqWorld shortDlq),
    (Policy.any (W := dlqWorld shortDlq)).Reachable ⟨Store.init, []⟩ c ∧
    c.store.calls = [.send someEntry, .send someEntry] ∧ ¬ Retained shortDlq c.store := by
  obtain ⟨⟨text, ht⟩, hreadable⟩ := marshal_someEntry
  have hinit : (Policy.any (W := dlqWorld shortDlq)).Reachable ⟨Store.init, []⟩
      (Conf.init ⟨Store.init, []⟩) := Reaches.refl
  obtain ⟨c₁, hc₁, hcalls₁, -, ⟨e, he, hsend⟩, hstream₁⟩ := reachable_send hinit ht (.of 1 0) 0
    (by decide +kernel) (Or.inl rfl) trivial trivial
  have hlast : (c₁.store.server.streams shortDlq.dlq.streamName).lastID < .of 2 0 := by
    rw [hstream₁, Stream.xadd_lastID]
    decide +kernel
  have hroom : TrimOk shortDlq.dlq.maxLen
      (c₁.store.server.streams shortDlq.dlq.streamName).xlen 1 := by
    rw [hstream₁]
    exact Or.inr ⟨by decide +kernel, Nat.le_refl 2⟩
  obtain ⟨c₂, hc₂, hcalls₂, hlog₂, -, hstream₂⟩ := reachable_send hc₁ ht (.of 2 0) 1 hlast hroom
    trivial trivial
  have hcalls : c₂.store.calls = [.send someEntry, .send someEntry] := by
    rw [hcalls₂, hcalls₁]
    rfl
  -- of the two entries the first is evicted
  have hentries : (c₂.store.server.streams shortDlq.dlq.streamName).entries =
      [⟨.of 2 0, entryValues text⟩] := by
    rw [hstream₂]
    show ((c₁.store.server.streams shortDlq.dlq.streamName).entries ++ [_]).drop 1 = _
    rw [hstream₁]
    rfl
  refine ⟨c₂, hc₂, hcalls, fun hretained => ?_⟩
  rcases hretained e (hlog₂ e he) someEntry (.of 1 0) hsend with ⟨call, hcall, hrem⟩ | hiff
  · rw [hcalls] at hcall
    simp only [List.mem_cons, List.not_mem_nil, or_false, or_self] at hcall
    rw [hcall] at hrem
    exact hrem
  · refine not_retrievable ?_ (hiff.mpr hreadable)
    intro x hx
    rw [hentries] at hx
    have hne : StreamID.of 2 0 ≠ .of 1 0 := by decide +kernel
    rw [List.mem_singleton.mp hx]
    exact hne

end LogPipeline.Cluster
