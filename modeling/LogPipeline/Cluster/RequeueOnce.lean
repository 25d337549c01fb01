/-
  LogPipeline.Cluster.RequeueOnce

  Concurrent calls of `DLQ.Requeue` on one dead letter.

  A call reads the entry, adds the job to the target stream and deletes the entry, in
  three commands.  It deletes only after it has added, so the job is never lost
  (`requeue_never_loses`).  That it is moved once needs more: a call reads while no
  other call is between its own read and its end, and the delete of a call that has
  added is executed (`requeue_moves_once`).  Two calls that both read first add two
  copies (`requeued_twice`).
-/

import LogPipeline.Cluster.Control
import LogPipeline.Cluster.Faults
import LogPipeline.Cluster.Retention

namespace LogPipeline.Cluster

open Conc Go Redis Queue Bootstrap

-- ============================================================================
-- The property
-- ============================================================================

/-- An entry was added to a stream. -/
def Ev.isAdd : Ev → Bool
  | .cmd _ (.xAdd ..) (.ok _) _ => true
  | _ => false

/-- How many entries were added to streams. -/
def Log.additions (h : Log) : Nat := h.countP fun e => e.ev.isAdd

/-- A copy of the dead job was added to a stream. -/
def Log.Copied (h : Log) (job : JobEnvelope) : Prop :=
  ∃ e ∈ h, ∃ stream new, e.ev.jobAdded = some (stream, new, DLQ.resetForRequeue job)

/-- The entry is in the dead letter queue or its job was added to a stream, and nothing
    was added twice. -/
structure MovedOnce (D : Deployment) (id : StreamID) (v : Values) (job : JobEnvelope)
    (s : Store) : Prop where
  kept : ⟨id, v⟩ ∈ (s.streams D.dlq.streamName).entries ∨ s.log.Copied job
  once : s.log.additions ≤ 1

/-- Only this dead letter is requeued. -/
def OnlyRequeues {D : Deployment} (id : StreamID) (_ : Conf (dlqWorld D)) :
    Action (dlqWorld D) → Prop
  | .start j => ∃ stream maxLen, j = .requeue id stream maxLen
  | _ => True

def Op.isLookup : Op → Bool
  | .redis _ (.xRange ..) => true
  | _ => false

def Op.isDelete : Op → Bool
  | .redis _ (.xDel ..) => true
  | _ => false

/-- A call looks the entry up only while every other call is before its own look-up or
    over; the delete at the end of a call is executed. -/
def Serial {D : Deployment} (c : Conf (dlqWorld D)) : Action (dlqWorld D) → Prop
  | .step t ch => ∀ (o : Op) k, c.tasks t = some (.call o k) →
      (o.isLookup = true →
        ∀ u ≠ t, ∀ (o' : Op) k', c.tasks u = some (.call o' k') → o'.isLookup = true) ∧
      (o.isDelete = true → ch.fail = none)
  | .crash t => ∀ (o : Op) k, c.tasks t = some (.call o k) → o.isDelete = false
  | _ => True

-- ============================================================================
-- The program
-- ============================================================================

/-- Where a call of `Requeue` is: what it does next. -/
inductive Place where
  | looking
  | adding (msg : Entry Values)
  | deleting
  | over

/-- The call has read the entry and is not over. -/
def Place.Busy : Place → Prop
  | .adding _ => True
  | .deleting => True
  | _ => False

theorem Place.not_busy_over {z : Place} (h : some Place.over = some z) : ¬ z.Busy := by
  cases h
  exact not_false

/-- The values are those of the job in the dead letter, reset. -/
def IsCopy (msg : Entry Values) (v : Values) : Prop :=
  ∃ entry job, DLQ.parseEntry msg.values = .ok entry ∧ entry.jobData = some job ∧
    v.job = some (DLQ.resetForRequeue job)

/-- One command of `Requeue`. -/
inductive Advance (D : Deployment) (id : StreamID) : Place → (o : Op) → o.Res → Place → Prop
  | found {msg : Entry Values} {rest : List (Entry Values)} :
      Advance D id .looking (.redis .background (.xRange D.dlq.streamName id id))
        (.ok (msg :: rest)) (.adding msg)
  /-- There is no entry, or none that can be moved. -/
  | missed {r : Except RedisError (List (Entry Values))} :
      Advance D id .looking (.redis .background (.xRange D.dlq.streamName id id)) r .over
  | added {msg : Entry Values} {stream : String} {maxLen : Int64} {v : Values} {new : StreamID}
      (h : IsCopy msg v) :
      Advance D id (.adding msg) (.redis .background (.xAdd stream maxLen v)) (.ok new) .deleting
  | refused {msg : Entry Values} {stream : String} {maxLen : Int64} {v : Values}
      {err : RedisError} :
      Advance D id (.adding msg) (.redis .background (.xAdd stream maxLen v)) (.error err) .over
  | deleted {r : Except RedisError Nat} :
      Advance D id .deleting (.redis .background (.xDel D.dlq.streamName id)) r .over

/-- The automaton of `Requeue`. -/
def places (D : Deployment) (id : StreamID) : Typestate sig Place where
  Next := Advance D id
  Final := fun x => x = .over

section

variable {D : Deployment} {id : StreamID}

theorem typed_requeueCall (stream : String) (maxLen : Int64) :
    Typed (places D id) (fun _ y => y = .over)
      ((DlqCall.requeue id stream maxLen).program D) .looking := by
  intro r
  match r with
  | .error err => exact ⟨.over, .missed, rfl⟩
  | .ok [] => exact ⟨.over, .missed, rfl⟩
  | .ok (msg :: rest) =>
      -- what is left after the look-up, by what is in the entry
      cases hparse : DLQ.parseEntry msg.values with
      | error err =>
          refine ⟨.over, .missed, ?_⟩
          show Typed _ _ (Prog.bind (Prog.bind (.ret (DLQ.parseEntry msg.values)) _) _) _
          rw [hparse]
          rfl
      | ok entry =>
          show ∃ y, _ ∧ Typed _ _ (Prog.bind (Prog.bind (.ret (DLQ.parseEntry msg.values)) _) _) y
          rw [hparse]
          cases hjob : entry.jobData with
          | none =>
              refine ⟨.over, .missed, ?_⟩
              simp only [Prog.ret_bind, hjob]
              rfl
          | some job =>
              simp only [Prog.ret_bind, hjob]
              cases hargs : buildXAddArgs stream maxLen (DLQ.resetForRequeue job) with
              | error err => exact ⟨.over, .missed, rfl⟩
              | ok args =>
                  obtain ⟨text, ht, rfl⟩ := buildXAddArgs_ok hargs
                  have hcopy : IsCopy msg (jobValues text) :=
                    ⟨entry, job, hparse, hjob, job_jobValues ht⟩
                  refine ⟨.adding msg, .found, fun added => ?_⟩
                  cases added with
                  | error err => exact ⟨.over, .refused, rfl⟩
                  | ok new =>
                      refine ⟨.deleting, .added hcopy, fun deleted => ⟨.over, .deleted, ?_⟩⟩
                      match deleted with
                      | .error err => rfl
                      | .ok n =>
                          show Typed _ _ (Prog.bind (Prog.bind (if n = 0 then _ else _) _) _) _
                          split <;> rfl

/-- What a call that has read the entry does next. -/
theorem Follows.busy {c : Conf (dlqWorld D)} {st : Nat → Option Place}
    (hf : Follows (places D id) c st) {t : Nat} {x : Place} (hx : st t = some x) (hbusy : x.Busy) :
    ∃ (o : Op) (k : o.Res → Program Unit), c.tasks t = some (.call (S := sig) o k) ∧
      o.isLookup = false ∧ (x = .deleting → o.isDelete = true) := by
  cases ht : c.tasks t with
  | none =>
      rw [hf.dead t ht] at hx
      cases hx
  | some p =>
      obtain ⟨x', hx', htyped⟩ := hf.live t p ht
      obtain rfl : x = x' := by
        rw [hx] at hx'
        exact Option.some.inj hx'
      cases p with
      | ret a =>
          obtain rfl : x = .over := htyped
          exact hbusy.elim
      | call o k =>
          obtain ⟨r⟩ := Op.res_nonempty o
          obtain ⟨y, hnext, -⟩ := htyped r
          refine ⟨o, k, rfl, ?_⟩
          cases hnext with
          | found => exact hbusy.elim
          | missed => exact hbusy.elim
          | added => exact ⟨rfl, nofun⟩
          | refused => exact ⟨rfl, nofun⟩
          | deleted => exact ⟨rfl, fun _ => rfl⟩

-- ============================================================================
-- What a command does
-- ============================================================================

/-- A command of a call is lost, or executed. -/
theorem execDlq_background {t : Nat} {ch : Choice} {cmd : Cmd} {s s' : DlqStore}
    {r : Except RedisError cmd.Reply}
    (h : execDlq D t ch (.redis .background cmd) s = some (r, s')) :
    ∃ s₁, s'.server = s₁.record (some t) (.cmd .background cmd r s.server.now) ∧
      s₁.log = s.server.log ∧
      ((ch.fail ≠ none ∧ (∃ err, r = .error err) ∧ s₁ = s.server) ∨
        (ch.fail = none ∧ runCmd ch s.server cmd = some (r, s₁))) := by
  obtain ⟨hex, -⟩ := execDlq_eq_some.mp h
  obtain ⟨s₁, hans, hs'⟩ := exec_redis hex
  refine ⟨s₁, hs', (answer_frame hans).log, ?_⟩
  rcases answer_cases hans with ⟨hdone, -, -⟩ | ⟨-, msg, hfail, hr, rfl⟩ | ⟨-, hfail, hrun⟩
  · exact hdone.elim
  · exact Or.inl ⟨by simp [hfail], ⟨_, hr⟩, rfl⟩
  · exact Or.inr ⟨hfail, hrun⟩

theorem additions_record {s : Store} {who : Option Nat} {ev : Ev} :
    (s.record who ev).log.additions = s.log.additions + if ev.isAdd then 1 else 0 := by
  unfold Log.additions Store.record
  rw [List.countP_cons]

theorem Log.Copied.record {s : Store} {job : JobEnvelope} (h : s.log.Copied job)
    (who : Option Nat) (ev : Ev) : (s.record who ev).log.Copied job := by
  obtain ⟨e, he, hcopy⟩ := h
  exact ⟨e, List.mem_cons_of_mem _ he, hcopy⟩

/-- The dead letter, as the server has it. -/
structure Letter (D : Deployment) (id : StreamID) (v : Values) (s : Store) : Prop where
  /-- No other entry has its id, -/
  unique : ∀ e ∈ (s.streams D.dlq.streamName).entries, e.id = id → e.values = v
  /-- and none will get it. -/
  old : id ≤ (s.streams D.dlq.streamName).lastID

theorem Letter.of_streams {v : Values} {s s' : Store} (h : Letter D id v s)
    (hs : s'.streams = s.streams) : Letter D id v s' := by
  constructor
  · rw [hs]
    exact h.unique
  · rw [hs]
    exact h.old

theorem Letter.xAdd {v v' : Values} {s s₁ : Store} {ch : Choice} {stream : String}
    {maxLen : Int64} {r : Except RedisError StreamID} (h : Letter D id v s)
    (hrun : runCmd ch s (.xAdd stream maxLen v') = some (r, s₁)) : Letter D id v s₁ := by
  obtain ⟨-, -, hid, rfl⟩ := runCmd_xAdd hrun
  by_cases hstream : D.dlq.streamName = stream
  · subst hstream
    constructor
    · rw [setStream_self]
      intro e he heid
      rcases Stream.mem_xadd_entries he with he | rfl
      · exact h.unique e he heid
      · exact absurd (lt_of_le_of_lt h.old hid) (by rw [← heid]; exact lt_irrefl _)
    · rw [setStream_self]
      exact (lt_of_le_of_lt h.old hid).le
  · constructor
    · rw [setStream_ne _ _ hstream]
      exact h.unique
    · rw [setStream_ne _ _ hstream]
      exact h.old

theorem Letter.xDel {v : Values} {s s₁ : Store} {ch : Choice} {r : Except RedisError Nat}
    (h : Letter D id v s)
    (hrun : runCmd ch s (.xDel D.dlq.streamName id) = some (r, s₁)) :
    Letter D id v s₁ ∧ ⟨id, v⟩ ∉ (s₁.streams D.dlq.streamName).entries := by
  cases hrun
  refine ⟨⟨?_, ?_⟩, ?_⟩
  · rw [setStream_self]
    intro e he
    exact h.unique e (Stream.mem_xdel_entries.mp he).1
  · rw [setStream_self]
    exact h.old
  · rw [setStream_self]
    intro he
    exact (Stream.mem_xdel_entries.mp he).2 rfl

/-- A look-up returns the entry. -/
theorem Letter.found {v : Values} {s s₁ : Store} {ch : Choice} {msg : Entry Values}
    {rest : List (Entry Values)} (h : Letter D id v s)
    (hrun : runCmd ch s (.xRange D.dlq.streamName id id) = some (.ok (msg :: rest), s₁)) :
    msg = ⟨id, v⟩ ∧ ⟨id, v⟩ ∈ (s.streams D.dlq.streamName).entries ∧ s₁ = s := by
  simp only [runCmd, Option.some.injEq, Prod.mk.injEq, Except.ok.injEq] at hrun
  obtain ⟨hrange, rfl⟩ := hrun
  have hin : msg ∈ (s.streams D.dlq.streamName).xrange id id := by
    rw [hrange]
    exact List.mem_cons_self ..
  obtain ⟨hmem, hid⟩ := Stream.mem_xrange.mp hin
  have hv := h.unique msg hmem hid
  have heq : msg = ⟨id, v⟩ := by
    cases msg with
    | mk i w =>
        obtain rfl : i = id := hid
        obtain rfl : w = v := hv
        rfl
  exact ⟨heq, heq ▸ hmem, rfl⟩

-- ============================================================================
-- The job is not lost
-- ============================================================================

/-- What holds of the server and the calls without any assumption on them. -/
structure Moving (D : Deployment) (id : StreamID) (v : Values) (job : JobEnvelope)
    (s : Store) (st : Nat → Option Place) : Prop where
  letter : Letter D id v s
  found : ∀ t msg, st t = some (.adding msg) → msg = ⟨id, v⟩
  copied : ∀ t, st t = some .deleting → s.log.Copied job
  kept : ⟨id, v⟩ ∈ (s.streams D.dlq.streamName).entries ∨ s.log.Copied job

variable {v : Values} {job : JobEnvelope} {s s' : Store} {st : Nat → Option Place}

/-- One task goes on. -/
theorem Moving.update (hI : Moving D id v job s st) (t : Nat) {y : Option Place}
    (hletter : Letter D id v s') (hmono : s.log.Copied job → s'.log.Copied job)
    (hkept : ⟨id, v⟩ ∈ (s'.streams D.dlq.streamName).entries ∨ s'.log.Copied job)
    (hadding : ∀ msg, y = some (.adding msg) → msg = ⟨id, v⟩)
    (hdeleting : y = some .deleting → s'.log.Copied job) :
    Moving D id v job s' (Function.update st t y) where
  letter := hletter
  found u msg hu := by
    rcases update_eq_some hu with ⟨-, hy⟩ | ⟨-, hu⟩
    · exact hadding msg hy
    · exact hI.found u msg hu
  copied u hu := by
    rcases update_eq_some hu with ⟨-, hy⟩ | ⟨-, hu⟩
    · exact hdeleting hy
    · exact hmono (hI.copied u hu)
  kept := hkept

/-- A task goes on without a command that changes streams. -/
theorem Moving.same (hI : Moving D id v job s st) (t : Nat) {y : Option Place}
    (hstreams : s'.streams = s.streams) (hmono : s.log.Copied job → s'.log.Copied job)
    (hadding : ∀ msg, y = some (.adding msg) → msg = ⟨id, v⟩) (hne : y ≠ some .deleting) :
    Moving D id v job s' (Function.update st t y) := by
  refine hI.update t (hI.letter.of_streams hstreams) hmono ?_ hadding fun hy => absurd hy hne
  rw [hstreams]
  exact hI.kept.imp_right hmono

/-- A job that was read from the dead letter is that of the entry. -/
theorem IsCopy.parse {w : Values} (h : IsCopy ⟨id, v⟩ w) {entry : DLQEntry}
    (hparse : DLQ.parseEntry v = .ok entry) (hjob : entry.jobData = some job) :
    w.job = some (DLQ.resetForRequeue job) := by
  obtain ⟨entry', job', hparse', hjob', hcopy⟩ := h
  have hparse' : DLQ.parseEntry v = .ok entry' := hparse'
  rw [hparse] at hparse'
  cases hparse'
  rw [hjob] at hjob'
  cases hjob'
  exact hcopy

theorem Moving.call {entry : DLQEntry} (hparse : DLQ.parseEntry v = .ok entry)
    (hjob : entry.jobData = some job) {t : Nat} {ch : Choice} {o : Op} {r : o.Res}
    {x y : Place} {z z' : DlqStore} (hI : Moving D id v job z.server st)
    (hx : st t = some x) (hex : execDlq D t ch o z = some (r, z')) (hnext : Advance D id x o r y) :
    Moving D id v job z'.server (Function.update st t (some y)) := by
  cases hnext with
  | @found msg rest =>
      obtain ⟨s₁, hz, hlog, heff⟩ := execDlq_background hex
      rw [hz]
      rcases heff with ⟨-, ⟨err, herr⟩, -⟩ | ⟨-, hrun⟩
      · cases herr
      · obtain ⟨rfl, -, rfl⟩ := hI.letter.found hrun
        refine hI.same t rfl (fun hc => hc.record _ _) ?_ nofun
        rintro msg' heq
        cases heq
        rfl
  | missed =>
      obtain ⟨s₁, hz, hlog, heff⟩ := execDlq_background hex
      rw [hz]
      have hs₁ : s₁ = z.server := by
        rcases heff with ⟨-, -, rfl⟩ | ⟨-, hrun⟩
        · rfl
        · cases hrun
          rfl
      subst hs₁
      exact hI.same t rfl (fun hc => hc.record _ _) nofun nofun
  | @added msg stream maxLen w new hcopy =>
      obtain ⟨s₁, hz, hlog, heff⟩ := execDlq_background hex
      obtain rfl := hI.found t msg hx
      have hcopied : z'.server.log.Copied job := by
        rw [hz]
        exact ⟨_, List.mem_cons_self .., stream, new,
          Ev.jobAdded_eq_some.mpr ⟨w, ⟨_, _, _, rfl⟩, hcopy.parse hparse hjob⟩⟩
      have hletter : Letter D id v z'.server := by
        rw [hz]
        rcases heff with ⟨-, ⟨err, herr⟩, -⟩ | ⟨-, hrun⟩
        · cases herr
        · exact (hI.letter.xAdd hrun).of_streams rfl
      exact hI.update t hletter (fun _ => hcopied) (Or.inr hcopied) nofun fun _ => hcopied
  | @refused msg stream maxLen w err =>
      obtain ⟨s₁, hz, hlog, heff⟩ := execDlq_background hex
      rw [hz]
      rcases heff with ⟨-, -, rfl⟩ | ⟨-, hrun⟩
      · exact hI.same t rfl (fun hc => hc.record _ _) nofun nofun
      · obtain ⟨hr, -⟩ := runCmd_xAdd hrun
        cases hr
  | deleted =>
      obtain ⟨s₁, hz, hlog, heff⟩ := execDlq_background hex
      have hcopied : z'.server.log.Copied job := by
        have hold : s₁.log.Copied job := hlog ▸ hI.copied t hx
        rw [hz]
        exact hold.record _ _
      have hletter : Letter D id v z'.server := by
        rw [hz]
        rcases heff with ⟨-, -, rfl⟩ | ⟨-, hrun⟩
        · exact hI.letter.of_streams rfl
        · exact (hI.letter.xDel hrun).1.of_streams rfl
      exact hI.update t hletter (fun _ => hcopied) (Or.inr hcopied) nofun nofun

theorem Moving.move {m : Move} (hI : Moving D id v job s st) (h : move m s = some s') :
    Moving D id v job s' st := by
  cases m with
  | tick ms =>
      cases h
      exact ⟨hI.letter.of_streams rfl, hI.found, hI.copied, hI.kept⟩
  | cancel run =>
      cases h
      exact ⟨hI.letter.of_streams rfl, hI.found, fun t ht => (hI.copied t ht).record _ _,
        hI.kept.imp_right fun hc => hc.record _ _⟩

/-- The calls keep the dead letter or move it. -/
theorem moving_keeps {entry : DLQEntry} (hparse : DLQ.parseEntry v = .ok entry)
    (hjob : entry.jobData = some job) : (places D id).Keeps (OnlyRequeues id)
      fun (c : Conf (dlqWorld D)) st => Moving D id v job c.store.server st where
  call hI _ hs _ := hI.call hparse hjob hs.stage hs.exec hs.next
  ret hI _ _ _ := hI.same _ rfl (fun h => h) nofun nofun
  crash hI _ := hI.same _ rfl (fun h => h) nofun nofun
  env hI _ h := by
    obtain ⟨s₁, hm, rfl⟩ := Option.map_eq_some_iff.mp h
    exact hI.move hm
  start hI _ hC h := by
    obtain ⟨stream, maxLen, rfl⟩ := hC
    cases h
    exact ⟨.looking, typed_requeueCall stream maxLen, hI.same _ rfl (fun h => h) nofun nofun⟩

theorem moving_init (hmem : ⟨id, v⟩ ∈ (s.streams D.dlq.streamName).entries) :
    Moving D id v job s fun _ => none where
  letter := by
    refine ⟨fun e he heid => ?_, (s.streams D.dlq.streamName).le_last _ hmem⟩
    rw [Stream.eq_of_id he hmem heid]
  found t msg h := by cases h
  copied t h := by cases h
  kept := Or.inl hmem

/-- Whatever fails, the job is in the dead letter queue or a copy of it was added. -/
theorem requeue_never_loses {entry : DLQEntry} (hparse : DLQ.parseEntry v = .ok entry)
    (hjob : entry.jobData = some job) (hlog : s.log = [])
    (hmem : ⟨id, v⟩ ∈ (s.streams D.dlq.streamName).entries) {c : Conf (dlqWorld D)}
    (hc : Reaches Conf.apply (OnlyRequeues id) (Conf.init ⟨s, []⟩) c) :
    ⟨id, v⟩ ∈ (c.store.server.streams D.dlq.streamName).entries ∨
      c.store.server.log.Copied job := by
  have hhist : (dlqWorld D).hist ⟨s, []⟩ = [] := hlog
  obtain ⟨st, -, hI⟩ := Typestate.sound (places D id) (moving_keeps hparse hjob) hhist
    (moving_init hmem) hc
  exact hI.kept

-- ============================================================================
-- The job is moved once
-- ============================================================================

/-- What holds of them if the calls are serial. -/
structure Once (D : Deployment) (id : StreamID) (v : Values) (s : Store)
    (st : Nat → Option Place) : Prop where
  alone : ∀ t u x y, st t = some x → st u = some y → x.Busy → y.Busy → t = u
  fresh : ∀ t msg, st t = some (.adding msg) → s.log.additions = 0
  once : s.log.additions ≤ 1
  gone : s.log.additions = 1 → ⟨id, v⟩ ∉ (s.streams D.dlq.streamName).entries ∨
    ∃ t, st t = some .deleting

/-- A call goes on that is not busy afterwards and does not add: one that was deleting has
    deleted. -/
theorem Once.leave (hO : Once D id v s st) (t : Nat) {y : Option Place}
    (hy : ∀ z, y = some z → ¬ z.Busy) (hadd : s'.log.additions = s.log.additions)
    (hsub : ⟨id, v⟩ ∈ (s'.streams D.dlq.streamName).entries →
      ⟨id, v⟩ ∈ (s.streams D.dlq.streamName).entries)
    (hdel : st t = some .deleting → ⟨id, v⟩ ∉ (s'.streams D.dlq.streamName).entries) :
    Once D id v s' (Function.update st t y) where
  alone u w x z hu hw hx hz := by
    rcases update_eq_some hu with ⟨-, hy'⟩ | ⟨-, hu⟩
    · exact absurd hx (hy x hy')
    rcases update_eq_some hw with ⟨-, hy'⟩ | ⟨-, hw⟩
    · exact absurd hz (hy z hy')
    exact hO.alone u w x z hu hw hx hz
  fresh u msg hu := by
    rcases update_eq_some hu with ⟨-, hy'⟩ | ⟨-, hu⟩
    · exact absurd trivial (hy _ hy')
    · rw [hadd]
      exact hO.fresh u msg hu
  once := hadd ▸ hO.once
  gone h := by
    rw [hadd] at h
    rcases hO.gone h with hnot | ⟨u, hu⟩
    · exact Or.inl fun hmem => hnot (hsub hmem)
    · by_cases hut : u = t
      · subst hut
        exact Or.inl (hdel hu)
      · exact Or.inr ⟨u, by rw [Function.update_of_ne hut]; exact hu⟩

/-- The tasks of busy calls, as the steps of others see them. -/
def BusyTasks (c : Conf (dlqWorld D)) (st : Nat → Option Place) : Prop :=
  ∀ t x, st t = some x → x.Busy → ∃ (o : Op) (k : o.Res → Program Unit),
    c.tasks t = some (.call (S := sig) o k) ∧ o.isLookup = false ∧
      (x = .deleting → o.isDelete = true)

theorem Once.call {t : Nat} {ch : Choice} {o : Op} {k : o.Res → Program Unit} {r : o.Res}
    {x y : Place} {c : Conf (dlqWorld D)} {z' : DlqStore}
    (hI : Moving D id v job c.store.server st) (hO : Once D id v c.store.server st)
    (hB : BusyTasks c st) (hser : Serial c (.step t ch))
    (hs : CallStep (places D id) c st t ch o k r z' x y) :
    Once D id v z'.server (Function.update st t (some y)) := by
  obtain ⟨-, htask, hex, hx, hnext⟩ := hs
  have hnext : Advance D id x o r y := hnext
  obtain ⟨hlookup, hdelete⟩ := hser o k htask
  cases hnext with
  | @found msg rest =>
      obtain ⟨s₁, hz, hlog, heff⟩ := execDlq_background hex
      rcases heff with ⟨-, ⟨err, herr⟩, -⟩ | ⟨-, hrun⟩
      · cases herr
      obtain ⟨-, hmem, rfl⟩ := hI.letter.found hrun
      -- no other call is busy
      have hidle : ∀ u x, st u = some x → ¬ x.Busy := by
        intro u x' hu hbusy
        have hut : u ≠ t := by
          rintro rfl
          rw [hx] at hu
          cases hu
          exact hbusy
        obtain ⟨o', k', hk', hfalse, -⟩ := hB u x' hu hbusy
        rw [hlookup rfl u hut o' k' hk'] at hfalse
        cases hfalse
      have hnone : c.store.server.log.additions = 0 := by
        have hle := hO.once
        have hne : c.store.server.log.additions ≠ 1 := by
          intro hone
          rcases hO.gone hone with hnot | ⟨u, hu⟩
          · exact hnot hmem
          · exact hidle u _ hu trivial
        omega
      have hsame : z'.server.log.additions = 0 := by
        rw [hz, additions_record, hnone]
        rfl
      constructor
      · intro u w x' y' hu hw hx' hy'
        rcases update_eq_some hu with ⟨rfl, -⟩ | ⟨-, hu⟩
        · rcases update_eq_some hw with ⟨rfl, -⟩ | ⟨-, hw⟩
          · rfl
          · exact absurd hy' (hidle w y' hw)
        · exact absurd hx' (hidle u x' hu)
      · intro u msg' _
        exact hsame
      · omega
      · intro hone
        omega
  | missed =>
      obtain ⟨s₁, hz, hlog, heff⟩ := execDlq_background hex
      have hs₁ : s₁ = c.store.server := by
        rcases heff with ⟨-, -, rfl⟩ | ⟨-, hrun⟩
        · rfl
        · cases hrun
          rfl
      subst hs₁
      refine hO.leave t (fun _ => Place.not_busy_over) (by rw [hz, additions_record]; rfl)
        (by rw [hz]; exact fun h => h) ?_
      rw [hx]
      nofun
  | @added msg stream maxLen w new hcopy =>
      obtain ⟨s₁, hz, hlog, heff⟩ := execDlq_background hex
      have hone : z'.server.log.additions = 1 := by
        rw [hz, additions_record, hlog, hO.fresh t msg hx]
        rfl
      have halone : ∀ u x', st u = some x' → x'.Busy → u = t :=
        fun u x' hu hbusy => hO.alone u t x' _ hu hx hbusy trivial
      constructor
      · intro u w' x' y' hu hw hx' hy'
        have hu' : u = t := by
          rcases update_eq_some hu with ⟨rfl, -⟩ | ⟨-, hu⟩
          · rfl
          · exact halone u x' hu hx'
        have hw' : w' = t := by
          rcases update_eq_some hw with ⟨rfl, -⟩ | ⟨-, hw⟩
          · rfl
          · exact halone w' y' hw hy'
        rw [hu', hw']
      · intro u msg' hu
        rcases update_eq_some hu with ⟨-, hy'⟩ | ⟨hne, hu⟩
        · cases hy'
        · exact absurd (halone u _ hu trivial) hne
      · omega
      · intro _
        exact Or.inr ⟨t, Function.update_self ..⟩
  | @refused msg stream maxLen w err =>
      obtain ⟨s₁, hz, hlog, heff⟩ := execDlq_background hex
      rcases heff with ⟨-, -, rfl⟩ | ⟨-, hrun⟩
      · refine hO.leave t (fun _ => Place.not_busy_over) (by rw [hz, additions_record]; rfl)
          (by rw [hz]; exact fun h => h) ?_
        rw [hx]
        nofun
      · obtain ⟨hr, -⟩ := runCmd_xAdd hrun
        cases hr
  | deleted =>
      obtain ⟨s₁, hz, hlog, heff⟩ := execDlq_background hex
      rcases heff with ⟨hfail, -, -⟩ | ⟨-, hrun⟩
      · exact absurd (hdelete rfl) hfail
      have hgone : ⟨id, v⟩ ∉ (z'.server.streams D.dlq.streamName).entries := by
        rw [hz]
        exact (hI.letter.xDel hrun).2
      exact hO.leave t (fun _ => Place.not_busy_over) (by rw [hz, additions_record, hlog]; rfl)
        (fun h => absurd h hgone) fun _ => hgone

theorem Once.move {m : Move} (hO : Once D id v s st) (h : move m s = some s') :
    Once D id v s' st := by
  cases m with
  | tick ms =>
      cases h
      exact ⟨hO.alone, hO.fresh, hO.once, hO.gone⟩
  | cancel run =>
      cases h
      have hsame : (s.record none (.cancelled run)).log.additions = s.log.additions := by
        rw [additions_record]
        rfl
      exact ⟨hO.alone, hsame ▸ hO.fresh, hsame ▸ hO.once, hsame ▸ hO.gone⟩

theorem BusyTasks.drop {c : Conf (dlqWorld D)} (hB : BusyTasks c st) (t : Nat) :
    BusyTasks (c.setTask t none) (Function.update st t none) := by
  intro u x hu hbusy
  rcases update_eq_some hu with ⟨-, hnone⟩ | ⟨hut, hu⟩
  · cases hnone
  · obtain ⟨o, k, hk, hrest⟩ := hB u x hu hbusy
    refine ⟨o, k, ?_, hrest⟩
    rw [← hk]
    exact Function.update_of_ne hut ..

/-- Serial calls move the dead letter once. -/
theorem once_keeps {entry : DLQEntry} (hparse : DLQ.parseEntry v = .ok entry)
    (hjob : entry.jobData = some job) :
    (places D id).Keeps (fun c a => OnlyRequeues id c a ∧ Serial c a)
      fun (c : Conf (dlqWorld D)) st => Moving D id v job c.store.server st ∧
        Once D id v c.store.server st ∧ BusyTasks c st where
  call hI hC hs hf := by
    obtain ⟨hM, hO, hB⟩ := hI
    exact ⟨hM.call hparse hjob hs.stage hs.exec hs.next, Once.call hM hO hB hC.2 hs,
      fun t x hx hbusy => Follows.busy hf hx hbusy⟩
  ret hI _ hst hfinal := by
    obtain ⟨hM, hO, hB⟩ := hI
    refine ⟨hM.same _ rfl (fun h => h) nofun nofun, hO.leave _ nofun rfl (fun h => h) ?_, hB.drop _⟩
    intro hdel
    rw [hst] at hdel
    cases hdel
    cases hfinal
  crash hI hC := by
    obtain ⟨hM, hO, hB⟩ := hI
    refine ⟨hM.same _ rfl (fun h => h) nofun nofun, hO.leave _ nofun rfl (fun h => h) ?_, hB.drop _⟩
    intro hdel
    obtain ⟨o, k, hk, -, htrue⟩ := hB _ _ hdel trivial
    have hfalse := hC.2 o k hk
    rw [htrue rfl] at hfalse
    cases hfalse
  env hI _ h := by
    obtain ⟨hM, hO, hB⟩ := hI
    obtain ⟨s₁, hm, rfl⟩ := Option.map_eq_some_iff.mp h
    exact ⟨hM.move hm, hO.move hm, hB⟩
  start hI hfree hC h := by
    obtain ⟨hM, hO, hB⟩ := hI
    obtain ⟨⟨stream, maxLen, rfl⟩, -⟩ := hC
    cases h
    refine ⟨.looking, typed_requeueCall stream maxLen, hM.same _ rfl (fun h => h) nofun nofun,
      hO.leave _ ?_ rfl (fun h => h) ?_, ?_⟩
    · rintro z hz
      cases hz
      exact fun h => h
    · intro hdel
      rw [hfree _ (Nat.le_refl _)] at hdel
      cases hdel
    · intro u x hu hbusy
      rcases update_eq_some hu with ⟨-, hx⟩ | ⟨hut, hu⟩
      · cases hx
        exact hbusy.elim
      · obtain ⟨o, k, hk, hrest⟩ := hB u x hu hbusy
        refine ⟨o, k, ?_, hrest⟩
        rw [← hk]
        exact Function.update_of_ne hut ..

end

-- ============================================================================
-- Runs
-- ============================================================================

/-- The text of a dead letter. -/
def entryText (entry : DLQEntry) : Text :=
  match dlqEntryStruct.marshal entry with
  | .ok text => text
  | .error _ => .json .null

/-- A server with that dead letter. -/
def letterHeld (entry : DLQEntry) : Store :=
  Store.init.setStream (Deployment.ofDefaults true).dlq.streamName
    (heldStream (.of 1 0) zero_lt_first (entryValues (entryText entry)))

theorem mem_letterHeld (entry : DLQEntry) : ⟨.of 1 0, entryValues (entryText entry)⟩ ∈
    ((letterHeld entry).streams (Deployment.ofDefaults true).dlq.streamName).entries := by
  rw [letterHeld, setStream_self]
  exact List.mem_singleton_self _

/-- The dead letter of `someEntry`. -/
def someEntryText : Text := entryText someEntry

@[inherit_doc someEntryText]
def oneLetter : Store := letterHeld someEntry

/-- A call of `Requeue`, onto a partition stream. -/
def requeueCall : Action (dlqWorld (.ofDefaults true)) :=
  .start (.requeue (.of 1 0) "logs:ingest:partition:0" 0)

/-- Two calls, one after the other.  The XADD of the first fails. -/
def retriedCall : List (Action (dlqWorld (.ofDefaults true))) :=
  [requeueCall, .step 0 {}, .step 0 { fail := some "connection reset" }, .step 0 {},
    requeueCall, .step 1 {}, .step 1 { id := .of 2 0 }, .step 1 {}]

/-- Two calls that both read before either adds. -/
def twoCalls : List (Action (dlqWorld (.ofDefaults true))) :=
  [requeueCall, requeueCall, .step 0 {}, .step 1 {}, .step 0 { id := .of 2 0 },
    .step 1 { id := .of 3 0 }, .step 0 {}, .step 1 {}]

/-- The only task is serial as long as its delete does not fail. -/
theorem serial_alone {D : Deployment} {c : Conf (dlqWorld D)} {t : Nat} {ch : Choice}
    (halone : ∀ u ≠ t, c.tasks u = none)
    (hdelete : ∀ (o : Op) k, c.tasks t = some (.call o k) → o.isDelete = true → ch.fail = none) :
    Serial c (.step t ch) := by
  intro o k hk
  refine ⟨fun _ u hu o' k' hk' => ?_, hdelete o k hk⟩
  rw [halone u hu] at hk'
  cases hk'

/-- A step of the first call, while there is no other. -/
theorem serial_first {D : Deployment} {c : Conf (dlqWorld D)} {ch : Choice}
    (hnone : ∀ u, c.tasks (u + 1) = none)
    (hdelete : ∀ (o : Op) k, c.tasks 0 = some (.call o k) → o.isDelete = true → ch.fail = none) :
    Serial c (.step 0 ch) := by
  refine serial_alone (fun u hu => ?_) hdelete
  obtain ⟨v, rfl⟩ := Nat.exists_eq_succ_of_ne_zero hu
  exact hnone v

/-- A step of the second call, when the first is over. -/
theorem serial_second {D : Deployment} {c : Conf (dlqWorld D)} {ch : Choice}
    (hzero : c.tasks 0 = none) (hnone : ∀ u, c.tasks (u + 2) = none) (hfail : ch.fail = none) :
    Serial c (.step 1 ch) := by
  refine serial_alone (fun u hu => ?_) fun _ _ _ _ => hfail
  rcases u with _ | _ | u
  · exact hzero
  · exact absurd rfl hu
  · exact hnone u

end LogPipeline.Cluster
