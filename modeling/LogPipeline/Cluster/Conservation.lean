/-
  LogPipeline.Cluster.Conservation

  No job is lost: with a processor that returns nil only for completed jobs, every
  job that was enqueued is in an undelivered or pending stream entry, completed,
  or in the dead letter queue, in every state of every run (`conservation`).

  Every event that puts the job into a stream is followed.  Its entry stays where
  it is until the job is completed or put into a stream again by a later event
  (`Kept`), so the newest such event, or the completion, is what is left in the
  end.
-/

import LogPipeline.Cluster.Faults

namespace LogPipeline.Cluster

open Conc Go Redis Queue Bootstrap

-- ============================================================================
-- The property
-- ============================================================================

/-- The entry holds the job. -/
def HoldsJob (e : Entry Values) (j : String) : Prop :=
  ∃ job, e.values.job = some job ∧ job.jobID = j

/-- The entry is a dead letter for the job. -/
def HoldsLetter (e : Entry Values) (j : String) : Prop :=
  ∃ entry job, e.values.letter = some entry ∧ entry.jobData = some job ∧ job.jobID = j

/-- The downstream processor returned nil for the job. -/
def Log.Completed (h : Log) (j : String) : Prop := ∃ x ∈ h, x.ev.succeeded = some j

/-- The job is in an entry that its group has not been given, in one that is
    pending, completed, or in the dead letter queue. -/
def Conserved (D : Deployment) (s : Store) (j : String) : Prop :=
  (∃ p, D.IsPartition p ∧ ∃ e ∈ (s.streams (D.partitionStream p)).entries, HoldsJob e j ∧
    (s.streams (D.partitionStream p)).Undelivered (D.partitionGroup p) e.id) ∨
  (∃ p, D.IsPartition p ∧ ∃ e ∈ (s.streams (D.partitionStream p)).entries, HoldsJob e j ∧
    (s.streams (D.partitionStream p)).IsPending (D.partitionGroup p) e.id) ∨
  s.log.Completed j ∨
  (∃ e ∈ (s.streams D.dlq.streamName).entries, HoldsLetter e j)

-- ============================================================================
-- The assumptions
-- ============================================================================

/-- The stream and the fields of an XADD. -/
def Cmd.adds : Cmd → Option (String × Values)
  | .xAdd stream _ v => some (stream, v)
  | _ => none

/-- The XADD of `DLQ.Send`. -/
def Cmd.IsBurial (c : Cmd) : Prop := ∃ x ∈ c.adds, x.2.get "entry" ≠ none

instance (c : Cmd) : Decidable c.IsBurial := inferInstanceAs (Decidable (∃ x ∈ c.adds, _))

/-- The stream of an XADD is a partition stream. -/
def Cmd.ToPartition (D : Deployment) (c : Cmd) : Prop :=
  ∀ x ∈ c.adds, ∃ p ∈ D.partitions, x.1 = D.partitionStream p

instance (D : Deployment) (c : Cmd) : Decidable (c.ToPartition D) :=
  inferInstanceAs (Decidable (∀ x ∈ c.adds, _))

/-- The command trims nothing, does not fail if it is the XADD of `DLQ.Send`, and adds to a
    partition stream if a producer or an operator issues it. -/
def Conserving (D : Deployment) (ch : Choice) (ctx : Ctx) (c : Cmd) : Prop :=
  ch.trim = 0 ∧ (c.IsBurial → ch.fail = none) ∧ (ctx = .background → c.ToPartition D)

instance (D : Deployment) (ch : Choice) (ctx : Ctx) (c : Cmd) : Decidable (Conserving D ch ctx c) :=
  inferInstanceAs (Decidable (_ ∧ _ ∧ _))

/-- Anything may fail but the XADD of `DLQ.Send`; nothing is trimmed; jobs are
    requeued onto partition streams. -/
@[reducible] def queuePolicy (D : Deployment) : Policy (world D) where
  call := fun _ ch o _ => ∀ x ∈ Op.command o, Conserving D ch x.1 x.2
  env := fun _ _ => True
  start := fun _ _ => True
  crash := fun _ _ => True

-- ============================================================================
-- Following one entry
-- ============================================================================

section

variable {D : Deployment} {h : Log}

/-- The event puts the job into a partition stream or into the dead letter queue. -/
def Carries (D : Deployment) (ev : Ev) (j : String) : Prop :=
  ∃ stream e, ev.Adds stream e.id e.values ∧
    ((∃ p, D.IsPartition p ∧ stream = D.partitionStream p ∧ HoldsJob e j) ∨
     (stream = D.dlq.streamName ∧ HoldsLetter e j))

/-- The job is put into a stream again after the event. -/
def Log.CarriedAfter (D : Deployment) (h : Log) (x : Event Ev) (j : String) : Prop :=
  ∃ y ∈ h, x.seq < y.seq ∧ Carries D y.ev j

/-- What the guards of `queuePolicy` say about the log: `DLQ.Send` fails only with
    a context that is done, and jobs go to partition streams. -/
structure QueueLog (D : Deployment) (h : Log) : Prop where
  burial : ∀ h₁ e h₂, h = h₁ ++ e :: h₂ → ∀ run text err now,
    e.ev = .cmd (.worker run) (D.buryCmd text) (.error err) now → Log.Cancelled h₂ run
  partition : ∀ e ∈ h, ∀ stream maxLen v reply now,
    e.ev = .cmd .background (.xAdd stream maxLen v) reply now →
    ∃ p, D.IsPartition p ∧ stream = D.partitionStream p

/-- The entry a delivery is of was added before anything the delivery did. -/
theorem Valid.entry_before (hv : Valid D h) {t : Nat} {d : Delivery} {x y : Event Ev} {v : Values}
    (hd : .started d ∈ h.own t) (hx : x ∈ h) (hadds : x.ev.Adds (D.stream d.run) d.id v)
    (hy : y ∈ h) (hyt : y.tid = some t) (hne : y.ev ≠ .started d) :
    ∃ h₁ h₂, h = h₁ ++ y :: h₂ ∧ x ∈ h₂ := by
  obtain ⟨h₁, h₂, rfl, hv'⟩ := hv.upTo hy
  refine ⟨h₁, h₂, rfl, ?_⟩
  have hown : Log.own (h₁ ++ y :: h₂) t = h₁.own t ++ y.ev :: Log.own h₂ t := by
    rw [Log.own_append, Log.own_cons_self hyt]
  have htrace := hv.trace t
  rw [hown] at hd htrace
  have hd₂ := htrace.started_before hd hne
  obtain ⟨v', ⟨x', hx', hadds'⟩, -⟩ := hv'.1.held hd₂
  have heq : x = x' := hv.adds_unique hx
    (Log.mem_of_before hx') hadds hadds'
  rw [heq]
  exact hx'

/-- An XACK of an entry with a job: the job is completed or carried on. -/
theorem Valid.acked_carried (hv : Valid D h) (hs : Stamped h) (hq : QueueLog D h)
    (hdedup : D.dedup = false) {t : Nat} {d : Delivery} (hset : Settled D d (h.own t))
    (hctx : ¬ h.Cancelled d.run) {x : Event Ev} {v : Values} (hx : x ∈ h)
    (hadds : x.ev.Adds (D.stream d.run) d.id v) :
    h.Completed d.envelope.jobID ∨ h.CarriedAfter D x d.envelope.jobID := by
  have hstart := hset.started
  generalize ho : h.own t = o at hset
  have hlater : ∀ {ctx stream maxLen w id now}, .cmd ctx (.xAdd stream maxLen w) (.ok id) now ∈ o →
      (∀ ev : Ev, ev.Adds stream id w → Carries D ev d.envelope.jobID) →
      h.CarriedAfter D x d.envelope.jobID := by
    intro ctx stream maxLen w id now hmem hcarry
    rw [← ho] at hmem
    obtain ⟨y, hy, hyt, hyev⟩ := Log.mem_own.mp hmem
    obtain ⟨h₁, h₂, rfl, hx₂⟩ := hv.entry_before hstart hx hadds hy hyt (by simp [hyev])
    exact ⟨y, hy, Stamped.lt_of_later hs hx₂, hcarry _ ⟨ctx, maxLen, now, hyev⟩⟩
  cases hset with
  | done hp =>
      left
      cases hp with
      | duplicate now hd => simp [hdedup] at hd
      | fresh now res hd => simp [hdedup] at hd
      | plain res hd =>
          have hmem : .returned d.envelope none ∈ h.own t := by
            rw [ho]
            exact List.mem_cons_self ..
          obtain ⟨y, hy, -, hyev⟩ := Log.mem_own.mp hmem
          exact ⟨y, hy, Ev.succeeded_eq_some.mpr ⟨_, hyev, rfl⟩⟩
  | @copied _ err text id now hp hexh htext =>
      right
      refine hlater (List.mem_cons_self ..) ?_
      intro ev hev
      refine ⟨_, ⟨id, jobValues text⟩, hev, Or.inl ⟨D.partition d.run, ?_, rfl, ?_⟩⟩
      · exact D.isPartition_partition d.run
      · exact ⟨_, job_jobValues htext, rfl⟩
  | @buried _ err text clock reply now hp hexh htext =>
      right
      cases reply with
      | ok id =>
          refine hlater (List.mem_cons_self ..) ?_
          intro ev hev
          refine ⟨_, ⟨id, entryValues text⟩, hev, Or.inr ⟨rfl, ?_⟩⟩
          exact ⟨_, _, letter_entryValues htext, rfl, rfl⟩
      | error e =>
          -- the context was done already, so the XACK cannot have been sent
          exfalso
          have hmem : .cmd (.worker d.run) (D.buryCmd text) (.error e) now ∈ h.own t := by
            rw [ho]
            exact List.mem_cons_self ..
          obtain ⟨y, hy, -, hyev⟩ := Log.mem_own.mp hmem
          obtain ⟨h₁, h₂, rfl⟩ := List.append_of_mem hy
          refine hctx ((hq.burial h₁ y h₂ rfl _ _ _ _ hyev).mono ?_)
          exact fun z hz => Log.mem_of_before hz

/-- An XDEL of a dead letter: the job was put back before. -/
theorem Valid.deleted_carried (hv : Valid D h) (hs : Stamped h) (hq : QueueLog D h) {t : Nat}
    {ctx : Ctx} {stream : String} {id : StreamID}
    (hmay : D.MayIssue (h.own t) ctx (.xDel stream id))
    {x : Event Ev} {v : Values} (hx : x ∈ h) (hadds : x.ev.Adds stream id v) :
    ∃ entry job, v.letter = some entry ∧ entry.jobData = some job ∧
      h.CarriedAfter D x job.jobID := by
  obtain ⟨-, rfl, main, maxLen, text, new, n, msg, rest, now, hown⟩ := hmay
  have hmem : .cmd .background (.xAdd main maxLen (jobValues text)) (.ok new) n ∈ h.own t := by
    rw [hown]
    exact List.mem_cons_self ..
  obtain ⟨y, hy, hyt, hyev⟩ := Log.mem_own.mp hmem
  obtain ⟨h₁, h₂, rfl, hv'⟩ := hv.upTo hy
  -- before the XADD the task had only looked the entry up
  have hown₂ : Log.own h₂ t = [D.fetch id (.ok (msg :: rest)) now] := by
    rw [Log.own_append, Log.own_cons_self hyt, hyev] at hown
    cases hl : Log.own h₁ t with
    | nil =>
        rw [hl] at hown
        exact (List.cons.inj hown).2
    | cons a l =>
        rw [hl] at hown
        obtain ⟨-, hrest⟩ := List.cons.inj hown
        cases l with
        | nil => cases (List.cons.inj hrest).1
        | cons b l =>
            have hlen := congrArg List.length hrest
            simp at hlen
  obtain ⟨u, hu, hmay⟩ := hv'.may (by simp [hyev])
  obtain rfl : t = u := by
    rw [hyt] at hu
    exact Option.some.inj hu
  rw [hyev] at hmay
  have horig : Origin D (Log.own h₂ t) .background (.xAdd main maxLen (jobValues text)) := hmay
  rw [hown₂] at horig
  obtain ⟨entry, job, text', hentry, hjob, hmarshal, htext⟩ := horig.of_fetch
  have hparse := job_jobValues hmarshal
  rw [← htext] at hparse
  have hfetch := (hv'.1.fetched (t := t) (by rw [hown₂]; exact List.mem_cons_self ..)).1
  obtain ⟨x', hx', hadds'⟩ := hfetch
  have heq : x' = x := hv.adds_unique (Log.mem_of_before hx')
    hx hadds' hadds
  subst heq
  have hv' : v = msg.values := hv.added_unique ⟨_, hx, hadds⟩ ⟨_, hx, hadds'⟩
  obtain ⟨p, hp, hmain⟩ := hq.partition y hy _ _ _ _ _ hyev
  have hletter : v.letter = some entry := by
    rw [hv']
    exact letter_of_parseEntry hentry
  refine ⟨entry, job, hletter, hjob, y, hy, Stamped.lt_of_later hs hx', ?_⟩
  refine ⟨main, ⟨new, jobValues text⟩, ⟨_, _, _, hyev⟩, Or.inl ⟨p, hp, hmain, ?_⟩⟩
  exact ⟨_, hparse, rfl⟩

/-- An entry holds a job or a dead letter, not both. -/
theorem Valid.not_both (hv : Valid D h) {x : Event Ev} {stream : String} {id : StreamID}
    {v : Values} {job : JobEnvelope} {entry : DLQEntry} (hx : x ∈ h) (hadds : x.ev.Adds stream id v)
    (hjob : v.job = some job) : v.letter ≠ some entry := by
  obtain ⟨h₁, h₂, -, hv'⟩ := hv.upTo hx
  obtain ⟨t, ctx, maxLen, -, horig⟩ := hv'.origin hadds
  generalize hc : Cmd.xAdd stream maxLen v = c at horig
  generalize Log.own h₂ t = o at horig
  cases horig with
  | enqueue ht =>
      cases hc
      simp
  | copy hp hexh ht =>
      cases hc
      simp
  | bury hp hexh ht =>
      cases hc
      rw [job_entryValues] at hjob
      cases hjob
  | requeue he hj ht =>
      cases hc
      simp

theorem Log.Completed.mono {h' : Log} {j : String} (hc : h.Completed j)
    (hsub : ∀ e ∈ h, e ∈ h') : h'.Completed j := by
  obtain ⟨x, hx, hev⟩ := hc
  exact ⟨x, hsub x hx, hev⟩

theorem Log.CarriedAfter.mono {h' : Log} {x : Event Ev} {j : String} (hc : h.CarriedAfter D x j)
    (hsub : ∀ e ∈ h, e ∈ h') : h'.CarriedAfter D x j := by
  obtain ⟨y, hy, hlt, hev⟩ := hc
  exact ⟨y, hsub y hy, hlt, hev⟩

-- ============================================================================
-- The invariant
-- ============================================================================

/-- What became of the entry that the event added. -/
structure EntryKept (D : Deployment) (s : Store) (x : Event Ev) (stream : String)
    (e : Entry Values) : Prop where
  job : ∀ p j, D.IsPartition p → stream = D.partitionStream p → HoldsJob e j →
    (s.streams stream).Outstanding (D.partitionGroup p) e ∨ s.log.Completed j ∨
      s.log.CarriedAfter D x j
  letter : ∀ j, stream = D.dlq.streamName → HoldsLetter e j →
    e ∈ (s.streams stream).entries ∨ s.log.CarriedAfter D x j

/-- Every entry that was added is kept until the job is completed or carried on. -/
def Kept (D : Deployment) (s : Store) : Prop :=
  ∀ x ∈ s.log, ∀ stream e, x.ev.Adds stream e.id e.values → EntryKept D s x stream e

/-- A step that leaves the streams alone keeps every entry. -/
theorem EntryKept.congr {s s' : Store} {x : Event Ev} {stream : String} {e : Entry Values}
    (hk : EntryKept D s x stream e) (hstr : s'.streams = s.streams)
    (hsub : ∀ y ∈ s.log, y ∈ s'.log) : EntryKept D s' x stream e := by
  refine ⟨?_, ?_⟩
  · intro p j hp hst hj
    rw [hstr]
    rcases hk.job p j hp hst hj with ho | hc | hc
    · exact Or.inl ho
    · exact Or.inr (Or.inl (hc.mono hsub))
    · exact Or.inr (Or.inr (hc.mono hsub))
  · intro j hst hl
    rw [hstr]
    rcases hk.letter j hst hl with he | hc
    · exact Or.inl he
    · exact Or.inr (hc.mono hsub)

/-- An executed command keeps the entries that were there. -/
theorem EntryKept.executed {s s₁ : Store} {t : Nat} {ch : Choice} {ctx : Ctx} {c : Cmd}
    {reply : Except RedisError c.Reply} {x : Event Ev} {stream : String} {e : Entry Values}
    (hk : EntryKept D s x stream e) (hx : x ∈ s.log) (hadds : x.ev.Adds stream e.id e.values)
    (hv : Valid D s.log) (hs : Stamped s.log) (hq : QueueLog D s.log) (hdedup : D.dedup = false)
    (hmay : D.MayIssue (s.log.own t) ctx c) (hctx : ¬ s.log.CtxDone ctx) (htrim : ch.trim = 0)
    (hrun : runCmd ch s c = some (reply, s₁)) :
    EntryKept D (s₁.record (some t) (.cmd ctx c reply s.now)) x stream e := by
  have hsub : ∀ y ∈ s.log, y ∈ (s₁.record (some t) (.cmd ctx c reply s.now)).log := by
    intro y hy
    refine List.mem_cons_of_mem _ ?_
    rw [(runCmd_frame hrun).1]
    exact hy
  have hstep := runCmd_stream hrun stream
  refine ⟨?_, ?_⟩
  · intro p j hp hst hj
    rcases hk.job p j hp hst hj with ho | hc | hc
    · rcases hstep.outstanding htrim ho with ho | rfl | rfl
      · exact Or.inl ho
      · -- the entry is acknowledged
        right
        obtain ⟨d, rfl, hcmd, hset⟩ := hmay
        obtain ⟨hds, -, hdid⟩ := Cmd.xAck.inj hcmd
        obtain ⟨job, hparse, rfl⟩ := hj
        rw [hds, hdid] at hadds
        have hjob : job = d.envelope :=
          hv.hasJob_unique ⟨_, ⟨x, hx, hadds⟩, hparse⟩ (hv.held hset.started).hasJob
        rw [hjob]
        rcases hv.acked_carried hs hq hdedup hset hctx hx hadds with hc | hc
        · exact Or.inl (hc.mono hsub)
        · exact Or.inr (hc.mono hsub)
      · obtain ⟨entry, job', hentry, -⟩ := hv.deleted_carried hs hq hmay hx hadds
        obtain ⟨job, hparse, -⟩ := hj
        exact absurd hentry (hv.not_both hx hadds hparse)
    · exact Or.inr (Or.inl (hc.mono hsub))
    · exact Or.inr (Or.inr (hc.mono hsub))
  · intro j hst hl
    rcases hk.letter j hst hl with he | hc
    · rcases hstep.entry (fun _ _ _ => htrim) he with he | rfl
      · exact Or.inl he
      · -- the dead letter is deleted
        right
        obtain ⟨entry, job, hentry, hjob, hc⟩ := hv.deleted_carried hs hq hmay hx hadds
        obtain ⟨entry', job', hentry', hjob', rfl⟩ := hl
        rw [hentry] at hentry'
        cases hentry'
        rw [hjob] at hjob'
        cases hjob'
        exact hc.mono hsub
    · exact Or.inr (hc.mono hsub)

/-- A new entry is there. -/
theorem EntryKept.added {s s₁ : Store} {t : Nat} {ch : Choice} {ctx : Ctx} {c : Cmd}
    {reply : Except RedisError c.Reply} {stream : String} {e : Entry Values} {y : Event Ev}
    (hrun : runCmd ch s c = some (reply, s₁)) (htrim : ch.trim = 0)
    (hadds : (Ev.cmd ctx c reply s.now).Adds stream e.id e.values) :
    EntryKept D (s₁.record (some t) (.cmd ctx c reply s.now)) y stream e := by
  obtain ⟨_, maxLen, now, hev⟩ := hadds
  cases hev
  simp only [runCmd] at hrun
  split at hrun
  · next hid =>
      split at hrun
      · simp only [Option.some.injEq, Prod.mk.injEq, Except.ok.injEq] at hrun
        obtain ⟨hid', rfl⟩ := hrun
        have heq : (⟨ch.id, e.values⟩ : Entry Values) = e := by rw [hid']
        have hstream : ((s.setStream stream ((s.streams stream).xadd ch.id hid e.values
            ch.trim)).record (some t) (.cmd ctx (.xAdd stream maxLen e.values) (.ok e.id)
            s.now)).streams stream = (s.streams stream).xadd ch.id hid e.values ch.trim :=
          setStream_self ..
        refine ⟨?_, ?_⟩
        · intro p j _ _ _
          left
          rw [hstream, htrim]
          have hout := Stream.outstanding_xadd (s.streams stream) (D.partitionGroup p) ch.id hid
            e.values
          rw [heq] at hout
          exact hout
        · intro j _ _
          left
          rw [hstream, htrim]
          exact Stream.mem_xadd_zero.mpr (Or.inr heq.symm)
      · cases hrun
  · cases hrun

theorem reachable_queueLog {c : Conf (world D)} (hc : (queuePolicy D).Reachable Store.init c) :
    QueueLog D c.store.log := by
  refine ⟨?_, ?_⟩
  · intro h₁ e h₂ hlog run text err now hev
    refine reachable_cmd (G := fun h ev =>
      ev = .cmd (.worker run) (D.buryCmd text) (.error err) now → Log.Cancelled h run)
      ?_ hc hlog ⟨_, _, _, _, hev⟩ hev
    intro x t ch ctx cmd reply s₁ _ hp hans _ hev
    cases hev
    rcases answer_cases hans with ⟨hd, -⟩ | ⟨-, msg, hmsg, -⟩ | ⟨-, -, hrun⟩
    · exact hd
    · have hburial : (D.buryCmd text).IsBurial :=
        ⟨_, rfl, by simp [Values.get, entryValues]⟩
      rw [(hp _ rfl).2.1 hburial] at hmsg
      cases hmsg
    · cases (runCmd_xAdd hrun).1
  · intro e he stream maxLen v reply now hev
    obtain ⟨h₁, h₂, hlog⟩ := List.append_of_mem he
    refine reachable_cmd (G := fun _ ev => ev = .cmd .background (.xAdd stream maxLen v) reply now →
      ∃ p, D.IsPartition p ∧ stream = D.partitionStream p) ?_ hc hlog ⟨_, _, _, _, hev⟩ hev
    intro x t ch ctx cmd reply s₁ _ hp _ _ hev
    cases hev
    obtain ⟨p, hp, hst⟩ := (hp _ rfl).2.2 rfl _ rfl
    exact ⟨p, D.mem_partitions.mp hp, hst⟩

theorem reachable_kept (hdedup : D.dedup = false) {c : Conf (world D)}
    (hc : (queuePolicy D).Reachable Store.init c) : Kept D c.store := by
  refine reachable_invariant ?_ ?_ hc
  · intro x hx
    cases hx
  · intro c s' hc hI hm hv'
    have hq := reachable_queueLog hc
    have hv := (reachable_valid hc).1
    have hs := reachable_stamped hc
    generalize c.store = s at hI hm hq hv hs
    intro x hx stream e hadds
    cases hm with
    | @redis t ch ctx cmd reply s₁ hp hans =>
        obtain ⟨htrim, -⟩ := hp _ rfl
        have hlog := (answer_frame hans).1
        have hmay : D.MayIssue (s.log.own t) ctx cmd := by
          have hmay := hv'.2.2
          rw [hlog] at hmay
          exact hmay
        -- an entry of before, or the one this command adds
        rcases List.mem_cons.mp hx with rfl | hx
        · rcases answer_cases hans with ⟨-, rfl, -⟩ | ⟨-, msg, -, rfl, -⟩ | ⟨-, -, hrun⟩
          · obtain ⟨_, _, _, hev⟩ := hadds
            cases hev
          · obtain ⟨_, _, _, hev⟩ := hadds
            cases hev
          · exact .added hrun htrim hadds
        · rw [hlog] at hx
          have hk := hI x hx stream e hadds
          rcases answer_cases hans with ⟨-, -, rfl⟩ | ⟨-, msg, -, -, rfl⟩ | ⟨hctx, -, hrun⟩
          · exact hk.congr rfl fun y hy => List.mem_cons_of_mem _ hy
          · exact hk.congr rfl fun y hy => List.mem_cons_of_mem _ hy
          · exact hk.executed hx hadds hv hs hq hdedup hmay hctx htrim hrun
    | tick hp => exact (hI x hx stream e hadds).congr rfl fun y hy => hy
    | silent hqt hlog =>
        rw [hlog] at hx
        exact (hI x hx stream e hadds).congr hqt.streams fun y hy => by rw [hlog]; exact hy
    | logged hqt hlog hcmd hmint =>
        rw [hlog] at hx
        rcases List.mem_cons.mp hx with rfl | hx
        · obtain ⟨_, _, _, hev⟩ := hadds
          exact absurd ⟨_, _, _, _, hev⟩ hcmd
        · refine (hI x hx stream e hadds).congr hqt.streams fun y hy => ?_
          rw [hlog]
          exact List.mem_cons_of_mem _ hy

/-- From the newest event that carries the job, one can see where the job is. -/
theorem Kept.conserved {s : Store} (hk : Kept D s) (hs : Stamped s.log) {x : Event Ev} {j : String}
    (hx : x ∈ s.log) (hcar : Carries D x.ev j) : Conserved D s j := by
  -- by induction on the distance to the end of the log
  induction hn : s.log.length - x.seq using Nat.strong_induction_on generalizing x with
  | _ n ih =>
      have hnext : s.log.CarriedAfter D x j → Conserved D s j := by
        rintro ⟨y, hy, hlt, hcar'⟩
        have := hs.seq_lt hy
        exact ih (s.log.length - y.seq) (by omega) hy hcar' rfl
      obtain ⟨stream, e, hadds, ⟨p, hp, rfl, hj⟩ | ⟨rfl, hl⟩⟩ := hcar
      · rcases (hk x hx _ e hadds).job p j hp rfl hj with ⟨he, hu | hpend⟩ | hc | hc
        · exact Or.inl ⟨p, hp, e, he, hj, hu⟩
        · exact Or.inr (Or.inl ⟨p, hp, e, he, hj, hpend⟩)
        · exact Or.inr (Or.inr (Or.inl hc))
        · exact hnext hc
      · rcases (hk x hx _ e hadds).letter j rfl hl with he | hc
        · exact Or.inr (Or.inr (Or.inr ⟨e, he, hl⟩))
        · exact hnext hc

/-- A successful `Enqueue` has put its job into a partition stream. -/
theorem Valid.enqueued_carried (hv : Valid D h) {j : String} (hj : h.Enqueued j) :
    ∃ x ∈ h, Carries D x.ev j := by
  obtain ⟨e, he, t, het, hnote, ev, hev, hmint⟩ := hj
  obtain ⟨id, hid⟩ := Ev.isEnqueued_eq_true.mp hnote
  rw [Ev.mintedID_eq_some] at hmint
  subst hmint
  have htrace := hv.trace t
  have hmem : .noted (.enqueued id) ∈ h.own t := Log.mem_own.mpr ⟨e, he, het, hid⟩
  obtain ⟨o₁, o₂, hown, ⟨stream, maxLen, v, now, uuid, rfl⟩, htrace₂⟩ := htrace.split hmem
  -- a producer makes its uuids before it adds anything
  have hlast : j = uuid := by
    rw [hown] at hev htrace
    rcases List.mem_append.mp hev with hev | hev
    · obtain ⟨a, b, rfl⟩ := List.append_of_mem hev
      rw [List.append_assoc] at htrace
      obtain ⟨u, hu⟩ := htrace.suffix.1 (.noted (.enqueued id)) (by simp)
      cases hu
    · simpa using hev
  subst hlast
  have horig : Origin D [.minted j] .background (.xAdd stream maxLen v) := htrace₂.1
  have hadd : .cmd .background (.xAdd stream maxLen v) (.ok id) now ∈ h.own t := by
    rw [hown]
    simp
  obtain ⟨x, hx, -, hxev⟩ := Log.mem_own.mp hadd
  refine ⟨x, hx, stream, ⟨id, v⟩, ⟨_, _, _, hxev⟩, Or.inl ?_⟩
  generalize hc : Cmd.xAdd stream maxLen v = c at horig
  generalize ho : [Ev.minted j] = o at horig
  cases horig with
  | @enqueue o uuid ev clock text hprod hm ht =>
      cases hc
      subst ho
      cases List.mem_singleton.mp hm
      exact ⟨_, partitionFor_range D.accepted.queue ev.service, streamNameFor_eq ..,
        _, job_jobValues ht, rfl⟩
  | requeue he hj ht => cases ho

/-- No job is lost. -/
theorem conservation (hdedup : D.dedup = false) {c : Conf (world D)}
    (hc : (queuePolicy D).Reachable Store.init c) {j : String} (hj : c.store.log.Enqueued j) :
    Conserved D c.store j := by
  obtain ⟨x, hx, hcar⟩ := (reachable_valid hc).1.enqueued_carried hj
  exact (reachable_kept hdedup hc).conserved (reachable_stamped hc) hx hcar

end

/-- A job that was enqueued before the group existed and failed once; the XACK
    after its copy was added is lost. -/
theorem conservation_lostAck : ∃ c,
    (queuePolicy (.ofDefaults false)).Reachable Store.init c ∧ c.store.log.Enqueued "j" ∧
    Conserved (.ofDefaults false) c.store "j" := by
  obtain ⟨c, hc, hj⟩ : ∃ c, (queuePolicy (.ofDefaults false)).Reachable Store.init c ∧
      c.store.log.Enqueued "j" := Policy.exists_reachable
    ([.start (.enqueue { LogEvent.zero with service := "a" })] ++
      steps 0 5 { uuid := "j", id := .of 1 0 } ++
      [.start .setupPartitions] ++ steps 1 3 ++ [.start (.poll 0 1)] ++ steps 2 5 ++
      [.start (.process 0)] ++ steps 3 4 { result := some "timeout", id := .of 2 0 } ++
      steps 3 2 { fail := some "connection reset" } ++ [.crash 3])
    (by decide +kernel) (by decide +kernel)
  exact ⟨c, hc, hj, conservation rfl hc hj⟩

end LogPipeline.Cluster
