/-
  LogPipeline.Cluster.Programs

  The programs of the pipeline follow the protocol, function by function, and
  with them every run of the deployed system (`reachable_valid`).

  A `safe_` lemma says what the task must have logged when the function is
  entered and what it has logged when the function returns; nothing else that
  happens in between can change that (`own_rely`).
-/

import LogPipeline.Cluster.Refinement

namespace LogPipeline.Cluster

open Conc Go Redis Queue Bootstrap

variable {D : Deployment} {P : Policy (world D)} {t : Nat} {α : Type} {Q : α → Store → Prop}

-- ============================================================================
-- Single calls
-- ============================================================================

/-- What a task has logged is not touched by the others. -/
theorem own_rely {s s' : Store} (h : Rely (world D) t s s') : s'.log.own t = s.log.own t := by
  obtain ⟨ext, hext, hne⟩ := h
  change s'.log = ext ++ s.log at hext
  have hnone : ext.filter (fun e => decide (e.tid = some t)) = [] := by
    rw [List.filter_eq_nil_iff]
    intro e he
    simpa using hne e he
  unfold Log.own
  rw [hext, List.filter_append, hnone, List.nil_append]

theorem own_record (s : Store) (ev : Ev) :
    (s.record (some t) ev).log.own t = ev :: s.log.own t :=
  Log.own_cons_self rfl

theorem log_rely {s s' : Store} (h : Rely (world D) t s s') : ∀ e ∈ s.log, e ∈ s'.log :=
  fun _ he => h.mem he

/-- The rule for a Redis command: it is due, and the task goes on with the command
    and its reply logged. -/
theorem safe_redis {ctx : Ctx} {c : Cmd} {k : Except RedisError c.Reply → Program α} {s : Store}
    {o : List Ev} (ho : s.log.own t = o) (hmay : D.MayIssue o ctx c)
    (hk : ∀ r now s', s'.log.own t = .cmd ctx c r now :: o → Valid D s'.log →
      (∀ e ∈ s.log, e ∈ s'.log) → Safe (outline D P) t Q (k r) s') :
    Safe (outline D P) t Q ((redis ctx c).bind k) s := by
  intro s₁ hr _ hinv
  have ho₁ : s₁.log.own t = o := (own_rely hr).trans ho
  refine ⟨?_, ?_⟩
  · change D.MayIssue (s₁.log.own t) ctx c
    rw [ho₁]
    exact hmay
  · intro ch r s₂ _ hex _ hinv₂
    obtain ⟨s', hans, rfl⟩ := exec_redis (D := D) hex
    have hlog := (answer_frame hans).1
    refine hk r s₁.now _ ?_ hinv₂.1 ?_
    · rw [own_record, hlog, ho₁]
    · intro e he
      refine List.mem_cons_of_mem _ ?_
      rw [hlog]
      exact log_rely hr e he

/-- The rule for the other calls that are logged. -/
theorem safe_logged {o : Op} {k : o.Res → Program α} {s : Store} {own : List Ev}
    (ho : s.log.own t = own) (ev : o.Res → Ev)
    (hpre : ∀ s₁ : Store, s₁.log.own t = own → D.Pre t o s₁)
    (hex : ∀ ch r s₁ s₂, exec D t ch o s₁ = some (r, s₂) →
      ∃ s' : Store, s'.log = s₁.log ∧ s₂ = s'.record (some t) (ev r))
    (hk : ∀ r s', s'.log.own t = ev r :: own → Valid D s'.log →
      Safe (outline D P) t Q (k r) s') :
    Safe (outline D P) t Q ((call o).bind k) s := by
  intro s₁ hr _ hinv
  have ho₁ : s₁.log.own t = own := (own_rely hr).trans ho
  refine ⟨hpre s₁ ho₁, ?_⟩
  intro ch r s₂ _ hx _ hinv₂
  refine hk r s₂ ?_ hinv₂.1
  obtain ⟨s', hlog, rfl⟩ := hex ch r s₁ s₂ hx
  rw [own_record, hlog, ho₁]

/-- The rule for calls that are not logged. -/
theorem safe_silent {o : Op} {k : o.Res → Program α} {s : Store} {own : List Ev}
    (ho : s.log.own t = own)
    (hpre : ∀ s₁ : Store, (∀ e ∈ s.log, e ∈ s₁.log) → D.Pre t o s₁)
    (hex : ∀ ch r s₁ s₂, exec D t ch o s₁ = some (r, s₂) → s₂.log = s₁.log)
    (hk : ∀ r s', s'.log.own t = own → (∀ e ∈ s.log, e ∈ s'.log) →
      Safe (outline D P) t Q (k r) s') :
    Safe (outline D P) t Q ((call o).bind k) s := by
  intro s₁ hr _ _
  refine ⟨hpre s₁ (log_rely hr), ?_⟩
  intro ch r s₂ _ hx _ _
  have hlog := hex ch r s₁ s₂ hx
  refine hk r s₂ ?_ ?_
  · rw [hlog, own_rely hr, ho]
  · rw [hlog]
    exact log_rely hr

theorem safe_now {k : Instant → Program α} {s : Store} {own : List Ev} (ho : s.log.own t = own)
    (hk : ∀ r s', s'.log.own t = own → Safe (outline D P) t Q (k r) s') :
    Safe (outline D P) t Q ((call .now).bind k) s := by
  refine safe_silent ho (fun _ _ => trivial) ?_ (fun r s' h _ => hk r s' h)
  intro ch r s₁ s₂ h
  cases h
  rfl

theorem safe_ctxDone {run : Nat} {k : Bool → Program α} {s : Store} {own : List Ev}
    (ho : s.log.own t = own)
    (hk : ∀ r s', s'.log.own t = own → (∀ e ∈ s.log, e ∈ s'.log) →
      Safe (outline D P) t Q (k r) s') :
    Safe (outline D P) t Q ((call (.ctxDone run)).bind k) s := by
  refine safe_silent ho (fun _ _ => trivial) ?_ hk
  intro ch r s₁ s₂ h
  cases h
  rfl

theorem safe_timerOrDone {run : Nat} {k : Bool → Program α} {s : Store} {own : List Ev}
    (ho : s.log.own t = own)
    (hk : ∀ r s', s'.log.own t = own → Safe (outline D P) t Q (k r) s') :
    Safe (outline D P) t Q ((call (.timerOrDone run)).bind k) s := by
  refine safe_silent ho (fun _ _ => trivial) ?_ (fun r s' h _ => hk r s' h)
  intro ch r s₁ s₂ h
  cases h
  rfl

theorem safe_semAcquire {run : Nat} {k : Bool → Program α} {s : Store} {own : List Ev}
    (ho : s.log.own t = own)
    (hk : ∀ r s', s'.log.own t = own → (∀ e ∈ s.log, e ∈ s'.log) →
      Safe (outline D P) t Q (k r) s') :
    Safe (outline D P) t Q ((call (.semAcquire run)).bind k) s := by
  refine safe_silent ho (fun _ _ => trivial) ?_ hk
  intro ch r s₁ s₂ h
  simp only [exec] at h
  split at h
  · cases h
    rfl
  · split at h <;> cases h
    rfl

theorem safe_goProcess {run : Nat} {e : JobEnvelope} {id : StreamID} {k : Unit → Program α}
    {s : Store} {own : List Ev} (ho : s.log.own t = own) (hd : Held D s.log ⟨run, e, id⟩)
    (hk : ∀ r s', s'.log.own t = own → (∀ e ∈ s.log, e ∈ s'.log) →
      Safe (outline D P) t Q (k r) s') :
    Safe (outline D P) t Q ((call (.goProcess run e id)).bind k) s := by
  refine safe_silent ho (fun s₁ hsub => hd.mono hsub) ?_ hk
  intro ch r s₁ s₂ h
  cases h
  rfl

theorem safe_jobBegin {run : Nat} {k : Unit → Program α} {s : Store} {own : List Ev}
    (ho : s.log.own t = own)
    (hk : ∀ r s', s'.log.own t = own → Safe (outline D P) t Q (k r) s') :
    Safe (outline D P) t Q ((call (.jobBegin run)).bind k) s := by
  refine safe_silent ho (fun _ _ => trivial) ?_ (fun r s' h _ => hk r s' h)
  intro ch r s₁ s₂ h
  cases h
  rfl

theorem safe_jobDone {run : Nat} {k : Unit → Program α} {s : Store} {own : List Ev}
    (ho : s.log.own t = own)
    (hk : ∀ r s', s'.log.own t = own → Safe (outline D P) t Q (k r) s') :
    Safe (outline D P) t Q ((call (.jobDone run)).bind k) s := by
  refine safe_silent ho (fun _ _ => trivial) ?_ (fun r s' h _ => hk r s' h)
  intro ch r s₁ s₂ h
  cases h
  rfl

-- ============================================================================
-- Processing
-- ============================================================================

/-- The downstream call logs its beginning and its result. -/
theorem safe_callDownstream {s : Store} {o : List Ev} {e : JobEnvelope}
    (ho : s.log.own t = o) (hmay : D.May o (.invoked e)) :
    Safe (outline D P) t (fun res s' => s'.log.own t = .returned e res :: .invoked e :: o)
      (callDownstream e) s := by
  unfold callDownstream
  refine safe_logged ho (fun _ => .invoked e) ?_ ?_ ?_
  · intro s₁ ho₁
    change D.May (s₁.log.own t) (.invoked e)
    rw [ho₁]
    exact hmay
  · intro ch r s₁ s₂ h
    cases h
    exact ⟨s₁, rfl, rfl⟩
  · intro _ s' ho' _
    refine safe_logged ho' (fun res => .returned e res) (fun s₁ ho₁ => ⟨o, ho₁⟩) ?_ ?_
    · intro ch r s₁ s₂ h
      cases h
      exact ⟨s₁, rfl, rfl⟩
    · intro res s'' ho'' _
      exact ho''

/-- `Process` of either processor. -/
theorem safe_process {s : Store} {d : Delivery} (ho : s.log.own t = [.started d]) :
    Safe (outline D P) t (fun res s' => Processed D d res (s'.log.own t))
      (D.processor.process d.envelope) s := by
  unfold Deployment.processor
  cases hd : D.dedup with
  | false =>
      simp only [Bool.false_eq_true, if_false, Processor.process]
      refine (safe_callDownstream ho ⟨d, rfl, Or.inr ⟨hd, rfl⟩⟩).mono ?_
      intro res s' ho'
      rw [ho']
      exact .plain res hd
  | true =>
      simp only [if_true, Processor.process]
      unfold dedupProcess
      refine safe_redis ho (Or.inl ⟨hd, rfl, d, rfl, rfl, rfl, rfl⟩) ?_
      intro r now s' ho' _ _
      cases r with
      | error err =>
          change Processed D d _ (s'.log.own t)
          rw [ho']
          exact .unchecked err now hd
      | ok wasNew =>
          cases wasNew with
          | false =>
              change Processed D d _ (s'.log.own t)
              rw [ho']
              exact .duplicate now hd
          | true =>
              refine (safe_callDownstream ho' ⟨d, rfl, Or.inl ⟨hd, now, rfl⟩⟩).mono ?_
              intro res s'' ho''
              rw [ho'']
              exact .fresh now res hd

-- ============================================================================
-- Settling a message
-- ============================================================================

theorem worker_consumer (D : Deployment) (run : Nat) :
    (D.worker run).consumer =
      ⟨D.stream run, D.group run, D.workerID run, some D.dlq⟩ := rfl

/-- A delivery that was processed has started. -/
theorem Processed.started {d : Delivery} {res : Option String} {o : List Ev}
    (hp : Processed D d res o) : .started d ∈ o := by
  cases hp <;> simp

theorem Settled.started {d : Delivery} {o : List Ev} (hs : Settled D d o) : .started d ∈ o := by
  cases hs with
  | done hp => exact hp.started
  | copied hp _ _ => exact List.mem_cons_of_mem _ hp.started
  | buried hp _ _ => exact List.mem_cons_of_mem _ hp.started

theorem safe_ack {s : Store} {d : Delivery} (hs : Settled D d (s.log.own t)) :
    Safe (outline D P) t (fun _ s' => Ended D d (s'.log.own t))
      ((D.worker d.run).consumer.ack (.worker d.run) d.id) s := by
  unfold Consumer.ack
  refine safe_redis rfl ⟨d, rfl, rfl, hs⟩ ?_
  intro r now s' ho' _ _
  have hended : Ended D d (s'.log.own t) := by
    rw [ho']
    exact .acked hs
  cases r with
  | error err => exact hended
  | ok n => exact hended

/-- An envelope that can be marshalled still can after a failed attempt. -/
theorem marshal_failed {d : Delivery} (he : d.envelope.Encodable) (err : String) :
    ∃ text, envelopeStruct.marshal (d.failed err) = .ok text := by
  have hf : (d.failed err).Encodable := he
  exact JobEnvelope.marshal_ok_iff.mpr hf

theorem marshal_deadLetter {d : Delivery} (he : d.envelope.Encodable) (err : String)
    (now : Instant) : ∃ text, dlqEntryStruct.marshal (d.deadLetter err now) = .ok text := by
  have hf : (d.deadLetter err now).Encodable := by
    rintro e ⟨⟩
    exact he
  exact DLQEntry.marshal_ok_iff.mpr hf

/-- Giving up sends the job to the dead letter queue, and goes on to the
    acknowledgement whether or not that worked. -/
theorem safe_giveUp {s : Store} {d : Delivery} {err : String} (he : d.envelope.Encodable)
    (hp : Processed D d (some err) (s.log.own t)) (hx : d.Exhausted) :
    Safe (outline D P) t (fun _ s' => Settled D d (s'.log.own t))
      ((D.worker d.run).consumer.giveUp (.worker d.run) (d.failed err) d.id err) s := by
  unfold Consumer.giveUp
  simp only [worker_consumer]
  refine safe_now rfl ?_
  intro now s₁ ho₁
  obtain ⟨text, ht⟩ := marshal_deadLetter he err now
  unfold DLQ.send
  have ht' : dlqEntryStruct.marshal
      { originalStreamID := d.id.toString, jobData := some (d.failed err), failureReason := err,
        sentToDLQAt := now.unix } = .ok text := ht
  simp only [Prog.bind_eq, ht']
  refine safe_redis (c := D.buryCmd text) ho₁ (Origin.bury hp hx ht) ?_
  intro r n s₂ ho₂ _ _
  have hsettled : Settled D d (s₂.log.own t) := by
    rw [ho₂]
    exact .buried hp hx ht
  cases r with
  | error e => exact hsettled
  | ok id => exact hsettled

/-- `Retry`. -/
theorem safe_retry {s : Store} {d : Delivery} {err : String} (he : d.envelope.Encodable)
    (hp : Processed D d (some err) (s.log.own t)) :
    Safe (outline D P) t (fun _ s' => Ended D d (s'.log.own t))
      ((D.worker d.run).consumer.retry (.worker d.run) d.envelope d.id err) s := by
  unfold Consumer.retry
  simp only [Prog.bind_eq]
  by_cases hx : d.Exhausted
  · have hx' : (Consumer.failedOnce d.envelope err).retryCount ≥
        (Consumer.failedOnce d.envelope err).maxRetries := hx
    rw [if_pos hx']
    exact Safe.seq (safe_giveUp he hp hx) fun _ s' hs => safe_ack hs
  · have hx' : ¬ (Consumer.failedOnce d.envelope err).retryCount ≥
        (Consumer.failedOnce d.envelope err).maxRetries := hx
    rw [if_neg hx']
    obtain ⟨text, ht⟩ := marshal_failed he err
    have hargs : buildXAddArgs (D.worker d.run).consumer.streamName 0
        (Consumer.failedOnce d.envelope err) = .ok ⟨D.stream d.run, 0, jobValues text⟩ := by
      unfold buildXAddArgs
      have ht' : envelopeStruct.marshal (Consumer.failedOnce d.envelope err) = .ok text := ht
      simp only [ht']
      rfl
    simp only [hargs]
    refine safe_redis rfl (Origin.copy hp hx ht) ?_
    intro r n s₁ ho₁ _ _
    cases r with
    | error e =>
        change Ended D d (s₁.log.own t)
        rw [ho₁]
        exact .stuck hp hx ht
    | ok id =>
        refine safe_ack ?_
        rw [ho₁]
        exact .copied hp hx ht

/-- `processMessage`. -/
theorem safe_processMessage {s : Store} {d : Delivery} (he : d.envelope.Encodable)
    (ho : s.log.own t = [.started d]) :
    Safe (outline D P) t (fun _ s' => Ended D d (s'.log.own t))
      ((D.worker d.run).processMessage d.envelope d.id) s := by
  unfold Worker.processMessage
  simp only [Prog.bind_eq, Prog.pure_eq]
  refine Safe.seq (safe_process ho) ?_
  intro res s' hp
  cases res with
  | some err => exact Safe.seq (safe_retry he hp) fun _ s'' h => h
  | none => exact Safe.seq (safe_ack (.done hp)) fun _ s'' h => h

/-- The goroutine of one delivery. -/
theorem safe_jobGoroutine {s : Store} {d : Delivery} (he : d.envelope.Encodable)
    (ho : s.log.own t = [.started d]) :
    Safe (outline D P) t (fun _ _ => True)
      ((D.worker d.run).jobGoroutine d.envelope d.id) s := by
  unfold Worker.jobGoroutine
  refine safe_jobBegin ho ?_
  intro _ s₁ ho₁
  refine Safe.seq (safe_processMessage he ho₁) ?_
  intro _ s₂ hended
  refine safe_jobDone rfl ?_
  intro _ s₃ ho₃
  rw [← ho₃] at hended
  refine safe_logged rfl (fun _ => .finished (D.worker d.run).run) ?_ ?_
    (fun _ _ _ _ => trivial)
  · intro s₄ ho₄
    exact ⟨d, rfl, by rw [ho₄]; exact hended⟩
  · intro ch r s₄ s₅ h
    cases h
    refine ⟨_, ?_, rfl⟩
    rfl

-- ============================================================================
-- The loops of a worker
-- ============================================================================

/-- The claimed messages of a run, as deliveries of entries that were added. -/
def AllHeld (D : Deployment) (h : Log) (run : Nat) (msgs : List (JobEnvelope × StreamID)) : Prop :=
  ∀ m ∈ msgs, Held D h ⟨run, m.1, m.2⟩

theorem AllHeld.mono {h h' : Log} {run : Nat} {msgs : List (JobEnvelope × StreamID)}
    (ha : AllHeld D h run msgs) (hsub : ∀ e ∈ h, e ∈ h') : AllHeld D h' run msgs :=
  fun m hm => (ha m hm).mono hsub

theorem idle_cons_cmd {o : List Ev} {ctx : Ctx} {c : Cmd} {r : Except RedisError c.Reply}
    {now : Nat} (ho : Deployment.Idle o) : Deployment.Idle (.cmd ctx c r now :: o) := by
  intro d hd
  rcases List.mem_cons.mp hd with hd | hd
  · cases hd
  · exact ho d hd

/-- A task's newest event was served. -/
theorem served_newest {h : Log} {ev : Ev} {o : List Ev} (hv : Valid D h)
    (ho : h.own t = ev :: o) : ∃ h', (∀ e ∈ h', e ∈ h) ∧ Served D h' ev := by
  have hmem : ev ∈ h.own t := by
    rw [ho]
    exact List.mem_cons_self ..
  obtain ⟨e, he, -, rfl⟩ := Log.mem_own.mp hmem
  obtain ⟨h₁, h₂, rfl, hv'⟩ := hv.upTo he
  exact ⟨h₂, fun x hx => Log.mem_of_before hx, hv'.served⟩

theorem held_of_parseMessage {h : Log} {run : Nat} {msg : Entry Values} {e : JobEnvelope}
    {id : StreamID} (ha : h.Added (D.stream run) msg.id msg.values)
    (hp : Consumer.parseMessage msg = .ok (e, id)) : Held D h ⟨run, e, id⟩ := by
  obtain ⟨hjob, rfl⟩ := parseMessage_eq_ok.mp hp
  exact ⟨msg.values, ha, hjob⟩

theorem safe_consume (run : Nat) {s : Store} {block : Duration}
    (ho : Deployment.Idle (s.log.own t)) :
    Safe (outline D P) t
      (fun res s' => Deployment.Idle (s'.log.own t) ∧
        ∀ e id, res = .ok (some (e, id)) → Held D s'.log ⟨run, e, id⟩)
      ((D.worker run).consumer.consume (.worker run) block) s := by
  unfold Consumer.consume
  refine safe_redis rfl ho ?_
  intro r now s' ho' hv _
  have hidle : Deployment.Idle (s'.log.own t) := by
    rw [ho']
    exact idle_cons_cmd ho
  obtain ⟨h', hsub, hserved⟩ := served_newest hv ho'
  match r with
  | .error .nil => exact ⟨hidle, fun e id h => nomatch h⟩
  | .error (.server msg) => exact ⟨hidle, fun e id h => nomatch h⟩
  | .error .context => exact ⟨hidle, fun e id h => nomatch h⟩
  | .ok [] => exact ⟨hidle, fun e id h => nomatch h⟩
  | .ok (msg :: rest) =>
      refine ⟨hidle, ?_⟩
      intro e id hres
      have hadded : s'.log.Added (D.stream run) msg.id msg.values :=
        (hserved.2 msg (List.mem_cons_self ..)).mono hsub
      cases hp : Consumer.parseMessage msg with
      | error err =>
          rw [hp] at hres
          cases hres
      | ok m =>
          rw [hp] at hres
          cases hres
          exact held_of_parseMessage hadded hp

theorem safe_pollLoop {run : Nat} (rounds : Nat) {s : Store}
    (ho : Deployment.Idle (s.log.own t)) :
    Safe (outline D P) t (fun _ _ => True) ((D.worker run).pollLoop rounds) s := by
  induction rounds generalizing s with
  | zero => trivial
  | succ rounds ih =>
      unfold Worker.pollLoop
      refine safe_ctxDone rfl ?_
      intro r s₁ ho₁ _
      split
      · trivial
      · refine Safe.seq (safe_consume run (by rw [ho₁]; exact ho)) ?_
        rintro res s₂ ⟨ho₂, hheld⟩
        match res with
        | .error err =>
            refine safe_timerOrDone rfl ?_
            intro r s₃ ho₃
            split
            · trivial
            · exact ih (by rw [ho₃]; exact ho₂)
        | .ok none => exact ih ho₂
        | .ok (some (e, id)) =>
            refine safe_semAcquire rfl ?_
            intro r s₃ ho₃ hsub
            split
            · refine safe_goProcess rfl ((hheld e id rfl).mono hsub) ?_
              intro _ s₄ ho₄ _
              exact ih (by rw [ho₄, ho₃]; exact ho₂)
            · trivial

theorem safe_dispatchAll {run : Nat} (msgs : List (JobEnvelope × StreamID)) {s : Store}
    (ho : Deployment.Idle (s.log.own t)) (hheld : AllHeld D s.log run msgs) :
    Safe (outline D P) t (fun _ s' => Deployment.Idle (s'.log.own t))
      ((D.worker run).dispatchAll msgs) s := by
  induction msgs generalizing s with
  | nil => exact ho
  | cons m msgs ih =>
      unfold Worker.dispatchAll
      refine safe_semAcquire rfl ?_
      intro r s₁ ho₁ hsub
      split
      · have hall := hheld.mono hsub
        refine safe_goProcess rfl (hall m (List.mem_cons_self ..)) ?_
        intro _ s₂ ho₂ hsub₂
        refine ih (by rw [ho₂, ho₁]; exact ho) ?_
        exact AllHeld.mono (fun x hx => hall x (List.mem_cons_of_mem _ hx)) hsub₂
      · change Deployment.Idle (s₁.log.own t)
        rw [ho₁]
        exact ho

theorem allHeld_parsed {h : Log} {run : Nat} {msgs : List (Entry Values)}
    (ha : ∀ m ∈ msgs, h.Added (D.stream run) m.id m.values) :
    AllHeld D h run (Consumer.parsed msgs) := by
  rintro ⟨e, id⟩ hm
  obtain ⟨msg, hmsg, hp⟩ := List.mem_filterMap.mp hm
  cases hpm : Consumer.parseMessage msg with
  | error err =>
      rw [hpm] at hp
      cases hp
  | ok m =>
      rw [hpm] at hp
      cases hp
      exact held_of_parseMessage (ha msg hmsg) hpm

/-- What `ReclaimStale` hands back when it has claimed something. -/
def Reclaimed (D : Deployment) (t run : Nat)
    (res : Option (List (JobEnvelope × StreamID) × Option String)) (s : Store) : Prop :=
  Deployment.Idle (s.log.own t) ∧ ∀ all err, res = some (all, err) → AllHeld D s.log run all

theorem safe_reclaimPages (run pages : Nat) {idle : Duration} {batch : Int64}
    {cursor : StreamID} {all : List (JobEnvelope × StreamID)} {s : Store}
    (ho : Deployment.Idle (s.log.own t)) (hheld : AllHeld D s.log run all) :
    Safe (outline D P) t (Reclaimed D t run)
      ((D.worker run).consumer.reclaimPages run idle batch pages cursor all) s := by
  induction pages generalizing s cursor all with
  | zero => exact ⟨ho, fun all err h => nomatch h⟩
  | succ pages ih =>
      unfold Consumer.reclaimPages
      refine safe_redis rfl ho ?_
      intro r now s₁ ho₁ hv hsub
      have hidle : Deployment.Idle (s₁.log.own t) := by
        rw [ho₁]
        exact idle_cons_cmd ho
      have hall := hheld.mono hsub
      obtain ⟨h', hsub', hserved⟩ := served_newest hv ho₁
      match r with
      | .error .nil =>
          refine ⟨hidle, ?_⟩
          rintro _ _ ⟨⟩
          exact hall
      | .error (.server msg) =>
          refine ⟨hidle, ?_⟩
          rintro _ _ ⟨⟩
          exact hall
      | .error .context =>
          refine ⟨hidle, ?_⟩
          rintro _ _ ⟨⟩
          exact hall
      | .ok (msgs, next) =>
          have hnew : AllHeld D s₁.log run (all ++ Consumer.parsed msgs) := by
            intro m hm
            rcases List.mem_append.mp hm with hm | hm
            · exact hall m hm
            · exact allHeld_parsed (fun x hx => (hserved.2 x hx).mono hsub') m hm
          by_cases hz : next = .zero
          · simp only [if_pos hz]
            refine ⟨hidle, ?_⟩
            rintro _ _ ⟨⟩
            exact hnew
          · simp only [if_neg hz]
            refine safe_ctxDone rfl ?_
            intro r s₂ ho₂ hsub₂
            split
            · refine ⟨by rw [ho₂]; exact hidle, ?_⟩
              rintro _ _ ⟨⟩
              exact hnew.mono hsub₂
            · exact ih (by rw [ho₂]; exact hidle) (hnew.mono hsub₂)

theorem safe_reclaimStale {run pages : Nat} {s : Store} (ho : Deployment.Idle (s.log.own t)) :
    Safe (outline D P) t (fun _ s' => Deployment.Idle (s'.log.own t))
      ((D.worker run).reclaimStale pages) s := by
  unfold Worker.reclaimStale Consumer.reclaimStale
  refine Safe.seq (safe_reclaimPages run pages ho (fun m hm => nomatch hm)) ?_
  rintro res s' ⟨ho', hheld⟩
  match res with
  | none => exact ho'
  | some (_, some err) => exact ho'
  | some (claimed, none) =>
      exact Safe.seq (safe_dispatchAll claimed ho' (hheld _ _ rfl)) fun _ s'' h => h

theorem safe_tryReclaim {run pages : Nat} {s : Store} (ho : Deployment.Idle (s.log.own t)) :
    Safe (outline D P) t (fun _ s' => Deployment.Idle (s'.log.own t))
      ((D.worker run).tryReclaim pages) s := by
  unfold Worker.tryReclaim
  refine safe_redis rfl (Or.inr ⟨ho, _, rfl⟩) ?_
  intro r now s' ho' _ _
  have hidle : Deployment.Idle (s'.log.own t) := by
    rw [ho']
    exact idle_cons_cmd ho
  cases r with
  | error err => exact hidle
  | ok acquired =>
      cases acquired with
      | false => exact hidle
      | true => exact safe_reclaimStale hidle

theorem safe_reclaimTicks {run pages : Nat} (ticks : Nat) {s : Store}
    (ho : Deployment.Idle (s.log.own t)) :
    Safe (outline D P) t (fun _ _ => True) ((D.worker run).reclaimTicks pages ticks) s := by
  induction ticks generalizing s with
  | zero => trivial
  | succ ticks ih =>
      unfold Worker.reclaimTicks
      refine safe_timerOrDone rfl ?_
      intro r s₁ ho₁
      split
      · trivial
      · exact Safe.seq (safe_tryReclaim (by rw [ho₁]; exact ho)) fun _ s₂ ho₂ => ih ho₂

theorem safe_reclaimLoop {run pages ticks : Nat} {s : Store}
    (ho : Deployment.Idle (s.log.own t)) :
    Safe (outline D P) t (fun _ _ => True) ((D.worker run).reclaimLoop pages ticks) s := by
  unfold Worker.reclaimLoop
  exact Safe.seq (safe_tryReclaim ho) fun _ s' ho' => safe_reclaimTicks ticks ho'

-- ============================================================================
-- Producers, operators and the set-up
-- ============================================================================

theorem buildXAddArgs_ok {stream : String} {maxLen : Int64} {e : JobEnvelope} {args : XAddArgs}
    (h : buildXAddArgs stream maxLen e = .ok args) :
    ∃ text, envelopeStruct.marshal e = .ok text ∧ args = ⟨stream, maxLen, jobValues text⟩ := by
  unfold buildXAddArgs at h
  split at h
  · cases h
  · next text ht =>
      cases h
      exact ⟨text, ht, rfl⟩

theorem safe_uuid {k : String → Program α} {s : Store} {us : List String}
    (ho : s.log.own t = us.map .minted)
    (hk : ∀ u s', s'.log.own t = (u :: us).map .minted → Safe (outline D P) t Q (k u) s') :
    Safe (outline D P) t Q ((call .uuid).bind k) s := by
  refine safe_logged ho (fun u => .minted u) ?_ ?_ (fun u s' h _ => hk u s' h)
  · intro s₁ ho₁ ev hev
    rw [ho₁] at hev
    obtain ⟨u, -, rfl⟩ := List.mem_map.mp hev
    exact ⟨u, rfl⟩
  · intro ch r s₁ s₂ h
    cases h
    exact ⟨s₁, rfl, rfl⟩

theorem safe_note {n : Note} {s : Store} (hmay : D.May (s.log.own t) (.noted n)) :
    Safe (outline D P) t (fun _ _ => True) (call (.note n)) s := by
  refine safe_logged rfl (fun _ => .noted n) ?_ ?_ (fun _ _ _ _ => trivial)
  · intro s₁ ho₁
    change D.May (s₁.log.own t) (.noted n)
    rw [ho₁]
    exact hmay
  · intro ch r s₁ s₂ h
    cases h
    exact ⟨s₁, rfl, rfl⟩

theorem safe_buildJobEnvelope {ev : LogEvent} {s : Store} (us : List String)
    (ho : s.log.own t = us.map .minted) :
    Safe (outline D P) t
      (fun e s' => ∃ uuid clock, e = D.newEnvelope uuid ev clock ∧
        s'.log.own t = (uuid :: us).map .minted)
      (buildJobEnvelope ev D.cfg.queue.redisMaxRetries) s := by
  unfold buildJobEnvelope
  refine safe_uuid ho ?_
  intro uuid s₁ ho₁
  refine safe_now ho₁ ?_
  intro clock s₂ ho₂
  exact ⟨uuid, clock, rfl, ho₂⟩

theorem producing_minted (us : List String) : Producing (us.map .minted) := by
  intro ev hev
  obtain ⟨u, -, rfl⟩ := List.mem_map.mp hev
  exact Or.inl ⟨u, rfl⟩

/-- `Enqueue` returns an id only when its XADD was executed. -/
theorem safe_enqueue {ev : LogEvent} {s : Store} (ho : s.log.own t = []) :
    Safe (outline D P) t
      (fun res s' => ∀ id, res = .ok id → D.May (s'.log.own t) (.noted (.enqueued id)))
      (enqueue D.cfg.queue .background ev) s := by
  unfold enqueue
  refine Safe.seq (safe_buildJobEnvelope [] ho) ?_
  rintro e s₁ ⟨uuid, clock, rfl, ho₁⟩
  cases hargs : buildXAddArgs (streamNameFor D.cfg.queue ev.service) D.cfg.queue.maxLen
      (D.newEnvelope uuid ev clock) with
  | error err => exact fun id h => nomatch h
  | ok args =>
      obtain ⟨text, ht, rfl⟩ := buildXAddArgs_ok hargs
      refine safe_redis ho₁ (Origin.enqueue (producing_minted _) (by simp) ht) ?_
      intro r now s₂ ho₂ _ _
      cases r with
      | error err => exact fun id h => nomatch h
      | ok id =>
          rintro _ ⟨⟩
          exact ⟨_, _, _, _, _, ho₂⟩

theorem safe_enqueueAndNote {ev : LogEvent} {s : Store} (ho : s.log.own t = []) :
    Safe (outline D P) t (fun _ _ => True) (enqueueAndNote D ev) s := by
  unfold enqueueAndNote
  refine Safe.seq (safe_enqueue ho) ?_
  intro res s' hmay
  cases res with
  | error err => trivial
  | ok id => exact safe_note (hmay id rfl)

/-- The arguments of an XADD of a producer that has made these uuids. -/
def BatchArgs (D : Deployment) (us : List String) (args : XAddArgs) : Prop :=
  ∃ uuid ∈ us, ∃ ev clock text, envelopeStruct.marshal (D.newEnvelope uuid ev clock) = .ok text ∧
    args = ⟨streamNameFor D.cfg.queue ev.service, D.cfg.queue.maxLen, jobValues text⟩

/-- The first loop of `EnqueueBatch` makes one uuid for each event and sends
    nothing. -/
theorem safe_buildBatch (evs : List LogEvent) {s : Store} (us : List String)
    (ho : s.log.own t = us.map .minted) :
    Safe (outline D P) t
      (fun res s' => ∀ batch, res = .ok batch → ∃ us', s'.log.own t = us'.map .minted ∧
        (∀ u ∈ us, u ∈ us') ∧ ∀ args ∈ batch, BatchArgs D us' args)
      (buildBatch D.cfg.queue evs) s := by
  induction evs generalizing s us with
  | nil =>
      rintro _ ⟨⟩
      exact ⟨us, ho, fun _ hu => hu, by simp⟩
  | cons ev evs ih =>
      unfold buildBatch
      refine Safe.seq (safe_buildJobEnvelope us ho) ?_
      rintro e s₁ ⟨uuid, clock, rfl, ho₁⟩
      cases hargs : buildXAddArgs (streamNameFor D.cfg.queue ev.service) D.cfg.queue.maxLen
          (D.newEnvelope uuid ev clock) with
      | error err => exact fun batch h => nomatch h
      | ok args =>
          obtain ⟨text, ht, rfl⟩ := buildXAddArgs_ok hargs
          refine Safe.seq (ih _ ho₁) ?_
          intro res s₂ hrest
          cases res with
          | error err => exact fun batch h => nomatch h
          | ok batch =>
              rintro _ ⟨⟩
              obtain ⟨us', ho₂, hsub, hbatch⟩ := hrest batch rfl
              have huuid : uuid ∈ us' := hsub uuid (List.mem_cons_self ..)
              refine ⟨us', ho₂, fun u hu => hsub u (List.mem_cons_of_mem _ hu), ?_⟩
              intro args hmem
              rcases List.mem_cons.mp hmem with rfl | hmem
              · exact ⟨uuid, huuid, ev, clock, text, ht, rfl⟩
              · exact hbatch args hmem

/-- The pipeline of `EnqueueBatch`. -/
theorem safe_execPipeline {us : List String} (batch : List XAddArgs) {s : Store} {o : List Ev}
    (hbatch : ∀ args ∈ batch, BatchArgs D us args) (ho : s.log.own t = o) (hprod : Producing o)
    (hus : ∀ u ∈ us, .minted u ∈ o) :
    Safe (outline D P) t (fun _ _ => True) (execPipeline .background batch) s := by
  induction batch generalizing s o with
  | nil => trivial
  | cons args batch ih =>
      unfold execPipeline
      obtain ⟨uuid, hu, ev, clock, text, ht, rfl⟩ := hbatch args (List.mem_cons_self ..)
      refine safe_redis ho (Origin.enqueue hprod (hus uuid hu) ht) ?_
      intro r now s₁ ho₁ _ _
      refine Safe.seq (ih (fun a ha => hbatch a (List.mem_cons_of_mem _ ha)) ho₁ ?_ ?_)
        fun _ _ _ => trivial
      · intro ev hev
        rcases List.mem_cons.mp hev with rfl | hev
        · exact Or.inr ⟨_, _, _, _, _, _, rfl⟩
        · exact hprod ev hev
      · exact fun u hu => List.mem_cons_of_mem _ (hus u hu)

theorem safe_enqueueBatch {evs : List LogEvent} {s : Store} (ho : s.log.own t = []) :
    Safe (outline D P) t (fun _ _ => True) (enqueueBatch D.cfg.queue .background evs) s := by
  unfold enqueueBatch
  split
  · trivial
  · refine Safe.seq (safe_buildBatch evs [] ho) ?_
    intro res s₁ hres
    cases res with
    | error err => trivial
    | ok batch =>
        obtain ⟨us, ho₁, -, hbatch⟩ := hres batch rfl
        refine Safe.seq (safe_execPipeline batch hbatch ho₁ (producing_minted us) ?_) ?_
        · exact fun u hu => List.mem_map_of_mem hu
        · intro replies s₂ _
          cases replies.mapM id with
          | error err => trivial
          | ok ids => trivial

/-- The look-up of a dead letter entry. -/
theorem safe_get {id : StreamID} {s : Store} (ho : s.log.own t = []) :
    Safe (outline D P) t
      (fun res s' => ∀ entry, res = .ok entry → ∃ msg rest now,
        DLQ.parseEntry msg.values = .ok entry ∧
        s'.log.own t = [D.fetch id (.ok (msg :: rest)) now])
      (D.dlq.get .background id) s := by
  unfold DLQ.get
  refine safe_redis ho ⟨rfl, rfl, rfl, rfl⟩ ?_
  intro r now s' ho' _ _
  match r with
  | .error err => exact fun entry h => nomatch h
  | .ok [] => exact fun entry h => nomatch h
  | .ok (msg :: rest) => exact fun entry h => ⟨msg, rest, now, h, ho'⟩

/-- `Requeue` reports success only when the entry was found and the XADD was
    executed. -/
theorem safe_requeue {id : StreamID} {stream : String} {maxLen : Int64} {s : Store}
    (ho : s.log.own t = []) :
    Safe (outline D P) t
      (fun res s' => ∀ u, res = some (.ok u) → D.May (s'.log.own t) (.noted (.requeued id stream)))
      (D.dlq.requeue .background id stream maxLen) s := by
  unfold DLQ.requeue
  refine Safe.seq (safe_get ho) ?_
  intro res s₁ hget
  cases res with
  | error err => exact fun u h => nomatch h
  | ok entry =>
      obtain ⟨msg, rest, now, hparse, ho₁⟩ := hget entry rfl
      cases hj : entry.jobData with
      | none =>
          simp only [hj]
          exact fun u h => nomatch h
      | some job =>
          cases hargs : buildXAddArgs stream maxLen (DLQ.resetForRequeue job) with
          | error err =>
              simp only [hj, hargs]
              exact fun u h => nomatch h
          | ok args =>
              obtain ⟨text, ht, rfl⟩ := buildXAddArgs_ok hargs
              simp only [hj, hargs]
              refine safe_redis ho₁ (Origin.requeue hparse hj ht) ?_
              intro r n s₂ ho₂ _ _
              cases r with
              | error err => exact fun u h => nomatch h
              | ok new =>
                  refine Safe.seq
                    (R := fun _ (s' : Store) => D.May (s'.log.own t) (.noted (.requeued id stream)))
                    ?_ (fun _ s' h u _ => h)
                  unfold DLQ.delete
                  refine safe_redis ho₂ ⟨rfl, rfl, _, _, _, _, _, _, _, _, rfl⟩ ?_
                  intro r n' s₃ ho₃ _ _
                  have hmay : D.May (s₃.log.own t) (.noted (.requeued id stream)) :=
                    ⟨r, n', maxLen, text, new, n, msg, rest, now, ho₃⟩
                  cases r with
                  | error err => exact hmay
                  | ok deleted =>
                      dsimp only
                      split
                      · exact hmay
                      · exact hmay

theorem safe_requeueAndNote {id : StreamID} {stream : String} {maxLen : Int64} {s : Store}
    (ho : s.log.own t = []) :
    Safe (outline D P) t (fun _ _ => True) (requeueAndNote D id stream maxLen) s := by
  unfold requeueAndNote
  refine Safe.seq (safe_requeue ho) ?_
  intro res s' hmay
  match res with
  | none => trivial
  | some (.error err) => trivial
  | some (.ok u) => exact safe_note (hmay u rfl)

theorem safe_setupPartitionsFrom (n : Nat) {i : Int64} {s : Store}
    (ho : Deployment.Idle (s.log.own t)) :
    Safe (outline D P) t (fun _ _ => True)
      (setupPartitionsFrom D.cfg.queue .background n i) s := by
  induction n generalizing s i with
  | zero => trivial
  | succ n ih =>
      unfold setupPartitionsFrom
      refine safe_redis rfl ho ?_
      intro r now s' ho' _ _
      have hidle : Deployment.Idle (s'.log.own t) := by
        rw [ho']
        exact idle_cons_cmd ho
      cases r with
      | error err =>
          dsimp only
          split
          · exact ih hidle
          · trivial
      | ok u => exact ih hidle

-- ============================================================================
-- Every run
-- ============================================================================

theorem own_eq_nil {h : Log} (hfresh : ∀ e ∈ h, e.tid ≠ some t) : h.own t = [] := by
  unfold Log.own
  rw [List.map_eq_nil_iff, List.filter_eq_nil_iff]
  intro e he
  simpa using hfresh e he

/-- An envelope that was read from a stream can be written again. -/
theorem Held.encodable {h : Log} {d : Delivery} (hd : Held D h d) (hv : Valid D h) :
    d.envelope.Encodable := by
  obtain ⟨v, ha, hp⟩ := hd
  exact hv.encodable ha (job_of_parseJob hp)

theorem safe_start {j : Job} {s s' : Store} {p : Program Unit}
    (hv : Valid D s.log) (ht : Tied D s) (hfresh : ∀ e ∈ s.log, e.tid ≠ some t)
    (h : startJob D t j s = some (p, s')) :
    (Valid D s'.log ∧ Tied D s') ∧ Safe (outline D P) t (fun _ _ => True) p s' := by
  have ho : s.log.own t = [] := own_eq_nil hfresh
  have hidle : Deployment.Idle (s.log.own t) := by
    intro d hd
    rw [ho] at hd
    cases hd
  cases j with
  | enqueue ev =>
      cases h
      exact ⟨⟨hv, ht⟩, safe_enqueueAndNote ho⟩
  | enqueueBatch evs =>
      cases h
      exact ⟨⟨hv, ht⟩, Safe.seq (safe_enqueueBatch ho) fun _ _ _ => trivial⟩
  | setupPartitions =>
      cases h
      exact ⟨⟨hv, ht⟩, Safe.seq (safe_setupPartitionsFrom _ hidle) fun _ _ _ => trivial⟩
  | poll run rounds =>
      cases h
      exact ⟨⟨hv, ht⟩, safe_pollLoop rounds hidle⟩
  | reclaim run pages ticks =>
      cases h
      exact ⟨⟨hv, ht⟩, safe_reclaimLoop hidle⟩
  | requeue id stream maxLen =>
      cases h
      exact ⟨⟨hv, ht⟩, safe_requeueAndNote ho⟩
  | process index =>
      simp only [startJob] at h
      split at h
      · next d hd =>
          cases h
          have hready : d ∈ s.ready := List.mem_of_getElem? hd
          have hheld := ht.ready_held d hready
          refine ⟨⟨hv.record rfl hheld ho, ?_⟩, ?_⟩
          · refine ht.logged_only rfl rfl rfl rfl (fun x hx => List.mem_of_mem_eraseIdx hx) ?_ ?_
            · rintro stream id v ⟨ctx, maxLen, now, h⟩
              cases h
            · rintro key x ⟨ctx, value, ttl, now, h, -⟩
              cases h
          · refine safe_jobGoroutine (hheld.encodable hv) ?_
            rw [own_record]
            exact congrArg _ ho
      · cases h

theorem tied_init : Tied D Store.init := by
  refine ⟨?_, ?_, ?_, ?_, ?_⟩
  · intro stream e he
    cases he
  · rintro stream id v ⟨e, he, -⟩
    cases he
  · intro key k hk
    cases hk
  · intro e he
    cases he
  · intro d hd
    cases hd

theorem reachable_safe {c : Conf (world D)} (hc : P.Reachable Store.init c) :
    (Valid D c.store.log ∧ Tied D c.store) ∧
    ∀ t p, c.tasks t = some p → Safe (outline D P) t (fun _ _ => True) p c.store := by
  have hinit : (outline D P).Inv Store.init := ⟨trivial, tied_init⟩
  refine (outline D P).sound rfl (fun _ _ => trivial) hinit ?_ hc
  intro t j s p s' _ hinv _ hfresh hst _
  exact safe_start hinv.1 hinv.2 hfresh hst

/-- Every run follows the protocol, whatever fails, is cancelled or crashes. -/
theorem reachable_valid {c : Conf (world D)} (hc : P.Reachable Store.init c) :
    Valid D c.store.log ∧ Tied D c.store :=
  (reachable_safe hc).1

/-- The next command of a task is due. -/
theorem reachable_due {c : Conf (world D)} (hc : P.Reachable Store.init c) {t : Nat} {ctx : Ctx}
    {cmd : Cmd} {k : Except RedisError cmd.Reply → Program Unit}
    (ht : c.tasks t = some (.call (Op.redis ctx cmd) k)) :
    D.MayIssue (c.store.log.own t) ctx cmd := by
  obtain ⟨hinv, hsafe⟩ := reachable_safe hc
  exact (hsafe t _ ht c.store Rely.refl trivial hinv).1

end LogPipeline.Cluster
