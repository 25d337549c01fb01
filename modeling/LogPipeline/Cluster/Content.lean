/-
  LogPipeline.Cluster.Content

  What a job carries through its life (`content_kept`).

  `History` says how the job of a stream entry got there: from the `Enqueue` that built
  its envelope, through failed attempts and requeueings, with the errors since the
  `Enqueue` or the last requeueing.  It is about the events of a run and does not look
  into the envelopes.  What any reader decodes from the entry is determined by it: the
  content is that of the first envelope, the retry count is the number of these errors,
  and the last error is the latest of them.
-/

import LogPipeline.Cluster.Routing
import LogPipeline.Conc.Launch

namespace LogPipeline.Cluster

open Conc Go Redis Queue Bootstrap

-- ============================================================================
-- The property
-- ============================================================================

/-- The log events a program enqueues. -/
def Job.events : Job → List LogEvent
  | .enqueue ev => [ev]
  | .enqueueBatch evs => evs
  | _ => []

/-- The entry of the stream goes back to the envelope `root`; `errs` are the failures since
    then, or since the last requeueing, the latest first.  `jobs` are the programs of the
    tasks. -/
inductive History (D : Deployment) (jobs : List Job) (h : Log) (root : JobEnvelope) :
    String → StreamID → List String → Prop
  /-- `Enqueue` or `EnqueueBatch` built the envelope for one of its events and added it. -/
  | enqueued {e : Event Ev} {t : Nat} {job : Job} {ev : LogEvent} {uuid : String}
      {clock : Instant} {text : Text} {stream : String} {id : StreamID} (he : e ∈ h)
      (ht : e.tid = some t) (hjob : jobs[t]? = some job) (hev : ev ∈ job.events)
      (hm : .minted uuid ∈ h.own t) (hroot : root = D.newEnvelope uuid ev clock)
      (htext : envelopeStruct.marshal root = .ok text)
      (ha : e.ev.Adds stream id (jobValues text)) : History D jobs h root stream id []
  /-- A delivery failed, and `Retry` re-enqueued the job or sent it to the DLQ. -/
  | retried {h₁ h₂ : Log} {e : Event Ev} {t : Nat} {d : Delivery} {err : String}
      {errs : List String} {stream : String} {id : StreamID} {v : Values}
      (hd : History D jobs h root (D.stream d.run) d.id errs) (hlog : h = h₁ ++ e :: h₂)
      (ht : e.tid = some t) (hp : Processed D d (some err) (Log.own h₂ t))
      (ha : e.ev.Adds stream id v) : History D jobs h root stream id (err :: errs)
  /-- `Requeue` looked the dead letter up and added its job. -/
  | requeued {h₁ h₂ : Log} {e : Event Ev} {t : Nat} {old : StreamID} {msg : Entry Values}
      {rest : List (Entry Values)} {now : Nat} {errs : List String} {stream : String}
      {id : StreamID} {v : Values}
      (hd : History D jobs h root D.dlq.streamName old errs) (hlog : h = h₁ ++ e :: h₂)
      (ht : e.tid = some t) (hf : Log.own h₂ t = [D.fetch old (.ok (msg :: rest)) now])
      (ha : e.ev.Adds stream id v) : History D jobs h root stream id []

/-- The envelope has the content of `root`, and its retry count and error are those of the
    failures. -/
structure ContentOf (root : JobEnvelope) (errs : List String) (e : JobEnvelope) : Prop where
  jobID : e.jobID = root.jobID
  data : e.data = root.data
  enqueuedAt : e.enqueuedAt = root.enqueuedAt
  maxRetries : e.maxRetries = root.maxRetries
  eventType : e.eventType = root.eventType
  retryCount : e.retryCount.toInt = errs.length
  lastError : e.lastError = errs.headD ""

/-- The messages in the reply to a read, with their stream. -/
def Ev.read : Ev → List (String × Entry Values)
  | .cmd _ (.xReadGroup stream _ _ _) (.ok msgs) _ => msgs.map (Prod.mk stream)
  | .cmd _ (.xAutoClaim stream _ _ _ _ _) (.ok (msgs, _)) _ => msgs.map (Prod.mk stream)
  | .cmd _ (.xRange stream _ _) (.ok msgs) _ => msgs.map (Prod.mk stream)
  | _ => []

/-- A field is nested deeper than `json.Unmarshal` reads. -/
def Values.TooDeep (v : Values) : Prop := ∃ field ∈ v, maxNestingDepth < field.2.depth

/-- The content of jobs is kept. -/
structure ContentKept (D : Deployment) (jobs : List Job) (h : Log) : Prop where
  /-- What is read can be decoded, unless it is nested too deep, and goes back to an
      `Enqueue`. -/
  traced : ∀ x ∈ h, ∀ m ∈ x.ev.read,
    ((∃ e, Consumer.parseJob m.2.values = .ok e) ∨
      (∃ entry, DLQ.parseEntry m.2.values = .ok entry) ∨ m.2.values.TooDeep) ∧
    ∃ root errs, History D jobs h root m.1 m.2.id errs
  /-- What `Consume` and `ReclaimStale` decode. -/
  job : ∀ x ∈ h, ∀ m ∈ x.ev.read, ∀ root errs, History D jobs h root m.1 m.2.id errs →
    ∀ e, Consumer.parseJob m.2.values = .ok e → ContentOf root errs e
  /-- What `Get` decodes. -/
  letter : ∀ x ∈ h, ∀ m ∈ x.ev.read, ∀ root errs, History D jobs h root m.1 m.2.id errs →
    ∀ entry, DLQ.parseEntry m.2.values = .ok entry →
      ∃ e, entry.jobData = some e ∧ ContentOf root errs e ∧ entry.failureReason = e.lastError
  /-- What is handed to `processMessage`. -/
  delivery : ∀ t d root errs, .started d ∈ h.own t →
    History D jobs h root (D.stream d.run) d.id errs → ContentOf root errs d.envelope

section

variable {D : Deployment} {jobs : List Job} {h : Log} {root : JobEnvelope} {errs : List String}

-- ============================================================================
-- Envelopes
-- ============================================================================

theorem ContentOf.new (uuid : String) (ev : LogEvent) (clock : Instant) :
    ContentOf (D.newEnvelope uuid ev clock) [] (D.newEnvelope uuid ev clock) :=
  ⟨rfl, rfl, rfl, rfl, rfl, rfl, rfl⟩

theorem ContentOf.failed {d : Delivery} (hc : ContentOf root errs d.envelope)
    (hok : JobOk D d.envelope) (err : String) : ContentOf root (err :: errs) (d.failed err) where
  jobID := hc.jobID
  data := hc.data
  enqueuedAt := hc.enqueuedAt
  maxRetries := hc.maxRetries
  eventType := hc.eventType
  retryCount := by
    change (d.envelope.retryCount + 1).toInt = _
    rw [toInt_add_one hok.lt, hc.retryCount, List.length_cons]
    omega
  lastError := rfl

theorem ContentOf.reset {e : JobEnvelope} (hc : ContentOf root errs e) :
    ContentOf root [] (DLQ.resetForRequeue e) :=
  ⟨hc.jobID, hc.data, hc.enqueuedAt, hc.maxRetries, hc.eventType, rfl, rfl⟩

/-- The values of an entry that carries the job. -/
inductive Holds (root : JobEnvelope) (errs : List String) : Values → Prop
  | job {e : JobEnvelope} {text : Text} (ht : envelopeStruct.marshal e = .ok text)
      (hc : ContentOf root errs e) : Holds root errs (jobValues text)
  | letter {entry : DLQEntry} {e : JobEnvelope} {text : Text}
      (ht : dlqEntryStruct.marshal entry = .ok text) (hj : entry.jobData = some e)
      (hc : ContentOf root errs e) (hr : entry.failureReason = e.lastError) :
      Holds root errs (entryValues text)

theorem Holds.readable {v : Values} (hv : Holds root errs v) :
    (∃ e, Consumer.parseJob v = .ok e) ∨ (∃ entry, DLQ.parseEntry v = .ok entry) ∨ v.TooDeep := by
  cases hv with
  | @job e text ht hc =>
      rcases Nat.lt_or_ge maxNestingDepth text.depth with hd | hd
      · exact Or.inr (Or.inr ⟨_, List.mem_singleton.mpr rfl, hd⟩)
      · exact Or.inl ⟨_, parseJob_jobValues ht hd⟩
  | @letter entry e text ht hj hc hr =>
      rcases Nat.lt_or_ge maxNestingDepth text.depth with hd | hd
      · exact Or.inr (Or.inr ⟨_, List.mem_singleton.mpr rfl, hd⟩)
      · exact Or.inr (Or.inl ⟨_, parseEntry_entryValues ht hd⟩)

theorem Holds.of_parseJob {v : Values} {e : JobEnvelope} (hv : Holds root errs v)
    (hp : Consumer.parseJob v = .ok e) : ContentOf root errs e := by
  have hjob := job_of_parseJob hp
  cases hv with
  | job ht hc =>
      rw [job_jobValues ht] at hjob
      cases hjob
      exact hc
  | letter ht hj hc hr =>
      rw [job_entryValues] at hjob
      cases hjob

theorem Holds.of_parseEntry {v : Values} {entry : DLQEntry} (hv : Holds root errs v)
    (hp : DLQ.parseEntry v = .ok entry) :
    ∃ e, entry.jobData = some e ∧ ContentOf root errs e ∧ entry.failureReason = e.lastError := by
  have hletter := letter_of_parseEntry hp
  cases hv with
  | job ht hc =>
      rw [letter_jobValues] at hletter
      cases hletter
  | letter ht hj hc hr =>
      rw [letter_entryValues ht] at hletter
      cases hletter
      exact ⟨_, hj, hc, hr⟩

-- ============================================================================
-- What a history says about its entry
-- ============================================================================

/-- What a delivery has logged says which one it is and how it ended. -/
theorem Processed.unique {d d' : Delivery} {res res' : Option String} {o : List Ev}
    (hp : Processed D d res o) (hp' : Processed D d' res' o) : d = d' ∧ res = res' := by
  obtain rfl : d = d' := by
    have hlast : o.getLast? = some (.started d) := by cases hp <;> rfl
    have hlast' : o.getLast? = some (.started d') := by cases hp' <;> rfl
    rw [hlast] at hlast'
    cases hlast'
    rfl
  refine ⟨rfl, ?_⟩
  cases hp <;> cases hp' <;> rfl

/-- The entry that a failed delivery adds. -/
theorem Origin.of_processed {o : List Ev} {ctx : Ctx} {stream : String} {maxLen : Int64}
    {v : Values} {d : Delivery} {err : String} (ho : Origin D o ctx (.xAdd stream maxLen v))
    (hp : Processed D d (some err) o) :
    (∃ text, envelopeStruct.marshal (d.failed err) = .ok text ∧ v = jobValues text) ∨
    ∃ text clock, dlqEntryStruct.marshal (d.deadLetter err clock) = .ok text ∧
      v = entryValues text := by
  generalize hc : Cmd.xAdd stream maxLen v = c at ho
  cases ho with
  | enqueue ho hm ht => exact absurd hp.started ho.not_started
  | copy hp' hx ht =>
      cases hc
      obtain ⟨rfl, heq⟩ := hp.unique hp'
      cases heq
      exact Or.inl ⟨_, ht, rfl⟩
  | bury hp' hx ht =>
      cases hc
      obtain ⟨rfl, heq⟩ := hp.unique hp'
      cases heq
      exact Or.inr ⟨_, _, ht, rfl⟩
  | requeue he hj ht => exact absurd hp.started (by simp [Deployment.fetch])

/-- The event that adds an entry, and the log it was added to. -/
theorem Valid.adder {h₁ h₂ : Log} {e : Event Ev} (hv : Valid D h) (hlog : h = h₁ ++ e :: h₂)
    {t : Nat} {stream : String} {id : StreamID} {v : Values} (ht : e.tid = some t)
    (ha : e.ev.Adds stream id v) :
    h.Added stream id v ∧ (∀ x ∈ h₂, x ∈ h) ∧ Valid D h₂ ∧
      ∃ ctx maxLen, Origin D (Log.own h₂ t) ctx (.xAdd stream maxLen v) := by
  subst hlog
  have hv' : Valid D (e :: h₂) := hv.suffix
  obtain ⟨u, ctx, maxLen, hu, horig⟩ := hv'.origin ha
  rw [ht] at hu
  cases hu
  refine ⟨⟨e, List.mem_append_right _ (List.mem_cons_self ..), ha⟩, ?_, hv'.1, ctx, maxLen, horig⟩
  exact fun x hx => Log.mem_of_before hx

/-- An entry carries what its history says, by induction over the history. -/
theorem History.holds {stream : String} {id : StreamID}
    (hist : History D jobs h root stream id errs) (hv : Valid D h) {v : Values}
    (hadded : h.Added stream id v) : Holds root errs v := by
  induction hist generalizing v with
  | enqueued he ht hjob hev hm hroot htext ha =>
      obtain rfl := hv.added_unique hadded ⟨_, he, ha⟩
      refine .job htext ?_
      rw [hroot]
      exact .new ..
  | @retried h₁ h₂ e t d err errs stream id w hd hlog ht hp ha ih =>
      obtain ⟨hadded', hsub, hv₂, ctx, maxLen, horig⟩ := hv.adder hlog ht ha
      obtain rfl := hv.added_unique hadded hadded'
      obtain ⟨v₀, hadded₀, hparse⟩ := hv₂.held hp.started
      have hc := (ih (hadded₀.mono hsub)).of_parseJob hparse
      have hok := hv₂.delivery_ok hp.started
      rcases horig.of_processed hp with ⟨text, htext, rfl⟩ | ⟨text, clock, htext, rfl⟩
      · exact .job htext (hc.failed hok err)
      · exact .letter htext rfl (hc.failed hok err) rfl
  | @requeued h₁ h₂ e t old msg rest now errs stream id w hd hlog ht hf ha ih =>
      obtain ⟨hadded', hsub, hv₂, ctx, maxLen, horig⟩ := hv.adder hlog ht ha
      obtain rfl := hv.added_unique hadded hadded'
      have hfetched := (hv₂.fetched (t := t) (by rw [hf]; exact List.mem_cons_self ..)).1
      rw [hf] at horig
      obtain ⟨entry, job, text, hparse, hjob, htext, rfl⟩ := horig.of_fetch
      obtain ⟨job', hjob', hc, -⟩ := (ih (hfetched.mono hsub)).of_parseEntry hparse
      rw [hjob] at hjob'
      cases hjob'
      exact .job htext hc.reset

-- ============================================================================
-- Producers
-- ============================================================================

/-- Only producers make uuids, and what they add holds one of their events. -/
def MadeFor (D : Deployment) (j : Job) (o : Op) : Prop :=
  (o = .uuid → j.events ≠ []) ∧ (j.events ≠ [] → AddsRouted D j.events o)

/-- Outside of the stage of producers no uuid is made. -/
theorem Control.not_client {x y : Stage} {o : Op} {r : o.Res} (h : Control D x o r y)
    (hx : x ≠ .client) : y ≠ .client ∧ o ≠ .uuid := by
  cases h with
  | uuid | clock | produce | create | enqueued => exact absurd rfl hx
  | _ => simp

theorem uses_of_typed {Q : Unit → Stage → Prop} {p : Program Unit} {x : Stage}
    (h : Typed (control D) Q p x) (hx : x ≠ .client) : p.Uses fun o : Op => o ≠ .uuid := by
  have : ∀ o, Nonempty (sig.Res o) := Op.res_nonempty
  exact h.uses (J := fun x => x ≠ .client) (fun hx hy => (Control.not_client hy hx).symm) hx

theorem uses_setupPartitionsFrom (ctx : Ctx) (n : Nat) (i : Int64) :
    (setupPartitionsFrom D.cfg.queue ctx n i).Uses fun o : Op => o ≠ .uuid := by
  induction n generalizing i with
  | zero => trivial
  | succ n ih =>
      refine ⟨by simp, fun r => ?_⟩
      cases r with
      | ok u => exact ih (i + 1)
      | error err =>
          show Prog.Uses _ (if contains err.text "BUSYGROUP" = true then
            setupPartitionsFrom D.cfg.queue ctx n (i + 1) else _)
          split
          · exact ih (i + 1)
          · trivial

theorem madeFor_of_ne {j : Job} (hj : j.events = []) {p : Program Unit}
    (hp : p.Uses fun o : Op => o ≠ .uuid) : p.Uses (MadeFor D j) :=
  hp.mono fun _ ho => ⟨fun h => absurd h ho, fun h => absurd hj h⟩

theorem madeFor_of_routed {j : Job} (hj : j.events ≠ []) {p : Program Unit}
    (hp : p.Uses (AddsRouted D j.events)) : p.Uses (MadeFor D j) :=
  hp.mono fun _ ho => ⟨fun _ => hj, fun _ => ho⟩

theorem uses_startJob {t : Nat} {j : Job} {s s' : Store} {p : Program Unit}
    (hst : startJob D t j s = some (p, s')) : p.Uses (MadeFor D j) := by
  have htyped := typed_start hst
  cases j with
  | enqueue ev =>
      cases hst
      refine madeFor_of_routed (by simp [Job.events]) ((uses_enqueue .background ev).bind ?_)
      intro res
      cases res with
      | error err => trivial
      | ok id => exact ⟨addsRouted_other (by simp), fun _ => trivial⟩
  | enqueueBatch evs =>
      cases hst
      by_cases hevs : evs = []
      · subst hevs
        trivial
      · refine madeFor_of_routed (j := .enqueueBatch evs) hevs
          ((uses_enqueueBatch .background evs).bind ?_)
        exact fun _ => trivial
  | setupPartitions =>
      cases hst
      refine madeFor_of_ne rfl ((uses_setupPartitionsFrom .background _ _).bind ?_)
      exact fun _ => trivial
  | process index =>
      refine madeFor_of_ne rfl (uses_of_typed htyped ?_)
      simp only [Job.stage]
      split <;> simp
  | poll run rounds => exact madeFor_of_ne rfl (uses_of_typed htyped (by simp [Job.stage]))
  | reclaim run pages ticks => exact madeFor_of_ne rfl (uses_of_typed htyped (by simp [Job.stage]))
  | requeue id stream maxLen => exact madeFor_of_ne rfl (uses_of_typed htyped (by simp [Job.stage]))

/-- The call that an event records. -/
def Ev.op : Ev → Option Op
  | .minted _ => some .uuid
  | .cmd ctx c _ _ => some (.redis ctx c)
  | _ => none

/-- Every event of a task is one that its program can cause. -/
def Made (D : Deployment) (jobs : List Job) (h : Log) : Prop :=
  ∀ e ∈ h, ∀ t, e.tid = some t → ∃ j, jobs[t]? = some j ∧ ∀ o ∈ e.ev.op, MadeFor D j o

theorem Made.record {s s₁ : Store} {t : Nat} {j : Job} {ev : Ev} (hm : Made D jobs s.log)
    (hlog : s₁.log = s.log) (hj : jobs[t]? = some j) (hev : ∀ o ∈ ev.op, MadeFor D j o) :
    Made D jobs (s₁.record (some t) ev).log := by
  intro e he u hu
  rcases List.mem_cons.mp he with rfl | he
  · cases hu
    exact ⟨j, hj, hev⟩
  · rw [hlog] at he
    exact hm e he u hu

theorem Made.append {j : Job} (hm : Made D jobs h) : Made D (jobs ++ [j]) h := by
  intro e he t ht
  obtain ⟨j', hj', hev⟩ := hm e he t ht
  obtain ⟨hlt, -⟩ := List.getElem?_eq_some_iff.mp hj'
  exact ⟨j', (List.getElem?_append_left hlt).trans hj', hev⟩

theorem Made.exec {t : Nat} {ch : Choice} {j : Job} {o : Op} {s s' : Store} {r : o.Res}
    (hm : Made D jobs s.log) (hj : jobs[t]? = some j) (hφ : MadeFor D j o)
    (hex : exec D t ch o s = some (r, s')) : Made D jobs s'.log := by
  cases o with
  | redis ctx c =>
      obtain ⟨s₁, hans, rfl⟩ := exec_redis hex
      refine hm.record (answer_frame hans).log hj ?_
      rintro o ⟨⟩
      exact hφ
  | uuid =>
      cases hex
      refine hm.record rfl hj ?_
      rintro o ⟨⟩
      exact hφ
  | invoke e | await e | jobEnd run | note n =>
      cases hex
      exact hm.record rfl hj (by simp [Ev.op])
  | semAcquire run =>
      simp only [Cluster.exec] at hex
      split at hex
      · cases hex
        exact hm
      · split at hex
        · cases hex
          exact hm
        · cases hex
  | _ =>
      cases hex
      exact hm

theorem Made.start {j : Job} {s s' : Store} {p : Program Unit} (hm : Made D jobs s.log)
    (hst : startJob D jobs.length j s = some (p, s')) : Made D (jobs ++ [j]) s'.log := by
  cases j with
  | process index =>
      simp only [startJob] at hst
      split at hst
      · cases hst
        exact hm.append.record rfl (List.getElem?_concat_length ..) (by simp [Ev.op])
      · cases hst
  | _ =>
      cases hst
      exact hm.append

theorem made_rule : LaunchRule (W := world D) (MadeFor D) fun jobs s => Made D jobs s.log where
  uses := uses_startJob
  call := fun hm hj hφ hex => hm.exec hj hφ hex
  env := by
    intro jobs m s s' hm hmove
    cases m with
    | tick ms =>
        cases hmove
        exact hm
    | cancel run =>
        cases hmove
        intro e he t ht
        rcases List.mem_cons.mp he with rfl | he
        · cases ht
        · exact hm e he t ht
  start := fun hm hst => hm.start hst

-- ============================================================================
-- Every entry has a history
-- ============================================================================

theorem History.cons {stream : String} {id : StreamID} (e : Event Ev)
    (hist : History D jobs h root stream id errs) :
    History D jobs (e :: h) root stream id errs := by
  have hsub : ∀ x ∈ h, x ∈ e :: h := fun x hx => List.mem_cons_of_mem _ hx
  induction hist with
  | enqueued he ht hjob hev hm hroot htext ha =>
      exact .enqueued (hsub _ he) ht hjob hev (Log.own_mono hsub hm) hroot htext ha
  | @retried h₁ h₂ x t d err errs stream id v hd hlog ht hp ha ih =>
      have hlog' : e :: h = (e :: h₁) ++ x :: h₂ := by rw [hlog, List.cons_append]
      exact .retried ih hlog' ht hp ha
  | @requeued h₁ h₂ x t old msg rest now errs stream id v hd hlog ht hf ha ih =>
      have hlog' : e :: h = (e :: h₁) ++ x :: h₂ := by rw [hlog, List.cons_append]
      exact .requeued ih hlog' ht hf ha

/-- The envelope that a producer adds is that of one of its events. -/
theorem Made.event {e : Event Ev} {t : Nat} {uuid : String} {ev : LogEvent} {clock : Instant}
    {text : Text} {stream : String} {id : StreamID} (hm : Made D jobs (e :: h))
    (ht : e.tid = some t) (hu : .minted uuid ∈ h.own t)
    (htext : envelopeStruct.marshal (D.newEnvelope uuid ev clock) = .ok text)
    (ha : e.ev.Adds stream id (jobValues text)) : ∃ j, jobs[t]? = some j ∧ ev ∈ j.events := by
  obtain ⟨x, hx, hxt, hxev⟩ := Log.mem_own.mp hu
  obtain ⟨j, hj, hmint⟩ := hm x (List.mem_cons_of_mem _ hx) t hxt
  obtain ⟨j', hj', hadd⟩ := hm e (List.mem_cons_self ..) t ht
  rw [hj] at hj'
  cases hj'
  rw [hxev] at hmint
  obtain ⟨ctx, maxLen, now, hev⟩ := ha
  rw [hev] at hadd
  have hrouted := (hadd _ rfl).2 ((hmint _ rfl).1 rfl)
  obtain ⟨job, ev', hmem, hparse, hdata, -⟩ := hrouted _ _ _ _ rfl
  rw [job_jobValues htext] at hparse
  cases hparse
  cases hdata
  exact ⟨j, hj, hmem⟩

/-- Every entry has a history, by induction over the log: what is copied or requeued was
    added before. -/
theorem Valid.history (hv : Valid D h) (hm : Made D jobs h) {stream : String} {id : StreamID}
    {v : Values} (hadded : h.Added stream id v) :
    ∃ root errs, History D jobs h root stream id errs := by
  induction h generalizing stream id v with
  | nil =>
      obtain ⟨x, hx, -⟩ := hadded
      cases hx
  | cons e h ih =>
      have hmh : Made D jobs h := fun x hx => hm x (List.mem_cons_of_mem _ hx)
      obtain ⟨x, hx, ha⟩ := hadded
      rcases List.mem_cons.mp hx with rfl | hx
      · have hlog : x :: h = [] ++ x :: h := rfl
        obtain ⟨t, ctx, maxLen, ht, horig⟩ := hv.origin ha
        generalize hc : Cmd.xAdd stream maxLen v = c at horig
        generalize hown : Log.own h t = o at horig
        cases horig with
        | @enqueue _ uuid ev clock text ho hu htext =>
            injection hc with _ _ hvals
            subst hvals hown
            obtain ⟨j, hj, hmem⟩ := hm.event ht hu htext ha
            refine ⟨_, [], .enqueued (List.mem_cons_self ..) ht hj hmem ?_ rfl htext ha⟩
            exact Log.own_mono (fun y hy => List.mem_cons_of_mem _ hy) hu
        | @copy d err _ text hp hexh htext =>
            subst hown
            obtain ⟨v₀, hadded₀, -⟩ := hv.1.held hp.started
            obtain ⟨root, errs, hist⟩ := ih hv.1 hmh hadded₀
            exact ⟨root, err :: errs, .retried (hist.cons x) hlog ht hp ha⟩
        | @bury d err _ text clock hp hexh htext =>
            subst hown
            obtain ⟨v₀, hadded₀, -⟩ := hv.1.held hp.started
            obtain ⟨root, errs, hist⟩ := ih hv.1 hmh hadded₀
            exact ⟨root, err :: errs, .retried (hist.cons x) hlog ht hp ha⟩
        | @requeue old msg rest now entry job stream' maxLen' text hentry hjob htext =>
            have hfetched := (hv.1.fetched (t := t) (by rw [hown]; exact List.mem_cons_self ..)).1
            obtain ⟨root, errs, hist⟩ := ih hv.1 hmh hfetched
            exact ⟨root, [], .requeued (hist.cons x) hlog ht hown ha⟩
      · obtain ⟨root, errs, hist⟩ := ih hv.1 hmh ⟨x, hx, ha⟩
        exact ⟨root, errs, hist.cons e⟩

/-- What is read was added. -/
theorem Valid.read_added (hv : Valid D h) {x : Event Ev} (hx : x ∈ h) {m : String × Entry Values}
    (hm : m ∈ x.ev.read) : h.Added m.1 m.2.id m.2.values := by
  obtain ⟨h₁, h₂, rfl, hv'⟩ := hv.upTo hx
  have hs := hv'.served
  have hsub : ∀ y ∈ h₂, y ∈ h₁ ++ x :: h₂ := fun y hy => Log.mem_of_before hy
  unfold Ev.read at hm
  split at hm
  · next hev =>
      obtain ⟨msg, hmsg, rfl⟩ := List.mem_map.mp hm
      rw [hev] at hs
      exact (hs.2 msg hmsg).mono hsub
  · next hev =>
      obtain ⟨msg, hmsg, rfl⟩ := List.mem_map.mp hm
      rw [hev] at hs
      exact (hs.2 msg hmsg).mono hsub
  · next hev =>
      obtain ⟨msg, hmsg, rfl⟩ := List.mem_map.mp hm
      rw [hev] at hs
      exact (hs.2 msg hmsg).1.mono hsub
  · cases hm

/-- In every run the content of every job is kept. -/
theorem content_kept {as : List (Action (world D))} {c : Conf (world D)}
    (hrun : runFrom Conf.apply (Conf.init Store.init) as = some c) :
    ContentKept D (launched as) c.store.log := by
  have hc : Policy.any.Reachable Store.init c :=
    ⟨as, hrun, everyStep_of_forall Policy.any_permits _ _⟩
  have hv := (reachable_valid hc).1
  have hm : Made D (launched as) c.store.log := made_rule.sound (by simp [Made, Store.init]) hrun
  refine ⟨?_, ?_, ?_, ?_⟩
  · intro x hx m hread
    have hadded := hv.read_added hx hread
    obtain ⟨root, errs, hist⟩ := hv.history hm hadded
    exact ⟨(hist.holds hv hadded).readable, root, errs, hist⟩
  · intro x hx m hread root errs hist e hp
    exact (hist.holds hv (hv.read_added hx hread)).of_parseJob hp
  · intro x hx m hread root errs hist entry hp
    exact (hist.holds hv (hv.read_added hx hread)).of_parseEntry hp
  · intro t d root errs hs hist
    obtain ⟨v, hadded, hp⟩ := hv.held hs
    exact (hist.holds hv hadded).of_parseJob hp

end

/-- A job fails once, and its copy is read. -/
theorem content_kept_retried : ∃ (as : List (Action (world (.ofDefaults true))))
    (c : Conf (world (.ofDefaults true))),
    runFrom Conf.apply (Conf.init Store.init) as = some c ∧
    (∃ x ∈ c.store.log, ∃ m ∈ x.ev.read,
      (Consumer.parseJob m.2.values).toOption.map (·.retryCount) = some 1) ∧
    ContentKept (.ofDefaults true) (launched as) c.store.log := by
  obtain ⟨c, ⟨as, hrun, -⟩, hread⟩ : ∃ c,
      (Policy.any (W := world (.ofDefaults true))).Reachable Store.init c ∧
      ∃ x ∈ c.store.log, ∃ m ∈ x.ev.read,
        (Consumer.parseJob m.2.values).toOption.map (·.retryCount) = some 1 :=
    Policy.exists_reachable_any (lastFailure _ ++ [.start (.poll 0 1)] ++ steps 4 5)
      (by decide +kernel)
  exact ⟨as, c, hrun, hread, content_kept hrun⟩

end LogPipeline.Cluster
