/-
  LogPipeline.Cluster.Reclaim

  The reclaim of stale messages: the cursor loop of `Consumer.ReclaimStale`, and
  what `Worker.reclaimStale` does with its result.

  - `reclaimStale_complete`: on a server that answers, the loop ends and returns
    the well-formed entries that are idle long enough, whatever the batch size
    and however far each XAUTOCLAIM scans.
-/

import LogPipeline.Cluster.Solo
import LogPipeline.Redis.Claim

namespace LogPipeline.Cluster

open Conc Go Redis Queue

-- ============================================================================
-- The two slices
-- ============================================================================

/-- The two slices `ReclaimStale` returns, `allEnvelopes` and `allMessageIDs`. -/
def slices (claimed : List (JobEnvelope × StreamID)) : List JobEnvelope × List StreamID :=
  (claimed.map (·.1), claimed.map (·.2))

/-- One turn of the loop over a page: a message that does not parse is skipped, any
    other is appended to both slices. -/
def collect (all : List JobEnvelope × List StreamID) (msg : Entry Values) :
    List JobEnvelope × List StreamID :=
  match Consumer.parseMessage msg with
  | .error _ => all
  | .ok (envelope, messageID) => (all.1 ++ [envelope], all.2 ++ [messageID])

/-- The list of pairs stands for the two slices: a page extends both alike. -/
theorem collect_page (all : List (JobEnvelope × StreamID)) (msgs : List (Entry Values)) :
    msgs.foldl collect (slices all) = slices (all ++ Consumer.parsed msgs) := by
  induction msgs generalizing all with
  | nil => simp [Consumer.parsed]
  | cons msg msgs ih =>
      cases hmsg : Consumer.parseMessage msg with
      | error err =>
          have hskip : collect (slices all) msg = slices all := by
            simp only [collect, hmsg]
          have hparsed : Consumer.parsed (msg :: msgs) = Consumer.parsed msgs := by
            simp [Consumer.parsed, hmsg, Except.toOption]
          rw [List.foldl_cons, hskip, ih, hparsed]
      | ok job =>
          have hkeep : collect (slices all) msg = slices (all ++ [job]) := by
            simp [collect, hmsg, slices]
          have hparsed : Consumer.parsed (msg :: msgs) = job :: Consumer.parsed msgs := by
            simp [Consumer.parsed, hmsg, Except.toOption]
          rw [List.foldl_cons, hkeep, ih, hparsed, List.append_assoc, List.singleton_append]

theorem mem_parsed_iff {msgs : List (Entry Values)} {m : JobEnvelope × StreamID} :
    m ∈ Consumer.parsed msgs ↔ ∃ msg ∈ msgs, Consumer.parseMessage msg = .ok m := by
  have hok : ∀ msg, (Consumer.parseMessage msg).toOption = some m ↔
      Consumer.parseMessage msg = .ok m := by
    intro msg
    cases Consumer.parseMessage msg <;> simp [Except.toOption]
  unfold Consumer.parsed
  simp only [List.mem_filterMap, hok]

theorem mem_parsed {msgs : List (Entry Values)} {e : JobEnvelope} {id : StreamID} :
    (e, id) ∈ Consumer.parsed msgs ↔ ∃ v, ⟨id, v⟩ ∈ msgs ∧ Consumer.parseJob v = .ok e := by
  rw [mem_parsed_iff]
  constructor
  · rintro ⟨⟨id', v⟩, hmsg, hparse⟩
    obtain ⟨hjob, rfl⟩ := parseMessage_eq_ok.mp hparse
    exact ⟨v, hmsg, hjob⟩
  · rintro ⟨v, hmsg, hjob⟩
    exact ⟨⟨id, v⟩, hmsg, parseMessage_eq_ok.mpr ⟨hjob, rfl⟩⟩

theorem parsed_append (msgs msgs' : List (Entry Values)) :
    Consumer.parsed (msgs ++ msgs') = Consumer.parsed msgs ++ Consumer.parsed msgs' :=
  List.filterMap_append ..

/-- Parsing keeps the ids in order. -/
theorem parsed_sorted {msgs : List (Entry Values)} (h : msgs.Pairwise (·.id < ·.id)) :
    ((Consumer.parsed msgs).map (·.2)).Pairwise (· < ·) :=
  (List.pairwise_map.mpr h).sublist (parsed_ids_sublist msgs)

-- ============================================================================
-- The cursor loop
-- ============================================================================

section Loop

variable {D : Deployment} {t : Nat} {ch : Nat → Choice} {c : Consumer} {run : Nat}
  {idleTime : Duration} {maxBatch : Int64}

/-- What the loop leaves as it is: the context, the entries, and that a stored entry
    is pending. -/
structure Swept (c : Consumer) (run : Nat) (s s' : Store) : Prop where
  live : ¬ s'.log.Cancelled run
  now : s'.now = s.now
  entries : ∀ stream, (s'.streams stream).entries = (s.streams stream).entries
  pending : ∀ e ∈ (s.streams c.streamName).entries,
    (s.streams c.streamName).IsPending c.consumerGroup e.id →
      (s'.streams c.streamName).IsPending c.consumerGroup e.id

theorem Swept.trans {s₁ s₂ s₃ : Store} (h : Swept c run s₁ s₂) (h' : Swept c run s₂ s₃) :
    Swept c run s₁ s₃ where
  live := h'.live
  now := h'.now.trans h.now
  entries := fun stream => (h'.entries stream).trans (h.entries stream)
  pending := fun e he hp => by
    refine h'.pending e ?_ (h.pending e he hp)
    rw [h.entries]
    exact he

variable (D t c idleTime) in
/-- One page of the loop on a server that answers. -/
theorem alone_xAutoClaim (hbatch : 1 ≤ maxBatch) {i : Nat} (hfail : (ch i).fail = none)
    {s : Store} (hctx : ¬ s.log.Cancelled run) {g : Group}
    (hg : (s.streams c.streamName).groups c.consumerGroup = some g) (start : StreamID) :
    ∃ pre post s' g',
      alone D t ch (.redis (.worker run) (.xAutoClaim c.streamName c.consumerGroup c.consumerName
        idleTime start maxBatch)) (s, i) =
        some (.ok ((s.streams c.streamName).due (formatMs idleTime) s.now pre,
          (post.head?.map (·.id)).getD .zero), s', i + 1) ∧
      (g.pel.filter fun p => decide (start ≤ p.id)) = pre ++ post ∧
      (pre = [] → post = []) ∧ Swept c run s s' ∧
      (s'.streams c.streamName).groups c.consumerGroup = some g' ∧
      ∀ p, post.head? = some p → (g'.pel.filter fun q => decide (p.id ≤ q.id)) = post := by
  have hcount : 0 < maxBatch.toInt.toNat := by
    have hle := Int64.le_iff_toInt_le.mp hbatch
    have hone : (1 : Int64).toInt = 1 := rfl
    omega
  obtain ⟨pre, post, x, g', hclaim, hsplit, hpre, hentries, hg', hrest⟩ :=
    Stream.xautoclaim_page hg c.consumerName (formatMs idleTime) s.now start hcount
      (Nat.succ_pos (ch i).scan)
  have hrun : runCmd (ch i) s (.xAutoClaim c.streamName c.consumerGroup c.consumerName idleTime
      start maxBatch) =
      some (.ok ((s.streams c.streamName).due (formatMs idleTime) s.now pre,
        (post.head?.map (·.id)).getD .zero), s.setStream c.streamName x) := by
    simp only [runCmd]
    rw [hclaim]
  have hctx' : ¬ s.log.CtxDone (.worker run) := hctx
  have hans := (answer_sent hctx' hfail).trans hrun
  refine ⟨pre, post, _, g', alone_eq_some.mpr ⟨exec_of_answer hans, rfl⟩, hsplit, hpre,
    ⟨?_, rfl, ?_, ?_⟩, ?_, hrest⟩
  · exact fun hdone => hctx' ((ctxDone_record_cmd rfl).mp hdone)
  · intro stream
    by_cases hstream : stream = c.streamName
    · rw [hstream]
      simp only [Store.record, Store.setStream, Function.update_self, hentries]
    · simp only [Store.record, Store.setStream, Function.update_of_ne hstream]
  · intro e he hp
    simp only [Store.record, Store.setStream, Function.update_self]
    exact hp.xautoclaim (Stream.stored_of_mem he) hclaim
  · simpa only [Store.record, Store.setStream, Function.update_self] using hg'

variable (D t idleTime) in
/-- The loop from a cursor, with enough pages left for what is pending from there. -/
theorem solo_reclaimPages (hbatch : 1 ≤ maxBatch) (hfail : ∀ i, (ch i).fail = none)
    {pages : Nat} {start : StreamID} {s : Store} {g : Group} (hctx : ¬ s.log.Cancelled run)
    (hg : (s.streams c.streamName).groups c.consumerGroup = some g)
    (hpages : (g.pel.filter fun p => decide (start ≤ p.id)).length < pages)
    (all : List (JobEnvelope × StreamID)) (i : Nat) :
    ∃ s' j, (c.reclaimPages run idleTime maxBatch pages start all).solo (alone D t ch) (s, i) =
        some (some (all ++ Consumer.parsed ((s.streams c.streamName).due (formatMs idleTime) s.now
          (g.pel.filter fun p => decide (start ≤ p.id))), none), s', j) ∧
      Swept c run s s' := by
  induction pages generalizing start s g all i with
  | zero => omega
  | succ pages ih =>
      obtain ⟨pre, post, s₁, g', hpage, hsplit, hpre, hswept, hg', hrest⟩ :=
        alone_xAutoClaim D t c idleTime hbatch (hfail i) hctx hg start
      rw [hsplit] at hpages ⊢
      cases post with
      | nil =>
          refine ⟨s₁, i + 1, ?_, hswept⟩
          rw [List.append_nil]
          exact Prog.solo_call (S := sig) hpage
      | cons p rest =>
          have hp : p ∈ g.pel := by
            have hmem : p ∈ g.pel.filter fun p => decide (start ≤ p.id) := by
              rw [hsplit]
              simp
            exact List.mem_of_mem_filter hmem
          have hcursor : p.id ≠ .zero := (g.pos p hp).ne'
          have hlen : (g'.pel.filter fun q => decide (p.id ≤ q.id)).length < pages := by
            rw [hrest p rfl]
            have hpos : 0 < pre.length := by
              rw [List.length_pos_iff]
              exact fun h => List.cons_ne_nil _ _ (hpre h)
            simp only [List.length_append, List.length_cons] at hpages ⊢
            omega
          have hdone : alone D t ch (.ctxDone run) (s₁, i + 1) = some (false, s₁, i + 2) := by
            refine alone_eq_some.mpr ⟨?_, rfl⟩
            simp only [exec, hswept.live, decide_false]
          obtain ⟨s', j, hx, hswept'⟩ := ih hswept.live hg' hlen (all ++ Consumer.parsed
            ((s.streams c.streamName).due (formatMs idleTime) s.now pre)) (i + 2)
          rw [hrest p rfl, Stream.due_congr (hswept.entries _), hswept.now, List.append_assoc,
            ← parsed_append, ← Stream.due_append] at hx
          refine ⟨s', j, ?_, hswept.trans hswept'⟩
          refine (Prog.solo_call (S := sig) hpage).trans ?_
          change Prog.solo _ (if p.id = .zero then _ else _) _ = _
          rw [if_neg hcursor]
          exact (Prog.solo_call (S := sig) hdone).trans hx

end Loop

/-- The slices are what a reclaim of the pending list of `g` should give: the
    well-formed entries that were idle for `idleTime`, cut down to whole milliseconds, in id
    order, each with its own envelope. -/
structure Reclaims (x : Stream Values) (g : Group) (idleTime : Duration) (now : Nat)
    (envelopes : List JobEnvelope) (messageIDs : List StreamID) : Prop where
  aligned : envelopes.length = messageIDs.length
  decoded : ∀ (i : Nat) e id, envelopes[i]? = some e → messageIDs[i]? = some id →
    ∃ v, ⟨id, v⟩ ∈ x.entries ∧ Consumer.parseJob v = .ok e
  mem_iff : ∀ id, id ∈ messageIDs ↔
    (∃ p ∈ g.pel, p.id = id ∧ formatMs idleTime ≤ now - p.deliveredAt) ∧
    ∃ v e, ⟨id, v⟩ ∈ x.entries ∧ Consumer.parseJob v = .ok e
  /-- A threshold of whole milliseconds is met as it is. -/
  mem_iff_of_whole : idleTime.toInt % 1000000 = 0 → ∀ id, id ∈ messageIDs ↔
    (∃ p ∈ g.pel, p.id = id ∧ idleTime.toInt ≤ (now - p.deliveredAt : Nat) * 1000000) ∧
    ∃ v e, ⟨id, v⟩ ∈ x.entries ∧ Consumer.parseJob v = .ok e
  ordered : messageIDs.Pairwise (· < ·)

theorem formatMs_le_iff {d : Duration} (h : d.toInt % 1000000 = 0) (ms : Nat) :
    formatMs d ≤ ms ↔ d.toInt ≤ ms * 1000000 := by
  have hzero : (0 : Int64).toInt = 0 := rfl
  unfold formatMs
  by_cases hpos : 0 < d
  · have hlt := Int64.lt_iff_toInt_lt.mp hpos
    rw [if_pos hpos]
    omega
  · have hle := Int64.le_iff_toInt_le.mp (Int64.not_lt.mp hpos)
    rw [if_neg hpos]
    omega

theorem mem_slices_parsed (x : Stream Values) (g : Group) (idleTime : Duration) (now : Nat)
    (id : StreamID) :
    id ∈ (slices (Consumer.parsed (x.due (formatMs idleTime) now g.pel))).2 ↔
      (∃ p ∈ g.pel, p.id = id ∧ formatMs idleTime ≤ now - p.deliveredAt) ∧
      ∃ v e, ⟨id, v⟩ ∈ x.entries ∧ Consumer.parseJob v = .ok e := by
  simp only [slices, List.mem_map]
  constructor
  · rintro ⟨⟨e, id⟩, hjob, rfl⟩
    obtain ⟨v, hmem, hparse⟩ := mem_parsed.mp hjob
    obtain ⟨hstored, hidle⟩ := Stream.mem_due.mp hmem
    exact ⟨hidle, v, e, hstored, hparse⟩
  · rintro ⟨hidle, v, e, hstored, hparse⟩
    exact ⟨(e, id), mem_parsed.mpr ⟨v, Stream.mem_due.mpr ⟨hstored, hidle⟩, hparse⟩, rfl⟩

/-- The entries that are due, parsed, are what a reclaim should give. -/
theorem reclaims_parsed (x : Stream Values) (g : Group) (idleTime : Duration) (now : Nat) :
    Reclaims x g idleTime now (slices (Consumer.parsed (x.due (formatMs idleTime) now g.pel))).1
      (slices (Consumer.parsed (x.due (formatMs idleTime) now g.pel))).2 where
  aligned := by simp [slices]
  decoded := by
    intro i e id he hid
    simp only [slices, List.getElem?_map, Option.map_eq_some_iff] at he hid
    obtain ⟨job, hjob, rfl⟩ := he
    obtain ⟨job', hjob', rfl⟩ := hid
    obtain rfl : job = job' := Option.some.inj (hjob.symm.trans hjob')
    obtain ⟨v, hmem, hparse⟩ := mem_parsed.mp (List.mem_of_getElem? hjob)
    exact ⟨v, (Stream.mem_due.mp hmem).1, hparse⟩
  mem_iff := mem_slices_parsed x g idleTime now
  mem_iff_of_whole := by
    intro hwhole id
    simp only [mem_slices_parsed, formatMs_le_iff hwhole]
  ordered := parsed_sorted (Stream.due_sorted g.sorted)

/-- From the id `0-0` on everything is pending. -/
theorem filter_zero (ps : List Pending) :
    (ps.filter fun p => decide (StreamID.zero ≤ p.id)) = ps := by
  rw [List.filter_eq_self]
  intro p _
  simpa using StreamID.zero_le p.id

/-- `ReclaimStale` on a server that answers, for a worker that is not cancelled: for
    every batch size and however far the server scans in one command, the loop ends
    within as many pages as there are pending entries, and one more, and returns the
    same two slices. -/
theorem reclaimStale_complete (c : Consumer) (run : Nat) (idleTime : Duration) {s : Store}
    {g : Group} (hg : (s.streams c.streamName).groups c.consumerGroup = some g)
    (hctx : ¬ s.log.Cancelled run) :
    ∃ envelopes messageIDs,
      Reclaims (s.streams c.streamName) g idleTime s.now envelopes messageIDs ∧
      ∀ (D : Deployment) (t : Nat) (ch : Nat → Choice) (maxBatch : Int64) (pages : Nat),
        (∀ i, (ch i).fail = none) → 1 ≤ maxBatch → g.pel.length < pages →
        ∃ claimed x, (c.reclaimStale run idleTime maxBatch pages).solo (alone D t ch) (s, 0) =
          some (some (claimed, none), x) ∧ slices claimed = (envelopes, messageIDs) := by
  refine ⟨_, _, reclaims_parsed (s.streams c.streamName) g idleTime s.now, ?_⟩
  intro D t ch maxBatch pages hfail hbatch hpages
  have hlen : (g.pel.filter fun p => decide (StreamID.zero ≤ p.id)).length < pages := by
    rw [filter_zero]
    exact hpages
  obtain ⟨s', j, hsolo, -⟩ := solo_reclaimPages D t idleTime hbatch hfail hctx hg hlen [] 0
  rw [filter_zero, List.nil_append] at hsolo
  exact ⟨_, _, hsolo, rfl⟩

/-- Four entries are pending.  The second has no job; the third was delivered at the time
    50 and the others at the time 0. -/
def fourHeld (v : Values) : Stream Values where
  entries := [⟨.of 1 0, v⟩, ⟨.of 2 0, []⟩, ⟨.of 3 0, v⟩, ⟨.of 4 0, v⟩]
  lastID := .of 4 0
  groups := fun _ => some {
    lastDelivered := .of 4 0
    pel := [⟨.of 1 0, "worker", 0⟩, ⟨.of 2 0, "worker", 0⟩, ⟨.of 3 0, "worker", 50⟩,
      ⟨.of 4 0, "worker", 0⟩]
    sorted := by decide
    pos := by simp; decide
    le_last := by simp; decide }
  sorted := by simp; decide
  pos := by simp; decide
  le_last := by simp; decide
  delivered_le := by
    rintro n g ⟨⟩
    exact le_refl _

/-- The server with these entries, at the time 60. -/
def sixtyLater (v : Values) : Store :=
  { Store.init.setStream someConsumer.streamName (fourHeld v) with now := 60 }

theorem sixtyLater_stream (v : Values) :
    (sixtyLater v).streams someConsumer.streamName = fourHeld v := by
  simp only [sixtyLater, Store.setStream, Function.update_self]

/-- A threshold of 30 ms.  With batches of one, and one entry examined by each command, there
    are four pages; with large batches there is one.  The result is the same, and has neither
    the entry without a job nor the one that is not idle. -/
theorem reclaimStale_complete_fourHeld : ∃ text claimed claimed' x x',
    (someConsumer.reclaimStale 0 30000000 1 5).solo (alone (.ofDefaults true) 0 fun _ => {})
      (sixtyLater (jobValues text), 0) = some (some (claimed, none), x) ∧
    (someConsumer.reclaimStale 0 30000000 100 5).solo
      (alone (.ofDefaults true) 0 fun _ => { scan := 9 }) (sixtyLater (jobValues text), 0) =
      some (some (claimed', none), x') ∧
    slices claimed = slices claimed' ∧ .of 1 0 ∈ (slices claimed).2 ∧
    .of 2 0 ∉ (slices claimed).2 ∧ .of 3 0 ∉ (slices claimed).2 ∧ .of 4 0 ∈ (slices claimed).2 := by
  obtain ⟨text, -, hparse⟩ := exists_zeroJob
  obtain ⟨g, hg, hpel⟩ : ∃ g, ((sixtyLater (jobValues text)).streams someConsumer.streamName).groups
      someConsumer.consumerGroup = some g ∧ g.pel = [⟨.of 1 0, "worker", 0⟩,
        ⟨.of 2 0, "worker", 0⟩, ⟨.of 3 0, "worker", 50⟩, ⟨.of 4 0, "worker", 0⟩] := by
    rw [sixtyLater_stream]
    exact ⟨_, rfl, rfl⟩
  have hctx : ¬ (sixtyLater (jobValues text)).log.Cancelled 0 := by
    rintro ⟨e, he, -⟩
    cases he
  have hlen : g.pel.length < 5 := by
    rw [hpel]
    decide
  have hms : formatMs 30000000 = 30 := by decide +kernel
  obtain ⟨envelopes, messageIDs, hreclaims, hrun⟩ :=
    reclaimStale_complete someConsumer 0 30000000 hg hctx
  obtain ⟨claimed, x, hsolo, hslices⟩ :=
    hrun (.ofDefaults true) 0 (fun _ => {}) 1 5 (fun _ => rfl) (by decide) hlen
  obtain ⟨claimed', x', hsolo', hslices'⟩ :=
    hrun (.ofDefaults true) 0 (fun _ => { scan := 9 }) 100 5 (fun _ => rfl) (by decide) hlen
  have hmem : ∀ id, id ∈ messageIDs ↔ id = .of 1 0 ∨ id = .of 4 0 := by
    intro id
    rw [hreclaims.mem_iff, hpel, sixtyLater_stream, hms]
    change (∃ p : Pending, p ∈ _ ∧ p.id = id ∧ 30 ≤ 60 - p.deliveredAt) ∧ _ ↔ _
    simp only [fourHeld, List.mem_cons, List.not_mem_nil, or_false, Entry.mk.injEq,
      exists_eq_or_imp, exists_eq_left]
    constructor
    · rintro ⟨⟨rfl, -⟩ | ⟨rfl, -⟩ | ⟨rfl, hidle⟩ | ⟨rfl, -⟩, v, e, hv, hjob⟩
      · exact Or.inl rfl
      · obtain rfl : v = [] := by simpa +decide using hv
        cases hjob
      · exact absurd hidle (by decide)
      · exact Or.inr rfl
    · rintro (rfl | rfl)
      · exact ⟨Or.inl ⟨rfl, by decide⟩, _, _, Or.inl ⟨rfl, rfl⟩, hparse⟩
      · refine ⟨Or.inr (Or.inr (Or.inr ⟨rfl, by decide⟩)), _, _, ?_, hparse⟩
        exact Or.inr (Or.inr (Or.inr ⟨rfl, rfl⟩))
  refine ⟨text, claimed, claimed', x, x', hsolo, hsolo', hslices.trans hslices'.symm, ?_⟩
  rw [hslices]
  simp only [hmem]
  decide

/-- A message has been pending for a millisecond. -/
def millisecondLater (v : Values) : Store := { oneHeld v with now := 1 }

theorem millisecondLater_stream (v : Values) :
    (millisecondLater v).streams someConsumer.streamName =
      heldStream (.of 1 0) zero_lt_first v := oneHeld_stream v

/-- A threshold of 1.5 ms is sent to the server as 1 ms, and the message is reclaimed. -/
theorem reclaimStale_early : ∃ text g claimed x,
    ((millisecondLater (jobValues text)).streams someConsumer.streamName).groups
      someConsumer.consumerGroup = some g ∧
    (someConsumer.reclaimStale 0 1500000 1 2).solo (alone (.ofDefaults true) 0 fun _ => {})
      (millisecondLater (jobValues text), 0) = some (some (claimed, none), x) ∧
    ∃ id ∈ (slices claimed).2, ∀ p ∈ g.pel, p.id = id →
      (((millisecondLater (jobValues text)).now - p.deliveredAt : Nat) : Int) * 1000000 <
        (1500000 : Duration).toInt := by
  obtain ⟨text, -, hparse⟩ := exists_zeroJob
  obtain ⟨g, hg, hpel⟩ : ∃ g, ((millisecondLater (jobValues text)).streams
      someConsumer.streamName).groups someConsumer.consumerGroup = some g ∧
      g.pel = [⟨.of 1 0, "worker", 0⟩] := by
    rw [millisecondLater_stream]
    exact ⟨_, rfl, rfl⟩
  have hctx : ¬ (millisecondLater (jobValues text)).log.Cancelled 0 := by
    rintro ⟨e, he, -⟩
    cases he
  have hpages : (g.pel.filter fun p => decide (StreamID.zero ≤ p.id)).length < 2 := by
    rw [filter_zero, hpel]
    decide
  have hbatch : (1 : Int64) ≤ 1 := by decide
  have hfail : ∀ i : Nat, ((fun _ => {} : Nat → Choice) i).fail = none := fun _ => rfl
  obtain ⟨s', j, hsolo, -⟩ := solo_reclaimPages (.ofDefaults true) 0 1500000 hbatch hfail hctx hg
    hpages [] 0
  rw [filter_zero, List.nil_append] at hsolo
  have hms : formatMs 1500000 = 1 := by decide +kernel
  refine ⟨text, g, _, _, hg, hsolo, .of 1 0, (mem_slices_parsed ..).mpr ⟨?_, ?_⟩, ?_⟩
  · rw [hpel, hms]
    exact ⟨_, List.mem_singleton_self _, rfl, le_refl 1⟩
  · rw [millisecondLater_stream]
    exact ⟨_, _, List.mem_singleton_self _, hparse⟩
  · rw [hpel]
    intro p hp _
    rw [List.mem_singleton.mp hp]
    change ((1 - 0 : Nat) : Int) * 1000000 < (1500000 : Duration).toInt
    decide

-- ============================================================================
-- Dispatching what was claimed
-- ============================================================================

/-- The replies to the XAUTOCLAIM commands of one reclaim: the pages that have a
    successor, and the reply that ends the loop, the last page or an error. -/
structure PageReplies where
  pages : List (List (Entry Values) × StreamID)
  more : ∀ p ∈ pages, p.2 ≠ StreamID.zero
  last : Except RedisError (List (Entry Values))

namespace PageReplies

variable (R : PageReplies)

/-- The replies as the client gets them. -/
def replies : List (Except RedisError (List (Entry Values) × StreamID)) :=
  R.pages.map .ok ++ [R.last.map (·, .zero)]

/-- The messages that changed hands before the last reply. -/
def claimedBefore : List (Entry Values) := R.pages.flatMap (·.1)

/-- The messages that changed hands. -/
def claimed : List (Entry Values) := R.claimedBefore ++ R.last.toOption.getD []

/-- The loop ends with an error; `redis.Nil` is not one. -/
def Fails : Prop := ∃ err, R.last = .error err ∧ err ≠ .nil

end PageReplies

/-- A server that answers XAUTOCLAIM with given replies, for a worker that is not
    cancelled, and the messages handed to `processMessage`. -/
structure Script where
  replies : List (Except RedisError (List (Entry Values) × StreamID))
  handed : List Delivery

/-- The answers of the script. -/
def scripted : (o : Op) → Script → Option (o.Res × Script)
  | .redis _ (.xAutoClaim ..), x =>
      match x.replies with
      | [] => none
      | r :: rest => some (r, { x with replies := rest })
  | .ctxDone _, x => some (false, x)
  | .semAcquire _, x => some (true, x)
  | .goProcess run e id, x => some ((), { x with handed := x.handed ++ [⟨run, e, id⟩] })
  | _, _ => none

/-- What the cursor loop returns on the last reply. -/
def lastResult (all : List (JobEnvelope × StreamID)) :
    Except RedisError (List (Entry Values)) → List (JobEnvelope × StreamID) × Option String
  | .ok messages => (all ++ Consumer.parsed messages, none)
  | .error .nil => (all, none)
  | .error err => (all, some ("failed to reclaim stale messages: " ++ err.text))

/-- The cursor loop reads the script to its end. -/
theorem scripted_reclaimPages (c : Consumer) (run : Nat) (idleTime : Duration) (maxBatch : Int64)
    {ps : List (List (Entry Values) × StreamID)} (hmore : ∀ p ∈ ps, p.2 ≠ StreamID.zero)
    (last : Except RedisError (List (Entry Values))) {pages : Nat} (hpages : ps.length < pages)
    (start : StreamID) (all : List (JobEnvelope × StreamID)) (handed : List Delivery) :
    (c.reclaimPages run idleTime maxBatch pages start all).solo (S := sig) scripted
      ⟨ps.map .ok ++ [last.map (·, .zero)], handed⟩ =
      some (some (lastResult (all ++ Consumer.parsed (ps.flatMap (·.1))) last), ⟨[], handed⟩) := by
  induction ps generalizing pages start all with
  | nil =>
      cases pages with
      | zero => omega
      | succ pages =>
          have hparsed : all ++ Consumer.parsed (List.flatMap (·.1)
              ([] : List (List (Entry Values) × StreamID))) = all := List.append_nil all
          rw [hparsed]
          cases last with
          | ok messages => rfl
          | error err => cases err <;> rfl
  | cons p ps ih =>
      cases pages with
      | zero => cases hpages
      | succ pages =>
          obtain ⟨messages, cursor⟩ := p
          have hcursor : cursor ≠ .zero := hmore _ (List.mem_cons_self ..)
          have hrest := ih (fun q hq => hmore q (List.mem_cons_of_mem _ hq))
            (Nat.lt_of_succ_lt_succ hpages) cursor (all ++ Consumer.parsed messages)
          rw [List.append_assoc, ← parsed_append] at hrest
          change Prog.solo (S := sig) scripted (if cursor = .zero then _ else _) _ = _
          rw [if_neg hcursor]
          exact hrest

/-- All the messages of the list are handed on. -/
theorem scripted_dispatchAll (w : Worker) (claimed : List (JobEnvelope × StreamID)) (x : Script) :
    (w.dispatchAll claimed).solo (S := sig) scripted x =
      some ((), { x with handed := x.handed ++ claimed.map fun m => ⟨w.run, m.1, m.2⟩ }) := by
  induction claimed generalizing x with
  | nil => simp [Worker.dispatchAll, Prog.solo]
  | cons m rest ih =>
      obtain ⟨e, id⟩ := m
      have hrest := ih { x with handed := x.handed ++ [⟨w.run, e, id⟩] }
      rw [List.append_assoc] at hrest
      exact hrest

/-- Every well-formed message that changed hands was handed to `processMessage`. -/
def Dispatched (run : Nat) (R : PageReplies) (x : Script) : Prop :=
  ∀ m ∈ R.claimed, ∀ e id, Consumer.parseMessage m = .ok (e, id) → ⟨run, e, id⟩ ∈ x.handed

/-- `reclaimStale` after a loop without error: all that was claimed is dispatched. -/
theorem scripted_reclaimStale_of_ok (w : Worker) (R : PageReplies) {pages : Nat}
    (hpages : R.pages.length < pages)
    (hlast : lastResult (Consumer.parsed R.claimedBefore) R.last =
      (Consumer.parsed R.claimed, none)) :
    (w.reclaimStale pages).solo (S := sig) scripted ⟨R.replies, []⟩ = some (.ok (),
      ⟨[], (Consumer.parsed R.claimed).map fun m => ⟨w.run, m.1, m.2⟩⟩) := by
  have hloop := scripted_reclaimPages w.consumer w.run w.config.reclaimIdleTime
    w.config.reclaimBatchSize R.more R.last hpages .zero [] []
  rw [List.nil_append] at hloop
  have hloop : _ = some (some (lastResult (Consumer.parsed R.claimedBefore) R.last), _) := hloop
  rw [hlast] at hloop
  refine (Prog.solo_seq (S := sig) hloop _).trans ?_
  exact Prog.solo_seq (S := sig) (scripted_dispatchAll w (Consumer.parsed R.claimed) ⟨[], []⟩) _

/-- `reclaimStale` after a loop that ended with an error: nothing is dispatched. -/
theorem scripted_reclaimStale_of_error (w : Worker) (R : PageReplies) {pages : Nat}
    (hpages : R.pages.length < pages) (hfails : R.Fails) :
    ∃ msg, (w.reclaimStale pages).solo (S := sig) scripted ⟨R.replies, []⟩ =
      some (.error msg, ⟨[], []⟩) := by
  obtain ⟨err, hlast, hnil⟩ := hfails
  have hloop := scripted_reclaimPages w.consumer w.run w.config.reclaimIdleTime
    w.config.reclaimBatchSize R.more R.last hpages .zero [] []
  have hresult : ∀ all, ∃ msg, lastResult all R.last = (all, some msg) := by
    intro all
    rw [hlast]
    cases err with
    | nil => exact absurd rfl hnil
    | context => exact ⟨_, rfl⟩
    | server msg => exact ⟨_, rfl⟩
  obtain ⟨msg, hmsg⟩ := hresult ([] ++ Consumer.parsed (R.pages.flatMap (·.1)))
  rw [hmsg] at hloop
  exact ⟨_, Prog.solo_seq (S := sig) hloop _⟩

theorem mem_handed {run : Nat} {msgs : List (Entry Values)} {e : JobEnvelope} {id : StreamID} :
    ⟨run, e, id⟩ ∈ (Consumer.parsed msgs).map (fun m => (⟨run, m.1, m.2⟩ : Delivery)) ↔
      ∃ m ∈ msgs, Consumer.parseMessage m = .ok (e, id) := by
  rw [← mem_parsed_iff]
  simp only [List.mem_map, Delivery.mk.injEq, true_and]
  constructor
  · rintro ⟨⟨e', id'⟩, hmem, rfl, rfl⟩
    exact hmem
  · exact fun hmem => ⟨(e, id), hmem, rfl, rfl⟩

/-- One reclaim of a worker that is not cancelled, for every sequence of replies: all
    well-formed messages that changed hands are dispatched, unless a page fails after
    one that had such a message. -/
theorem claimed_dispatched_iff (w : Worker) (R : PageReplies) (pages : Nat)
    (hpages : R.pages.length < pages) :
    ∃ res x, (w.reclaimStale pages).solo (S := sig) scripted ⟨R.replies, []⟩ = some (res, x) ∧
      (Dispatched w.run R x ↔
        ¬ (R.Fails ∧ ∃ m ∈ R.claimedBefore, ∃ job, Consumer.parseMessage m = .ok job)) := by
  by_cases hfails : R.Fails
  · obtain ⟨msg, hsolo⟩ := scripted_reclaimStale_of_error w R hpages hfails
    refine ⟨_, _, hsolo, ?_⟩
    have hclaimed : R.claimed = R.claimedBefore := by
      obtain ⟨err, hlast, -⟩ := hfails
      unfold PageReplies.claimed
      rw [hlast]
      exact List.append_nil _
    constructor
    · rintro hdisp ⟨-, m, hm, ⟨e, id⟩, hjob⟩
      have hhanded := hdisp m (hclaimed ▸ hm) e id hjob
      cases hhanded
    · intro hnone m hm e id hjob
      exact absurd ⟨hfails, m, hclaimed ▸ hm, _, hjob⟩ hnone
  · have hlast : lastResult (Consumer.parsed R.claimedBefore) R.last =
        (Consumer.parsed R.claimed, none) := by
      unfold PageReplies.claimed
      cases hl : R.last with
      | ok messages =>
          simp only [lastResult, ← parsed_append]
          rfl
      | error err =>
          cases err with
          | nil =>
              simp only [lastResult]
              have hnone : (Except.error RedisError.nil :
                  Except RedisError (List (Entry Values))).toOption.getD [] = [] := rfl
              rw [hnone, List.append_nil]
          | context => exact absurd ⟨_, hl, RedisError.noConfusion⟩ hfails
          | server msg => exact absurd ⟨_, hl, RedisError.noConfusion⟩ hfails
    refine ⟨_, _, scripted_reclaimStale_of_ok w R hpages hlast, iff_of_true ?_ fun h => hfails h.1⟩
    intro m hm e id hjob
    exact mem_handed.mpr ⟨m, hm, hjob⟩

/-- A first page with one message, and what the second is answered. -/
def twoPages (text : Text) (second : Except RedisError (List (Entry Values))) : PageReplies where
  pages := [([⟨.of 1 0, jobValues text⟩], .of 2 0)]
  more := fun p hp => by
    have hne : StreamID.of 2 0 ≠ .zero := by decide
    rw [List.mem_singleton.mp hp]
    exact hne
  last := second

/-- Both pages arrive. -/
theorem claimed_dispatched_iff_twoPages : ∃ text res x,
    (((Deployment.ofDefaults true).worker 0).reclaimStale 2).solo (S := sig) scripted
      ⟨(twoPages text (.ok [])).replies, []⟩ = some (res, x) ∧
    Dispatched 0 (twoPages text (.ok [])) x := by
  obtain ⟨text, -⟩ := exists_zeroJob
  obtain ⟨res, x, hsolo, hiff⟩ := claimed_dispatched_iff ((Deployment.ofDefaults true).worker 0)
    (twoPages text (.ok [])) 2 (Nat.lt_add_one 1)
  refine ⟨text, res, x, hsolo, hiff.mpr ?_⟩
  rintro ⟨⟨err, hlast, -⟩, -⟩
  cases hlast

/-- The second page fails; the message of the first now belongs to this worker, which
    does not process it. -/
theorem claimed_dropped : ∃ text x msg,
    (((Deployment.ofDefaults true).worker 0).reclaimStale 2).solo (S := sig) scripted
      ⟨(twoPages text (.error (.server "connection reset"))).replies, []⟩ = some (.error msg, x) ∧
    ¬ Dispatched 0 (twoPages text (.error (.server "connection reset"))) x := by
  obtain ⟨text, -, hjob⟩ := exists_zeroJob
  obtain ⟨msg, hsolo⟩ := scripted_reclaimStale_of_error ((Deployment.ofDefaults true).worker 0)
    (twoPages text (.error (.server "connection reset"))) (Nat.lt_add_one 1)
    ⟨_, rfl, RedisError.noConfusion⟩
  refine ⟨text, _, msg, hsolo, fun hdisp => ?_⟩
  have hparse : Consumer.parseMessage ⟨.of 1 0, jobValues text⟩ = .ok (.zero, .of 1 0) :=
    parseMessage_eq_ok.mpr ⟨hjob, rfl⟩
  have hhanded := hdisp _ (List.mem_append_left _ (List.mem_singleton_self _)) _ _ hparse
  cases hhanded

end LogPipeline.Cluster
