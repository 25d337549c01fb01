/-
  LogPipeline.Cluster.Refinement

  The deployed system follows its protocol: whatever fails, is cancelled or
  crashes, the log of every reachable configuration is valid.

  The proof has two halves.  The first is here: `Tied` connects the server's streams
  and keys to the log, so that every reply is one the protocol allows
  (`runCmd_served`).  The second, about the programs, is
  `LogPipeline.Cluster.Programs`, where `reachable_valid` puts them together.
-/

import LogPipeline.Cluster.Protocol

namespace LogPipeline.Cluster

open Conc Go Redis Queue Bootstrap

-- ============================================================================
-- The server
-- ============================================================================

/-- The server's data and the goroutines in waiting, as the log accounts for
    them. -/
structure Tied (D : Deployment) (s : Store) : Prop where
  entry_added : ∀ stream, ∀ e ∈ (s.streams stream).entries, s.log.Added stream e.id e.values
  added_le : ∀ stream id v, s.log.Added stream id v → id ≤ (s.streams stream).lastID
  key_claimed : ∀ key k, s.keys key = some k → ∃ e ∈ s.log, e.ev.Claims key k.expires
  claim_kept : ∀ e ∈ s.log, ∀ key x, e.ev.Claims key x →
    (∃ y, x = some y ∧ y ≤ s.now) ∨ ∃ k, s.keys key = some k ∧ k.expires = x
  ready_held : ∀ d ∈ s.ready, Held D s.log d

/-- What one logged step has to provide to keep the store tied to the log. -/
theorem Tied.logged {D : Deployment} {s s' : Store} {e : Event Ev} (ht : Tied D s)
    (hlog : s'.log = e :: s.log) (hnow : s.now ≤ s'.now)
    (hentries : ∀ stream, ∀ x ∈ (s'.streams stream).entries,
      x ∈ (s.streams stream).entries ∨ e.ev.Adds stream x.id x.values)
    (hlast : ∀ stream, (s.streams stream).lastID ≤ (s'.streams stream).lastID)
    (hadds : ∀ stream id v, e.ev.Adds stream id v → id ≤ (s'.streams stream).lastID)
    (hkeys : ∀ key k, s'.keys key = some k → s.keys key = some k ∨ e.ev.Claims key k.expires)
    (hkept : ∀ key k, s.keys key = some k →
      s'.keys key = some k ∨ ∃ y, k.expires = some y ∧ y ≤ s'.now)
    (hclaims : ∀ key x, e.ev.Claims key x → ∃ k, s'.keys key = some k ∧ k.expires = x)
    (hready : ∀ d ∈ s'.ready, d ∈ s.ready) : Tied D s' := by
  have hsub : ∀ x ∈ s.log, x ∈ s'.log := by
    intro x hx
    rw [hlog]
    exact List.mem_cons_of_mem _ hx
  have hnew : ∀ {P : Event Ev → Prop}, (∃ x ∈ s'.log, P x) → (∃ x ∈ s.log, P x) ∨ P e := by
    rintro P ⟨x, hx, hP⟩
    rw [hlog] at hx
    rcases List.mem_cons.mp hx with rfl | hx
    · exact Or.inr hP
    · exact Or.inl ⟨x, hx, hP⟩
  have he : e ∈ s'.log := by
    rw [hlog]
    exact List.mem_cons_self ..
  refine ⟨?_, ?_, ?_, ?_, ?_⟩
  · intro stream x hx
    rcases hentries stream x hx with hx | hx
    · exact (ht.entry_added stream x hx).mono hsub
    · exact ⟨e, he, hx⟩
  · intro stream id v hadd
    rcases hnew hadd with hold | hev
    · exact (ht.added_le stream id v hold).trans (hlast stream)
    · exact hadds stream id v hev
  · intro key k hk
    rcases hkeys key k hk with hk | hev
    · obtain ⟨x, hx, hxc⟩ := ht.key_claimed key k hk
      exact ⟨x, hsub x hx, hxc⟩
    · exact ⟨e, he, hev⟩
  · intro x hx key exp hxc
    rw [hlog] at hx
    rcases List.mem_cons.mp hx with rfl | hx
    · exact Or.inr (hclaims key exp hxc)
    · rcases ht.claim_kept x hx key exp hxc with ⟨y, hy, hle⟩ | ⟨k, hk, hke⟩
      · exact Or.inl ⟨y, hy, hle.trans hnow⟩
      · rcases hkept key k hk with hk | ⟨y, hy, hle⟩
        · exact Or.inr ⟨k, hk, hke⟩
        · exact Or.inl ⟨y, by rw [← hke, hy], hle⟩
  · intro d hd
    exact (ht.ready_held d (hready d hd)).mono hsub

/-- A logged step that leaves streams and keys alone. -/
theorem Tied.logged_only {D : Deployment} {s s' : Store} {e : Event Ev} (ht : Tied D s)
    (hlog : s'.log = e :: s.log) (hnow : s'.now = s.now) (hstreams : s'.streams = s.streams)
    (hkeys : s'.keys = s.keys) (hready : ∀ d ∈ s'.ready, d ∈ s.ready)
    (hadds : ∀ stream id v, ¬ e.ev.Adds stream id v) (hclaims : ∀ key x, ¬ e.ev.Claims key x) :
    Tied D s' :=
  ht.logged hlog hnow.ge (fun _ _ hx => Or.inl (hstreams ▸ hx)) (fun _ => hstreams ▸ le_refl _)
    (fun stream id v h => absurd h (hadds stream id v)) (fun _ _ hk => Or.inl (hkeys ▸ hk))
    (fun _ _ hk => Or.inl (hkeys ▸ hk)) (fun key x h => absurd h (hclaims key x)) hready

theorem servedCmd_error (h : Log) (now : Nat) (c : Cmd) (err : RedisError) :
    ServedCmd h now c (.error err) := by
  cases c <;> trivial

/-- Every reply of the server is one the protocol allows. -/
theorem runCmd_served {D : Deployment} {s s' : Store} {ch : Choice} {c : Cmd}
    {r : Except RedisError c.Reply} (ht : Tied D s) (h : runCmd ch s c = some (r, s')) :
    ServedCmd s.log s.now c r := by
  cases c with
  | setNX key value ttl =>
      rcases runCmd_setNX h with ⟨-, ⟨err, rfl⟩, -⟩ | ⟨hlive, rfl, -⟩ | ⟨hdead, rfl, -⟩
      · trivial
      · obtain ⟨k, hk, hx⟩ := hlive
        obtain ⟨e, he, hc⟩ := ht.key_claimed key k hk
        exact ⟨e, he, k.expires, hc, hx⟩
      · intro e he x hc
        rcases ht.claim_kept e he key x hc with hexp | ⟨k, hk, hkx⟩
        · exact hexp
        · by_contra hno
          refine hdead ⟨k, hk, ?_⟩
          intro y hy
          by_contra hlt
          exact hno ⟨y, by rw [← hkx, hy], not_lt.mp hlt⟩
  | xAdd stream maxLen v =>
      simp only [runCmd] at h
      split at h
      · next hlt =>
          split at h
          · cases h
            intro id' v' ha
            exact lt_of_le_of_lt (ht.added_le stream id' v' ha) hlt
          · cases h
      · cases h
  | xRange stream lo hi =>
      cases h
      intro m hm
      simp only [Stream.xrange, List.mem_filter, Bool.and_eq_true, decide_eq_true_eq] at hm
      exact ⟨ht.entry_added stream m hm.1, hm.2.1, hm.2.2⟩
  | xReadGroup stream group consumer block =>
      simp only [runCmd] at h
      split at h
      · cases h
        trivial
      · cases h
        trivial
      · next e x hx =>
          cases h
          rcases Stream.xreadgroup_cases hx with ⟨hno, -⟩ | ⟨g, e', hlt, hle, -, hnext, heq, -⟩
          · cases hno
          · cases heq
            intro m hm
            obtain rfl := List.mem_singleton.mp hm
            exact ht.entry_added stream m (Stream.nextEntry_mem hnext).1
  | xAutoClaim stream group consumer minIdle start count =>
      simp only [runCmd] at h
      split at h
      · cases h
        trivial
      · next es cursor x hx =>
          cases h
          intro m hm
          exact ht.entry_added stream m ((Stream.xautoclaim_eq hx).1 m hm)
  | xAck stream group id =>
      cases h
      trivial
  | xDel stream id =>
      cases h
      trivial
  | xGroupCreateMkStream stream group =>
      simp only [runCmd] at h
      split at h <;> cases h <;> trivial
  | xLen stream =>
      cases h
      trivial
  | xPending stream group =>
      simp only [runCmd] at h
      split at h <;> cases h <;> trivial

/-- A logged command that rewrites one stream without adding entries. -/
theorem Tied.logged_stream {D : Deployment} {s : Store} {t : Nat} {ev : Ev} {name : String}
    {x : Stream Values} (ht : Tied D s) (hent : ∀ e ∈ x.entries, e ∈ (s.streams name).entries)
    (hlast : x.lastID = (s.streams name).lastID)
    (hadds : ∀ stream id v, ¬ ev.Adds stream id v) (hclaims : ∀ key x, ¬ ev.Claims key x) :
    Tied D ((s.setStream name x).record (some t) ev) := by
  have hstream : ∀ stream, (∀ e ∈ ((s.setStream name x).streams stream).entries,
      e ∈ (s.streams stream).entries) ∧
      ((s.setStream name x).streams stream).lastID = (s.streams stream).lastID := by
    intro stream
    by_cases hn : stream = name
    · subst hn
      simpa [Store.setStream] using ⟨hent, hlast⟩
    · simp [Store.setStream, Function.update_of_ne hn]
  refine ht.logged rfl (le_refl _) (fun stream e he => Or.inl ((hstream stream).1 e he))
    (fun stream => (hstream stream).2.ge) (fun stream id v h => absurd h (hadds stream id v))
    (fun _ _ hk => Or.inl hk) (fun _ _ hk => Or.inl hk)
    (fun key x h => absurd h (hclaims key x)) (fun _ hd => hd)

theorem not_adds_cmd {ctx : Ctx} {c : Cmd} {r : Except RedisError c.Reply} {now : Nat}
    (hc : ∀ stream maxLen v, c ≠ .xAdd stream maxLen v) (stream : String) (id : StreamID)
    (v : Values) : ¬ (Ev.cmd ctx c r now).Adds stream id v := by
  rintro ⟨ctx', maxLen, now', h⟩
  cases h
  exact hc _ _ _ rfl

theorem not_claims_cmd {ctx : Ctx} {c : Cmd} {r : Except RedisError c.Reply} {now : Nat}
    (hc : ∀ key value ttl, c ≠ .setNX key value ttl) (key : String) (x : Option Nat) :
    ¬ (Ev.cmd ctx c r now).Claims key x := by
  rintro ⟨ctx', value, ttl, now', h, -⟩
  cases h
  exact hc _ _ _ rfl

theorem not_adds_error {ctx : Ctx} {c : Cmd} {err : RedisError} {now : Nat} (stream : String)
    (id : StreamID) (v : Values) : ¬ (Ev.cmd ctx c (.error err) now).Adds stream id v := by
  rintro ⟨ctx', maxLen, now', h⟩
  cases h

theorem not_claims_error {ctx : Ctx} {c : Cmd} {err : RedisError} {now : Nat} (key : String)
    (x : Option Nat) : ¬ (Ev.cmd ctx c (.error err) now).Claims key x := by
  rintro ⟨ctx', value, ttl, now', h, -⟩
  cases h

/-- A command that fails changes nothing but the log. -/
theorem Tied.failed {D : Deployment} {s : Store} {t : Nat} {ctx : Ctx} {c : Cmd}
    {err : RedisError} {now : Nat} (ht : Tied D s) :
    Tied D (s.record (some t) (.cmd ctx c (.error err) now)) :=
  ht.logged_only rfl rfl rfl rfl (fun _ hd => hd) not_adds_error not_claims_error

/-- An executed command keeps the store tied to the log. -/
theorem runCmd_tied {D : Deployment} {s s' : Store} {ch : Choice} {t : Nat} {ctx : Ctx} {c : Cmd}
    {r : Except RedisError c.Reply} (ht : Tied D s) (h : runCmd ch s c = some (r, s')) :
    Tied D (s'.record (some t) (.cmd ctx c r s.now)) := by
  cases c with
  | setNX key value ttl =>
      rcases runCmd_setNX h with ⟨-, ⟨err, rfl⟩, rfl⟩ | ⟨-, rfl, rfl⟩ | ⟨hdead, rfl, rfl⟩
      · exact ht.failed
      · refine ht.logged_only rfl rfl rfl rfl (fun _ hd => hd) (not_adds_cmd (by simp)) ?_
        rintro k x ⟨ctx', value', ttl', now', hev, -⟩
        cases hev
      · refine ht.logged rfl (le_refl _) (fun _ _ hx => Or.inl hx) (fun _ => le_refl _) ?_ ?_
          ?_ ?_ (fun _ hd => hd)
        · exact fun stream id v hev => absurd hev (not_adds_cmd (by simp) stream id v)
        · intro key' k hk
          by_cases hkey : key' = key
          · subst hkey
            obtain rfl : (⟨value, expiry s.now ttl⟩ : Key) = k := by
              simpa [Store.record] using hk
            exact Or.inr ⟨ctx, value, ttl, s.now, rfl, rfl⟩
          · exact Or.inl (by simpa [Store.record, Function.update_of_ne hkey] using hk)
        · intro key' k hk
          by_cases hkey : key' = key
          · -- the key that was there has expired
            subst hkey
            right
            by_contra hno
            refine hdead ⟨k, hk, ?_⟩
            intro y hy
            by_contra hlt
            exact hno ⟨y, hy, not_lt.mp hlt⟩
          · exact Or.inl (by simpa [Store.record, Function.update_of_ne hkey] using hk)
        · rintro key' x ⟨ctx', value', ttl', now', hev, rfl⟩
          cases hev
          exact ⟨⟨value, expiry s.now ttl⟩, by simp [Store.record], rfl⟩
  | xAdd stream maxLen v =>
      simp only [runCmd] at h
      split at h
      · next hlt =>
          split at h
          · cases h
            refine ht.logged rfl (le_refl _) ?_ ?_ ?_ (fun _ _ hk => Or.inl hk)
              (fun _ _ hk => Or.inl hk)
              (fun key x hev => absurd hev (not_claims_cmd (by simp) key x)) (fun _ hd => hd)
            · intro name x hx
              by_cases hn : name = stream
              · subst hn
                simp only [Store.record, Store.setStream, Function.update_self] at hx
                rcases Stream.mem_xadd_entries hx with hx | rfl
                · exact Or.inl hx
                · exact Or.inr ⟨ctx, maxLen, s.now, rfl⟩
              · simp only [Store.record, Store.setStream, Function.update_of_ne hn] at hx
                exact Or.inl hx
            · intro name
              by_cases hn : name = stream
              · subst hn
                simpa [Store.record, Store.setStream] using hlt.le
              · simp [Store.record, Store.setStream, Function.update_of_ne hn]
            · rintro name id v' ⟨ctx', maxLen', now', hev⟩
              cases hev
              simp [Store.record, Store.setStream]
          · cases h
      · cases h
  | xAck stream group id =>
      cases h
      exact ht.logged_stream (by simp) (by simp) (not_adds_cmd (by simp))
        (not_claims_cmd (by simp))
  | xDel stream id =>
      cases h
      exact ht.logged_stream (fun e he => (Stream.mem_xdel_entries.mp he).1) rfl
        (not_adds_cmd (by simp)) (not_claims_cmd (by simp))
  | xRange stream lo hi =>
      cases h
      exact ht.logged_only rfl rfl rfl rfl (fun _ hd => hd) (not_adds_cmd (by simp))
        (not_claims_cmd (by simp))
  | xReadGroup stream group consumer block =>
      have hset : ∀ {r' x}, (s.streams stream).xreadgroup group consumer s.now = some (r', x) →
          (∀ e ∈ x.entries, e ∈ (s.streams stream).entries) ∧
            x.lastID = (s.streams stream).lastID := by
        intro r' x hx
        rcases Stream.xreadgroup_cases hx with ⟨-, rfl⟩ | ⟨g, e, hlt, hle, -, -, -, rfl⟩
        · exact ⟨fun _ he => he, rfl⟩
        · exact ⟨fun _ he => he, rfl⟩
      simp only [runCmd] at h
      split at h
      · cases h
        exact ht.failed
      · next x hx =>
          cases h
          exact ht.logged_stream (hset hx).1 (hset hx).2 not_adds_error not_claims_error
      · next e x hx =>
          cases h
          exact ht.logged_stream (hset hx).1 (hset hx).2 (not_adds_cmd (by simp))
            (not_claims_cmd (by simp))
  | xAutoClaim stream group consumer minIdle start count =>
      simp only [runCmd] at h
      split at h
      · cases h
        exact ht.failed
      · next es cursor x hx =>
          cases h
          obtain ⟨-, g, hle, -, rfl⟩ := Stream.xautoclaim_eq hx
          exact ht.logged_stream (fun _ he => he) rfl (not_adds_cmd (by simp))
            (not_claims_cmd (by simp))
  | xGroupCreateMkStream stream group =>
      simp only [runCmd] at h
      split at h
      · cases h
        exact ht.failed
      · next x hx =>
          cases h
          obtain ⟨-, hent, hlast, -⟩ := Stream.xgroupCreate_eq hx
          exact ht.logged_stream (fun _ he => hent ▸ he) hlast (not_adds_cmd (by simp))
            (not_claims_cmd (by simp))
  | xLen stream =>
      cases h
      exact ht.logged_only rfl rfl rfl rfl (fun _ hd => hd) (not_adds_cmd (by simp))
        (not_claims_cmd (by simp))
  | xPending stream group =>
      simp only [runCmd] at h
      split at h
      · cases h
        exact ht.failed
      · cases h
        exact ht.logged_only rfl rfl rfl rfl (fun _ hd => hd) (not_adds_cmd (by simp))
          (not_claims_cmd (by simp))

-- ============================================================================
-- The outline
-- ============================================================================

/-- What a task has to know before a call. -/
def Deployment.Pre (D : Deployment) (t : Nat) (o : Op) (s : Store) : Prop :=
  match o with
  | .uuid => ∀ ev ∈ s.log.own t, ∃ uuid, ev = .minted uuid
  | .redis ctx c => D.MayIssue (s.log.own t) ctx c
  | .invoke e => D.May (s.log.own t) (.invoked e)
  | .await e => ∃ o, s.log.own t = .invoked e :: o
  | .goProcess run e id => Held D s.log ⟨run, e, id⟩
  | .jobEnd run => D.May (s.log.own t) (.finished run)
  | .note n => D.May (s.log.own t) (.noted n)
  | .now => True
  | .ctxDone _ => True
  | .timerOrDone _ => True
  | .semAcquire _ => True
  | .jobBegin _ => True
  | .jobDone _ => True

theorem Valid.record {D : Deployment} {s s₁ : Store} {t : Nat} {ev : Ev} (hv : Valid D s.log)
    (hlog : s₁.log = s.log) (hserved : Served D s.log ev) (hmay : D.May (s.log.own t) ev) :
    Valid D (s₁.record (some t) ev).log := by
  simp only [Store.record, hlog]
  exact ⟨hv, hserved, hmay⟩

/-- A call made when its condition holds keeps the log valid and the store tied
    to it. -/
theorem exec_inv {D : Deployment} {t : Nat} {ch : Choice} {o : Op} {s s' : Store} {r : o.Res}
    (hv : Valid D s.log) (ht : Tied D s) (hpre : D.Pre t o s)
    (hex : exec D t ch o s = some (r, s')) : Valid D s'.log ∧ Tied D s' := by
  have hadds : ∀ {ev : Ev}, (∀ ctx c r now, ev ≠ .cmd ctx c r now) →
      (∀ stream id v, ¬ ev.Adds stream id v) ∧ ∀ key x, ¬ ev.Claims key x := by
    intro ev hev
    constructor
    · rintro stream id v ⟨ctx, maxLen, now, h⟩
      exact hev _ _ _ _ h
    · rintro key x ⟨ctx, value, ttl, now, h, -⟩
      exact hev _ _ _ _ h
  cases o with
  | redis ctx c =>
      obtain ⟨s₁, hans, rfl⟩ := exec_redis hex
      have hlog := (answer_frame hans).1
      rcases answer_cases hans with ⟨hdone, rfl, rfl⟩ | ⟨hdone, msg, -, rfl, rfl⟩ |
        ⟨hdone, -, hrun⟩
      · exact ⟨hv.record rfl ⟨fun _ => rfl, servedCmd_error ..⟩ hpre, ht.failed⟩
      · exact ⟨hv.record rfl ⟨fun h => absurd h hdone, servedCmd_error ..⟩ hpre, ht.failed⟩
      · exact ⟨hv.record hlog ⟨fun h => absurd h hdone, runCmd_served ht hrun⟩ hpre,
          runCmd_tied ht hrun⟩
  | uuid =>
      cases hex
      exact ⟨hv.record rfl trivial hpre, ht.logged_only rfl rfl rfl rfl (fun _ hd => hd)
        (hadds (by simp)).1 (hadds (by simp)).2⟩
  | invoke e =>
      cases hex
      exact ⟨hv.record rfl trivial hpre, ht.logged_only rfl rfl rfl rfl (fun _ hd => hd)
        (hadds (by simp)).1 (hadds (by simp)).2⟩
  | await e =>
      cases hex
      exact ⟨hv.record rfl trivial hpre, ht.logged_only rfl rfl rfl rfl (fun _ hd => hd)
        (hadds (by simp)).1 (hadds (by simp)).2⟩
  | note n =>
      cases hex
      exact ⟨hv.record rfl trivial hpre, ht.logged_only rfl rfl rfl rfl (fun _ hd => hd)
        (hadds (by simp)).1 (hadds (by simp)).2⟩
  | jobEnd run =>
      cases hex
      exact ⟨hv.record rfl trivial hpre, ht.logged_only rfl rfl rfl rfl (fun _ hd => hd)
        (hadds (by simp)).1 (hadds (by simp)).2⟩
  | goProcess run e id =>
      cases hex
      refine ⟨hv, ⟨ht.entry_added, ht.added_le, ht.key_claimed, ht.claim_kept, ?_⟩⟩
      intro d hd
      rcases List.mem_append.mp hd with hd | hd
      · exact ht.ready_held d hd
      · obtain rfl := List.mem_singleton.mp hd
        exact hpre
  | semAcquire run =>
      simp only [exec] at hex
      split at hex
      · cases hex
        exact ⟨hv, ht⟩
      · split at hex
        · cases hex
          exact ⟨hv, ht.entry_added, ht.added_le, ht.key_claimed, ht.claim_kept, ht.ready_held⟩
        · cases hex
  | now =>
      cases hex
      exact ⟨hv, ht⟩
  | ctxDone run =>
      cases hex
      exact ⟨hv, ht⟩
  | timerOrDone run =>
      cases hex
      exact ⟨hv, ht⟩
  | jobBegin run =>
      cases hex
      exact ⟨hv, ht.entry_added, ht.added_le, ht.key_claimed, ht.claim_kept, ht.ready_held⟩
  | jobDone run =>
      cases hex
      exact ⟨hv, ht.entry_added, ht.added_le, ht.key_claimed, ht.claim_kept, ht.ready_held⟩

theorem move_inv {D : Deployment} {m : Move} {s s' : Store} (hv : Valid D s.log) (ht : Tied D s)
    (hm : move m s = some s') : Valid D s'.log ∧ Tied D s' := by
  cases m with
  | tick ms =>
      cases hm
      refine ⟨hv, ht.entry_added, ht.added_le, ht.key_claimed, ?_, ht.ready_held⟩
      intro e he key x hc
      rcases ht.claim_kept e he key x hc with ⟨y, hy, hle⟩ | hk
      · exact Or.inl ⟨y, hy, hle.trans (Nat.le_add_right _ _)⟩
      · exact Or.inr hk
  | cancel run =>
      cases hm
      refine ⟨⟨hv, trivial, run, rfl⟩, ht.logged_only rfl rfl rfl rfl (fun _ hd => hd) ?_ ?_⟩
      · rintro stream id v ⟨ctx, maxLen, now, h⟩
        cases h
      · rintro key x ⟨ctx, value, ttl, now, h, -⟩
        cases h

/-- The proof outline of the refinement. -/
def outline (D : Deployment) (P : Policy (world D)) : Outline P where
  Known := fun _ => True
  Inv := fun s : Store => Valid D s.log ∧ Tied D s
  Pre := D.Pre
  inv_call := fun _ hinv hpre _ hex _ => exec_inv hinv.1 hinv.2 hpre hex
  inv_env := fun _ hinv _ hm _ => move_inv hinv.1 hinv.2 hm

end LogPipeline.Cluster
