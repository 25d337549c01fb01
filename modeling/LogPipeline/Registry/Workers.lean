/-
  LogPipeline.Registry.Workers

  `internal/registry/registry.go`: the worker registry.

  `register`, `heartbeat`, `deregister` and `listWorkers` are the source's functions, as
  programs.  In the system every worker runs its own calls one after the other, any
  number of `ListWorkers` calls run at the same time, and a step is a clock reading or one
  Redis command of one of them.  A worker may die between two steps and start again.

  The log says which calls of which worker were executed; `status` reads off it whether a
  worker is registered, since when, and when it was last seen.  A stored record agrees with
  the status of its worker (`Matches`): it is complete if the worker is registered, and has
  no worker id otherwise, so that the parser rejects what a late heartbeat leaves behind.
-/

import LogPipeline.Registry.ControlPlane
import Mathlib.Data.List.AList

namespace LogPipeline.Registry.Workers

open Conc Go
open Cluster (RedisError)

-- ============================================================================
-- Calls
-- ============================================================================

/-- The fields of a hash. -/
abbrev Fields := AList fun _ : String => String

inductive Op where
  | now
  | hSet (key : String) (values : List (String × String))
  | del (key : String)
  /-- `KEYS` with the pattern that is this text and a star. -/
  | keys (start : String)
  | hGetAll (key : String)

@[reducible] def Op.Res : Op → Type
  | .now => Instant
  | .hSet .. => Except RedisError Unit
  | .del _ => Except RedisError Unit
  | .keys _ => Except RedisError (List String)
  | .hGetAll _ => Except RedisError Fields

def sig : Sig := ⟨Op, Op.Res⟩

abbrev Program (α : Type) := Prog sig α

def call (o : Op) : Program o.Res := Prog.perform (S := sig) o

-- ============================================================================
-- The source
-- ============================================================================

def workerKeyPrefix : String := "worker:registry:"

/-- `WorkerInfo`, with its two times in seconds. -/
structure WorkerInfo where
  workerID : String
  lastSeen : Int64
  startedAt : Int64
deriving DecidableEq

def workerKey (workerID : String) : String := workerKeyPrefix ++ workerID

/-- `Register`; `none` is the nil error. -/
def register (workerID : String) : Program (Option String) := do
  let now ← call .now
  match ← call (.hSet (workerKey workerID) [("worker_id", workerID),
      ("last_seen", formatInt now.unix), ("started_at", formatInt now.unix)]) with
  | .error err => return some ("failed to register worker " ++ workerID ++ ": " ++ err.text)
  | .ok _ => return none

/-- `Heartbeat`. -/
def heartbeat (workerID : String) : Program (Option String) := do
  let now ← call .now
  match ← call (.hSet (workerKey workerID) [("last_seen", formatInt now.unix)]) with
  | .error err => return some ("failed to heartbeat worker " ++ workerID ++ ": " ++ err.text)
  | .ok _ => return none

/-- `Deregister`. -/
def deregister (workerID : String) : Program (Option String) := do
  match ← call (.del (workerKey workerID)) with
  | .error err => return some ("failed to deregister worker " ++ workerID ++ ": " ++ err.text)
  | .ok _ => return none

/-- An element of a map; the empty string if there is none. -/
def field (fields : Fields) (name : String) : String := (fields.lookup name).getD ""

/-- The error of `strconv.ParseInt`. -/
def parseIntError (s : String) : String :=
  let digits := match s.toList with
    | '-' :: cs => cs
    | '+' :: cs => cs
    | cs => cs
  "strconv.ParseInt: parsing " ++ quote s ++ ": " ++
    if parseDigits digits = none then "invalid syntax" else "value out of range"

/-- `parseWorkerInfo`. -/
def parseWorkerInfo (fields : Fields) : Except String WorkerInfo :=
  let workerID := field fields "worker_id"
  if workerID = "" then .error ("missing required field " ++ quote "worker_id")
  else
    match parseInt (field fields "last_seen") with
    | none => .error ("invalid last_seen " ++ quote (field fields "last_seen") ++ ": " ++
        parseIntError (field fields "last_seen"))
    | some lastSeenUnix =>
        match parseInt (field fields "started_at") with
        | none => .error ("invalid started_at " ++ quote (field fields "started_at") ++ ": " ++
            parseIntError (field fields "started_at"))
        | some startedAtUnix =>
            .ok { workerID := workerID, lastSeen := lastSeenUnix, startedAt := startedAtUnix }

/-- The loop of `ListWorkers` over the keys.  What cannot be read or parsed is logged and
    skipped. -/
def collect : List String → List WorkerInfo → Program (List WorkerInfo)
  | [], workers => return workers
  | key :: keys, workers => do
      match ← call (.hGetAll key) with
      | .error _ => collect keys workers
      | .ok fields =>
          if fields.entries.length = 0 then collect keys workers
          else
            match parseWorkerInfo fields with
            | .error _ => collect keys workers
            | .ok info => collect keys (workers ++ [info])

/-- `ListWorkers`. -/
def listWorkers : Program (Except String (List WorkerInfo)) := do
  match ← call (.keys workerKeyPrefix) with
  | .error err => return .error ("failed to list worker keys: " ++ err.text)
  | .ok keys => do
      let workers ← collect keys []
      return .ok workers

-- ============================================================================
-- The server
-- ============================================================================

/-- The hashes that exist. -/
abbrev Db := AList fun _ : String => Fields

/-- The hash with the key; empty if there is none. -/
def Db.record (db : Db) (key : String) : Fields := (db.lookup key).getD ∅

/-- The keys that start with a text. -/
def Db.matching (db : Db) (start : String) : List String :=
  db.keys.filter fun key => decide (start.toList <+: key.toList)

/-- The hash after fields were set. -/
def setFields (fields : Fields) (values : List (String × String)) : Fields :=
  values.foldl (fun fields kv => fields.insert kv.1 kv.2) fields

/-- One call.  `KEYS` replies in any order; `none` if the given one is not possible. -/
def exec (db : Db) (now : Instant) (order : List String) : (o : Op) → Option (o.Res × Db)
  | .now => some (now, db)
  | .hSet key values => some (.ok (), db.insert key (setFields (db.record key) values))
  | .del key => some (.ok (), db.erase key)
  | .keys start => if order.Perm (db.matching start) then some (.ok order, db) else none
  | .hGetAll key => some (.ok (db.record key), db)

-- ============================================================================
-- The system
-- ============================================================================

/-- A call of a worker. -/
inductive Call where
  | register
  | heartbeat
  | deregister
deriving DecidableEq

def Call.program : Call → String → Program (Option String)
  | .register, id => Workers.register id
  | .heartbeat, id => Workers.heartbeat id
  | .deregister, id => Workers.deregister id

/-- A worker in a call. -/
structure Busy where
  call : Call
  /-- When the call read the clock, or when it began. -/
  clock : Instant
  rest : Program (Option String)

inductive Ev where
  /-- The command of a worker's call was executed. -/
  | executed (workerID : String) (call : Call) (clock : Instant)
  /-- A call of `ListWorkers` began. -/
  | began (n : Nat)
  /-- It read a record. -/
  | read (n : Nat) (key : String)
  | returned (n : Nat) (res : Except String (List WorkerInfo))

/-- The log, newest event first. -/
abbrev Log := List Ev

structure State where
  db : Db
  now : Instant
  /-- The call each worker is in. -/
  workers : String → Option Busy
  /-- What is left of each call of `ListWorkers`. -/
  lists : Nat → Option (Program (Except String (List WorkerInfo)))
  next : Nat
  log : Log

def State.init : State := ⟨∅, .epoch, fun _ => none, fun _ => none, 0, []⟩

inductive Action where
  /-- A worker that is not in a call begins one. -/
  | begin (workerID : String) (call : Call)
  /-- It takes the next step of the call. -/
  | step (workerID : String)
  /-- It dies. -/
  | crash (workerID : String)
  | list
  /-- A call of `ListWorkers` takes its next step. -/
  | listStep (n : Nat) (order : List String)
  /-- The process that lists dies. -/
  | stop (n : Nat)
  | tick (now : Instant)
  /-- Somebody else writes or deletes a key. -/
  | other (key : String) (fields : Option Fields)

def Op.isClock : Op → Bool
  | .now => true
  | _ => false

/-- A worker's next step: the clock is read, or the command of the call executed. -/
def Busy.step (s : State) (id : String) (b : Busy) : Option State :=
  match b.rest with
  | .ret _ => some { s with workers := Function.update s.workers id none }
  | .call o k =>
      match exec s.db s.now [] o with
      | none => none
      | some (r, db) =>
          let clock := if Op.isClock o then s.now else b.clock
          some { s with
            db := db
            workers := Function.update s.workers id (some ⟨b.call, clock, k r⟩)
            log := if Op.isClock o then s.log else .executed id b.call b.clock :: s.log }

/-- What a step of `ListWorkers` adds to the log. -/
def logRead (n : Nat) (log : Log) : Op → Log
  | .hGetAll key => .read n key :: log
  | _ => log

/-- The next step of a call of `ListWorkers`. -/
def listStep (s : State) (n : Nat) (order : List String) :
    Program (Except String (List WorkerInfo)) → Option State
  | .ret res =>
      some { s with lists := Function.update s.lists n none, log := .returned n res :: s.log }
  | .call o k =>
      match exec s.db s.now order o with
      | none => none
      | some (r, db) =>
          some { s with
            db := db
            lists := Function.update s.lists n (some (k r))
            log := logRead n s.log o }

def State.apply (s : State) : Action → Option State
  | .begin id call =>
      match s.workers id with
      | none =>
          some { s with workers :=
            Function.update s.workers id (some ⟨call, s.now, call.program id⟩) }
      | some _ => none
  | .step id => (s.workers id).bind fun b => b.step s id
  | .crash id => some { s with workers := Function.update s.workers id none }
  | .list =>
      some { s with
        lists := Function.update s.lists s.next (some listWorkers)
        next := s.next + 1
        log := .began s.next :: s.log }
  | .listStep n order => (s.lists n).bind fun p => listStep s n order p
  | .stop n => some { s with lists := Function.update s.lists n none }
  | .tick now => if s.now.ns ≤ now.ns then some { s with now := now } else none
  | .other key fields =>
      if workerKeyPrefix.toList <+: key.toList then none
      else
        match fields with
        | some fields => some { s with db := s.db.insert key fields }
        | none => some { s with db := s.db.erase key }

-- ============================================================================
-- The property
-- ============================================================================

/-- Since when a worker is registered and when it was last seen; `none` if it is not
    registered. -/
def status (id : String) : Log → Option (Int64 × Int64)
  | [] => none
  | .executed id' call clock :: h =>
      if id' = id then
        match call with
        | .register => some (clock.unix, clock.unix)
        | .heartbeat => (status id h).map fun st => (st.1, clock.unix)
        | .deregister => none
      else status id h
  | _ :: h => status id h

/-- When the call `n` read the record of the worker, the worker was registered with these
    times. -/
def Seen (n : Nat) (h : Log) (info : WorkerInfo) : Prop :=
  ∃ g, .read n (workerKey info.workerID) :: g <:+ h ∧
    status info.workerID g = some (info.startedAt, info.lastSeen) ∧
    info.startedAt ≤ info.lastSeen

/-- What the call `n` of `ListWorkers` returns, with the log at that time. -/
structure Listed (n : Nat) (h : Log) (infos : List WorkerInfo) : Prop where
  /-- A worker that was registered all the time is listed. -/
  complete : ∀ id, id ≠ "" → (∀ g, g <:+ h → .began n ∈ g → status id g ≠ none) →
    ∃ info ∈ infos, info.workerID = id
  sound : ∀ info ∈ infos, Seen n h info
  nodup : (infos.map (·.workerID)).Nodup

/-- Every call of `ListWorkers` that has returned. -/
def ListsLive (h : Log) : Prop :=
  ∀ h₁ n res h₂, h = h₁ ++ .returned n res :: h₂ → ∃ infos, res = .ok infos ∧ Listed n h₂ infos

-- ============================================================================
-- Records
-- ============================================================================

theorem workerKey_injective {id id' : String} (h : workerKey id = workerKey id') : id = id' := by
  have hlist := congrArg String.toList h
  unfold workerKey at hlist
  rw [String.toList_append, String.toList_append] at hlist
  exact String.toList_inj.mp (List.append_cancel_left hlist)

/-- A key that `ListWorkers` asks for is that of a worker. -/
theorem exists_workerKey {key : String} (h : workerKeyPrefix.toList <+: key.toList) :
    ∃ id, key = workerKey id := by
  obtain ⟨rest, hrest⟩ := h
  refine ⟨String.ofList rest, ?_⟩
  rw [← String.toList_inj, workerKey, String.toList_append, String.toList_ofList, hrest]

theorem workerKeyPrefix_workerKey (id : String) :
    workerKeyPrefix.toList <+: (workerKey id).toList := by
  rw [workerKey, String.toList_append]
  exact List.prefix_append ..

section

variable {db : Db} {key key' : String} {fields : Fields}

theorem record_insert_self : Db.record (db.insert key fields) key = fields := by
  rw [Db.record, AList.lookup_insert, Option.getD_some]

theorem record_insert_ne (h : key' ≠ key) :
    Db.record (db.insert key fields) key' = Db.record db key' := by
  rw [Db.record, AList.lookup_insert_ne h, Db.record]

theorem record_erase_self : Db.record (db.erase key) key = ∅ := by
  rw [Db.record, AList.lookup_erase, Option.getD_none]

theorem record_erase_ne (h : key' ≠ key) : Db.record (db.erase key) key' = Db.record db key' := by
  rw [Db.record, AList.lookup_erase_ne h, Db.record]

/-- A record with a field exists. -/
theorem mem_of_record {name value : String}
    (h : (Db.record db key).lookup name = some value) : key ∈ db := by
  by_contra hnot
  rw [Db.record, AList.lookup_eq_none.mpr hnot, Option.getD_none, AList.lookup_empty] at h
  cases h

end

/-- The record of a worker agrees with its status. -/
def Matches (id : String) (fields : Fields) : Option (Int64 × Int64) → Prop
  | some st => fields.lookup "worker_id" = some id ∧
      fields.lookup "started_at" = some (formatInt st.1) ∧
      fields.lookup "last_seen" = some (formatInt st.2)
  | none => fields.lookup "worker_id" = none

theorem matches_register (id : String) (fields : Fields) (t : Int64) :
    Matches id (setFields fields [("worker_id", id), ("last_seen", formatInt t),
      ("started_at", formatInt t)]) (some (t, t)) := by
  simp only [setFields, List.foldl_cons, List.foldl_nil]
  refine ⟨?_, AList.lookup_insert _, ?_⟩
  · rw [AList.lookup_insert_ne (by decide), AList.lookup_insert_ne (by decide),
      AList.lookup_insert]
  · rw [AList.lookup_insert_ne (by decide), AList.lookup_insert]

theorem Matches.heartbeat {id : String} {fields : Fields} {st : Option (Int64 × Int64)}
    (h : Matches id fields st) (t : Int64) :
    Matches id (setFields fields [("last_seen", formatInt t)])
      (st.map fun st => (st.1, t)) := by
  simp only [setFields, List.foldl_cons, List.foldl_nil]
  cases st with
  | none =>
      change AList.lookup _ _ = none
      rw [AList.lookup_insert_ne (by decide)]
      exact h
  | some st =>
      obtain ⟨hid, hstarted, -⟩ := h
      refine ⟨?_, ?_, AList.lookup_insert _⟩
      · rw [AList.lookup_insert_ne (by decide), hid]
      · rw [AList.lookup_insert_ne (by decide), hstarted]

theorem matches_empty (id : String) : Matches id ∅ none := AList.lookup_empty _

/-- A complete record is parsed. -/
theorem Matches.parse {id : String} {fields : Fields} {st : Int64 × Int64}
    (h : Matches id fields (some st)) (hid : id ≠ "") :
    parseWorkerInfo fields = .ok ⟨id, st.2, st.1⟩ := by
  obtain ⟨hworker, hstarted, hseen⟩ := h
  simp only [parseWorkerInfo, field, hworker, hstarted, hseen, Option.getD_some, if_neg hid,
    parseInt_formatInt]

/-- A record without a worker id, or with an empty one, is not. -/
theorem Matches.not_parse {id : String} {fields : Fields} {st : Option (Int64 × Int64)}
    (h : Matches id fields st) (hst : st = none ∨ id = "") :
    ∃ err, parseWorkerInfo fields = .error err := by
  have hworker : field fields "worker_id" = "" := by
    unfold field
    cases st with
    | none =>
        rw [show fields.lookup "worker_id" = none from h]
        rfl
    | some st =>
        rcases hst with hst | rfl
        · cases hst
        · rw [h.1]
          rfl
  exact ⟨_, by rw [parseWorkerInfo, if_pos hworker]⟩

-- ============================================================================
-- Workers
-- ============================================================================

/-- The command of a call, for a reading of the clock. -/
def Call.command (id : String) (clock : Instant) : Call → Op
  | .register => .hSet (workerKey id) [("worker_id", id),
      ("last_seen", formatInt clock.unix), ("started_at", formatInt clock.unix)]
  | .heartbeat => .hSet (workerKey id) [("last_seen", formatInt clock.unix)]
  | .deregister => .del (workerKey id)

/-- What is left of a call is its command. -/
def Ready (id : String) (call : Call) (clock : Instant) (p : Program (Option String)) : Prop :=
  ∃ k, p = .call (call.command id clock) k ∧ ∀ r, ∃ x, k r = .ret x

/-- Where a worker can be in a call. -/
inductive Place (id : String) (b : Busy) : Prop
  | reading {k : Instant → Program (Option String)} (hk : b.rest = .call .now k)
      (hready : ∀ clock, Ready id b.call clock (k clock))
  | ready (hready : Ready id b.call b.clock b.rest)
  | finished {x : Option String} (hx : b.rest = .ret x)

theorem place_program (id : String) (call : Call) (clock : Instant) :
    Place id ⟨call, clock, call.program id⟩ := by
  cases call with
  | register =>
      refine .reading rfl fun clock => ⟨_, rfl, fun r => ?_⟩
      rcases r with err | u <;> exact ⟨_, rfl⟩
  | heartbeat =>
      refine .reading rfl fun clock => ⟨_, rfl, fun r => ?_⟩
      rcases r with err | u <;> exact ⟨_, rfl⟩
  | deregister =>
      refine .ready ⟨_, rfl, fun r => ?_⟩
      rcases r with err | u <;> exact ⟨_, rfl⟩

/-- What a step of a worker does. -/
theorem Busy.step_cases {s s' : State} {id : String} {b : Busy} (hp : Place id b)
    (h : b.step s id = some s') :
    s' = { s with workers := Function.update s.workers id none } ∨
    (∃ k : Instant → Program (Option String), (∀ clock, Ready id b.call clock (k clock)) ∧
      s' = { s with workers := Function.update s.workers id (some ⟨b.call, s.now, k s.now⟩) }) ∨
    ∃ r db x, exec s.db s.now [] (b.call.command id b.clock) = some (r, db) ∧
      s' = { s with
        db := db
        workers := Function.update s.workers id (some ⟨b.call, b.clock, .ret x⟩)
        log := .executed id b.call b.clock :: s.log } := by
  unfold Busy.step at h
  cases hp with
  | reading hk hready =>
      rw [hk] at h
      simp only [exec, Op.isClock, if_true] at h
      cases h
      exact Or.inr (Or.inl ⟨_, hready, rfl⟩)
  | ready hready =>
      obtain ⟨k, hk, hret⟩ := hready
      rw [hk] at h
      dsimp only at h
      have hclock : Op.isClock (b.call.command id b.clock) = false := by cases b.call <;> rfl
      cases hex : exec s.db s.now [] (b.call.command id b.clock) with
      | none =>
          rw [hex] at h
          cases h
      | some res =>
          rw [hex] at h
          obtain ⟨x, hx⟩ := hret res.1
          simp only [hclock, Bool.false_eq_true, if_false, hx] at h
          cases h
          exact Or.inr (Or.inr ⟨res.1, res.2, x, rfl, rfl⟩)
  | finished hx =>
      rw [hx] at h
      cases h
      exact Or.inl rfl

-- ============================================================================
-- Listing
-- ============================================================================

/-- At some time since the call `n` began the worker was not registered. -/
def Absent (n : Nat) (h : Log) (id : String) : Prop :=
  ∃ g, g <:+ h ∧ .began n ∈ g ∧ status id g = none

/-- The call `n` has collected `acc` and has yet to read the keys `todo`. -/
structure Collected (n : Nat) (h : Log) (todo : List String) (acc : List WorkerInfo) :
    Prop where
  began : .began n ∈ h
  keys : ∀ key ∈ todo, ∃ id, key = workerKey id
  distinct : todo.Nodup
  done : ∀ info ∈ acc, workerKey info.workerID ∉ todo
  nodup : (acc.map (·.workerID)).Nodup
  sound : ∀ info ∈ acc, Seen n h info
  complete : ∀ id, id ≠ "" →
    workerKey id ∈ todo ∨ (∃ info ∈ acc, info.workerID = id) ∨ Absent n h id

/-- What can be left of a call of `ListWorkers`. -/
inductive Listing (n : Nat) (h : Log) : Program (Except String (List WorkerInfo)) → Prop
  | first (hb : .began n ∈ h) : Listing n h listWorkers
  | loop {todo : List String} {acc : List WorkerInfo} (hc : Collected n h todo acc) :
      Listing n h ((collect todo acc).bind fun workers => .ret (.ok workers))

section

variable {n : Nat} {h h' : Log} {todo : List String} {acc : List WorkerInfo}

theorem Collected.mono (hc : Collected n h todo acc) (hsub : h <:+ h') :
    Collected n h' todo acc where
  began := hsub.subset hc.began
  keys := hc.keys
  distinct := hc.distinct
  done := hc.done
  nodup := hc.nodup
  sound := by
    intro info hinfo
    obtain ⟨g, hg, hst⟩ := hc.sound info hinfo
    exact ⟨g, hg.trans hsub, hst⟩
  complete := by
    intro id hid
    rcases hc.complete id hid with htodo | hinfo | ⟨g, hg, hst⟩
    · exact Or.inl htodo
    · exact Or.inr (Or.inl hinfo)
    · exact Or.inr (Or.inr ⟨g, hg.trans hsub, hst⟩)

theorem Listing.mono {p : Program (Except String (List WorkerInfo))} (hp : Listing n h p)
    (hsub : h <:+ h') : Listing n h' p := by
  cases hp with
  | first hb => exact .first (hsub.subset hb)
  | loop hc => exact .loop (hc.mono hsub)

theorem Collected.listed (hc : Collected n h [] acc) : Listed n h acc where
  complete := by
    intro id hid hall
    rcases hc.complete id hid with htodo | hinfo | ⟨g, hg, hb, hst⟩
    · cases htodo
    · exact hinfo
    · exact absurd hst (hall g hg hb)
  sound := hc.sound
  nodup := hc.nodup

/-- The records of the registered workers are there when the keys are listed. -/
theorem collected_keys {db : Db} {order : List String} (hb : .began n ∈ h)
    (hrec : ∀ id, Matches id (db.record (workerKey id)) (status id h))
    (hperm : order.Perm (db.matching workerKeyPrefix)) : Collected n h order [] where
  began := hb
  keys := by
    intro key hkey
    have hmem := List.mem_filter.mp (hperm.mem_iff.mp hkey)
    exact exists_workerKey (of_decide_eq_true hmem.2)
  distinct := hperm.nodup_iff.mpr (db.keys_nodup.filter _)
  done := by simp
  nodup := List.nodup_nil
  sound := by simp
  complete := by
    intro id _
    cases hst : status id h with
    | none => exact Or.inr (Or.inr ⟨h, List.suffix_refl h, hb, hst⟩)
    | some st =>
        left
        have hmatch := hrec id
        rw [hst] at hmatch
        refine hperm.mem_iff.mpr (List.mem_filter.mpr ⟨mem_of_record hmatch.1, ?_⟩)
        exact decide_eq_true (workerKeyPrefix_workerKey id)

/-- The key of a worker that is not listed is skipped. -/
theorem Collected.skip {id : String} (hc : Collected n h (workerKey id :: todo) acc)
    (hid : id = "" ∨ status id h = none) :
    Collected n (.read n (workerKey id) :: h) todo acc := by
  have hsub : h <:+ .read n (workerKey id) :: h := List.suffix_cons ..
  have hc' := hc.mono hsub
  refine ⟨hc'.began, fun key hkey => hc.keys key (List.mem_cons_of_mem _ hkey),
    (List.nodup_cons.mp hc.distinct).2, fun info hinfo hmem => ?_, hc.nodup, hc'.sound, ?_⟩
  · exact hc.done info hinfo (List.mem_cons_of_mem _ hmem)
  · intro id' hid'
    rcases hc'.complete id' hid' with htodo | hrest
    · rcases List.mem_cons.mp htodo with heq | htodo
      · -- the worker that is skipped: it is not registered now
        obtain rfl := workerKey_injective heq
        have hst := hid.resolve_left hid'
        exact Or.inr (Or.inr ⟨h, hsub, hc.began, hst⟩)
      · exact Or.inl htodo
    · exact Or.inr hrest

/-- The record of a registered worker is collected. -/
theorem Collected.take {id : String} {st : Int64 × Int64}
    (hc : Collected n h (workerKey id :: todo) acc) (hst : status id h = some st)
    (hle : st.1 ≤ st.2) :
    Collected n (.read n (workerKey id) :: h) todo (acc ++ [⟨id, st.2, st.1⟩]) := by
  have hsub : h <:+ .read n (workerKey id) :: h := List.suffix_cons ..
  have hc' := hc.mono hsub
  have hdistinct := List.nodup_cons.mp hc.distinct
  refine ⟨hc'.began, fun key hkey => hc.keys key (List.mem_cons_of_mem _ hkey),
    hdistinct.2, ?_, ?_, ?_, ?_⟩
  · intro info hinfo hmem
    rcases List.mem_append.mp hinfo with hinfo | hinfo
    · exact hc.done info hinfo (List.mem_cons_of_mem _ hmem)
    · obtain rfl := List.mem_singleton.mp hinfo
      exact hdistinct.1 hmem
  · rw [List.map_append, List.map_singleton, List.nodup_append]
    refine ⟨hc.nodup, List.nodup_singleton _, ?_⟩
    intro x hx y hy hxy
    obtain ⟨info, hinfo, rfl⟩ := List.mem_map.mp hx
    obtain rfl := List.mem_singleton.mp hy
    exact hc.done info hinfo (List.mem_cons.mpr (Or.inl (congrArg workerKey hxy)))
  · intro info hinfo
    rcases List.mem_append.mp hinfo with hinfo | hinfo
    · exact hc'.sound info hinfo
    · obtain rfl := List.mem_singleton.mp hinfo
      exact ⟨h, List.suffix_refl _, hst, hle⟩
  · intro id' hid'
    rcases hc'.complete id' hid' with htodo | ⟨info, hinfo, hid⟩ | habsent
    · rcases List.mem_cons.mp htodo with heq | htodo
      · refine Or.inr (Or.inl ⟨_, List.mem_append_right _ (List.mem_singleton.mpr rfl), ?_⟩)
        exact (workerKey_injective heq).symm
      · exact Or.inl htodo
    · exact Or.inr (Or.inl ⟨info, List.mem_append_left _ hinfo, hid⟩)
    · exact Or.inr (Or.inr habsent)

/-- The rest of the loop after the reply to one HGETALL. -/
def afterReply (todo : List String) (acc : List WorkerInfo) (fields : Fields) :
    Program (List WorkerInfo) :=
  if fields.entries.length = 0 then collect todo acc
  else
    match parseWorkerInfo fields with
    | .error _ => collect todo acc
    | .ok info => collect todo (acc ++ [info])

theorem afterReply_error {fields : Fields} {err : String}
    (h : parseWorkerInfo fields = .error err) : afterReply todo acc fields = collect todo acc := by
  unfold afterReply
  rw [h]
  split <;> rfl

theorem afterReply_ok {fields : Fields} {info : WorkerInfo}
    (h : parseWorkerInfo fields = .ok info) :
    afterReply todo acc fields = collect todo (acc ++ [info]) := by
  have hne : fields.entries.length ≠ 0 := by
    intro hlen
    have hempty : fields = ∅ := AList.ext (List.eq_nil_of_length_eq_zero hlen)
    rw [hempty] at h
    cases h
  rw [afterReply, if_neg hne, h]

theorem listStep_call {s s' : State} {order : List String} {o : Op}
    {k : o.Res → Program (Except String (List WorkerInfo))}
    (h : listStep s n order (.call o k) = some s') :
    ∃ r db, exec s.db s.now order o = some (r, db) ∧ s' = { s with
      db := db
      lists := Function.update s.lists n (some (k r))
      log := logRead n s.log o } := by
  simp only [listStep] at h
  split at h
  · cases h
  · next r db hexec =>
      cases h
      exact ⟨r, db, hexec, rfl⟩

/-- One step of a call of `ListWorkers`: it returns, or goes on. -/
theorem listStep_cases {s s' : State} {order : List String}
    {p : Program (Except String (List WorkerInfo))} (hp : Listing n s.log p)
    (hrec : ∀ id, Matches id (s.db.record (workerKey id)) (status id s.log))
    (hle : ∀ id st, status id s.log = some st → st.1 ≤ st.2)
    (h : listStep s n order p = some s') :
    (∃ infos, Listed n s.log infos ∧ s' = { s with
      lists := Function.update s.lists n none
      log := .returned n (.ok infos) :: s.log }) ∨
    ∃ p' log, (log = s.log ∨ ∃ key, log = .read n key :: s.log) ∧ Listing n log p' ∧
      s' = { s with lists := Function.update s.lists n (some p'), log := log } := by
  cases hp with
  | first hb =>
      obtain ⟨r, db, hexec, rfl⟩ := listStep_call (o := .keys workerKeyPrefix) h
      simp only [exec] at hexec
      split at hexec
      · next hperm =>
          cases hexec
          exact Or.inr ⟨_, s.log, Or.inl rfl, .loop (collected_keys hb hrec hperm), rfl⟩
      · cases hexec
  | @loop todo acc hc =>
      cases todo with
      | nil =>
          cases h
          exact Or.inl ⟨acc, hc.listed, rfl⟩
      | cons key todo =>
          have hs : s' = { s with
              lists := Function.update s.lists n
                (some ((afterReply todo acc (s.db.record key)).bind fun workers =>
                  .ret (.ok workers)))
              log := .read n key :: s.log } := (Option.some.inj h).symm
          obtain ⟨id, rfl⟩ := hc.keys key (List.mem_cons_self ..)
          refine Or.inr ⟨_, _, Or.inr ⟨_, rfl⟩, ?_, hs⟩
          have hmatch := hrec id
          by_cases hskip : id = "" ∨ status id s.log = none
          · obtain ⟨err, herr⟩ := hmatch.not_parse hskip.symm
            rw [afterReply_error herr]
            exact .loop (hc.skip hskip)
          · obtain ⟨hid, hst⟩ := not_or.mp hskip
            obtain ⟨st, hst⟩ := Option.ne_none_iff_exists'.mp hst
            rw [hst] at hmatch
            rw [afterReply_ok (hmatch.parse hid)]
            exact .loop (hc.take hst (hle id st hst))

end

-- ============================================================================
-- The invariant
-- ============================================================================

theorem unix_mono {t t' : Instant} (h : t.ns ≤ t'.ns) : t.unix ≤ t'.unix := by
  rw [Int64.le_iff_toInt_le, Instant.unix_toInt, Instant.unix_toInt]
  exact_mod_cast Nat.div_le_div_right h

structure Inv (s : State) : Prop where
  record : ∀ id, Matches id (s.db.record (workerKey id)) (status id s.log)
  times : ∀ id st, status id s.log = some st → st.1 ≤ st.2 ∧ st.2 ≤ s.now.unix
  place : ∀ id b, s.workers id = some b → Place id b
  /-- A call has not read the clock before the worker was last seen. -/
  clock : ∀ id b, s.workers id = some b → b.clock.ns ≤ s.now.ns ∧
    ∀ st, status id s.log = some st → st.2 ≤ b.clock.unix
  lists : ∀ n p, s.lists n = some p → Listing n s.log p
  done : ListsLive s.log

theorem inv_init : Inv State.init where
  record := fun id => matches_empty id
  times := by
    intro id st hst
    cases hst
  place := by
    intro id b hb
    cases hb
  clock := by
    intro id b hb
    cases hb
  lists := by
    intro n p hp
    cases hp
  done := by
    intro h₁ n res h₂ hlog
    cases h₁ <;> cases hlog

theorem ListsLive.cons {h : Log} {e : Ev} (hl : ListsLive h)
    (he : ∀ n res, e = .returned n res → ∃ infos, res = .ok infos ∧ Listed n h infos) :
    ListsLive (e :: h) := by
  intro h₁ n res h₂ hlog
  cases h₁ with
  | nil =>
      cases hlog
      exact he n res rfl
  | cons x h₁ =>
      cases hlog
      exact hl h₁ n res h₂ rfl

section

variable {s s' : State} {id id' : String} {b : Busy}

/-- A worker leaves its call. -/
theorem Inv.dropWorker (hs : Inv s) :
    Inv { s with workers := Function.update s.workers id none } where
  record := hs.record
  times := hs.times
  place := by
    intro id' b hb
    rcases update_eq_some hb with ⟨-, hnone⟩ | ⟨-, hb⟩
    · cases hnone
    · exact hs.place id' b hb
  clock := by
    intro id' b hb
    rcases update_eq_some hb with ⟨-, hnone⟩ | ⟨-, hb⟩
    · cases hnone
    · exact hs.clock id' b hb
  lists := hs.lists
  done := hs.done

/-- A worker begins a call, or reads the clock in it. -/
theorem Inv.setWorker (hs : Inv s) (hp : Place id b) (hclock : b.clock = s.now) :
    Inv { s with workers := Function.update s.workers id (some b) } where
  record := hs.record
  times := hs.times
  place := by
    intro id' b' hb
    rcases update_eq_some hb with ⟨rfl, hnew⟩ | ⟨-, hb⟩
    · cases hnew
      exact hp
    · exact hs.place id' b' hb
  clock := by
    intro id' b' hb
    rcases update_eq_some hb with ⟨rfl, hnew⟩ | ⟨-, hb⟩
    · cases hnew
      rw [hclock]
      exact ⟨Nat.le_refl _, fun st hst => (hs.times id' st hst).2⟩
    · exact hs.clock id' b' hb
  lists := hs.lists
  done := hs.done

theorem status_executed (id' id : String) (call : Call) (clock : Instant) (h : Log) :
    status id' (.executed id call clock :: h) =
      if id = id' then
        match call with
        | .register => some (clock.unix, clock.unix)
        | .heartbeat => (status id' h).map fun st => (st.1, clock.unix)
        | .deregister => none
      else status id' h :=
  rfl

theorem status_executed_ne {call : Call} {clock : Instant} {h : Log} (hne : id' ≠ id) :
    status id' (.executed id call clock :: h) = status id' h := by
  rw [status_executed, if_neg (Ne.symm hne)]

/-- The command of a call changes the record and the status of its worker alike. -/
theorem matches_executed {call : Call} {clock : Instant} {order : List String} {db : Db}
    {r : (call.command id clock).Res}
    (hrec : ∀ id, Matches id (s.db.record (workerKey id)) (status id s.log))
    (hex : exec s.db s.now order (call.command id clock) = some (r, db)) (id' : String) :
    Matches id' (db.record (workerKey id')) (status id' (.executed id call clock :: s.log)) := by
  by_cases heq : id' = id
  · subst heq
    rw [status_executed, if_pos rfl]
    cases call with
    | register =>
        cases hex
        rw [record_insert_self]
        exact matches_register ..
    | heartbeat =>
        cases hex
        rw [record_insert_self]
        exact (hrec id').heartbeat _
    | deregister =>
        cases hex
        rw [record_erase_self]
        exact matches_empty _
  · have hkey : workerKey id' ≠ workerKey id := fun h => heq (workerKey_injective h)
    rw [status_executed_ne heq]
    cases call with
    | register =>
        cases hex
        rw [record_insert_ne hkey]
        exact hrec id'
    | heartbeat =>
        cases hex
        rw [record_insert_ne hkey]
        exact hrec id'
    | deregister =>
        cases hex
        rw [record_erase_ne hkey]
        exact hrec id'

/-- A worker that is registered after a call was last seen by it. -/
theorem status_executed_self {call : Call} {clock : Instant} {h : Log} {st : Int64 × Int64}
    (hst : status id (.executed id call clock :: h) = some st)
    (hle : ∀ st, status id h = some st → st.1 ≤ st.2 ∧ st.2 ≤ clock.unix) :
    st.1 ≤ st.2 ∧ st.2 = clock.unix := by
  rw [status_executed, if_pos rfl] at hst
  cases call with
  | register =>
      cases hst
      exact ⟨Int64.le_refl _, rfl⟩
  | heartbeat =>
      obtain ⟨st', hst', rfl⟩ := Option.map_eq_some_iff.mp hst
      obtain ⟨h1, h2⟩ := hle st' hst'
      exact ⟨Int64.le_trans h1 h2, rfl⟩
  | deregister => cases hst

theorem Inv.executed (hs : Inv s) (hb : s.workers id = some b) {order : List String} {db : Db}
    {r : (b.call.command id b.clock).Res} {x : Option String}
    (hex : exec s.db s.now order (b.call.command id b.clock) = some (r, db)) :
    Inv { s with
      db := db
      workers := Function.update s.workers id (some ⟨b.call, b.clock, .ret x⟩)
      log := .executed id b.call b.clock :: s.log } := by
  obtain ⟨hnow, hseen⟩ := hs.clock id b hb
  have hself : ∀ st, status id (.executed id b.call b.clock :: s.log) = some st →
      st.1 ≤ st.2 ∧ st.2 = b.clock.unix := by
    intro st hst
    exact status_executed_self hst fun st hst => ⟨(hs.times id st hst).1, hseen st hst⟩
  refine ⟨matches_executed hs.record hex, ?_, ?_, ?_, ?_, ?_⟩
  · intro id' st hst
    by_cases heq : id' = id
    · subst heq
      obtain ⟨hle, hclock⟩ := hself st hst
      refine ⟨hle, ?_⟩
      rw [hclock]
      exact unix_mono hnow
    · exact hs.times id' st (by simpa only [status_executed_ne heq] using hst)
  · intro id' b' hb'
    rcases update_eq_some hb' with ⟨rfl, hnew⟩ | ⟨-, hb'⟩
    · cases hnew
      exact .finished rfl
    · exact hs.place id' b' hb'
  · intro id' b' hb'
    rcases update_eq_some hb' with ⟨rfl, hnew⟩ | ⟨heq, hb'⟩
    · cases hnew
      exact ⟨hnow, fun st hst => Int64.le_of_eq (hself st hst).2⟩
    · have hold := hs.clock id' b' hb'
      refine ⟨hold.1, fun st hst => hold.2 st ?_⟩
      simpa only [status_executed_ne heq] using hst
  · intro n p hp
    exact (hs.lists n p hp).mono (List.suffix_cons ..)
  · refine hs.done.cons ?_
    intro n res he
    cases he

/-- An event of a `ListWorkers` call is logged. -/
theorem Inv.logged (hs : Inv s) {e : Ev} (n : Nat)
    {p : Option (Program (Except String (List WorkerInfo)))} (next : Nat)
    (hst : ∀ id, status id (e :: s.log) = status id s.log)
    (hp : ∀ q, p = some q → Listing n (e :: s.log) q)
    (he : ∀ n res, e = .returned n res → ∃ infos, res = .ok infos ∧ Listed n s.log infos) :
    Inv { s with
      lists := Function.update s.lists n p
      next := next
      log := e :: s.log } where
  record := by
    intro id
    rw [hst]
    exact hs.record id
  times := by
    intro id st h
    exact hs.times id st (by rw [← hst]; exact h)
  place := hs.place
  clock := by
    intro id b hb
    refine ⟨(hs.clock id b hb).1, fun st h => (hs.clock id b hb).2 st ?_⟩
    rw [← hst]
    exact h
  lists := by
    intro m q hq
    rcases update_eq_some hq with ⟨rfl, hnew⟩ | ⟨-, hq⟩
    · exact hp q hnew
    · exact (hs.lists m q hq).mono (List.suffix_cons ..)
  done := hs.done.cons he

/-- A `ListWorkers` call goes on without an event, or its process dies. -/
theorem Inv.setList (hs : Inv s) (n : Nat) {p : Option (Program (Except String (List WorkerInfo)))}
    (hp : ∀ q, p = some q → Listing n s.log q) :
    Inv { s with lists := Function.update s.lists n p } where
  record := hs.record
  times := hs.times
  place := hs.place
  clock := hs.clock
  lists := by
    intro m q hq
    rcases update_eq_some hq with ⟨rfl, hnew⟩ | ⟨-, hq⟩
    · exact hp q hnew
    · exact hs.lists m q hq
  done := hs.done

theorem Inv.tick (hs : Inv s) {now : Instant} (hle : s.now.ns ≤ now.ns) :
    Inv { s with now := now } where
  record := hs.record
  times := fun id st hst =>
    ⟨(hs.times id st hst).1, Int64.le_trans (hs.times id st hst).2 (unix_mono hle)⟩
  place := hs.place
  clock := fun id b hb => ⟨Nat.le_trans (hs.clock id b hb).1 hle, (hs.clock id b hb).2⟩
  lists := hs.lists
  done := hs.done

/-- Other keys are written without touching a worker's record. -/
theorem Inv.setDb (hs : Inv s) {db : Db}
    (hdb : ∀ id, db.record (workerKey id) = s.db.record (workerKey id)) :
    Inv { s with db := db } where
  record := by
    intro id
    rw [hdb]
    exact hs.record id
  times := hs.times
  place := hs.place
  clock := hs.clock
  lists := hs.lists
  done := hs.done

theorem Inv.step {a : Action} (hs : Inv s) (h : s.apply a = some s') : Inv s' := by
  cases a with
  | begin id call =>
      simp only [State.apply] at h
      split at h
      · cases h
        exact hs.setWorker (place_program id call s.now) rfl
      · cases h
  | step id =>
      obtain ⟨b, hb, hstep⟩ := Option.bind_eq_some_iff.mp h
      rcases Busy.step_cases (hs.place id b hb) hstep with rfl | ⟨k, hk, rfl⟩ |
        ⟨r, db, x, hex, rfl⟩
      · exact hs.dropWorker
      · exact hs.setWorker (.ready (hk s.now)) rfl
      · exact hs.executed hb hex
  | crash id =>
      cases h
      exact hs.dropWorker
  | list =>
      cases h
      refine hs.logged s.next _ (fun _ => rfl) ?_ (by simp)
      rintro q ⟨⟩
      exact .first (List.mem_cons_self ..)
  | listStep n order =>
      obtain ⟨p, hp, hstep⟩ := Option.bind_eq_some_iff.mp h
      have hle : ∀ id st, status id s.log = some st → st.1 ≤ st.2 := fun id st hst =>
        (hs.times id st hst).1
      rcases listStep_cases (hs.lists n p hp) hs.record hle hstep with ⟨infos, hlisted, rfl⟩ |
        ⟨p', log, rfl | ⟨key, rfl⟩, hp', rfl⟩
      · refine hs.logged n s.next (fun _ => rfl) (by simp) ?_
        rintro m res ⟨⟩
        exact ⟨infos, rfl, hlisted⟩
      · refine hs.setList n ?_
        rintro q ⟨⟩
        exact hp'
      · refine hs.logged n s.next (fun _ => rfl) ?_ (by simp)
        rintro q ⟨⟩
        exact hp'
  | stop n =>
      cases h
      exact hs.setList n (by simp)
  | tick now =>
      simp only [State.apply] at h
      split at h
      · next hle =>
          cases h
          exact hs.tick hle
      · cases h
  | other key fields =>
      simp only [State.apply] at h
      split at h
      · cases h
      · next hnot =>
          have hkey : ∀ id, workerKey id ≠ key := by
            rintro id rfl
            exact hnot (workerKeyPrefix_workerKey id)
          cases fields with
          | some fields =>
              cases h
              exact hs.setDb fun id => record_insert_ne (hkey id)
          | none =>
              cases h
              exact hs.setDb fun id => record_erase_ne (hkey id)

end

/-- `ListWorkers` lists the live registrations, in every run. -/
theorem listWorkers_live {as : List Action} {s : State}
    (hrun : runFrom State.apply State.init as = some s) : ListsLive s.log := by
  have hreach : Reaches State.apply (fun _ _ => True) State.init s :=
    ⟨as, hrun, everyStep_of_forall (fun _ _ => trivial) _ _⟩
  exact (Reaches.invariant (I := Inv) hreach inv_init fun _ _ _ _ hx _ hxy => hx.step hxy).done

/-- One worker deregisters between the KEYS and the HGETALL of a call, and a late heartbeat
    leaves a partial record behind. -/
def lateHeartbeat : List Action :=
  [.tick ⟨5000000000, by decide⟩, .begin "a" .register, .step "a", .step "a", .step "a",
    .begin "b" .register, .step "b", .step "b", .step "b",
    .list, .listStep 0 ["worker:registry:b", "worker:registry:a"],
    .begin "b" .deregister, .step "b", .step "b",
    .begin "b" .heartbeat, .step "b", .step "b", .step "b",
    .listStep 0 [], .listStep 0 [], .listStep 0 []]

theorem listWorkers_live_late_heartbeat : ∃ s,
    runFrom State.apply State.init lateHeartbeat = some s ∧
    s.log.head? = some (.returned 0 (.ok [⟨"a", 5, 5⟩])) ∧ ListsLive s.log := by
  obtain ⟨s, hrun, hlog⟩ : ∃ s, runFrom State.apply State.init lateHeartbeat = some s ∧
      s.log.head? = some (.returned 0 (.ok [⟨"a", 5, 5⟩])) := ⟨_, rfl, rfl⟩
  exact ⟨s, hrun, hlog, listWorkers_live hrun⟩

end LogPipeline.Registry.Workers
