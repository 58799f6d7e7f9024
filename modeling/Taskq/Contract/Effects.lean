import Taskq.Invariants.Ledger
import Taskq.Model.Effects

/-! Host effects are fenced: a fence answers with exactly the job that it names, an attempt's effects are committed
before the attempt ends or is asked to stop, and a terminal job's before it is redriven or deleted. -/
namespace Taskq
open Relational

section Attempts

/-- The job runs under the attempt and is not asked to stop. -/
def LiveUnder (jobs : Table Uuid Job) (id a : Uuid) : Prop :=
  ∃ job, jobs.get? id = some job ∧ job.status = .running ∧ job.currentAttemptId = some a ∧ job.cancelRequestedAt = none

/-- A call settles, reaps or supersedes an attempt, or asks it to stop. -/
def EndsAttempt (id a : Uuid) (before after : Db) : Prop := LiveUnder before.jobs id a ∧ ¬LiveUnder after.jobs id a

/-- The attempt is over: it is the job's no more, and the ledger has its entry for as long as the job is stored. -/
def AttemptOver (c : Core) (id a : Uuid) : Prop :=
  ¬LiveUnder c.jobs id a ∧ (c.jobs.get? id = none ∨ ∃ status, ledgerEntry c.attempts a = some (id, status))

/-- Only a start brings a job under an attempt, and nothing takes a request to stop back while it runs. -/
theorem Life.Step.live {max : ℤ} {k : Change} {l l' : Life} {a : Uuid} (step : Life.Step max k l l') (plain : k ≠ .start)
    (live : l'.status = .running ∧ l'.attempt = some a ∧ l'.cancelRequested = false) :
    l.status = .running ∧ l.attempt = some a ∧ l.cancelRequested = false := by
  cases step with
  | promote _ blocked =>
    obtain ⟨running, -⟩ := live
    dsimp only at running
    split_ifs at running
  | _ => simp_all [Life.ended, Life.failedOnce]

theorem JobRow.live_iff {r : JobRow} {a : Uuid} :
    (r.status = .running ∧ r.currentAttemptId = some a ∧ r.cancelRequestedAt = none) ↔
      r.life.status = .running ∧ r.life.attempt = some a ∧ r.life.cancelRequested = false := by
  simp [JobRow.life]

variable {l : Label} {c d : Core} {id a : Uuid}

theorem Transition.start_fresh {job : Job} (h : Transition (.change id .start) c d) (stored : d.jobs.get? id = some job)
    (current : job.currentAttemptId = some a) : ledgerEntry c.attempts a = none := by
  cases h with
  | start row step own opened fresh =>
    rw [Table.get?_put, if_pos rfl] at stored
    cases stored
    cases own.symm.trans current
    exact fresh
  | change plain => exact absurd rfl plain.1

theorem AttemptOver.transition (past : AttemptOver c id a) (h : Transition l c d) (apart : ∀ p, l ≠ .enter id p) :
    AttemptOver d id a := by
  obtain ⟨ended, booked⟩ := past
  have entry (here : d.jobs.get? id ≠ none) : ∃ status, ledgerEntry c.attempts a = some (id, status) ∧
      ∃ status, ledgerEntry d.attempts a = some (id, status) := by
    obtain ⟨there, kept⟩ := h.ledgerKept apart here
    obtain ⟨status, was⟩ := booked.resolve_left there
    obtain ⟨status', now, -⟩ := kept a status was
    exact ⟨status, was, status', now⟩
  refine ⟨?_, (Decidable.eq_or_ne (d.jobs.get? id) none).imp_right fun here => ?_⟩
  · rintro ⟨job, stored, live⟩
    obtain ⟨status, was, -⟩ := entry (by simp [stored])
    have move := h.row id
    generalize before : c.jobs.get? id = row at move
    generalize after : d.jobs.get? id = row' at move
    cases move with
    | same => exact ended ⟨job, before.trans (after.symm.trans stored), live⟩
    | @change k old _ label _ _ step =>
      cases after.symm.trans stored
      by_cases plain : k = .start
      · subst plain
        subst label
        cases was.symm.trans (h.start_fresh stored live.2.1)
      · exact ended ⟨_, before, JobRow.live_iff.mpr (step.live plain (JobRow.live_iff.mp live))⟩
    | delete => cases after.symm.trans stored
    | enter label => exact apart _ label
  · obtain ⟨-, -, now⟩ := entry here
    exact now

variable {site : Site} {s t : System} {env : Env} {command : Command}

/-- An attempt that is over stays so. -/
theorem AttemptOver.step (past : AttemptOver s.db.toCore id a) (minted : id < s.db.nextUuid)
    (step : System.Step site env command s t) : AttemptOver t.db.toCore id a := by
  obtain ⟨F, used, steps⟩ := step.steps
  refine steps.invariant (I := fun c => AttemptOver c id a) (fun member h past => past.transition h fun parent same => ?_) past
  subst same
  exact absurd (Command.footprints_enter used member) (Nat.not_le.mpr minted)

end Attempts

section Property

/-- The worker, the queue and the job type are such as the claim, queue and enqueue functions accept. -/
def ActiveArgs.Accepted (a : ActiveArgs) : Prop :=
  workerOk a.workerId = true ∧ a.queue.any isQueueName = true ∧ jobTypeOk a.jobType = true

/-- A call names the identity of a running attempt with a lease, of a job without a request to stop. -/
structure ActiveArgs.Names (a : ActiveArgs) (clock : Time) (db : Db) (id : Uuid) (job : Job) : Prop where
  jobId : a.jobId = some id
  stored : db.jobs.get? id = some job
  running : job.status = .running
  attempt : job.currentAttemptId = a.attemptId
  worker : job.workerId = a.workerId
  queue : a.queue = some job.queue
  jobType : a.jobType = some job.jobType
  unexpired : ∃ lease, job.leaseExpiresAt = some lease ∧ clock < lease
  unasked : job.cancelRequestedAt = none

def TerminalIn (jobs : Table Uuid Job) (id : Uuid) : Prop := ∃ job, jobs.get? id = some job ∧ job.status.terminal = true

/-- A call redrives or deletes a job. -/
def LeavesTerminal (id : Uuid) (before after : Db) : Prop :=
  (TerminalIn before.jobs id ∧ ¬TerminalIn after.jobs id) ∨ (before.jobs.get? id ≠ none ∧ after.jobs.get? id = none)

def EntersTerminal (id : Uuid) (before after : Db) : Prop := ¬TerminalIn before.jobs id ∧ TerminalIn after.jobs id

/-- The fences do what they are for, as far as a log tells. -/
structure EffectsFenced (log : List HostEntry) : Prop where
  refused : ∀ a clock db, .refused (.active a) clock db ∈ log → a.Accepted → ∀ id job, ¬a.Names clock db id job
  granted : ∀ a clock db row, .granted (.active a) clock db row ∈ log → ∃ id job counts,
    a.Names clock db id job ∧ row = .active job.payload job.workflowId counts
  attempt : ∀ earlier a later, log = earlier ++ .effect (.active a) :: later → ∀ before after,
    .call before after ∈ earlier → ∀ id attempt, a.jobId = some id → a.attemptId = some attempt →
      ¬EndsAttempt id attempt before after
  terminal : ∀ earlier before after between a later,
    log = earlier ++ .call before after :: (between ++ .effect (.terminal a) :: later) → ∀ id, a.jobId = some id →
      LeavesTerminal id before after → ∃ was now, .call was now ∈ between ∧ EntersTerminal id was now

/-- The fence's grammar of queue names is that of the queues, less the names that begin with an underscore. -/
theorem isFencedQueue_iff {s : String} : isFencedQueue s = true ↔ isQueueName s = true ∧ hasPrefix "_" s = false := by
  have under : isLowerAlnum '_' = false := by decide
  have size : s.length = s.toList.length := String.length_toList.symm
  unfold isFencedQueue isQueueName hasPrefix
  rw [size, show "_".toList = ['_'] from rfl]
  generalize s.toList = cs
  cases cs with
  | nil => simp
  | cons c cs =>
    simp only [List.isPrefixOf, List.length_cons, List.all_cons, Bool.and_eq_true, Bool.or_eq_true, decide_eq_true_eq,
      Bool.and_true, beq_eq_false_iff_ne]
    constructor
    · rintro ⟨⟨first, short⟩, rest⟩
      refine ⟨⟨⟨by omega, by omega⟩, .inl first, rest⟩, ?_⟩
      rintro rfl
      exact nomatch under.symm.trans first
    · rintro ⟨⟨⟨-, short⟩, first, rest⟩, other⟩
      exact ⟨⟨first.resolve_right (Ne.symm other), by omega⟩, rest⟩

theorem ActiveArgs.names_iff {a : ActiveArgs} {clock : Time} {db : Db} {id : Uuid} {job : Job} :
    (Fence.active a).finds clock db = some (id, job) ↔ a.Names clock db id job := by
  simp only [Fence.finds, Fence.jobId, Fence.admits, ActiveArgs.admits, Option.bind_eq_some_iff, Bool.and_eq_true,
    decide_eq_true_eq, Option.any_eq_true, Option.isNone_iff_eq_none]
  constructor
  · rintro ⟨id, named, job, stored, found⟩
    split_ifs at found with admits
    cases found
    obtain ⟨⟨⟨⟨⟨⟨running, attempt⟩, worker⟩, queue⟩, jobType⟩, unexpired⟩, unasked⟩ := admits
    exact ⟨named, stored, running, attempt, worker, queue, jobType, unexpired, unasked⟩
  · intro names
    refine ⟨id, names.jobId, job, names.stored, if_pos ?_⟩
    exact ⟨⟨⟨⟨⟨⟨names.running, names.attempt⟩, names.worker⟩, names.queue⟩, names.jobType⟩, names.unexpired⟩, names.unasked⟩

theorem split_snoc {α : Type} {l first last : List α} {e x : α} (shape : l ++ [e] = first ++ x :: last) :
    (l = first ∧ e = x ∧ last = []) ∨ ∃ rest, last = rest ++ [e] ∧ l = first ++ x :: rest := by
  obtain rfl | ⟨rest, e', rfl⟩ := List.eq_nil_or_concat last
  · obtain ⟨rfl, same⟩ := List.append_inj' shape rfl
    exact .inl ⟨rfl, (List.cons.inj same).1, rfl⟩
  · rw [List.concat_eq_append, ← List.cons_append, ← List.append_assoc] at shape
    obtain ⟨rfl, same⟩ := List.append_inj' shape rfl
    cases same
    exact .inr ⟨rest, List.concat_eq_append .., rfl⟩

/-- What a new entry has to bring along. -/
structure HostEntry.Fits (log : List HostEntry) (entry : HostEntry) : Prop where
  refused : ∀ a clock db, entry = .refused (.active a) clock db → a.Accepted → ∀ id job, ¬a.Names clock db id job
  granted : ∀ a clock db row, entry = .granted (.active a) clock db row → ∃ id job counts,
    a.Names clock db id job ∧ row = .active job.payload job.workflowId counts
  attempt : ∀ a, entry = .effect (.active a) → ∀ before after, .call before after ∈ log → ∀ id attempt,
    a.jobId = some id → a.attemptId = some attempt → ¬EndsAttempt id attempt before after
  terminal : ∀ a, entry = .effect (.terminal a) → ∀ earlier before after between,
    log = earlier ++ .call before after :: between → ∀ id, a.jobId = some id → LeavesTerminal id before after →
      ∃ was now, .call was now ∈ between ∧ EntersTerminal id was now

theorem EffectsFenced.snoc {log : List HostEntry} {entry : HostEntry} (fenced : EffectsFenced log)
    (fits : entry.Fits log) : EffectsFenced (log ++ [entry]) where
  refused := fun a clock db member => by
    obtain older | new := List.mem_append.mp member
    · exact fenced.refused a clock db older
    · exact fits.refused a clock db (List.mem_singleton.mp new).symm
  granted := fun a clock db row member => by
    obtain older | new := List.mem_append.mp member
    · exact fenced.granted a clock db row older
    · exact fits.granted a clock db row (List.mem_singleton.mp new).symm
  attempt := fun earlier a later shape => by
    obtain ⟨rfl, new, -⟩ | ⟨rest, -, older⟩ := split_snoc shape
    · exact fits.attempt a new
    · exact fenced.attempt earlier a rest older
  terminal := fun earlier before after between a later shape => by
    rw [← List.cons_append, ← List.append_assoc] at shape
    obtain ⟨same, new, -⟩ | ⟨rest, -, older⟩ := split_snoc shape
    · exact fits.terminal a new earlier before after between same
    · rw [List.append_assoc, List.cons_append] at older
      exact fenced.terminal earlier before after between a rest older

end Property

section Runs

variable {ι : Type} {site : Site} {s t : Hosts ι} {event : HostEvent ι}

/-- The locked row is what the fence asked for. -/
def Fence.Guards (jobs : Table Uuid Job) (id : Uuid) : Fence → Prop
  | .active a => a.jobId = some id ∧ ∃ attempt, a.attemptId = some attempt ∧ LiveUnder jobs id attempt
  | .terminal a => a.jobId = some id ∧ TerminalIn jobs id

/-- A row that a fence admits is guarded from its lock on. -/
theorem Fence.admits_guards {f : Fence} {clock : Time} {jobs : Table Uuid Job} {id : Uuid} {job : Job}
    (named : f.jobId = some id) (stored : jobs.get? id = some job) (admits : f.admits clock job.toJobRow = true) :
    f.Guards jobs id := by
  cases f with
  | active a =>
    simp only [Fence.admits, ActiveArgs.admits, Bool.and_eq_true, decide_eq_true_eq, Option.isNone_iff_eq_none] at admits
    obtain ⟨⟨⟨⟨⟨⟨running, attempt⟩, -⟩, -⟩, -⟩, -⟩, unasked⟩ := admits
    obtain ⟨held, -⟩ := job.running_iff.mp running
    obtain ⟨current, own⟩ := Option.isSome_iff_exists.mp held
    exact ⟨named, current, attempt.symm.trans own, job, stored, running, own, unasked⟩
  | terminal a =>
    simp only [Fence.admits, TerminalArgs.admits, Bool.and_eq_true] at admits
    exact ⟨named, job, stored, admits.2⟩

/-- What holds between any two steps. -/
structure Hosts.Sound (site : Site) (s : Hosts ι) : Prop where
  reachable : System.Reachable site anyCall s.system
  found : ∀ i f asked snapshot id job, s.host i = .waiting f asked snapshot id job →
    f.jobId = some id ∧ f.admits asked job.toJobRow = true
  guards : ∀ i f id wrote, s.host i = .holding f id wrote → f.Guards s.system.db.jobs id
  ended : ∀ before after, .call before after ∈ s.log → ∀ id a, EndsAttempt id a before after →
    id < s.system.db.nextUuid ∧ AttemptOver s.system.db.toCore id a
  left : ∀ earlier before after between, s.log = earlier ++ .call before after :: between → ∀ id,
    LeavesTerminal id before after → TerminalIn s.system.db.jobs id →
      ∃ was now, .call was now ∈ between ∧ EntersTerminal id was now
  fenced : EffectsFenced s.log

theorem EffectsFenced.nil : EffectsFenced [] where
  refused := fun _ _ _ member => absurd member List.not_mem_nil
  granted := fun _ _ _ _ member => absurd member List.not_mem_nil
  attempt := fun _ _ _ shape => absurd shape.symm (List.append_ne_nil_of_right_ne_nil _ (List.cons_ne_nil _ _))
  terminal := fun _ _ _ _ _ _ shape => absurd shape.symm (List.append_ne_nil_of_right_ne_nil _ (List.cons_ne_nil _ _))

theorem Hosts.Sound.installed (now : Time) : (Hosts.installed site now : Hosts ι).Sound site where
  reachable := ⟨now, .start⟩
  found := fun i f asked snapshot id job waiting => by cases waiting
  guards := fun i f id wrote holding => by cases holding
  ended := fun before after member => by cases member
  left := fun earlier before after between shape => by
    have shape : [] = earlier ++ HostEntry.call before after :: between := shape
    simp at shape
  fenced := .nil

theorem LiveUnder.congr {jobs jobs' : Table Uuid Job} {id a : Uuid} (same : jobs'.get? id = jobs.get? id)
    (live : LiveUnder jobs id a) : LiveUnder jobs' id a := by
  obtain ⟨job, stored, rest⟩ := live
  exact ⟨job, same.trans stored, rest⟩

theorem Fence.Guards.congr {f : Fence} {jobs jobs' : Table Uuid Job} {id : Uuid}
    (same : jobs'.get? id = jobs.get? id) (guards : f.Guards jobs id) : f.Guards jobs' id := by
  cases f with
  | active a =>
    obtain ⟨named, attempt, own, live⟩ := guards
    exact ⟨named, attempt, own, live.congr same⟩
  | terminal a =>
    obtain ⟨named, job, stored, terminal⟩ := guards
    exact ⟨named, job, same.trans stored, terminal⟩

/-- A call commits among the hosts. -/
theorem Hosts.Sound.call {env : Env} {command : Command} {u : System} (sound : s.Sound site)
    (step : System.Step site env command s.system u)
    (waits : ∀ id, s.Held id → u.db.jobs.get? id = s.system.db.jobs.get? id) :
    ({ s with system := u, log := s.log ++ [.call s.system.db u.db] } : Hosts ι).Sound site := by
  have ok := sound.reachable.ledgerOk
  have one : System.Run site anyCall s.system u := .step .start trivial step
  obtain ⟨F, -, steps⟩ := step.steps
  refine ⟨?_, sound.found, fun i f id wrote holding => ?_, fun before after member id a ends => ?_,
    fun earlier before after between shape id leaves there => ?_, sound.fenced.snoc ?_⟩
  · obtain ⟨now, run⟩ := sound.reachable
    exact ⟨now, run.trans one⟩
  · exact (sound.guards i f id wrote holding).congr (waits id ⟨i, f, wrote, holding⟩)
  · obtain older | new := List.mem_append.mp member
    · obtain ⟨minted, past⟩ := sound.ended before after older id a ends
      exact ⟨minted.trans_le steps.nextUuid_le, past.step minted step⟩
    · cases List.mem_singleton.mp new
      obtain ⟨⟨job, stored, running, current, -⟩, gone⟩ := ends
      have entry := ok.currentAttempt stored current
      have minted := sound.reachable.minted.jobs id (by simp [stored])
      refine ⟨minted.trans_le steps.nextUuid_le, gone, (Decidable.eq_or_ne (u.db.jobs.get? id) none).imp_right fun here => ?_⟩
      obtain ⟨-, kept⟩ := one.ledgerKept minted here
      obtain ⟨status, now, -⟩ := kept a _ entry
      exact ⟨status, now⟩
  · obtain ⟨-, same, -⟩ | ⟨rest, rfl, older⟩ := split_snoc shape
    · cases same
      obtain ⟨-, left⟩ | ⟨-, gone⟩ := leaves
      · exact absurd there left
      · obtain ⟨job, stored, -⟩ := there
        cases gone.symm.trans stored
    · by_cases was : TerminalIn s.system.db.jobs id
      · obtain ⟨b, a, member, enters⟩ := sound.left earlier before after rest older id leaves was
        exact ⟨b, a, List.mem_append_left _ member, enters⟩
      · exact ⟨_, _, List.mem_append_right _ (List.mem_singleton.mpr rfl), was, there⟩
  · exact ⟨fun _ _ _ same => (by cases same), fun _ _ _ _ same => (by cases same), fun _ same => (by cases same),
      fun _ same => by cases same⟩

/-- A host answers or commits. -/
theorem Hosts.Sound.record {entry : HostEntry} (sound : s.Sound site) (own : ∀ before after, entry ≠ .call before after)
    (fits : entry.Fits s.log) : ({ s with log := s.log ++ [entry] } : Hosts ι).Sound site where
  reachable := sound.reachable
  found := sound.found
  guards := sound.guards
  ended := fun before after member id a ends => by
    obtain older | new := List.mem_append.mp member
    · exact sound.ended before after older id a ends
    · exact absurd (List.mem_singleton.mp new).symm (own before after)
  left := fun earlier before after between shape id leaves there => by
    obtain ⟨-, same, -⟩ | ⟨rest, rfl, older⟩ := split_snoc shape
    · exact absurd same (own before after)
    · obtain ⟨b, a, member, enters⟩ := sound.left earlier before after rest older id leaves there
      exact ⟨b, a, List.mem_append_left _ member, enters⟩
  fenced := sound.fenced.snoc fits

/-- An effect is committed while its fence guards the row. -/
theorem Hosts.Sound.effect_fits {f : Fence} {id : Uuid} (sound : s.Sound site) (guards : f.Guards s.system.db.jobs id) :
    (HostEntry.effect f).Fits s.log where
  refused := fun _ _ _ same => (nomatch same)
  granted := fun _ _ _ _ same => (nomatch same)
  attempt := fun a same before after member other attempt named current ends => by
    cases same
    obtain ⟨own, held, holds, live⟩ := guards
    cases own.symm.trans named
    cases holds.symm.trans current
    exact (sound.ended before after member id attempt ends).2.1 live
  terminal := fun a same earlier before after between shape other named leaves => by
    cases same
    obtain ⟨own, there⟩ := guards
    cases own.symm.trans named
    exact sound.left earlier before after between shape id leaves there

variable [DecidableEq ι]

theorem Hosts.put_host (s : Hosts ι) (i : ι) (phase : HostPhase) (entries : List HostEntry) :
    (s.put i phase entries).host i = phase := by
  simp [Hosts.put]

/-- A host goes on to another phase. -/
theorem Hosts.Sound.move {phase : HostPhase} (sound : s.Sound site) (i : ι)
    (found : ∀ f asked snapshot id job, phase = .waiting f asked snapshot id job →
      f.jobId = some id ∧ f.admits asked job.toJobRow = true)
    (guards : ∀ f id wrote, phase = .holding f id wrote → f.Guards s.system.db.jobs id) :
    (s.put i phase []).Sound site where
  reachable := sound.reachable
  found := fun j f asked snapshot id job waiting => by
    by_cases own : j = i
    · subst own
      exact found f asked snapshot id job ((s.put_host ..).symm.trans waiting)
    · exact sound.found j f asked snapshot id job (by simpa [Hosts.put, Function.update_of_ne own] using waiting)
  guards := fun j f id wrote holding => by
    by_cases own : j = i
    · subst own
      exact guards f id wrote ((s.put_host ..).symm.trans holding)
    · exact sound.guards j f id wrote (by simpa [Hosts.put, Function.update_of_ne own] using holding)
  ended := fun before after member => sound.ended before after (by simpa [Hosts.put] using member)
  left := fun earlier before after between shape =>
    sound.left earlier before after between (by simpa [Hosts.put] using shape)
  fenced := by
    have same : (s.put i phase []).log = s.log := List.append_nil _
    rw [same]
    exact sound.fenced

/-- A host answers or commits and goes on. -/
theorem Hosts.Sound.put {phase : HostPhase} {entry : HostEntry} (sound : s.Sound site) (i : ι)
    (own : ∀ before after, entry ≠ .call before after) (fits : entry.Fits s.log)
    (found : ∀ f asked snapshot id job, phase = .waiting f asked snapshot id job →
      f.jobId = some id ∧ f.admits asked job.toJobRow = true)
    (guards : ∀ f id wrote, phase = .holding f id wrote → f.Guards s.system.db.jobs id) :
    (s.put i phase [entry]).Sound site := by
  have moved := (sound.record own fits).move i found guards
  simpa only [Hosts.put, List.append_nil] using moved

/-- A fence returns no row. -/
theorem Hosts.Sound.refuse {f : Fence} {clock : Time} {db : Db} (sound : s.Sound site) (i : ι)
    (fits : (HostEntry.refused f clock db).Fits s.log) : (s.put i .idle [.refused f clock db]).Sound site := by
  refine sound.put i (fun _ _ same => ?_) fits (fun _ _ _ _ _ same => ?_) fun _ _ _ same => ?_ <;> cases same

/-- A fence returns its row. -/
theorem Hosts.Sound.grant {f : Fence} {clock : Time} {db : Db} {id : Uuid} {row : EffectRow} (sound : s.Sound site) (i : ι)
    (fits : (HostEntry.granted f clock db row).Fits s.log) (guards : f.Guards s.system.db.jobs id) :
    (s.put i (.holding f id false) [.granted f clock db row]).Sound site := by
  refine sound.put i (fun _ _ same => ?_) fits (fun _ _ _ _ _ same => ?_) fun _ _ _ same => ?_ <;> cases same
  exact guards

theorem Hosts.Sound.rest (sound : s.Sound site) (i : ι) : (s.put i .idle []).Sound site := by
  refine sound.move i (fun _ _ _ _ _ same => ?_) fun _ _ _ same => ?_ <;> cases same

/-- The fences that may refuse what they should admit: the queue of a running attempt begins with an underscore. -/
def Hosts.Exposed (s : Hosts ι) : HostEvent ι → Prop
  | .fence _ _ _ (.active a) clock => a.Accepted ∧ (∃ id job, a.Names clock s.system.db id job) ∧
      a.queue.any (hasPrefix "_") = true
  | _ => False

theorem ActiveArgs.check_eq_ok {a : ActiveArgs} {clock : Time} {db : Db} {id : Uuid} {job : Job} (accepted : a.Accepted)
    (names : a.Names clock db id job) : a.check = .ok () ↔ a.queue.any (hasPrefix "_") = false := by
  obtain ⟨worker, queue, jobType⟩ := accepted
  have held : a.attemptId.isSome = true := names.attempt ▸ (job.running_iff.mp names.running).1
  rw [names.queue, Option.any_some] at queue
  simp only [ActiveArgs.check, seq_eq_ok, ensure_eq_ok, names.jobId, held, worker, jobType, names.queue, Option.any_some,
    Option.isSome_some, isFencedQueue_iff, queue, true_and, and_true, exists_const]

theorem Fence.refused_fits {log : List HostEntry} {f : Fence} {clock : Time} {db : Db}
    (refuses : ∀ a, f = .active a → a.Accepted → ∀ id job, ¬a.Names clock db id job) :
    (HostEntry.refused f clock db).Fits log where
  refused := fun a clock db same => by
    cases same
    exact refuses a rfl
  granted := fun _ _ _ _ same => (nomatch same)
  attempt := fun _ same => (nomatch same)
  terminal := fun _ same => (nomatch same)

theorem Fence.granted_fits {log : List HostEntry} {f : Fence} {clock : Time} {snapshot db : Db} {id : Uuid} {job : Job}
    (named : f.jobId = some id) (stored : db.jobs.get? id = some job) (admits : f.admits clock job.toJobRow = true) :
    (HostEntry.granted f clock db (f.answer snapshot job.toJobRow)).Fits log where
  refused := fun _ _ _ same => (nomatch same)
  granted := fun a clock db row same => by
    cases same
    refine ⟨id, job, _, ActiveArgs.names_iff.mp ?_, rfl⟩
    simp only [Fence.finds, named, stored, Option.bind_some, admits, if_true]
  attempt := fun _ same => (nomatch same)
  terminal := fun _ same => (nomatch same)

theorem Hosts.Sound.step (sound : s.Sound site) (calm : ¬s.Exposed event) (step : Hosts.Step site s event t) :
    t.Sound site := by
  cases step with
  | call step waits => exact sound.call step waits
  | @raised i env identity f clock e idle raises =>
    refine sound.refuse i (Fence.refused_fits fun a same accepted id job names => ?_)
    subst same
    by_cases under : a.queue.any (hasPrefix "_") = true
    · exact calm ⟨accepted, ⟨id, job, names⟩, under⟩
    · have passes : a.check = .ok () := (ActiveArgs.check_eq_ok accepted names).mpr (eq_false_of_ne_true under)
      exact nomatch passes.symm.trans raises
  | @missed i env identity f clock idle passes misses =>
    refine sound.refuse i (Fence.refused_fits fun a same accepted id job names => ?_)
    subst same
    exact nomatch misses.symm.trans (ActiveArgs.names_iff.mpr names)
  | @found i env identity f clock id job idle passes finds =>
    refine sound.move i (fun f asked snapshot id job same => ?_) fun _ _ _ same => ?_
    · cases same
      simp only [Fence.finds, Option.bind_eq_some_iff] at finds
      obtain ⟨id, named, job, stored, found⟩ := finds
      split_ifs at found with admits
      cases found
      exact ⟨named, admits⟩
    · cases same
  | @same i f asked clock snapshot id job waiting free kept =>
    obtain ⟨named, admits⟩ := sound.found i f asked snapshot id job waiting
    exact sound.grant i (Fence.granted_fits named kept admits) (Fence.admits_guards named kept admits)
  | @newer i f asked clock snapshot id seen job waiting free stored admits =>
    obtain ⟨named, -⟩ := sound.found i f asked snapshot id seen waiting
    exact sound.grant i (Fence.granted_fits named stored admits) (Fence.admits_guards named stored admits)
  | @lost i f asked clock snapshot id seen waiting free gone =>
    refine sound.refuse i (Fence.refused_fits fun a same accepted id' job names => ?_)
    subst same
    obtain ⟨named, -⟩ := sound.found i _ asked snapshot id seen waiting
    cases named.symm.trans names.jobId
    have admits := ActiveArgs.names_iff.mpr names
    simp only [Fence.finds, named, names.stored, Option.bind_some, gone job names.stored] at admits
    cases admits
  | @write i f id wrote holding =>
    refine sound.move i (fun _ _ _ _ _ same => ?_) fun f id wrote same => ?_
    · cases same
    · cases same
      exact sound.guards i f id _ holding
  | @commit i f id wrote holding =>
    cases wrote with
    | true =>
      refine sound.put i (fun _ _ same => ?_) (sound.effect_fits (sound.guards i f id true holding))
        (fun _ _ _ _ _ same => ?_) fun _ _ _ same => ?_ <;> cases same
    | false => exact sound.rest i
  | @rollback i => exact sound.rest i

theorem Hosts.Run.sound (run : Hosts.Run site (fun s event => ¬s.Exposed event) s) : s.Sound site := by
  induction run with
  | start now => exact .installed now
  | step before calm step ih => exact ih.step calm step

/-- In every run in which no fence names a running attempt of a queue that begins with an underscore, the fences answer
exactly and host effects come before the end of what they rest on. -/
theorem host_effects_fenced (run : Hosts.Run site (fun s event => ¬s.Exposed event) s) : EffectsFenced s.log :=
  run.sound.fenced

/-- Where nothing comes between, the two steps of a fence make the call. -/
theorem Hosts.Step.lock {i : ι} {env : Env} {identity : TargetIdentity} {f : Fence} {clock : Time} {row : EffectRow}
    (idle : s.host i = .idle) (free : ∀ id, ¬s.Held id)
    (run : f.lock env identity clock s.system.db = .ok (some row)) :
    ∃ t id, Hosts.Step site s (.fence i env identity f clock) t ∧ Hosts.Step site t (.lock i clock false)
      (t.put i (.holding f id false) [.granted f clock s.system.db row]) := by
  obtain ⟨passes, id, job, finds, rfl⟩ : f.check env identity s.system.db = .ok () ∧
      ∃ id job, f.finds clock s.system.db = some (id, job) ∧ row = f.answer s.system.db job.toJobRow := by
    cases f with
    | active a =>
      simp only [Fence.lock, lockActiveEffectAttempt, seq_eq_ok, Except.ok.injEq, Option.map_eq_some_iff] at run
      obtain ⟨_, passes, ⟨id, job⟩, finds, rfl⟩ := run
      exact ⟨passes, id, job, finds, rfl⟩
    | terminal a =>
      simp only [Fence.lock, lockTerminalEffectJob, seq_eq_ok, Except.ok.injEq, Option.map_eq_some_iff] at run
      obtain ⟨_, passes, ⟨id, job⟩, finds, rfl⟩ := run
      exact ⟨passes, id, job, finds, rfl⟩
  have stored : s.system.db.jobs.get? id = some job := by
    simp only [Fence.finds, Option.bind_eq_some_iff] at finds
    obtain ⟨_, -, _, stored, found⟩ := finds
    split_ifs at found
    cases found
    exact stored
  refine ⟨_, id, .found idle passes finds, .same (by simp [Hosts.put]) ?_ stored⟩
  rintro ⟨j, f', wrote, holding⟩
  by_cases own : j = i
  · subst own
    simp [Hosts.put] at holding
  · exact free id ⟨j, f', wrote, by simpa [Hosts.put, Function.update_of_ne own] using holding⟩

/-- Calls alone, while the hosts are idle. -/
theorem Hosts.Run.calls {permitted : Hosts ι → HostEvent ι → Prop} {u : System} {now : Time}
    (run : System.Run site anyCall (.installed site now) u) (free : ∀ s env command, permitted s (.call env command)) :
    ∃ log, Hosts.Run site permitted ⟨u, fun _ => .idle, log⟩ := by
  induction run with
  | start => exact ⟨[], .start now⟩
  | step _ _ step ih =>
    obtain ⟨log, before⟩ := ih
    refine ⟨_, before.step (free ..) (.call step fun id held => ?_)⟩
    obtain ⟨i, f, wrote, holding⟩ := held
    cases holding

end Runs

section Witnesses

/-- A job of the queue is claimed under attempt 3. -/
def claimedOn (queue : String) : List (Time × Command) :=
  [(0, .ensureQueue (some queue) none), (0, .enqueue (.simple queue)), (0, .claimJobs (.simple queue 1))]

def claimedArgs (queue : String) : ActiveArgs := ⟨some 2, some 3, some "w", some queue, some "t"⟩

/-- A host locks a running attempt, writes and commits. -/
theorem host_effects_fenced_once : ∃ s : Hosts Unit, EffectsFenced s.log ∧
    HostEntry.effect (.active (claimedArgs "q")) ∈ s.log := by
  have played : System.plays .plain (claimedOn "q") (.installed .plain 0) (fun t =>
      (lockActiveEffectAttempt 0 (claimedArgs "q") t.db).toOption.any Option.isSome) = true := by decide
  obtain ⟨u, run, there⟩ := System.plays_run anyCall played fun _ _ _ => trivial
  obtain ⟨found, locks, there⟩ := (Option.any_eq_true _ _).mp there
  obtain ⟨row, rfl⟩ := Option.isSome_iff_exists.mp there
  obtain ⟨log, calls⟩ : ∃ log, Hosts.Run .plain (fun s event => ¬s.Exposed event)
      (⟨u, fun _ => .idle, log⟩ : Hosts Unit) := Hosts.Run.calls run fun _ _ _ => id
  have free : ∀ id, ¬(⟨u, fun _ => .idle, log⟩ : Hosts Unit).Held id := by
    rintro id ⟨_, _, _, holding⟩
    cases holding
  obtain ⟨t, id, asks, gets⟩ : ∃ t id, Hosts.Step .plain (⟨u, fun _ => .idle, log⟩ : Hosts Unit)
      (.fence () (.alone .plain 0 0) ⟨"test", none⟩ (.active (claimedArgs "q")) 0) t ∧
      Hosts.Step .plain t (.lock () 0 false)
        (t.put () (.holding (.active (claimedArgs "q")) id false) [.granted (.active (claimedArgs "q")) 0 u.db row]) :=
    Hosts.Step.lock rfl free (toOption_eq_some.mp locks)
  have held := (calls.step (by rintro ⟨-, -, under⟩; cases under) asks).step (by rintro ⟨⟩) gets
  generalize shape : t.put () (.holding (.active (claimedArgs "q")) id false) _ = v at held
  have holds : v.host () = .holding (.active (claimedArgs "q")) id false := shape ▸ t.put_host ..
  have writes : Hosts.Step .plain v (.write ()) (v.put () (.holding (.active (claimedArgs "q")) id true) []) :=
    .write holds
  have written : (v.put () (.holding (.active (claimedArgs "q")) id true) []).host () =
      .holding (.active (claimedArgs "q")) id true := v.put_host ..
  have commits : Hosts.Step .plain (v.put () (.holding (.active (claimedArgs "q")) id true) []) (.commit ()) _ :=
    .commit written
  have done := (held.step (by rintro ⟨⟩) writes).step (by rintro ⟨⟩) commits
  exact ⟨_, host_effects_fenced done, by simp [Hosts.put]⟩

/-- The queue functions accept a name that begins with an underscore, and the fence raises for its attempts. -/
theorem underscored_queue_refused : ¬∀ s : Hosts Unit, Hosts.Run .plain (fun _ _ => True) s → EffectsFenced s.log := by
  intro fenced
  have played : System.plays .plain (claimedOn "_q") (.installed .plain 0) (fun t =>
      match (t.db.jobs.get? 2) with
      | some job => (claimedArgs "_q").admits 0 job.toJobRow
      | none => false) = true := by decide
  obtain ⟨u, run, there⟩ := System.plays_run anyCall played fun _ _ _ => trivial
  split at there
  · rename_i job stored
    obtain ⟨log, calls⟩ : ∃ log, Hosts.Run .plain (fun _ _ => True) (⟨u, fun _ => .idle, log⟩ : Hosts Unit) :=
      Hosts.Run.calls run fun _ _ _ => trivial
    have raises : Hosts.Step .plain (⟨u, fun _ => .idle, log⟩ : Hosts Unit)
        (.fence () (.alone .plain 0 0) ⟨"test", none⟩ (.active (claimedArgs "_q")) 0) _ := .raised rfl rfl
    have raised := calls.step trivial raises
    have names : (claimedArgs "_q").Names 0 u.db 2 job := ActiveArgs.names_iff.mp (by
      simp only [Fence.finds, Fence.jobId, claimedArgs, Option.bind_some, stored, Fence.admits]
      exact if_pos there)
    exact (fenced _ raised).refused (claimedArgs "_q") 0 u.db (by simp [Hosts.put]) ⟨by decide, by decide, by decide⟩ 2 job names
  · cases there

end Witnesses

end Taskq
