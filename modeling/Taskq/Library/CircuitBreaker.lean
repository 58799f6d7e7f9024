import Mathlib.Algebra.BigOperators.Group.List.Basic
import Mathlib.Algebra.Order.Group.Defs
import Mathlib.Data.List.Induction
import Mathlib.Data.Rat.Defs
import Mathlib.Tactic.Linarith

/-! Circuit breakers as a machine that remembers what it was told: the outcomes that it heard since it was closed last,
and the samples of its windows. -/
namespace CircuitBreaker

section Streak

/-- How many failures in a row stand at the end of a list of outcomes. -/
def streak (l : List Bool) : ℕ := (l.reverse.takeWhile fun failed => failed).length

@[simp] theorem streak_nil : streak [] = 0 := rfl

@[simp] theorem streak_failed (l : List Bool) : streak (l ++ [true]) = streak l + 1 := by simp [streak]

@[simp] theorem streak_succeeded (l : List Bool) : streak (l ++ [false]) = 0 := by simp [streak]

/-- As many outcomes as the streak counts, the last ones, are failures. -/
theorem streak_split (l : List Bool) : ∃ before, l = before ++ List.replicate (streak l) true := by
  induction l using List.reverseRecOn with
  | nil => exact ⟨[], rfl⟩
  | append_singleton l last ih =>
    cases last with
    | false => exact ⟨l ++ [false], by simp⟩
    | true =>
      obtain ⟨before, same⟩ := ih
      refine ⟨before, ?_⟩
      rw [streak_failed, List.replicate_succ', ← List.append_assoc, ← same]

end Streak

section Machine

/-- Samples taken since an instant. -/
structure Window (T α : Type) where
  start : T
  samples : List α

inductive Phase where
  | closed | opened | probing
  deriving DecidableEq, Repr

/-- Open when so many samples are there and the failures are a share of them that is reached. -/
structure RateRule (T : Type) where
  reached : ℕ → ℕ → Bool
  width : T
  volume : ℤ

/-- Open when so many samples are there and their average is as high. -/
structure LatencyRule (T : Type) where
  limit : ℤ
  width : T
  volume : ℤ

def RateRule.trips {T : Type} (rule : RateRule T) (w : Window T Bool) : Bool :=
  rule.volume ≤ w.samples.length ∧ rule.reached (w.samples.count true) w.samples.length

def LatencyRule.trips {T : Type} (rule : LatencyRule T) (w : Window T ℤ) : Bool :=
  rule.volume ≤ w.samples.length ∧ rule.limit ≤ w.samples.sum.tdiv w.samples.length

/-- How a piece of work ended, and how long it took when that is known. -/
structure Ending where
  failed : Bool
  latency : Option ℤ
  deriving DecidableEq, Repr

/-- What a breaker is told: that work ended, that work is asked for, and what operators do. -/
inductive Signal (T : Type) where
  | settled (now : T) (e : Ending)
  | claimed (now : T)
  | tripped (now : T)
  | forced
  | configured (threshold : Option ℤ) (cooldown : T) (needed : ℤ)
  | rated (rule : Option (RateRule T))
  | timed (rule : Option (LatencyRule T))

/-- A breaker with its rules, and with all that it heard since it was closed last. -/
structure Breaker (T : Type) where
  threshold : Option ℤ
  cooldown : T
  needed : ℤ
  rate : Option (RateRule T)
  latency : Option (LatencyRule T)
  phase : Phase
  trippedAt : Option T
  successes : ℤ
  heard : List Bool
  sampled : Option (Window T Bool)
  timings : Option (Window T ℤ)
  openings : ℤ

variable {T : Type} [LinearOrder T] [Add T]

/-- A sample joins the window that is there, or starts a new one when there is none or its width is past. -/
def feed {α : Type} (width now : T) (x : α) : Option (Window T α) → Window T α
  | none => ⟨now, [x]⟩
  | some w => if w.start + width ≤ now then ⟨now, [x]⟩ else ⟨w.start, w.samples ++ [x]⟩

namespace Breaker

/-- Nothing is configured and nothing was heard. -/
def off (cooldown : T) : Breaker T := ⟨none, cooldown, 1, none, none, .closed, none, 0, [], none, none, 0⟩

def opens (now : T) (b : Breaker T) : Breaker T :=
  { b with phase := .opened, trippedAt := some now, openings := b.openings + 1 }

def closes (b : Breaker T) : Breaker T :=
  { b with phase := .closed, successes := 0, heard := [], sampled := none, timings := none }

/-- A closed breaker takes an ending into its streak and its windows. -/
def listen (now : T) (e : Ending) (b : Breaker T) : Breaker T :=
  { b with
    heard := b.heard ++ [e.failed]
    sampled := match b.rate with
      | none => b.sampled
      | some rule => some (feed rule.width now e.failed b.sampled)
    timings := match b.latency, e.latency with
      | some rule, some ms => some (feed rule.width now ms b.timings)
      | _, _ => b.timings }

/-- What a breaker has just heard is reason to open. -/
def alarmed (threshold : ℤ) (e : Ending) (b : Breaker T) : Bool :=
  (e.failed && decide (threshold ≤ streak b.heard)) ||
  (e.failed && b.rate.any fun rule => b.sampled.any rule.trips) ||
  (e.latency.isSome && b.latency.any fun rule => b.timings.any rule.trips)

/-- A failed probe opens the breaker again. -/
def reopens (now : T) (b : Breaker T) : Breaker T := { b.opens now with successes := 0 }

/-- A probe succeeded, and more are needed. -/
def counts (b : Breaker T) : Breaker T := { b with successes := b.successes + 1 }

/-- The breaker lets probes through. -/
def elects (b : Breaker T) : Breaker T := { b with phase := .probing }

/-- What an ending does: an armed breaker that is closed listens and may open, one that probes counts. -/
def settle (now : T) (e : Ending) (b : Breaker T) : Breaker T :=
  match b.threshold with
  | none => b
  | some threshold =>
    match b.phase with
    | .opened => b
    | .probing =>
      if e.failed then b.reopens now
      else if b.needed ≤ b.successes + 1 then b.closes
      else b.counts
    | .closed => if (b.listen now e).alarmed threshold e then (b.listen now e).opens now else b.listen now e

/-- What a request for work does: after the cooldown it is elected to probe, and lost probes open the breaker again. -/
def ask (now : T) (b : Breaker T) : Breaker T :=
  if b.threshold.isNone then b
  else match b.phase, b.trippedAt with
    | .opened, some t => if t + b.cooldown ≤ now then b.elects else b
    | .probing, some t => if t + (b.cooldown + b.cooldown) < now then b.reopens now else b
    | _, _ => b

def hear : Signal T → Breaker T → Breaker T
  | .settled now e, b => b.settle now e
  | .claimed now, b => b.ask now
  | .tripped now, b => { b.reopens now with sampled := none, timings := none }
  | .forced, b => b.closes
  | .configured threshold cooldown needed, b =>
    { b with threshold := threshold, cooldown := cooldown, needed := needed }
  | .rated rule, b => { b with rate := rule, sampled := none }
  | .timed rule, b => { b with latency := rule, timings := none }

/-- The ways in which an ending ends. -/
inductive Settles (now : T) (e : Ending) (b : Breaker T) : Breaker T → Prop
  | deaf (quiet : b.threshold = none ∨ b.phase = .opened) : Settles now e b b
  | lost (armed : b.threshold ≠ none) (probing : b.phase = .probing) (failed : e.failed = true) :
      Settles now e b (b.reopens now)
  | proved (armed : b.threshold ≠ none) (probing : b.phase = .probing) (succeeded : e.failed = false)
      (enough : b.needed ≤ b.successes + 1) : Settles now e b b.closes
  | counted (armed : b.threshold ≠ none) (probing : b.phase = .probing) (succeeded : e.failed = false)
      (more : b.successes + 1 < b.needed) : Settles now e b b.counts
  | alarmed {threshold : ℤ} (armed : b.threshold = some threshold) (closed : b.phase = .closed)
      (alarm : (b.listen now e).alarmed threshold e = true) : Settles now e b ((b.listen now e).opens now)
  | heard (armed : b.threshold ≠ none) (closed : b.phase = .closed) : Settles now e b (b.listen now e)

theorem settle_settles (now : T) (e : Ending) (b : Breaker T) : Settles now e b (b.settle now e) := by
  unfold settle
  cases armed : b.threshold with
  | none => exact .deaf (.inl armed)
  | some threshold =>
    have armed' : b.threshold ≠ none := by simp [armed]
    cases phase : b.phase with
    | opened => exact .deaf (.inr phase)
    | probing =>
      dsimp only
      split_ifs with failed enough
      · exact .lost armed' phase failed
      · exact .proved armed' phase (by simpa using failed) enough
      · exact .counted armed' phase (by simpa using failed) (lt_of_not_ge enough)
    | closed =>
      dsimp only
      split_ifs with alarm
      · exact .alarmed armed phase alarm
      · exact .heard armed' phase

/-- The ways in which a request ends. -/
inductive Asks (now : T) (b : Breaker T) : Breaker T → Prop
  | same : Asks now b b
  | elected {t : T} (armed : b.threshold ≠ none) (opened : b.phase = .opened) (since : b.trippedAt = some t)
      (cool : t + b.cooldown ≤ now) : Asks now b b.elects
  | lapsed (armed : b.threshold ≠ none) (probing : b.phase = .probing) : Asks now b (b.reopens now)

theorem ask_asks (now : T) (b : Breaker T) : Asks now b (b.ask now) := by
  unfold ask
  split_ifs with disarmed
  · exact .same
  · have armed : b.threshold ≠ none := by simpa using disarmed
    split
    · rename_i t opened since
      split_ifs with cool
      · exact .elected armed opened since cool
      · exact .same
    · rename_i t probing since
      split_ifs with late
      · exact .lapsed armed probing
      · exact .same
    · exact .same

/-- What is told first is heard first. -/
def hearAll (told : List (Signal T)) (b : Breaker T) : Breaker T := told.foldl (fun b s => b.hear s) b

end Breaker

section Memory

variable {α : Type} {after : List (Signal T)} {s : Signal T} {b : Breaker T} {now : T} {outcomes : List Bool}

/-- When something was told, if that matters. -/
def Signal.time : Signal T → Option T
  | .settled now _ | .claimed now | .tripped now => some now
  | _ => none

/-- Whether the work that ended failed. -/
def Signal.failed : Signal T → Option Bool
  | .settled _ e => some e.failed
  | _ => none

/-- How long the work that ended took. -/
def Signal.latency : Signal T → Option ℤ
  | .settled _ e => e.latency
  | _ => none

/-- What is heard closes the breaker: an operator forces it, or the last probe that was needed succeeds. -/
def Breaker.Resets (s : Signal T) (b : Breaker T) : Prop :=
  s = .forced ∨ b.phase = .probing ∧ (b.hear s).phase = .closed

/-- The samples of a window come from signals of a list, each told at its start or before its width is past. -/
def Sampled (f : Signal T → Option α) (after : List (Signal T)) (width : T) (w : Window T α) : Prop :=
  ∃ kept : List (Signal T), kept.Sublist after ∧ kept.filterMap f = w.samples ∧
    ∀ s ∈ kept, ∃ now, s.time = some now ∧ (now = w.start ∨ now < w.start + width)

theorem Sampled.more {f : Signal T → Option α} {width : T} {w : Window T α} (sampled : Sampled f after width w)
    (s : Signal T) : Sampled f (after ++ [s]) width w := by
  obtain ⟨kept, sub, same, timely⟩ := sampled
  exact ⟨kept, sub.trans (List.sublist_append_left _ _), same, timely⟩

theorem sampled_feed {f : Signal T → Option α} {width : T} {x : α} {before : Option (Window T α)} (is : f s = some x)
    (at' : s.time = some now) (sampled : ∀ w, before = some w → Sampled f after width w) :
    Sampled f (after ++ [s]) width (feed width now x before) := by
  have alone : Sampled f (after ++ [s]) width ⟨now, [x]⟩ := by
    refine ⟨[s], List.sublist_append_right _ _, by simp [is], ?_⟩
    intro s' member
    rw [List.mem_singleton.mp member]
    exact ⟨now, at', .inl rfl⟩
  cases before with
  | none => exact alone
  | some w =>
    simp only [feed]
    split_ifs with past
    · exact alone
    · obtain ⟨kept, sub, same, timely⟩ := sampled w rfl
      refine ⟨kept ++ [s], sub.append (List.Sublist.refl _), by simp [same, is], ?_⟩
      intro s' member
      obtain old | new := List.mem_append.mp member
      · exact timely s' old
      · rw [List.mem_singleton.mp new]
        exact ⟨now, at', .inr (lt_of_not_ge past)⟩

/-- What goes into the streak: the outcomes that an armed breaker is told while it is closed. -/
def Breaker.listens (b : Breaker T) (s : Signal T) : List Bool :=
  if b.threshold.isSome ∧ b.phase = .closed then s.failed.toList else []

/-- The outcomes of signals that the breaker, as it goes, listens to. -/
def Breaker.listensAll (b : Breaker T) : List (Signal T) → List Bool
  | [] => []
  | s :: rest => b.listens s ++ (b.hear s).listensAll rest

/-- The streak is that of these outcomes, and the samples of the windows come from signals of the list. -/
structure Remembers (outcomes : List Bool) (after : List (Signal T)) (b : Breaker T) : Prop where
  heard : b.heard = outcomes
  sampled : ∀ w, b.sampled = some w → ∃ rule, b.rate = some rule ∧ Sampled Signal.failed after rule.width w
  timings : ∀ w, b.timings = some w → ∃ rule, b.latency = some rule ∧ Sampled Signal.latency after rule.width w

theorem Remembers.more (remembers : Remembers outcomes after b) (s : Signal T) : Remembers outcomes (after ++ [s]) b := by
  refine ⟨remembers.heard, ?_, ?_⟩
  · intro w here
    obtain ⟨rule, is, sampled⟩ := remembers.sampled w here
    exact ⟨rule, is, sampled.more s⟩
  · intro w here
    obtain ⟨rule, is, sampled⟩ := remembers.timings w here
    exact ⟨rule, is, sampled.more s⟩

/-- A breaker that holds the same is remembered the same, whatever its phase. -/
theorem Remembers.alike {b' : Breaker T} (remembers : Remembers outcomes after b) (heard : b'.heard = b.heard)
    (sampled : b'.sampled = b.sampled ∧ b'.rate = b.rate) (timings : b'.timings = b.timings ∧ b'.latency = b.latency) :
    Remembers outcomes after b' := by
  refine ⟨heard.trans remembers.heard, ?_, ?_⟩
  · rw [sampled.1, sampled.2]
    exact remembers.sampled
  · rw [timings.1, timings.2]
    exact remembers.timings

theorem remembers_closed (b : Breaker T) : Remembers [] after b.closes := by
  refine ⟨rfl, ?_, ?_⟩
  · intro w here
    cases here
  · intro w here
    cases here

theorem remembers_off (cooldown : T) : Remembers [] [] (Breaker.off cooldown) := by
  refine ⟨rfl, ?_, ?_⟩
  · rintro w ⟨⟩
  · rintro w ⟨⟩

theorem remembers_listen {e : Ending} (remembers : Remembers outcomes after b) :
    Remembers (outcomes ++ [e.failed]) (after ++ [.settled now e]) (b.listen now e) := by
  refine ⟨congrArg (· ++ [e.failed]) remembers.heard, ?_, ?_⟩
  · intro w here
    cases rule : b.rate with
    | none =>
      simp only [Breaker.listen, rule] at here
      obtain ⟨_, is, -⟩ := remembers.sampled w here
      cases rule.symm.trans is
    | some rule' =>
      simp only [Breaker.listen, rule, Option.some.injEq] at here
      subst here
      refine ⟨rule', rule, sampled_feed rfl rfl ?_⟩
      intro w there
      obtain ⟨_, is, sampled⟩ := remembers.sampled w there
      cases rule.symm.trans is
      exact sampled
  · intro w here
    cases rule : b.latency with
    | none =>
      simp only [Breaker.listen, rule] at here
      obtain ⟨_, is, -⟩ := remembers.timings w here
      cases rule.symm.trans is
    | some rule' =>
      have old : ∀ w, b.timings = some w → Sampled Signal.latency after rule'.width w := by
        intro w there
        obtain ⟨_, is, sampled⟩ := remembers.timings w there
        cases rule.symm.trans is
        exact sampled
      cases took : e.latency with
      | none =>
        simp only [Breaker.listen, rule, took] at here
        exact ⟨rule', rule, (old w here).more _⟩
      | some ms =>
        simp only [Breaker.listen, rule, took, Option.some.injEq] at here
        subst here
        exact ⟨rule', rule, sampled_feed took rfl old⟩

/-- What closes the breaker makes it forget, and all else it may remember. -/
theorem remembers_hear (remembers : Remembers outcomes after b) :
    b.Resets s ∧ Remembers [] [] (b.hear s) ∨
      ¬b.Resets s ∧ Remembers (outcomes ++ b.listens s) (after ++ [s]) (b.hear s) := by
  have more := remembers.more s
  have deaf (other : b.threshold = none ∨ b.phase ≠ .closed ∨ s.failed = none) : outcomes ++ b.listens s = outcomes := by
    unfold Breaker.listens
    split_ifs with listening
    · obtain off | apart | none' := other
      · simp [off] at listening
      · exact absurd listening.2 apart
      · simp [none']
    · exact List.append_nil _
  have kept {b' : Breaker T} (phase : b.hear s = b') (other : b'.phase = .closed → b.phase ≠ .probing) (unforced : s ≠ .forced)
      (remembered : Remembers (outcomes ++ b.listens s) (after ++ [s]) b') :
      b.Resets s ∧ Remembers [] [] b' ∨ ¬b.Resets s ∧ Remembers (outcomes ++ b.listens s) (after ++ [s]) b' := by
    refine .inr ⟨?_, remembered⟩
    rintro (forced | ⟨probing, closed⟩)
    · exact unforced forced
    · rw [phase] at closed
      exact other closed probing
  cases s with
  | settled now e =>
    have settles := Breaker.settle_settles now e b
    change _ ∧ Remembers _ _ (b.settle now e) ∨ _ ∧ Remembers _ _ (b.settle now e)
    generalize same : b.settle now e = b' at settles
    cases settles with
    | deaf quiet =>
      refine kept same ?_ (by simp) ?_
      · intro closed
        simp [closed]
      · rw [deaf (quiet.imp_right fun opened => .inl (by simp [opened]))]
        exact more
    | lost _ probing =>
      refine kept same (by simp [Breaker.reopens, Breaker.opens]) (by simp) ?_
      rw [deaf (.inr (.inl (by simp [probing])))]
      exact more.alike rfl ⟨rfl, rfl⟩ ⟨rfl, rfl⟩
    | proved _ probing =>
      refine .inl ⟨.inr ⟨probing, ?_⟩, remembers_closed b⟩
      change (b.settle now e).phase = .closed
      rw [same]
      rfl
    | counted _ probing =>
      refine kept same (by simp [Breaker.counts, probing]) (by simp) ?_
      rw [deaf (.inr (.inl (by simp [probing])))]
      exact more.alike rfl ⟨rfl, rfl⟩ ⟨rfl, rfl⟩
    | alarmed armed closed =>
      have listens : b.listens (.settled now e) = [e.failed] := by simp [Breaker.listens, armed, closed, Signal.failed]
      refine kept same (by simp [closed]) (by simp) ?_
      rw [listens]
      exact (remembers_listen remembers).alike rfl ⟨rfl, rfl⟩ ⟨rfl, rfl⟩
    | heard armed closed =>
      have listens : b.listens (.settled now e) = [e.failed] := by
        simp [Breaker.listens, Option.isSome_iff_ne_none, armed, closed, Signal.failed]
      refine kept same (by simp [closed]) (by simp) ?_
      rw [listens]
      exact remembers_listen remembers
  | claimed now =>
    have asks := Breaker.ask_asks now b
    change _ ∧ Remembers _ _ (b.ask now) ∨ _ ∧ Remembers _ _ (b.ask now)
    rw [deaf (.inr (.inr rfl))] at kept ⊢
    generalize same : b.ask now = b' at asks
    cases asks with
    | same =>
      refine kept same ?_ (by simp) more
      intro closed
      simp [closed]
    | elected => exact kept same (by simp [Breaker.elects]) (by simp) (more.alike rfl ⟨rfl, rfl⟩ ⟨rfl, rfl⟩)
    | lapsed => exact kept same (by simp [Breaker.reopens, Breaker.opens]) (by simp) (more.alike rfl ⟨rfl, rfl⟩ ⟨rfl, rfl⟩)
  | forced => exact .inl ⟨.inl rfl, remembers_closed b⟩
  | tripped now =>
    rw [deaf (.inr (.inr rfl))] at kept ⊢
    refine kept rfl (by simp [Breaker.hear, Breaker.reopens, Breaker.opens]) (by simp) ⟨more.heard, ?_, ?_⟩
    · rintro w ⟨⟩
    · rintro w ⟨⟩
  | configured =>
    rw [deaf (.inr (.inr rfl))] at kept ⊢
    refine kept rfl ?_ (by simp) (more.alike rfl ⟨rfl, rfl⟩ ⟨rfl, rfl⟩)
    intro closed
    have closed : b.phase = .closed := closed
    simp [closed]
  | rated =>
    rw [deaf (.inr (.inr rfl))] at kept ⊢
    refine kept rfl ?_ (by simp) ⟨more.heard, by rintro w ⟨⟩, more.timings⟩
    intro closed
    have closed : b.phase = .closed := closed
    simp [closed]
  | timed =>
    rw [deaf (.inr (.inr rfl))] at kept ⊢
    refine kept rfl ?_ (by simp) ⟨more.heard, more.sampled, by rintro w ⟨⟩⟩
    intro closed
    have closed : b.phase = .closed := closed
    simp [closed]

/-- No signal of a list closes the breaker that heard others before. -/
def Unreset (b : Breaker T) (before after : List (Signal T)) : Prop :=
  ∀ p s rest, after = p ++ s :: rest → ¬(b.hearAll (before ++ p)).Resets s

theorem hearAll_append (told more : List (Signal T)) (b : Breaker T) :
    b.hearAll (told ++ more) = (b.hearAll told).hearAll more := List.foldl_append

theorem listensAll_append (told : List (Signal T)) (s : Signal T) (b : Breaker T) :
    b.listensAll (told ++ [s]) = b.listensAll told ++ (b.hearAll told).listens s := by
  induction told generalizing b with
  | nil => simp [Breaker.listensAll, Breaker.hearAll]
  | cons first told ih =>
    rw [List.cons_append, Breaker.listensAll, ih, Breaker.listensAll, List.append_assoc]
    rfl

/-- A breaker remembers signals that it was told since it was closed last. -/
theorem remembers_hearAll (fresh : Remembers [] [] b) (told : List (Signal T)) :
    ∃ before after, told = before ++ after ∧ Unreset b before after ∧
      Remembers ((b.hearAll before).listensAll after) after (b.hearAll told) := by
  induction told using List.reverseRecOn with
  | nil =>
    refine ⟨[], [], rfl, ?_, fresh⟩
    intro p s rest same
    simp at same
  | append_singleton told s ih =>
    obtain ⟨before, after, rfl, unreset, remembers⟩ := ih
    have last : b.hearAll ((before ++ after) ++ [s]) = (b.hearAll (before ++ after)).hear s := hearAll_append _ _ _
    rw [last]
    obtain ⟨-, forgets⟩ | ⟨open', remembers⟩ := remembers_hear (s := s) remembers
    · refine ⟨before ++ after ++ [s], [], by simp, ?_, forgets⟩
      intro p s rest same
      simp at same
    · refine ⟨before, after ++ [s], by simp, ?_, ?_⟩
      · intro p s' rest same
        obtain rfl | ⟨rest', last', rfl⟩ := List.eq_nil_or_concat rest
        · obtain ⟨rfl, this⟩ := List.append_inj' same rfl
          rw [← List.singleton_inj.mp this]
          exact open'
        · have same : after ++ [s] = (p ++ s' :: rest') ++ [last'] := by simpa using same
          exact unreset p s' rest' (List.append_inj' same rfl).1
      · rw [listensAll_append, ← hearAll_append]
        exact remembers

/-- What a breaker that opens has against the work: a streak among the outcomes that it listened to, or a window. -/
inductive Evidence (threshold : ℤ) (outcomes : List Bool) (after : List (Signal T)) (b : Breaker T) : Prop
  | streak {earlier : List Bool} {n : ℕ} (long : threshold ≤ n) (last : outcomes = earlier ++ List.replicate n true)
  | rate {rule : RateRule T} {w : Window T Bool} (is : b.rate = some rule)
      (sampled : Sampled Signal.failed after rule.width w) (trips : rule.trips w = true)
  | latency {rule : LatencyRule T} {w : Window T ℤ} (is : b.latency = some rule)
      (sampled : Sampled Signal.latency after rule.width w) (trips : rule.trips w = true)

theorem evidence_of_alarm {threshold : ℤ} {e : Ending} (remembers : Remembers outcomes after b)
    (alarm : b.alarmed threshold e = true) : Evidence threshold outcomes after b := by
  simp only [Breaker.alarmed, Bool.or_eq_true, Bool.and_eq_true, decide_eq_true_eq] at alarm
  obtain (⟨-, long⟩ | ⟨-, high⟩) | ⟨-, slow⟩ := alarm
  · obtain ⟨earlier, split⟩ := streak_split b.heard
    rw [remembers.heard] at long split
    exact .streak long split
  · obtain ⟨rule, is, high⟩ := (Option.any_eq_true _ _).mp high
    obtain ⟨w, here, trips⟩ := (Option.any_eq_true _ _).mp high
    obtain ⟨_, is', sampled⟩ := remembers.sampled w here
    cases is.symm.trans is'
    exact .rate is sampled trips
  · obtain ⟨rule, is, slow⟩ := (Option.any_eq_true _ _).mp slow
    obtain ⟨w, here, trips⟩ := (Option.any_eq_true _ _).mp slow
    obtain ⟨_, is', sampled⟩ := remembers.timings w here
    cases is.symm.trans is'
    exact .latency is sampled trips

theorem hearAll_concat (told : List (Signal T)) (s : Signal T) (b : Breaker T) :
    b.hearAll (told ++ [s]) = (b.hearAll told).hear s := hearAll_append _ _ _

/-- An ending opens a closed breaker on evidence told since it was closed last. -/
theorem opens_on_evidence (fresh : Remembers [] [] b) {told : List (Signal T)} {e : Ending}
    (closed : (b.hearAll told).phase = .closed) (opens : (b.hearAll (told ++ [.settled now e])).phase = .opened) :
    ∃ threshold before after, (b.hearAll told).threshold = some threshold ∧ told = before ++ after ∧
      Unreset b before after ∧ Evidence threshold ((b.hearAll before).listensAll (after ++ [.settled now e]))
        (after ++ [.settled now e]) (b.hearAll told) := by
  obtain ⟨before, after, split, unreset, remembers⟩ := remembers_hearAll fresh told
  have whole : b.hearAll told = (b.hearAll before).hearAll after := by rw [split, hearAll_append]
  have joined := listensAll_append after (.settled now e) (b.hearAll before)
  rw [← whole] at joined
  rw [hearAll_concat] at opens
  generalize b.hearAll told = c at closed opens remembers joined ⊢
  have settles := Breaker.settle_settles now e c
  change (c.settle now e).phase = .opened at opens
  generalize c.settle now e = c' at settles opens
  cases settles with
  | deaf => exact absurd (closed.symm.trans opens) (by simp)
  | lost _ probing | counted _ probing => exact absurd (closed.symm.trans probing) (by simp)
  | proved => cases opens
  | heard => exact absurd (closed.symm.trans opens) (by simp)
  | @alarmed threshold armed _ alarm =>
    have listens : c.listens (.settled now e) = [e.failed] := by simp [Breaker.listens, armed, closed, Signal.failed]
    refine ⟨threshold, before, after, armed, split, unreset, ?_⟩
    rw [joined, listens]
    have evidence := evidence_of_alarm (remembers_listen remembers) alarm
    cases evidence with
    | streak long last => exact .streak long last
    | rate is sampled trips => exact .rate is sampled trips
    | latency is sampled trips => exact .latency is sampled trips

end Memory

section Probes

variable {s : Signal T} {b : Breaker T} {told : List (Signal T)} {now e : T}

/-- Successes are counted while the breaker probes. -/
def Breaker.Calm (b : Breaker T) : Prop := b.phase ≠ .probing → b.successes = 0

theorem calm_hear (calm : b.Calm) : (b.hear s).Calm := by
  cases s with
  | settled now e =>
    have settles := Breaker.settle_settles now e b
    change (b.settle now e).Calm
    generalize b.settle now e = b' at settles
    cases settles with
    | deaf => exact calm
    | lost | proved => exact fun _ => rfl
    | counted _ probing => exact fun other => absurd probing other
    | alarmed _ closed | heard _ closed => exact fun _ => calm (by simp [closed])
  | claimed now =>
    have asks := Breaker.ask_asks now b
    change (b.ask now).Calm
    generalize b.ask now = b' at asks
    cases asks with
    | same => exact calm
    | elected => exact fun other => absurd rfl other
    | lapsed => exact fun _ => rfl
  | tripped | forced => exact fun _ => rfl
  | configured | rated | timed => exact calm

theorem calm_hearAll (calm : b.Calm) (told : List (Signal T)) : (b.hearAll told).Calm := by
  induction told using List.reverseRecOn with
  | nil => exact calm
  | append_singleton told s ih =>
    rw [hearAll_concat]
    exact calm_hear ih

/-- The request is elected to probe. -/
def Breaker.Elects (b : Breaker T) (now : T) : Prop :=
  b.threshold ≠ none ∧ b.phase = .opened ∧ ∃ t, b.trippedAt = some t ∧ t + b.cooldown ≤ now

/-- A breaker that probes did so before, and counted at most the success that it heard; or a request was elected. -/
theorem probing_hear (probing : (b.hear s).phase = .probing) :
    b.phase = .probing ∧ (b.hear s).successes ≤ b.successes + ((s.failed.toList.count false : ℕ) : ℤ) ∨
      ∃ now, s = .claimed now ∧ b.Elects now ∧ (b.hear s).successes = b.successes := by
  cases s with
  | settled now e =>
    left
    have settles := Breaker.settle_settles now e b
    change (b.settle now e).phase = .probing at probing
    change b.phase = .probing ∧ (b.settle now e).successes ≤ _
    generalize b.settle now e = b' at settles probing
    cases settles with
    | deaf => exact ⟨probing, by omega⟩
    | lost | proved | alarmed => cases probing
    | counted _ was succeeded =>
      refine ⟨was, ?_⟩
      simp [Breaker.counts, Signal.failed, succeeded]
    | heard _ closed =>
      have closed' : (b.listen now e).phase = .closed := closed
      cases closed'.symm.trans probing
  | claimed now =>
    have asks := Breaker.ask_asks now b
    change (b.ask now).phase = .probing at probing
    change b.phase = .probing ∧ (b.ask now).successes ≤ _ ∨ ∃ now', _ ∧ _ ∧ (b.ask now).successes = _
    generalize b.ask now = b' at asks probing
    cases asks with
    | same => exact .inl ⟨probing, by omega⟩
    | @elected t armed opened since cool => exact .inr ⟨now, rfl, ⟨armed, opened, t, since, cool⟩, rfl⟩
    | lapsed => cases probing
  | tripped | forced => cases probing
  | configured | rated | timed =>
    left
    refine ⟨probing, ?_⟩
    change b.successes ≤ _
    omega

/-- A breaker that probes has done so ever since a request was elected, and counted no more successes than were told. -/
theorem probing_period (calm : b.Calm) (quiet : b.phase ≠ .probing) (probing : (b.hearAll told).phase = .probing) :
    ∃ before now period, told = before ++ .claimed now :: period ∧ (b.hearAll before).Elects now ∧
      (∀ p, p <+: period → (b.hearAll (before ++ .claimed now :: p)).phase = .probing) ∧
      (b.hearAll told).successes ≤ (((period.filterMap Signal.failed).count false : ℕ) : ℤ) := by
  induction told using List.reverseRecOn with
  | nil => exact absurd probing quiet
  | append_singleton told s ih =>
    rw [hearAll_concat] at probing ⊢
    obtain ⟨was, few⟩ | ⟨now, rfl, elects, same⟩ := probing_hear probing
    · obtain ⟨before, now, period, rfl, elects, steady, counted⟩ := ih was
      refine ⟨before, now, period ++ [s], by simp, elects, ?_, ?_⟩
      · intro p front
        obtain shorter | rfl := List.prefix_concat_iff.mp front |>.symm
        · exact steady p shorter
        · rw [← List.cons_append, ← List.append_assoc, hearAll_concat]
          exact probing
      · rw [List.filterMap_append, List.count_append]
        have last : ([s].filterMap Signal.failed) = s.failed.toList := by cases h : s.failed <;> simp [h]
        rw [last]
        push_cast
        omega
    · refine ⟨told, now, [], rfl, elects, ?_, ?_⟩
      · intro p front
        rw [List.prefix_nil.mp front, hearAll_concat]
        exact probing
      · have zero := calm_hearAll calm told (by simp [elects.2.1])
        rw [same, zero]
        exact Int.natCast_nonneg _

/-- An ending closes a breaker that probes only as a success, and the last of enough successes told since a request was
elected; the breaker has probed ever since. -/
theorem closes_on_proofs {f : Ending} (calm : b.Calm) (quiet : b.phase ≠ .probing)
    (probing : (b.hearAll told).phase = .probing) (closes : (b.hearAll (told ++ [.settled now f])).phase = .closed) :
    f.failed = false ∧ ∃ before e period, told = before ++ .claimed e :: period ∧ (b.hearAll before).Elects e ∧
      (∀ p, p <+: period → (b.hearAll (before ++ .claimed e :: p)).phase = .probing) ∧
      (b.hearAll told).needed ≤ ((((period ++ [Signal.settled now f]).filterMap Signal.failed).count false : ℕ) : ℤ) := by
  obtain ⟨before, e, period, split, elects, steady, counted⟩ := probing_period calm quiet probing
  rw [hearAll_concat] at closes
  generalize b.hearAll told = c at probing closes counted ⊢
  have settles := Breaker.settle_settles now f c
  change (c.settle now f).phase = .closed at closes
  generalize c.settle now f = c' at settles closes
  cases settles with
  | deaf => exact absurd (probing.symm.trans closes) (by simp)
  | lost | alarmed => cases closes
  | counted => exact absurd (probing.symm.trans closes) (by simp)
  | heard _ closed => exact absurd (probing.symm.trans closed) (by simp)
  | proved _ _ succeeded enough =>
    refine ⟨succeeded, before, e, period, split, elects, steady, ?_⟩
    have one : ([Signal.settled now f].filterMap Signal.failed).count false = 1 := by simp [Signal.failed, succeeded]
    rw [List.filterMap_append, List.count_append, one]
    push_cast
    omega

/-- If the breaker is open, it was opened no earlier than an instant. -/
def Breaker.Since (e : T) (b : Breaker T) : Prop := b.phase = .opened → ∃ t, b.trippedAt = some t ∧ e ≤ t

theorem since_hear (since : b.Since e) (timely : ∀ now, s.time = some now → e ≤ now) : (b.hear s).Since e := by
  cases s with
  | settled now f =>
    have later := timely now rfl
    have settles := Breaker.settle_settles now f b
    change (b.settle now f).Since e
    generalize b.settle now f = b' at settles
    cases settles with
    | deaf => exact since
    | lost | alarmed => exact fun _ => ⟨now, rfl, later⟩
    | proved => exact fun opened => nomatch opened
    | counted _ probing => exact fun opened => absurd (probing.symm.trans opened) (by simp)
    | heard _ closed => exact fun opened => absurd (closed.symm.trans opened) (by simp)
  | claimed now =>
    have later := timely now rfl
    have asks := Breaker.ask_asks now b
    change (b.ask now).Since e
    generalize b.ask now = b' at asks
    cases asks with
    | same => exact since
    | elected => exact fun opened => nomatch opened
    | lapsed => exact fun _ => ⟨now, rfl, later⟩
  | tripped now => exact fun _ => ⟨now, rfl, timely now rfl⟩
  | forced => exact fun opened => nomatch opened
  | configured | rated | timed => exact since

theorem since_hearAll (since : b.Since e) (timely : ∀ s ∈ told, ∀ now, s.time = some now → e ≤ now) :
    (b.hearAll told).Since e := by
  induction told using List.reverseRecOn with
  | nil => exact since
  | append_singleton told s ih =>
    rw [hearAll_concat]
    refine since_hear (ih ?_) ?_
    · intro s' member
      exact timely s' (List.mem_append_left _ member)
    · exact timely s (List.mem_append_right _ (List.mem_singleton_self s))

end Probes

section Turns

variable {s : Signal T} {b : Breaker T} {told : List (Signal T)}

/-- What holds of a breaker and does not after some signals was ended by one of them. -/
theorem turned_by {P : Breaker T → Prop} (holds : P b) (ended : ¬P (b.hearAll told)) :
    ∃ p s rest, told = p ++ s :: rest ∧ P (b.hearAll p) ∧ ¬P (b.hearAll (p ++ [s])) := by
  induction told using List.reverseRecOn with
  | nil => exact absurd holds ended
  | append_singleton told s ih =>
    by_cases there : P (b.hearAll told)
    · exact ⟨told, s, [], rfl, there, ended⟩
    · obtain ⟨p, s', rest, rfl, before, after⟩ := ih there
      exact ⟨p, s', rest ++ [s], by simp, before, after⟩

/-- A closed breaker that no operator trips turns at an ending, and opens. -/
theorem turns_at_ending (closed : b.phase = .closed) (turned : (b.hear s).phase ≠ .closed) (calm : ∀ now, s ≠ .tripped now) :
    ∃ now e, s = .settled now e ∧ (b.hear s).phase = .opened := by
  cases s with
  | settled now e =>
    refine ⟨now, e, rfl, ?_⟩
    have settles := Breaker.settle_settles now e b
    change (b.settle now e).phase ≠ .closed at turned
    change (b.settle now e).phase = .opened
    generalize b.settle now e = b' at settles turned
    cases settles with
    | deaf => exact absurd closed turned
    | lost _ probing | proved _ probing | counted _ probing => exact absurd (closed.symm.trans probing) (by simp)
    | alarmed => rfl
    | heard => exact absurd closed turned
  | claimed now =>
    have asks := Breaker.ask_asks now b
    change (b.ask now).phase ≠ .closed at turned
    generalize b.ask now = b' at asks turned
    cases asks with
    | same => exact absurd closed turned
    | elected _ opened => exact absurd (closed.symm.trans opened) (by simp)
    | lapsed _ probing => exact absurd (closed.symm.trans probing) (by simp)
  | tripped now => exact absurd rfl (calm now)
  | forced => exact absurd rfl turned
  | configured | rated | timed => exact absurd closed turned

/-- A breaker that no operator closes does so at an ending, while it probes. -/
theorem closes_at_ending (unclosed : b.phase ≠ .closed) (closed : (b.hear s).phase = .closed) (calm : s ≠ .forced) :
    b.phase = .probing ∧ ∃ now e, s = .settled now e := by
  cases s with
  | settled now e =>
    refine ⟨?_, now, e, rfl⟩
    have settles := Breaker.settle_settles now e b
    change (b.settle now e).phase = .closed at closed
    generalize b.settle now e = b' at settles closed
    cases settles with
    | deaf => exact absurd closed unclosed
    | lost | alarmed => cases closed
    | proved _ probing | counted _ probing => exact probing
    | heard _ was => exact absurd was unclosed
  | claimed now =>
    have asks := Breaker.ask_asks now b
    change (b.ask now).phase = .closed at closed
    generalize b.ask now = b' at asks closed
    cases asks with
    | same => exact absurd closed unclosed
    | elected | lapsed => cases closed
  | tripped now => cases closed
  | forced => exact absurd rfl calm
  | configured | rated | timed => exact absurd closed unclosed

end Turns

end Machine

end CircuitBreaker
