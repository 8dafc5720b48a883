import Mathlib.Data.Finset.Basic
import ScamLens.EventRuns
import ScamLens.PythonText

/-!
# The drain of the scan worker

The worker pops domains and starts a task for each one. The tasks that it still
has to wait for are in a set object; a queue that stays empty makes it build a
new object, while the callbacks of older tasks keep discarding from the object
they were bound to. What the worker finds in the current set when it is stopped
is all that it waits for. The order of pops, timeouts, ends of tasks, callbacks
and the stop is the data of the run.
-/

namespace ScamLens.ScanDrains

open PythonText

/-- How the coroutine of a task has ended. -/
inductive Outcome where
  | returned
  | raised
  | cancelled
  deriving DecidableEq

/-- A task of `_run_one`. -/
structure ScanTask where
  /-- The domain it scans. -/
  domain : Text
  /-- How it has ended, if it has. -/
  outcome : Option Outcome
  /-- The set object whose `discard` is its done callback. -/
  bound : ℕ
  /-- Whether the callback has run. -/
  notified : Bool

/-- Where `run` stands. -/
inductive Phase where
  /-- Not called yet. -/
  | created
  /-- At the `brpop`. -/
  | popping
  /-- At the `gather` of the listed tasks. -/
  | gathering (awaited : Finset ℕ)
  /-- Returned normally. -/
  | returned
  /-- Ended by an exception. -/
  | failed
  deriving DecidableEq

/-- The worker with its tasks, which are known by their number, and the set
objects it has built. -/
structure Worker where
  /-- Where `run` stands. -/
  phase : Phase
  /-- `_stop.is_set()` -/
  stopSet : Bool
  /-- The contents of the set objects. -/
  sets : ℕ → Finset ℕ
  /-- The object that `in_flight` names. -/
  inFlight : ℕ
  /-- The tasks in the order of their creation. -/
  tasks : List ScanTask
  /-- The domains popped so far. -/
  popped : List Text

/-- A worker whose `run` is still to be called. -/
def initial : Worker where
  phase := .created
  stopSet := false
  sets := fun _ => ∅
  inFlight := 0
  tasks := []
  popped := []

namespace Worker

/-- The contents of `in_flight`. -/
def current (w : Worker) : Finset ℕ := w.sets w.inFlight

/-- `t.done()` of the numbered task. -/
def done (w : Worker) (i : ℕ) : Bool := (w.tasks[i]?).any (·.outcome.isSome)

/-- The condition of the loop, and the statement behind the loop up to its
await. -/
def loopHead (w : Worker) : Worker :=
  {w with phase :=
    if w.stopSet=false then .popping
    else if w.current=∅ then .returned
    else .gathering w.current}

/-- The body of the loop on a popped domain: the task is created, added to
`in_flight`, and bound to the object that `in_flight` names. -/
def spawn (w : Worker) (domain : Text) : Worker :=
  {w with
    sets := Function.update w.sets w.inFlight (insert w.tasks.length w.current)
    tasks := w.tasks++[⟨domain,none,w.inFlight,false⟩]
    popped := w.popped++[domain]}

/-- The body of the loop on an empty queue: a new object with the tasks that
are not done. -/
def rebuild (w : Worker) : Worker :=
  {w with
    sets := Function.update w.sets (w.inFlight+1) (w.current.filter fun i => w.done i=false)
    inFlight := w.inFlight+1}

/-- The coroutine of a task ends, once. -/
def finish (w : Worker) (i : ℕ) (outcome : Outcome) : Worker :=
  {w with tasks := w.tasks.modify i fun t => {t with outcome := t.outcome.or (some outcome)}}

/-- The done callback of a task runs, once, and discards it from the object it
was bound to. -/
def callback (w : Worker) (i : ℕ) : Worker :=
  match w.tasks[i]? with
  | none => w
  | some t =>
    if t.outcome.isSome && !t.notified then
      {w with
        sets := Function.update w.sets t.bound ((w.sets t.bound).erase i)
        tasks := w.tasks.modify i fun t => {t with notified := true}}
    else w

/-- `gather` ends when all tasks it was given are done, whatever their outcome. -/
def gathered (w : Worker) : Worker :=
  match w.phase with
  | .gathering awaited =>
    if ∀ i∈awaited, w.done i=true then {w with phase := .returned} else w
  | _ => w

/-- An exception at one of the two awaits of `run`. -/
def fail (w : Worker) : Worker :=
  match w.phase with
  | .popping | .gathering _ => {w with phase := .failed}
  | _ => w

end Worker

/-- What can happen next. -/
inductive Event where
  /-- `run` is called. -/
  | begin
  /-- `stop` is called. -/
  | stop
  /-- The `brpop` returns a domain. -/
  | pop (domain : Text)
  /-- The `brpop` returns nothing after its five seconds. -/
  | timeout
  /-- The coroutine of a task ends. -/
  | finish (task : ℕ) (outcome : Outcome)
  /-- The done callback of a task runs. -/
  | callback (task : ℕ)
  /-- The `gather` returns. -/
  | gathered
  /-- An await of `run` raises. -/
  | fail

/-- One event; what cannot happen changes nothing. -/
def step (w : Worker) : Event → Worker
  | .begin => if w.phase=.created then w.loopHead else w
  | .stop => {w with stopSet := true}
  | .pop domain => if w.phase=.popping then (w.spawn domain).loopHead else w
  | .timeout => if w.phase=.popping then w.rebuild.loopHead else w
  | .finish i outcome => w.finish i outcome
  | .callback i => w.callback i
  | .gathered => w.gathered
  | .fail => w.fail

variable {w : Worker} {i j : ℕ}

/-- A task that is still running. -/
def Unfinished (w : Worker) (i : ℕ) : Prop := ∃ t∈w.tasks[i]?, t.outcome=none

/-- The running tasks are those that are not done. -/
theorem Unfinished.done_eq_false (h : Unfinished w i) : w.done i=false := by
  obtain ⟨t,ht,hrunning⟩ := h
  rw [Worker.done,Option.mem_def.mp ht,Option.any_some,hrunning]
  rfl

/-- What `run` has in hand covers the running tasks: the current set up to the
end of the loop, then the set that `gather` was given. -/
def Covered (w : Worker) : Phase → Prop
  | .created | .popping => ∀ i, Unfinished w i → i∈w.current
  | .gathering awaited => ∀ i, Unfinished w i → i∈awaited
  | .returned => ∀ i, ¬Unfinished w i
  | .failed => True

/-- The invariant of the drain. -/
structure Tracked (w : Worker) : Prop where
  /-- Every popped domain has its task. -/
  domains : w.popped=w.tasks.map ScanTask.domain
  /-- The running tasks are covered. -/
  covered : Covered w w.phase

/-- The end of the loop covers what the current set covers. -/
theorem tracked_loopHead (hdomains : w.popped=w.tasks.map ScanTask.domain)
    (hcurrent : ∀ i, Unfinished w i → i∈w.current) : Tracked w.loopHead := by
  refine ⟨hdomains,?_⟩
  unfold Worker.loopHead
  dsimp only
  by_cases hstop : w.stopSet=false
  · rw [if_pos hstop]
    exact hcurrent
  · rw [if_neg hstop]
    by_cases hempty : w.current=∅
    · rw [if_pos hempty]
      intro i hi
      have hmem := hcurrent i hi
      rw [hempty] at hmem
      exact Finset.notMem_empty i hmem
    · rw [if_neg hempty]
      exact hcurrent

/-- A new task is the only one that becomes running. -/
theorem unfinished_spawn {domain : Text} (h : Unfinished (w.spawn domain) i) :
    i=w.tasks.length ∨ Unfinished w i := by
  obtain ⟨t,ht,hrunning⟩ := h
  rcases Nat.lt_trichotomy i w.tasks.length with hlt|heq|hgt
  · have hat : (w.spawn domain).tasks[i]?=w.tasks[i]? := List.getElem?_append_left hlt
    rw [hat] at ht
    exact .inr ⟨t,ht,hrunning⟩
  · exact .inl heq
  · have hlength : (w.spawn domain).tasks.length ≤ i := by
      rw [Worker.spawn,List.length_append]
      exact hgt
    rw [List.getElem?_eq_none hlength] at ht
    cases ht

/-- A spawn adds its task to the current set. -/
theorem current_spawn (w : Worker) (domain : Text) :
    (w.spawn domain).current=insert w.tasks.length w.current :=
  Function.update_self _ _ _

/-- A rebuilt set holds the tasks that are not done. -/
theorem current_rebuild (w : Worker) :
    w.rebuild.current=w.current.filter fun i => w.done i=false :=
  Function.update_self _ _ _

/-- The current set covers the running tasks after a spawn as before. -/
theorem covered_spawn (domain : Text) (h : ∀ i, Unfinished w i → i∈w.current) :
    ∀ i, Unfinished (w.spawn domain) i → i∈(w.spawn domain).current := by
  intro i hi
  rw [current_spawn]
  exact Finset.mem_insert.mpr ((unfinished_spawn hi).imp_right (h i))

/-- The current set covers the running tasks after a rebuild as before. -/
theorem covered_rebuild (h : ∀ i, Unfinished w i → i∈w.current) :
    ∀ i, Unfinished w.rebuild i → i∈w.rebuild.current := by
  intro i hi
  have hrunning : Unfinished w i := hi
  rw [current_rebuild]
  exact Finset.mem_filter.mpr ⟨h i hrunning,hrunning.done_eq_false⟩

/-- A change of one task that does not set it running again, and does not touch
its domain. -/
structure Settles (f : ScanTask → ScanTask) : Prop where
  /-- What has ended stays so. -/
  ended : ∀ t, (f t).outcome=none → t.outcome=none
  /-- The domain stays. -/
  domain : ∀ t, (f t).domain=t.domain

/-- Such a change leaves fewer tasks running. -/
theorem Settles.unfinished {f : ScanTask → ScanTask} (hf : Settles f) {v : Worker}
    (htasks : v.tasks=w.tasks.modify i f) (h : Unfinished v j) : Unfinished w j := by
  obtain ⟨t,ht,hrunning⟩ := h
  rw [htasks,List.getElem?_modify,Option.mem_def,Option.map_eq_map,Option.map_eq_some_iff] at ht
  obtain ⟨before,hbefore,rfl⟩ := ht
  refine ⟨before,hbefore,?_⟩
  split at hrunning
  · exact hf.ended before hrunning
  · exact hrunning

/-- Such a change keeps the domains. -/
theorem Settles.domains {f : ScanTask → ScanTask} (hf : Settles f) (tasks : List ScanTask)
    (i : ℕ) : (tasks.modify i f).map ScanTask.domain=tasks.map ScanTask.domain := by
  induction tasks generalizing i with
  | nil => rw [List.modify_nil]
  | cons t tasks ih =>
    cases i with
    | zero => rw [List.modify_zero_cons,List.map_cons,List.map_cons,hf.domain]
    | succ i => rw [List.modify_succ_cons,List.map_cons,List.map_cons,ih]

/-- The end of a task is such a change. -/
theorem settles_finish (outcome : Outcome) :
    Settles fun t => {t with outcome := t.outcome.or (some outcome)} where
  ended := fun t h => by
    cases hoc : t.outcome with
    | none => rfl
    | some first =>
      rw [hoc] at h
      exact h
  domain := fun _ => rfl

/-- The run of a callback is such a change. -/
theorem settles_notified : Settles fun t => {t with notified := true} where
  ended := fun _ h => h
  domain := fun _ => rfl

/-- A change of one task keeps the invariant, where the current set loses no
running task. -/
theorem Tracked.settle {f : ScanTask → ScanTask} (hw : Tracked w) (hf : Settles f) {v : Worker}
    (htasks : v.tasks=w.tasks.modify i f) (hpopped : v.popped=w.popped)
    (hphase : v.phase=w.phase)
    (hcurrent : ∀ j, Unfinished w j → j∈w.current → j∈v.current) : Tracked v := by
  obtain ⟨hdomains,hcovered⟩ := hw
  refine ⟨?_,?_⟩
  · rw [hpopped,htasks,hf.domains,hdomains]
  · rw [hphase]
    cases hp : w.phase with
    | created | popping =>
      rw [hp] at hcovered
      exact fun j hj => hcurrent j (hf.unfinished htasks hj) (hcovered j (hf.unfinished htasks hj))
    | gathering awaited | returned =>
      rw [hp] at hcovered
      exact fun j hj => hcovered j (hf.unfinished htasks hj)
    | failed => trivial

/-- A task may end whenever it does. -/
theorem Tracked.finish (hw : Tracked w) (i : ℕ) (outcome : Outcome) :
    Tracked (w.finish i outcome) :=
  hw.settle (settles_finish outcome) rfl rfl rfl fun _ _ hmem => hmem

/-- A callback discards a task that is done, from whichever object it is bound
to. -/
theorem Tracked.callback (hw : Tracked w) (i : ℕ) : Tracked (w.callback i) := by
  unfold Worker.callback
  cases htask : w.tasks[i]? with
  | none => exact hw
  | some t =>
    dsimp only
    split
    · rename_i hdue
      have hdone : w.done i=true := by
        rw [Worker.done,htask,Option.any_some]
        exact (Bool.and_eq_true_iff.mp hdue).1
      refine hw.settle settles_notified rfl rfl rfl fun j hj hmem => ?_
      have hne : j≠i := by
        rintro rfl
        rw [hj.done_eq_false] at hdone
        cases hdone
      unfold Worker.current at hmem ⊢
      dsimp only
      by_cases hbound : w.inFlight=t.bound
      · rw [hbound,Function.update_self]
        rw [hbound] at hmem
        exact Finset.mem_erase.mpr ⟨hne,hmem⟩
      · rwa [Function.update_of_ne hbound]
    · exact hw

/-- The tasks that `gather` has waited for are all that were running. -/
theorem Tracked.gathered (hw : Tracked w) : Tracked w.gathered := by
  unfold Worker.gathered
  split
  · rename_i awaited hphase
    split
    · rename_i hdone
      refine ⟨hw.domains,fun i hi => ?_⟩
      have hcovered := hw.covered
      rw [hphase] at hcovered
      have hrunning : Unfinished w i := hi
      have hi := hdone i (hcovered i hrunning)
      rw [hrunning.done_eq_false] at hi
      cases hi
    · exact hw
  · exact hw

/-- After an exception nothing is promised. -/
theorem Tracked.fail (hw : Tracked w) : Tracked w.fail := by
  unfold Worker.fail
  split
  · exact ⟨hw.domains,trivial⟩
  · exact ⟨hw.domains,trivial⟩
  · exact hw

/-- Every event keeps the running tasks tracked. -/
theorem tracked_step (w : Worker) (e : Event) (hw : Tracked w) : Tracked (step w e) := by
  have hloop (hphase : w.phase=.created ∨ w.phase=.popping) :
      ∀ i, Unfinished w i → i∈w.current := by
    have hcovered := hw.covered
    rcases hphase with hphase|hphase <;> rwa [hphase] at hcovered
  cases e with
  | begin =>
    rw [step]
    split
    · rename_i hphase
      exact tracked_loopHead hw.domains (hloop (.inl hphase))
    · exact hw
  | stop => exact ⟨hw.domains,hw.covered⟩
  | pop domain =>
    rw [step]
    split
    · rename_i hphase
      refine tracked_loopHead ?_ (covered_spawn domain (hloop (.inr hphase)))
      rw [Worker.spawn,List.map_append,hw.domains]
      rfl
    · exact hw
  | timeout =>
    rw [step]
    split
    · rename_i hphase
      exact tracked_loopHead hw.domains (covered_rebuild (hloop (.inr hphase)))
    · exact hw
  | finish i outcome => exact hw.finish i outcome
  | callback i => exact hw.callback i
  | gathered => exact hw.gathered
  | fail => exact hw.fail

/-- A worker has no task before its first event. -/
theorem tracked_initial : Tracked initial := by
  refine ⟨rfl,?_⟩
  rintro i ⟨t,ht,-⟩
  cases ht

/-- In every run the running tasks are tracked. -/
theorem tracked_run (events : List Event) : Tracked (EventRuns.run step initial events) :=
  @EventRuns.run_invariant _ _ step (fun _ => True) Tracked (fun w e hw _ => tracked_step w e hw) _
    events tracked_initial fun _ _ => trivial

/-- Whenever `run` has returned normally, every domain it has popped has a task
of its own, and all of these have ended. -/
theorem run_drains (events : List Event)
    (h : (EventRuns.run step initial events).phase=.returned) :
    (EventRuns.run step initial events).popped=
        (EventRuns.run step initial events).tasks.map ScanTask.domain ∧
      ∀ t∈(EventRuns.run step initial events).tasks, t.outcome.isSome=true := by
  obtain ⟨hdomains,hcovered⟩ := tracked_run events
  refine ⟨hdomains,fun t ht => ?_⟩
  rw [h] at hcovered
  obtain ⟨i,hi⟩ := List.mem_iff_getElem?.mp ht
  rw [Option.isSome_iff_ne_none]
  exact fun hrunning => hcovered i ⟨t,hi,hrunning⟩

/-- A task outlives the set object it was added to, its callback discards from
the old one, and a domain is still popped after the stop. -/
def reboundRun : List Event :=
  [.begin,.pop "a.tk".toList,.timeout,.finish 0 .returned,.callback 0,.stop,
    .pop "b.tk".toList,.finish 1 .raised,.gathered]

/-- The run over two set objects drains. -/
theorem run_drains_rebound :
    (EventRuns.run step initial reboundRun).popped=
        (EventRuns.run step initial reboundRun).tasks.map ScanTask.domain ∧
      ∀ t∈(EventRuns.run step initial reboundRun).tasks, t.outcome.isSome=true :=
  run_drains reboundRun (by decide)

end ScamLens.ScanDrains
