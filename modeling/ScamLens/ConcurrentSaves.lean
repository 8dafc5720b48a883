import ScamLens.EventRuns
import ScamLens.VerdictStore

/-!
# Saves that run at the same time

The queue worker and the control endpoint may save verdicts of one domain at
the same time. A save writes Redis first and the verdict row next, and nothing
orders the writes of two saves: each store keeps what was written to it last,
whichever save that was.
-/

namespace ScamLens.ConcurrentSaves

open EventRuns PythonText Resolver ScanVerdicts Tables VerdictCache VerdictStore

/-- The next command of a save. -/
inductive SavePhase where
  | setCache
  | upsertRow
  | promote
  | finished
  deriving DecidableEq

/-- Number of commands that lie behind. -/
def SavePhase.rank : SavePhase → ℕ
  | .setCache => 0
  | .upsertRow => 1
  | .promote => 2
  | .finished => 3

/-- The number of commands tells the phase. -/
theorem rank_phase_injective {a b : SavePhase} (h : a.rank=b.rank) : a=b := by
  cases a <;> cases b <;> first | rfl | cases h

/-- A severity is told by its verdict string. -/
theorem kind_injective {a b : ScanClass} (h : a.kind=b.kind) : a=b := by
  cases a <;> cases b <;> first | rfl | cases h

/-- A call of `VerdictStore.save`. -/
structure SaveCall where
  /-- Verdict to be saved. -/
  verdict : ScanVerdict
  /-- Its next command. -/
  phase : SavePhase

/-- The stores and the calls that were made. -/
structure Saves where
  /-- The current second. -/
  now : ℕ
  /-- Redis and Postgres. -/
  stores : Stores
  /-- The calls for the domain, in the order in which they were made. -/
  calls : List SaveCall

/-- A call is made, a call goes on, or time passes. -/
inductive Event where
  | tick (seconds : ℕ)
  | call (verdict : ScanVerdict)
  | command (i : ℕ)

section Steps

variable (cfg : Config) (domain : Text)

/-- The next command of a call; both stores carry it out. -/
def perform (now : ℕ) (stores : Stores) (c : SaveCall) : Stores :=
  match c.phase with
  | .setCache => {stores with redis := saveCache cfg now domain stores.redis c.verdict}
  | .upsertRow => {stores with db := stores.db.upsertVerdict domain c.verdict}
  | .promote => {stores with db := savePromote domain stores.db c.verdict}
  | .finished => stores

/-- A call behind its next command. -/
def advance (c : SaveCall) : SaveCall :=
  match c.phase with
  | .setCache => {c with phase := .upsertRow}
  | .upsertRow => {c with phase := .promote}
  | .promote => {c with phase := .finished}
  | .finished => c

/-- One step. -/
def step (s : Saves) : Event → Saves
  | .tick seconds => {s with now := s.now+seconds}
  | .call verdict => {s with calls := s.calls++[⟨verdict,.setCache⟩]}
  | .command i =>
    match s.calls[i]? with
    | none => s
    | some c =>
      { s with
        stores := perform cfg domain s.now s.stores c
        calls := s.calls.set i (advance c) }

/-- The verdict an event writes, as the command of the given phase. -/
def writtenBy (phase : SavePhase) (s : Saves) : Event → Option ScanVerdict
  | .command i => (s.calls[i]?).bind fun c => if c.phase=phase then some c.verdict else none
  | _ => none

/-- The verdict string in Redis, until it expires. -/
def cachedVerdict (s : Saves) : Option VerdictKind :=
  (s.stores.redis.verdicts.lookup domain).bind (·.value.verdict)

/-- The verdict string in the verdict row. -/
def rowVerdict (s : Saves) : Option VerdictKind :=
  (s.stores.db.domainVerdicts.lookup domain).map (·.verdict.kind)

/-- A command of a call that is not there does nothing; any other command
moves its call on. -/
theorem step_command (s : Saves) (i : ℕ) :
    (s.calls[i]?=none ∧ step cfg domain s (.command i)=s) ∨
    ∃ c, s.calls[i]?=some c ∧ step cfg domain s (.command i)=
      { s with
        stores := perform cfg domain s.now s.stores c
        calls := s.calls.set i (advance c) } := by
  cases hc : s.calls[i]? with
  | none =>
    rw [step,hc]
    exact Or.inl ⟨rfl,rfl⟩
  | some c =>
    rw [step,hc]
    exact Or.inr ⟨c,rfl,rfl⟩

/-- A command writes the verdict of its call. -/
theorem writtenBy_command {s : Saves} {i : ℕ} {c : SaveCall} (h : s.calls[i]?=some c)
    (phase : SavePhase) :
    writtenBy phase s (.command i)=if c.phase=phase then some c.verdict else none := by
  rw [writtenBy,h,Option.bind_some]

/-- What a step leaves in Redis. -/
theorem cachedVerdict_perform (now : ℕ) (stores : Stores) (c : SaveCall) :
    (perform cfg domain now stores c).redis.verdicts.lookup domain=
      if c.phase=.setCache then some ⟨savedPayload c.verdict,now+pickTtl cfg c.verdict.verdict⟩
      else stores.redis.verdicts.lookup domain := by
  rw [perform]
  split <;> rename_i hp <;> rw [hp]
  · rw [if_pos rfl,lookup_saveCache,if_pos rfl]
  · rfl
  · rfl
  · rfl

/-- What a step leaves in the verdict row. -/
theorem rowVerdict_perform (now : ℕ) (stores : Stores) (c : SaveCall) :
    ((perform cfg domain now stores c).db.domainVerdicts.lookup domain).map (·.verdict)=
      if c.phase=.upsertRow then some c.verdict.verdict
      else (stores.db.domainVerdicts.lookup domain).map (·.verdict) := by
  rw [perform]
  split <;> rename_i hp <;> rw [hp]
  · rfl
  · rw [if_pos rfl,Database.upsertVerdict]
    dsimp only
    rw [Finmap.lookup_insert,Option.map_some]
  · rw [savePromote]
    split <;> rfl
  · rfl

/-- Only the first command of a save writes the cached verdict. -/
theorem cachedVerdict_step (s : Saves) (e : Event) :
    cachedVerdict domain (step cfg domain s e)=
      ((writtenBy .setCache s e).map (·.verdict.kind)).or (cachedVerdict domain s) := by
  cases e with
  | command i =>
    rcases step_command cfg domain s i with ⟨hc,hs⟩|⟨c,hc,hs⟩
    · rw [hs,writtenBy,hc]
      rfl
    · rw [hs,writtenBy_command hc,cachedVerdict]
      dsimp only
      rw [cachedVerdict_perform]
      split <;> rfl
  | _ => rfl

/-- Only the second command of a save writes the verdict row. -/
theorem rowVerdict_step (s : Saves) (e : Event) :
    rowVerdict domain (step cfg domain s e)=
      ((writtenBy .upsertRow s e).map (·.verdict.kind)).or (rowVerdict domain s) := by
  cases e with
  | command i =>
    rcases step_command cfg domain s i with ⟨hc,hs⟩|⟨c,hc,hs⟩
    · rw [hs,writtenBy,hc]
      rfl
    · have hrow := congrArg (Option.map ScanClass.kind)
        (rowVerdict_perform cfg domain s.now s.stores c)
      rw [Option.map_map] at hrow
      rw [hs,writtenBy_command hc,rowVerdict]
      refine hrow.trans ?_
      split
      · rfl
      · rw [Option.map_map]
        rfl
  | _ => rfl

/-- The call is behind the command of the given phase. -/
def Behind (phase : SavePhase) (c : SaveCall) : Prop := phase.rank < c.phase.rank

/-- A command moves a call on by one. -/
theorem rank_advance (c : SaveCall) : (advance c).phase.rank ≤ c.phase.rank+1 := by
  rw [advance]
  split <;> rename_i hp <;> rw [hp]
  · exact Nat.le_refl 1
  · exact Nat.le_refl 2
  · exact Nat.le_refl 3
  · exact Nat.le_succ 3

/-- A call comes behind a command by running it. -/
theorem behind_step {phase : SavePhase} (s : Saves) (e : Event)
    (h : ∃ c∈(step cfg domain s e).calls, Behind phase c) :
    (∃ c∈s.calls, Behind phase c) ∨ (writtenBy phase s e).isSome=true := by
  obtain ⟨c,hc,hb⟩ := h
  cases e with
  | tick seconds => exact Or.inl ⟨c,hc,hb⟩
  | call verdict =>
    rcases List.mem_append.mp hc with hc|hc
    · exact Or.inl ⟨c,hc,hb⟩
    · rw [List.mem_singleton.mp hc] at hb
      exact absurd hb (Nat.not_lt_zero _)
  | command i =>
    rcases step_command cfg domain s i with ⟨-,hs⟩|⟨old,hold,hs⟩
    · rw [hs] at hc
      exact Or.inl ⟨c,hc,hb⟩
    · rw [hs] at hc
      rcases List.mem_or_eq_of_mem_set hc with hc|rfl
      · exact Or.inl ⟨c,hc,hb⟩
      · rw [writtenBy_command hold]
        split
        · exact Or.inr rfl
        · rename_i hother
          have hle := rank_advance old
          have hne : old.phase.rank≠phase.rank := fun he => hother (rank_phase_injective he)
          rw [Behind] at hb
          exact Or.inl ⟨old,List.mem_of_getElem? hold,by rw [Behind]; omega⟩

/-- Among finished calls some call has run each of its commands. -/
theorem lastOutput_of_finished {now : ℕ} {stores : Stores} {events : List Event}
    (hcalls : (run (step cfg domain) ⟨now,stores,[]⟩ events).calls≠[])
    (hfinished : ∀ c∈(run (step cfg domain) ⟨now,stores,[]⟩ events).calls, c.phase=.finished)
    {phase : SavePhase} (hphase : phase≠.finished) :
    ∃ verdict, lastOutput (step cfg domain) (writtenBy phase) ⟨now,stores,[]⟩ events=
      some verdict := by
  refine Option.isSome_iff_exists.mp (lastOutput_isSome
    (fun s => ∃ c∈s.calls, Behind phase c) (behind_step cfg domain) ?_ ?_)
  · intro h
    obtain ⟨c,hc,-⟩ := h
    exact absurd hc List.not_mem_nil
  · obtain ⟨c,hc⟩ := List.exists_mem_of_ne_nil _ hcalls
    refine ⟨c,hc,?_⟩
    rw [Behind,hfinished c hc]
    cases phase <;> first | exact absurd rfl hphase | decide

/-- Once every call has finished, the cached verdict is that of the save whose
first command ran last, and the row that of the save whose second command ran
last; so they are equal exactly when these two saves have the same severity,
as they do when one save was the last to write both stores. -/
theorem saves_agree_iff (now : ℕ) (stores : Stores) (events : List Event)
    (hcalls : (run (step cfg domain) ⟨now,stores,[]⟩ events).calls≠[])
    (hfinished : ∀ c∈(run (step cfg domain) ⟨now,stores,[]⟩ events).calls,
      c.phase=.finished) :
    ∃ first second,
      lastOutput (step cfg domain) (writtenBy .setCache) ⟨now,stores,[]⟩ events=some first ∧
      lastOutput (step cfg domain) (writtenBy .upsertRow) ⟨now,stores,[]⟩ events=some second ∧
      cachedVerdict domain (run (step cfg domain) ⟨now,stores,[]⟩ events)=
        some first.verdict.kind ∧
      rowVerdict domain (run (step cfg domain) ⟨now,stores,[]⟩ events)=
        some second.verdict.kind ∧
      (cachedVerdict domain (run (step cfg domain) ⟨now,stores,[]⟩ events)=
        rowVerdict domain (run (step cfg domain) ⟨now,stores,[]⟩ events) ↔
          first.verdict=second.verdict) := by
  obtain ⟨first,hfirst⟩ := lastOutput_of_finished cfg domain hcalls hfinished
    (show SavePhase.setCache≠.finished by decide)
  obtain ⟨second,hsecond⟩ := lastOutput_of_finished cfg domain hcalls hfinished
    (show SavePhase.upsertRow≠.finished by decide)
  have hcached := read_run (cachedVerdict_step cfg domain) ⟨now,stores,[]⟩ events
  have hrow := read_run (rowVerdict_step cfg domain) ⟨now,stores,[]⟩ events
  rw [hfirst,Option.map_some,Option.some_or] at hcached
  rw [hsecond,Option.map_some,Option.some_or] at hrow
  refine ⟨first,second,hfirst,hsecond,hcached,hrow,?_⟩
  rw [hcached,hrow,Option.some.injEq]
  exact ⟨fun h => kind_injective h,fun h => congrArg _ h⟩

end Steps

/-- A safe verdict. -/
def safeVerdict : ScanVerdict := {scamVerdict with verdict := .safe, riskScore := 5}

/-- A save that runs in the middle of another one. -/
def nestedSaves : List Event :=
  [.call scamVerdict,.call safeVerdict,.command 0,.command 1,.command 1,.command 1,.command 0,
    .command 0]

/-- The domain that is saved. -/
def badTk : Text := "bad.tk".toList

/-- After two nested saves Redis has the verdict of one, the row that of the other. -/
theorem nestedSaves_disagree :
    (∀ c∈(run (step defaultConfig badTk) ⟨0,⟨Redis.init,Database.init⟩,[]⟩ nestedSaves).calls,
      c.phase=.finished) ∧
    ¬cachedVerdict badTk (run (step defaultConfig badTk) ⟨0,⟨Redis.init,Database.init⟩,[]⟩
        nestedSaves)=
      rowVerdict badTk (run (step defaultConfig badTk) ⟨0,⟨Redis.init,Database.init⟩,[]⟩
        nestedSaves) := by
  decide +kernel

theorem nestedSaves_last : ∃ first second,
    lastOutput (step defaultConfig badTk) (writtenBy .setCache)
      ⟨0,⟨Redis.init,Database.init⟩,[]⟩ nestedSaves=some first ∧
    lastOutput (step defaultConfig badTk) (writtenBy .upsertRow)
      ⟨0,⟨Redis.init,Database.init⟩,[]⟩ nestedSaves=some second ∧
    cachedVerdict badTk (run (step defaultConfig badTk) ⟨0,⟨Redis.init,Database.init⟩,[]⟩
      nestedSaves)=some first.verdict.kind ∧
    rowVerdict badTk (run (step defaultConfig badTk) ⟨0,⟨Redis.init,Database.init⟩,[]⟩
      nestedSaves)=some second.verdict.kind ∧
    (cachedVerdict badTk (run (step defaultConfig badTk) ⟨0,⟨Redis.init,Database.init⟩,[]⟩
        nestedSaves)=
      rowVerdict badTk (run (step defaultConfig badTk) ⟨0,⟨Redis.init,Database.init⟩,[]⟩
        nestedSaves) ↔ first.verdict=second.verdict) :=
  saves_agree_iff defaultConfig badTk 0 ⟨Redis.init,Database.init⟩ nestedSaves
    (by decide +kernel) (by decide +kernel)

end ScamLens.ConcurrentSaves
