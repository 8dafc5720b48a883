import Mathlib.Data.List.Induction

/-!
# Runs of a total event system

A system is a total step function: nondeterminism of the environment is data
of the event. Runs apply a list of events from left to right. Conditions on a
run are checked step by step, in the state before each event, so one step
lemma yields the corresponding lemma about whole runs.
-/

namespace ScamLens.EventRuns

variable {σ ε : Type*} {step : σ → ε → σ}

/-- The state reached by applying the listed events in order. -/
def run (step : σ → ε → σ) (s : σ) (events : List ε) : σ := events.foldl step s

@[simp] theorem run_nil (s : σ) : run step s []=s := rfl

@[simp] theorem run_cons (s : σ) (e : ε) (events : List ε) :
    run step s (e::events)=run step (step s e) events := rfl

/-- A run over a concatenation continues from the first part's final state. -/
theorem run_append (s : σ) (first second : List ε) :
    run step s (first++second)=run step (run step s first) second :=
  List.foldl_append

/-- An event that changes nothing may be repeated. -/
theorem run_replicate_of_fixed {s : σ} {e : ε} (h : step s e=s) (n : ℕ) :
    run step s (List.replicate n e)=s := by
  induction n with
  | zero => rfl
  | succ n ih => rw [List.replicate_succ,run_cons,h,ih]

/-- Every event of the run satisfies the condition in the state before it. -/
def Along (step : σ → ε → σ) (Ok : σ → ε → Prop) : σ → List ε → Prop
  | _,[] => True
  | s,e::events => Ok s e ∧ Along step Ok (step s e) events

@[simp] theorem along_nil {Ok : σ → ε → Prop} (s : σ) : Along step Ok s [] := trivial

@[simp] theorem along_cons {Ok : σ → ε → Prop} (s : σ) (e : ε) (events : List ε) :
    Along step Ok s (e::events) ↔ Ok s e ∧ Along step Ok (step s e) events := Iff.rfl

instance Along.decidable {Ok : σ → ε → Prop} [∀ s e, Decidable (Ok s e)] :
    ∀ (s : σ) (events : List ε), Decidable (Along step Ok s events)
  | _,[] => isTrue trivial
  | s,e::events => @instDecidableAnd (Ok s e) _ _ (Along.decidable (step s e) events)

/-- A conditioned run splits at any point, the second part being conditioned
from the state that the first part reaches. -/
theorem along_append {Ok : σ → ε → Prop} (s : σ) (first second : List ε) :
    Along step Ok s (first++second) ↔
      Along step Ok s first ∧ Along step Ok (run step s first) second := by
  induction first generalizing s with
  | nil => simp only [List.nil_append,along_nil,true_and,run_nil]
  | cons e first ih => simp only [List.cons_append,along_cons,run_cons,ih,and_assoc]

/-- A condition on events alone holds along a run as soon as it holds of
every listed event. -/
theorem along_of_forall {Ok : ε → Prop} {events : List ε} (h : ∀ e∈events, Ok e) (s : σ) :
    Along step (fun _ e => Ok e) s events := by
  induction events generalizing s with
  | nil => exact trivial
  | cons e events ih =>
    exact ⟨h e List.mem_cons_self,ih (fun e' he => h e' (List.mem_cons_of_mem _ he)) _⟩

/-- A condition on events alone holds along a run exactly when every event of
the run satisfies it. -/
theorem along_iff_forall {Ok : ε → Prop} {events : List ε} (s : σ) :
    Along step (fun _ e => Ok e) s events ↔ ∀ e∈events, Ok e := by
  induction events generalizing s with
  | nil => exact iff_of_true trivial (List.forall_mem_nil Ok)
  | cons e events ih => rw [along_cons,List.forall_mem_cons,ih]

/-- A weaker condition holds along the same runs. -/
theorem Along.imp {First Second : σ → ε → Prop} (h : ∀ s e, First s e → Second s e) {s : σ}
    {events : List ε} (hf : Along step First s events) : Along step Second s events := by
  induction events generalizing s with
  | nil => exact trivial
  | cons e events ih => exact ⟨h s e hf.1,ih hf.2⟩

/-- Two conditions on a run are one. -/
theorem Along.and {First Second : σ → ε → Prop} {s : σ} {events : List ε}
    (hf : Along step First s events) (hs : Along step Second s events) :
    Along step (fun s e => First s e ∧ Second s e) s events := by
  induction events generalizing s with
  | nil => exact trivial
  | cons e events ih => exact ⟨⟨hf.1,hs.1⟩,ih hf.2 hs.2⟩

/-- Two conditions that agree wherever an invariant holds, which the first one
keeps, are conditions on the same runs. -/
theorem along_congr (Ok : ε → Prop) (Inv : σ → Prop) {First Second : σ → ε → Prop}
    (hiff : ∀ s e, Inv s → Ok e → (First s e ↔ Second s e))
    (hinv : ∀ s e, Inv s → Ok e → First s e → Inv (step s e))
    {s : σ} {events : List ε} (hs : Inv s) (h : ∀ e∈events, Ok e) :
    Along step First s events ↔ Along step Second s events := by
  induction events generalizing s with
  | nil => exact Iff.rfl
  | cons e events ih =>
    have he := h e List.mem_cons_self
    have hrest := fun e' he' => h e' (List.mem_cons_of_mem _ he')
    rw [along_cons,along_cons,←hiff s e hs he]
    exact and_congr_right fun hfirst => ih (hinv s e hs he hfirst) hrest

/-- The invariant rule: what one conditioned step preserves, a conditioned
run of any length preserves. -/
theorem Along.invariant {Ok : σ → ε → Prop} {Inv : σ → Prop}
    (hstep : ∀ s e, Inv s → Ok s e → Inv (step s e))
    {s : σ} {events : List ε} (h : Along step Ok s events) (hs : Inv s) :
    Inv (run step s events) := by
  induction events generalizing s with
  | nil => exact hs
  | cons e events ih => exact ih h.2 (hstep s e hs h.1)

/-- The invariant rule for conditions on the events alone. -/
theorem run_invariant {Ok : ε → Prop} (Inv : σ → Prop)
    (hstep : ∀ s e, Inv s → Ok e → Inv (step s e)) {s : σ} {events : List ε} (hs : Inv s)
    (h : ∀ e∈events, Ok e) : Inv (run step s events) :=
  (along_of_forall h s).invariant hstep hs

/-- A property that steps make or keep holds at the end of a run exactly when
some event has made it and every later event has kept it. -/
theorem Along.holds_iff {Ok Keep Make : σ → ε → Prop} {P : σ → Prop}
    (hstep : ∀ s e, Ok s e → (P (step s e) ↔ (P s ∧ Keep s e) ∨ Make s e))
    {s : σ} {events : List ε} (h : Along step Ok s events) (hs : ¬P s) :
    P (run step s events) ↔ ∃ first e second, events=first++e::second ∧
      Make (run step s first) e ∧ Along step Keep (step (run step s first) e) second := by
  induction events using List.reverseRecOn with
  | nil =>
    refine ⟨fun hp => absurd hp hs,fun hsplit => ?_⟩
    obtain ⟨first,e,second,hnil,-⟩ := hsplit
    exact absurd hnil.symm (List.append_ne_nil_of_right_ne_nil first (List.cons_ne_nil e second))
  | append_singleton events last ih =>
    obtain ⟨hevents,hlast,-⟩ := (along_append s events [last]).mp h
    rw [run_append,run_cons,run_nil,hstep _ _ hlast,ih hevents]
    constructor
    · intro hp
      rcases hp with ⟨⟨first,e,second,rfl,hmake,hkeep⟩,hkept⟩|hmake
      · refine ⟨first,e,second++[last],?_,hmake,?_⟩
        · rw [List.append_assoc,List.cons_append]
        · rw [along_append]
          rw [run_append,run_cons] at hkept
          exact ⟨hkeep,hkept,trivial⟩
      · exact ⟨events,last,[],rfl,hmake,trivial⟩
    · intro hsplit
      obtain ⟨first,e,second,hevents,hmake,hkeep⟩ := hsplit
      rcases List.eq_nil_or_concat second with rfl|⟨second,other,rfl⟩
      · obtain ⟨rfl,he⟩ := List.append_inj' hevents rfl
        rw [List.cons.inj he |>.1]
        exact Or.inr hmake
      · rw [List.concat_eq_append] at hevents hkeep
        rw [←List.cons_append,←List.append_assoc] at hevents
        obtain ⟨rfl,he⟩ := List.append_inj' hevents rfl
        rw [along_append] at hkeep
        rw [List.cons.inj he |>.1]
        refine Or.inl ⟨⟨first,e,second,rfl,hmake,hkeep.1⟩,?_⟩
        rw [run_append,run_cons]
        exact hkeep.2.1

section Logs

variable {α : Type*} {log : σ → List α} {add : σ → ε → Option α}

/-- What stands in a list with another element behind it. -/
theorem getElem?_append_singleton {α : Type*} {l : List α} {x y : α} {i : ℕ} :
    (l++[x])[i]?=some y ↔ l[i]?=some y ∨ (i=l.length ∧ y=x) := by
  rcases Nat.lt_trichotomy i l.length with hi|rfl|hi
  · rw [List.getElem?_append_left hi]
    exact ⟨Or.inl,fun h => h.resolve_right fun hlast => Nat.ne_of_lt hi hlast.1⟩
  · rw [List.getElem?_concat_length,List.getElem?_eq_none (Nat.le_refl _)]
    simp [eq_comm]
  · rw [List.getElem?_eq_none (by simp; omega),List.getElem?_eq_none (Nat.le_of_lt hi)]
    simp [Nat.ne_of_gt hi]

/-- The entry with a number in a log to which every step adds one entry at most
is what some event has added when the log had that length. -/
theorem getElem?_log_run (hstep : ∀ s e, log (step s e)=log s++(add s e).toList)
    {s : σ} (hs : log s=[]) (events : List ε) {i : ℕ} {x : α} :
    (log (run step s events))[i]?=some x ↔ ∃ first e second, events=first++e::second ∧
      add (run step s first) e=some x ∧ (log (run step s first)).length=i := by
  have hone (s : σ) (e : ε) : (log (step s e))[i]?=some x ↔
      ((log s)[i]?=some x ∧ True) ∨ (add s e=some x ∧ (log s).length=i) := by
    rw [hstep,and_true]
    cases add s e with
    | none => simp
    | some y =>
      rw [Option.toList_some,getElem?_append_singleton]
      exact or_congr_right ⟨fun h => ⟨h.2 ▸ rfl,h.1.symm⟩,
        fun h => ⟨h.2.symm,(Option.some.inj h.1).symm⟩⟩
  have hnone : ¬(log s)[i]?=some x := by
    rw [hs]
    simp
  have hall : Along step (fun _ _ => True) s events := along_of_forall (fun _ _ => trivial) s
  rw [hall.holds_iff (P := fun s => (log s)[i]?=some x) (fun s e _ => hone s e) hnone]
  refine exists_congr fun first => exists_congr fun e => exists_congr fun second => ?_
  rw [and_iff_left (along_of_forall (fun _ _ => trivial) _)]

end Logs

section Outputs

variable {ω β : Type*} {output : σ → ε → Option ω}

/-- The last output of a run, each event giving at most one in the state
before it. -/
def lastOutput (step : σ → ε → σ) (output : σ → ε → Option ω) : σ → List ε → Option ω
  | _,[] => none
  | s,e::events => (lastOutput step output (step s e) events).or (output s e)

/-- What every output overwrites, and nothing else touches, is at the end of a
run what the last output has written. -/
theorem read_run {read : σ → Option β} {write : ω → β}
    (hstep : ∀ s e, read (step s e)=((output s e).map write).or (read s))
    (s : σ) (events : List ε) :
    read (run step s events)=((lastOutput step output s events).map write).or (read s) := by
  induction events generalizing s with
  | nil => rfl
  | cons e events ih =>
    rw [run_cons,ih,hstep,lastOutput]
    cases lastOutput step output (step s e) events <;> rfl

/-- A property that only outputs bring about shows that there was an output. -/
theorem lastOutput_isSome (P : σ → Prop)
    (hstep : ∀ s e, P (step s e) → P s ∨ (output s e).isSome=true)
    {s : σ} {events : List ε} (hs : ¬P s) (h : P (run step s events)) :
    (lastOutput step output s events).isSome=true := by
  induction events generalizing s with
  | nil => exact absurd h hs
  | cons e events ih =>
    rw [lastOutput,Option.isSome_or,Bool.or_eq_true]
    by_cases he : P (step s e)
    · exact Or.inr ((hstep s e he).resolve_left hs)
    · exact Or.inl (ih he h)

end Outputs

end ScamLens.EventRuns
