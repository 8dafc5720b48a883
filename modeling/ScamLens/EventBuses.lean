import ScamLens.BoundedQueues
import ScamLens.EventRuns
import ScamLens.GuardianLinks
import ScamLens.KeyedTables

/-!
# The event bus

Clients that listen for the events of a user each have a queue of their own.
The bus keeps the sets of queues by user, puts an event into every queue of
the users it goes to, and forgets a user with the last queue. Queues are
objects: a number tells them apart, and their contents outlive their
subscription.
-/

namespace ScamLens.EventBuses

open BoundedQueues EventRuns KeyedTables

variable {α : Type*}

/-- The bus, the queue objects, and what their readers have got. -/
structure Bus (α : Type*) where
  /-- `_listeners` -/
  listeners : Table ℕ (Finset ℕ)
  /-- Contents of the queues. -/
  queue : ℕ → List α
  /-- The next queue object. -/
  nextQueue : ℕ
  /-- What has been read from each queue. -/
  received : ℕ → List α

/-- `maxsize` of a queue. -/
def maxsize : ℕ := 64

namespace Bus

/-- A new bus. -/
def init : Bus α := ⟨∅,fun _ => [],0,fun _ => []⟩

variable (bus : Bus α)

/-- `_listeners.get(user_id, set())` -/
def listenersOf (userId : ℕ) : Finset ℕ := (bus.listeners.lookup userId).getD ∅

/-- `EventBus.subscribe`, whose result is the queue that was next. -/
def subscribe (userId : ℕ) : Bus α where
  listeners := bus.listeners.insert userId (insert bus.nextQueue (bus.listenersOf userId))
  queue := Function.update bus.queue bus.nextQueue []
  nextQueue := bus.nextQueue+1
  received := Function.update bus.received bus.nextQueue []

/-- `EventBus.unsubscribe` -/
def unsubscribe (userId q : ℕ) : Bus α :=
  let rest := (bus.listenersOf userId).erase q
  {bus with listeners :=
    if rest=∅ then bus.listeners.erase userId else bus.listeners.insert userId rest}

/-- The inner loop of `fanout`: the queues of a set share nothing, so their
order does not matter. -/
def deliver (event : α) (userId : ℕ) : Bus α :=
  {bus with queue := fun q =>
    if q∈bus.listenersOf userId then put maxsize event (bus.queue q) else bus.queue q}

/-- `EventBus.fanout` -/
def fanout (userIds : List ℕ) (event : α) : Bus α :=
  userIds.foldl (fun bus userId => bus.deliver event userId) bus

/-- `q.get()` of the stream, when there is an event. -/
def read (q : ℕ) : Bus α :=
  match bus.queue q with
  | [] => bus
  | event::rest => {bus with
      queue := Function.update bus.queue q rest
      received := Function.update bus.received q (bus.received q++[event])}

end Bus

/-- The operations on the bus. -/
inductive BusEvent (α : Type*) where
  | subscribe (userId : ℕ)
  | unsubscribe (userId q : ℕ)
  | fanout (userIds : List ℕ) (event : α)
  | read (q : ℕ)

/-- One operation. -/
def busStep (bus : Bus α) : BusEvent α → Bus α
  | .subscribe userId => bus.subscribe userId
  | .unsubscribe userId q => bus.unsubscribe userId q
  | .fanout userIds event => bus.fanout userIds event
  | .read q => bus.read q

/-- A fan-out goes to distinct users. -/
def DistinctIds : BusEvent α → Prop
  | .fanout userIds _ => userIds.Nodup
  | _ => True

/-- The event that an operation fans out to a user. -/
def fansOut (userId : ℕ) : BusEvent α → Option α
  | .fanout userIds event => if userIds.contains userId then some event else none
  | _ => none

/-- The events fanned out to a user along a run. -/
def fannedOut (userId : ℕ) (events : List (BusEvent α)) : List α :=
  events.filterMap (fansOut userId)

/-- The queue that a subscription after a run gets. -/
def nextQueueAfter (events : List (BusEvent α)) : ℕ := (run busStep Bus.init events).nextQueue

/-- What every reachable bus keeps. -/
structure Sound (bus : Bus α) : Prop where
  /-- Subscribed queues are old. -/
  fresh : ∀ userId, ∀ q∈bus.listenersOf userId, q<bus.nextQueue
  /-- A queue listens for one user. -/
  apart : ∀ userId other q, q∈bus.listenersOf userId → q∈bus.listenersOf other → userId=other
  /-- No user is left with an empty set. -/
  nonempty : ∀ userId queues, bus.listeners.lookup userId=some queues → queues≠∅
  /-- Queues keep to their size. -/
  bound : ∀ q, (bus.queue q).length ≤ maxsize

section Operations

variable {bus : Bus α} {userId u q : ℕ} {userIds : List ℕ} {event : α}

/-- A subscription adds its queue to the set of its user. -/
theorem mem_listenersOf_subscribe :
    q∈(bus.subscribe userId).listenersOf u ↔
      q∈bus.listenersOf u ∨ (u=userId ∧ q=bus.nextQueue) := by
  rw [Bus.listenersOf,Bus.subscribe,lookup_insert_ite]
  by_cases hu : u=userId
  · rw [if_pos hu,Option.getD_some,Finset.mem_insert,hu,or_comm,eq_self,true_and]
  · rw [if_neg hu,Bus.listenersOf]
    exact ⟨.inl,fun h => h.resolve_right fun hnew => hu hnew.1⟩

/-- The end of a subscription takes its queue out of the set of its user. -/
theorem mem_listenersOf_unsubscribe {other : ℕ} :
    other∈(bus.unsubscribe userId q).listenersOf u ↔
      other∈bus.listenersOf u ∧ ¬(u=userId ∧ other=q) := by
  have hafter : (bus.unsubscribe userId q).listenersOf u=
      if u=userId then (bus.listenersOf userId).erase q else bus.listenersOf u := by
    rw [Bus.listenersOf,Bus.unsubscribe]
    dsimp only
    split
    · rename_i hrest
      rw [lookup_erase_ite,hrest]
      split <;> rfl
    · rw [lookup_insert_ite]
      split <;> rfl
  rw [hafter]
  by_cases hu : u=userId
  · rw [if_pos hu,Finset.mem_erase,hu,eq_self,true_and,and_comm]
  · rw [if_neg hu]
    exact ⟨fun h => ⟨h,fun hgone => hu hgone.1⟩,And.left⟩

/-- A fan-out changes the contents of queues only. -/
theorem fanout_frame :
    (bus.fanout userIds event).listeners=bus.listeners ∧
      (bus.fanout userIds event).nextQueue=bus.nextQueue ∧
      (bus.fanout userIds event).received=bus.received := by
  induction userIds generalizing bus with
  | nil => exact ⟨rfl,rfl,rfl⟩
  | cons userId userIds ih => exact ih

theorem listenersOf_fanout : (bus.fanout userIds event).listenersOf u=bus.listenersOf u := by
  rw [Bus.listenersOf,fanout_frame.1,Bus.listenersOf]

/-- A queue that no user of the fan-out has gets nothing. -/
theorem queue_fanout_of_notMem (h : ∀ userId∈userIds, q∉bus.listenersOf userId) :
    (bus.fanout userIds event).queue q=bus.queue q := by
  induction userIds generalizing bus with
  | nil => rfl
  | cons userId userIds ih =>
    have hfirst : (bus.deliver event userId).queue q=bus.queue q :=
      if_neg (h userId List.mem_cons_self)
    have hrest : ((bus.deliver event userId).fanout userIds event).queue q=
        (bus.deliver event userId).queue q :=
      ih fun other hother => h other (List.mem_cons_of_mem _ hother)
    exact hrest.trans hfirst

/-- A queue of a user gets the event once, if it goes to the user. -/
theorem queue_fanout (hapart : ∀ other, q∈bus.listenersOf other → u=other)
    (hd : userIds.Nodup) (hq : q∈bus.listenersOf u) :
    (bus.fanout userIds event).queue q=
      if u∈userIds then put maxsize event (bus.queue q) else bus.queue q := by
  induction userIds generalizing bus with
  | nil => exact (if_neg List.not_mem_nil).symm
  | cons userId userIds ih =>
    obtain ⟨hnew,hd⟩ := List.nodup_cons.mp hd
    by_cases hu : u=userId
    · subst hu
      have hfirst : (bus.deliver event u).queue q=put maxsize event (bus.queue q) := if_pos hq
      have hrest : ((bus.deliver event u).fanout userIds event).queue q=
          (bus.deliver event u).queue q :=
        queue_fanout_of_notMem fun other hother hin => hnew (hapart other hin ▸ hother)
      rw [if_pos List.mem_cons_self]
      exact hrest.trans hfirst
    · have hfirst : (bus.deliver event userId).queue q=bus.queue q :=
        if_neg fun hin => hu (hapart userId hin)
      have hrest : ((bus.deliver event userId).fanout userIds event).queue q=
          if u∈userIds then put maxsize event ((bus.deliver event userId).queue q)
          else (bus.deliver event userId).queue q :=
        ih hapart hd hq
      rw [hfirst] at hrest
      simp only [List.mem_cons,hu,false_or]
      exact hrest

/-- No queue outgrows its size in a fan-out. -/
theorem bound_fanout (h : ∀ q, (bus.queue q).length ≤ maxsize) (q : ℕ) :
    ((bus.fanout userIds event).queue q).length ≤ maxsize := by
  induction userIds generalizing bus with
  | nil => exact h q
  | cons userId userIds ih =>
    refine ih fun q => ?_
    change (if q∈bus.listenersOf userId then put maxsize event (bus.queue q)
      else bus.queue q).length ≤ maxsize
    split
    · rw [length_put (by decide) (h q)]
      exact Nat.min_le_left _ _
    · exact h q

/-- Reading changes one queue and what has been read from it. -/
theorem read_cases (bus : Bus α) (q : ℕ) :
    (bus.queue q=[] ∧ bus.read q=bus) ∨ ∃ event rest, bus.queue q=event::rest ∧
      bus.read q={bus with
        queue := Function.update bus.queue q rest
        received := Function.update bus.received q (bus.received q++[event])} := by
  rw [Bus.read]
  cases hq : bus.queue q with
  | nil => exact .inl ⟨rfl,rfl⟩
  | cons event rest => exact .inr ⟨event,rest,rfl,rfl⟩

/-- Reading leaves the subscriptions alone. -/
theorem read_frame :
    (bus.read q).listeners=bus.listeners ∧ (bus.read q).nextQueue=bus.nextQueue := by
  rcases read_cases bus q with ⟨-,hread⟩|⟨event,rest,-,hread⟩ <;> rw [hread] <;> exact ⟨rfl,rfl⟩

theorem listenersOf_read : (bus.read q).listenersOf u=bus.listenersOf u := by
  rw [Bus.listenersOf,read_frame.1,Bus.listenersOf]

/-- A new bus is sound. -/
theorem sound_init : Sound (Bus.init : Bus α) where
  fresh := fun _ _ hq => absurd hq (Finset.notMem_empty _)
  apart := fun _ _ _ hq => absurd hq (Finset.notMem_empty _)
  nonempty := fun _ _ h => by cases h
  bound := fun _ => Nat.zero_le _

/-- A subscription keeps the bus sound. -/
theorem Sound.subscribe (h : Sound bus) (userId : ℕ) : Sound (bus.subscribe userId) where
  fresh := by
    intro u q hq
    rcases mem_listenersOf_subscribe.mp hq with hq|⟨-,rfl⟩
    · exact (h.fresh u q hq).trans (Nat.lt_succ_self _)
    · exact Nat.lt_succ_self _
  apart := by
    intro u other q hu hother
    rcases mem_listenersOf_subscribe.mp hu with hu|⟨hu,hq⟩ <;>
      rcases mem_listenersOf_subscribe.mp hother with hother|⟨hother,hq'⟩
    · exact h.apart u other q hu hother
    · exact absurd (hq' ▸ h.fresh u q hu) (Nat.lt_irrefl _)
    · exact absurd (hq ▸ h.fresh other q hother) (Nat.lt_irrefl _)
    · rw [hu,hother]
  nonempty := by
    intro u queues hlookup
    rw [Bus.subscribe,lookup_insert_ite] at hlookup
    split at hlookup
    · rw [←Option.some.inj hlookup]
      exact Finset.insert_ne_empty _ _
    · exact h.nonempty u queues hlookup
  bound := by
    intro q
    rw [Bus.subscribe]
    dsimp only
    rw [Function.update_apply]
    split
    · exact Nat.zero_le _
    · exact h.bound q

/-- The end of a subscription keeps the bus sound. -/
theorem Sound.unsubscribe (h : Sound bus) (userId q : ℕ) : Sound (bus.unsubscribe userId q) where
  fresh := fun u other hother => h.fresh u other (mem_listenersOf_unsubscribe.mp hother).1
  apart := fun u other q hu hother => h.apart u other q (mem_listenersOf_unsubscribe.mp hu).1
    (mem_listenersOf_unsubscribe.mp hother).1
  nonempty := by
    intro u queues hlookup
    rw [Bus.unsubscribe] at hlookup
    dsimp only at hlookup
    split at hlookup
    · rw [lookup_erase_ite] at hlookup
      split at hlookup
      · cases hlookup
      · exact h.nonempty u queues hlookup
    · rename_i hrest
      rw [lookup_insert_ite] at hlookup
      split at hlookup
      · rwa [←Option.some.inj hlookup]
      · exact h.nonempty u queues hlookup
  bound := h.bound

/-- A fan-out keeps the bus sound. -/
theorem Sound.fanout (h : Sound bus) (userIds : List ℕ) (event : α) :
    Sound (bus.fanout userIds event) where
  fresh := by
    intro u q hq
    rw [fanout_frame.2.1]
    rw [listenersOf_fanout] at hq
    exact h.fresh u q hq
  apart := by
    intro u other q hu hother
    rw [listenersOf_fanout] at hu hother
    exact h.apart u other q hu hother
  nonempty := by
    rw [fanout_frame.1]
    exact h.nonempty
  bound := bound_fanout h.bound

/-- Reading keeps the bus sound. -/
theorem Sound.read (h : Sound bus) (q : ℕ) : Sound (bus.read q) where
  fresh := by
    intro u other hother
    rw [read_frame.2]
    rw [listenersOf_read] at hother
    exact h.fresh u other hother
  apart := by
    intro u other q hu hother
    rw [listenersOf_read] at hu hother
    exact h.apart u other q hu hother
  nonempty := by
    rw [read_frame.1]
    exact h.nonempty
  bound := by
    intro other
    have hother := h.bound other
    rcases read_cases bus q with ⟨-,hread⟩|⟨event,rest,hq,hread⟩ <;> rw [hread]
    · exact hother
    · dsimp only
      rw [Function.update_apply]
      split
      · rename_i he
        rw [he,hq] at hother
        exact (Nat.le_succ _).trans hother
      · exact hother

/-- Every operation keeps the bus sound. -/
theorem Sound.step (h : Sound bus) (e : BusEvent α) : Sound (busStep bus e) := by
  cases e with
  | subscribe userId => exact h.subscribe userId
  | unsubscribe userId q => exact h.unsubscribe userId q
  | fanout userIds event => exact h.fanout userIds event
  | read q => exact h.read q

end Operations

/-- Every reachable bus is sound. -/
theorem sound_run (events : List (BusEvent α)) : Sound (run busStep Bus.init events) :=
  run_invariant Sound (fun _ e h _ => h.step e) sound_init fun _ _ => trivial

section Tracking

/-- The events fanned out along two runs in a row. -/
theorem fannedOut_append (u : ℕ) (first second : List (BusEvent α)) :
    fannedOut u (first++second)=fannedOut u first++fannedOut u second :=
  List.filterMap_append

theorem fannedOut_of_eq_none {u : ℕ} {e : BusEvent α} (h : fansOut u e=none) :
    fannedOut u [e]=[] := List.filterMap_cons_none h

theorem fannedOut_of_eq_some {u : ℕ} {e : BusEvent α} {event : α} (h : fansOut u e=some event) :
    fannedOut u [e]=[event] := List.filterMap_cons_some h

variable {bus : Bus α} {u q : ℕ} {sent : List α} {taken : List ℕ}

/-- The reads and the contents of a queue are right, whatever has been read. -/
def Right (bus : Bus α) (q : ℕ) (sent : List α) : Prop :=
  ∃ taken, Tracks maxsize sent taken (bus.received q) (bus.queue q)

/-- Reading keeps a queue right. -/
theorem Right.read (h : Right bus q sent) (other : ℕ) : Right (bus.read other) q sent := by
  obtain ⟨taken,h⟩ := h
  rcases read_cases bus other with ⟨-,hread⟩|⟨event,rest,hq,hread⟩ <;> rw [hread,Right]
  · exact ⟨taken,h⟩
  · dsimp only
    by_cases he : q=other
    · subst he
      rw [Function.update_self,Function.update_self]
      rw [hq] at h
      exact ⟨_,h.get⟩
    · rw [Function.update_of_ne he,Function.update_of_ne he]
      exact ⟨taken,h⟩

/-- A subscription keeps the older queues right. -/
theorem Right.subscribe (h : Right bus q sent) (hq : q<bus.nextQueue) (userId : ℕ) :
    Right (bus.subscribe userId) q sent := by
  rw [Right,Bus.subscribe]
  dsimp only
  rw [Function.update_of_ne hq.ne,Function.update_of_ne hq.ne]
  exact h

/-- A new queue is right. -/
theorem right_subscribe (userId : ℕ) : Right (bus.subscribe userId) bus.nextQueue [] := by
  rw [Right,Bus.subscribe]
  dsimp only
  rw [Function.update_self,Function.update_self]
  exact ⟨[],tracks_nil maxsize⟩

/-- While a queue listens, it gets what is fanned out to its user. -/
theorem right_step_live (hs : Sound bus) (hq : q∈bus.listenersOf u) (h : Right bus q sent)
    {e : BusEvent α} (hd : DistinctIds e) (hstay : e≠.unsubscribe u q) :
    q∈(busStep bus e).listenersOf u ∧ Right (busStep bus e) q (sent++fannedOut u [e]) := by
  cases e with
  | subscribe userId =>
    refine ⟨mem_listenersOf_subscribe.mpr (.inl hq),?_⟩
    rw [fannedOut_of_eq_none rfl,List.append_nil]
    exact h.subscribe (hs.fresh u q hq) userId
  | unsubscribe userId other =>
    refine ⟨mem_listenersOf_unsubscribe.mpr ⟨hq,fun he => hstay ?_⟩,?_⟩
    · rw [he.1,he.2]
    · rw [fannedOut_of_eq_none rfl,List.append_nil]
      exact h
  | fanout userIds event =>
    refine ⟨by rwa [busStep,listenersOf_fanout],?_⟩
    obtain ⟨taken,h⟩ := h
    refine ⟨taken,?_⟩
    rw [busStep,fanout_frame.2.2,queue_fanout (fun other => hs.apart u other q hq) hd hq]
    by_cases hu : u∈userIds
    · have hout : fansOut u (.fanout userIds event)=some event :=
        if_pos (List.contains_iff_mem.mpr hu)
      rw [if_pos hu,fannedOut_of_eq_some hout]
      exact h.put (by decide) event
    · have hout : fansOut u (.fanout userIds event)=none :=
        if_neg fun hc => hu (List.contains_iff_mem.mp hc)
      rw [if_neg hu,fannedOut_of_eq_none hout,List.append_nil]
      exact h
  | read other =>
    refine ⟨by rwa [busStep,listenersOf_read],?_⟩
    rw [fannedOut_of_eq_none rfl,List.append_nil]
    exact h.read other

/-- A queue object that no longer listens. -/
def Retired (bus : Bus α) (q : ℕ) : Prop :=
  q<bus.nextQueue ∧ ∀ userId, q∉bus.listenersOf userId

/-- A queue that no longer listens gets nothing. -/
theorem right_step_retired (hq : Retired bus q) (h : Right bus q sent) (e : BusEvent α) :
    Retired (busStep bus e) q ∧ Right (busStep bus e) q sent := by
  obtain ⟨hlt,hnone⟩ := hq
  cases e with
  | subscribe userId =>
    refine ⟨⟨hlt.trans (Nat.lt_succ_self _),fun v hv => ?_⟩,h.subscribe hlt userId⟩
    rcases mem_listenersOf_subscribe.mp hv with hv|⟨-,he⟩
    · exact hnone v hv
    · exact hlt.ne he
  | unsubscribe userId other =>
    exact ⟨⟨hlt,fun v hv => hnone v (mem_listenersOf_unsubscribe.mp hv).1⟩,h⟩
  | fanout userIds event =>
    refine ⟨⟨by rwa [busStep,fanout_frame.2.1],fun v hv => ?_⟩,?_⟩
    · rw [busStep,listenersOf_fanout] at hv
      exact hnone v hv
    · rw [Right,busStep,fanout_frame.2.2,queue_fanout_of_notMem fun v _ => hnone v]
      exact h
  | read other =>
    refine ⟨⟨by rwa [busStep,read_frame.2],fun v hv => ?_⟩,h.read other⟩
    rw [busStep,listenersOf_read] at hv
    exact hnone v hv

end Tracking

/-- A subscription that has not ended: its queue listens and is right about
what has been fanned out to its user since. -/
theorem right_run_live {pre mid : List (BusEvent α)} {u : ℕ} (hd : ∀ e∈mid, DistinctIds e)
    (hstay : .unsubscribe u (nextQueueAfter pre)∉mid) :
    nextQueueAfter pre∈(run busStep Bus.init (pre++.subscribe u::mid)).listenersOf u ∧
      Right (run busStep Bus.init (pre++.subscribe u::mid)) (nextQueueAfter pre)
        (fannedOut u mid) := by
  induction mid using List.reverseRecOn with
  | nil =>
    rw [run_append,run_cons,run_nil]
    exact ⟨mem_listenersOf_subscribe.mpr (.inr ⟨rfl,rfl⟩),right_subscribe u⟩
  | append_singleton mid e ih =>
    obtain ⟨hq,hright⟩ := ih (fun e he => hd e (List.mem_append_left _ he))
      fun he => hstay (List.mem_append_left _ he)
    rw [←List.cons_append,←List.append_assoc,run_append,run_cons,run_nil,fannedOut_append]
    have hlast : e∈mid++[e] := List.mem_append_right _ List.mem_cons_self
    exact right_step_live (sound_run _) hq hright (hd e hlast) fun he => hstay (he ▸ hlast)

/-- A subscription that has ended: its queue is right about what was fanned out
to its user in between. -/
theorem right_run_ended {pre mid post : List (BusEvent α)} {u : ℕ} (hd : ∀ e∈mid, DistinctIds e)
    (hstay : .unsubscribe u (nextQueueAfter pre)∉mid) :
    Right (run busStep Bus.init
        (pre++.subscribe u::(mid++.unsubscribe u (nextQueueAfter pre)::post)))
      (nextQueueAfter pre) (fannedOut u mid) := by
  obtain ⟨hq,hright⟩ := right_run_live hd hstay
  have hsound := sound_run (pre++.subscribe u::mid)
  have hretired : Retired (busStep (run busStep Bus.init (pre++.subscribe u::mid))
      (.unsubscribe u (nextQueueAfter pre))) (nextQueueAfter pre) := by
    refine ⟨hsound.fresh u _ hq,fun v hv => ?_⟩
    obtain ⟨hv,hne⟩ := mem_listenersOf_unsubscribe.mp hv
    exact hne ⟨(hsound.apart u v _ hq hv).symm,rfl⟩
  have hsplit : pre++.subscribe u::(mid++.unsubscribe u (nextQueueAfter pre)::post)=
      (pre++.subscribe u::mid)++.unsubscribe u (nextQueueAfter pre)::post := by
    simp only [List.append_assoc,List.cons_append]
  rw [hsplit,run_append,run_cons]
  have hend : Retired (run busStep _ post) (nextQueueAfter pre) ∧
      Right (run busStep _ post) (nextQueueAfter pre) (fannedOut u mid) :=
    run_invariant (fun bus : Bus α =>
        Retired bus (nextQueueAfter pre) ∧ Right bus (nextQueueAfter pre) (fannedOut u mid))
      (fun _ e h _ => right_step_retired h.1 h.2 e) ⟨hretired,hright⟩ fun _ _ => trivial
  exact hend.2

/-- Along every run with distinct ids in each fan-out, queues hold at most 64
events, no user keeps an empty set, a live subscription has read a subsequence
of what was fanned out to its user since it began, missing only what 64 later
events have pushed out, and one that has ended gets nothing more. -/
theorem eventBus_broadcasts {events : List (BusEvent α)} (hd : ∀ e∈events, DistinctIds e) :
    (∀ q, ((run busStep Bus.init events).queue q).length≤64) ∧
    (∀ userId queues, (run busStep Bus.init events).listeners.lookup userId=some queues →
      queues≠∅) ∧
    (∀ pre u mid, events=pre++.subscribe u::mid → .unsubscribe u (nextQueueAfter pre)∉mid →
      ((run busStep Bus.init events).received (nextQueueAfter pre)).Sublist (fannedOut u mid) ∧
      ∃ taken, Tracks 64 (fannedOut u mid) taken
        ((run busStep Bus.init events).received (nextQueueAfter pre))
        ((run busStep Bus.init events).queue (nextQueueAfter pre))) ∧
    ∀ pre u mid post, events=pre++.subscribe u::(mid++.unsubscribe u (nextQueueAfter pre)::post) →
      .unsubscribe u (nextQueueAfter pre)∉mid →
      ((run busStep Bus.init events).received (nextQueueAfter pre)).Sublist (fannedOut u mid) ∧
      ∃ taken, Tracks 64 (fannedOut u mid) taken
        ((run busStep Bus.init events).received (nextQueueAfter pre))
        ((run busStep Bus.init events).queue (nextQueueAfter pre)) := by
  have hsound := sound_run events
  refine ⟨hsound.bound,hsound.nonempty,?_,?_⟩
  · rintro pre u mid rfl hstay
    obtain ⟨taken,h⟩ := (right_run_live (fun e he =>
      hd e (List.mem_append_right _ (List.mem_cons_of_mem _ he))) hstay).2
    exact ⟨h.sublist,taken,h⟩
  · rintro pre u mid post rfl hstay
    obtain ⟨taken,h⟩ := right_run_ended (fun e he => hd e (List.mem_append_right _
      (List.mem_cons_of_mem _ (List.mem_append_left _ he)))) hstay
    exact ⟨h.sublist,taken,h⟩

/-- A client of user 7 reads one of the two events for the user; the third one
is for user 8. -/
theorem eventBus_broadcasts_one :
    ((run busStep Bus.init [.subscribe 7,.fanout [7,3] 'a',.fanout [8] 'b',.fanout [3,7] 'c',
      .read 0]).received 0).Sublist ['a','c'] :=
  ((eventBus_broadcasts (by simp [DistinctIds])).2.2.1 [] 7
    [.fanout [7,3] 'a',.fanout [8] 'b',.fanout [3,7] 'c',.read 0] rfl
    (by simp [nextQueueAfter,Bus.init])).1

section Alerts

open GuardianLinks

variable {bus : Bus BlockEvent} {queues : EventBus}

/-- The queues of each user, with no regard to the objects that hold them. -/
def Shows (bus : Bus BlockEvent) (queues : EventBus) : Prop :=
  ∀ userId, (bus.listenersOf userId).val.map bus.queue=↑(queues userId)

/-- One user's part of a fan-out, with no regard to objects. -/
theorem shows_deliver (hs : Sound bus) (h : Shows bus queues) (userId : ℕ) (event : BlockEvent) :
    Shows (bus.deliver event userId)
      (Function.update queues userId ((queues userId).map (putEvent event))) := by
  intro other
  have hsame : (bus.deliver event userId).listenersOf other=bus.listenersOf other := rfl
  rw [hsame,Function.update_apply]
  by_cases he : other=userId
  · rw [if_pos he,he,←Multiset.map_coe,←h userId,Multiset.map_map]
    refine Multiset.map_congr rfl fun q hq => ?_
    exact if_pos (Finset.mem_val.mp hq)
  · rw [if_neg he,←h other]
    refine Multiset.map_congr rfl fun q hq => ?_
    exact if_neg fun hin => he (hs.apart other userId q (Finset.mem_val.mp hq) hin)

/-- What an alert does to the queues of each user is what the bus does. -/
theorem shows_fanout (hs : Sound bus) (h : Shows bus queues) (userIds : List ℕ)
    (event : BlockEvent) :
    Shows (bus.fanout userIds event) (GuardianLinks.fanout queues userIds event) := by
  induction userIds generalizing bus queues with
  | nil => exact h
  | cons userId userIds ih =>
    exact ih (hs.fanout [userId] event) (shows_deliver hs h userId event)

end Alerts

end ScamLens.EventBuses
