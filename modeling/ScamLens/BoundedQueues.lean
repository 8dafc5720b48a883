import Mathlib.Data.List.Infix
import Mathlib.Data.List.Nodup

/-!
# Bounded queues that drop their oldest element

A full queue makes room for the next element by dropping its oldest one. The
history of a queue is the list of everything put into it; what a reader has
got is described by the positions of its reads in that history. The queue is
what the history ends with, and a position that is neither in the queue nor
read has at least a capacity of later ones.
-/

namespace ScamLens.BoundedQueues

variable {α : Type*}

/-- Put an element at the end, dropping the oldest one of a full queue. -/
def put (capacity : ℕ) (x : α) (queue : List α) : List α :=
  (if capacity ≤ queue.length then queue.drop 1 else queue)++[x]

/-- A queue and its reads against the history of what was put in. -/
structure Tracks (capacity : ℕ) (sent : List α) (taken : List ℕ) (received queue : List α) :
    Prop where
  /-- The queue keeps to its capacity. -/
  bound : queue.length ≤ capacity
  /-- The history ends with the queue. -/
  recent : queue <:+ sent
  /-- The reads are those of the positions. -/
  reads : received.map some=taken.map fun i => sent[i]?
  /-- Positions are read in order, and once. -/
  ordered : taken.Pairwise (·<·)
  /-- What is read is no longer in the queue. -/
  gone : ∀ i∈taken, i+queue.length < sent.length
  /-- What is missing has a capacity of later elements. -/
  missing : ∀ i, i+queue.length < sent.length → i∉taken → i+capacity < sent.length

/-- A new queue. -/
theorem tracks_nil (capacity : ℕ) : Tracks capacity ([] : List α) [] [] [] where
  bound := Nat.zero_le capacity
  recent := List.suffix_refl []
  reads := rfl
  ordered := List.Pairwise.nil
  gone := fun _ hi => absurd hi List.not_mem_nil
  missing := fun _ hi => absurd hi (Nat.not_lt_zero _)

section Operations

variable {capacity : ℕ} {sent received queue : List α} {taken : List ℕ} {x : α}

/-- The length of a queue behind a put. -/
theorem length_put (hc : 0 < capacity) (h : queue.length ≤ capacity) :
    (put capacity x queue).length=min capacity (queue.length+1) := by
  rw [put,List.length_append,List.length_singleton]
  split
  · rw [List.length_drop]
    omega
  · omega

/-- A put adds to the history and keeps to the positions read. -/
theorem Tracks.put (h : Tracks capacity sent taken received queue) (hc : 0 < capacity) (x : α) :
    Tracks capacity (sent++[x]) taken received (put capacity x queue) := by
  have hbound := h.bound
  have hlength : (BoundedQueues.put capacity x queue).length=min capacity (queue.length+1) :=
    length_put hc hbound
  have hsent : (sent++[x]).length=sent.length+1 := by
    rw [List.length_append,List.length_singleton]
  refine ⟨?_,?_,?_,h.ordered,fun i hi => ?_,fun i hi hnot => ?_⟩
  · rw [hlength]
    exact Nat.min_le_left _ _
  · have hkept : (if capacity ≤ queue.length then queue.drop 1 else queue) <:+ sent := by
      split
      · exact (List.drop_suffix 1 queue).trans h.recent
      · exact h.recent
    obtain ⟨front,hfront⟩ := hkept
    exact ⟨front,by rw [BoundedQueues.put,←List.append_assoc,hfront]⟩
  · rw [h.reads]
    refine List.map_congr_left fun i hi => ?_
    have hgone := h.gone i hi
    rw [List.getElem?_append_left (by omega)]
  · have hgone := h.gone i hi
    rw [hlength,hsent]
    omega
  · rw [hlength,hsent] at hi
    rw [hsent]
    by_cases hold : i+queue.length < sent.length
    · have hmissing := h.missing i hold hnot
      omega
    · omega

/-- A read takes the oldest element and its position. -/
theorem Tracks.get (h : Tracks capacity sent taken received (x::queue)) :
    Tracks capacity sent (taken++[sent.length-(queue.length+1)]) (received++[x]) queue := by
  have hcons : (x::queue).length=queue.length+1 := rfl
  have hlength : queue.length+1 ≤ sent.length := hcons ▸ h.recent.length_le
  have hhead : sent[sent.length-(queue.length+1)]?=some x := by
    obtain ⟨front,hfront⟩ := h.recent
    have hpos : sent.length-(queue.length+1)=front.length := by
      rw [←hfront,List.length_append,hcons,Nat.add_sub_cancel]
    rw [hpos,←hfront,List.getElem?_append_right (Nat.le_refl _),Nat.sub_self]
    rfl
  refine ⟨(Nat.le_succ _).trans h.bound,(List.suffix_cons x queue).trans h.recent,?_,?_,?_,?_⟩
  · rw [List.map_append,List.map_append,h.reads,List.map_singleton,List.map_singleton,hhead]
  · refine List.pairwise_append.mpr ⟨h.ordered,List.pairwise_singleton _ _,fun i hi j hj => ?_⟩
    have hgone := h.gone i hi
    rw [List.mem_singleton.mp hj]
    omega
  · intro i hi
    rcases List.mem_append.mp hi with hi|hi
    · have hgone := h.gone i hi
      omega
    · rw [List.mem_singleton.mp hi]
      omega
  · intro i hi hnot
    rw [List.mem_append,List.mem_singleton,not_or] at hnot
    refine h.missing i ?_ hnot.1
    have hne := hnot.2
    omega

/-- Elements at increasing positions from some position on are a subsequence of
what is there. -/
theorem sublist_drop_of_positions {k : ℕ} (hk : ∀ i∈taken, k ≤ i) (ho : taken.Pairwise (·<·))
    (hr : received.map some=taken.map fun i => sent[i]?) : received.Sublist (sent.drop k) := by
  induction taken generalizing k received with
  | nil =>
    rw [List.map_eq_nil_iff.mp hr]
    exact List.nil_sublist _
  | cons i taken ih =>
    obtain ⟨x,rest,rfl,hx,hrest⟩ := List.map_eq_cons_iff.mp hr
    obtain ⟨hlt,hget⟩ := List.getElem?_eq_some_iff.mp hx.symm
    obtain ⟨hfirst,ho⟩ := List.pairwise_cons.mp ho
    have htail := ih (fun j hj => hfirst j hj) ho hrest
    refine List.Sublist.trans ?_ (List.drop_sublist_drop_left sent (hk i List.mem_cons_self))
    rw [List.drop_eq_getElem_cons hlt,hget]
    exact htail.cons_cons x

/-- A reader gets a subsequence of the history. -/
theorem Tracks.sublist (h : Tracks capacity sent taken received queue) :
    received.Sublist sent :=
  sublist_drop_of_positions (fun i _ => Nat.zero_le i) h.ordered h.reads

end Operations

end ScamLens.BoundedQueues
