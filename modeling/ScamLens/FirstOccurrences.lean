import Mathlib.Data.List.Infix
import Mathlib.Data.List.Sort
import Mathlib.Data.Nat.Notation

/-!
# First occurrences and ranks

A loop that remembers the keys it has seen keeps the first item of each key, up
to a limit at which it stops. A stable sort by ranks puts the items of each rank
behind one another as they came.
-/

namespace ScamLens.FirstOccurrences

variable {α κ : Type*}

section Firsts

variable [DecidableEq κ] (key : α → κ)

/-- The first item of each key. -/
def firsts : List α → List α
  | [] => []
  | x::xs => x::(firsts xs).filter (key · ≠ key x)

/-- The loop that keeps first items and stops at a limit. -/
def collect (limit : ℕ) : List α → List α → List α
  | kept,[] => kept
  | kept,x::xs =>
    if key x∈kept.map key then collect limit kept xs
    else if limit≤kept.length+1 then kept++[x]
    else collect limit (kept++[x]) xs

variable {key} {xs : List α}

/-- First items are items, in their order. -/
theorem sublist_firsts (xs : List α) : (firsts key xs).Sublist xs := by
  induction xs with
  | nil => exact .slnil
  | cons x xs ih => exact (List.filter_sublist.trans ih).cons_cons x

/-- No two first items have one key. -/
theorem nodup_firsts (xs : List α) : ((firsts key xs).map key).Nodup := by
  induction xs with
  | nil => exact List.nodup_nil
  | cons x xs ih =>
    rw [firsts,List.map_cons,List.nodup_cons]
    refine ⟨fun hmem => ?_,ih.sublist (List.filter_sublist.map key)⟩
    obtain ⟨y,hy,heq⟩ := List.mem_map.mp hmem
    exact of_decide_eq_true (List.mem_filter.mp hy).2 heq

/-- An item is a first one when no item in front of it has its key. -/
theorem mem_firsts {x : α} : x∈firsts key xs ↔
    ∃ pre post, xs=pre++x::post ∧ ∀ y∈pre, key y≠key x := by
  induction xs with
  | nil =>
    refine iff_of_false List.not_mem_nil ?_
    rintro ⟨pre,post,heq,-⟩
    exact absurd heq.symm (List.append_ne_nil_of_right_ne_nil pre (List.cons_ne_nil x post))
  | cons z xs ih =>
    rw [firsts,List.mem_cons,List.mem_filter,decide_eq_true_eq,ih]
    constructor
    · rintro (rfl|⟨⟨pre,post,rfl,hpre⟩,hne⟩)
      · exact ⟨[],xs,rfl,nofun⟩
      · exact ⟨z::pre,post,rfl,List.forall_mem_cons.mpr ⟨fun heq => hne heq.symm,hpre⟩⟩
    · rintro ⟨pre,post,heq,hpre⟩
      cases pre with
      | nil => exact .inl (List.cons_eq_cons.mp heq).1.symm
      | cons w pre =>
        obtain ⟨rfl,rfl⟩ := List.cons_eq_cons.mp heq
        rw [List.forall_mem_cons] at hpre
        exact .inr ⟨⟨pre,post,rfl,hpre.2⟩,fun heq => hpre.1 heq.symm⟩

/-- Every key has a first item. -/
theorem exists_mem_firsts {x : α} (h : x∈xs) : ∃ y∈firsts key xs, key y=key x := by
  induction xs with
  | nil => exact absurd h List.not_mem_nil
  | cons z xs ih =>
    by_cases heq : key z=key x
    · exact ⟨z,List.mem_cons_self,heq⟩
    · obtain ⟨y,hy,hkey⟩ := ih ((List.mem_cons.mp h).resolve_left fun he => heq (he ▸ rfl))
      refine ⟨y,List.mem_cons_of_mem z (List.mem_filter.mpr ⟨hy,?_⟩),hkey⟩
      exact decide_eq_true fun he => heq (he ▸ hkey)

/-- The loop keeps the first items of keys it has not kept, up to its limit. -/
theorem collect_eq_append {limit : ℕ} {kept : List α} (h : kept.length<limit) :
    collect key limit kept xs=
      kept++((firsts key xs).filter fun x => key x∉kept.map key).take (limit-kept.length) := by
  induction xs generalizing kept with
  | nil => rw [collect,firsts,List.filter_nil,List.take_nil,List.append_nil]
  | cons x xs ih =>
    have hmore (y : α) : key y∉(kept++[x]).map key ↔ key y≠key x ∧ key y∉kept.map key := by
      rw [List.map_append,List.mem_append,not_or,and_comm]
      exact and_congr_left' (not_congr List.mem_singleton)
    rw [collect,firsts]
    by_cases hseen : key x∈kept.map key
    · have hkeep : ∀ y, (key y∉kept.map key ∧ key y≠key x) ↔ key y∉kept.map key := fun y =>
        and_iff_left_of_imp fun hy heq => hy (heq ▸ hseen)
      rw [if_pos hseen,ih h,List.filter_cons_of_neg (by simp only [hseen,not_true_eq_false,
        decide_false,Bool.false_eq_true,not_false_eq_true]),List.filter_filter]
      simp only [←Bool.decide_and,hkeep]
    · rw [if_neg hseen,List.filter_cons_of_pos (by simp only [hseen,not_false_eq_true,
        decide_true])]
      split
      · have hone : limit-kept.length=1 := by omega
        rw [hone,List.take_succ_cons,List.take_zero]
      · have hless : (kept++[x]).length<limit := by
          rw [List.length_append,List.length_singleton]
          omega
        have hrest : limit-kept.length=(limit-(kept++[x]).length)+1 := by
          rw [List.length_append,List.length_singleton]
          omega
        rw [ih hless,List.append_assoc,hrest,List.take_succ_cons,List.filter_filter]
        simp only [←Bool.decide_and,hmore,and_comm,List.singleton_append]

/-- From nothing on, the loop keeps the first items up to its limit. -/
theorem collect_eq_take {limit : ℕ} (h : 0<limit) (xs : List α) :
    collect key limit [] xs=(firsts key xs).take limit := by
  have hnone : ([] : List α).length<limit := h
  rw [collect_eq_append hnone,List.nil_append]
  refine congrArg (List.take limit) (List.filter_eq_self.mpr fun x _ => ?_)
  exact decide_eq_true List.not_mem_nil

end Firsts

section Ranks

variable (rank : α → ℕ)

/-- A stable sort, items with a smaller rank first. -/
def sortByRank (xs : List α) : List α := xs.insertionSort fun a b => rank a ≤ rank b

variable {rank}

/-- An item is put behind all items with smaller ranks. -/
theorem orderedInsert_append {x : α} {front back : List α} (hfront : ∀ y∈front, rank y < rank x)
    (hback : ∀ y∈back, rank x ≤ rank y) :
    (front++back).orderedInsert (fun a b => rank a ≤ rank b) x=front++x::back := by
  induction front with
  | nil =>
    cases back with
    | nil => rfl
    | cons y back =>
      exact List.orderedInsert_cons_of_le (fun a b => rank a ≤ rank b) back
        (hback y List.mem_cons_self)
  | cons y front ih =>
    rw [List.forall_mem_cons] at hfront
    have hrest := ih hfront.2
    rw [List.cons_append,List.orderedInsert_of_not_le (fun a b => rank a ≤ rank b) _
      (Nat.not_le.mpr hfront.1),hrest,List.cons_append]

/-- The sorted list consists of the items of each rank, as they came. -/
theorem sortByRank_eq_flatMap {ranks : List ℕ} (hsorted : ranks.Pairwise (· < ·)) (xs : List α)
    (hranks : ∀ x∈xs, rank x∈ranks) :
    sortByRank rank xs=ranks.flatMap fun k => xs.filter (rank · = k) := by
  induction xs with
  | nil =>
    rw [List.flatMap_eq_nil_iff.mpr fun k _ => List.filter_nil]
    rfl
  | cons x xs ih =>
    rw [List.forall_mem_cons] at hranks
    obtain ⟨low,high,rfl⟩ := List.append_of_mem hranks.1
    have hparts := List.pairwise_append.mp hsorted
    have hlow : ∀ k∈low, k < rank x := fun k hk => hparts.2.2 k hk _ List.mem_cons_self
    have hhigh : ∀ k∈high, rank x < k := (List.pairwise_cons.mp hparts.2.1).1
    have hother (ks : List ℕ) (hks : ∀ k∈ks, rank x≠k) :
        (ks.flatMap fun k => (x::xs).filter (rank · = k))=
          ks.flatMap fun k => xs.filter (rank · = k) :=
      List.flatMap_congr fun k hk => List.filter_cons_of_neg (by
        simp only [hks k hk,decide_false,Bool.false_eq_true,not_false_eq_true])
    have hmem {ks : List ℕ} {y : α} (hy : y∈ks.flatMap fun k => xs.filter (rank · = k)) :
        rank y∈ks := by
      obtain ⟨k,hk,hmem⟩ := List.mem_flatMap.mp hy
      rwa [of_decide_eq_true (List.mem_filter.mp hmem).2]
    have hsort : sortByRank rank (x::xs)=
        (sortByRank rank xs).orderedInsert (fun a b => rank a ≤ rank b) x := rfl
    rw [hsort,ih hranks.2,List.flatMap_append,List.flatMap_append,List.flatMap_cons,
      List.flatMap_cons,hother low fun k hk => (hlow k hk).ne',
      hother high fun k hk => (hhigh k hk).ne,
      List.filter_cons_of_pos (by simp only [decide_true]),List.cons_append]
    refine orderedInsert_append (fun y hy => hlow _ (hmem hy)) fun y hy => ?_
    rcases List.mem_append.mp hy with hy|hy
    · exact (of_decide_eq_true (List.mem_filter.mp hy).2).ge
    · exact (hhigh _ (hmem hy)).le

end Ranks

end ScamLens.FirstOccurrences
