import Mathlib.Data.List.Basic
import Mathlib.Order.Lattice.Nat

/-!
# Edit distances

The distance of two words is the least number of insertions, deletions and
substitutions of single symbols that lead from one to the other. An alignment
writes such edits down from left to right; by the triangle inequality of
alignments, no order of edits is shorter. Alignments give the recurrences that
a table of the distances of all pairs of prefixes is filled by.
-/

namespace ScamLens.EditDistances

variable {α : Type*}

/-- One edit. -/
inductive Edit : List α → List α → Prop
  | insert (front back : List α) (x : α) : Edit (front++back) (front++x::back)
  | delete (front back : List α) (x : α) : Edit (front++x::back) (front++back)
  | substitute (front back : List α) (x y : α) : Edit (front++x::back) (front++y::back)

/-- Edits one after the other, with their number. -/
inductive Edits : List α → List α → ℕ → Prop
  | refl (a : List α) : Edits a a 0
  | step {a b c : List α} {n : ℕ} (h : Edits a b n) (e : Edit b c) : Edits a c (n+1)

/-- The least number of edits. -/
noncomputable def distance (a b : List α) : ℕ := sInf {n | Edits a b n}

/-- Edits from left to right, with their number. -/
inductive Aligned : List α → List α → ℕ → Prop
  | nil : Aligned [] [] 0
  | keep {a b : List α} {n : ℕ} (x : α) (h : Aligned a b n) : Aligned (x::a) (x::b) n
  | substitute {a b : List α} {n : ℕ} (x y : α) (h : Aligned a b n) :
      Aligned (x::a) (y::b) (n+1)
  | delete {a b : List α} {n : ℕ} (x : α) (h : Aligned a b n) : Aligned (x::a) b (n+1)
  | insert {a b : List α} {n : ℕ} (y : α) (h : Aligned a b n) : Aligned a (y::b) (n+1)

namespace Aligned

/-- A word is aligned with itself. -/
theorem refl (a : List α) : Aligned a a 0 := by
  induction a with
  | nil => exact .nil
  | cons x a ih => exact ih.keep x

/-- Alignments of two parts make one of the whole. -/
theorem append {a b c d : List α} {n m : ℕ} (h : Aligned a b n) (k : Aligned c d m) :
    Aligned (a++c) (b++d) (n+m) := by
  induction h with
  | nil => rwa [Nat.zero_add]
  | keep x _ ih => exact ih.keep x
  | substitute x y _ ih =>
    rw [Nat.add_right_comm]
    exact ih.substitute x y
  | delete x _ ih =>
    rw [Nat.add_right_comm]
    exact ih.delete x
  | insert y _ ih =>
    rw [Nat.add_right_comm]
    exact ih.insert y

/-- An alignment may be read from right to left. -/
theorem reverse {a b : List α} {n : ℕ} (h : Aligned a b n) :
    Aligned a.reverse b.reverse n := by
  induction h with
  | nil => exact .nil
  | keep x _ ih =>
    rw [List.reverse_cons,List.reverse_cons]
    exact ih.append (refl [x])
  | substitute x y _ ih =>
    rw [List.reverse_cons,List.reverse_cons]
    exact ih.append (Aligned.nil.substitute x y)
  | delete x _ ih =>
    have hlast := ih.append (Aligned.nil.delete x)
    rwa [List.append_nil,←List.reverse_cons] at hlast
  | insert y _ ih =>
    have hlast := ih.append (Aligned.nil.insert y)
    rwa [List.append_nil,←List.reverse_cons] at hlast

/-- Without a word on the left everything is inserted. -/
theorem of_nil_left {b : List α} {n : ℕ} (h : Aligned [] b n) : n=b.length := by
  induction b generalizing n with
  | nil =>
    cases h
    rfl
  | cons y b ih =>
    cases h with
    | insert _ h => rw [ih h,List.length_cons]

/-- Edits of a kind may be read backwards. -/
theorem symm {a b : List α} {n : ℕ} (h : Aligned a b n) : Aligned b a n := by
  induction h with
  | nil => exact .nil
  | keep x _ ih => exact ih.keep x
  | substitute x y _ ih => exact ih.substitute y x
  | delete x _ ih => exact ih.insert x
  | insert y _ ih => exact ih.delete y

/-- The lengths of aligned words differ by the number of edits at most. -/
theorem length_le {a b : List α} {n : ℕ} (h : Aligned a b n) : a.length≤b.length+n := by
  induction h with
  | nil => exact Nat.le_refl _
  | keep x _ ih =>
    rw [List.length_cons,List.length_cons]
    omega
  | substitute x y _ ih =>
    rw [List.length_cons,List.length_cons]
    omega
  | delete x _ ih =>
    rw [List.length_cons]
    omega
  | insert y _ ih =>
    rw [List.length_cons]
    omega

/-- Without edits the words are the same. -/
theorem eq_of_zero {a b : List α} (h : Aligned a b 0) : a=b := by
  generalize hn : 0=n at h
  induction h with
  | nil => rfl
  | keep x _ ih => rw [ih hn]
  | substitute => cases hn
  | delete => cases hn
  | insert => cases hn

/-- Symbols may be deleted in front. -/
theorem deletes {a b : List α} {n : ℕ} (dropped : List α) (h : Aligned a b n) :
    Aligned (dropped++a) b (dropped.length+n) := by
  induction dropped with
  | nil => rwa [List.length_nil,Nat.zero_add]
  | cons x dropped ih =>
    rw [List.length_cons,Nat.add_right_comm]
    exact ih.delete x

/-- A symbol on the right is kept, substituted or inserted, after some
deletions. -/
theorem cons_right {a b : List α} {x : α} {n : ℕ} (h : Aligned a (x::b) n) :
    ∃ dropped rest k, Aligned rest b k ∧
      ((a=dropped++x::rest ∧ n=dropped.length+k) ∨
        (∃ z, a=dropped++z::rest ∧ n=dropped.length+k+1) ∨
        (a=dropped++rest ∧ n=dropped.length+k+1)) := by
  induction a generalizing n with
  | nil =>
    cases h with
    | insert _ h => exact ⟨[],[],_,h,.inr (.inr ⟨rfl,by rw [List.length_nil,Nat.zero_add]⟩)⟩
  | cons z a ih =>
    cases h with
    | keep _ h => exact ⟨[],a,_,h,.inl ⟨rfl,by rw [List.length_nil,Nat.zero_add]⟩⟩
    | substitute _ _ h =>
      exact ⟨[],a,_,h,.inr (.inl ⟨z,rfl,by rw [List.length_nil,Nat.zero_add]⟩)⟩
    | insert _ h => exact ⟨[],z::a,_,h,.inr (.inr ⟨rfl,by rw [List.length_nil,Nat.zero_add]⟩)⟩
    | delete _ h =>
      obtain ⟨dropped,rest,k,hrest,hcases⟩ := ih h
      refine ⟨z::dropped,rest,k,hrest,
        hcases.imp (fun hc => ?_) (Or.imp (fun hc => ?_) fun hc => ?_)⟩
      · exact ⟨by rw [hc.1,List.cons_append],by rw [hc.2,List.length_cons]; omega⟩
      · obtain ⟨w,ha,hn⟩ := hc
        exact ⟨w,by rw [ha,List.cons_append],by rw [hn,List.length_cons]; omega⟩
      · exact ⟨by rw [hc.1,List.cons_append],by rw [hc.2,List.length_cons]; omega⟩

/-- Alignments compose, in the sum of their edits at most. -/
theorem trans {a b c : List α} {n m : ℕ} (h : Aligned a b n) (k : Aligned b c m) :
    ∃ l, l≤n+m ∧ Aligned a c l := by
  induction k generalizing a n with
  | nil => exact ⟨n,Nat.le_refl _,h⟩
  | insert y _ ih =>
    obtain ⟨l,hl,hk⟩ := ih h
    exact ⟨l+1,by omega,hk.insert y⟩
  | keep x _ ih =>
    obtain ⟨dropped,rest,j,hrest,hcases⟩ := h.cons_right
    obtain ⟨l,hl,hk⟩ := ih hrest
    rcases hcases with ⟨rfl,rfl⟩|⟨z,rfl,rfl⟩|⟨rfl,rfl⟩
    · exact ⟨_,by omega,(hk.keep x).deletes dropped⟩
    · exact ⟨_,by omega,(hk.substitute z x).deletes dropped⟩
    · exact ⟨_,by omega,(hk.insert x).deletes dropped⟩
  | substitute x y _ ih =>
    obtain ⟨dropped,rest,j,hrest,hcases⟩ := h.cons_right
    obtain ⟨l,hl,hk⟩ := ih hrest
    rcases hcases with ⟨rfl,rfl⟩|⟨z,rfl,rfl⟩|⟨rfl,rfl⟩
    · exact ⟨_,by omega,(hk.substitute x y).deletes dropped⟩
    · exact ⟨_,by omega,(hk.substitute z y).deletes dropped⟩
    · exact ⟨_,by omega,(hk.insert y).deletes dropped⟩
  | delete x _ ih =>
    obtain ⟨dropped,rest,j,hrest,hcases⟩ := h.cons_right
    obtain ⟨l,hl,hk⟩ := ih hrest
    rcases hcases with ⟨rfl,rfl⟩|⟨z,rfl,rfl⟩|⟨rfl,rfl⟩
    · exact ⟨_,by omega,(hk.delete x).deletes dropped⟩
    · exact ⟨_,by omega,(hk.delete z).deletes dropped⟩
    · exact ⟨_,by omega,hk.deletes dropped⟩

/-- One edit is an alignment. -/
theorem of_edit {a b : List α} (h : Edit a b) : Aligned a b 1 := by
  cases h with
  | insert front back x => exact (refl front).append ((refl back).insert x)
  | delete front back x => exact (refl front).append ((refl back).delete x)
  | substitute front back x y => exact (refl front).append ((refl back).substitute x y)

/-- Edits in any order are no fewer than those of an alignment. -/
theorem of_edits {a b : List α} {n : ℕ} (h : Edits a b n) : ∃ m, m≤n ∧ Aligned a b m := by
  induction h with
  | refl => exact ⟨0,Nat.le_refl _,refl _⟩
  | step _ e ih =>
    obtain ⟨m,hm,h⟩ := ih
    obtain ⟨l,hl,h⟩ := h.trans (of_edit e)
    exact ⟨l,by omega,h⟩

end Aligned

/-- An edit may be made behind a symbol. -/
theorem Edit.cons {a b : List α} (x : α) (h : Edit a b) : Edit (x::a) (x::b) := by
  cases h with
  | insert front back y => exact .insert (x::front) back y
  | delete front back y => exact .delete (x::front) back y
  | substitute front back y z => exact .substitute (x::front) back y z

/-- Edits may be made behind a symbol. -/
theorem Edits.cons {a b : List α} {n : ℕ} (x : α) (h : Edits a b n) : Edits (x::a) (x::b) n := by
  induction h with
  | refl => exact .refl _
  | step _ e ih => exact ih.step (e.cons x)

/-- The edits of an alignment. -/
theorem Aligned.edits {a b : List α} {n : ℕ} (h : Aligned a b n) : Edits a b n := by
  induction h with
  | nil => exact .refl []
  | keep x _ ih => exact ih.cons x
  | substitute x y _ ih => exact (ih.cons x).step (.substitute [] _ x y)
  | delete x _ ih => exact (ih.cons x).step (.delete [] _ x)
  | insert y _ ih => exact ih.step (.insert [] _ y)

section Distance

variable {a b : List α} {x y : α} {n : ℕ}

/-- Words have an alignment. -/
theorem aligned_exists (a b : List α) : ∃ n, Aligned a b n := by
  have hdelete : Aligned (a++[]) [] (a.length+0) := Aligned.nil.deletes a
  have hinsert : Aligned (b++[]) [] (b.length+0) := Aligned.nil.deletes b
  rw [List.append_nil] at hdelete hinsert
  obtain ⟨l,-,h⟩ := hdelete.trans hinsert.symm
  exact ⟨l,h⟩

/-- The distance is that of an alignment. -/
theorem aligned_distance (a b : List α) : Aligned a b (distance a b) := by
  obtain ⟨n,hn⟩ := aligned_exists a b
  have hmem : distance a b∈{n | Edits a b n} := Nat.sInf_mem ⟨n,hn.edits⟩
  obtain ⟨m,hm,h⟩ := Aligned.of_edits hmem
  have hle : distance a b ≤ m := Nat.sInf_le h.edits
  rwa [Nat.le_antisymm hm hle] at h

/-- The distance is a number of edits, and the least one. -/
theorem isLeast_distance (a b : List α) : IsLeast {n | Edits a b n} (distance a b) :=
  ⟨(aligned_distance a b).edits,fun _ h => Nat.sInf_le h⟩

/-- No alignment has fewer edits than the distance. -/
theorem Aligned.distance_le (h : Aligned a b n) : distance a b≤n := Nat.sInf_le h.edits

theorem distance_self (a : List α) : distance a a=0 :=
  Nat.le_zero.mp (Aligned.refl a).distance_le

theorem distance_eq_zero : distance a b=0 ↔ a=b := by
  refine ⟨fun h => ?_,fun h => h ▸ distance_self a⟩
  exact (h ▸ aligned_distance a b : Aligned a b 0).eq_of_zero

theorem distance_comm (a b : List α) : distance a b=distance b a :=
  Nat.le_antisymm (aligned_distance b a).symm.distance_le (aligned_distance a b).symm.distance_le

theorem distance_reverse (a b : List α) : distance a.reverse b.reverse=distance a b := by
  refine Nat.le_antisymm (aligned_distance a b).reverse.distance_le ?_
  have h := (aligned_distance a.reverse b.reverse).reverse.distance_le
  rwa [List.reverse_reverse,List.reverse_reverse] at h

theorem distance_nil_left (b : List α) : distance [] b=b.length :=
  (aligned_distance [] b).of_nil_left

theorem distance_nil_right (a : List α) : distance a []=a.length := by
  rw [distance_comm,distance_nil_left]

/-- The distance is at least the difference of the lengths. -/
theorem length_sub_le_distance (a b : List α) :
    (a.length-b.length)+(b.length-a.length)≤distance a b := by
  have hleft := (aligned_distance a b).length_le
  have hright := (aligned_distance a b).symm.length_le
  omega

/-- The recurrence of distances. -/
theorem distance_cons_cons [DecidableEq α] (x y : α) (a b : List α) :
    distance (x::a) (y::b)=
      min (min (distance (x::a) b+1) (distance a (y::b)+1))
        (distance a b+if x=y then 0 else 1) := by
  have hinsert : distance (x::a) (y::b)≤distance (x::a) b+1 :=
    ((aligned_distance (x::a) b).insert y).distance_le
  have hdelete : distance (x::a) (y::b)≤distance a (y::b)+1 :=
    ((aligned_distance a (y::b)).delete x).distance_le
  have hboth : distance (x::a) (y::b)≤distance a b+if x=y then 0 else 1 := by
    split
    · rename_i h
      subst h
      exact ((aligned_distance a b).keep x).distance_le
    · exact ((aligned_distance a b).substitute x y).distance_le
  refine Nat.le_antisymm (Nat.le_min.mpr ⟨Nat.le_min.mpr ⟨hinsert,hdelete⟩,hboth⟩) ?_
  generalize hn : distance (x::a) (y::b)=n
  have h : Aligned (x::a) (y::b) n := hn ▸ aligned_distance (x::a) (y::b)
  cases h with
  | keep _ h =>
    refine (Nat.min_le_right _ _).trans ?_
    rw [if_pos rfl]
    exact h.distance_le
  | substitute _ _ h =>
    refine (Nat.min_le_right _ _).trans ?_
    have hle := h.distance_le
    split <;> omega
  | delete _ h =>
    refine (Nat.min_le_left _ _).trans ((Nat.min_le_right _ _).trans ?_)
    exact Nat.succ_le_succ h.distance_le
  | insert _ h =>
    refine (Nat.min_le_left _ _).trans ((Nat.min_le_left _ _).trans ?_)
    exact Nat.succ_le_succ h.distance_le

/-- Without the first symbol of one word, some rest of the other one is as
close. -/
theorem exists_suffix_distance_le (x : α) (a b : List α) :
    ∃ rest, rest <:+ b ∧ distance a rest≤distance (x::a) b := by
  have h := aligned_distance (x::a) b
  generalize distance (x::a) b=n at h ⊢
  induction b generalizing n with
  | nil =>
    cases h with
    | delete _ h => exact ⟨[],List.suffix_refl _,h.distance_le.trans (Nat.le_succ _)⟩
  | cons y b ih =>
    cases h with
    | keep _ h => exact ⟨b,List.suffix_cons _ _,h.distance_le⟩
    | substitute _ _ h =>
      exact ⟨b,List.suffix_cons _ _,h.distance_le.trans (Nat.le_succ _)⟩
    | delete _ h => exact ⟨y::b,List.suffix_refl _,h.distance_le.trans (Nat.le_succ _)⟩
    | insert _ h =>
      obtain ⟨rest,hrest,hle⟩ := ih _ h
      exact ⟨rest,hrest.trans (List.suffix_cons _ _),hle.trans (Nat.le_succ _)⟩

/-- Without some first symbols of one word, some rest of the other one is as
close. -/
theorem exists_suffix_distance_le_append (front a b : List α) :
    ∃ rest, rest <:+ b ∧ distance a rest≤distance (front++a) b := by
  induction front generalizing b with
  | nil => exact ⟨b,List.suffix_refl _,Nat.le_refl _⟩
  | cons x front ih =>
    obtain ⟨middle,hmiddle,hle⟩ := exists_suffix_distance_le x (front++a) b
    obtain ⟨rest,hrest,hle'⟩ := ih middle
    exact ⟨rest,hrest.trans hmiddle,hle'.trans hle⟩

end Distance

section Table

variable {b p q rest : List α}

/-- A row of the table: the distances of one word to another one with each
front of a third put on, the fronts and the words being written backwards. -/
noncomputable def row (p q b : List α) : List ℕ :=
  b.inits.map fun front => distance p (front.reverse++q)

@[simp] theorem row_nil (p q : List α) : row p q []=[distance p q] := rfl

@[simp] theorem row_cons (p q b : List α) (y : α) :
    row p q (y::b)=distance p q::row p (y::q) b := by
  rw [row,List.inits_cons,List.map_cons,List.map_map,row]
  refine congrArg _ (List.map_congr_left fun front _ => ?_)
  rw [Function.comp_apply,List.reverse_cons,List.append_assoc]
  rfl

/-- A row starts with the word itself. -/
theorem row_eq_cons (p q b : List α) : row p q b=distance p q::(row p q b).tail := by
  cases b with
  | nil => rfl
  | cons y b =>
    rw [row_cons]
    rfl

/-- A row ends with the whole of the third word. -/
theorem getLast?_row (p q b : List α) :
    (row p q b).getLast?=some (distance p (b.reverse++q)) := by
  induction b generalizing q with
  | nil => rfl
  | cons y b ih =>
    rw [row_cons,row_eq_cons,List.getLast?_cons_cons,←row_eq_cons,ih,List.reverse_cons,
      List.append_assoc]
    rfl

/-- The row of the empty word counts. -/
theorem row_nil_left (q b : List α) : row [] q b=List.range' q.length (b.length+1) := by
  induction b generalizing q with
  | nil => rw [row_nil,distance_nil_left]; rfl
  | cons y b ih =>
    rw [row_cons,ih,distance_nil_left,List.length_cons,List.length_cons,←List.range'_succ]

/-- A row has the distances to all rests of the third word backwards. -/
theorem mem_row (h : rest <:+ b.reverse) : distance p rest∈row p [] b := by
  refine List.mem_map.mpr ⟨rest.reverse,?_,by rw [List.reverse_reverse,List.append_nil]⟩
  rw [List.mem_inits]
  have hfront := List.reverse_prefix.mpr h
  rwa [List.reverse_reverse] at hfront

end Table

end ScamLens.EditDistances
