import ScamLens.RegexLanguages

/-!
# Matches of patterns that read runs

A pattern that ends in a greedy repetition of a class, and reads symbols of
that class only, goes on to the end of the run it starts in. What it finds in a
text are the matches that no longer match contains, from left to right.
-/

namespace ScamLens.BacktrackingRegex.Regex

variable {α : Type*}

/-- A pattern that reads symbols of one class, to the end of their run. -/
structure ReadsRuns (r : Regex α) (p : α → Bool) : Prop where
  /-- It reads at least one symbol. -/
  nonempty : ∀ {word}, r.Reads word → word≠[]
  /-- It reads symbols of the class. -/
  within : ∀ {word}, r.Reads word → ∀ c∈word, p c=true
  /-- It may go on in a run. -/
  goesOn : ∀ {word more}, r.Reads word → (∀ c∈more, p c=true) → r.Reads (word++more)
  /-- It does go on to the end of the run. -/
  greedy : ∀ {s rest}, (r.ends s).head?=some rest → rest=s.dropWhile p

/-- A match in a text that no longer match there contains. -/
structure Maximal (r : Regex α) (before found behind : List α) : Prop where
  /-- The pattern reads it. -/
  reads : r.Reads found
  /-- It reads no more of what is around it. -/
  widest : ∀ {front back}, front <:+ before → back <+: behind →
    r.Reads (front++(found++back)) → front=[] ∧ back=[]

/-- A maximal match of a text, with the number of symbols in front of it. -/
def MaximalAt (r : Regex α) (s : List α) (place : ℕ) (found : List α) : Prop :=
  ∃ before behind, s=before++(found++behind) ∧ before.length=place ∧ r.Maximal before found behind

/-- The maximal matches of a text with their places, from left to right. -/
structure Places (r : Regex α) (s : List α) (places : List (ℕ×List α)) : Prop where
  /-- They are the matches that a scan finds. -/
  found : places.map Prod.snd=r.findAll s
  /-- Their places ascend. -/
  sorted : places.Pairwise fun x y => x.1 < y.1
  /-- No maximal match is left out. -/
  mem_iff : ∀ n m, (n,m)∈places ↔ r.MaximalAt s n m

/-- The match that a matcher finds first. -/
structure First (r : Regex α) (before found behind : List α) : Prop where
  /-- It is the preferred one at its place. -/
  preferred : (r.ends (found++behind)).head?=some behind
  /-- No place in front of it has one. -/
  earlier : ∀ {front}, front≠[] → front <:+ before → r.ends (front++(found++behind))=[]

section Patterns

variable {p : α → Bool} {r first : Regex α}

/-- At least one symbol of the class. -/
theorem readsRuns_plus : ReadsRuns (plus p) p where
  nonempty h := (reads_plus_iff.mp h).1
  within h := (reads_plus_iff.mp h).2
  goesOn h hmore := by
    obtain ⟨hne,hall⟩ := reads_plus_iff.mp h
    refine reads_plus_iff.mpr ⟨fun hnil => hne (List.append_eq_nil_iff.mp hnil).1,fun c hc => ?_⟩
    exact (List.mem_append.mp hc).elim (hall c) (hmore c)
  greedy {s rest} h := by
    have hstar (s : List α) : (starEnds p s).head?=some (s.dropWhile p) := by
      induction s with
      | nil => rfl
      | cons c s ih =>
        rw [starEnds,List.dropWhile_cons]
        split
        · rw [List.head?_append,ih]
          rfl
        · rfl
    cases s with
    | nil => exact absurd h (Option.some_ne_none rest).symm
    | cons c s =>
      rw [plus,ends,ends] at h
      split at h
      · rename_i hc
        rw [List.flatMap_singleton,ends,hstar] at h
        rw [List.dropWhile_cons,if_pos hc,Option.some.inj h]
      · exact absurd h (Option.some_ne_none rest).symm

/-- Symbols of the class in front of a pattern that reads runs. -/
theorem readsRuns_seq (hfirst : ∀ {word}, first.Reads word → ∀ c∈word, p c=true)
    (h : ReadsRuns r p) : ReadsRuns (seq first r) p where
  nonempty := by
    rintro - ⟨front,back,rfl,-,hback⟩ hnil
    exact h.nonempty hback (List.append_eq_nil_iff.mp hnil).2
  within := by
    rintro - ⟨front,back,rfl,hfront,hback⟩ c hc
    exact (List.mem_append.mp hc).elim (hfirst hfront c) (h.within hback c)
  goesOn := by
    rintro - more ⟨front,back,rfl,hfront,hback⟩ hmore
    exact ⟨front,back++more,List.append_assoc _ _ _,hfront,h.goesOn hback hmore⟩
  greedy {s rest} hhead := by
    rw [ends,List.head?_flatMap] at hhead
    obtain ⟨middle,hmiddle,hrest⟩ := List.exists_of_findSome?_eq_some hhead
    obtain ⟨front,rfl,hfront⟩ := mem_ends_iff.mp hmiddle
    rw [h.greedy hrest,List.dropWhile_append_of_pos (hfirst hfront)]

/-- Nothing behind a pattern that reads runs. -/
theorem readsRuns_seq_empty (h : ReadsRuns r p) : ReadsRuns (seq r empty) p := by
  have hreads {word : List α} : (seq r empty).Reads word ↔ r.Reads word := by
    constructor
    · rintro ⟨front,back,rfl,hfront,rfl⟩
      rwa [List.append_nil]
    · exact fun hword => ⟨word,[],(List.append_nil word).symm,hword,rfl⟩
  have hends (s : List α) : (seq r empty).ends s=r.ends s := by
    rw [ends]
    exact List.flatMap_singleton' _
  exact {
    nonempty := fun hword => h.nonempty (hreads.mp hword)
    within := fun hword => h.within (hreads.mp hword)
    goesOn := fun hword hmore => hreads.mpr (h.goesOn (hreads.mp hword) hmore)
    greedy := fun hhead => h.greedy (by rwa [hends] at hhead) }

end Patterns

section Texts

variable {p : α → Bool} {r : Regex α} {s before found behind word : List α} {place : ℕ}

/-- Where a match has to end, what follows is not of the class. -/
theorem First.stops (h : ReadsRuns r p) (hfirst : r.First before found behind) :
    ∀ c∈behind.head?, p c=false := by
  intro c hc
  have hdrop := List.head?_dropWhile_not p (found++behind)
  rw [←h.greedy hfirst.preferred,Option.mem_def.mp hc] at hdrop
  exact hdrop

/-- What is found first is read. -/
theorem First.reads (hfirst : r.First before found behind) : r.Reads found := by
  obtain ⟨front,hfront,hreads⟩ := mem_ends_iff.mp (List.mem_of_head? hfirst.preferred)
  rwa [List.append_cancel_right hfront]

/-- A prefix of text that does not go on with the class is empty if it is of
the class. -/
theorem eq_nil_of_stops {more : List α} (hstops : ∀ c∈behind.head?, p c=false)
    (hmore : more <+: behind) (hall : ∀ c∈more, p c=true) : more=[] := by
  cases more with
  | nil => rfl
  | cons c more =>
    obtain ⟨rest,rfl⟩ := hmore
    have htrue := hall c List.mem_cons_self
    rw [hstops c rfl] at htrue
    exact absurd htrue Bool.false_ne_true

/-- What is found first is maximal. -/
theorem First.maximal (h : ReadsRuns r p) (hfirst : r.First before found behind) :
    r.Maximal before found behind where
  reads := hfirst.reads
  widest {front back} hfront hback hreads := by
    have hnil : back=[] := by
      refine eq_nil_of_stops (hfirst.stops h) hback fun c hc => h.within hreads c ?_
      exact List.mem_append_right _ (List.mem_append_right _ hc)
    refine ⟨?_,hnil⟩
    by_contra hne
    have hends := hfirst.earlier hne hfront
    rw [hnil,List.append_nil] at hreads
    have hmem : behind∈r.ends (front++(found++behind)) :=
      mem_ends_iff.mpr ⟨front++found,(List.append_assoc _ _ _).symm,hreads⟩
    rw [hends] at hmem
    exact absurd hmem List.not_mem_nil

/-- Two maximal matches at one place are the same. -/
theorem Maximal.eq_found {found' behind' : List α}
    (hmaximal : r.Maximal before found behind) (hmaximal' : r.Maximal before found' behind')
    (heq : found++behind=found'++behind') : found=found' := by
  have hshorter {found behind found' more : List α} (hmaximal : r.Maximal before found behind)
      (hreads : r.Reads found') (hfound : found'=found++more) (hbehind : more <+: behind) :
      found=found' := by
    have hnil := (hmaximal.widest List.nil_suffix hbehind (by rwa [←hfound])).2
    rw [hfound,hnil,List.append_nil]
  rcases List.append_eq_append_iff.mp heq with ⟨more,hfound,hbehind⟩|⟨more,hfound,hbehind⟩
  · exact hshorter hmaximal hmaximal'.reads hfound ⟨_,hbehind.symm⟩
  · exact (hshorter hmaximal' hmaximal.reads hfound ⟨_,hbehind.symm⟩).symm

/-- Text in front that does not go on into a match does not change whether it
is maximal. -/
theorem maximal_append_iff {front : List α} (h : ReadsRuns r p)
    (hstops : ∀ c∈(before++(found++behind)).head?, p c=false) :
    r.Maximal (front++before) found behind ↔ r.Maximal before found behind := by
  constructor
  · exact fun hmaximal => ⟨hmaximal.reads,fun hfront => hmaximal.widest
      (hfront.trans (List.suffix_append front before))⟩
  · refine fun hmaximal => ⟨hmaximal.reads,fun {wider back} hwider hback hreads => ?_⟩
    rcases List.suffix_or_suffix_of_suffix hwider (List.suffix_append front before) with
      hinner|⟨outer,rfl⟩
    · exact hmaximal.widest hinner hback hreads
    · have hnil : before++found=[] := by
        refine eq_nil_of_stops hstops ⟨behind,List.append_assoc _ _ _⟩ fun c hc => ?_
        refine h.within hreads c ?_
        rcases List.mem_append.mp hc with hc|hc
        · exact List.mem_append_left _ (List.mem_append_right _ hc)
        · exact List.mem_append_right _ (List.mem_append_left _ hc)
      exact absurd (List.append_eq_nil_iff.mp hnil).2 (h.nonempty hmaximal.reads)

/-- No maximal match starts in front of the one found first. -/
theorem First.nil_of_earlier {before' gap found' behind' : List α}
    (hfirst : r.First (before'++gap) found behind) (hreads : r.Reads found')
    (heq : found'++behind'=gap++(found++behind)) : gap=[] := by
  by_contra hne
  have hmem : behind'∈r.ends (gap++(found++behind)) := mem_ends_iff.mpr ⟨found',heq.symm,hreads⟩
  rw [hfirst.earlier hne (List.suffix_append before' gap)] at hmem
  exact absurd hmem List.not_mem_nil

/-- No maximal match starts inside of the one found first. -/
theorem nil_of_inside {gap inner found' behind' : List α} (h : ReadsRuns r p)
    (hreads : r.Reads (gap++inner)) (hmaximal : r.Maximal (before++gap) found' behind')
    (heq : found'++behind'=inner++behind) : gap=[] := by
  have hgap : gap <:+ before++gap := List.suffix_append before gap
  rcases List.append_eq_append_iff.mp heq with ⟨more,rfl,rfl⟩|⟨more,rfl,rfl⟩
  · exact (hmaximal.widest hgap (List.prefix_append more behind) hreads).1
  · have hmore : ∀ c∈more, p c=true := fun c hc =>
      h.within hmaximal.reads c (List.mem_append_right _ hc)
    refine (hmaximal.widest hgap List.nil_prefix ?_).1
    rw [List.append_nil,←List.append_assoc]
    exact h.goesOn hreads hmore

/-- A maximal match is the one found first, or a maximal match behind it. -/
theorem First.maximalAt_iff {n : ℕ} {m : List α} (h : ReadsRuns r p)
    (hfirst : r.First before found behind) :
    r.MaximalAt (before++(found++behind)) n m ↔
      (n=before.length ∧ m=found) ∨
        ∃ k, r.MaximalAt behind k m ∧ n=k+(before++found).length := by
  have hmax := hfirst.maximal h
  have hstops := hfirst.stops h
  constructor
  · rintro ⟨before',behind',heq,rfl,hmaximal⟩
    have hsame (hbefore : before'=before) : before'.length=before.length ∧ m=found := by
      subst hbefore
      exact ⟨rfl,(hmax.eq_found hmaximal (List.append_cancel_left heq)).symm⟩
    rcases List.append_eq_append_iff.mp heq with ⟨gap,rfl,hrest⟩|⟨gap,rfl,hrest⟩
    · rcases List.append_eq_append_iff.mp hrest with ⟨inner,rfl,hbehind⟩|⟨inner,rfl,hinner⟩
      · rw [hbehind] at hstops
        rw [←List.append_assoc] at hmaximal ⊢
        refine .inr ⟨inner.length,⟨inner,behind',hbehind,rfl,?_⟩,?_⟩
        · exact (maximal_append_iff h hstops).mp hmaximal
        · rw [List.length_append,Nat.add_comm]
      · have hgap := nil_of_inside h hfirst.reads hmaximal hinner
        exact .inl (hsame (by rw [hgap,List.append_nil]))
    · have hgap := hfirst.nil_of_earlier hmaximal.reads hrest
      exact .inl (hsame (by rw [hgap,List.append_nil]))
  · rintro (⟨rfl,rfl⟩|⟨k,⟨before',behind',rfl,rfl,hmaximal⟩,rfl⟩)
    · exact ⟨before,behind,rfl,rfl,hmax⟩
    · refine ⟨(before++found)++before',behind',?_,?_,(maximal_append_iff h hstops).mpr hmaximal⟩
      · simp only [List.append_assoc]
      · rw [List.length_append,Nat.add_comm]

/-- The counter of a scan skips symbols. -/
theorem findAllFrom_eq_findAll_drop (skip : ℕ) : r.findAllFrom skip s=r.findAll (s.drop skip) := by
  induction skip generalizing s with
  | zero => rfl
  | succ skip ih =>
    cases s with
    | nil => rfl
    | cons c s => exact ih

/-- A preferred match at the start of the text is the first one. -/
theorem First.of_head (hhead : (r.ends (found++behind)).head?=some behind) :
    r.First [] found behind :=
  ⟨hhead,fun hne hnil => absurd (List.suffix_nil.mp hnil) hne⟩

/-- A match at the start of the text is found, and the scan goes on behind it. -/
theorem findAll_append (h : ReadsRuns r p) (hhead : (r.ends (found++behind)).head?=some behind) :
    r.findAll (found++behind)=found::r.findAll behind := by
  have hne : found≠[] := h.nonempty (First.of_head hhead).reads
  obtain ⟨c,front,rfl⟩ := List.exists_cons_of_ne_nil hne
  have hlength : (front++behind).length-behind.length=front.length := by
    rw [List.length_append]
    omega
  have htake : (front++behind).length+1-behind.length=(c::front).length := by
    rw [List.length_append,List.length_cons]
    omega
  rw [List.cons_append] at hhead
  rw [findAll,List.cons_append,findAllFrom,hhead]
  dsimp only
  rw [htake,hlength,findAllFrom_eq_findAll_drop,List.drop_left,←List.cons_append,List.take_left]

/-- A place without a match is passed over. -/
theorem findAll_cons {c : α} (hends : r.ends (c::s)=[]) : r.findAll (c::s)=r.findAll s := by
  rw [findAll,findAllFrom,hends]
  rfl

/-- A scan finds nothing, or the first match and what it finds behind it. -/
theorem findAll_cases (h : ReadsRuns r p) (s : List α) :
    (r.findAll s=[] ∧ ∀ tail, tail <:+ s → r.ends tail=[]) ∨
      ∃ before found behind, s=before++(found++behind) ∧ r.First before found behind ∧
        r.findAll s=found::r.findAll behind := by
  have hfront {s rest : List α} (hhead : (r.ends s).head?=some rest) : ∃ found, s=found++rest :=
    let ⟨found,hfound,_⟩ := mem_ends_iff.mp (List.mem_of_head? hhead)
    ⟨found,hfound⟩
  induction s with
  | nil =>
    refine .inl ⟨rfl,fun tail htail => ?_⟩
    rw [List.suffix_nil.mp htail]
    refine List.eq_nil_iff_forall_not_mem.mpr fun rest hrest => ?_
    obtain ⟨found,hfound,hreads⟩ := mem_ends_iff.mp hrest
    exact h.nonempty hreads (List.append_eq_nil_iff.mp hfound.symm).1
  | cons c s ih =>
    cases hhead : (r.ends (c::s)).head? with
    | some rest =>
      obtain ⟨found,hfound⟩ := hfront hhead
      rw [hfound] at hhead ⊢
      exact .inr ⟨[],found,rest,rfl,.of_head hhead,findAll_append h hhead⟩
    | none =>
      have hends := List.head?_eq_none_iff.mp hhead
      rw [findAll_cons hends]
      rcases ih with ⟨hnil,hnone⟩|⟨before,found,behind,rfl,hfirst,hfind⟩
      · refine .inl ⟨hnil,fun tail htail => ?_⟩
        rcases List.suffix_cons_iff.mp htail with rfl|htail
        · exact hends
        · exact hnone tail htail
      · refine .inr ⟨c::before,found,behind,rfl,⟨hfirst.preferred,?_⟩,hfind⟩
        intro front hne hfront
        rcases List.suffix_cons_iff.mp hfront with rfl|hfront
        · exact hends
        · exact hfirst.earlier hne hfront

/-- The places of a text are the first one and the ones behind it. -/
theorem First.places {places : List (ℕ×List α)} (h : ReadsRuns r p)
    (hfirst : r.First before found behind)
    (hfind : r.findAll (before++(found++behind))=found::r.findAll behind)
    (hplaces : r.Places behind places) :
    r.Places (before++(found++behind)) ((before.length,found)::
      places.map fun x => (x.1+(before++found).length,x.2)) where
  found := by
    rw [hfind,List.map_cons,List.map_map,←hplaces.found]
    rfl
  sorted := by
    refine List.pairwise_cons.mpr ⟨?_,List.pairwise_map.mpr (hplaces.sorted.imp ?_)⟩
    · intro x hx
      obtain ⟨y,-,rfl⟩ := List.mem_map.mp hx
      have hpos : 0 < found.length := List.length_pos_of_ne_nil (h.nonempty hfirst.reads)
      rw [List.length_append]
      omega
    · exact fun hlt => Nat.add_lt_add_right hlt _
  mem_iff n m := by
    rw [hfirst.maximalAt_iff h,List.mem_cons,Prod.mk.injEq,List.mem_map]
    refine or_congr Iff.rfl ⟨?_,?_⟩
    · rintro ⟨x,hx,hshift⟩
      obtain ⟨rfl,rfl⟩ := Prod.mk.inj hshift
      exact ⟨x.1,(hplaces.mem_iff _ _).mp hx,rfl⟩
    · rintro ⟨k,hk,rfl⟩
      exact ⟨(k,m),(hplaces.mem_iff _ _).mpr hk,rfl⟩

/-- A scan finds the maximal matches, from left to right. -/
theorem exists_places (h : ReadsRuns r p) (s : List α) : ∃ places, r.Places s places := by
  induction hlength : s.length using Nat.strong_induction_on generalizing s with
  | _ length ih =>
    rcases findAll_cases h s with ⟨hfind,hnone⟩|⟨before,found,behind,rfl,hfirst,hfind⟩
    · refine ⟨[],hfind.symm,.nil,fun n m => ⟨fun hm => absurd hm List.not_mem_nil,?_⟩⟩
      rintro ⟨before,behind,rfl,-,hmaximal⟩
      have hmem : behind∈r.ends (m++behind) := mem_ends_iff.mpr ⟨m,rfl,hmaximal.reads⟩
      rw [hnone _ (List.suffix_append before _)] at hmem
      exact absurd hmem List.not_mem_nil
    · have hpos : 0 < found.length := List.length_pos_of_ne_nil (h.nonempty hfirst.reads)
      have hshorter : behind.length < length := by
        rw [←hlength,List.length_append,List.length_append]
        omega
      obtain ⟨places,hplaces⟩ := ih behind.length hshorter behind rfl
      exact ⟨_,hfirst.places h hfind hplaces⟩

/-- A word that the pattern reads is its preferred match where no symbol of the
class follows. -/
theorem head?_ends (h : ReadsRuns r p) (hreads : r.Reads word)
    (hstops : ∀ c∈behind.head?, p c=false) : (r.ends (word++behind)).head?=some behind := by
  have hmem : behind∈r.ends (word++behind) := mem_ends_iff.mpr ⟨word,rfl,hreads⟩
  obtain ⟨rest,hhead⟩ := Option.ne_none_iff_exists'.mp
    (mt List.head?_eq_none_iff.mp (List.ne_nil_of_mem hmem))
  have hdrop : behind.dropWhile p=behind := by
    cases behind with
    | nil => rfl
    | cons c behind => rw [List.dropWhile_cons,hstops c rfl,if_neg Bool.false_ne_true]
  rw [hhead,h.greedy hhead,List.dropWhile_append_of_pos (h.within hreads),hdrop]

/-- No match starts at a symbol that is not of the class. -/
theorem ends_cons {c : α} (h : ReadsRuns r p) (hc : p c=false) (s : List α) :
    r.ends (c::s)=[] := by
  refine List.eq_nil_iff_forall_not_mem.mpr fun rest hrest => ?_
  obtain ⟨word,hword,hreads⟩ := mem_ends_iff.mp hrest
  obtain ⟨d,front,rfl⟩ := List.exists_cons_of_ne_nil (h.nonempty hreads)
  obtain ⟨rfl,-⟩ := List.cons.inj hword
  rw [h.within hreads c List.mem_cons_self] at hc
  exact absurd hc.symm Bool.false_ne_true

/-- Words that the pattern reads are found again behind one another, with a
symbol that is not of the class between them. -/
theorem findAll_intercalate {c : α} (h : ReadsRuns r p) (hc : p c=false) {words : List (List α)}
    (hwords : ∀ word∈words, r.Reads word) : r.findAll ([c].intercalate words)=words := by
  induction words with
  | nil => rfl
  | cons word words ih =>
    obtain ⟨hreads,hwords⟩ := List.forall_mem_cons.mp hwords
    cases words with
    | nil =>
      have hhead : (r.ends (word++[])).head?=some [] := head?_ends h hreads fun c hc => nomatch hc
      have hfind := findAll_append h hhead
      rw [List.append_nil] at hfind
      rw [List.intercalate_singleton,hfind]
      rfl
    | cons next words =>
      have hstops : ∀ d∈(c::[c].intercalate (next::words)).head?, p d=false := by
        rintro d ⟨rfl⟩
        exact hc
      rw [List.intercalate_cons_cons,List.append_assoc,List.singleton_append,
        findAll_append h (head?_ends h hreads hstops),findAll_cons (ends_cons h hc _),ih hwords]

end Texts

end ScamLens.BacktrackingRegex.Regex
