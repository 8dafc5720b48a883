import ScamLens.RegexLanguages

/-!
# Counting matches that do not overlap

Taking matches from left to right finds as many of them as there can be, if a
match that starts later never ends earlier: the match that was taken leaves all
the room that any other choice leaves. More text around a text then cannot
lower the count, although a match across the seam may displace another one.
-/

namespace ScamLens.MatchCounts

open BacktrackingRegex Regex

variable {α : Type*}

section Growth

variable {p : α → Bool} {r : Regex α} {rest s : List α}

/-- A repetition may stop where it may stop in front of more text. -/
theorem mem_starEnds_append (h : rest∈starEnds p s) (post : List α) :
    rest++post∈starEnds p (s++post) := by
  have hall (text : List α) : text∈starEnds p text := by
    cases text with
    | nil => exact List.mem_cons_self
    | cons c text =>
      rw [starEnds]
      split
      · exact List.mem_append_right _ List.mem_cons_self
      · exact List.mem_cons_self
  induction s with
  | nil =>
    rw [List.mem_singleton.mp h]
    exact hall post
  | cons c s ih =>
    rw [starEnds] at h
    rw [List.cons_append,starEnds]
    split at h
    · rename_i hc
      rw [if_pos hc]
      rcases List.mem_append.mp h with h|h
      · exact List.mem_append_left _ (ih h)
      · rw [List.mem_singleton.mp h]
        exact List.mem_append_right _ List.mem_cons_self
    · rename_i hc
      rw [if_neg hc,List.mem_singleton.mp h]
      exact List.mem_cons_self

/-- So may a lazy one. -/
theorem mem_lazyStarEnds_append (h : rest∈lazyStarEnds p s) (post : List α) :
    rest++post∈lazyStarEnds p (s++post) := by
  induction s with
  | nil =>
    rw [List.mem_singleton.mp h]
    cases post <;> exact List.mem_cons_self
  | cons c s ih =>
    rw [lazyStarEnds] at h
    rw [List.cons_append,lazyStarEnds]
    rcases List.mem_cons.mp h with rfl|h
    · exact List.mem_cons_self
    · split at h
      · rename_i hc
        rw [if_pos hc]
        exact List.mem_cons_of_mem _ (ih h)
      · exact absurd h List.not_mem_nil

/-- What matches in a text matches in front of more text. -/
theorem mem_ends_append (h : rest∈r.ends s) (post : List α) :
    rest++post∈r.ends (s++post) := by
  induction r generalizing s rest with
  | empty =>
    rw [List.mem_singleton.mp h]
    exact List.mem_cons_self
  | symbol p =>
    cases s with
    | nil => exact absurd h List.not_mem_nil
    | cons c s =>
      rw [ends] at h
      rw [List.cons_append,ends]
      split at h
      · rename_i hc
        rw [if_pos hc,List.mem_singleton.mp h]
        exact List.mem_cons_self
      · exact absurd h List.not_mem_nil
  | seq first second ihf ihs =>
    obtain ⟨middle,hmiddle,hrest⟩ := List.mem_flatMap.mp h
    exact List.mem_flatMap.mpr ⟨middle++post,ihf hmiddle,ihs hrest⟩
  | alt first second ihf ihs =>
    rcases List.mem_append.mp h with h|h
    · exact List.mem_append_left _ (ihf h)
    · exact List.mem_append_right _ (ihs h)
  | star p => exact mem_starEnds_append h post
  | lazyStar p => exact mem_lazyStarEnds_append h post

/-- A search finds a match at some place. -/
theorem search_iff : r.search s=true ↔ ∃ tail rest, tail <:+ s ∧ rest∈r.ends tail := by
  rw [search,List.any_eq_true]
  constructor
  · rintro ⟨tail,htail,hne⟩
    rw [Bool.not_eq_true',List.isEmpty_eq_false_iff_exists_mem] at hne
    obtain ⟨rest,hrest⟩ := hne
    exact ⟨tail,rest,(List.mem_tails _ _).mp htail,hrest⟩
  · rintro ⟨tail,rest,htail,hrest⟩
    refine ⟨tail,(List.mem_tails _ _).mpr htail,?_⟩
    rw [Bool.not_eq_true',List.isEmpty_eq_false_iff_exists_mem]
    exact ⟨rest,hrest⟩

/-- What is found in a text is found in a text around it. -/
theorem search_padded (h : r.search s=true) (pre post : List α) :
    r.search (pre++s++post)=true := by
  obtain ⟨tail,rest,⟨front,rfl⟩,hrest⟩ := search_iff.mp h
  refine search_iff.mpr ⟨tail++post,rest++post,?_,mem_ends_append hrest post⟩
  rw [List.append_assoc,List.append_assoc]
  exact (List.suffix_append _ _).trans (List.suffix_append _ _)

end Growth

/-- A text has at least the given number of matches one behind the other. -/
inductive Matches (r : Regex α) : List α → ℕ → Prop
  | none (s : List α) : Matches r s 0
  | skip (c : α) {s : List α} {n : ℕ} (h : Matches r s n) : Matches r (c::s) n
  | take {s rest : List α} {n : ℕ} (hends : rest∈r.ends s) (h : Matches r rest n) :
      Matches r s (n+1)

namespace Matches

variable {r : Regex α} {s : List α} {n : ℕ}

/-- Text in front may be skipped. -/
theorem prepend (h : Matches r s n) (pre : List α) : Matches r (pre++s) n := by
  induction pre with
  | nil => exact h
  | cons c pre ih => exact ih.skip c

/-- Text behind does no harm. -/
theorem append (h : Matches r s n) (post : List α) : Matches r (s++post) n := by
  induction h with
  | none s => exact .none _
  | skip c _ ih => exact ih.skip c
  | take hends _ ih => exact .take (mem_ends_append hends post) ih

/-- The first of the matches. -/
theorem first (h : Matches r s (n+1)) :
    ∃ tail rest, tail <:+ s ∧ rest∈r.ends tail ∧ Matches r rest n := by
  generalize hm : n+1=m at h
  induction h with
  | none s => cases hm
  | skip c _ ih =>
    obtain ⟨tail,rest,htail,hrest⟩ := ih hm
    exact ⟨tail,rest,htail.trans (List.suffix_cons _ _),hrest⟩
  | @take s rest k hends h =>
    obtain rfl : n=k := Nat.succ.inj hm
    exact ⟨s,rest,List.suffix_refl s,hends,h⟩

end Matches

/-- A match that starts later never ends earlier, and no match is empty. -/
structure Ordered (r : Regex α) : Prop where
  /-- The later match leaves no more. -/
  later : ∀ {s t rest rest' : List α}, rest∈r.ends s → t <:+ s → rest'∈r.ends t →
    rest'.length ≤ rest.length
  /-- A match reads something. -/
  nonempty : ∀ {s rest : List α}, rest∈r.ends s → rest.length < s.length

section Count

variable {r : Regex α} {s : List α} {n : ℕ}

/-- Counting skips what is left of the last match. -/
theorem countFrom_eq_count_drop (r : Regex α) (skip : ℕ) (s : List α) :
    countFrom r skip s=count r (s.drop skip) := by
  induction s generalizing skip with
  | nil => rw [List.drop_nil,count,countFrom,countFrom]
  | cons c s ih =>
    cases skip with
    | zero => rfl
    | succ skip => rw [countFrom,ih,List.drop_succ_cons]

/-- A match at the start is counted, and the count goes on behind it. -/
theorem count_of_head (hr : Ordered r) {rest : List α} (h : (r.ends s).head?=some rest) :
    count r s=1+count r rest := by
  have hends := List.mem_of_head? h
  have hlt := hr.nonempty hends
  obtain ⟨front,hfront⟩ := suffix_of_mem_ends hends
  cases s with
  | nil => exact absurd hlt (Nat.not_lt_zero _)
  | cons c s =>
    have hcount : count r (c::s)=1+countFrom r (s.length-rest.length) s := by
      rw [count,countFrom,h]
    cases front with
    | nil =>
      rw [List.nil_append] at hfront
      rw [hfront] at hlt
      exact absurd hlt (Nat.lt_irrefl _)
    | cons d front =>
      rw [List.cons_append] at hfront
      obtain ⟨-,hs⟩ := List.cons.inj hfront
      have hlen : s.length-rest.length=front.length := by
        rw [←hs,List.length_append,Nat.add_sub_cancel]
      rw [hcount,countFrom_eq_count_drop,hlen,←hs,List.drop_left]

/-- Without a match at the start the count goes on behind the first symbol. -/
theorem count_of_no_head {c : α} (h : (r.ends (c::s)).head?=none) :
    count r (c::s)=count r s := by
  rw [count,countFrom,h,count]

/-- As many matches as are counted can be found one behind the other. -/
theorem matches_count (hr : Ordered r) (s : List α) : Matches r s (count r s) := by
  induction hlen : s.length using Nat.strong_induction_on generalizing s with
  | _ len ih =>
    cases s with
    | nil => exact .none []
    | cons c s =>
      cases hends : (r.ends (c::s)).head? with
      | none =>
        rw [count_of_no_head hends]
        exact (ih s.length (by rw [←hlen]; exact Nat.lt_succ_self _) s rfl).skip c
      | some rest =>
        have hmem := List.mem_of_head? hends
        rw [count_of_head hr hends,Nat.add_comm]
        exact .take hmem (ih rest.length (hlen ▸ hr.nonempty hmem) rest rfl)

/-- No choice of matches one behind the other has more of them. -/
theorem Matches.le_count (hr : Ordered r) (h : Matches r s n) : n ≤ count r s := by
  induction hlen : s.length using Nat.strong_induction_on generalizing s n with
  | _ len ih =>
    cases n with
    | zero => exact Nat.zero_le _
    | succ n =>
      obtain ⟨tail,rest,htail,hrest,hmore⟩ := h.first
      cases s with
      | nil =>
        rw [List.suffix_nil.mp htail] at hrest
        exact absurd (hr.nonempty hrest) (Nat.not_lt_zero _)
      | cons c s =>
        cases hends : (r.ends (c::s)).head? with
        | some taken =>
          have hmem := List.mem_of_head? hends
          have hsuffix : rest <:+ taken := List.suffix_of_suffix_length_le
            ((suffix_of_mem_ends hrest).trans htail) (suffix_of_mem_ends hmem)
            (hr.later hmem htail hrest)
          obtain ⟨front,rfl⟩ := hsuffix
          have hle := ih _ (hlen ▸ hr.nonempty hmem) (hmore.prepend front) rfl
          rw [count_of_head hr hends]
          omega
        | none =>
          rw [count_of_no_head hends]
          have hbehind : tail <:+ s := by
            refine (List.suffix_cons_iff.mp htail).resolve_left fun he => ?_
            rw [List.head?_eq_none_iff,←he] at hends
            rw [hends] at hrest
            exact List.not_mem_nil hrest
          obtain ⟨front,rfl⟩ := hbehind
          have hall : Matches r (front++tail) (n+1) :=
            (Matches.take hrest hmore).prepend front
          exact ih _ (by rw [←hlen]; exact Nat.lt_succ_self _) hall rfl

/-- A text around a text has no fewer matches. -/
theorem count_padded (hr : Ordered r) (pre s post : List α) :
    count r s ≤ count r (pre++s++post) :=
  (((matches_count hr s).prepend pre).append post).le_count hr

end Count

section Words

variable {front word : List α} {choices inner : List (List α)}

/-- Symbols that are each one of a list of choices. -/
def Spells (choices : List (List α)) (word : List α) : Prop :=
  List.Forall₂ (fun cs c => c∈cs) choices word

/-- Choices that no symbol meets at some place. -/
def Conflict (choices inner : List (List α)) : Prop :=
  ∃ pair∈choices.zip inner, ∀ c∈pair.1, c∉pair.2

instance [DecidableEq α] (choices inner : List (List α)) : Decidable (Conflict choices inner) :=
  inferInstanceAs (Decidable (∃ pair∈choices.zip inner, ∀ c∈pair.1, c∉pair.2))

/-- A word and what it starts with have no conflict. -/
theorem Spells.not_conflict {back : List α} (h : Spells choices (front++back))
    (k : Spells inner front) : ¬Conflict choices inner := by
  rintro ⟨pair,hpair,hnone⟩
  induction k generalizing choices with
  | nil =>
    rw [List.zip_nil_right] at hpair
    exact List.not_mem_nil hpair
  | cons hc _ ih =>
    cases h with
    | cons hd h =>
      rcases List.mem_cons.mp hpair with rfl|hpair
      · exact hnone _ hd hc
      · exact ih h hpair

/-- A pattern that reads words of choices which conflict wherever one would end
inside another one. -/
theorem ordered_of_conflict {r : Regex α} {table : List (List (List α))}
    (hreads : ∀ {s rest}, rest∈r.ends s → ∃ choices∈table, ∃ word, s=word++rest ∧
      Spells choices word)
    (hlong : ∀ choices∈table, choices≠[])
    (hinside : ∀ choices∈table, ∀ inner∈table, ∀ k < choices.length,
      k+inner.length < choices.length → Conflict (choices.drop k) inner) : Ordered r where
  later := by
    intro s t rest rest' hrest ht hrest'
    obtain ⟨choices,hchoices,word,rfl,hword⟩ := hreads hrest
    obtain ⟨inner,hinner,word',rfl,hword'⟩ := hreads hrest'
    obtain ⟨skipped,hskipped⟩ := ht
    by_contra hlt
    have hlengths := congrArg List.length hskipped
    rw [List.length_append,List.length_append,List.length_append] at hlengths
    have hlen : choices.length=word.length := hword.length_eq
    have hlen' : inner.length=word'.length := hword'.length_eq
    have hfits : skipped++word' <+: word := by
      refine List.prefix_of_prefix_length_le ?_ (List.prefix_append word rest) ?_
      · rw [←hskipped,←List.append_assoc]
        exact List.prefix_append _ _
      · rw [List.length_append]
        omega
    obtain ⟨back,rfl⟩ := hfits
    simp only [List.length_append] at hlen hlengths
    have hdrop : Spells (choices.drop skipped.length) (word'++back) := by
      have h := List.forall₂_drop skipped.length hword
      rwa [List.append_assoc,List.drop_left] at h
    refine hdrop.not_conflict hword' (hinside choices hchoices inner hinner _ ?_ ?_)
    · omega
    · omega
  nonempty := by
    intro s rest hrest
    obtain ⟨choices,hchoices,word,rfl,hword⟩ := hreads hrest
    have hlen : choices.length=word.length := hword.length_eq
    have hpos := List.length_pos_of_ne_nil (hlong choices hchoices)
    rw [List.length_append]
    omega

end Words

end ScamLens.MatchCounts
