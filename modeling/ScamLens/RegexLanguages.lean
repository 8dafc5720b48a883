import ScamLens.BacktrackingRegex

/-!
# Languages of backtracking regular expressions

Which texts a pattern reads, apart from the order in which a matcher tries
them. What a match may leave over is what follows a text of the language, so
statements about matches become statements about words.
-/

namespace ScamLens.BacktrackingRegex.Regex

variable {α : Type*}

/-- The texts that a pattern reads. -/
def Reads : Regex α → List α → Prop
  | empty,word => word=[]
  | symbol p,word => ∃ c, word=[c] ∧ p c=true
  | seq first second,word => ∃ front back, word=front++back ∧ first.Reads front ∧ second.Reads back
  | alt first second,word => first.Reads word ∨ second.Reads word
  | star p,word => ∀ c∈word, p c=true
  | lazyStar p,word => ∀ c∈word, p c=true

variable {p : α → Bool} {r : Regex α} {s rest word : List α}

/-- A repetition reads symbols of its class. -/
theorem mem_starEnds (h : rest∈starEnds p s) :
    ∃ front, s=front++rest ∧ ∀ c∈front, p c=true := by
  induction s with
  | nil => exact ⟨[],(List.mem_singleton.mp h).symm,fun c hc => absurd hc List.not_mem_nil⟩
  | cons c s ih =>
    rw [starEnds] at h
    split at h
    · rename_i hc
      rcases List.mem_append.mp h with h|h
      · obtain ⟨front,hs,hall⟩ := ih h
        exact ⟨c::front,by rw [hs,List.cons_append],List.forall_mem_cons.mpr ⟨hc,hall⟩⟩
      · exact ⟨[],(List.mem_singleton.mp h).symm,fun c hc => absurd hc List.not_mem_nil⟩
    · exact ⟨[],(List.mem_singleton.mp h).symm,fun c hc => absurd hc List.not_mem_nil⟩

/-- What a repetition may leave over follows symbols of its class. -/
theorem mem_starEnds_iff :
    rest∈starEnds p s ↔ ∃ front, s=front++rest ∧ ∀ c∈front, p c=true := by
  refine ⟨mem_starEnds,?_⟩
  rintro ⟨front,rfl,hall⟩
  induction front with
  | nil =>
    cases rest with
    | nil => exact List.mem_singleton_self _
    | cons c rest =>
      rw [List.nil_append,starEnds]
      split
      · exact List.mem_append_right _ (List.mem_singleton_self _)
      · exact List.mem_singleton_self _
  | cons c front ih =>
    obtain ⟨hc,hfront⟩ := List.forall_mem_cons.mp hall
    rw [List.cons_append,starEnds,if_pos hc]
    exact List.mem_append_left _ (ih hfront)

/-- A lazy repetition may leave over the same. -/
theorem mem_lazyStarEnds_iff :
    rest∈lazyStarEnds p s ↔ ∃ front, s=front++rest ∧ ∀ c∈front, p c=true := by
  induction s with
  | nil =>
    rw [lazyStarEnds,List.mem_singleton]
    constructor
    · rintro rfl
      exact ⟨[],rfl,fun c hc => absurd hc List.not_mem_nil⟩
    · rintro ⟨front,hfront,-⟩
      exact (List.append_eq_nil_iff.mp hfront.symm).2
  | cons c s ih =>
    rw [lazyStarEnds,List.mem_cons]
    constructor
    · rintro (rfl|h)
      · exact ⟨[],rfl,fun c hc => absurd hc List.not_mem_nil⟩
      · split at h
        · rename_i hc
          obtain ⟨front,rfl,hall⟩ := ih.mp h
          exact ⟨c::front,rfl,List.forall_mem_cons.mpr ⟨hc,hall⟩⟩
        · exact absurd h List.not_mem_nil
    · rintro ⟨front,hfront,hall⟩
      cases front with
      | nil => exact .inl hfront.symm
      | cons d front =>
        obtain ⟨rfl,hs⟩ := List.cons.inj hfront
        obtain ⟨hc,hall⟩ := List.forall_mem_cons.mp hall
        rw [if_pos hc]
        exact .inr (ih.mpr ⟨front,hs,hall⟩)

/-- A match leaves over exactly what follows a text that the pattern reads. -/
theorem mem_ends_iff : rest∈r.ends s ↔ ∃ front, s=front++rest ∧ r.Reads front := by
  induction r generalizing s rest with
  | empty =>
    rw [ends,List.mem_singleton]
    constructor
    · exact fun h => ⟨[],h.symm,rfl⟩
    · rintro ⟨front,rfl,rfl⟩
      rfl
  | symbol p =>
    cases s with
    | nil =>
      refine ⟨fun h => absurd h List.not_mem_nil,?_⟩
      rintro ⟨front,hs,c,rfl,-⟩
      exact absurd hs (List.cons_ne_nil c _).symm
    | cons c s =>
      rw [ends]
      constructor
      · intro h
        split at h
        · rename_i hc
          exact ⟨[c],by rw [List.mem_singleton.mp h]; rfl,c,rfl,hc⟩
        · exact absurd h List.not_mem_nil
      · rintro ⟨front,hs,d,rfl,hd⟩
        obtain ⟨rfl,rfl⟩ := List.cons.inj hs
        rw [if_pos hd]
        exact List.mem_singleton_self _
  | seq first second ihf ihs =>
    rw [ends,List.mem_flatMap]
    constructor
    · rintro ⟨middle,hmiddle,hrest⟩
      obtain ⟨front,rfl,hfront⟩ := ihf.mp hmiddle
      obtain ⟨back,rfl,hback⟩ := ihs.mp hrest
      exact ⟨front++back,(List.append_assoc _ _ _).symm,front,back,rfl,hfront,hback⟩
    · rintro ⟨word,rfl,front,back,rfl,hfront,hback⟩
      exact ⟨back++rest,ihf.mpr ⟨front,List.append_assoc _ _ _,hfront⟩,ihs.mpr ⟨back,rfl,hback⟩⟩
  | alt first second ihf ihs =>
    rw [ends,List.mem_append,ihf,ihs]
    constructor
    · rintro (⟨front,hs,hfront⟩|⟨front,hs,hfront⟩)
      · exact ⟨front,hs,.inl hfront⟩
      · exact ⟨front,hs,.inr hfront⟩
    · rintro ⟨front,hs,hfront|hfront⟩
      · exact .inl ⟨front,hs,hfront⟩
      · exact .inr ⟨front,hs,hfront⟩
  | star p => exact mem_starEnds_iff
  | lazyStar p => exact mem_lazyStarEnds_iff

/-- A match leaves a tail of the text. -/
theorem suffix_of_mem_ends (h : rest∈r.ends s) : rest <:+ s := by
  obtain ⟨front,rfl,-⟩ := mem_ends_iff.mp h
  exact List.suffix_append front rest

/-- A found match is what a match at its place reads. -/
theorem mem_ends_of_mem_findAllFrom {skip : ℕ} {found : List α}
    (h : found∈findAllFrom r skip s) : ∃ rest, rest∈r.ends (found++rest) := by
  induction s generalizing skip with
  | nil =>
    rw [findAllFrom] at h
    exact absurd h List.not_mem_nil
  | cons c s ih =>
    cases skip with
    | succ skip => exact ih h
    | zero =>
      rw [findAllFrom] at h
      cases hends : (r.ends (c::s)).head? with
      | none =>
        rw [hends] at h
        exact ih h
      | some rest =>
        rw [hends] at h
        rcases List.mem_cons.mp h with rfl|h
        · have hmem := List.mem_of_head? hends
          obtain ⟨front,hfront⟩ := suffix_of_mem_ends hmem
          have htake : (c::s).take (s.length+1-rest.length)=front := by
            have hlen : s.length+1-rest.length=front.length := by
              have hcount := congrArg List.length hfront
              rw [List.length_append,List.length_cons] at hcount
              omega
            rw [hlen,←hfront,List.take_left]
          exact ⟨rest,by rwa [htake,hfront]⟩
        · exact ih h

/-- An optional pattern reads what it reads, or nothing. -/
theorem reads_opt_iff : (opt r).Reads word ↔ r.Reads word ∨ word=[] := Iff.rfl

/-- At least one symbol of a class. -/
theorem reads_plus_iff : (plus p).Reads word ↔ word≠[] ∧ ∀ c∈word, p c=true := by
  constructor
  · rintro ⟨front,back,rfl,⟨c,rfl,hc⟩,hback⟩
    exact ⟨List.cons_ne_nil c back,List.forall_mem_cons.mpr ⟨hc,hback⟩⟩
  · rintro ⟨hne,hall⟩
    obtain ⟨c,back,rfl⟩ := List.exists_cons_of_ne_nil hne
    obtain ⟨hc,hback⟩ := List.forall_mem_cons.mp hall
    exact ⟨[c],back,rfl,⟨c,rfl,hc⟩,hback⟩

/-- Up to the given number of symbols of a class. -/
theorem reads_upTo_iff {n : ℕ} :
    (upTo p n).Reads word ↔ word.length≤n ∧ ∀ c∈word, p c=true := by
  induction n generalizing word with
  | zero =>
    rw [Nat.le_zero,List.length_eq_zero_iff]
    exact ⟨fun h => ⟨h,fun c hc => absurd (h ▸ hc) List.not_mem_nil⟩,And.left⟩
  | succ n ih =>
    rw [upTo,reads_opt_iff]
    constructor
    · rintro (⟨front,back,rfl,⟨c,rfl,hc⟩,hback⟩|rfl)
      · obtain ⟨hlength,hall⟩ := ih.mp hback
        exact ⟨Nat.succ_le_succ hlength,List.forall_mem_cons.mpr ⟨hc,hall⟩⟩
      · exact ⟨Nat.zero_le _,fun c hc => absurd hc List.not_mem_nil⟩
    · rintro ⟨hlength,hall⟩
      cases word with
      | nil => exact .inr rfl
      | cons c back =>
        obtain ⟨hc,hback⟩ := List.forall_mem_cons.mp hall
        exact .inl ⟨[c],back,rfl,⟨c,rfl,hc⟩,ih.mpr ⟨Nat.le_of_succ_le_succ hlength,hback⟩⟩

/-- What at least one match may leave over follows words that the pattern
reads. -/
theorem mem_plusEnds_iff {n : ℕ} : rest∈plusEnds r n s ↔
    ∃ words, words≠[] ∧ words.length≤n ∧ (∀ word∈words, r.Reads word) ∧
      s=words.flatten++rest := by
  induction n generalizing s with
  | zero =>
    refine ⟨fun h => absurd h List.not_mem_nil,?_⟩
    rintro ⟨words,hne,hlength,-⟩
    exact absurd (List.length_eq_zero_iff.mp (Nat.le_zero.mp hlength)) hne
  | succ n ih =>
    rw [plusEnds,List.mem_flatMap]
    constructor
    · rintro ⟨middle,hmiddle,hrest⟩
      obtain ⟨front,rfl,hfront⟩ := mem_ends_iff.mp hmiddle
      rcases List.mem_append.mp hrest with hmore|hlast
      · obtain ⟨words,-,hlength,hall,rfl⟩ := ih.mp hmore
        refine ⟨front::words,List.cons_ne_nil _ _,Nat.succ_le_succ hlength,
          List.forall_mem_cons.mpr ⟨hfront,hall⟩,?_⟩
        rw [List.flatten_cons,List.append_assoc]
      · refine ⟨[front],List.cons_ne_nil _ _,Nat.succ_le_succ (Nat.zero_le n),
          List.forall_mem_cons.mpr ⟨hfront,fun w hw => absurd hw List.not_mem_nil⟩,?_⟩
        rw [List.mem_singleton.mp hlast,List.flatten_singleton]
    · rintro ⟨words,hne,hlength,hall,rfl⟩
      obtain ⟨front,words,rfl⟩ := List.exists_cons_of_ne_nil hne
      obtain ⟨hfront,hall⟩ := List.forall_mem_cons.mp hall
      refine ⟨words.flatten++rest,mem_ends_iff.mpr ⟨front,?_,hfront⟩,?_⟩
      · rw [List.flatten_cons,List.append_assoc]
      · by_cases hwords : words=[]
        · rw [hwords]
          exact List.mem_append_right _ (List.mem_singleton_self _)
        · exact List.mem_append_left _ (ih.mpr
            ⟨words,hwords,Nat.le_of_succ_le_succ hlength,hall,rfl⟩)

end ScamLens.BacktrackingRegex.Regex
