import Mathlib.Data.List.Infix

/-!
# Chains of separated suffixes

A word is cut at every separator. Its chain lists the word itself and what is
left of it after each separator but the last, longest first: every suffix that
starts at a segment and still has two segments. Membership in a chain is the
suffix order on segment lists.
-/

namespace ScamLens.SeparatorChains

variable {α : Type*}

/-- Rejoin every suffix of a segment list that has at least two segments. -/
def segmentChain (sep : α) : List (List α) → List (List α)
  | [] => []
  | [_] => []
  | first::second::rest =>
    [sep].intercalate (first::second::rest)::segmentChain sep (second::rest)

/-- Indexing a segment list from each start but the last lists its chain. -/
theorem segmentChain_eq_map_range (sep : α) (segments : List (List α)) :
    segmentChain sep segments=
      (List.range (segments.length-1)).map fun i => [sep].intercalate (segments.drop i) := by
  induction segments with
  | nil => rfl
  | cons first rest ih =>
    cases rest with
    | nil => rfl
    | cons second rest =>
      rw [segmentChain,ih]
      simp only [List.length_cons,Nat.add_sub_cancel,List.range_succ_eq_map,List.map_cons,
        List.drop_zero,List.map_map]
      rfl

/-- A segment list is rejoined in the chain when it is a suffix with at
least two segments, and nothing else is. -/
theorem mem_segmentChain {sep : α} {segments : List (List α)} {word : List α} :
    word∈segmentChain sep segments ↔
      ∃ tail, tail <:+ segments ∧ 2≤tail.length ∧ word=[sep].intercalate tail := by
  induction segments with
  | nil =>
    simp only [segmentChain,List.not_mem_nil,List.suffix_nil,false_iff]
    rintro ⟨tail,rfl,hlen,-⟩
    simp only [List.length_nil] at hlen
    omega
  | cons first rest ih =>
    cases rest with
    | nil =>
      simp only [segmentChain,List.not_mem_nil,false_iff]
      rintro ⟨tail,hs,hlen,-⟩
      have hl := hs.length_le
      simp only [List.length_cons,List.length_nil] at hl
      omega
    | cons second rest =>
      rw [segmentChain,List.mem_cons,ih]
      constructor
      · rintro (rfl|⟨tail,hs,hlen,hw⟩)
        · exact ⟨first::second::rest,List.suffix_rfl,by simp only [List.length_cons]; omega,rfl⟩
        · exact ⟨tail,hs.trans (List.suffix_cons first _),hlen,hw⟩
      · rintro ⟨tail,hs,hlen,hw⟩
        rcases List.suffix_cons_iff.mp hs with rfl|hs
        · exact Or.inl hw
        · exact Or.inr ⟨tail,hs,hlen,hw⟩

/-- Joining two nonempty segment lists puts one separator between them. -/
theorem intercalate_append (sep : α) {front back : List (List α)} (hf : front≠[]) (hb : back≠[]) :
    [sep].intercalate (front++back)=[sep].intercalate front++sep::[sep].intercalate back := by
  induction front with
  | nil => exact absurd rfl hf
  | cons first rest ih =>
    cases rest with
    | nil =>
      rw [List.singleton_append,List.intercalate_cons_of_ne_nil hb,List.intercalate_singleton]
      simp only [List.singleton_append,List.append_assoc]
    | cons second rest =>
      rw [List.cons_append,List.intercalate_cons_of_ne_nil (by simp),
        ih (List.cons_ne_nil _ _),List.intercalate_cons_of_ne_nil (List.cons_ne_nil _ _)]
      simp only [List.append_assoc]

section Words

variable [DecidableEq α]

/-- The chain of a word: the word and its proper separated suffixes that
still contain the separator, longest first. -/
def suffixChain (sep : α) (word : List α) : List (List α) :=
  segmentChain sep (word.splitOn sep)

/-- A word has at least two segments exactly when it contains the separator. -/
theorem two_le_length_splitOn {sep : α} {word : List α} :
    2≤(word.splitOn sep).length ↔ sep∈word := by
  constructor
  · intro h
    by_contra hn
    rw [List.splitOn_eq_singleton hn] at h
    simp only [List.length_cons,List.length_nil] at h
    omega
  · intro h
    obtain ⟨front,back,rfl⟩ := List.append_of_mem h
    rw [List.splitOn_append_cons_self,List.length_append]
    have hf := List.length_pos_of_ne_nil (List.splitOn_ne_nil sep front)
    have hb := List.length_pos_of_ne_nil (List.splitOn_ne_nil sep back)
    omega

/-- The first segment ends at the first separator. -/
theorem headD_splitOn (sep : α) (word : List α) :
    (word.splitOn sep).headD []=word.takeWhile (· != sep) := by
  induction word with
  | nil => rfl
  | cons c word ih =>
    rw [List.splitOn_cons_eq_if_modifyHead]
    by_cases hc : c=sep
    · rw [if_pos (beq_iff_eq.mpr hc),hc,List.takeWhile_cons_of_neg (by simp)]
      rfl
    · obtain ⟨head,tail,hsplit⟩ := List.exists_cons_of_ne_nil (List.splitOn_ne_nil sep word)
      rw [if_neg (by simpa using hc),List.takeWhile_cons_of_pos (by simpa using hc),←ih,hsplit]
      rfl

/-- No segment of a word contains the separator. -/
theorem not_mem_of_mem_splitOn {sep : α} {word segment : List α}
    (h : segment∈word.splitOn sep) : sep∉segment := by
  induction word generalizing segment with
  | nil =>
    rw [List.splitOn_nil,List.mem_singleton] at h
    exact h ▸ List.not_mem_nil
  | cons x word ih =>
    rw [List.splitOn_cons_eq_if_modifyHead] at h
    split at h
    · rcases List.mem_cons.mp h with rfl|h
      · exact List.not_mem_nil
      · exact ih h
    · rename_i hx
      cases hs : word.splitOn sep with
      | nil => exact absurd hs (List.splitOn_ne_nil sep word)
      | cons first rest =>
        rw [hs,List.modifyHead_cons,List.mem_cons] at h
        rcases h with rfl|h
        · have hf : sep∉first := ih (hs ▸ List.mem_cons_self)
          simp only [List.mem_cons,not_or]
          exact ⟨fun he => hx (beq_iff_eq.mpr he.symm),hf⟩
        · exact ih (hs ▸ List.mem_cons_of_mem _ h)

/-- A segment is made of symbols of the word. -/
theorem subset_of_mem_splitOn {sep : α} {word segment : List α} (h : segment∈word.splitOn sep) :
    segment⊆word := by
  induction word generalizing segment with
  | nil =>
    rw [List.splitOn_nil,List.mem_singleton] at h
    exact h ▸ List.Subset.refl []
  | cons x word ih =>
    rw [List.splitOn_cons_eq_if_modifyHead] at h
    split at h
    · rcases List.mem_cons.mp h with rfl|h
      · exact List.nil_subset _
      · exact List.subset_cons_of_subset _ (ih h)
    · obtain ⟨head,tail,hsplit⟩ := List.exists_cons_of_ne_nil (List.splitOn_ne_nil sep word)
      rw [hsplit,List.modifyHead_cons] at h
      rw [hsplit] at ih
      rcases List.mem_cons.mp h with rfl|h
      · exact List.cons_subset_cons x (ih List.mem_cons_self)
      · exact List.subset_cons_of_subset _ (ih (List.mem_cons_of_mem _ h))

/-- The suffix order on segment lists, read off the words themselves: equal
words, or a separator in front of the shorter one. -/
theorem splitOn_suffix_iff {sep : α} {part word : List α} :
    part.splitOn sep <:+ word.splitOn sep ↔ part=word ∨ sep::part <:+ word := by
  constructor
  · rintro ⟨front,hfront⟩
    have hword := congrArg ([sep].intercalate ·) hfront
    simp only [List.intercalate_splitOn] at hword
    by_cases hf : front=[]
    · rw [hf,List.nil_append,List.intercalate_splitOn] at hword
      exact Or.inl hword
    · rw [intercalate_append sep hf (List.splitOn_ne_nil sep part),
        List.intercalate_splitOn] at hword
      exact Or.inr ⟨_,hword⟩
  · rintro (rfl|⟨front,rfl⟩)
    · exact List.suffix_rfl
    · rw [List.splitOn_append_cons_self]
      exact List.suffix_append _ _

/-- Chain membership is the suffix order on segments, for words that contain
the separator. -/
theorem mem_suffixChain {sep : α} {part word : List α} :
    part∈suffixChain sep word ↔ sep∈part ∧ part.splitOn sep <:+ word.splitOn sep := by
  rw [suffixChain,mem_segmentChain]
  constructor
  · rintro ⟨tail,hs,hlen,rfl⟩
    have hne : tail≠[] := by
      rintro rfl
      simp only [List.length_nil] at hlen
      omega
    have hsplit := List.splitOn_intercalate sep
      (fun segment hm => not_mem_of_mem_splitOn (hs.subset hm)) hne
    exact ⟨two_le_length_splitOn.mp (hsplit.symm ▸ hlen),hsplit.symm ▸ hs⟩
  · rintro ⟨hsep,hs⟩
    exact ⟨_,hs,two_le_length_splitOn.mpr hsep,(List.intercalate_splitOn sep).symm⟩

end Words

end ScamLens.SeparatorChains
