import Mathlib.Data.List.Infix

/-!
# Tokens between separators

A word is cut at every symbol of a class of separators. What lies between two
neighbouring cuts is a token: a part of the word without a separator, with an
end of the word or a separator on each side.
-/

namespace ScamLens.SeparatedTokens

variable {α : Type*} {p : α → Bool} {part word : List α}

/-- A part of a word at its first position, with a separator or the end of the
word behind it. -/
theorem mem_splitOnP_append {after : List α} (hpart : ∀ c∈part, p c=false)
    (hafter : ∀ c∈after.head?, p c=true) : part∈(part++after).splitOnP p := by
  cases after with
  | nil =>
    rw [List.append_nil,List.splitOnP_eq_singleton hpart]
    exact List.mem_cons_self
  | cons sep rest =>
    rw [List.splitOnP_append_cons_of_forall_mem hpart sep (hafter sep rfl)]
    exact List.mem_cons_self

/-- A part with boundaries on both sides is a token. -/
theorem mem_splitOnP_of_boundaries {before after : List α} (hpart : ∀ c∈part, p c=false)
    (hbefore : ∀ c∈before.getLast?, p c=true) (hafter : ∀ c∈after.head?, p c=true) :
    part∈(before++part++after).splitOnP p := by
  have hmem := mem_splitOnP_append hpart hafter
  rcases List.eq_nil_or_concat before with rfl|⟨front,sep,rfl⟩
  · exact hmem
  · rw [List.concat_eq_append] at hbefore ⊢
    rw [List.append_assoc,List.append_assoc,List.singleton_append,
      List.splitOnP_append_cons front (part++after) (hbefore sep List.getLast?_concat)]
    exact List.mem_append_right _ hmem

/-- A word without a separator, or its part in front of the first one. -/
theorem free_or_first (p : α → Bool) (word : List α) :
    (∀ c∈word, p c=false) ∨ ∃ first sep rest, word=first++sep::rest ∧
      (∀ c∈first, p c=false) ∧ p sep=true := by
  induction word with
  | nil => exact .inl nofun
  | cons x word ih =>
    cases hx : p x with
    | true => exact .inr ⟨[],x,word,rfl,nofun,hx⟩
    | false =>
      rcases ih with hfree|⟨first,sep,rest,rfl,hfirst,hsep⟩
      · exact .inl (List.forall_mem_cons.mpr ⟨hx,hfree⟩)
      · exact .inr ⟨x::first,sep,rest,rfl,List.forall_mem_cons.mpr ⟨hx,hfirst⟩,hsep⟩

/-- A token has boundaries on both sides. -/
theorem boundaries_of_mem_splitOnP (h : part∈word.splitOnP p) :
    ∃ before after, word=before++part++after ∧
      (∀ c∈before.getLast?, p c=true) ∧ ∀ c∈after.head?, p c=true := by
  induction hn : word.length using Nat.strong_induction_on generalizing word with
  | _ n ih =>
    rcases free_or_first p word with hfree|⟨first,sep,rest,rfl,hfirst,hsep⟩
    · rw [List.splitOnP_eq_singleton hfree,List.mem_singleton] at h
      refine ⟨[],[],?_,by simp,by simp⟩
      rw [h,List.nil_append,List.append_nil]
    · rw [List.splitOnP_append_cons_of_forall_mem hfirst sep hsep,List.mem_cons] at h
      rcases h with rfl|h
      · refine ⟨[],sep::rest,rfl,by simp,fun c hc => ?_⟩
        rwa [←Option.some.inj hc]
      · have hlt : rest.length < n := by
          rw [List.length_append,List.length_cons] at hn
          omega
        obtain ⟨before,after,rfl,hbefore,hafter⟩ := ih _ hlt h rfl
        refine ⟨first++sep::before,after,?_,fun c hc => ?_,hafter⟩
        · simp only [List.append_assoc,List.cons_append]
        · rw [List.getLast?_append_of_ne_nil _ (List.cons_ne_nil _ _),List.getLast?_cons] at hc
          cases hlast : before.getLast? with
          | none =>
            rw [hlast] at hc
            rwa [←Option.some.inj hc]
          | some last =>
            rw [hlast] at hc
            rw [←Option.some.inj hc]
            exact hbefore last hlast

/-- The tokens of a word are its parts without a separator that have a boundary
on each side. -/
theorem mem_splitOnP_iff (hpart : ∀ c∈part, p c=false) :
    part∈word.splitOnP p ↔ ∃ before after, word=before++part++after ∧
      (∀ c∈before.getLast?, p c=true) ∧ ∀ c∈after.head?, p c=true := by
  refine ⟨boundaries_of_mem_splitOnP,?_⟩
  rintro ⟨before,after,rfl,hbefore,hafter⟩
  exact mem_splitOnP_of_boundaries hpart hbefore hafter

end ScamLens.SeparatedTokens
