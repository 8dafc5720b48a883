import ScamLens.SeparatedTokens
import ScamLens.TyposquatRules

/-!
# Brands as tokens of a label

The boundary search tries the occurrences of a brand from left to right, each
one position past the last. It ends for every label and every brand, the empty
one too, and misses no occurrence. A brand without a dash or underscore is
found exactly when it is one of the tokens of the label.
-/

namespace ScamLens.BrandTokens

open PythonText SeparatedTokens Typosquat TyposquatRules

variable {label brand : Text} {i : ℕ}

/-- An occurrence of the brand, in front of it the start of the label or a dash
or underscore, and behind it the end of the label or a dash or underscore. -/
structure StandsAlone (label brand : Text) (i : ℕ) : Prop where
  /-- A position of the label. -/
  position : i≤label.length
  /-- The brand occurs there. -/
  occurs : brand <+: label.drop i
  /-- The boundary in front of it. -/
  left : i=0 ∨ ∃ c∈label[i-1]?, c = '-' ∨ c = '_'
  /-- The boundary behind it. -/
  right : i+brand.length=label.length ∨ ∃ c∈label[i+brand.length]?, c = '-' ∨ c = '_'

/-- The characters of a boundary. -/
theorem isBoundary_iff {c : Char} : isBoundary c=true ↔ c = '-' ∨ c = '_' := by
  rw [isBoundary,Bool.or_eq_true,beq_iff_eq,beq_iff_eq]

/-- At an index of the label a boundary is a dash or an underscore. -/
theorem boundary_at_iff (h : i<label.length) :
    (∀ c∈label[i]?, isBoundary c=true) ↔ ∃ c∈label[i]?, c = '-' ∨ c = '_' := by
  rw [List.getElem?_eq_getElem h]
  simp only [Option.mem_def,Option.some.injEq,forall_eq',exists_eq_left',isBoundary_iff]

/-- The occurrences with boundaries, as the loop tests them. -/
theorem standsAlone_iff : StandsAlone label brand i ↔ TokenAt label brand i := by
  have hleft (hi : i≤label.length) : (i=0 ∨ ∃ c∈label[i-1]?, c = '-' ∨ c = '_') ↔
      (i=0 ∨ ∀ c∈label[i-1]?, isBoundary c=true) := by
    rcases Nat.eq_zero_or_pos i with hzero|hpos
    · exact iff_of_true (.inl hzero) (.inl hzero)
    · have hlt : i-1<label.length := by omega
      rw [boundary_at_iff hlt]
  have hright (hi : i≤label.length) (hpart : brand <+: label.drop i) :
      (i+brand.length=label.length ∨ ∃ c∈label[i+brand.length]?, c = '-' ∨ c = '_') ↔
        ∀ c∈label[i+brand.length]?, isBoundary c=true := by
    have hlength := hpart.length_le
    rw [List.length_drop] at hlength
    have hfits : i+brand.length≤label.length := by omega
    rcases Nat.lt_or_eq_of_le hfits with hlt|heq
    · rw [boundary_at_iff hlt]
      exact or_iff_right (Nat.ne_of_lt hlt)
    · refine iff_of_true (.inl heq) ?_
      rw [heq,List.getElem?_length]
      exact nofun
  constructor
  · rintro ⟨hi,hpart,hl,hr⟩
    exact ⟨hi,hpart,(hleft hi).mp hl,(hright hi hpart).mp hr⟩
  · rintro ⟨hi,hpart,hl,hr⟩
    exact ⟨hi,hpart,(hleft hi).mpr hl,(hright hi hpart).mpr hr⟩

/-- The loop ends with the answer of the search, however much fuel it has
beyond one round for each position. -/
theorem containsAtBoundaryFrom_eq (hne : label≠brand) {fuel : ℕ} (hfuel : label.length+2≤fuel) :
    containsAtBoundaryFrom label brand fuel 0=some (containsAtBoundary label brand) := by
  obtain ⟨found,hfound,hiff⟩ :=
    containsAtBoundaryFrom_iff label brand fuel 0 hfuel (Nat.zero_le _)
  obtain ⟨least,hleast,hleastiff⟩ :=
    containsAtBoundaryFrom_iff label brand (label.length+2) 0 (Nat.le_refl _) (Nat.zero_le _)
  have hsame : found=least := Bool.eq_iff_iff.mpr (hiff.trans hleastiff.symm)
  rw [hfound,containsAtBoundary,if_neg hne,hleast,Option.getD_some,hsame]

/-- A brand without a dash or underscore is a token of the label exactly when
it stands there with boundaries around it. -/
theorem mem_tokens_iff (hbrand : ∀ c∈brand, c≠ '-' ∧ c≠ '_') :
    brand∈label.splitOnP isBoundary ↔ ∃ i, StandsAlone label brand i := by
  have hfree : ∀ c∈brand, isBoundary c=false := fun c hc =>
    Bool.eq_false_iff.mpr fun h =>
      (isBoundary_iff.mp h).elim (hbrand c hc).1 (hbrand c hc).2
  simp only [mem_splitOnP_iff hfree,standsAlone_iff,tokenAt_exists_iff]

/-- The boundary search ends, and finds the occurrences of the brand that stand
alone; for a brand without a dash or underscore these are the tokens of the
label. -/
theorem boundary_search_exact (label brand : Text) :
    (label≠brand → ∀ fuel, label.length+2≤fuel →
      containsAtBoundaryFrom label brand fuel 0=some (containsAtBoundary label brand)) ∧
    (containsAtBoundary label brand=true ↔ label≠brand ∧ ∃ i, StandsAlone label brand i) ∧
    ((∀ c∈brand, c≠ '-' ∧ c≠ '_') →
      (containsAtBoundary label brand=true ↔
        label≠brand ∧ brand∈label.splitOnP isBoundary)) := by
  have hfound : containsAtBoundary label brand=true ↔
      label≠brand ∧ ∃ i, StandsAlone label brand i := by
    simp only [containsAtBoundary_iff,←tokenAt_exists_iff,standsAlone_iff]
  refine ⟨fun hne fuel hfuel => containsAtBoundaryFrom_eq hne hfuel,hfound,fun hbrand => ?_⟩
  rw [hfound,mem_tokens_iff hbrand]

/-- A brand between two dashes, found after an occurrence inside a longer token. -/
theorem boundary_search_exact_second_occurrence :
    "apple".toList∈"snapple-apple-id".toList.splitOnP isBoundary ∧
      containsAtBoundary "snapple-apple-id".toList "apple".toList=true :=
  have htoken : "apple".toList∈"snapple-apple-id".toList.splitOnP isBoundary := by decide
  ⟨htoken,((boundary_search_exact "snapple-apple-id".toList "apple".toList).2.2
    (by decide)).mpr ⟨by decide,htoken⟩⟩

end ScamLens.BrandTokens
