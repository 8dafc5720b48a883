import ScamLens.Resolver

/-!
# Refreshing the lists in memory

One pass of the refresh loop reads four tables. The loader of the blocklist
lets an exception of the driver escape, which ends the pass; the other three
loaders turn it into an empty result, which then replaces the list. So a pass
is atomic for each list exactly when every failed read behind a successful
blocklist read was about a list that was empty anyway.
-/

namespace ScamLens.ListRefresh

open KeyedTables PythonText Resolver Typosquat

/-- What the four reads of one pass return; none is an exception of the driver. -/
structure TableReads where
  /-- Rows of the blocklist query. -/
  blocklist : Option (Finset Text)
  /-- Rows of the whitelist query. -/
  whitelist : Option (Finset Text)
  /-- Rows of the brand query, in order. -/
  brands : Option (List (Text×Text))
  /-- Rows of the token query. -/
  dohTokens : Option (Table Text ℕ)

/-- `load_whitelist`, given what its query returns. -/
def loadWhitelist (read : Option (Finset Text)) : Finset Text := read.getD ∅

/-- `load_brand_domains`, given what its query returns. -/
def loadBrandDomains (read : Option (List (Text×Text))) : List (Text×Text) := read.getD []

/-- `load_doh_tokens`, given what its query returns. -/
def loadDohTokens (read : Option (Table Text ℕ)) : Table Text ℕ := read.getD ∅

/-- The part of a pass that replaces the blocklist. -/
def replaceBlocklist (lists : Lists) (bl : Finset Text) : Lists := {lists with blocklist := bl}

/-- The part of a pass that replaces the whitelist. -/
def replaceWhitelist (lists : Lists) (wl : Finset Text) : Lists := {lists with whitelist := wl}

/-- The part of a pass that initializes the detector anew. -/
def replaceBrands (lists : Lists) (brands : List (Text×Text)) : Lists :=
  {lists with typosquat := lists.typosquat.init (dictOf brands)}

/-- The part of a pass that replaces the tokens. -/
def replaceTokens (lists : Lists) (tokens : Table Text ℕ) : Lists :=
  {lists with dohTokens := tokens}

/-- One pass of `_refresh_lists_loop`. -/
def refreshPass (lists : Lists) (reads : TableReads) : Lists :=
  match reads.blocklist with
  | none => lists
  | some bl =>
    let lists := replaceBlocklist lists bl
    let lists := replaceWhitelist lists (loadWhitelist reads.whitelist)
    let lists := replaceBrands lists (loadBrandDomains reads.brands)
    replaceTokens lists (loadDohTokens reads.dohTokens)

/-- One list came through a pass as it was, or as its table was read, and it
came through a failed read as it was. -/
def KeptOrRead {α β : Type*} (image : α → β) (read : Option α) (before after : β) : Prop :=
  (after=before ∨ ∃ rows, read=some rows ∧ after=image rows) ∧ (read=none → after=before)

/-- A pass is atomic for each of the four lists. -/
structure FailureAtomic (before : Lists) (reads : TableReads) (after : Lists) : Prop where
  /-- The blocklist is kept or read. -/
  blocklist : KeptOrRead id reads.blocklist before.blocklist after.blocklist
  /-- The whitelist is kept or read. -/
  whitelist : KeptOrRead id reads.whitelist before.whitelist after.whitelist
  /-- The brand map is kept or read. -/
  brands : KeptOrRead dictOf reads.brands before.typosquat.brands after.typosquat.brands
  /-- The token map is kept or read. -/
  dohTokens : KeptOrRead id reads.dohTokens before.dohTokens after.dohTokens

/-- A list that is not touched is kept. -/
theorem keptOrRead_self {α β : Type*} (image : α → β) (read : Option α) (before : β) :
    KeptOrRead image read before before := ⟨Or.inl rfl,fun _ => rfl⟩

/-- A list that is replaced by its read, or by a default when the read fails,
is kept or read exactly when a failed read finds the default in place. -/
theorem keptOrRead_getD_iff {α β : Type*} (image : α → β) (read : Option α) (fallback : α)
    (before : β) :
    KeptOrRead image read before (image (read.getD fallback)) ↔
      (read=none → before=image fallback) := by
  cases read with
  | none =>
    refine ⟨fun h _ => (h.2 rfl).symm,fun h => ?_⟩
    have hb := h rfl
    exact ⟨Or.inl hb.symm,fun _ => hb.symm⟩
  | some rows =>
    refine ⟨fun _ h => (by cases h),fun _ => ?_⟩
    exact ⟨Or.inr ⟨rows,rfl,rfl⟩,fun h => (by cases h)⟩

/-- A pass is atomic for each list exactly when its blocklist read fails or
every other failed read is about a list that was empty before the pass. -/
theorem refreshPass_failureAtomic_iff (lists : Lists) (reads : TableReads) :
    FailureAtomic lists reads (refreshPass lists reads) ↔
      reads.blocklist=none ∨
        ((reads.whitelist=none → lists.whitelist=∅) ∧
          (reads.brands=none → lists.typosquat.brands=[]) ∧
          (reads.dohTokens=none → lists.dohTokens=∅)) := by
  rw [refreshPass]
  cases hbl : reads.blocklist with
  | none =>
    refine ⟨fun _ => Or.inl rfl,fun _ => ?_⟩
    exact ⟨keptOrRead_self _ _ _,keptOrRead_self _ _ _,keptOrRead_self _ _ _,
      keptOrRead_self _ _ _⟩
  | some bl =>
    have hwl := keptOrRead_getD_iff id reads.whitelist ∅ lists.whitelist
    have hbrands := keptOrRead_getD_iff dictOf reads.brands [] lists.typosquat.brands
    have htokens := keptOrRead_getD_iff id reads.dohTokens ∅ lists.dohTokens
    constructor
    · intro h
      exact Or.inr ⟨hwl.mp h.whitelist,hbrands.mp h.brands,htokens.mp h.dohTokens⟩
    · intro h
      obtain ⟨hw,hb,ht⟩ := h.resolve_left (Option.some_ne_none bl)
      refine ⟨?_,hwl.mpr hw,hbrands.mpr hb,htokens.mpr ht⟩
      rw [hbl]
      exact ⟨Or.inr ⟨bl,rfl,rfl⟩,fun hn => (by cases hn)⟩

/-- When only the whitelist read fails, the whitelist is emptied. -/
theorem refreshPass_empties_whitelist :
    ¬FailureAtomic ⟨∅,{"ok.com".toList},⟨[],fun _ _ _ => false⟩,∅⟩ ⟨some ∅,none,some [],some ∅⟩
      (refreshPass ⟨∅,{"ok.com".toList},⟨[],fun _ _ _ => false⟩,∅⟩
        ⟨some ∅,none,some [],some ∅⟩) := by
  intro h
  have hkept : (∅ : Finset Text)={"ok.com".toList} := h.whitelist.2 rfl
  exact absurd hkept (by decide)

end ScamLens.ListRefresh
