import ScamLens.QuickLookups

/-!
# Matches along the parent chain

The resolver and the endpoint cut a name at its dots and join every tail of two
labels or more. Without the cutting and joining, the lists they get match the
name itself and every name it ends with behind a dot, as long as there is a dot
in it; names with empty labels are no exception.
-/

namespace ScamLens.ChainMatches

open PythonText QuickLookups Resolver SeparatorChains Tables

/-- `candidates` of `_blocklist_match`. -/
def candidates (domain : Text) : List Text :=
  let parts := domain.splitOn '.'
  (List.range (parts.length-1)).map fun i => join ['.'] (parts.drop i)

/-- The query of `_blocklist_match`: the category of the longest candidate with
a seed row. -/
def selectCategory (db : Database) (candidates : List Text) : Option Text :=
  ((candidates.filter fun m => decide (m∈db.blocklistSeed)).argmax List.length).bind
    fun m => (db.blocklistSeed.lookup m).bind (·.category)

/-- The candidates of the endpoint are the chain of the resolver. -/
theorem candidates_eq_parentChain (domain : Text) : candidates domain=parentChain domain := rfl

/-- The endpoint asks for its candidates, and not at all without one. -/
theorem blocklistMatch_eq (db : Database) (domain : Text) :
    blocklistMatch db domain=
      if candidates domain=[] then none else selectCategory db (candidates domain) := by
  rw [candidates_eq_parentChain]
  split
  · rename_i hchain
    rw [blocklistMatch,hchain]
    rfl
  · rfl

/-- The members of a chain: the name and its tails behind a dot, as far as they
have a dot. -/
theorem mem_parentChain_iff {m d : Text} :
    m∈parentChain d ↔ '.'∈m ∧ (m=d ∨ '.'::m <:+ d) := by
  rw [parentChain_eq_suffixChain,mem_suffixChain,splitOn_suffix_iff]

/-- A set matches a name by suffixes. -/
theorem matchChain_iff_suffix {d : Text} {s : Finset Text} :
    matchChain d s=true ↔ ∃ m∈s, '.'∈m ∧ (m=d ∨ '.'::m <:+ d) := by
  simp only [matchChain_iff,mem_parentChain_iff,and_comm]

/-- Labels in front of a name leave it a suffix behind a dot. -/
theorem join_append (labels : List Text) (d : Text) :
    d=join ['.'] (labels++[d]) ∨ '.'::d <:+ join ['.'] (labels++[d]) := by
  by_cases hlabels : labels=[]
  · rw [hlabels,List.nil_append,join,List.intercalate_singleton]
    exact .inl rfl
  · rw [join,intercalate_append '.' hlabels (List.cons_ne_nil d []),List.intercalate_singleton]
    exact .inr (List.suffix_append _ _)

/-- Every member of the chain of a name is on the chains of the names below. -/
theorem mem_parentChain_join {m d : Text} (labels : List Text) (h : m∈parentChain d) :
    m∈parentChain (join ['.'] (labels++[d])) := by
  obtain ⟨hdot,hsuffix⟩ := mem_parentChain_iff.mp h
  refine mem_parentChain_iff.mpr ⟨hdot,?_⟩
  rcases join_append labels d with hsame|hbelow
  · rwa [←hsame]
  · rcases hsuffix with rfl|hsuffix
    · exact .inr hbelow
    · exact .inr (hsuffix.trans ((List.suffix_cons '.' d).trans hbelow))

/-- A chain matches by suffixes, in the resolver and in the endpoint, and labels
in front of a matched name leave it matched. -/
theorem chain_matching_exact (d : Text) (s : Finset Text) :
    (matchChain d s=true ↔ ∃ m∈s, '.'∈m ∧ (m=d ∨ '.'::m <:+ d)) ∧
    (candidates d=parentChain d ∧ ∀ db, blocklistMatch db d=
      if candidates d=[] then none else selectCategory db (candidates d)) ∧
    (matchChain d s=true → ∀ labels, matchChain (join ['.'] (labels++[d])) s=true) := by
  refine ⟨matchChain_iff_suffix,⟨candidates_eq_parentChain d,fun db => blocklistMatch_eq db d⟩,
    fun hmatch labels => ?_⟩
  obtain ⟨m,hm,hs⟩ := matchChain_iff.mp hmatch
  exact matchChain_iff.mpr ⟨m,mem_parentChain_join labels hm,hs⟩

/-- A name below a listed one is matched, with an empty label in between too. -/
theorem chain_matching_exact_empty_label :
    matchChain "bad.tk".toList {"bad.tk".toList}=true ∧
      matchChain "mail..bad.tk".toList {"bad.tk".toList}=true :=
  have hlisted : matchChain "bad.tk".toList {"bad.tk".toList}=true := by decide
  ⟨hlisted,(chain_matching_exact "bad.tk".toList {"bad.tk".toList}).2.2 hlisted
    ["mail".toList,[]]⟩

end ScamLens.ChainMatches
