import ScamLens.DomainAges
import ScamLens.PaddedPages
import ScamLens.SeparatorChains

/-!
# Three computations of the registrable label

The static scan, the typosquat detector and the age lookup each take the label
in front of the public suffix out of a domain. The static scan knows no suffix
of two labels, and only the age lookup strips dots, so the three agree exactly
where neither matters.
-/

namespace ScamLens.RegistrableLabels

open DomainAges Heuristics PaddedPages PythonText SeparatorChains Typosquat

section Labels

/-- Texts that compare as equal are equal. -/
local instance lawfulText : LawfulBEq Text := List.instLawfulBEq

/-- The first label of a name. -/
def firstLabel (name : Text) : Text := (name.splitOn '.').headD []

/-- The label in front of the public suffix, of the labels of a name. -/
def labelAt (parts : List Text) : Text :=
  if join ['.'] (parts.drop (parts.length-2))∈compoundSuffixes ∧ 3≤parts.length then
    parts.getD (parts.length-3) []
  else parts.getD (parts.length-2) []

/-- It is a given label by the case that applies. -/
theorem labelAt_eq_iff {parts : List Text} {label : Text} : labelAt parts=label ↔
    (join ['.'] (parts.drop (parts.length-2))∈compoundSuffixes ∧ 3≤parts.length →
      parts.getD (parts.length-3) []=label) ∧
    (¬(join ['.'] (parts.drop (parts.length-2))∈compoundSuffixes ∧ 3≤parts.length) →
      parts.getD (parts.length-2) []=label) := by
  rw [labelAt]
  split
  · rename_i h
    exact ⟨fun he => ⟨fun _ => he,fun hn => absurd h hn⟩,fun he => he.1 h⟩
  · rename_i h
    exact ⟨fun he => ⟨fun hc => absurd hc h,fun _ => he⟩,fun he => he.2 h⟩

variable {s : Text} {parts : List Text}

/-- The label of the typosquat detector. -/
theorem etldPlusOneLabel_eq (h : 2≤(s.splitOn '.').length) :
    etldPlusOneLabel s=labelAt (s.splitOn '.') := by
  rw [etldPlusOneLabel,labelAt]
  exact if_neg (Nat.not_lt.mpr h)

/-- The label of the static scan is the last but one. -/
theorem ownLabel_eq (hlower : lower s=s) (h : 2≤(s.splitOn '.').length) :
    ownLabel s=(s.splitOn '.').getD ((s.splitOn '.').length-2) [] := by
  have hdot : s.contains '.'=true := List.contains_iff_mem.mpr (two_le_length_splitOn.mp h)
  rw [ownLabel,if_pos hdot,hlower,List.getLastD_eq_getLast?,List.getLast?_eq_getElem?,
    List.getElem?_dropLast,List.getD_eq_getElem?_getD,List.length_dropLast,
    if_pos (by omega),Nat.sub_sub]

/-- Joined labels begin with the first one. -/
theorem firstLabel_join (hne : parts≠[]) (hdots : ∀ part∈parts, '.'∉part) :
    firstLabel (join ['.'] parts)=parts.headD [] := by
  rw [firstLabel,join,List.splitOn_intercalate '.' hdots hne]

/-- The label that a drop begins with. -/
theorem firstLabel_join_drop {i : ℕ} (hdots : ∀ part∈parts, '.'∉part) (hi : i<parts.length) :
    firstLabel (join ['.'] (parts.drop i))=parts.getD i [] := by
  have hne : parts.drop i≠[] := by
    rw [ne_eq,List.drop_eq_nil_iff]
    omega
  rw [firstLabel_join hne fun part hpart => hdots part (List.mem_of_mem_drop hpart),
    List.headD_eq_head?_getD,List.head?_drop,List.getD_eq_getElem?_getD]

/-- The suffixes of the age lookup are those of the typosquat detector. -/
theorem compound_eq : compound=compoundSuffixes := rfl

/-- The first label of the age lookup is the one in front of the suffix of the
name without its outer dots. -/
theorem firstLabel_registeredLabel (hlower : lower s=s)
    (h : 2≤((stripChar '.' s).splitOn '.').length) :
    firstLabel (registeredLabel s)=labelAt ((stripChar '.' s).splitOn '.') := by
  have hdots : ∀ part∈(stripChar '.' s).splitOn '.', '.'∉part :=
    fun part hpart => not_mem_of_mem_splitOn hpart
  rw [registeredLabel,hlower,compound_eq,labelAt]
  dsimp only
  rw [if_neg (Nat.not_lt.mpr h)]
  split
  · exact firstLabel_join_drop hdots (by omega)
  · exact firstLabel_join_drop hdots (by omega)

end Labels

section Dots

variable {s : Text}

/-- Leading dots are empty labels. -/
theorem splitOn_dropWhile (s : Text) :
    ∃ j, s.splitOn '.'=List.replicate j []++(s.dropWhile (· == '.')).splitOn '.' := by
  induction s with
  | nil => exact ⟨0,rfl⟩
  | cons c s ih =>
    rw [List.dropWhile_cons,List.splitOn_cons_eq_if_modifyHead]
    by_cases hc : (c == '.')=true
    · obtain ⟨j,hj⟩ := ih
      refine ⟨j+1,?_⟩
      rw [if_pos hc,if_pos hc,hj,List.replicate_succ,List.cons_append]
    · refine ⟨0,?_⟩
      rw [if_neg hc,if_neg hc,List.replicate_zero,List.nil_append,
        List.splitOn_cons_eq_if_modifyHead,if_neg hc]

/-- Trailing dots are empty labels. -/
theorem splitOn_rstripChar (s : Text) :
    ∃ k, s.splitOn '.'=(rstripChar '.' s).splitOn '.'++List.replicate k [] := by
  induction s using List.reverseRecOn with
  | nil => exact ⟨0,rfl⟩
  | append_singleton s c ih =>
    by_cases hc : c = '.'
    · obtain ⟨k,hk⟩ := ih
      refine ⟨k+1,?_⟩
      rw [rstripChar,List.rdropWhile_concat_pos (· == '.') s c (beq_iff_eq.mpr hc),hc,
        List.splitOn_append_cons_self,hk,List.replicate_succ',List.append_assoc,rstripChar]
      rfl
    · refine ⟨0,?_⟩
      rw [rstripChar,List.rdropWhile_concat_neg (· == '.') s c (fun h => hc (beq_iff_eq.mp h)),
        List.replicate_zero,List.append_nil]

/-- A label that is not empty is not lost with the outer dots. -/
theorem two_le_stripped (h : 2≤((s.splitOn '.').filter (· ≠ [])).length) :
    2≤((stripChar '.' s).splitOn '.').length := by
  obtain ⟨j,hj⟩ := splitOn_dropWhile s
  obtain ⟨k,hk⟩ := splitOn_rstripChar (s.dropWhile (· == '.'))
  have hreplicate (n : ℕ) : (List.replicate n ([] : Text)).filter (· ≠ [])=[] := by
    rw [List.filter_eq_nil_iff]
    intro part hpart
    rw [List.eq_of_mem_replicate hpart]
    decide
  rw [hj,hk,List.filter_append,List.filter_append,hreplicate,hreplicate,List.nil_append,
    List.append_nil] at h
  exact h.trans (List.length_filter_le _ _)

end Dots

section Agreement

variable {domain : Text}

/-- The three computations give one label, so that the static scan counts the
registrable label on no page as a foreign brand. -/
structure LabelsAgree (domain : Text) : Prop where
  /-- The static scan and the typosquat detector agree. -/
  analyze_typosquat : ownLabel domain=etldPlusOneLabel domain
  /-- The typosquat detector and the age lookup agree. -/
  typosquat_rdap : etldPlusOneLabel domain=firstLabel (registeredLabel domain)
  /-- The registrable label is no foreign brand. -/
  not_foreign : ∀ html, firstLabel (registeredLabel domain)∉(analyze html domain).credBrandTerms

/-- The last two labels are a known suffix, and there is one in front of them. -/
def HasCompound (parts : List Text) : Prop :=
  join ['.'] (parts.drop (parts.length-2))∈compoundSuffixes ∧ 3≤parts.length

/-- Which labels coincide where the three computations agree. Without a dot at
the end of the name: the two labels in front of the last one, if the last two
are a known suffix with a label in front. With one dot there: the last label in
front of it, and the third-last one if the last two are a known suffix with a
label in front, else the second-last one. With more dots at the end: that
third-last or second-last label is empty. -/
def SameLabel (domain : Text) : Prop :=
  let parts := domain.splitOn '.'
  let core := (stripChar '.' domain).splitOn '.'
  let m := core.length
  if domain.getLast?≠some '.' then
    HasCompound parts → parts.getD (parts.length-3) []=parts.getD (parts.length-2) []
  else if domain.dropLast.getLast?≠some '.' then
    (HasCompound core → core.getD (m-3) []=core.getD (m-1) []) ∧
      (¬HasCompound core → core.getD (m-2) []=core.getD (m-1) [])
  else (HasCompound core → core.getD (m-3) []=[]) ∧ (¬HasCompound core → core.getD (m-2) []=[])

/-- A brand that is the label of the static scan is not foreign. -/
theorem ownLabel_not_foreign (html domain : Text) :
    ownLabel domain∉(analyze html domain).credBrandTerms := by
  intro h
  have hmem := List.mem_filter.mp (List.mem_of_mem_take h)
  obtain ⟨-,hne⟩ := Bool.and_eq_true_iff.mp hmem.2
  exact bne_iff_ne.mp hne rfl

/-- No known suffix ends with a dot. -/
theorem labelAt_of_getLast {parts : List Text} (h : parts.getLast?=some []) :
    labelAt parts=parts.getD (parts.length-2) [] := by
  rw [labelAt,if_neg]
  rintro ⟨hmem,hlength⟩
  obtain ⟨front,rfl⟩ := List.getLast?_eq_some_iff.mp h
  obtain ⟨first,label,hfront⟩ := (List.eq_nil_or_concat front).resolve_left fun hnil => by
    rw [hnil] at hlength
    exact absurd hlength (by decide)
  rw [List.concat_eq_append] at hfront
  subst hfront
  have hdrop : (first++[label]++[[]]).drop ((first++[label]++[[]]).length-2)=[label,[]] := by
    rw [List.append_assoc,List.length_append]
    exact List.drop_left
  have hlast : ∀ suffix∈compoundSuffixes, suffix.getLast?≠some '.' := by decide
  refine hlast _ hmem ?_
  have hjoin : join ['.'] [label,[]]=label++['.'] := by
    rw [join,List.intercalate_cons_of_ne_nil (List.cons_ne_nil _ _),List.intercalate_singleton,
      List.append_nil]
  rw [hdrop,hjoin,List.getLast?_concat]

/-- A name with a dot at its end has an empty label there. -/
theorem getLast_splitOn_dot (hend : domain.getLast?=some '.') :
    (domain.splitOn '.').getLast?=some [] := by
  obtain ⟨front,rfl⟩ := List.getLast?_eq_some_iff.mp hend
  rw [List.splitOn_append_cons_self,List.splitOn_nil,List.getLast?_concat]

/-- Without a dot at the end, the labels of a name are those without its outer
dots behind empty ones. -/
theorem splitOn_stripped (hend : domain.getLast?≠some '.') :
    ∃ j, domain.splitOn '.'=List.replicate j []++(stripChar '.' domain).splitOn '.' := by
  obtain ⟨j,hj⟩ := splitOn_dropWhile domain
  have hstrip : stripChar '.' domain=domain.dropWhile (· == '.') := by
    refine rstripChar_eq_self fun hne hlast => hend ?_
    obtain ⟨front,hfront⟩ := List.dropWhile_suffix (· == '.') (l := domain)
    rw [←hfront,List.getLast?_append_of_ne_nil _ hne,List.getLast?_eq_some_getLast hne,hlast]
  exact ⟨j,hstrip ▸ hj⟩

/-- The labels of a name from one of its last labels on do not depend on what
is in front of them. -/
theorem getD_append_sub (front back : List Text) {i : ℕ} (hi : i≤back.length) :
    (front++back).getD ((front++back).length-i) []=back.getD (back.length-i) [] := by
  have hindex : (front++back).length-i=front.length+(back.length-i) := by
    rw [List.length_append]
    omega
  rw [hindex,List.getD_eq_getElem?_getD,List.getElem?_append_right (Nat.le_add_right _ _),
    Nat.add_sub_cancel_left,List.getD_eq_getElem?_getD]

/-- Without a dot at the end, the last label but one is the one in front of the
suffix whether or not the outer dots are stripped, unless there is a known
suffix of two labels. -/
theorem labelsAgree_iff_undotted (hend : domain.getLast?≠some '.')
    (h : 2≤((stripChar '.' domain).splitOn '.').length) :
    ((domain.splitOn '.').getD ((domain.splitOn '.').length-2) []=labelAt (domain.splitOn '.') ∧
      labelAt (domain.splitOn '.')=labelAt ((stripChar '.' domain).splitOn '.')) ↔
    SameLabel domain := by
  unfold SameLabel HasCompound
  dsimp only
  rw [if_pos hend]
  obtain ⟨j,hj⟩ := splitOn_stripped hend
  rw [hj]
  generalize (stripChar '.' domain).splitOn '.'=core at h
  generalize List.replicate j ([] : Text)=front
  have hdrop : (front++core).drop ((front++core).length-2)=core.drop (core.length-2) := by
    have hindex : (front++core).length-2=front.length+(core.length-2) := by
      rw [List.length_append]
      omega
    rw [hindex,List.drop_length_add_append]
  have hlonger : core.length≤(front++core).length := by
    rw [List.length_append]
    exact Nat.le_add_left _ _
  rw [labelAt,labelAt,hdrop,getD_append_sub front core h]
  by_cases hsuffix : join ['.'] (core.drop (core.length-2))∈compoundSuffixes ∧
      3≤(front++core).length
  · rw [if_pos hsuffix]
    by_cases hthree : 3 ≤ core.length
    · rw [if_pos ⟨hsuffix.1,hthree⟩,getD_append_sub front core hthree]
      exact ⟨fun hagree _ => hagree.1.symm,fun hsame => ⟨(hsame hsuffix).symm,rfl⟩⟩
    · rw [if_neg fun hc => hthree hc.2]
      exact ⟨fun hagree _ => hagree.2,fun hsame => ⟨(hsame hsuffix).symm,hsame hsuffix⟩⟩
  · rw [if_neg hsuffix,if_neg fun hc => hsuffix ⟨hc.1,hc.2.trans hlonger⟩]
    exact ⟨fun _ hcompound => absurd hcompound hsuffix,fun _ => ⟨rfl,rfl⟩⟩

/-- A dot at the end is one of the outer dots. -/
theorem stripChar_concat_dot (front : Text) : stripChar '.' (front++['.'])=stripChar '.' front := by
  rw [stripChar,stripChar,List.dropWhile_append]
  split
  · rename_i hnil
    rw [List.isEmpty_iff.mp hnil]
    rfl
  · exact List.rdropWhile_concat_pos (· == '.') _ '.' rfl

/-- With a dot at the end of a name, the last label but one is the last label in
front of the outer dots, or empty if there are more dots. -/
theorem secondLast_dotted {front : Text} :
    ((front++['.']).splitOn '.').getD (((front++['.']).splitOn '.').length-2) []=
      if front.getLast?=some '.' then []
      else ((stripChar '.' front).splitOn '.').getD
        (((stripChar '.' front).splitOn '.').length-1) [] := by
  have hparts : (front++['.']).splitOn '.'=front.splitOn '.'++[[]] := by
    rw [List.splitOn_append_cons_self,List.splitOn_nil]
  have hne : 1 ≤ (front.splitOn '.').length :=
    List.length_pos_iff.mpr (List.splitOn_ne_nil '.' front)
  have hlast : ((front++['.']).splitOn '.').getD (((front++['.']).splitOn '.').length-2) []=
      (front.splitOn '.').getD ((front.splitOn '.').length-1) [] := by
    rw [hparts,List.length_append,List.length_singleton,List.getD_eq_getElem?_getD,
      List.getElem?_append_left (by omega),List.getD_eq_getElem?_getD]
    rfl
  rw [hlast]
  split
  · rename_i hend
    rw [List.getD_eq_getElem?_getD,←List.getLast?_eq_getElem?,getLast_splitOn_dot hend]
    rfl
  · rename_i hend
    obtain ⟨j,hj⟩ := splitOn_stripped hend
    have hcore : 1 ≤ ((stripChar '.' front).splitOn '.').length :=
      List.length_pos_iff.mpr (List.splitOn_ne_nil '.' _)
    rw [hj,getD_append_sub _ _ hcore]

/-- With a dot at the end, the label in front of the suffix has to be that of
the name without its outer dots. -/
theorem labelsAgree_iff_dotted (hend : domain.getLast?=some '.') :
    labelAt ((stripChar '.' domain).splitOn '.')=
        (domain.splitOn '.').getD ((domain.splitOn '.').length-2) [] ↔ SameLabel domain := by
  obtain ⟨front,rfl⟩ := List.getLast?_eq_some_iff.mp hend
  unfold SameLabel HasCompound
  dsimp only
  rw [secondLast_dotted,if_neg (not_not_intro hend),List.dropLast_concat,stripChar_concat_dot,
    ite_not,labelAt_eq_iff]
  split <;> exact Iff.rfl

/-- The three computations agree exactly where the labels in front of the dots
coincide so. -/
theorem labelsAgree_iff (domain : Text) (hlower : lower domain=domain)
    (hlabels : 2≤((domain.splitOn '.').filter (· ≠ [])).length) :
    LabelsAgree domain ↔ SameLabel domain := by
  have hparts : 2≤(domain.splitOn '.').length := hlabels.trans (List.length_filter_le _ _)
  have hcore := two_le_stripped hlabels
  have hown := ownLabel_eq hlower hparts
  have htypo := etldPlusOneLabel_eq hparts
  have hrdap := firstLabel_registeredLabel hlower hcore
  have hequal : LabelsAgree domain ↔
      (domain.splitOn '.').getD ((domain.splitOn '.').length-2) []=labelAt (domain.splitOn '.') ∧
        labelAt (domain.splitOn '.')=labelAt ((stripChar '.' domain).splitOn '.') := by
    rw [←hown,←htypo,←hrdap]
    constructor
    · exact fun h => ⟨h.analyze_typosquat,h.typosquat_rdap⟩
    · rintro ⟨hanalyze,hagree⟩
      refine ⟨hanalyze,hagree,fun html => ?_⟩
      rw [←hagree,←hanalyze]
      exact ownLabel_not_foreign html domain
  rw [hequal]
  by_cases hend : domain.getLast?=some '.'
  · rw [labelAt_of_getLast (getLast_splitOn_dot hend),←labelsAgree_iff_dotted hend]
    exact ⟨fun h => h.2.symm,fun h => ⟨rfl,h.symm⟩⟩
  · exact labelsAgree_iff_undotted hend hcore

/-- For a name under a top-level domain the label is the same one. -/
theorem labelsAgree_maybank : LabelsAgree "www.maybank.com".toList :=
  (labelsAgree_iff "www.maybank.com".toList (by decide) (by decide)).mpr (by
    rw [SameLabel,if_pos (by decide)]
    exact fun h => absurd h (by rw [HasCompound]; decide))

/-- The brand's own domain under `.com.my` is scanned as `com`, and its pages
mention the brand `maybank` as a foreign one. -/
theorem labelsAgree_fails : ¬LabelsAgree "maybank.com.my".toList ∧
    "maybank".toList∈(analyze "maybank login".toList "maybank.com.my".toList).credBrandTerms := by
  refine ⟨fun h => ?_,by decide +kernel⟩
  exact absurd h.analyze_typosquat (by decide)

end Agreement

end ScamLens.RegistrableLabels
