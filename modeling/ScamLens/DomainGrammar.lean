import ScamLens.LookupDomains
import ScamLens.RegexLanguages

/-!
# The grammar of the accepted domains

The expression of the lookup endpoints against the grammar of a domain name:
labels of letters, digits and dashes, and a last label of letters. A dollar sign
also matches before a final line feed, so a name with one behind it is accepted
as well. Stripping removes a line feed only at the end of the input, and a dot
behind it keeps it there.
-/

namespace ScamLens.DomainGrammar

open BacktrackingRegex LookupDomains PythonText Regex

section Grammar

/-- A label of 1 to 63 letters, digits and dashes, with no dash at an end. -/
structure IsLabel (label : Text) : Prop where
  /-- There is something in it. -/
  ne_nil : label≠[]
  /-- There are at most 63 symbols. -/
  length : label.length≤63
  /-- Every symbol is a letter, a digit or a dash. -/
  symbols : ∀ c∈label, isAlnumDash c=true
  /-- The first one is no dash. -/
  first : label.head?≠some '-'
  /-- The last one is no dash. -/
  last : label.getLast?≠some '-'

/-- A last label of at least two letters. -/
structure IsTopLabel (tld : Text) : Prop where
  /-- There are at least two symbols. -/
  length : 2≤tld.length
  /-- Every symbol is a letter. -/
  symbols : ∀ c∈tld, isLetter c=true

/-- At least one label, each with a dot behind it, and a last label. -/
def IsName (s : Text) : Prop :=
  ∃ labels tld, labels≠[] ∧ (∀ label∈labels, IsLabel label) ∧ IsTopLabel tld ∧
    s=(labels.map (·++['.'])).flatten++tld

/-- A domain name: labels of at most 253 symbols. -/
structure IsDomain (s : Text) : Prop where
  /-- The text is made of labels. -/
  name : IsName s
  /-- There are at most 253 symbols. -/
  length : s.length≤253

end Grammar

section Patterns

variable {s word rest label tld : Text}

/-- A symbol of a label that is no dash is a letter or a digit. -/
theorem isAlnum_iff {c : Char} : isAlnum c=true ↔ isAlnumDash c=true ∧ c≠ '-' := by
  rw [isAlnumDash,Bool.or_eq_true,beq_iff_eq]
  constructor
  · intro h
    refine ⟨.inl h,?_⟩
    rintro rfl
    exact absurd h (by decide)
  · rintro ⟨h|h,hne⟩
    · exact h
    · exact absurd h hne

/-- What may follow the first symbol of a label. -/
def LabelTail (tail : Text) : Prop :=
  tail=[] ∨ ∃ middle last, tail=middle++[last] ∧ middle.length≤61 ∧
    (∀ c∈middle, isAlnumDash c=true) ∧ isAlnum last=true

/-- A label is a letter or digit, alone or with another one at the end. -/
theorem isLabel_cons_iff {first : Char} {tail : Text} :
    IsLabel (first::tail) ↔ isAlnum first=true ∧ LabelTail tail := by
  constructor
  · intro h
    obtain ⟨hsymbol,htail⟩ := List.forall_mem_cons.mp h.symbols
    refine ⟨isAlnum_iff.mpr ⟨hsymbol,fun he => h.first (congrArg some he)⟩,?_⟩
    rcases List.eq_nil_or_concat tail with rfl|⟨middle,last,htail'⟩
    · exact .inl rfl
    rw [List.concat_eq_append] at htail'
    subst htail'
    have hlength := h.length
    rw [List.length_cons,List.length_append,List.length_singleton] at hlength
    refine .inr ⟨middle,last,rfl,by omega,fun c hc => htail c (List.mem_append_left _ hc),
      isAlnum_iff.mpr ⟨htail last (List.mem_append_right _ (List.mem_singleton_self _)),?_⟩⟩
    rintro rfl
    refine h.last ?_
    rw [←List.cons_append,List.getLast?_concat]
  · rintro ⟨hfirst,htail⟩
    obtain ⟨hsymbol,hdash⟩ := isAlnum_iff.mp hfirst
    rcases htail with rfl|⟨middle,last,rfl,hlength,hmiddle,hlast⟩
    · refine ⟨List.cons_ne_nil _ _,(by decide : 1≤63),?_,?_,?_⟩
      · exact List.forall_mem_singleton.mpr hsymbol
      · exact fun he => hdash (Option.some.inj he)
      · exact fun he => hdash (Option.some.inj he)
    · obtain ⟨hend,hdash'⟩ := isAlnum_iff.mp hlast
      refine ⟨List.cons_ne_nil _ _,?_,?_,?_,?_⟩
      · rw [List.length_cons,List.length_append,List.length_singleton]
        omega
      · exact List.forall_mem_cons.mpr ⟨hsymbol,List.forall_mem_append.mpr
          ⟨hmiddle,List.forall_mem_singleton.mpr hend⟩⟩
      · exact fun he => hdash (Option.some.inj he)
      · rw [←List.cons_append,List.getLast?_concat]
        exact fun he => hdash' (Option.some.inj he)

/-- The label pattern reads a label and a dot. -/
theorem reads_labelPattern_iff :
    labelPattern.Reads word ↔ ∃ label, IsLabel label ∧ word=label++['.'] := by
  have htail {tail : Text} : (opt (seq (upTo isAlnumDash 61) (symbol isAlnum))).Reads tail ↔
      LabelTail tail := by
    rw [reads_opt_iff,LabelTail,or_comm,Reads]
    refine or_congr_right ⟨?_,?_⟩
    · rintro ⟨middle,back,rfl,hmiddle,last,rfl,hlast⟩
      obtain ⟨hlength,hall⟩ := reads_upTo_iff.mp hmiddle
      exact ⟨middle,last,rfl,hlength,hall,hlast⟩
    · rintro ⟨middle,last,rfl,hlength,hall,hlast⟩
      exact ⟨middle,[last],rfl,reads_upTo_iff.mpr ⟨hlength,hall⟩,last,rfl,hlast⟩
  constructor
  · rintro ⟨front,back,rfl,⟨first,rfl,hfirst⟩,tail,dot,rfl,hopt,point,nothing,rfl,⟨c,rfl,hc⟩,rfl⟩
    refine ⟨first::tail,isLabel_cons_iff.mpr ⟨hfirst,htail.mp hopt⟩,?_⟩
    rw [beq_iff_eq.mp hc]
    rfl
  · rintro ⟨label,hlabel,rfl⟩
    obtain ⟨first,tail,rfl⟩ := List.exists_cons_of_ne_nil hlabel.ne_nil
    obtain ⟨hfirst,hopt⟩ := isLabel_cons_iff.mp hlabel
    exact ⟨[first],tail++['.'],rfl,⟨first,rfl,hfirst⟩,tail,['.'],rfl,htail.mpr hopt,['.'],[],rfl,
      ⟨'.',rfl,rfl⟩,rfl⟩

/-- The last pattern reads a last label. -/
theorem reads_tldPattern_iff : tldPattern.Reads tld ↔ IsTopLabel tld := by
  rw [tldPattern,Reads]
  constructor
  · rintro ⟨front,back,rfl,⟨c,rfl,hc⟩,hback⟩
    obtain ⟨hne,hall⟩ := reads_plus_iff.mp hback
    refine ⟨?_,List.forall_mem_cons.mpr ⟨hc,hall⟩⟩
    have hpos := List.length_pos_of_ne_nil hne
    rw [List.singleton_append,List.length_cons]
    omega
  · rintro ⟨hlength,hall⟩
    match tld,hlength,hall with
    | c::d::back,_,hall =>
      obtain ⟨hc,hback⟩ := List.forall_mem_cons.mp hall
      exact ⟨[c],d::back,rfl,⟨c,rfl,hc⟩,reads_plus_iff.mpr ⟨List.cons_ne_nil d back,hback⟩⟩

/-- The end of a text, or a line feed that ends it. -/
theorem atEnd_iff : atEnd s=true ↔ s=[] ∨ s=['\n'] := by
  rw [atEnd,Bool.or_eq_true,List.isEmpty_iff,beq_iff_eq]

/-- The look-ahead counts up to 253 symbols in front of the end. -/
theorem lengthAhead_iff : lengthAhead s=true ↔ ∃ front rest, s=front++rest ∧ front≠[] ∧
    front.length≤253 ∧ (∀ c∈front, isDot c=true) ∧ atEnd rest=true := by
  rw [lengthAhead,List.any_eq_true]
  constructor
  · rintro ⟨rest,hrest,hend⟩
    obtain ⟨word,rfl,front,back,rfl,⟨c,rfl,hc⟩,hback⟩ := mem_ends_iff.mp hrest
    obtain ⟨hlength,hall⟩ := reads_upTo_iff.mp hback
    exact ⟨c::back,rest,rfl,List.cons_ne_nil c back,Nat.succ_le_succ hlength,
      List.forall_mem_cons.mpr ⟨hc,hall⟩,hend⟩
  · rintro ⟨front,rest,rfl,hne,hlength,hall,hend⟩
    obtain ⟨c,back,rfl⟩ := List.exists_cons_of_ne_nil hne
    obtain ⟨hc,hback⟩ := List.forall_mem_cons.mp hall
    exact ⟨rest,mem_ends_iff.mpr ⟨c::back,rfl,[c],back,rfl,⟨c,rfl,hc⟩,
      reads_upTo_iff.mpr ⟨Nat.le_of_succ_le_succ hlength,hback⟩⟩,hend⟩

end Patterns

section Acceptance

variable {s domain : Text}

/-- A name has no other symbols than those of its labels and dots. -/
theorem IsName.symbols (h : IsName s) : ∀ c∈s, isAlnumDash c=true ∨ c = '.' := by
  obtain ⟨labels,tld,-,hlabels,htld,rfl⟩ := h
  intro c hc
  rcases List.mem_append.mp hc with hc|hc
  · obtain ⟨part,hpart,hc⟩ := List.mem_flatten.mp hc
    obtain ⟨label,hlabel,rfl⟩ := List.mem_map.mp hpart
    rcases List.mem_append.mp hc with hc|hc
    · exact .inl ((hlabels label hlabel).symbols c hc)
    · exact .inr (List.mem_singleton.mp hc)
  · have hletter := htld.symbols c hc
    exact .inl (isAlnum_iff.mp (Bool.or_eq_true_iff.mpr (.inl hletter))).1

/-- None of them is a line feed. -/
theorem IsName.isDot (h : IsName s) : ∀ c∈s, isDot c=true := by
  intro c hc
  have hsymbol := h.symbols c hc
  rw [LookupDomains.isDot,bne_iff_ne]
  rintro rfl
  exact absurd hsymbol (by decide)

/-- A name is not empty. -/
theorem IsName.ne_nil (h : IsName s) : s≠[] := by
  obtain ⟨labels,tld,-,-,htld,rfl⟩ := h
  have hlength := htld.length
  refine List.append_ne_nil_of_right_ne_nil _ ?_
  rintro rfl
  exact absurd hlength (by decide)

/-- Words of the label pattern are labels with their dots. -/
theorem labels_of_words {words : List Text} (h : ∀ word∈words, labelPattern.Reads word) :
    ∃ labels : List Text, (∀ label∈labels, IsLabel label) ∧ words=labels.map (·++['.']) := by
  induction words with
  | nil => exact ⟨[],fun label hlabel => absurd hlabel List.not_mem_nil,rfl⟩
  | cons word words ih =>
    obtain ⟨hword,hwords⟩ := List.forall_mem_cons.mp h
    obtain ⟨label,hlabel,rfl⟩ := reads_labelPattern_iff.mp hword
    obtain ⟨labels,hlabels,rfl⟩ := ih hwords
    exact ⟨label::labels,List.forall_mem_cons.mpr ⟨hlabel,hlabels⟩,rfl⟩

/-- Every label has at least its dot. -/
theorem length_le_flatten (labels : List Text) :
    labels.length≤(labels.map (·++['.'])).flatten.length := by
  induction labels with
  | nil => exact Nat.zero_le _
  | cons label labels ih =>
    rw [List.map_cons,List.flatten_cons,List.length_append,List.length_append,List.length_cons,
      List.length_singleton]
    omega

/-- The repeated label pattern and the last one read names. -/
theorem plusEnds_tld_iff {rest : Text} :
    (∃ middle∈plusEnds labelPattern s.length s, rest∈tldPattern.ends middle) ↔
      ∃ name, IsName name ∧ s=name++rest := by
  constructor
  · rintro ⟨middle,hmiddle,hrest⟩
    obtain ⟨words,hne,-,hwords,hs⟩ := mem_plusEnds_iff.mp hmiddle
    obtain ⟨labels,hlabels,rfl⟩ := labels_of_words hwords
    obtain ⟨tld,rfl,htld⟩ := mem_ends_iff.mp hrest
    exact ⟨_,⟨labels,tld,fun h => hne (List.map_eq_nil_iff.mpr h),hlabels,
        reads_tldPattern_iff.mp htld,rfl⟩,
      hs.trans (List.append_assoc _ _ _).symm⟩
  · rintro ⟨name,⟨labels,tld,hne,hlabels,htld,rfl⟩,hs⟩
    refine ⟨tld++rest,mem_plusEnds_iff.mpr ⟨labels.map (·++['.']),?_,?_,?_,?_⟩,
      mem_ends_iff.mpr ⟨tld,rfl,reads_tldPattern_iff.mpr htld⟩⟩
    · exact fun h => hne (List.map_eq_nil_iff.mp h)
    · have hlength := length_le_flatten labels
      rw [hs,List.length_map,List.length_append,List.length_append]
      omega
    · intro word hword
      obtain ⟨label,hlabel,rfl⟩ := List.mem_map.mp hword
      exact reads_labelPattern_iff.mpr ⟨label,hlabels label hlabel,rfl⟩
    · exact hs.trans (List.append_assoc _ _ _)

/-- The look-ahead counts the symbols in front of what ends the text. -/
theorem lengthAhead_append_iff {rest : Text} (hne : s≠[]) (hs : ∀ c∈s, isDot c=true)
    (hrest : atEnd rest=true) : lengthAhead (s++rest)=true ↔ s.length≤253 := by
  refine ⟨fun h => ?_,fun h => lengthAhead_iff.mpr ⟨s,rest,rfl,hne,h,hs,hrest⟩⟩
  obtain ⟨front,back,happend,-,hlength,-,hback⟩ := lengthAhead_iff.mp h
  have hfeed : '\n'∉s := fun hmem => absurd (hs _ hmem) (by decide)
  refine le_trans ?_ hlength
  by_contra hlt
  have hcount := congrArg List.length happend
  rw [List.length_append,List.length_append] at hcount
  rcases atEnd_iff.mp hback with rfl|rfl
  · rw [List.length_nil] at hcount
    omega
  · -- The line feed would have to be one of the counted symbols.
    rw [List.length_singleton] at hcount
    have hnil : rest=[] := List.length_eq_zero_iff.mp (by omega)
    rw [hnil,List.append_nil] at happend
    exact hfeed (happend ▸ List.mem_append_right _ (List.mem_singleton_self _))

/-- The expression accepts the domain names, and the domain names with a line
feed behind them. -/
theorem domainReMatch_iff :
    domainReMatch s=true ↔ IsDomain s ∨ ∃ name, IsDomain name ∧ s=name++['\n'] := by
  have hsplit : domainReMatch s=true ↔
      ∃ name rest, IsDomain name ∧ s=name++rest ∧ atEnd rest=true := by
    rw [domainReMatch,Bool.and_eq_true,List.any_eq_true]
    constructor
    · rintro ⟨hlook,middle,hmiddle,hany⟩
      obtain ⟨rest,hrest,hend⟩ := List.any_eq_true.mp hany
      obtain ⟨name,hname,rfl⟩ := plusEnds_tld_iff.mp ⟨middle,hmiddle,hrest⟩
      exact ⟨name,rest,⟨hname,(lengthAhead_append_iff hname.ne_nil hname.isDot hend).mp hlook⟩,
        rfl,hend⟩
    · rintro ⟨name,rest,⟨hname,hlength⟩,rfl,hend⟩
      obtain ⟨middle,hmiddle,hrest⟩ := plusEnds_tld_iff.mpr ⟨name,hname,rfl⟩
      exact ⟨(lengthAhead_append_iff hname.ne_nil hname.isDot hend).mpr hlength,middle,hmiddle,
        List.any_eq_true.mpr ⟨rest,hrest,hend⟩⟩
  rw [hsplit]
  constructor
  · rintro ⟨name,rest,hname,rfl,hend⟩
    rcases atEnd_iff.mp hend with rfl|rfl
    · exact .inl ((List.append_nil name).symm ▸ hname)
    · exact .inr ⟨name,hname,rfl⟩
  · rintro (hname|⟨name,hname,rfl⟩)
    · exact ⟨s,[],hname,(List.append_nil s).symm,rfl⟩
    · exact ⟨name,['\n'],hname,rfl,rfl⟩

/-- The value the endpoints match: without outer white space, in lower case, and
without dots at the end. -/
def normalized (domain : Text) : Text := rstripChar '.' (lower (strip domain))

/-- The endpoints accept an input exactly if its normalized value is a domain
name, so that an accepted value has no symbol besides letters, digits, dashes
and dots. -/
structure AcceptsDomains (domain : Text) : Prop where
  /-- Exactly the domain names are accepted. -/
  accepts_iff : (lookupDomain domain).isSome=true ↔ IsDomain (normalized domain)
  /-- What is accepted has no other symbols. -/
  symbols : ∀ value∈lookupDomain domain, ∀ c∈value, isAlnumDash c=true ∨ c = '.'

/-- Both endpoints accept an input exactly as the grammar says unless its
normalized value is a domain name with a line feed behind it. -/
theorem acceptsDomains_iff (domain : Text) :
    AcceptsDomains domain ↔ ¬∃ name, IsDomain name ∧ normalized domain=name++['\n'] := by
  have hlookup : lookupDomain domain=
      if domainReMatch (normalized domain) then some (normalized domain) else none := rfl
  constructor
  · rintro h ⟨name,hname,hfeed⟩
    have haccepted : normalized domain∈lookupDomain domain := by
      rw [hlookup,if_pos (domainReMatch_iff.mpr (.inr ⟨name,hname,hfeed⟩))]
      rfl
    have hmem : '\n'∈normalized domain :=
      hfeed ▸ List.mem_append_right _ (List.mem_singleton_self _)
    exact absurd (h.symbols _ haccepted _ hmem) (by decide)
  · intro h
    have hmatch : domainReMatch (normalized domain)=true ↔ IsDomain (normalized domain) :=
      domainReMatch_iff.trans (or_iff_left h)
    by_cases haccepted : domainReMatch (normalized domain)=true
    · rw [if_pos haccepted] at hlookup
      refine ⟨?_,fun value hvalue => ?_⟩
      · rw [hlookup]
        exact ⟨fun _ => hmatch.mp haccepted,fun _ => rfl⟩
      · rw [hlookup] at hvalue
        exact Option.some.inj hvalue ▸ (hmatch.mp haccepted).name.symbols
    · rw [if_neg haccepted] at hlookup
      refine ⟨?_,fun value hvalue => ?_⟩
      · rw [hlookup]
        exact ⟨fun hsome => absurd hsome Bool.false_ne_true,
          fun hname => absurd (hmatch.mpr hname) haccepted⟩
      · rw [hlookup] at hvalue
        cases hvalue

/-- An input with a line feed in front of its last dot is accepted with the line
feed. -/
theorem lookupDomain_accepts_feed : ¬AcceptsDomains "evil.com\n.".toList := by
  intro h
  have haccepted : "evil.com\n".toList∈lookupDomain "evil.com\n.".toList := by decide +kernel
  exact absurd (h.symbols _ haccepted '\n' (by decide)) (by decide)

end Acceptance

end ScamLens.DomainGrammar
