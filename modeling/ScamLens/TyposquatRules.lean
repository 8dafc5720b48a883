import ScamLens.EditDistances
import ScamLens.Typosquat

/-!
# The rules of the typosquat detector

What the three rules find is said without the loops that look for it: the edit
distance is the least number of edits, a brand token is a part of a word with
boundaries around it, and whether one of the rules fires does not depend on the
order in which brands and forms of the label are visited.
-/

namespace ScamLens.TyposquatRules

open EditDistances PythonText Typosquat

section Rows

variable {a b : Text} {k : ℕ}

/-- One row of the table leads to the next one. -/
theorem nextRow_row (ca : Char) (p q b : Text) :
    nextRow ca b (distance (ca::p) q) (distance p q) (row p q b).tail=
      (row (ca::p) q b).tail := by
  induction b generalizing q with
  | nil => rfl
  | cons cb b ih =>
    rw [row_cons,row_cons,List.tail_cons,List.tail_cons,row_eq_cons p,row_eq_cons (ca::p),
      nextRow,←distance_cons_cons,ih]

/-- The least entry of a row is below each of them. -/
theorem foldl_min_le {entries : List ℕ} {start n : ℕ} (h : n∈entries) :
    entries.foldl min start≤n := by
  have hstart (entries : List ℕ) (start : ℕ) : entries.foldl min start ≤ start := by
    induction entries generalizing start with
    | nil => exact Nat.le_refl _
    | cons m entries ih => exact (ih _).trans (Nat.min_le_left _ _)
  induction entries generalizing start with
  | nil => cases h
  | cons m entries ih =>
    rcases List.mem_cons.mp h with rfl|h
    · exact (hstart entries _).trans (Nat.min_le_right _ _)
    · exact ih h

/-- From the row of a front of the word on, the loop ends with the distance of
the whole, or stops above the bound. -/
theorem levenshteinRows_cases (k : ℕ) (a p b : Text) :
    levenshteinRows k b a (p.length+1) (row p [] b)=some (distance (a.reverse++p) b.reverse) ∨
      levenshteinRows k b a (p.length+1) (row p [] b)=none ∧
        k<distance (a.reverse++p) b.reverse := by
  induction a generalizing p with
  | nil =>
    rw [levenshteinRows,getLast?_row,List.append_nil]
    exact .inl rfl
  | cons ca a ih =>
    have hlength : p.length+1=distance (ca::p) [] := (distance_nil_right (ca::p)).symm
    have hcurr : (p.length+1)::nextRow ca b (p.length+1) ((row p [] b).headD 0)
        (row p [] b).tail=row (ca::p) [] b := by
      rw [hlength,row_eq_cons p,List.headD_cons,List.tail_cons,nextRow_row,←row_eq_cons]
    rw [levenshteinRows,hcurr,List.reverse_cons,List.append_assoc,List.singleton_append]
    by_cases hmin : k<(row (ca::p) [] b).foldl min (p.length+1)
    · rw [if_pos hmin]
      obtain ⟨rest,hrest,hle⟩ := exists_suffix_distance_le_append a.reverse (ca::p) b.reverse
      exact .inr ⟨rfl,(hmin.trans_le (foldl_min_le (mem_row hrest))).trans_le hle⟩
    · rw [if_neg hmin]
      exact ih (ca::p)

/-- The bounded search gives the distance, or none above the bound. -/
theorem levenshtein_cases (a b : Text) (k : ℕ) :
    levenshtein a b k=some (distance a b) ∨ levenshtein a b k=none ∧ k<distance a b := by
  unfold levenshtein
  by_cases hlength : k<(a.length-b.length)+(b.length-a.length)
  · rw [if_pos hlength]
    exact .inr ⟨rfl,hlength.trans_le (length_sub_le_distance a b)⟩
  · rw [if_neg hlength]
    by_cases heq : a=b
    · rw [if_pos heq,distance_eq_zero.mpr heq]
      exact .inl rfl
    · have hrows := levenshteinRows_cases k a [] b
      rw [row_nil_left,List.append_nil,distance_reverse] at hrows
      rwa [if_neg heq,List.range_eq_range']

/-- What the bounded search returns is the least number of edits, and it gives
up only on words that are more edits apart than the bound. -/
theorem levenshtein_exact (a b : Text) (k : ℕ) :
    (levenshtein a b k=none → ∀ n, Edits a b n → k < n) ∧
      ∀ n, levenshtein a b k=some n → IsLeast {n | Edits a b n} n := by
  have hleast := isLeast_distance a b
  rcases levenshtein_cases a b k with hsome|⟨hnone,hfar⟩
  · rw [hsome]
    refine ⟨fun h => absurd h (Option.some_ne_none _),fun n h => ?_⟩
    rwa [←Option.some.inj h]
  · rw [hnone]
    exact ⟨fun _ n hn => hfar.trans_le (hleast.2 hn),
      fun n h => absurd h.symm (Option.some_ne_none n)⟩

end Rows

/-- Rule two: one edit between the words, or two if the brand label is long. -/
def EditClose (word brandLabel : Text) : Prop :=
  distance word brandLabel=1 ∨ distance word brandLabel=2 ∧ 7 ≤ brandLabel.length

/-- The rule is the distance between one and the bound of the brand label. -/
theorem editClose_iff {word brandLabel : Text} :
    EditClose word brandLabel ↔
      0<distance word brandLabel ∧ distance word brandLabel ≤ maxEdits brandLabel := by
  unfold EditClose maxEdits
  split <;> omega

/-- The hit of the edit-distance rule. -/
theorem editHit_eq_some {entry : Text×Text×Text} {word : Text} {hit : TyposquatHit} :
    editHit entry word=some hit ↔ EditClose word entry.1 ∧
      hit=⟨entry.2.2,entry.2.1,
        "edit distance ".toList++ofInt (distance word entry.1)++" from ".toList++entry.2.1,
        distance word entry.1⟩ := by
  unfold editHit
  dsimp only
  rw [editClose_iff]
  have hlength := length_sub_le_distance word entry.1
  by_cases hsize : maxEdits entry.1<
      (entry.1.length-word.length)+(word.length-entry.1.length)
  · rw [if_pos hsize]
    refine ⟨fun h => absurd h (Option.some_ne_none _).symm,fun h => ?_⟩
    omega
  · rw [if_neg hsize]
    rcases levenshtein_cases word entry.1 (maxEdits entry.1) with hd|⟨hnone,hfar⟩
    · rw [hd]
      dsimp only
      by_cases hclose : 0<distance word entry.1 ∧ distance word entry.1 ≤ maxEdits entry.1
      · rw [if_pos hclose,Option.some.injEq]
        exact ⟨fun h => ⟨hclose,h.symm⟩,fun h => h.2.symm⟩
      · rw [if_neg hclose]
        exact ⟨fun h => absurd h (Option.some_ne_none _).symm,fun h => absurd h.1 hclose⟩
    · rw [hnone]
      refine ⟨fun h => absurd h (Option.some_ne_none _).symm,fun h => ?_⟩
      omega

section Tokens

variable {label brand : Text}

/-- The brand stands at a position of the label, with a boundary on each side:
an end of the label, or a dash or underscore. -/
def TokenAt (label brand : Text) (i : ℕ) : Prop :=
  i≤label.length ∧ brand <+: label.drop i ∧
    (i=0 ∨ ∀ c∈label[i-1]?, isBoundary c=true) ∧
    ∀ c∈label[i+brand.length]?, isBoundary c=true

/-- Rule three: the brand label of five or more characters stands in another
word, with boundaries around it. -/
def TokenIn (word brandLabel : Text) : Prop :=
  5≤brandLabel.length ∧ word≠brandLabel ∧
    ∃ before after, word=before++brandLabel++after ∧
      (∀ c∈before.getLast?, isBoundary c=true) ∧ ∀ c∈after.head?, isBoundary c=true

/-- The first occurrence from a position on. -/
theorem find_eq_some {s part : Text} {start i : ℕ} (h : find s part start=some i) :
    start ≤ i ∧ i ≤ s.length ∧ part <+: s.drop i ∧
      ∀ j, start≤j → j < i → ¬part <+: s.drop j := by
  rw [find,List.head?_filter,List.find?_range_eq_some] at h
  simp only [Bool.and_eq_true,decide_eq_true_eq,List.isPrefixOf_iff_prefix,List.mem_range,
    Bool.not_eq_true',Bool.and_eq_false_iff,decide_eq_false_iff_not] at h
  obtain ⟨⟨hstart,hpart⟩,hi,hfirst⟩ := h
  refine ⟨hstart,by omega,hpart,fun j hj hlt hp => ?_⟩
  rcases hfirst j hlt with hn|hn
  · exact hn hj
  · exact Bool.eq_false_iff.mp hn (List.isPrefixOf_iff_prefix.mpr hp)

/-- Without an occurrence from a position on. -/
theorem find_eq_none {s part : Text} {start : ℕ} (h : find s part start=none) :
    ∀ j, start≤j → j ≤ s.length → ¬part <+: s.drop j := by
  rw [find,List.head?_filter,List.find?_eq_none] at h
  intro j hj hle hp
  refine h j (List.mem_range.mpr (by omega)) ?_
  rw [Bool.and_eq_true,decide_eq_true_eq,List.isPrefixOf_iff_prefix]
  exact ⟨hj,hp⟩

/-- The two tests around an occurrence are its boundaries. -/
theorem tokenAt_iff {i : ℕ} (hi : i≤label.length) (hpart : brand <+: label.drop i) :
    TokenAt label brand i ↔ ((i==0 || (label[i-1]?).any isBoundary) &&
      (i+brand.length==label.length || (label[i+brand.length]?).any isBoundary))=true := by
  have hfits : i+brand.length≤label.length := by
    have hlength := hpart.length_le
    rw [List.length_drop] at hlength
    omega
  have hright : (∀ c∈label[i+brand.length]?, isBoundary c=true) ↔
      (i+brand.length==label.length || (label[i+brand.length]?).any isBoundary)=true := by
    rcases Nat.lt_or_eq_of_le hfits with hlt|heq
    · simp [List.getElem?_eq_getElem hlt,Nat.ne_of_lt hlt]
    · simp [heq]
  have hleft : (i=0 ∨ ∀ c∈label[i-1]?, isBoundary c=true) ↔
      (i==0 || (label[i-1]?).any isBoundary)=true := by
    rcases Nat.eq_zero_or_pos i with rfl|hpos
    · simp
    · have hlt : i-1<label.length := by omega
      simp [List.getElem?_eq_getElem hlt]
  rw [Bool.and_eq_true,←hleft,←hright]
  exact ⟨fun h => ⟨h.2.2.1,h.2.2.2⟩,fun h => ⟨hi,hpart,h.1,h.2⟩⟩

/-- With fuel for all positions left, the loop finds a bounded occurrence
exactly if there is one. -/
theorem containsAtBoundaryFrom_iff (label brand : Text) (fuel idx : ℕ)
    (hfuel : label.length+2≤fuel+idx) (hidx : idx≤label.length+1) :
    ∃ found, containsAtBoundaryFrom label brand fuel idx=some found ∧
      (found=true ↔ ∃ i, idx ≤ i ∧ TokenAt label brand i) := by
  induction fuel generalizing idx with
  | zero => omega
  | succ fuel ih =>
    rw [containsAtBoundaryFrom]
    cases hfind : find label brand idx with
    | none =>
      refine ⟨false,rfl,nofun,?_⟩
      rintro ⟨i,hi,htoken⟩
      exact absurd htoken.2.1 (find_eq_none hfind i hi htoken.1)
    | some i =>
      obtain ⟨hstart,hle,hpart,hfirst⟩ := find_eq_some hfind
      dsimp only
      by_cases htoken : TokenAt label brand i
      · rw [if_pos ((tokenAt_iff hle hpart).mp htoken)]
        exact ⟨true,rfl,fun _ => ⟨i,hstart,htoken⟩,fun _ => rfl⟩
      · rw [if_neg fun h => htoken ((tokenAt_iff hle hpart).mpr h)]
        obtain ⟨found,hfound,hiff⟩ := ih (i+1) (by omega) (by omega)
        refine ⟨found,hfound,hiff.trans ⟨?_,?_⟩⟩
        · rintro ⟨j,hj,hat⟩
          exact ⟨j,by omega,hat⟩
        · rintro ⟨j,hj,hat⟩
          refine ⟨j,?_,hat⟩
          rcases Nat.lt_trichotomy j i with hlt|rfl|hgt
          · exact absurd hat.2.1 (hfirst j hj hlt)
          · exact absurd hat htoken
          · exact hgt

/-- A bounded occurrence splits the word. -/
theorem tokenAt_exists_iff :
    (∃ i, TokenAt label brand i) ↔ ∃ before after, label=before++brand++after ∧
      (∀ c∈before.getLast?, isBoundary c=true) ∧ ∀ c∈after.head?, isBoundary c=true := by
  constructor
  · rintro ⟨i,hi,⟨after,hafter⟩,hleft,hright⟩
    have hlabel : label=label.take i++brand++after := by
      rw [List.append_assoc,hafter,List.take_append_drop]
    have hlength : (label.take i).length=i := List.length_take_of_le hi
    refine ⟨label.take i,after,hlabel,fun c hc => ?_,fun c hc => hright c ?_⟩
    · rcases hleft with rfl|hleft
      · cases hc
      · refine hleft c ?_
        have hpos : 0 < i := by
          refine Nat.pos_of_ne_zero ?_
          rintro rfl
          cases hc
        rwa [List.getLast?_eq_getElem?,hlength,List.getElem?_take_of_lt (by omega)] at hc
    · rw [hlabel,List.getElem?_append_right (by rw [List.length_append,hlength]),
        List.length_append,hlength,Nat.sub_self,←List.head?_eq_getElem?]
      exact hc
  · rintro ⟨before,after,rfl,hleft,hright⟩
    refine ⟨before.length,?_,?_,?_,?_⟩
    · rw [List.append_assoc,List.length_append]
      omega
    · rw [List.append_assoc,List.drop_left]
      exact List.prefix_append _ _
    · refine before.eq_nil_or_concat.imp (fun h => by rw [h]; rfl) ?_
      rintro ⟨front,c,rfl⟩ d hd
      refine hleft d ?_
      rw [List.append_assoc,List.getElem?_append_left (by simp)] at hd
      rwa [List.getLast?_eq_getElem?]
    · intro c hc
      rw [←List.length_append,List.getElem?_append_right (Nat.le_refl _),Nat.sub_self,
        ←List.head?_eq_getElem?] at hc
      exact hright c hc

/-- What the boundary search is for. -/
theorem containsAtBoundary_iff (label brand : Text) :
    containsAtBoundary label brand=true ↔ label≠brand ∧
      ∃ before after, label=before++brand++after ∧
        (∀ c∈before.getLast?, isBoundary c=true) ∧ ∀ c∈after.head?, isBoundary c=true := by
  unfold containsAtBoundary
  by_cases heq : label=brand
  · rw [if_pos heq]
    exact ⟨nofun,fun h => absurd heq h.1⟩
  · rw [if_neg heq]
    obtain ⟨found,hfound,hiff⟩ := containsAtBoundaryFrom_iff label brand (label.length+2) 0
      (Nat.le_refl _) (Nat.zero_le _)
    rw [hfound,Option.getD_some,hiff,←tokenAt_exists_iff]
    exact ⟨fun ⟨i,_,h⟩ => ⟨heq,i,h⟩,fun ⟨_,i,h⟩ => ⟨i,Nat.zero_le _,h⟩⟩

/-- The hit of the token rule. -/
theorem tokenHit_eq_some {entry : Text×Text×Text} {word : Text} {hit : TyposquatHit} :
    tokenHit word entry=some hit ↔ TokenIn word entry.1 ∧
      hit=⟨entry.2.2,entry.2.1,
        "contains brand '".toList++entry.2.2++"' in non-official domain".toList,0⟩ := by
  have htoken := containsAtBoundary_iff word entry.1
  unfold tokenHit TokenIn
  by_cases hshort : entry.1.length<5
  · rw [if_pos hshort]
    refine ⟨fun h => absurd h (Option.some_ne_none _).symm,fun h => ?_⟩
    omega
  · rw [if_neg hshort,←htoken]
    by_cases hfound : containsAtBoundary word entry.1=true
    · rw [if_pos hfound,Option.some.injEq]
      exact ⟨fun h => ⟨⟨Nat.le_of_not_lt hshort,hfound⟩,h.symm⟩,fun h => h.2.symm⟩
    · rw [if_neg hfound]
      exact ⟨fun h => absurd h (Option.some_ne_none _).symm,fun h => absurd h.1.2 hfound⟩

end Tokens

section Dictionaries

variable {ν : Type*} {key : Text} {value : ν}

/-- What a dictionary holds after an assignment. -/
theorem mem_dictSet {entry : Text×ν} {d : List (Text×ν)} (h : entry∈dictSet key value d) :
    entry=(key,value) ∨ entry∈d := by
  induction d with
  | nil => exact .inl (List.mem_singleton.mp h)
  | cons first d ih =>
    rw [dictSet] at h
    split at h
    · exact (List.mem_cons.mp h).imp_right (List.mem_cons_of_mem _)
    · rcases List.mem_cons.mp h with rfl|h
      · exact .inr List.mem_cons_self
      · exact (ih h).imp_right (List.mem_cons_of_mem _)

/-- The keys of a dictionary after an assignment. -/
theorem mem_keys_dictSet {k : Text} {d : List (Text×ν)} :
    k∈(dictSet key value d).map Prod.fst ↔ k=key ∨ k∈d.map Prod.fst := by
  induction d with
  | nil => rw [dictSet,List.map_cons,List.mem_cons]
  | cons first d ih =>
    rw [dictSet]
    split
    · rename_i hkey
      rw [List.map_cons,List.map_cons,List.mem_cons,List.mem_cons,hkey,←or_assoc,or_self]
    · rw [List.map_cons,List.map_cons,List.mem_cons,List.mem_cons,ih,or_left_comm]

/-- A dictionary holds the pairs it is made of. -/
theorem mem_dictOf {entry : Text×ν} {pairs : List (Text×ν)} (h : entry∈dictOf pairs) :
    entry∈pairs := by
  induction pairs using List.reverseRecOn with
  | nil => cases h
  | append_singleton pairs pair ih =>
    rw [dictOf,List.foldl_append,List.foldl_cons,List.foldl_nil] at h
    rcases mem_dictSet h with rfl|h
    · exact List.mem_append_right _ List.mem_cons_self
    · exact List.mem_append_left _ (ih h)

/-- A dictionary has all the keys of the pairs. -/
theorem mem_keys_dictOf {k : Text} {pairs : List (Text×ν)} :
    k∈(dictOf pairs).map Prod.fst ↔ k∈pairs.map Prod.fst := by
  induction pairs using List.reverseRecOn with
  | nil => rfl
  | append_singleton pairs pair ih =>
    have hset : dictOf (pairs++[pair])=dictSet pair.1 pair.2 (dictOf pairs) := by
      rw [dictOf,List.foldl_append,List.foldl_cons,List.foldl_nil,dictOf]
    rw [hset,mem_keys_dictSet,ih,List.map_append,List.mem_append,or_comm]
    exact or_congr_right List.mem_singleton.symm

/-- A key that is found has an entry with its value. -/
theorem mem_of_lookup {d : List (Text×ν)} (h : d.lookup key=some value) : (key,value)∈d := by
  obtain ⟨front,back,rfl,-⟩ := List.lookup_eq_some_iff.mp h
  exact List.mem_append_right _ List.mem_cons_self

/-- The keys found are those of the entries. -/
theorem isSome_lookup {d : List (Text×ν)} :
    (d.lookup key).isSome=true ↔ key∈d.map Prod.fst := by
  rw [List.lookup_isSome_iff,List.mem_map]
  simp only [beq_iff_eq,@eq_comm _ key]

end Dictionaries

section Detector

variable {d : TyposquatDetector} {domain label normalized : Text}

/-- The labels of the brands. -/
def labels (d : TyposquatDetector) : List Text := d.brands.map fun entry => etldPlusOneLabel entry.1

/-- The keys of the precomputed dictionary are the brand labels. -/
theorem mem_keys_brandLabels : label∈d.brandLabels.map Prod.fst ↔ label∈labels d := by
  rw [TyposquatDetector.brandLabels,mem_keys_dictOf,List.map_map]
  rfl

/-- An entry of the precomputed dictionary comes from the brand map. -/
theorem mem_brandLabels {entry : Text×Text×Text} (h : entry∈d.brandLabels) :
    entry.2∈d.brands ∧ etldPlusOneLabel entry.2.1=entry.1 := by
  obtain ⟨brand,hbrand,rfl⟩ := List.mem_map.mp (mem_dictOf h)
  exact ⟨hbrand,rfl⟩

/-- The registrable label of a domain as the detector reads it, with any function
in the place of `str.lower`. -/
def registrableLabel (lowerText : Text → Text) (domain : Text) : Text :=
  etldPlusOneLabel (stripChar '.' (lowerText domain))

/-- Rule one: the normalized form is another word and a brand label. -/
def HomoglyphRule (brandLabels : List Text) (label normalized : Text) : Prop :=
  normalized≠label ∧ normalized∈brandLabels

/-- Rule two, for some brand label and one of the two forms. -/
def EditRule (brandLabels : List Text) (label normalized : Text) : Prop :=
  ∃ b∈brandLabels, EditClose label b ∨ EditClose normalized b

/-- Rule three, for some brand label and one of the two forms. -/
def TokenRule (brandLabels : List Text) (label normalized : Text) : Prop :=
  ∃ b∈brandLabels, TokenIn label b ∨ TokenIn normalized b

/-- An order in which the loops of `check` may visit the brand labels and the
two forms of the label. -/
structure VisitingOrder (d : TyposquatDetector) (label : Text) where
  /-- `_brand_labels.items()`. -/
  entries : List (Text×Text×Text)
  /-- Each of them is visited once. -/
  entries_perm : entries.Perm d.brandLabels
  /-- `candidates`. -/
  editForms : List Text
  /-- They are the two forms. -/
  mem_editForms : ∀ c, c∈editForms ↔
    c=label ∨ c=normalize label
  /-- `{label, normalized}`. -/
  tokenForms : List Text
  /-- They are the two forms. -/
  mem_tokenForms : ∀ c, c∈tokenForms ↔
    c=label ∨ c=normalize label

/-- The loop of the edit-distance rule. -/
def editLoop (entries : List (Text×Text×Text)) (forms : List Text) : Option TyposquatHit :=
  entries.findSome? fun entry => forms.findSome? (editHit entry)

/-- The loop of the token rule. -/
def tokenLoop (entries : List (Text×Text×Text)) (forms : List Text) : Option TyposquatHit :=
  forms.findSome? fun form => entries.findSome? (tokenHit form)

/-- `check` with its loops in a given order, from the registrable label on. -/
def checkInOrder (d : TyposquatDetector) (label : Text) (order : VisitingOrder d label) :
    Option TyposquatHit :=
  if label=[] then none
  else if (d.brandLabels.lookup label).isSome then none
  else
    let normalized := normalize label
    match (if normalized=label then none else d.brandLabels.lookup normalized) with
    | some (canonical,brand) => some {
        brand := brand
        brandDomain := canonical
        reason := "homoglyph of ".toList++brand++" (".toList++label++" looks like ".toList++
          normalized++")".toList
        distance := 0 }
    | none =>
      match editLoop order.entries order.editForms with
      | some hit => some hit
      | none => tokenLoop order.entries order.tokenForms

/-- The forms a loop visits are the two forms. -/
theorem mem_candidates {stage : CheckStage} {c : Text} :
    c∈candidates d stage label normalized ↔ c=label ∨ c=normalized := by
  unfold candidates
  split
  · rename_i h
    rw [List.mem_singleton,h,or_self]
  · split
    · rw [List.mem_cons,List.mem_singleton,or_comm]
    · rw [List.mem_cons,List.mem_singleton]

/-- The order of the detector itself. -/
def ownOrder (d : TyposquatDetector) (label : Text) : VisitingOrder d label where
  entries := d.brandLabels
  entries_perm := List.Perm.refl _
  editForms := candidates d .editDistance label (normalize label)
  mem_editForms _ := mem_candidates
  tokenForms := candidates d .brandToken label (normalize label)
  mem_tokenForms _ := mem_candidates

/-- The detector checks in its own order. -/
theorem checkLabel_eq_checkInOrder (d : TyposquatDetector) (label : Text) :
    checkLabel d label=checkInOrder d label (ownOrder d label) := rfl

/-- A hit of the edit-distance loop. -/
theorem editLoop_eq_some {entries : List (Text×Text×Text)} {forms : List Text}
    {hit : TyposquatHit} (h : editLoop entries forms=some hit) :
    ∃ entry∈entries, ∃ c∈forms, EditClose c entry.1 ∧ (hit.brandDomain,hit.brand)=entry.2 ∧
      hit.distance=distance c entry.1 := by
  obtain ⟨entry,hentry,h⟩ := List.exists_of_findSome?_eq_some h
  obtain ⟨c,hc,h⟩ := List.exists_of_findSome?_eq_some h
  obtain ⟨hclose,rfl⟩ := editHit_eq_some.mp h
  exact ⟨entry,hentry,c,hc,hclose,rfl,rfl⟩

/-- A hit of the token loop. -/
theorem tokenLoop_eq_some {entries : List (Text×Text×Text)} {forms : List Text}
    {hit : TyposquatHit} (h : tokenLoop entries forms=some hit) :
    ∃ entry∈entries, ∃ c∈forms, TokenIn c entry.1 ∧ (hit.brandDomain,hit.brand)=entry.2 ∧
      hit.distance=0 := by
  obtain ⟨c,hc,h⟩ := List.exists_of_findSome?_eq_some h
  obtain ⟨entry,hentry,h⟩ := List.exists_of_findSome?_eq_some h
  obtain ⟨htoken,rfl⟩ := tokenHit_eq_some.mp h
  exact ⟨entry,hentry,c,hc,htoken,rfl,rfl⟩

/-- The edit-distance loop finds nothing if the rule holds nowhere. -/
theorem editLoop_eq_none {entries : List (Text×Text×Text)} {forms : List Text}
    (h : editLoop entries forms=none) :
    ∀ entry∈entries, ∀ c∈forms, ¬EditClose c entry.1 := by
  intro entry hentry c hc hclose
  have hnone := List.findSome?_eq_none_iff.mp (List.findSome?_eq_none_iff.mp h entry hentry) c hc
  exact absurd (editHit_eq_some.mpr ⟨hclose,rfl⟩) (Option.eq_none_iff_forall_ne_some.mp hnone _)

/-- The token loop finds nothing if the rule holds nowhere. -/
theorem tokenLoop_eq_none {entries : List (Text×Text×Text)} {forms : List Text}
    (h : tokenLoop entries forms=none) :
    ∀ entry∈entries, ∀ c∈forms, ¬TokenIn c entry.1 := by
  intro entry hentry c hc htoken
  have hnone := List.findSome?_eq_none_iff.mp (List.findSome?_eq_none_iff.mp h c hc) entry hentry
  exact absurd (tokenHit_eq_some.mpr ⟨htoken,rfl⟩) (Option.eq_none_iff_forall_ne_some.mp hnone _)

end Detector

section Decision

variable {d : TyposquatDetector} {label : Text}

/-- What `check` can answer on a label and its normalized form: no hit for one
of three reasons, or the hit of the first rule that holds. -/
inductive Outcome (d : TyposquatDetector) (label normalized : Text) : Option TyposquatHit → Prop
  | unlabelled (h : label=[]) : Outcome d label normalized none
  | brand (hne : label≠[]) (h : label∈labels d) : Outcome d label normalized none
  | homoglyph {hit : TyposquatHit} (hne : label≠[]) (hnot : label∉labels d)
      (hrule : HomoglyphRule (labels d) label normalized)
      (hbrand : (hit.brandDomain,hit.brand)∈d.brands)
      (hlabel : etldPlusOneLabel hit.brandDomain=normalized) (hdistance : hit.distance=0) :
      Outcome d label normalized (some hit)
  | edit {hit : TyposquatHit} (hne : label≠[]) (hnot : label∉labels d)
      (hfirst : ¬HomoglyphRule (labels d) label normalized)
      (hbrand : (hit.brandDomain,hit.brand)∈d.brands) {c : Text}
      (hform : c=label ∨ c=normalized) (hclose : EditClose c (etldPlusOneLabel hit.brandDomain))
      (hdistance : hit.distance=distance c (etldPlusOneLabel hit.brandDomain)) :
      Outcome d label normalized (some hit)
  | token {hit : TyposquatHit} (hne : label≠[]) (hnot : label∉labels d)
      (hfirst : ¬HomoglyphRule (labels d) label normalized)
      (hsecond : ¬EditRule (labels d) label normalized)
      (hbrand : (hit.brandDomain,hit.brand)∈d.brands) {c : Text}
      (hform : c=label ∨ c=normalized) (htoken : TokenIn c (etldPlusOneLabel hit.brandDomain))
      (hdistance : hit.distance=0) : Outcome d label normalized (some hit)
  | clear (hne : label≠[]) (hnot : label∉labels d)
      (hfirst : ¬HomoglyphRule (labels d) label normalized)
      (hsecond : ¬EditRule (labels d) label normalized)
      (hthird : ¬TokenRule (labels d) label normalized) : Outcome d label normalized none

/-- The edit-distance loop over all brands and forms decides the rule. -/
theorem not_editRule (order : VisitingOrder d label)
    (h : editLoop order.entries order.editForms=none) :
    ¬EditRule (labels d) label (normalize label) := by
  rintro ⟨b,hb,hclose⟩
  obtain ⟨entry,hentry,rfl⟩ := List.mem_map.mp (mem_keys_brandLabels.mpr hb)
  have hno := editLoop_eq_none h entry (order.entries_perm.mem_iff.mpr hentry)
  rcases hclose with hclose|hclose
  · exact hno _ ((order.mem_editForms _).mpr (.inl rfl)) hclose
  · exact hno _ ((order.mem_editForms _).mpr (.inr rfl)) hclose

/-- The token loop over all brands and forms decides the rule. -/
theorem not_tokenRule (order : VisitingOrder d label)
    (h : tokenLoop order.entries order.tokenForms=none) :
    ¬TokenRule (labels d) label (normalize label) := by
  rintro ⟨b,hb,htoken⟩
  obtain ⟨entry,hentry,rfl⟩ := List.mem_map.mp (mem_keys_brandLabels.mpr hb)
  have hno := tokenLoop_eq_none h entry (order.entries_perm.mem_iff.mpr hentry)
  rcases htoken with htoken|htoken
  · exact hno _ ((order.mem_tokenForms _).mpr (.inl rfl)) htoken
  · exact hno _ ((order.mem_tokenForms _).mpr (.inr rfl)) htoken

/-- An entry that was visited is a brand of the map under its label. -/
theorem brand_of_entry (order : VisitingOrder d label) {hit : TyposquatHit}
    {entry : Text×Text×Text} (hentry : entry∈order.entries)
    (hbrand : (hit.brandDomain,hit.brand)=entry.2) :
    (hit.brandDomain,hit.brand)∈d.brands ∧ etldPlusOneLabel hit.brandDomain=entry.1 := by
  obtain ⟨hmem,hlabel⟩ := mem_brandLabels (order.entries_perm.mem_iff.mp hentry)
  rw [←hbrand] at hmem hlabel
  exact ⟨hmem,hlabel⟩

/-- A hit of the edit-distance loop behind the first rule. -/
theorem outcome_editLoop {hit : TyposquatHit} (order : VisitingOrder d label) (hne : label≠[])
    (hnot : label∉labels d)
    (hfirst : ¬HomoglyphRule (labels d) label (normalize label))
    (h : editLoop order.entries order.editForms=some hit) :
    Outcome d label (normalize label) (some hit) := by
  obtain ⟨entry,hentry,c,hc,hclose,hbrand,hdistance⟩ := editLoop_eq_some h
  obtain ⟨hmem,hlabel⟩ := brand_of_entry order hentry hbrand
  rw [←hlabel] at hclose hdistance
  exact .edit hne hnot hfirst hmem ((order.mem_editForms c).mp hc) hclose hdistance

/-- The answer of the token loop behind the first two rules. -/
theorem outcome_tokenLoop (order : VisitingOrder d label) (hne : label≠[])
    (hnot : label∉labels d)
    (hfirst : ¬HomoglyphRule (labels d) label (normalize label))
    (hsecond : ¬EditRule (labels d) label (normalize label)) :
    Outcome d label (normalize label)
      (tokenLoop order.entries order.tokenForms) := by
  cases h : tokenLoop order.entries order.tokenForms with
  | some hit =>
    obtain ⟨entry,hentry,c,hc,htoken,hbrand,hdistance⟩ := tokenLoop_eq_some h
    obtain ⟨hmem,hlabel⟩ := brand_of_entry order hentry hbrand
    rw [←hlabel] at htoken
    exact .token hne hnot hfirst hsecond hmem ((order.mem_tokenForms c).mp hc) htoken hdistance
  | none => exact .clear hne hnot hfirst hsecond (not_tokenRule order h)

/-- The answer in any order. -/
theorem checkInOrder_outcome (d : TyposquatDetector) (label : Text)
    (order : VisitingOrder d label) :
    Outcome d label (normalize label) (checkInOrder d label order) := by
  unfold checkInOrder
  dsimp only
  by_cases hne : label=[]
  · rw [if_pos hne]
    exact .unlabelled hne
  rw [if_neg hne]
  by_cases hown : (d.brandLabels.lookup label).isSome=true
  · rw [if_pos hown]
    exact .brand hne (mem_keys_brandLabels.mp (isSome_lookup.mp hown))
  rw [if_neg hown]
  have hnot : label∉labels d := fun h => hown (isSome_lookup.mpr (mem_keys_brandLabels.mpr h))
  cases hlookup : (if normalize label=label then none
    else d.brandLabels.lookup (normalize label)) with
  | some entry =>
    obtain ⟨hdiff,hlookup⟩ := Option.ite_none_left_eq_some.mp hlookup
    obtain ⟨hmem,hlabel⟩ := mem_brandLabels (mem_of_lookup hlookup)
    have hrule := mem_keys_brandLabels.mp (isSome_lookup.mp (Option.isSome_of_eq_some hlookup))
    exact .homoglyph hne hnot ⟨hdiff,hrule⟩ hmem hlabel rfl
  | none =>
    have hfirst : ¬HomoglyphRule (labels d) label (normalize label) := by
      rintro ⟨hdiff,hmem⟩
      have hsome := isSome_lookup.mpr (mem_keys_brandLabels.mpr hmem)
      rw [if_neg hdiff] at hlookup
      rw [hlookup] at hsome
      cases hsome
    cases hedit : editLoop order.entries order.editForms with
    | some hit => exact outcome_editLoop order hne hnot hfirst hedit
    | none => exact outcome_tokenLoop order hne hnot hfirst (not_editRule order hedit)

/-- An answer follows the rules: there is no hit exactly if the label is empty
or a brand label or no rule holds; a hit is a brand of the map whose label is a
witness of the first rule that holds, and has distance 0 exactly if that is not
the edit-distance rule. -/
structure FollowsRules (d : TyposquatDetector) (label normalized : Text)
    (answer : Option TyposquatHit) : Prop where
  /-- When there is no hit. -/
  none_iff : answer=none ↔ label=[] ∨ label∈labels d ∨
    ¬(HomoglyphRule (labels d) label normalized ∨ EditRule (labels d) label normalized ∨
      TokenRule (labels d) label normalized)
  /-- The hit's domain is a key of the map with that brand. -/
  brand : ∀ hit, answer=some hit → (hit.brandDomain,hit.brand)∈d.brands
  /-- The hit's label is a witness of the homoglyph rule, if it fired. -/
  homoglyph : ∀ hit, answer=some hit → HomoglyphRule (labels d) label normalized →
    etldPlusOneLabel hit.brandDomain=normalized
  /-- The hit's label is a witness of the edit-distance rule, if it fired. -/
  edit : ∀ hit, answer=some hit → ¬HomoglyphRule (labels d) label normalized →
    EditRule (labels d) label normalized → ∃ c, (c=label ∨ c=normalized) ∧
      EditClose c (etldPlusOneLabel hit.brandDomain) ∧
      hit.distance=distance c (etldPlusOneLabel hit.brandDomain)
  /-- The hit's label is a witness of the token rule, if it fired. -/
  token : ∀ hit, answer=some hit → ¬HomoglyphRule (labels d) label normalized →
    ¬EditRule (labels d) label normalized → ∃ c, (c=label ∨ c=normalized) ∧
      TokenIn c (etldPlusOneLabel hit.brandDomain)
  /-- When the hit has distance 0. -/
  distance_iff : ∀ hit, answer=some hit → (hit.distance=0 ↔
    HomoglyphRule (labels d) label normalized ∨ ¬EditRule (labels d) label normalized)

/-- A brand of the map has a brand label. -/
theorem label_mem_labels {brand : Text×Text} (h : brand∈d.brands) :
    etldPlusOneLabel brand.1∈labels d := List.mem_map_of_mem h

/-- A hit stands against every reason for none. -/
theorem some_eq_none_iff {label : Text} {hit : TyposquatHit} {rule : Prop} (hne : label≠[])
    (hnot : label∉labels d) (hrule : rule) :
    some hit=none ↔ label=[] ∨ label∈labels d ∨ ¬rule :=
  ⟨nofun,fun h => absurd hrule (h.resolve_left hne |>.resolve_left hnot)⟩

/-- What holds of one of the forms holds of the label or of its normalized form. -/
theorem of_form {P : Text → Prop} {label normalized c : Text} (hform : c=label ∨ c=normalized)
    (h : P c) : P label ∨ P normalized := by
  rcases hform with rfl|rfl
  · exact .inl h
  · exact .inr h

/-- Every outcome follows the rules. -/
theorem Outcome.followsRules {label normalized : Text} {answer : Option TyposquatHit}
    (h : Outcome d label normalized answer) : FollowsRules d label normalized answer := by
  cases h with
  | unlabelled hne =>
    exact ⟨⟨fun _ => .inl hne,fun _ => rfl⟩,nofun,nofun,nofun,nofun,nofun⟩
  | brand hne hmem =>
    exact ⟨⟨fun _ => .inr (.inl hmem),fun _ => rfl⟩,nofun,nofun,nofun,nofun,nofun⟩
  | clear hne hnot hfirst hsecond hthird =>
    refine ⟨⟨fun _ => .inr (.inr ?_),fun _ => rfl⟩,nofun,nofun,nofun,nofun,nofun⟩
    exact fun hrule => hrule.elim hfirst (Or.rec hsecond hthird)
  | @homoglyph hit hne hnot hrule hbrand hlabel hdistance =>
    refine ⟨some_eq_none_iff hne hnot (.inl hrule),?_,?_,?_,?_,?_⟩ <;> rintro _ ⟨⟩
    · exact hbrand
    · exact fun _ => hlabel
    · exact fun hfirst => absurd hrule hfirst
    · exact fun hfirst => absurd hrule hfirst
    · exact ⟨fun _ => .inl hrule,fun _ => hdistance⟩
  | @edit hit hne hnot hfirst hbrand c hform hclose hdistance =>
    have hrule : EditRule (labels d) label normalized :=
      ⟨_,label_mem_labels hbrand,@of_form (EditClose · _) _ _ _ hform hclose⟩
    refine ⟨some_eq_none_iff hne hnot (.inr (.inl hrule)),?_,?_,?_,?_,?_⟩ <;> rintro _ ⟨⟩
    · exact hbrand
    · exact fun h => absurd h hfirst
    · exact fun _ _ => ⟨c,hform,hclose,hdistance⟩
    · exact fun _ hsecond => absurd hrule hsecond
    · refine ⟨fun hzero => ?_,fun h => ?_⟩
      · have hpos := (editClose_iff.mp hclose).1
        omega
      · exact (h.elim hfirst fun hsecond => hsecond hrule).elim
  | @token hit hne hnot hfirst hsecond hbrand c hform htoken hdistance =>
    have hrule : TokenRule (labels d) label normalized :=
      ⟨_,label_mem_labels hbrand,@of_form (TokenIn · _) _ _ _ hform htoken⟩
    refine ⟨some_eq_none_iff hne hnot (.inr (.inr hrule)),?_,?_,?_,?_,?_⟩ <;> rintro _ ⟨⟩
    · exact hbrand
    · exact fun h => absurd h hfirst
    · exact fun _ h => absurd h hsecond
    · exact fun _ _ => ⟨c,hform,htoken⟩
    · exact ⟨fun _ => .inr hsecond,fun _ => hdistance⟩

/-- `check` decides by the three rules, in whatever order its loops visit the
brand labels and the forms of the label, and whatever `str.lower` makes of the
domain. -/
theorem check_followsRules (lowerText : Text → Text) (d : TyposquatDetector) (domain : Text) :
    let label := registrableLabel lowerText domain
    FollowsRules d label (normalize label) (checkWith lowerText d domain) ∧
      ∀ order : VisitingOrder d label,
        FollowsRules d label (normalize label) (checkInOrder d label order) := by
  intro label
  refine ⟨?_,fun order => (checkInOrder_outcome d label order).followsRules⟩
  change FollowsRules d label (normalize label) (checkLabel d label)
  rw [checkLabel_eq_checkInOrder]
  exact (checkInOrder_outcome d label (ownOrder d label)).followsRules

end Decision

end ScamLens.TyposquatRules
