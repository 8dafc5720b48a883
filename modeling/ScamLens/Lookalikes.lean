import ScamLens.SeparatorChains
import ScamLens.TyposquatRules

/-!
# Look-alikes of brand labels

Two labels look alike if the homoglyph tables normalize them to the same text.
The detector normalizes the label of a domain but not the brand labels it
compares with, so the look-alikes of a brand whose own label is rewritten by the
tables are found if its normal form meets a brand label, or one by one.
-/

namespace ScamLens.Lookalikes

open PythonText SeparatorChains Typosquat TyposquatRules

section Normalization

variable {b s : Text}

/-- Replacing by something leaves something. -/
theorem replace_ne_nil {src dst : Text} (hdst : dst≠[]) (hs : s≠[]) : replace src dst s≠[] := by
  obtain ⟨c,rest,rfl⟩ := List.exists_cons_of_ne_nil hs
  rw [replace,replaceFrom]
  split
  · exact List.append_ne_nil_of_left_ne_nil hdst _
  · exact List.cons_ne_nil _ _

/-- Only the empty label looks like the empty label. -/
theorem normalize_eq_nil (h : normalize s=[]) : s=[] := by
  by_contra hs
  have hsteps (pairs : List (Text×Text)) (hpairs : ∀ pair∈pairs, pair.2≠[]) (out : Text)
      (hout : out≠[]) : pairs.foldl (fun out pair => replace pair.1 pair.2 out) out≠[] := by
    induction pairs generalizing out with
    | nil => exact hout
    | cons pair pairs ih =>
      exact ih (fun p hp => hpairs p (List.mem_cons_of_mem _ hp)) _
        (replace_ne_nil (hpairs pair List.mem_cons_self) hout)
  exact hsteps multiHomoglyphs (by decide) s hs (List.map_eq_nil_iff.mp h)

/-- The characters that the tables read or write. -/
def tableChars : Text := "013455$@!ilrnvcoeasmwd".toList

/-- A property of characters that the two sides of a replacement have holds of
all characters of the result exactly if it held of all before. -/
theorem replaceFrom_forall {P : Char → Prop} {first : Char} {src dst : Text}
    (hsrc : ∀ c∈first::src, P c) (hdst : ∀ c∈dst, P c) (s : Text) (skip : ℕ)
    (hskip : ∀ c∈s.take skip, P c) :
    (∀ c∈replaceFrom (first::src) dst skip s, P c) ↔ ∀ c∈s, P c := by
  induction s generalizing skip with
  | nil => rw [replaceFrom]
  | cons c s ih =>
    cases skip with
    | succ skip =>
      rw [List.take_succ_cons,List.forall_mem_cons] at hskip
      rw [replaceFrom,ih skip hskip.2,List.forall_mem_cons]
      exact (and_iff_right hskip.1).symm
    | zero =>
      rw [replaceFrom]
      split
      · rename_i hpre
        obtain ⟨rfl,hrest⟩ := List.cons_prefix_cons.mp (List.isPrefixOf_iff_prefix.mp hpre)
        have hskipped : ∀ e∈s.take src.length, P e := by
          rw [←List.prefix_iff_eq_take.mp hrest]
          exact fun e he => hsrc e (List.mem_cons_of_mem _ he)
        rw [List.forall_mem_append,List.length_cons,Nat.add_sub_cancel,ih _ hskipped,
          and_iff_right hdst,List.forall_mem_cons]
        exact (and_iff_right (hsrc first List.mem_cons_self)).symm
      · rw [List.forall_mem_cons,List.forall_mem_cons,ih 0 (fun e he => absurd he List.not_mem_nil)]

/-- A character that the map of single characters changes is in the tables, and
so is what it becomes. -/
theorem homoglyph_cases (c : Char) :
    homoglyph c=c ∨ c∈tableChars ∧ homoglyph c∈tableChars := by
  by_cases hc : c∈['0','1','3','4','5','$','@','!','i']
  · right
    revert c
    decide
  · left
    simp only [List.mem_cons,List.not_mem_nil,or_false,not_or] at hc
    simp only [homoglyph,hc,if_false]

/-- A property of characters that all of the tables have holds of a normalized
form exactly if it holds of the text. -/
theorem normalize_forall {P : Char → Prop} (hP : ∀ c∈tableChars, P c) :
    (∀ c∈normalize s, P c) ↔ ∀ c∈s, P c := by
  have hpairs (pairs : List (Text×Text))
      (htable : ∀ pair∈pairs, pair.1≠[] ∧ pair.1⊆tableChars ∧ pair.2⊆tableChars) (out : Text) :
      (∀ c∈pairs.foldl (fun out pair => replace pair.1 pair.2 out) out, P c) ↔
        ∀ c∈out, P c := by
    induction pairs generalizing out with
    | nil => rfl
    | cons pair pairs ih =>
      obtain ⟨hne,hsrc,hdst⟩ := htable pair List.mem_cons_self
      obtain ⟨first,rest,hpair⟩ := List.exists_cons_of_ne_nil hne
      rw [List.foldl_cons,ih (fun p hp => htable p (List.mem_cons_of_mem _ hp)),replace,hpair]
      rw [hpair] at hsrc
      exact replaceFrom_forall (fun c hc => hP c (hsrc hc)) (fun c hc => hP c (hdst hc)) _ _
        (fun c hc => absurd hc List.not_mem_nil)
  have hchar (c : Char) : P (homoglyph c) ↔ P c := by
    rcases homoglyph_cases c with hself|⟨hc,himage⟩
    · rw [hself]
    · exact ⟨fun _ => hP c hc,fun _ => hP _ himage⟩
  rw [Typosquat.normalize,List.forall_mem_map]
  simp only [hchar]
  exact hpairs multiHomoglyphs (by decide) s

end Normalization

section LowerCase

/-- What the results need of `str.lower`: it leaves text alone that has only
characters it leaves alone, and those include the small ASCII letters, the
digits and the ASCII signs. -/
structure Lowers (lowerText : Text → Text) : Prop where
  /-- Text of fixed characters is fixed. -/
  fixed : ∀ s, (∀ c∈s, lowerText [c]=[c]) → lowerText s=s
  /-- ASCII characters other than capitals are fixed. -/
  ascii : ∀ c : Char, c.toNat<128 → c.toLower=c → lowerText [c]=[c]

/-- Every character is left alone by `str.lower`. -/
def LowerCase (lowerText : Text → Text) (s : Text) : Prop := ∀ c∈s, lowerText [c]=[c]

variable {lowerText : Text → Text} {b s : Text}

/-- ASCII text without capitals is in lower case. -/
theorem Lowers.lowerCase (h : Lowers lowerText) (hs : ∀ c∈s, c.toNat<128 ∧ c.toLower=c) :
    LowerCase lowerText s :=
  fun c hc => h.ascii c (hs c hc).1 (hs c hc).2

/-- Text with the normalized form of a text in lower case is in lower case. -/
theorem LowerCase.of_normalize_eq (h : Lowers lowerText) (hb : LowerCase lowerText b)
    (hlook : normalize s=normalize b) : LowerCase lowerText s := by
  have htable : LowerCase lowerText tableChars := h.lowerCase (by decide)
  exact (normalize_forall htable).mp (hlook ▸ (normalize_forall htable).mpr hb)

/-- The registrable label of a label in lower case under `.com`. -/
theorem registrableLabel_com (h : Lowers lowerText) (hs : s≠[]) (hdot : '.'∉s)
    (hlow : LowerCase lowerText s) :
    registrableLabel lowerText (s++".com".toList)=s := by
  have hcom : LowerCase lowerText ".com".toList := h.lowerCase (by decide)
  have hfixed : lowerText (s++".com".toList)=s++".com".toList :=
    h.fixed _ (List.forall_mem_append.mpr ⟨hlow,hcom⟩)
  have hstrip : stripChar '.' (s++".com".toList)=s++".com".toList := by
    have hhead : (s++".com".toList).dropWhile (· == '.')=s++".com".toList := by
      obtain ⟨c,rest,rfl⟩ := List.exists_cons_of_ne_nil hs
      rw [List.cons_append,List.dropWhile_cons_of_neg]
      intro hc
      exact hdot (beq_iff_eq.mp hc ▸ List.mem_cons_self)
    rw [stripChar,hhead]
    refine rstripChar_eq_self fun hne => ?_
    rw [List.getLast_append_of_ne_nil _ (by decide)]
    decide
  have hsplit : (s++".com".toList).splitOn '.'=[s,"com".toList] := by
    have hback : "com".toList.splitOn '.'=["com".toList] :=
      List.splitOn_eq_singleton (by decide)
    change (s++ '.'::"com".toList).splitOn '.'=_
    rw [List.splitOn_append_cons_self,List.splitOn_eq_singleton hdot,hback]
    rfl
  have hlength : [s,"com".toList].length=2 := rfl
  rw [registrableLabel,hfixed,hstrip,etldPlusOneLabel,hsplit,hlength,
    if_neg (Nat.lt_irrefl 2),if_neg fun h => absurd h.2 (by decide)]
  rfl

/-- `lower` is a lower-casing. -/
theorem lowers_lower : Lowers lower where
  fixed s h := lower_eq_self fun c hc => (List.flatMap_singleton lowerChar c).symm.trans (h c hc)
  ascii c hc hlow := by
    rw [lower,List.flatMap_singleton,lowerChar_ascii hc,hlow]

end LowerCase

section Detection

variable {lowerText : Text → Text} {d : TyposquatDetector} {b s : Text}

/-- A label that looks like the brand label `b` and is no brand label itself. -/
structure LookAlike (d : TyposquatDetector) (b s : Text) : Prop where
  /-- It is a label. -/
  dotless : '.'∉s
  /-- It is no brand label. -/
  unlisted : s∉labels d
  /-- The tables make the same of both. -/
  looks : normalize s=normalize b

/-- A brand label is a few edits from the word or stands in it as a token. -/
def Near (d : TyposquatDetector) (word : Text) : Prop :=
  ∃ b∈labels d, EditClose word b ∨ TokenIn word b

/-- The normalized form of a brand label meets the brand labels, which are not
normalized: it is one of them or near one. -/
def NormalFormMeets (d : TyposquatDetector) (b : Text) : Prop :=
  normalize b∈labels d ∨ Near d (normalize b)

/-- The detector finds every look-alike of a brand label under `.com`. -/
def AllFound (lowerText : Text → Text) (d : TyposquatDetector) (b : Text) : Prop :=
  ∀ s, LookAlike d b s → (checkWith lowerText d (s++".com".toList)).isSome=true

/-- The detector finds a domain exactly if its label is no brand label and one of
its two forms is a brand label or near one. -/
theorem isSome_checkWith_iff (lowerText : Text → Text) (d : TyposquatDetector) (domain : Text) :
    (checkWith lowerText d domain).isSome=true ↔
      let label := registrableLabel lowerText domain
      label≠[] ∧ label∉labels d ∧
        (normalize label∈labels d ∨ Near d (normalize label) ∨ Near d label) := by
  have hnone := (check_followsRules lowerText d domain).1.none_iff
  rw [Option.isSome_iff_ne_none,ne_eq,hnone,not_or,not_or,not_not]
  refine and_congr_right fun _ => and_congr_right fun hnot => ?_
  constructor
  · rintro (⟨-,hmem⟩|⟨b,hb,hclose|hclose⟩|⟨b,hb,htoken|htoken⟩)
    · exact .inl hmem
    · exact .inr (.inr ⟨b,hb,.inl hclose⟩)
    · exact .inr (.inl ⟨b,hb,.inl hclose⟩)
    · exact .inr (.inr ⟨b,hb,.inr htoken⟩)
    · exact .inr (.inl ⟨b,hb,.inr htoken⟩)
  · rintro (hmem|⟨b,hb,hclose|htoken⟩|⟨b,hb,hclose|htoken⟩)
    · exact .inl ⟨fun he => hnot (he ▸ hmem),hmem⟩
    · exact .inr (.inl ⟨b,hb,.inr hclose⟩)
    · exact .inr (.inr ⟨b,hb,.inr htoken⟩)
    · exact .inr (.inl ⟨b,hb,.inl hclose⟩)
    · exact .inr (.inr ⟨b,hb,.inl htoken⟩)

/-- The look-alikes of brand labels are not empty. -/
theorem LookAlike.ne_nil (hb : b∈labels d) (h : LookAlike d b s) : s≠[] := by
  rintro rfl
  have hnil : b=[] := normalize_eq_nil (h.looks.symm.trans rfl)
  exact h.unlisted (hnil ▸ hb)

/-- A look-alike of a brand label in lower case is found exactly if the normal
form of the brand label meets the brand labels or the look-alike is near one. -/
theorem LookAlike.found_iff (h : Lowers lowerText) (hb : b∈labels d)
    (hlow : LowerCase lowerText b) (hs : LookAlike d b s) :
    (checkWith lowerText d (s++".com".toList)).isSome=true ↔ NormalFormMeets d b ∨ Near d s := by
  have hne := hs.ne_nil hb
  rw [isSome_checkWith_iff,
    registrableLabel_com h hne hs.dotless (hlow.of_normalize_eq h hs.looks)]
  dsimp only
  rw [hs.looks,and_iff_right hne,and_iff_right hs.unlisted,NormalFormMeets,or_assoc]

/-- A brand label has no dot. -/
theorem dot_notMem_of_mem_labels (hb : b∈labels d) : '.'∉b := by
  obtain ⟨entry,-,rfl⟩ := List.mem_map.mp hb
  have hpart (n : ℕ) : '.'∉(entry.1.splitOn '.').getD n [] := by
    rw [List.getD_eq_getElem?_getD]
    cases hn : (entry.1.splitOn '.')[n]? with
    | none => exact List.not_mem_nil
    | some part => exact not_mem_of_mem_splitOn (List.mem_of_getElem? hn)
  unfold etldPlusOneLabel
  dsimp only
  split_ifs
  · exact List.not_mem_nil
  · exact hpart _
  · exact hpart _

/-- The normal form of a brand label looks like it if the tables leave the
normal form alone. -/
theorem lookAlike_normalize (hb : b∈labels d) (hfixed : normalize (normalize b)=normalize b)
    (hnot : normalize b∉labels d) : LookAlike d b (normalize b) where
  dotless hdot := by
    have hdots : ∀ c∈normalize b, c≠ '.' := (normalize_forall (by decide)).mpr
      fun c hc he => dot_notMem_of_mem_labels hb (he ▸ hc)
    exact hdots _ hdot rfl
  unlisted := hnot
  looks := hfixed

/-- All look-alikes of a brand label in lower case are found exactly if its
normal form meets the brand labels, or all the look-alikes are near brand labels
as they are; if the tables leave the normal form alone, exactly if that meets
the brand labels. For a brand label with capitals it is what the look-alikes are
in lower case that has to meet them. -/
theorem lookalikes_found_iff (h : Lowers lowerText) (d : TyposquatDetector) (b : Text)
    (hb : b∈labels d) :
    (LowerCase lowerText b →
      (AllFound lowerText d b ↔ NormalFormMeets d b ∨ ∀ s, LookAlike d b s → Near d s) ∧
      (normalize (normalize b)=normalize b →
        (AllFound lowerText d b ↔ NormalFormMeets d b))) ∧
    (AllFound lowerText d b ↔ ∀ s, LookAlike d b s →
      let label := registrableLabel lowerText (s++".com".toList)
      label≠[] ∧ label∉labels d ∧
        (normalize label∈labels d ∨ Near d (normalize label) ∨ Near d label)) := by
  refine ⟨fun hlow => ?_,forall_congr' fun s => forall_congr' fun _ =>
    isSome_checkWith_iff lowerText d _⟩
  have hall : AllFound lowerText d b ↔
      NormalFormMeets d b ∨ ∀ s, LookAlike d b s → Near d s := by
    rw [AllFound,←forall_or_left]
    refine forall_congr' fun s => ?_
    rw [←forall_or_left]
    exact forall_congr' fun hs => hs.found_iff h hb hlow
  refine ⟨hall,fun hfixed => hall.trans ⟨?_,.inl⟩⟩
  rintro (hmeets|hnear)
  · exact hmeets
  · by_cases hmem : normalize b∈labels d
    · exact .inl hmem
    · exact .inr (hnear _ (lookAlike_normalize hb hfixed hmem))

/-- A detector with one brand. -/
def oneBrand (domain brand : Text) : TyposquatDetector := ⟨[(domain,brand)],fun _ _ _ => false⟩

/-- The label `paypal` is its own normalized form. -/
theorem lookalikes_found_paypal :
    AllFound lower (oneBrand "paypal.com".toList "PayPal".toList) "paypal".toList :=
  (((lookalikes_found_iff lowers_lower (oneBrand "paypal.com".toList "PayPal".toList)
    "paypal".toList (by decide)).1 (by unfold LowerCase; decide)).2 (by decide)).mpr
      (.inl (by decide))

/-- The tables make `daude` of `claude` too, but the two labels are two edits
apart and the brand label is short. -/
theorem check_lookalike_missed : ¬∀ (d : TyposquatDetector) (b s : Text), b∈labels d →
    s∉labels d → '.'∉s → normalize s=normalize b → (check d (s++".com".toList)).isSome=true := by
  intro h
  have hsome := h (oneBrand "claude.ai".toList "Claude".toList) "claude".toList "daude".toList
    (by decide) (by decide) (by decide) (by decide)
  exact absurd hsome (by decide)

end Detection

end ScamLens.Lookalikes
