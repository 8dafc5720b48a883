import ScamLens.Heuristics
import ScamLens.MatchCounts

/-!
# Padding a page

What the static scan finds on a page it finds on every page that contains it:
the patterns have no anchors, no marker of an obfuscated script ends inside
another one, and a brand that is mentioned stays mentioned. The severity floor
is monotone in these signals, so text around a page cannot lower it.
-/

namespace ScamLens.PaddedPages

open BacktrackingRegex Heuristics MatchCounts PythonText Regex ScanVerdicts

section Markers

/-- The code points of `[0-9a-fA-F]`. -/
def hexDigits : Text := "0123456789abcdefABCDEF".toList

/-- One choice for each code point of a literal. -/
def fixed (s : Text) : List Text := s.map ([·])

/-- The words of `OBFUSCATED_SCRIPT_RE`. -/
def markers : List (List Text) :=
  ["eval(","atob(","fromCharCode","unescape(","String.fromCharCode","document.write("].map
      (fun s => fixed s.toList)++
    [fixed "\\x".toList++List.replicate 2 hexDigits,
      fixed "\\u".toList++List.replicate 4 hexDigits]

variable {s rest : Text}

/-- A decimal digit is one of ten code points. -/
theorem mem_digits {c : Char} (h : c.isDigit=true) : c∈"0123456789".toList := by
  obtain ⟨hlow,hhigh⟩ := Bool.and_eq_true_iff.mp h
  have h48 : 48 ≤ c.toNat := of_decide_eq_true hlow
  have h57 : c.toNat≤57 := of_decide_eq_true hhigh
  have hdigits : ∀ n ≤ 9, Char.ofNat (48+n)∈"0123456789".toList := by decide
  have hc : Char.ofNat (48+(c.toNat-48))=c := by
    rw [Nat.add_sub_of_le h48,Char.ofNat_toNat]
  rw [←hc]
  exact hdigits _ (by omega)

/-- The class of a hexadecimal digit. -/
theorem mem_hexDigits {c : Char}
    (h : (c.isDigit || ("abcdefABCDEF".toList.contains c))=true) : c∈hexDigits := by
  rcases Bool.or_eq_true_iff.mp h with h|h
  · exact List.mem_append_left "abcdefABCDEF".toList (mem_digits h)
  · exact List.mem_append_right "0123456789".toList (List.contains_iff_mem.mp h)

/-- A literal reads its code points. -/
theorem spells_literal {t : Text} (h : rest∈(literal t).ends s) :
    ∃ front, s=front++rest ∧ Spells (fixed t) front := by
  have hclasses : literal t=classes (t.map fun c d => d == c) := by
    rw [literal,classes,List.map_map]
    rfl
  rw [hclasses] at h
  obtain ⟨front,hs,hall⟩ := mem_ends_classes h
  refine ⟨front,hs,List.forall₂_map_left_iff.mpr ?_⟩
  exact (List.forall₂_map_left_iff.mp hall).imp fun c d hd =>
    List.mem_singleton.mpr (beq_iff_eq.mp hd)

/-- Digits read hexadecimal digits. -/
theorem spells_hexDigits {n : ℕ} (h : rest∈(seqs (List.replicate n hexDigit)).ends s) :
    ∃ front, s=front++rest ∧ Spells (List.replicate n hexDigits) front := by
  induction n generalizing s with
  | zero => exact ⟨[],(List.mem_singleton.mp h).symm,.nil⟩
  | succ n ih =>
    obtain ⟨middle,hmiddle,hrest⟩ := List.mem_flatMap.mp h
    obtain ⟨front,hs,hall⟩ := ih hrest
    cases s with
    | nil => exact absurd hmiddle List.not_mem_nil
    | cons c s =>
      rw [hexDigit,ends] at hmiddle
      split at hmiddle
      · rename_i hc
        rw [List.mem_singleton.mp hmiddle] at hs
        exact ⟨c::front,by rw [hs,List.cons_append],.cons (mem_hexDigits hc) hall⟩
      · exact absurd hmiddle List.not_mem_nil

/-- An escape sequence reads its letter and digits. -/
theorem spells_escape {t : Text} {n : ℕ}
    (h : rest∈(seqs (literal t::List.replicate n hexDigit)).ends s) :
    ∃ front, s=front++rest ∧ Spells (fixed t++List.replicate n hexDigits) front := by
  obtain ⟨middle,hmiddle,hrest⟩ := List.mem_flatMap.mp h
  obtain ⟨front,hs,hletter⟩ := spells_literal hmiddle
  obtain ⟨back,hm,hdigits⟩ := spells_hexDigits hrest
  exact ⟨front++back,by rw [hs,hm,List.append_assoc],List.rel_append hletter hdigits⟩

/-- A match of `OBFUSCATED_SCRIPT_RE` is one of its words. -/
theorem reads_marker (h : rest∈obfuscatedScriptRe.ends s) :
    ∃ choices∈markers, ∃ word, s=word++rest ∧ Spells choices word := by
  obtain ⟨r,hr,hrest⟩ := mem_ends_alts h
  simp only [List.mem_cons,List.not_mem_nil,or_false] at hr
  rcases hr with rfl|rfl|rfl|rfl|rfl|rfl|rfl|rfl
  iterate 6
    exact ⟨_,by simp [markers],spells_literal hrest⟩
  · exact ⟨_,by simp [markers],@spells_escape s rest "\\x".toList 2 hrest⟩
  · exact ⟨_,by simp [markers],@spells_escape s rest "\\u".toList 4 hrest⟩

/-- No marker ends inside another one, wherever it starts. -/
theorem obfuscatedScriptRe_ordered : Ordered obfuscatedScriptRe :=
  ordered_of_conflict reads_marker (by decide) (by decide +kernel)

end Markers

section Floor

variable {a b report : HeuristicReport} {domain : Text}

/-- The signals that make a page a scam. -/
def scamSignals (report : HeuristicReport) : Bool :=
  report.hasSeedPhraseAsk ||
    (report.hasCardField && (!report.credBrandTerms.isEmpty || report.freeTld))

/-- The signals that make a page suspicious. -/
def suspiciousSignals (report : HeuristicReport) : Bool :=
  (report.hasPasswordField && (!report.credBrandTerms.isEmpty || report.freeTld ||
    3 ≤ report.obfuscatedScriptCount || report.hasOtpField || report.hasCardField ||
      report.hasSeedPhraseAsk)) ||
    5 ≤ report.obfuscatedScriptCount || (!report.credBrandTerms.isEmpty && report.freeTld)

/-- The cascade of `severity_floor` asks for these signals. -/
theorem severityFloor_eq (report : HeuristicReport) (domain : Text) :
    (severityFloor report domain).1=
      if scamSignals report then .scam
      else if suspiciousSignals report then .suspicious else .safe := by
  unfold severityFloor scamSignals suspiciousSignals
  dsimp only
  by_cases hseed : report.hasSeedPhraseAsk=true
  · rw [if_pos hseed,hseed,Bool.true_or,if_pos rfl]
  rw [if_neg hseed,Bool.eq_false_iff.mpr hseed,Bool.false_or,Bool.or_false]
  by_cases hcard : (report.hasCardField &&
      (!report.credBrandTerms.isEmpty || report.freeTld))=true
  · rw [if_pos hcard,if_pos hcard]
  rw [if_neg hcard,if_neg hcard]
  by_cases hpassword : (report.hasPasswordField && (!report.credBrandTerms.isEmpty ||
      report.freeTld || 3 ≤ report.obfuscatedScriptCount || report.hasOtpField ||
        report.hasCardField))=true
  · rw [if_pos hpassword,hpassword,Bool.true_or,Bool.true_or,if_pos rfl]
  rw [if_neg hpassword,Bool.eq_false_iff.mpr hpassword,Bool.false_or]
  by_cases hcount : 5 ≤ report.obfuscatedScriptCount
  · rw [if_pos hcount,decide_eq_true hcount,Bool.true_or,if_pos rfl]
  rw [if_neg hcount,decide_eq_false hcount,Bool.false_or]
  by_cases hbrands : (!report.credBrandTerms.isEmpty && report.freeTld)=true
  · rw [if_pos hbrands,if_pos hbrands]
  · rw [if_neg hbrands,if_neg hbrands]

/-- A report shows every signal that another one shows. -/
structure Shows (a b : HeuristicReport) : Prop where
  /-- The password input. -/
  hasPasswordField : a.hasPasswordField → b.hasPasswordField
  /-- The credit-card field. -/
  hasCardField : a.hasCardField → b.hasCardField
  /-- The field for a one-time password. -/
  hasOtpField : a.hasOtpField → b.hasOtpField
  /-- The request for a wallet phrase. -/
  hasSeedPhraseAsk : a.hasSeedPhraseAsk → b.hasSeedPhraseAsk
  /-- At least as many markers of obfuscated scripts. -/
  obfuscatedScriptCount : a.obfuscatedScriptCount≤b.obfuscatedScriptCount
  /-- Some brand, if the other one has one. -/
  credBrandTerms : !a.credBrandTerms.isEmpty → !b.credBrandTerms.isEmpty
  /-- The top-level domain. -/
  freeTld : a.freeTld → b.freeTld

/-- The signals of a scam stay. -/
theorem Shows.scamSignals (h : Shows a b) (ha : scamSignals a) : scamSignals b := by
  simp only [PaddedPages.scamSignals,Bool.or_eq_true,Bool.and_eq_true] at ha ⊢
  exact ha.imp h.hasSeedPhraseAsk
    (And.imp h.hasCardField (Or.imp h.credBrandTerms h.freeTld))

/-- The signals of a suspicious page stay. -/
theorem Shows.suspiciousSignals (h : Shows a b) (ha : suspiciousSignals a) :
    suspiciousSignals b := by
  simp only [PaddedPages.suspiciousSignals,Bool.or_eq_true,Bool.and_eq_true,
    decide_eq_true_eq] at ha ⊢
  refine ha.imp (Or.imp (And.imp h.hasPasswordField ?_) h.obfuscatedScriptCount.trans')
    (And.imp h.credBrandTerms h.freeTld)
  exact Or.imp (Or.imp (Or.imp (Or.imp (Or.imp h.credBrandTerms h.freeTld)
    h.obfuscatedScriptCount.trans') h.hasOtpField) h.hasCardField) h.hasSeedPhraseAsk

/-- The floor is monotone in the signals. -/
theorem Shows.floor (h : Shows a b) (domain : Text) :
    (severityFloor a domain).1.rank≤(severityFloor b domain).1.rank := by
  rw [severityFloor_eq,severityFloor_eq]
  by_cases hscam : PaddedPages.scamSignals a=true
  · rw [if_pos hscam,if_pos (h.scamSignals hscam)]
  rw [if_neg hscam]
  by_cases hsuspicious : PaddedPages.suspiciousSignals a=true
  · rw [if_pos hsuspicious]
    split
    · decide
    · rw [if_pos (h.suspiciousSignals hsuspicious)]
  · rw [if_neg hsuspicious]
    exact Nat.zero_le _

end Floor

section Pages

variable {part s : Text}

/-- A part of a text is a part of a text around it. -/
theorem contains_padded (h : contains part s=true) (pre post : Text) :
    contains part (pre++s++post)=true := by
  rw [contains,List.any_eq_true] at h ⊢
  obtain ⟨tail,htail,hpart⟩ := h
  obtain ⟨front,rfl⟩ := (List.mem_tails _ _).mp htail
  refine ⟨tail++post,(List.mem_tails _ _).mpr ?_,?_⟩
  · rw [List.append_assoc,List.append_assoc]
    exact (List.suffix_append _ _).trans (List.suffix_append _ _)
  · rw [List.isPrefixOf_iff_prefix] at hpart ⊢
    exact hpart.trans (List.prefix_append _ _)

/-- The label of a domain that is not counted as a mentioned brand. -/
def ownLabel (domain : Text) : Text :=
  if domain.contains '.' then ((lower domain).splitOn '.').dropLast.getLastD []
  else lower domain

/-- The list of brands is cut, but not to nothing. -/
theorem credBrandTerms_iff (html domain : Text) :
    !(analyze html domain).credBrandTerms.isEmpty ↔
      ∃ brand∈brandKeywords, contains brand (lower html)=true ∧ brand≠ownLabel domain := by
  have hterms : (analyze html domain).credBrandTerms=
      (brandKeywords.filter fun b => contains b (lower html) && b != ownLabel domain).take 8 := rfl
  rw [hterms,Bool.not_eq_true',List.isEmpty_eq_false_iff,ne_eq,List.take_eq_nil_iff]
  simp only [List.filter_eq_nil_iff,Bool.and_eq_true,bne_iff_ne]
  push Not
  exact ⟨fun h => h.2,fun h => ⟨by decide,h⟩⟩

/-- A page around a page shows every signal of it. -/
theorem analyze_padded (pre html post domain : Text) :
    Shows (analyze html domain) (analyze (pre++html++post) domain) where
  hasPasswordField h := search_padded h pre post
  hasCardField h := search_padded h pre post
  hasOtpField h := search_padded h pre post
  hasSeedPhraseAsk h := search_padded h pre post
  obfuscatedScriptCount := count_padded obfuscatedScriptRe_ordered pre html post
  credBrandTerms h := by
    obtain ⟨brand,hbrand,hcontains,hown⟩ := (credBrandTerms_iff html domain).mp h
    refine (credBrandTerms_iff _ domain).mpr ⟨brand,hbrand,?_,hown⟩
    rw [lower_append,lower_append]
    exact contains_padded hcontains _ _
  freeTld h := h

/-- Text around a page does not lower its severity floor. -/
theorem severityFloor_padded (pre html post domain : Text) :
    (severityFloor (analyze html domain) domain).1.rank≤
      (severityFloor (analyze (pre++html++post) domain) domain).1.rank :=
  (analyze_padded pre html post domain).floor domain

/-- A marker at the seam takes the place of the one on the page. -/
example : obfuscatedScriptRe.count "fromCharCode".toList=1 ∧
    obfuscatedScriptRe.count ("String.".toList++"fromCharCode".toList)=1 := by
  decide +kernel

end Pages

end ScamLens.PaddedPages
