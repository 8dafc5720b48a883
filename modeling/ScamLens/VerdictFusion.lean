import ScamLens.ScanWorker

/-!
# Fusion of the model's verdict with the static scan and the age

After the model has answered, the floor of the static scan and then the age of
the domain may override the answer. Each stage only strengthens a verdict, and
together they raise its rank to the largest of the three.
-/

namespace ScamLens.VerdictFusion

open Heuristics PythonText Resolver ScanVerdicts ScanWorker

/-- The scores of a verdict are percentages. -/
structure Scored (v : ScanVerdict) : Prop where
  /-- Risk score. -/
  riskScore : 0≤v.riskScore ∧ v.riskScore≤100
  /-- Confidence. -/
  confidence : 0≤v.confidence ∧ v.confidence≤100

/-- A verdict keeps what another one says, and may add to it. -/
structure Keeps (v out : ScanVerdict) : Prop where
  /-- The risk is not lower. -/
  riskScore : v.riskScore≤out.riskScore
  /-- Neither is the confidence. -/
  confidence : v.confidence≤out.confidence
  /-- The reasons come first. -/
  reasons : v.reasons <+: out.reasons
  /-- The imitated brand is the same. -/
  mimicsBrand : out.mimicsBrand=v.mimicsBrand
  /-- So is the model. -/
  model : out.model=v.model

section Stages

variable {a b c v : ScanVerdict}

theorem Keeps.refl (v : ScanVerdict) : Keeps v v :=
  ⟨Int.le_refl _,Int.le_refl _,List.prefix_rfl,rfl,rfl⟩

theorem Keeps.trans (h : Keeps a b) (k : Keeps b c) : Keeps a c :=
  ⟨h.riskScore.trans k.riskScore,h.confidence.trans k.confidence,h.reasons.trans k.reasons,
    k.mimicsBrand.trans h.mimicsBrand,k.model.trans h.model⟩

/-- A score raised to a percentage is still one. -/
theorem score_max {score bump : ℤ} (h : 0 ≤ score ∧ score≤100) (hbump : bump≤100) :
    0 ≤ max score bump ∧ max score bump≤100 :=
  ⟨h.1.trans (le_max_left _ _),max_le h.2 hbump⟩

/-- The floor keeps what the model said. -/
theorem applyHeuristicFloor_keeps (v : ScanVerdict) (report : HeuristicReport) (domain : Text) :
    Keeps v (applyHeuristicFloor v report domain) := by
  unfold applyHeuristicFloor
  dsimp only
  split
  · exact Keeps.refl v
  · refine ⟨le_max_left _ _,le_max_left _ _,?_,rfl,rfl⟩
    dsimp only
    rw [List.append_assoc]
    exact List.prefix_append _ _

/-- Its scores are percentages. -/
theorem applyHeuristicFloor_scored (h : Scored v) (report : HeuristicReport) (domain : Text) :
    Scored (applyHeuristicFloor v report domain) := by
  unfold applyHeuristicFloor
  dsimp only
  split
  · exact h
  · refine ⟨score_max h.riskScore ?_,score_max h.confidence (by decide)⟩
    split <;> decide

/-- The bump keeps what was said before. -/
theorem bumpFresh_keeps (days : Option ℤ) (v : ScanVerdict) : Keeps v (bumpFresh days v) := by
  unfold bumpFresh
  split
  · exact ⟨le_max_left _ _,le_max_left _ _,List.prefix_append _ _,rfl,rfl⟩
  · exact Keeps.refl v

/-- Its scores are percentages. -/
theorem bumpFresh_scored (h : Scored v) (days : Option ℤ) : Scored (bumpFresh days v) := by
  unfold bumpFresh
  split
  · exact ⟨score_max h.riskScore (by decide),score_max h.confidence (by decide)⟩
  · exact h

end Stages

/-- The severity the age stands for. -/
def ageSeverity (days : Option ℤ) : ScanClass := if brandNew days then .suspicious else .safe

/-- The two stages one after the other. -/
def fused (days : Option ℤ) (report : HeuristicReport) (domain : Text) (v : ScanVerdict) :
    ScanVerdict :=
  bumpFresh days (applyHeuristicFloor v report domain)

/-- The rank of the fused verdict is the largest of the three ranks. -/
theorem fused_rank (days : Option ℤ) (report : HeuristicReport) (domain : Text)
    (v : ScanVerdict) :
    (fused days report domain v).verdict.rank=
      max (max v.verdict.rank (severityFloor report domain).1.rank) (ageSeverity days).rank := by
  rw [fused,bumpFresh_rank,applyHeuristicFloor_rank,ageSeverity]
  split
  · rfl
  · exact (max_eq_left (Nat.zero_le _)).symm

/-- What the fusion of a verdict with a report and an age is. -/
structure Strengthened (days : Option ℤ) (report : HeuristicReport) (domain : Text)
    (v out : ScanVerdict) : Prop where
  /-- The rank is the join of the three ranks. -/
  rank : out.verdict.rank=
    max (max v.verdict.rank (severityFloor report domain).1.rank) (ageSeverity days).rank
  /-- The scores are percentages. -/
  scored : Scored out
  /-- Nothing is lost or lowered. -/
  keeps : Keeps v out

/-- The two stages only strengthen. -/
theorem fused_strengthened {v : ScanVerdict} (h : Scored v) (days : Option ℤ)
    (report : HeuristicReport) (domain : Text) :
    Strengthened days report domain v (fused days report domain v) where
  rank := fused_rank days report domain v
  scored := bumpFresh_scored (applyHeuristicFloor_scored h report domain) days
  keeps := (applyHeuristicFloor_keeps v report domain).trans (bumpFresh_keeps days _)

section Scan

variable (charRefs : Text → Text) (domain : Text) (page : PageCapture)
  (ai : AIRequest → Except Text ScanVerdict)

/-- On a page with content a scan saves the fused verdict. -/
theorem scanBody_fused {days : Option ℤ} {v : ScanVerdict} (hage : autoSafe days=false)
    (hpage : classifyEmptyPage charRefs page.html page.status=none)
    (hai : ai (aiRequest domain page)=.ok v) :
    scanBody charRefs domain (.ok days) (.ok (some page)) ai=
      .ok (.save (fused days (analyze page.html domain) domain v)) := by
  rw [scanBody,scanAged_captured hage,scanPage,hpage,hai]
  rfl

/-- Whatever the report and the age, the fusion of a verdict of the model only
strengthens it, and it is what a scan of a page with content saves. -/
theorem scanBody_strengthens {days : Option ℤ} {v : ScanVerdict} (hage : autoSafe days=false)
    (hscored : Scored v) :
    (∀ report, Strengthened days report domain v (fused days report domain v)) ∧
    (classifyEmptyPage charRefs page.html page.status=none →
      ai (aiRequest domain page)=.ok v →
      ∃ saved, scanBody charRefs domain (.ok days) (.ok (some page)) ai=.ok (.save saved) ∧
        Strengthened days (analyze page.html domain) domain v saved) := by
  refine ⟨fun report => fused_strengthened hscored days report domain,fun hpage hai => ?_⟩
  exact ⟨_,scanBody_fused charRefs domain page ai hage hpage hai,
    fused_strengthened hscored days _ domain⟩

/-- A safe answer on a three days old domain whose page asks for a wallet
phrase. -/
theorem scanBody_strengthens_phrase :
    ∃ saved, scanBody id "a.bc".toList (.ok (some 3))
        (.ok (some (phrasePage 200 (List.replicate 200 'a'))))
        (fun _ => .ok (modelVerdict .safe))=.ok (.save saved) ∧
      Strengthened (some 3) (analyze (phrasePage 200 (List.replicate 200 'a')).html "a.bc".toList)
        "a.bc".toList (modelVerdict .safe) saved :=
  (scanBody_strengthens id "a.bc".toList (phrasePage 200 (List.replicate 200 'a'))
    (fun _ => .ok (modelVerdict .safe)) (show autoSafe (some 3)=false from rfl)
    ⟨by decide,by decide⟩).2 (by decide +kernel) rfl

end Scan

end ScamLens.VerdictFusion
