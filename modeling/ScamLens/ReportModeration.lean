import ScamLens.PlainMessages
import ScamLens.TableFrames

/-!
# Moderation of user reports

The decision about a report is kept twice: as the status of its row, and as a
blocklist row that a confirmation adds. A rejection changes the status only.
The copies agree along a run exactly as long as nobody rejects the last
confirmed report of a domain whose blocklist row came from a confirmation.
-/

namespace ScamLens.ReportModeration

open DomainEntries EventRuns KeyedTables ListRefresh PlainMessages PythonText Resolver
  ScanVerdicts Services TableFrames Tables Upstream

/-- A domain is on the blocklist, and only because of reports. -/
def OnlyReported (db : Database) (d : Text) : Prop :=
  d∈db.selectBlocklist ∧ ¬db.HasBlockingRow d ∧
    ∀ row, db.blocklistSeed.lookup d=some row → row.category=some "user-report".toList

/-- Every domain that is blocked only because of reports has a confirmed one. -/
def Backed (db : Database) : Prop := ∀ d, OnlyReported db d → db.HasConfirmedReport d

/-- Report ids are taken from the sequence. -/
def FreshIds (db : Database) : Prop := ∀ id∈db.userReports, id<db.nextReportId

/-- The submission, confirmation or rejection of a report. -/
def IsModeration : Event → Prop
  | .report _ _ _ => True
  | .admin (.confirmReport _) => True
  | .admin (.rejectReport _) => True
  | _ => False

/-- The event rejects a confirmed report of the domain. -/
def RejectsConfirmed (s : Deployment) (d : Text) (e : Event) : Prop :=
  ∃ id row, e=.admin (.rejectReport id) ∧ s.db.userReports.lookup id=some row ∧
    row.status=.confirmed ∧ row.domain=d

/-- The event rejects the last confirmed report of a domain that has a row of
a confirmation on the blocklist and no other reason to be blocked. -/
def RejectsLast (s : Deployment) (e : Event) : Prop :=
  ∃ id row, e=.admin (.rejectReport id) ∧ s.db.userReports.lookup id=some row ∧
    row.status=.confirmed ∧ OnlyReported s.db row.domain ∧ row.domain∈s.db.blocklistSeed ∧
    ∀ other report, s.db.userReports.lookup other=some report → report.status=.confirmed →
      report.domain=row.domain → other=id

variable {dns : Dnslib} {cfg : Config}

/-- Once the last confirmed report of a domain that is blocked only because of
reports is rejected, the next refresh takes the domain off the blocklist. -/
def RemovesLast (dns : Dnslib) (cfg : Config) (s : Deployment) (e : Event) : Prop :=
  ∀ d, OnlyReported s.db d → RejectsConfirmed s d e →
    ¬(step dns cfg s e).db.HasConfirmedReport d →
    d∉(step dns cfg (step dns cfg s e) (.refresh (.blocklist true))).lists.blocklist

variable {s : Deployment} {e : Event} {d : Text}

/-- A refresh loads what the query selects. -/
theorem refresh_blocklist :
    (step dns cfg s (.refresh (.blocklist true))).lists.blocklist=s.db.selectBlocklist := rfl

/-- Moderation leaves the scan verdicts alone. -/
theorem hasBlockingRow_moderation (he : IsModeration e) :
    (step dns cfg s e).db.HasBlockingRow d ↔ s.db.HasBlockingRow d := by
  have hrows : (step dns cfg s e).db.domainVerdicts=s.db.domainVerdicts := by
    rw [step_verdictRows]
    unfold IsModeration at he
    split at he
    · rfl
    · rfl
    · rfl
    · exact he.elim
  rw [Database.HasBlockingRow,Database.HasBlockingRow,hrows]

/-- A domain that stays blocked only because of reports was so before, when its
rows are the same and its confirmed reports are old. -/
theorem onlyReported_of_same {db after : Database}
    (hseed : after.blocklistSeed.lookup d=db.blocklistSeed.lookup d)
    (hverdict : after.HasBlockingRow d ↔ db.HasBlockingRow d)
    (hreport : after.HasConfirmedReport d → db.HasConfirmedReport d)
    (h : OnlyReported after d) : OnlyReported db d := by
  obtain ⟨hmem,hblocking,hcategory⟩ := h
  rw [hverdict] at hblocking
  rw [hseed] at hcategory
  refine ⟨?_,hblocking,hcategory⟩
  rw [Database.mem_selectBlocklist,hverdict,←Finmap.lookup_isSome,hseed,Finmap.lookup_isSome]
    at hmem
  exact db.mem_selectBlocklist.mpr (hmem.imp id (Or.imp id hreport))

section Rejections

variable {id : ℕ}

/-- A rejection leaves the blocklist rows alone. -/
theorem seed_reject :
    (step dns cfg s (.admin (.rejectReport id))).db.blocklistSeed=s.db.blocklistSeed := by
  rw [step_admin_db]
  exact rejectReport_keeps (·.blocklistSeed) (fun _ _ => rfl) s.db id

/-- A rejection leaves the scan verdicts alone. -/
theorem hasBlockingRow_reject :
    (step dns cfg s (.admin (.rejectReport id))).db.HasBlockingRow d ↔ s.db.HasBlockingRow d :=
  hasBlockingRow_moderation trivial

/-- A rejection takes one report out of the confirmed ones. -/
theorem hasConfirmedReport_reject :
    (step dns cfg s (.admin (.rejectReport id))).db.HasConfirmedReport d ↔
      ∃ other report, other≠id ∧ s.db.userReports.lookup other=some report ∧
        report.status=.confirmed ∧ report.domain=d := by
  rw [Database.HasConfirmedReport,step_reports]
  simp only [reportsAfter,lookup_modifyAt]
  constructor
  · intro h
    obtain ⟨other,report,hrow,hstatus,hd⟩ := h
    split at hrow
    · obtain ⟨old,-,rfl⟩ := Option.map_eq_some_iff.mp hrow
      cases hstatus
    · rename_i hne
      exact ⟨other,report,hne,hrow,hstatus,hd⟩
  · intro h
    obtain ⟨other,report,hne,hrow,hstatus,hd⟩ := h
    exact ⟨other,report,by rwa [if_neg hne],hstatus,hd⟩

/-- A rejection keeps every blocked domain backed exactly when it is not that of
the last confirmed report. -/
theorem backed_reject_iff (hs : Backed s.db) :
    Backed (step dns cfg s (.admin (.rejectReport id))).db ↔
      ¬RejectsLast s (.admin (.rejectReport id)) := by
  constructor
  · intro h hlast
    obtain ⟨other,row,he,hrow,hstatus,honly,hmem,hunique⟩ := hlast
    cases he
    have hafter : OnlyReported (step dns cfg s (.admin (.rejectReport id))).db row.domain := by
      refine ⟨?_,?_,?_⟩
      · rw [Database.mem_selectBlocklist,seed_reject]
        exact .inl hmem
      · rw [hasBlockingRow_reject]
        exact honly.2.1
      · rw [seed_reject]
        exact honly.2.2
    obtain ⟨other,report,hne,hother,hconfirmed,hd⟩ := hasConfirmedReport_reject.mp (h _ hafter)
    exact hne (hunique other report hother hconfirmed hd)
  · intro h d honly
    by_contra hnone
    rw [hasConfirmedReport_reject] at hnone
    have hbefore : OnlyReported s.db d :=
      onlyReported_of_same (by rw [seed_reject]) hasBlockingRow_reject
        (fun hc => by
          obtain ⟨other,report,-,hrest⟩ := hasConfirmedReport_reject.mp hc
          exact ⟨other,report,hrest⟩) honly
    obtain ⟨rejected,row,hrow,hstatus,rfl⟩ := hs d hbefore
    have hid : ∀ other report, s.db.userReports.lookup other=some report →
        report.status=.confirmed → report.domain=row.domain → other=id := by
      intro other report hother hconfirmed hd
      by_contra hne
      exact hnone ⟨other,report,hne,hother,hconfirmed,hd⟩
    cases hid rejected row hrow hstatus rfl
    have hmem : row.domain∈s.db.blocklistSeed := by
      have hselect := honly.1
      rw [Database.mem_selectBlocklist,seed_reject] at hselect
      exact (hselect.resolve_right fun hrest =>
        hrest.elim honly.2.1 fun hc => hnone (hasConfirmedReport_reject.mp hc))
    exact h ⟨id,row,rfl,hrow,hstatus,hbefore,hmem,hid⟩

end Rejections

section Confirmations

variable {id : ℕ} {row : ReportRow}

/-- A confirmation may add the blocklist row of its domain, and no other one. -/
theorem lookup_seed_confirm (hrow : s.db.userReports.lookup id=some row) (hd : d≠row.domain) :
    (step dns cfg s (.admin (.confirmReport id))).db.blocklistSeed.lookup d=
      s.db.blocklistSeed.lookup d := by
  rw [step_admin_db,adminWrite,Database.confirmReport,hrow]
  exact (lookup_insertIgnore _ _ _ _).trans (if_neg hd)

/-- A confirmation keeps the confirmed reports and adds one. -/
theorem hasConfirmedReport_confirm (hrow : s.db.userReports.lookup id=some row)
    (h : d=row.domain ∨ s.db.HasConfirmedReport d) :
    (step dns cfg s (.admin (.confirmReport id))).db.HasConfirmedReport d := by
  rw [Database.HasConfirmedReport,step_reports]
  simp only [reportsAfter,lookup_modifyAt]
  rcases h with rfl|⟨other,report,hother,hstatus,hd⟩
  · exact ⟨id,{row with status := .confirmed},by rw [if_pos rfl,hrow]; rfl,rfl,rfl⟩
  · by_cases he : other=id
    · refine ⟨id,{row with status := .confirmed},by rw [if_pos rfl,hrow]; rfl,rfl,?_⟩
      rw [he,hrow] at hother
      rw [←hd,←Option.some.inj hother]
    · exact ⟨other,report,by rwa [if_neg he],hstatus,hd⟩

/-- A confirmation keeps every blocked domain backed. -/
theorem backed_confirm (hs : Backed s.db) :
    Backed (step dns cfg s (.admin (.confirmReport id))).db := by
  intro d honly
  cases hrow : s.db.userReports.lookup id with
  | none =>
    have hsame : (step dns cfg s (.admin (.confirmReport id))).db=s.db := by
      rw [step_admin_db,adminWrite,Database.confirmReport,hrow]
      rfl
    rw [hsame] at honly ⊢
    exact hs d honly
  | some row =>
    by_cases hd : d=row.domain
    · exact hasConfirmedReport_confirm hrow (.inl hd)
    · have hverdict : (step dns cfg s (.admin (.confirmReport id))).db.HasBlockingRow d ↔
          s.db.HasBlockingRow d := hasBlockingRow_moderation trivial
      have hbefore : OnlyReported s.db d :=
        onlyReported_of_same (lookup_seed_confirm hrow hd) hverdict (fun hc => by
          refine (hasConfirmedReport_step hc).resolve_right fun hnew => ?_
          obtain ⟨other,report,he,hother,hdomain⟩ := hnew
          cases he
          rw [hrow] at hother
          exact hd (by rw [←hdomain,Option.some.inj hother])) honly
      exact hasConfirmedReport_confirm hrow (.inr (hs d hbefore))

end Confirmations

section Submissions

variable {raw : Text} {note : Option Text} {ip : Text}

/-- A submission keeps every blocked domain backed. -/
theorem backed_report (hfresh : FreshIds s.db) (hs : Backed s.db) :
    Backed (step dns cfg s (.report raw note ip)).db := by
  intro d honly
  have hverdict : (step dns cfg s (.report raw note ip)).db.HasBlockingRow d ↔
      s.db.HasBlockingRow d := hasBlockingRow_moderation trivial
  have hseed : (step dns cfg s (.report raw note ip)).db.blocklistSeed=s.db.blocklistSeed := by
    rw [step]
    cases reportDomain raw note <;> rfl
  have hbefore : OnlyReported s.db d :=
    onlyReported_of_same (by rw [hseed]) hverdict (fun hc => by
      refine (hasConfirmedReport_step hc).resolve_right fun hnew => ?_
      obtain ⟨other,report,he,-⟩ := hnew
      cases he) honly
  obtain ⟨id,row,hrow,hstatus,hd⟩ := hs d hbefore
  refine ⟨id,row,?_,hstatus,hd⟩
  rw [step_reports,reportsAfter]
  cases reportDomain raw note with
  | none => exact hrow
  | some domain =>
    have hlt := hfresh id (Finmap.mem_of_lookup_eq_some hrow)
    rw [Option.elim_some,lookup_insert_ite,if_neg hlt.ne]
    exact hrow

/-- Report ids stay in the sequence while rows change in place. -/
theorem freshIds_modified {before after : Database} {id : ℕ} {f : ReportRow → ReportRow}
    (h : FreshIds before) (hrows : after.userReports=modifyAt before.userReports id f)
    (hnext : after.nextReportId=before.nextReportId) : FreshIds after := by
  intro other hother
  rw [hnext]
  refine h other ?_
  rw [hrows,←Finmap.lookup_isSome,lookup_modifyAt] at hother
  split at hother
  · rename_i hid
    rw [Option.isSome_map] at hother
    exact hid ▸ Finmap.lookup_isSome.mp hother
  · exact Finmap.lookup_isSome.mp hother

/-- Moderation takes report ids from the sequence. -/
theorem freshIds_moderation (he : IsModeration e) (h : FreshIds s.db) :
    FreshIds (step dns cfg s e).db := by
  unfold IsModeration at he
  split at he
  · rename_i raw note ip
    rw [FreshIds,step]
    cases reportDomain raw note with
    | none => exact h
    | some domain =>
      intro id hid
      rcases Finmap.mem_insert.mp hid with rfl|hid
      · exact Nat.lt_succ_self _
      · exact (h id hid).trans (Nat.lt_succ_self _)
  · rename_i id
    refine freshIds_modified h (step_reports _) ?_
    rw [step_admin_db]
    exact confirmReport_keeps (·.nextReportId) (fun _ _ _ => rfl) s.db id
  · rename_i id
    refine freshIds_modified h (step_reports _) ?_
    rw [step_admin_db]
    exact rejectReport_keeps (·.nextReportId) (fun _ _ => rfl) s.db id
  · exact he.elim

end Submissions

/-- Where every blocked domain is backed afterwards, the next refresh takes the
domain of the last rejected report off the blocklist. -/
theorem removesLast_of_backed (h : Backed (step dns cfg s e).db) : RemovesLast dns cfg s e := by
  intro d honly hrejects hnone
  obtain ⟨id,row,rfl,-⟩ := hrejects
  rw [refresh_blocklist]
  intro hmem
  refine hnone (h d ⟨hmem,?_,?_⟩)
  · rw [hasBlockingRow_reject]
    exact honly.2.1
  · rw [seed_reject]
    exact honly.2.2

/-- One event of the moderation keeps every blocked domain backed exactly when
it does not reject the last report of one. -/
theorem backed_step_iff (hfresh : FreshIds s.db) (hs : Backed s.db) (he : IsModeration e) :
    Backed (step dns cfg s e).db ↔ ¬RejectsLast s e := by
  have hnot : (∀ id, e≠.admin (.rejectReport id)) → ¬RejectsLast s e := by
    intro hne hlast
    obtain ⟨id,-,he,-⟩ := hlast
    exact hne id he
  unfold IsModeration at he
  split at he
  · exact iff_of_true (backed_report hfresh hs) (hnot fun id he => by cases he)
  · exact iff_of_true (backed_confirm hs) (hnot fun id he => by cases he)
  · exact backed_reject_iff hs
  · exact he.elim

/-- Along a moderation, every domain that only reports block has a confirmed
report, and loses its block with the last one, exactly when no event rejects
the last confirmed report of a domain with a row of a confirmation. -/
theorem backed_along_iff {events : List Event} (hfresh : FreshIds s.db) (hs : Backed s.db)
    (h : ∀ e∈events, IsModeration e) :
    Along (step dns cfg) (fun s e => Backed (step dns cfg s e).db ∧ RemovesLast dns cfg s e)
        s events ↔
      Along (step dns cfg) (fun s e => ¬RejectsLast s e) s events := by
  have hiff : ∀ (t : Deployment) (e : Event), FreshIds t.db ∧ Backed t.db → IsModeration e →
      (Backed (step dns cfg t e).db ∧ RemovesLast dns cfg t e ↔ ¬RejectsLast t e) := by
    intro t e hinv he
    rw [←backed_step_iff hinv.1 hinv.2 he]
    exact and_iff_left_of_imp removesLast_of_backed
  have hkeep : ∀ (t : Deployment) (e : Event), FreshIds t.db ∧ Backed t.db → IsModeration e →
      Backed (step dns cfg t e).db ∧ RemovesLast dns cfg t e →
      FreshIds (step dns cfg t e).db ∧ Backed (step dns cfg t e).db := by
    intro t e hinv he hgood
    exact ⟨freshIds_moderation he hinv.1,hgood.1⟩
  exact @along_congr _ _ (step dns cfg) IsModeration (fun t => FreshIds t.db ∧ Backed t.db) _ _
    hiff hkeep s events ⟨hfresh,hs⟩ h

section Example

/-- Two reports about one domain: the first is confirmed, then both are
rejected. -/
private def moderation : List Event :=
  [.report "scam.example".toList none "203.0.113.7".toList,
    .report "scam.example".toList none "203.0.113.8".toList,
    .admin (.confirmReport 1),.admin (.rejectReport 2),.admin (.rejectReport 1)]

/-- The deployment afterwards. -/
private def moderated : Deployment :=
  run (step plainDns defaultConfig) Deployment.init moderation

/-- Nothing is blocked in an empty database. -/
theorem backed_init : FreshIds Database.init ∧ Backed Database.init :=
  ⟨fun id hid => absurd hid Finmap.notMem_empty,
    fun d h => absurd h.1 ((by decide : Database.init.selectBlocklist=∅) ▸ Finset.notMem_empty d)⟩

/-- A confirmation and the rejection of another report keep the copies
together. -/
theorem backed_along_confirmed :
    Along (step plainDns defaultConfig)
        (fun s e => Backed (step plainDns defaultConfig s e).db ∧
          RemovesLast plainDns defaultConfig s e) Deployment.init (moderation.take 3) ↔
      Along (step plainDns defaultConfig) (fun s e => ¬RejectsLast s e) Deployment.init
        (moderation.take 3) :=
  backed_along_iff backed_init.1 backed_init.2 (by simp [moderation,IsModeration])

/-- With both reports rejected the domain is still blocked, only because of
reports, and a refresh loads it again. -/
theorem moderated_stays_blocked :
    OnlyReported moderated.db "scam.example".toList ∧
    ¬moderated.db.HasConfirmedReport "scam.example".toList ∧
    "scam.example".toList∈
      (step plainDns defaultConfig moderated (.refresh (.blocklist true))).lists.blocklist := by
  have hverdicts : moderated.db.domainVerdicts=∅ := by decide +kernel
  have hseed : moderated.db.blocklistSeed.lookup "scam.example".toList=
      some ⟨some "user-report".toList,none,none⟩ := by decide +kernel
  have hreports : select moderated.db.userReports
      (fun _ row => if row.status=.confirmed then some row.domain else none)=∅ := by
    decide +kernel
  refine ⟨⟨by decide +kernel,fun h => ?_,fun row h => ?_⟩,fun h => ?_,by decide +kernel⟩
  · obtain ⟨row,hrow,-⟩ := h
    rw [hverdicts,Finmap.lookup_empty] at hrow
    cases hrow
  · rw [hseed] at h
    rw [←Option.some.inj h]
  · obtain ⟨id,row,hrow,hstatus,hd⟩ := h
    have hmem : row.domain∈select moderated.db.userReports
        (fun _ row => if row.status=.confirmed then some row.domain else none) :=
      mem_select.mpr ⟨id,row,hrow,if_pos hstatus⟩
    rw [hreports] at hmem
    exact Finset.notMem_empty _ hmem

end Example

end ScamLens.ReportModeration
