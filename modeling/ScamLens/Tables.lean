import ScamLens.KeyedTables
import ScamLens.Resolver
import ScamLens.ScanVerdicts

/-!
# The Postgres tables and the statements that write them

Every service writes the same few tables. Each definition is one statement, or
one transaction, of the source; the columns are those some statement reads.
-/

namespace ScamLens.Tables

open KeyedTables PythonText Resolver ScanVerdicts VerdictCache

/-- A row of `blocklist_seed`, keyed by its domain. -/
structure SeedRow where
  /-- Where the row comes from. -/
  category : Option Text
  /-- Post that a scraped domain was found in. -/
  sourcePost : Option Text
  /-- Platform that a scraped domain was found on. -/
  sourcePlatform : Option Text
  deriving DecidableEq

/-- A row of `whitelist`, keyed by its domain. -/
structure WhitelistRow where
  /-- Reason given by the admin, or the popularity rank. -/
  reason : Option Text
  /-- Who added the row. -/
  addedBy : Option Text
  deriving DecidableEq

/-- A row of `domain_verdicts`, keyed by its domain. -/
structure VerdictRow where
  /-- Severity of the latest scan. -/
  verdict : ScanClass
  /-- Risk score. -/
  riskScore : ℤ
  /-- Confidence. -/
  confidence : ℤ
  /-- Reasons. -/
  reasons : List Text
  /-- Imitated brand. -/
  mimicsBrand : Option Text
  /-- Writer of the row. -/
  source : Text
  deriving DecidableEq

/-- Moderation status of a report. -/
inductive ReportStatus where
  | pending
  | confirmed
  | rejected
  deriving DecidableEq

/-- A row of `user_reports`, keyed by its id. -/
structure ReportRow where
  /-- Reported domain. -/
  domain : Text
  /-- Note of the reporter. -/
  note : Option Text
  /-- Address of the reporter. -/
  reporterIp : Text
  /-- Moderation status. -/
  status : ReportStatus
  deriving DecidableEq

/-- A row of `blocked_attempts`. -/
structure BlockedAttempt where
  /-- Arguments the block was logged with. -/
  entry : BlockEntry
  /-- Address the name would have resolved to. -/
  resolvedIp : Option Text
  deriving DecidableEq

/-- The database. -/
structure Database where
  /-- Domains to block. -/
  blocklistSeed : Table Text SeedRow
  /-- Domains never to block. -/
  whitelist : Table Text WhitelistRow
  /-- Latest scan verdicts. -/
  domainVerdicts : Table Text VerdictRow
  /-- User reports. -/
  userReports : Table ℕ ReportRow
  /-- Next value of the report id sequence. -/
  nextReportId : ℕ
  /-- Brand names by official domain, in the order a scan returns them. -/
  brandDomains : AList fun _ : Text => Text
  /-- User ids by DoH token. -/
  dohTokens : Table Text ℕ
  /-- The block log, oldest row first. -/
  blockedAttempts : List BlockedAttempt

/-- An empty database. -/
def Database.init : Database where
  blocklistSeed := ∅
  whitelist := ∅
  domainVerdicts := ∅
  userReports := ∅
  nextReportId := 1
  brandDomains := ∅
  dohTokens := ∅
  blockedAttempts := []

/-- The severity a down-classified row keeps. -/
def VerdictRow.downclassified (row : VerdictRow) : VerdictRow :=
  if row.verdict=.scam ∨ row.verdict=.suspicious then {row with verdict := .safe} else row

/-- `reason LIKE 'tranco-rank-%'`, false for NULL. -/
def isTrancoReason (reason : Option Text) : Bool :=
  reason.any fun r => "tranco-rank-".toList.isPrefixOf r

namespace Database

variable (db : Database)

/-- The transaction of `add_blocklist`. -/
def addBlocklist (domain : Text) (reason : Option Text) : Database :=
  let category := if reason.getD []=[] then "manual".toList else reason.getD []
  {db with
    blocklistSeed := insertIgnore db.blocklistSeed domain ⟨some category,none,none⟩,
    whitelist := db.whitelist.erase domain}

/-- The DELETE of `remove_blocklist`. -/
def deleteSeed (domain : Text) : Database :=
  {db with blocklistSeed := db.blocklistSeed.erase domain}

/-- The UPDATE that turns a blocking verdict of a domain into a safe one. -/
def downclassify (domain : Text) : Database :=
  {db with domainVerdicts := modifyAt db.domainVerdicts domain VerdictRow.downclassified}

/-- The transaction of `add_whitelist`. -/
def addWhitelist (domain : Text) (reason : Option Text) (addedBy : Text) : Database :=
  let db := {db with
    whitelist := upsert db.whitelist domain ⟨reason,some addedBy⟩ fun _ row => row
    blocklistSeed := db.blocklistSeed.erase domain}
  db.downclassify domain

/-- The DELETE of `remove_whitelist`. -/
def deleteWhitelist (domain : Text) : Database :=
  {db with whitelist := db.whitelist.erase domain}

/-- The INSERT of `report`. -/
def insertReport (domain : Text) (note : Option Text) (reporterIp : Text) : Database :=
  {db with
    userReports := db.userReports.insert db.nextReportId ⟨domain,note,reporterIp,.pending⟩
    nextReportId := db.nextReportId+1}

/-- Set the status of a report. -/
def setReportStatus (id : ℕ) (status : ReportStatus) : Database :=
  {db with userReports := modifyAt db.userReports id fun row => {row with status := status}}

/-- The transaction of `confirm_report`, none when there is no such report. -/
def confirmReport (id : ℕ) : Option Database :=
  (db.userReports.lookup id).map fun row =>
    let db := db.setReportStatus id .confirmed
    {db with blocklistSeed :=
      insertIgnore db.blocklistSeed row.domain ⟨some "user-report".toList,none,none⟩}

/-- The UPDATE of `reject_report`, none when there is no such report. -/
def rejectReport (id : ℕ) : Option Database :=
  (db.userReports.lookup id).map fun _ => db.setReportStatus id .rejected

/-- The INSERT of `Database.promote_to_blocklist`. -/
def promoteToBlocklist (domain category : Text) : Database :=
  {db with blocklistSeed := insertIgnore db.blocklistSeed domain ⟨some category,none,none⟩}

/-- The INSERT of `ScrapeWorker._promote_to_blocklist`: an existing row keeps
its category and gets the source columns it lacks. -/
def promoteScraped (domain sourcePost platform : Text) : Database :=
  let row : SeedRow := ⟨some ("scraped-".toList++platform),some sourcePost,some platform⟩
  {db with blocklistSeed := upsert db.blocklistSeed domain row fun old row =>
    ⟨old.category,old.sourcePost.or row.sourcePost,old.sourcePlatform.or row.sourcePlatform⟩}

/-- The upsert of `VerdictStore.save`, which overwrites every column. -/
def upsertVerdict (domain : Text) (v : ScanVerdict) : Database :=
  let row : VerdictRow :=
    ⟨v.verdict,v.riskScore,v.confidence,v.reasons,v.mimicsBrand,"ai".toList⟩
  {db with domainVerdicts := db.domainVerdicts.insert domain row}

/-- The DELETE of the Tranco import. -/
def trancoPurge : Database :=
  {db with whitelist := deleteWhere db.whitelist fun row => isTrancoReason row.reason}

/-- The INSERT batch of the Tranco import: domains with their ranks. -/
def trancoInsert (rows : List (Text×Text)) : Database :=
  {db with whitelist := insertAllIgnore db.whitelist (rows.map fun row =>
    (lower row.1,⟨some ("tranco-rank-".toList++row.2),some "tranco".toList⟩))}

/-- The INSERT of `log_block`. -/
def logBlock (entry : BlockEntry) (resolvedIp : Option Text) : Database :=
  {db with blockedAttempts := db.blockedAttempts++[⟨entry,resolvedIp⟩]}

/-- The SELECT of `load_blocklist`. -/
def selectBlocklist : Finset Text :=
  db.blocklistSeed.keys ∪
    select db.domainVerdicts (fun domain row =>
      if row.verdict=.scam ∨ row.verdict=.suspicious then some domain else none) ∪
    select db.userReports (fun _ row => if row.status=.confirmed then some row.domain else none)

/-- The SELECT of `load_whitelist`. -/
def selectWhitelist : Finset Text := db.whitelist.keys

/-- The SELECT of `load_brand_domains`. -/
def selectBrandDomains : List (Text×Text) :=
  db.brandDomains.entries.map fun entry => (entry.1,entry.2)

/-- A verdict row that the blocklist query picks up. -/
def HasBlockingRow (domain : Text) : Prop :=
  ∃ row, db.domainVerdicts.lookup domain=some row ∧ (row.verdict=.scam ∨ row.verdict=.suspicious)

/-- A report that the blocklist query picks up. -/
def HasConfirmedReport (domain : Text) : Prop :=
  ∃ id row, db.userReports.lookup id=some row ∧ row.status=.confirmed ∧ row.domain=domain

/-- A domain is on the loaded blocklist through its seed row, a blocking
verdict row, or a confirmed report. -/
theorem mem_selectBlocklist {domain : Text} :
    domain∈db.selectBlocklist ↔
      domain∈db.blocklistSeed ∨ db.HasBlockingRow domain ∨ db.HasConfirmedReport domain := by
  have hrows : (∃ key row, db.domainVerdicts.lookup key=some row ∧
      (row.verdict=.scam ∨ row.verdict=.suspicious) ∧ key=domain) ↔ db.HasBlockingRow domain := by
    refine ⟨fun h => ?_,fun h => ?_⟩
    · obtain ⟨key,row,hrow,hv,hk⟩ := h
      exact ⟨row,hk ▸ hrow,hv⟩
    · obtain ⟨row,hrow,hv⟩ := h
      exact ⟨domain,row,hrow,hv,rfl⟩
  simp only [selectBlocklist,Finset.mem_union,Finmap.mem_keys,mem_select,
    Option.ite_none_right_eq_some,Option.some.injEq,or_assoc,hrows,HasConfirmedReport]

theorem mem_selectWhitelist {domain : Text} :
    domain∈db.selectWhitelist ↔ domain∈db.whitelist := Finmap.mem_keys

/-- A down-classified row no longer blocks. -/
theorem downclassified_not_blocking (row : VerdictRow) :
    ¬(row.downclassified.verdict=.scam ∨ row.downclassified.verdict=.suspicious) := by
  unfold VerdictRow.downclassified
  split
  · simp only [reduceCtorEq,or_self,not_false_eq_true]
  · assumption

end Database

end ScamLens.Tables
