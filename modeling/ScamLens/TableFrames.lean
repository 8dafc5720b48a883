import ScamLens.Services

/-!
# What a single event can change in Postgres

One lemma for each table: which events insert a row, and which delete or change
it. Every invariant about the tables is derived from these lemmas, so that a
new statement of some service needs one more case here and nowhere else.
-/

namespace ScamLens.TableFrames

open DomainEntries KeyedTables PythonText Resolver ScanVerdicts Services Tables
  Typosquat Upstream VerdictCache VerdictStore

/-- The stores, the lists and the clock are the same. -/
def SameStores (s t : Deployment) : Prop :=
  t.now=s.now ∧ t.db=s.db ∧ t.redis=s.redis ∧ t.lists=s.lists

section Queries

variable {dns : Dnslib} {cfg : Config} {s : Deployment}

theorem sameStores_self : SameStores s s := ⟨rfl,rfl,rfl,rfl⟩

theorem continueWalk_same (w : Walk) (net : Server → Exchange) :
    SameStores s (continueWalk dns cfg s w net) := by
  rw [continueWalk]
  split <;> exact ⟨rfl,rfl,rfl,rfl⟩

/-- A query that arrives changes no store. -/
theorem arrive_same (request : DNSRecord) (clientIp : Option Text) (userId : Option ℕ)
    (net : Server → Exchange) : SameStores s (arrive dns cfg s request clientIp userId net) := by
  rw [arrive]
  split
  · exact sameStores_self
  split
  · exact sameStores_self
  split
  · exact ⟨rfl,rfl,rfl,rfl⟩
  · exact continueWalk_same _ _

/-- A cache read changes no store. -/
theorem readNext_same (w : Walk) (up : Bool) (net : Server → Exchange) :
    SameStores s (readNext dns cfg s w up net) := by
  rw [readNext]
  split
  · exact ⟨rfl,rfl,rfl,rfl⟩
  · rw [readCandidate]
    split
    · exact sameStores_self
    · exact ⟨rfl,rfl,rfl,rfl⟩
    · exact continueWalk_same _ _

theorem step_query_same (wire : Wire) (clientIp : Option Text) (userId : Option ℕ)
    (net : Server → Exchange) :
    SameStores s (step dns cfg s (.resolver (.query wire clientIp userId net))) := by
  rw [step,resolverStep]
  split
  · exact sameStores_self
  · exact arrive_same _ _ _ _

theorem step_read_same (i : ℕ) (up : Bool) (net : Server → Exchange) :
    SameStores s (step dns cfg s (.resolver (.read i up net))) := by
  rw [step,resolverStep]
  split
  · exact sameStores_self
  · exact readNext_same _ _ _

end Queries

section Effects

/-- The admin commands that put a seed row of the domain in place. -/
def AdminInsertsSeed (db : Database) (d : Text) : AdminEvent → Prop
  | .addBlocklist raw reason => domainEntry raw reason=some d
  | .confirmReport id => ∃ row, db.userReports.lookup id=some row ∧ row.domain=d
  | _ => False

/-- The events that put a seed row of the domain in place. -/
def InsertsSeed (s : Deployment) (d : Text) : Event → Prop
  | .resolver (.runTask i ok _) =>
    ok=true ∧ ∃ category, s.tasks[i]?=some (.promoteToBlocklist d category)
  | .scanner (.savePromote domain verdict) => domain=d ∧ confirmsScam verdict=true
  | .admin e => AdminInsertsSeed s.db d e
  | .scraper domain _ _ => domain=d
  | _ => False

/-- The events that delete the seed row of the domain. -/
def DeletesSeed (d : Text) : Event → Prop
  | .admin (.deleteSeed raw) => pathDomain raw=d
  | .admin (.addWhitelist raw reason _) => domainEntry raw reason=some d
  | _ => False

/-- The events that put a whitelist row of the domain in place. -/
def InsertsWhitelist (d : Text) : Event → Prop
  | .admin (.addWhitelist raw reason _) => domainEntry raw reason=some d
  | .tranco (.insert rows) => ∃ row∈rows, lower row.1=d
  | _ => False

/-- The events that delete the whitelist row of the domain. -/
def DeletesWhitelist (s : Deployment) (d : Text) : Event → Prop
  | .admin (.addBlocklist raw reason) => domainEntry raw reason=some d
  | .admin (.deleteWhitelist raw) => pathDomain raw=d
  | .tranco .purge =>
    ∃ row, s.db.whitelist.lookup d=some row ∧ isTrancoReason row.reason=true
  | _ => False

variable {dns : Dnslib} {cfg : Config} {s : Deployment} {d : Text}

/-- The five ways in which a seed row comes about. -/
theorem insertsSeed_cases {e : Event} (h : InsertsSeed s d e) :
    (∃ i ip category, e=.resolver (.runTask i true ip) ∧
      s.tasks[i]?=some (.promoteToBlocklist d category)) ∨
    (∃ v, e=.scanner (.savePromote d v)) ∨
    (∃ raw reason, e=.admin (.addBlocklist raw reason) ∧ domainEntry raw reason=some d) ∨
    (∃ id row, e=.admin (.confirmReport id) ∧ s.db.userReports.lookup id=some row ∧
      row.domain=d) ∨
    ∃ post platform, e=.scraper d post platform := by
  cases e with
  | resolver e =>
    cases e with
    | runTask i ok ip =>
      obtain ⟨rfl,category,ht⟩ := h
      exact Or.inl ⟨i,ip,category,rfl,ht⟩
    | _ => exact absurd h not_false
  | scanner e =>
    cases e with
    | savePromote domain v =>
      obtain ⟨rfl,-⟩ := h
      exact Or.inr (Or.inl ⟨v,rfl⟩)
    | _ => exact absurd h not_false
  | admin e =>
    cases e with
    | addBlocklist raw reason => exact Or.inr (Or.inr (Or.inl ⟨raw,reason,rfl,h⟩))
    | confirmReport id =>
      obtain ⟨row,hrow,hd⟩ := h
      exact Or.inr (Or.inr (Or.inr (Or.inl ⟨id,row,rfl,hrow,hd⟩)))
    | _ => exact absurd h not_false
  | scraper domain post platform =>
    have hd : domain=d := h
    rw [hd]
    exact Or.inr (Or.inr (Or.inr (Or.inr ⟨post,platform,rfl⟩)))
  | _ => exact absurd h not_false

/-- A task that is run is taken off the list and, unless its command fails,
performed. -/
theorem step_runTask (dns : Dnslib) (cfg : Config) (s : Deployment) (i : ℕ) (ok : Bool)
    (ip : Option Text) :
    (s.tasks[i]?=none ∧ step dns cfg s (.resolver (.runTask i ok ip))=s) ∨
      ∃ task, s.tasks[i]?=some task ∧
        step dns cfg s (.resolver (.runTask i ok ip))=
          if ok then perform cfg {s with tasks := s.tasks.eraseIdx i} ip task
          else {s with tasks := s.tasks.eraseIdx i} := by
  rw [step,resolverStep]
  cases ht : s.tasks[i]? with
  | none => exact Or.inl ⟨rfl,rfl⟩
  | some task => exact Or.inr ⟨task,rfl,rfl⟩

/-- On behalf of queries, the DNS server writes nothing to Postgres but its
block log and promotions. -/
theorem step_resolver_keeps {α : Type*} (f : Database → α)
    (hlog : ∀ db entry ip, f (db.logBlock entry ip)=f db)
    (hpromote : ∀ db domain category, f (db.promoteToBlocklist domain category)=f db)
    (e : ResolverEvent) : f (step dns cfg s (.resolver e)).db=f s.db := by
  cases e with
  | query wire clientIp userId net =>
    exact congrArg f (step_query_same wire clientIp userId net).2.1
  | read i up net => exact congrArg f (step_read_same i up net).2.1
  | runTask i ok ip =>
    obtain ⟨ht,hs⟩|⟨task,ht,hs⟩ := step_runTask dns cfg s i ok ip
    · exact congrArg (fun t : Deployment => f t.db) hs
    · rw [hs]
      cases ok with
      | false => rfl
      | true =>
        cases task with
        | resolveThenLog entry => exact hlog s.db entry ip
        | promoteToBlocklist domain category => exact hpromote s.db domain category
        | _ => rfl

/-- The scanner writes nothing to Postgres but verdict rows and promotions. -/
theorem step_scanner_keeps {α : Type*} (f : Database → α)
    (hrow : ∀ db domain v, f (db.upsertVerdict domain v)=f db)
    (hpromote : ∀ db domain category, f (db.promoteToBlocklist domain category)=f db)
    (e : ScannerEvent) : f (step dns cfg s (.scanner e)).db=f s.db := by
  cases e with
  | saveRow domain v => exact hrow s.db domain v
  | savePromote domain v =>
    rw [step,scannerStep,savePromote]
    split
    · exact hpromote s.db domain _
    · rfl
  | _ => rfl

/-- A confirmation writes nothing but reports and seed rows. -/
theorem confirmReport_keeps {α : Type*} (f : Database → α)
    (hf : ∀ db reports seed, f {db with userReports := reports, blocklistSeed := seed}=f db)
    (db : Database) (id : ℕ) : f (adminWrite db (.confirmReport id))=f db := by
  rw [adminWrite,Database.confirmReport]
  cases db.userReports.lookup id with
  | none => rfl
  | some row => exact hf db _ _

/-- A rejection writes nothing but reports. -/
theorem rejectReport_keeps {α : Type*} (f : Database → α)
    (hf : ∀ db reports, f {db with userReports := reports}=f db) (db : Database) (id : ℕ) :
    f (adminWrite db (.rejectReport id))=f db := by
  rw [adminWrite,Database.rejectReport]
  cases db.userReports.lookup id with
  | none => rfl
  | some row => exact hf db _

theorem step_admin_db (dns : Dnslib) (cfg : Config) (s : Deployment) (e : AdminEvent) :
    (step dns cfg s (.admin e)).db=adminWrite s.db e := by
  cases e <;> rfl

/-- A report that is submitted changes nothing but the reports. -/
theorem step_report_db (dns : Dnslib) (cfg : Config) (s : Deployment) (raw : Text)
    (note : Option Text) (ip : Text) :
    (step dns cfg s (.report raw note ip)).db=s.db ∨
      ∃ domain, (step dns cfg s (.report raw note ip)).db=s.db.insertReport domain note ip := by
  rw [step]
  cases reportDomain raw note with
  | none => exact Or.inl rfl
  | some domain => exact Or.inr ⟨domain,rfl⟩

/-- Only a promotion inserts a seed row. -/
theorem mem_seed_perform (s : Deployment) (ip : Option Text) (task : Task) :
    d∈(perform cfg s ip task).db.blocklistSeed ↔
      d∈s.db.blocklistSeed ∨ ∃ category, task=.promoteToBlocklist d category := by
  cases task with
  | promoteToBlocklist domain category =>
    simp only [perform,Database.promoteToBlocklist,mem_insertIgnore,
      Task.promoteToBlocklist.injEq,exists_and_left,exists_eq',and_true]
    rw [or_comm,eq_comm]
  | _ => simp [perform,schedule,Database.logBlock]

/-- How an admin command changes the seed rows. -/
theorem mem_seed_adminWrite (db : Database) (e : AdminEvent) :
    d∈(adminWrite db e).blocklistSeed ↔
      (d∈db.blocklistSeed ∧ ¬DeletesSeed d (.admin e)) ∨ AdminInsertsSeed db d e := by
  cases e with
  | addBlocklist raw reason =>
    cases h : domainEntry raw reason with
    | none => simp [adminWrite,h,DeletesSeed,AdminInsertsSeed]
    | some domain =>
      simp only [adminWrite,h,Option.map_some,Option.getD_some,Database.addBlocklist,
        mem_insertIgnore,DeletesSeed,AdminInsertsSeed,not_false_eq_true,and_true,
        Option.some.injEq]
      rw [or_comm,eq_comm]
  | deleteSeed raw =>
    simp only [adminWrite,Database.deleteSeed,mem_erase_iff,DeletesSeed,AdminInsertsSeed,
      or_false]
  | addWhitelist raw reason email =>
    cases h : domainEntry raw reason with
    | none => simp [adminWrite,h,DeletesSeed,AdminInsertsSeed]
    | some domain =>
      simp only [adminWrite,h,Option.map_some,Option.getD_some,Database.addWhitelist,
        Database.downclassify,mem_erase_iff,DeletesSeed,AdminInsertsSeed,Option.some.injEq,
        or_false]
  | confirmReport id =>
    cases h : db.userReports.lookup id with
    | none => simp [adminWrite,Database.confirmReport,h,DeletesSeed,AdminInsertsSeed]
    | some row =>
      simp only [adminWrite,Database.confirmReport,h,Option.map_some,Option.getD_some,
        Database.setReportStatus,mem_insertIgnore,DeletesSeed,AdminInsertsSeed,
        not_false_eq_true,and_true,Option.some.injEq,exists_eq_left']
      rw [or_comm,eq_comm]
  | rejectReport id =>
    cases h : db.userReports.lookup id with
    | none => simp [adminWrite,Database.rejectReport,h,DeletesSeed,AdminInsertsSeed]
    | some row =>
      simp [adminWrite,Database.rejectReport,h,Database.setReportStatus,DeletesSeed,
        AdminInsertsSeed]
  | _ =>
    simp [adminWrite,DeletesSeed,AdminInsertsSeed,Database.downclassify,Database.deleteWhitelist]

/-- How a command of the DNS server changes the seed rows. -/
theorem mem_seed_resolver (e : ResolverEvent) :
    d∈(step dns cfg s (.resolver e)).db.blocklistSeed ↔
      d∈s.db.blocklistSeed ∨ InsertsSeed s d (.resolver e) := by
  cases e with
  | query wire clientIp userId net =>
    rw [(step_query_same wire clientIp userId net).2.1]
    exact (or_iff_left not_false).symm
  | read i up net =>
    rw [(step_read_same i up net).2.1]
    exact (or_iff_left not_false).symm
  | runTask i ok ip =>
    obtain ⟨ht,hs⟩|⟨task,ht,hs⟩ := step_runTask dns cfg s i ok ip
    · rw [hs]
      simp [InsertsSeed,ht]
    · rw [hs]
      cases ok with
      | false => simp [InsertsSeed]
      | true =>
        rw [if_pos rfl,mem_seed_perform]
        simp [InsertsSeed,ht]

/-- How a command of the scanner changes the seed rows. -/
theorem mem_seed_scanner (e : ScannerEvent) :
    d∈(step dns cfg s (.scanner e)).db.blocklistSeed ↔
      d∈s.db.blocklistSeed ∨ InsertsSeed s d (.scanner e) := by
  cases e with
  | savePromote domain v =>
    simp only [step,scannerStep,savePromote,InsertsSeed]
    split
    · rename_i hv
      simp only [Database.promoteToBlocklist,mem_insertIgnore,hv,and_true]
      rw [or_comm,eq_comm]
    · rename_i hv
      simp [hv]
  | _ => exact (or_iff_left not_false).symm

/-- How an event changes the seed rows. -/
theorem mem_seed_step (e : Event) :
    d∈(step dns cfg s e).db.blocklistSeed ↔
      (d∈s.db.blocklistSeed ∧ ¬DeletesSeed d e) ∨ InsertsSeed s d e := by
  cases e with
  | resolver e =>
    rw [mem_seed_resolver,and_iff_left (show ¬DeletesSeed d (.resolver e) from not_false)]
  | scanner e =>
    rw [mem_seed_scanner,and_iff_left (show ¬DeletesSeed d (.scanner e) from not_false)]
  | admin e =>
    rw [step_admin_db]
    exact mem_seed_adminWrite s.db e
  | report raw note ip =>
    obtain h|⟨domain,h⟩ := step_report_db dns cfg s raw note ip <;>
      simp [h,Database.insertReport,DeletesSeed,InsertsSeed]
  | scraper domain post platform =>
    simp only [step,Database.promoteScraped,mem_upsert,DeletesSeed,InsertsSeed,not_false_eq_true,
      and_true]
    rw [or_comm,eq_comm]
  | tranco e =>
    cases e <;> simp [step,importWrite,DeletesSeed,InsertsSeed,Database.trancoPurge,
      Database.trancoInsert]
  | _ => simp [step,DeletesSeed,InsertsSeed]

/-- The whitelist table after an event. -/
def whitelistAfter (t : Table Text WhitelistRow) : Event → Table Text WhitelistRow
  | .admin (.addBlocklist raw reason) => (domainEntry raw reason).elim t t.erase
  | .admin (.addWhitelist raw reason email) =>
    (domainEntry raw reason).elim t fun domain =>
      upsert t domain ⟨reason,some email⟩ fun _ row => row
  | .admin (.deleteWhitelist raw) => t.erase (pathDomain raw)
  | .tranco .purge => deleteWhere t fun row => isTrancoReason row.reason
  | .tranco (.insert rows) => insertAllIgnore t (rows.map fun row =>
      (lower row.1,⟨some ("tranco-rank-".toList++row.2),some "tranco".toList⟩))
  | _ => t

/-- An admin command changes the whitelist as its event says. -/
theorem adminWrite_whitelist (db : Database) (e : AdminEvent) :
    (adminWrite db e).whitelist=whitelistAfter db.whitelist (.admin e) := by
  cases e with
  | addBlocklist raw reason =>
    rw [adminWrite,whitelistAfter]
    cases domainEntry raw reason <;> rfl
  | addWhitelist raw reason email =>
    rw [adminWrite,whitelistAfter]
    cases domainEntry raw reason <;> rfl
  | confirmReport id => exact confirmReport_keeps (·.whitelist) (fun _ _ _ => rfl) db id
  | rejectReport id => exact rejectReport_keeps (·.whitelist) (fun _ _ => rfl) db id
  | _ => rfl

/-- An event changes the whitelist only as the event says. -/
theorem step_whitelist (e : Event) :
    (step dns cfg s e).db.whitelist=whitelistAfter s.db.whitelist e := by
  cases e with
  | resolver e =>
    exact step_resolver_keeps (·.whitelist) (fun _ _ _ => rfl) (fun _ _ _ => rfl) e
  | scanner e =>
    exact step_scanner_keeps (·.whitelist) (fun _ _ _ => rfl) (fun _ _ _ => rfl) e
  | admin e =>
    rw [step_admin_db]
    exact adminWrite_whitelist s.db e
  | report raw note ip =>
    rw [step]
    cases reportDomain raw note <;> rfl
  | tranco e => cases e <;> rfl
  | _ => rfl

/-- How an event changes which domains are whitelisted. -/
theorem mem_whitelist_step (e : Event) :
    d∈(step dns cfg s e).db.whitelist ↔
      (d∈s.db.whitelist ∧ ¬DeletesWhitelist s d e) ∨ InsertsWhitelist d e := by
  rw [step_whitelist]
  cases e with
  | admin e =>
    cases e with
    | addBlocklist raw reason =>
      simp only [whitelistAfter,DeletesWhitelist,InsertsWhitelist,or_false]
      cases domainEntry raw reason with
      | none => simp
      | some domain =>
        rw [Option.elim_some,mem_erase_iff,Option.some_inj]
    | addWhitelist raw reason email =>
      simp only [whitelistAfter,DeletesWhitelist,InsertsWhitelist]
      cases domainEntry raw reason with
      | none => simp
      | some domain =>
        rw [Option.elim_some,mem_upsert,Option.some_inj,not_false_eq_true,and_true,or_comm,eq_comm]
    | deleteWhitelist raw =>
      simp only [whitelistAfter,DeletesWhitelist,InsertsWhitelist,or_false,mem_erase_iff]
    | _ => simp [whitelistAfter,DeletesWhitelist,InsertsWhitelist]
  | tranco e =>
    cases e with
    | purge =>
      simp only [whitelistAfter,DeletesWhitelist,InsertsWhitelist,or_false,mem_deleteWhere]
    | insert rows =>
      simp only [whitelistAfter,mem_insertAllIgnore,DeletesWhitelist,InsertsWhitelist,
        not_false_eq_true,and_true,List.map_map,List.mem_map,Function.comp]
  | _ => simp [whitelistAfter,DeletesWhitelist,InsertsWhitelist]

/-- The rows of scan verdicts after an event. -/
def verdictRowsAfter (t : Table Text VerdictRow) : Event → Table Text VerdictRow
  | .scanner (.saveRow domain v) => t.insert domain
      ⟨v.verdict,v.riskScore,v.confidence,v.reasons,v.mimicsBrand,"ai".toList⟩
  | .admin (.downclassify raw) => modifyAt t (pathDomain raw) VerdictRow.downclassified
  | .admin (.addWhitelist raw reason _) =>
    (domainEntry raw reason).elim t fun domain => modifyAt t domain VerdictRow.downclassified
  | _ => t

/-- An admin command changes the verdict rows as its event says. -/
theorem adminWrite_verdictRows (db : Database) (e : AdminEvent) :
    (adminWrite db e).domainVerdicts=verdictRowsAfter db.domainVerdicts (.admin e) := by
  cases e with
  | addBlocklist raw reason =>
    rw [adminWrite]
    cases domainEntry raw reason <;> rfl
  | addWhitelist raw reason email =>
    rw [adminWrite,verdictRowsAfter]
    cases domainEntry raw reason <;> rfl
  | confirmReport id => exact confirmReport_keeps (·.domainVerdicts) (fun _ _ _ => rfl) db id
  | rejectReport id => exact rejectReport_keeps (·.domainVerdicts) (fun _ _ => rfl) db id
  | _ => rfl

/-- An event changes the verdict rows only as the event says. -/
theorem step_verdictRows (e : Event) :
    (step dns cfg s e).db.domainVerdicts=verdictRowsAfter s.db.domainVerdicts e := by
  cases e with
  | resolver e =>
    exact step_resolver_keeps (·.domainVerdicts) (fun _ _ _ => rfl) (fun _ _ _ => rfl) e
  | scanner e =>
    cases e with
    | savePromote domain v =>
      rw [step,scannerStep,savePromote]
      split <;> rfl
    | _ => rfl
  | admin e =>
    rw [step_admin_db]
    exact adminWrite_verdictRows s.db e
  | report raw note ip =>
    rw [step]
    cases reportDomain raw note <;> rfl
  | tranco e => cases e <;> rfl
  | _ => rfl

/-- A blocking verdict row is there before an event or saved by it. -/
theorem lookup_blockingRow_step {e : Event} {row : VerdictRow}
    (hrow : (step dns cfg s e).db.domainVerdicts.lookup d=some row)
    (hblocking : row.verdict=.scam ∨ row.verdict=.suspicious) :
    s.db.domainVerdicts.lookup d=some row ∨
      ∃ v, e=.scanner (.saveRow d v) ∧
        row=⟨v.verdict,v.riskScore,v.confidence,v.reasons,v.mimicsBrand,"ai".toList⟩ := by
  rw [step_verdictRows] at hrow
  have hkept : ∀ domain, (modifyAt s.db.domainVerdicts domain VerdictRow.downclassified).lookup d=
      some row → s.db.domainVerdicts.lookup d=some row := by
    intro domain hl
    rw [lookup_modifyAt] at hl
    split at hl
    · obtain ⟨old,-,rfl⟩ := Option.map_eq_some_iff.mp hl
      exact absurd hblocking (Database.downclassified_not_blocking old)
    · exact hl
  unfold verdictRowsAfter at hrow
  split at hrow
  · rename_i domain v
    rw [lookup_insert_ite] at hrow
    split at hrow
    · rename_i hd
      exact Or.inr ⟨v,by rw [hd],(Option.some.inj hrow).symm⟩
    · exact Or.inl hrow
  · exact Or.inl (hkept _ hrow)
  · rename_i raw reason email
    cases hentry : domainEntry raw reason with
    | none =>
      rw [hentry] at hrow
      exact Or.inl hrow
    | some domain =>
      rw [hentry] at hrow
      exact Or.inl (hkept domain hrow)
  · exact Or.inl hrow

/-- Only a saved verdict makes a verdict row blocking. -/
theorem hasBlockingRow_step {e : Event} (h : (step dns cfg s e).db.HasBlockingRow d) :
    s.db.HasBlockingRow d ∨ ∃ v, e=.scanner (.saveRow d v) := by
  obtain ⟨row,hrow,hblocking⟩ := h
  obtain hold|⟨v,he,-⟩ := lookup_blockingRow_step hrow hblocking
  · exact Or.inl ⟨row,hold,hblocking⟩
  · exact Or.inr ⟨v,he⟩

/-- The down-classification of a domain leaves it without a blocking row. -/
theorem not_hasBlockingRow_downclassify (raw : Text) :
    ¬(step dns cfg s (.admin (.downclassify raw))).db.HasBlockingRow (pathDomain raw) := by
  intro h
  obtain ⟨row,hrow,hblocking⟩ := h
  rw [step_verdictRows,verdictRowsAfter,lookup_modifyAt,if_pos rfl] at hrow
  obtain ⟨old,-,rfl⟩ := Option.map_eq_some_iff.mp hrow
  exact Database.downclassified_not_blocking old hblocking

/-- The report rows after an event. -/
def reportsAfter (db : Database) : Event → Table ℕ ReportRow
  | .report raw note ip => (reportDomain raw note).elim db.userReports fun domain =>
      db.userReports.insert db.nextReportId ⟨domain,note,ip,.pending⟩
  | .admin (.confirmReport id) =>
    modifyAt db.userReports id fun row => {row with status := .confirmed}
  | .admin (.rejectReport id) =>
    modifyAt db.userReports id fun row => {row with status := .rejected}
  | _ => db.userReports

/-- An admin command changes the reports as its event says. -/
theorem adminWrite_reports (db : Database) (e : AdminEvent) :
    (adminWrite db e).userReports=reportsAfter db (.admin e) := by
  cases e with
  | addBlocklist raw reason =>
    rw [adminWrite]
    cases domainEntry raw reason <;> rfl
  | addWhitelist raw reason email =>
    rw [adminWrite]
    cases domainEntry raw reason <;> rfl
  | confirmReport id =>
    rw [adminWrite,Database.confirmReport,reportsAfter,modifyAt]
    cases h : db.userReports.lookup id with
    | none => rfl
    | some row =>
      rw [Option.map_some,Option.getD_some,Database.setReportStatus,modifyAt,h]
  | rejectReport id =>
    rw [adminWrite,Database.rejectReport,reportsAfter,modifyAt]
    cases h : db.userReports.lookup id with
    | none => rfl
    | some row =>
      rw [Option.map_some,Option.getD_some,Database.setReportStatus,modifyAt,h]
  | _ => rfl

/-- An event changes the reports only as the event says. -/
theorem step_reports (e : Event) :
    (step dns cfg s e).db.userReports=reportsAfter s.db e := by
  cases e with
  | resolver e =>
    exact step_resolver_keeps (·.userReports) (fun _ _ _ => rfl) (fun _ _ _ => rfl) e
  | scanner e =>
    exact step_scanner_keeps (·.userReports) (fun _ _ _ => rfl) (fun _ _ _ => rfl) e
  | admin e =>
    rw [step_admin_db]
    exact adminWrite_reports s.db e
  | report raw note ip =>
    rw [step,reportsAfter]
    cases reportDomain raw note <;> rfl
  | tranco e => cases e <;> rfl
  | _ => rfl

/-- Only a confirmation confirms a report. -/
theorem hasConfirmedReport_step {e : Event} (h : (step dns cfg s e).db.HasConfirmedReport d) :
    s.db.HasConfirmedReport d ∨
      ∃ id row, e=.admin (.confirmReport id) ∧ s.db.userReports.lookup id=some row ∧
        row.domain=d := by
  obtain ⟨id,row,hrow,hstatus,hd⟩ := h
  rw [step_reports] at hrow
  unfold reportsAfter at hrow
  split at hrow
  · rename_i raw note ip
    cases hraw : reportDomain raw note with
    | none =>
      rw [hraw] at hrow
      exact Or.inl ⟨id,row,hrow,hstatus,hd⟩
    | some domain =>
      rw [hraw,Option.elim_some,lookup_insert_ite] at hrow
      split at hrow
      · rw [←Option.some.inj hrow] at hstatus
        cases hstatus
      · exact Or.inl ⟨id,row,hrow,hstatus,hd⟩
  · rename_i other
    rw [lookup_modifyAt] at hrow
    split at hrow
    · rename_i he
      obtain ⟨old,hold,rfl⟩ := Option.map_eq_some_iff.mp hrow
      exact Or.inr ⟨other,old,rfl,hold,hd⟩
    · exact Or.inl ⟨id,row,hrow,hstatus,hd⟩
  · rename_i other
    rw [lookup_modifyAt] at hrow
    split at hrow
    · obtain ⟨old,-,rfl⟩ := Option.map_eq_some_iff.mp hrow
      cases hstatus
    · exact Or.inl ⟨id,row,hrow,hstatus,hd⟩
  · exact Or.inl ⟨id,row,hrow,hstatus,hd⟩

end Effects

end ScamLens.TableFrames
