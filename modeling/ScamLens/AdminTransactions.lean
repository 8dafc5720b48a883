import Mathlib.Logic.Function.Basic
import ScamLens.TableFrames

/-!
# The admin transactions, statement by statement

Three endpoints run two or three statements in a transaction. At the isolation
level of the database a statement finds the rows that have been committed when
it runs, and what it writes is there for others from the commit on. Statements
and commits of any number of transactions come in any order with the commands
of all services; a statement that has to wait for a row is one that comes later.
-/

namespace ScamLens.AdminTransactions

open DomainEntries EventRuns KeyedTables PythonText Services TableFrames Tables

/-- A transaction under way: what each of its statements has found to write, if
it has run. None of them reads a row that an earlier one writes. -/
inductive Transaction where
  /-- `add_blocklist`: the INSERT and the DELETE. -/
  | blocklist (domain : Text) (reason : Option Text) (inserted deleted : Option Bool)
  /-- `add_whitelist`: the upsert, the DELETE and the UPDATE. -/
  | whitelist (domain : Text) (reason : Option Text) (email : Text) (upserted : Bool)
    (deleted downclassified : Option Bool)
  /-- `confirm_report`: the UPDATE with the domain it returns, and the INSERT. -/
  | confirmation (id : ℕ) (domain : Option Text) (inserted : Option Bool)
  deriving DecidableEq

/-- The transaction that an endpoint opens. -/
def opened : AdminEvent → Option Transaction
  | .addBlocklist raw reason => (domainEntry raw reason).map (.blocklist · reason none none)
  | .addWhitelist raw reason email =>
    (domainEntry raw reason).map (.whitelist · reason email false none none)
  | .confirmReport id => some (.confirmation id none none)
  | _ => none

section Statements

variable (db : Database)

/-- The verdict row of the domain blocks. -/
def blockingRow (domain : Text) : Bool :=
  (db.domainVerdicts.lookup domain).any fun row =>
    row.verdict=.scam || row.verdict=.suspicious

/-- The next statement, on the rows that have been committed; none where the
endpoint raises its 404, which rolls back. -/
def Transaction.execute : Transaction → Option Transaction
  | .blocklist domain reason none deleted =>
    some (.blocklist domain reason (some (decide (domain∉db.blocklistSeed))) deleted)
  | .blocklist domain reason (some inserted) none =>
    some (.blocklist domain reason (some inserted) (some (decide (domain∈db.whitelist))))
  | .whitelist domain reason email false deleted downclassified =>
    some (.whitelist domain reason email true deleted downclassified)
  | .whitelist domain reason email true none downclassified =>
    some (.whitelist domain reason email true (some (decide (domain∈db.blocklistSeed)))
      downclassified)
  | .whitelist domain reason email true (some deleted) none =>
    some (.whitelist domain reason email true (some deleted) (some (blockingRow db domain)))
  | .confirmation id none inserted =>
    (db.userReports.lookup id).map fun row => .confirmation id (some row.domain) inserted
  | .confirmation id (some domain) none =>
    some (.confirmation id (some domain) (some (decide (domain∉db.blocklistSeed))))
  | t => some t

/-- The database behind the commit; none while a statement is still to run. -/
def Transaction.commit : Transaction → Option Database
  | .blocklist domain reason (some inserted) (some deleted) =>
    let category := if reason.getD []=[] then "manual".toList else reason.getD []
    let db := if inserted then db.promoteToBlocklist domain category else db
    some (if deleted then db.deleteWhitelist domain else db)
  | .whitelist domain reason email true (some deleted) (some downclassified) =>
    let db := {db with whitelist := upsert db.whitelist domain ⟨reason,some email⟩ fun _ row => row}
    let db := if deleted then db.deleteSeed domain else db
    some (if downclassified then db.downclassify domain else db)
  | .confirmation id (some domain) (some inserted) =>
    let db := db.setReportStatus id .confirmed
    some (if inserted then db.promoteToBlocklist domain "user-report".toList else db)
  | _ => none

end Statements

/-- The services and the transactions under way. -/
structure Backend where
  /-- The services. -/
  services : Deployment
  /-- Transactions by their database connection. -/
  transactions : ℕ → Option Transaction

/-- One event of the services or of a transaction. An admin event of the services
whose endpoint has a transaction is one that nothing comes in between. -/
inductive BackendEvent where
  | service (e : Event)
  | start (conn : ℕ) (e : AdminEvent)
  | execute (conn : ℕ)
  | commit (conn : ℕ)
  | rollback (conn : ℕ)

/-- A connection is given another transaction, or none. -/
def Backend.set (s : Backend) (conn : ℕ) (t : Option Transaction) : Backend :=
  {s with transactions := Function.update s.transactions conn t}

/-- The database is another one. -/
def Backend.write (s : Backend) (db : Database) : Backend :=
  {s with services := {s.services with db := db}}

@[simp] theorem Backend.set_services (s : Backend) (conn : ℕ) (t : Option Transaction) :
    (s.set conn t).services=s.services := rfl

@[simp] theorem Backend.set_set (s : Backend) (conn : ℕ) (t u : Option Transaction) :
    (s.set conn t).set conn u=s.set conn u := by
  rw [set,set,set,Function.update_idem]

@[simp] theorem Backend.set_transactions_self (s : Backend) (conn : ℕ) (t : Option Transaction) :
    (s.set conn t).transactions conn=t := by
  change Function.update s.transactions conn t conn=t
  rw [Function.update_self]

variable (dns : Upstream.Dnslib) (cfg : Resolver.Config)

/-- One event. -/
def backendStep (s : Backend) : BackendEvent → Backend
  | .service e => {s with services := step dns cfg s.services e}
  | .start conn e => if (s.transactions conn).isSome then s else s.set conn (opened e)
  | .execute conn =>
    match s.transactions conn with
    | none => s
    | some t => s.set conn (t.execute s.services.db)
  | .commit conn =>
    match (s.transactions conn).bind (·.commit s.services.db) with
    | none => s
    | some db => (s.write db).set conn none
  | .rollback conn => s.set conn none

section Alone

/-- Deleting a row that is not there changes nothing. -/
theorem erase_eq_self {ρ : Type*} {t : Table Text ρ} {d : Text} (h : d∉t) : t.erase d=t := by
  refine Finmap.ext_lookup fun key => ?_
  rw [lookup_erase_ite]
  split
  · rename_i he
    rw [he,Finmap.lookup_eq_none.mpr h]
  · rfl

variable {db : Database} {d : Text} {found : Bool}

/-- An INSERT that runs where it finds no row runs as well where it does. -/
theorem promote_found {category : Text} (h : found=decide (d∉db.blocklistSeed)) :
    (if found then db.promoteToBlocklist d category else db)=
      db.promoteToBlocklist d category := by
  rw [h]
  by_cases hs : d∈db.blocklistSeed
  · rw [if_neg (by simpa using hs),Database.promoteToBlocklist,insertIgnore,if_pos hs]
  · rw [if_pos (decide_eq_true hs)]

/-- So does the DELETE of a whitelist row. -/
theorem deleteWhitelist_found (h : found=decide (d∈db.whitelist)) :
    (if found then db.deleteWhitelist d else db)=db.deleteWhitelist d := by
  rw [h]
  by_cases hw : d∈db.whitelist
  · rw [if_pos (decide_eq_true hw)]
  · rw [if_neg (by simpa using hw),Database.deleteWhitelist,erase_eq_self hw]

/-- So does the DELETE of a seed row. -/
theorem deleteSeed_found (h : found=decide (d∈db.blocklistSeed)) :
    (if found then db.deleteSeed d else db)=db.deleteSeed d := by
  rw [h]
  by_cases hs : d∈db.blocklistSeed
  · rw [if_pos (decide_eq_true hs)]
  · rw [if_neg (by simpa using hs),Database.deleteSeed,erase_eq_self hs]

/-- So does the UPDATE of a blocking verdict row. -/
theorem downclassify_found (h : found=blockingRow db d) :
    (if found then db.downclassify d else db)=db.downclassify d := by
  rw [h]
  cases hblocking : blockingRow db d with
  | true => rfl
  | false =>
    have hrows : modifyAt db.domainVerdicts d VerdictRow.downclassified=db.domainVerdicts := by
      refine Finmap.ext_lookup fun key => ?_
      rw [lookup_modifyAt]
      split
      · rename_i he
        rw [he]
        rw [blockingRow] at hblocking
        cases hrow : db.domainVerdicts.lookup d with
        | none => rfl
        | some row =>
          rw [hrow,Option.any_some,Bool.or_eq_false_iff,decide_eq_false_iff_not,
            decide_eq_false_iff_not] at hblocking
          rw [Option.map_some,VerdictRow.downclassified,if_neg (not_or.mpr hblocking)]
      · rfl
    rw [Database.downclassify,hrows]
    rfl

/-- A transaction whose statements run and commit with nothing in between. -/
def Transaction.alone (db : Database) (t : Transaction) : Database :=
  ((((t.execute db).bind (·.execute db)).bind (·.execute db)).bind (·.commit db)).getD db

/-- A transaction on its own has the effect of the admin event. -/
theorem alone_opened {e : AdminEvent} {t : Transaction} (h : opened e=some t) :
    t.alone db=adminWrite db e := by
  cases e with
  | addBlocklist raw reason =>
    obtain ⟨d,hentry,rfl⟩ := Option.map_eq_some_iff.mp h
    rw [adminWrite,hentry,Option.map_some,Option.getD_some]
    change (if decide (d∈db.whitelist)=true then Database.deleteWhitelist _ d else _)=_
    rw [promote_found rfl]
    exact deleteWhitelist_found rfl
  | addWhitelist raw reason email =>
    obtain ⟨d,hentry,rfl⟩ := Option.map_eq_some_iff.mp h
    rw [adminWrite,hentry,Option.map_some,Option.getD_some]
    let put := {db with whitelist := upsert db.whitelist d ⟨reason,some email⟩ fun _ row => row}
    have hdelete : (if decide (d∈db.blocklistSeed)=true then put.deleteSeed d else put)=
        put.deleteSeed d := deleteSeed_found rfl
    change (if blockingRow db d=true then Database.downclassify
      (if decide (d∈db.blocklistSeed)=true then put.deleteSeed d else put) d else
        (if decide (d∈db.blocklistSeed)=true then put.deleteSeed d else put))=_
    rw [hdelete]
    exact downclassify_found rfl
  | confirmReport id =>
    cases h
    rw [Transaction.alone,adminWrite,Database.confirmReport]
    cases hrow : db.userReports.lookup id with
    | none =>
      rw [Transaction.execute,hrow]
      rfl
    | some row =>
      rw [Transaction.execute,hrow]
      change (if decide (row.domain∉db.blocklistSeed)=true then
        Database.promoteToBlocklist _ row.domain _ else _)=_
      exact promote_found rfl
  | _ => cases h

/-- Three statements are all that a transaction has to run. -/
theorem execute_three (db : Database) {e : AdminEvent} {t : Transaction} (h : opened e=some t) :
    (((t.execute db).bind (·.execute db)).bind (·.execute db))=none ∨
      ∃ u after, ((t.execute db).bind (·.execute db)).bind (·.execute db)=some u ∧
        u.commit db=some after := by
  cases e with
  | addBlocklist raw reason =>
    obtain ⟨d,-,rfl⟩ := Option.map_eq_some_iff.mp h
    exact .inr ⟨_,_,rfl,rfl⟩
  | addWhitelist raw reason email =>
    obtain ⟨d,-,rfl⟩ := Option.map_eq_some_iff.mp h
    exact .inr ⟨_,_,rfl,rfl⟩
  | confirmReport id =>
    cases h
    rw [Transaction.execute]
    cases db.userReports.lookup id with
    | none => exact .inl rfl
    | some row => exact .inr ⟨_,_,rfl,rfl⟩
  | _ => cases h

/-- A statement of the transaction of a connection. -/
theorem step_execute (dns : Upstream.Dnslib) (cfg : Resolver.Config) (s : Backend) (conn : ℕ)
    (t : Option Transaction) :
    backendStep dns cfg (s.set conn t) (.execute conn)=
      s.set conn (t.bind (·.execute s.services.db)) := by
  rw [backendStep,Backend.set_transactions_self]
  cases t with
  | none => rfl
  | some t => exact Backend.set_set s conn (some t) _

/-- On a connection that is free, a transaction that nothing comes in between
is the admin event of the services. -/
theorem run_alone (dns : Upstream.Dnslib) (cfg : Resolver.Config) (s : Backend) {conn : ℕ}
    (hfree : s.transactions conn=none) {e : AdminEvent} {t : Transaction}
    (h : opened e=some t) :
    run (backendStep dns cfg) s
        [.start conn e,.execute conn,.execute conn,.execute conn,.commit conn]=
      backendStep dns cfg s (.service (.admin e)) := by
  have hset : s.set conn none=s := by
    rw [Backend.set,←hfree,Function.update_eq_self]
  have hstart : backendStep dns cfg s (.start conn e)=s.set conn (some t) := by
    rw [backendStep,hfree,h]
    rfl
  have hadmin : backendStep dns cfg s (.service (.admin e))=s.write (t.alone s.services.db) := by
    rw [alone_opened h]
    cases e with
    | clearCaches domain => cases h
    | _ => rfl
  rw [run_cons,hstart,run_cons,step_execute,run_cons,step_execute,run_cons,step_execute,run_cons,
    run_nil,hadmin,backendStep,Backend.set_transactions_self,Transaction.alone,Option.bind_some]
  obtain hnone | ⟨u,after,hu,hafter⟩ := execute_three s.services.db h
  · rw [hnone]
    exact hset
  · rw [hu,Option.bind_some,Option.bind_some,Backend.set_services,hafter]
    have hcommute : ((s.set conn (some u)).write after).set conn none=
        (s.set conn none).write after :=
      congrArg (Backend.write · after) (Backend.set_set s conn _ _)
    exact hcommute.trans (congrArg (Backend.write · after) hset)

end Alone

section Rows

variable {dns : Upstream.Dnslib} {cfg : Resolver.Config} {s : Backend} {d : Text}

/-- The commit inserts a seed row of the domain. -/
def Transaction.InsertsSeed (d : Text) : Transaction → Prop
  | .blocklist domain _ (some true) _ => domain=d
  | .confirmation _ (some domain) (some true) => domain=d
  | _ => False

/-- The commit deletes the seed row of the domain. -/
def Transaction.DeletesSeed (d : Text) : Transaction → Prop
  | .whitelist domain _ _ _ (some true) _ => domain=d
  | _ => False

/-- The commit puts a whitelist row of the domain in place. -/
def Transaction.InsertsWhitelist (d : Text) : Transaction → Prop
  | .whitelist domain _ _ _ _ _ => domain=d
  | _ => False

/-- The commit deletes the whitelist row of the domain. -/
def Transaction.DeletesWhitelist (d : Text) : Transaction → Prop
  | .blocklist domain _ _ (some true) => domain=d
  | _ => False

/-- How a commit changes the seed rows. -/
theorem mem_seed_commit {t : Transaction} {db after : Database} (h : t.commit db=some after) :
    d∈after.blocklistSeed ↔ (d∈db.blocklistSeed ∧ ¬t.DeletesSeed d) ∨ t.InsertsSeed d := by
  have hkept : ∀ {inserts : Prop}, ¬inserts →
      (d∈db.blocklistSeed ↔ (d∈db.blocklistSeed ∧ ¬False) ∨ inserts) := fun h =>
    ⟨fun hd => .inl ⟨hd,id⟩,fun hd => (hd.resolve_right h).1⟩
  have hput : ∀ {domain : Text} {row : SeedRow}, d∈insertIgnore db.blocklistSeed domain row ↔
      (d∈db.blocklistSeed ∧ ¬False) ∨ domain=d := by
    intro domain row
    rw [mem_insertIgnore,or_comm,eq_comm,and_iff_left id]
  unfold Transaction.commit at h
  split at h
  · rename_i domain reason inserted deleted
    cases h
    cases inserted
    · cases deleted <;> exact hkept id
    · cases deleted <;> exact hput
  · rename_i domain reason email deleted downclassified
    cases h
    cases deleted
    · cases downclassified <;> exact hkept id
    · cases downclassified <;> exact mem_erase_iff.trans (or_iff_left id).symm
  · rename_i id domain inserted
    cases h
    cases inserted
    · exact hkept not_false
    · exact hput
  · cases h

/-- How a commit changes which domains are whitelisted. -/
theorem mem_whitelist_commit {t : Transaction} {db after : Database}
    (h : t.commit db=some after) :
    d∈after.whitelist ↔ (d∈db.whitelist ∧ ¬t.DeletesWhitelist d) ∨ t.InsertsWhitelist d := by
  have hkept : d∈db.whitelist ↔ (d∈db.whitelist ∧ ¬False) ∨ False :=
    ⟨fun hd => .inl ⟨hd,id⟩,fun hd => (hd.resolve_right id).1⟩
  unfold Transaction.commit at h
  split at h
  · rename_i domain reason inserted deleted
    cases h
    cases deleted
    · cases inserted <;> exact hkept
    · cases inserted <;> exact mem_erase_iff.trans (or_iff_left id).symm
  · rename_i domain reason email deleted downclassified
    cases h
    have hput : d∈upsert db.whitelist domain ⟨reason,some email⟩ (fun _ row => row) ↔
        (d∈db.whitelist ∧ ¬False) ∨ domain=d := by
      rw [mem_upsert,or_comm,eq_comm,and_iff_left id]
    cases deleted <;> cases downclassified <;> exact hput
  · rename_i id domain inserted
    cases h
    cases inserted <;> exact hkept
  · cases h

/-- What an event does by its service or by a transaction that can commit. -/
def Does (s : Backend) (onService : Event → Prop) (onCommit : Transaction → Prop) :
    BackendEvent → Prop
  | .service e => onService e
  | .commit conn =>
    ∃ t, s.transactions conn=some t ∧ (t.commit s.services.db).isSome=true ∧ onCommit t
  | _ => False

/-- An event is a command of a service, a commit, or changes no row. -/
theorem backendStep_cases (dns : Upstream.Dnslib) (cfg : Resolver.Config) (s : Backend)
    (e : BackendEvent) :
    (∃ event, e=.service event ∧
      (backendStep dns cfg s e).services=step dns cfg s.services event) ∨
    (∃ conn t after, e=.commit conn ∧ s.transactions conn=some t ∧
      t.commit s.services.db=some after ∧
      (backendStep dns cfg s e).services={s.services with db := after}) ∨
    (backendStep dns cfg s e).services=s.services ∧
      ∀ onService onCommit, ¬Does s onService onCommit e := by
  cases e with
  | service event => exact .inl ⟨event,rfl,rfl⟩
  | start conn event =>
    refine .inr (.inr ⟨?_,fun _ _ => id⟩)
    rw [backendStep]
    split <;> rfl
  | execute conn =>
    refine .inr (.inr ⟨?_,fun _ _ => id⟩)
    rw [backendStep]
    split <;> rfl
  | commit conn =>
    right
    rw [backendStep]
    cases ht : (s.transactions conn).bind (·.commit s.services.db) with
    | none =>
      refine .inr ⟨rfl,fun _ _ ⟨t,htransaction,hsome,_⟩ => ?_⟩
      rw [htransaction,Option.bind_some] at ht
      rw [ht] at hsome
      cases hsome
    | some after =>
      obtain ⟨t,htransaction,hcommit⟩ := Option.bind_eq_some_iff.mp ht
      exact .inl ⟨conn,t,after,rfl,htransaction,hcommit,rfl⟩
  | rollback conn => exact .inr (.inr ⟨rfl,fun _ _ => id⟩)

/-- A commit does what its transaction does. -/
theorem does_commit {conn : ℕ} {t : Transaction} {after : Database}
    {onService : Event → Prop} {onCommit : Transaction → Prop}
    (ht : s.transactions conn=some t) (hcommit : t.commit s.services.db=some after) :
    Does s onService onCommit (.commit conn) ↔ onCommit t := by
  constructor
  · rintro ⟨u,hu,-,hdoes⟩
    rw [ht] at hu
    cases hu
    exact hdoes
  · exact fun h => ⟨t,ht,by rw [hcommit]; rfl,h⟩

/-- The event puts a seed row of the domain in place. -/
def PutsSeed (s : Backend) (d : Text) : BackendEvent → Prop :=
  Does s (TableFrames.InsertsSeed s.services d) (·.InsertsSeed d)

/-- The event deletes the seed row of the domain. -/
def DropsSeed (s : Backend) (d : Text) : BackendEvent → Prop :=
  Does s (TableFrames.DeletesSeed d) (·.DeletesSeed d)

/-- The event puts a whitelist row of the domain in place. -/
def PutsWhitelist (s : Backend) (d : Text) : BackendEvent → Prop :=
  Does s (TableFrames.InsertsWhitelist d) (·.InsertsWhitelist d)

/-- The event deletes the whitelist row of the domain. -/
def DropsWhitelist (s : Backend) (d : Text) : BackendEvent → Prop :=
  Does s (TableFrames.DeletesWhitelist s.services d) (·.DeletesWhitelist d)

/-- How an event changes the seed rows. -/
theorem mem_seed_backendStep (e : BackendEvent) :
    d∈(backendStep dns cfg s e).services.db.blocklistSeed ↔
      (d∈s.services.db.blocklistSeed ∧ ¬DropsSeed s d e) ∨ PutsSeed s d e := by
  obtain ⟨event,rfl,hs⟩ | ⟨conn,t,after,rfl,ht,hcommit,hs⟩ | ⟨hs,hnot⟩ :=
    backendStep_cases dns cfg s e
  · rw [hs]
    exact mem_seed_step event
  · rw [hs,DropsSeed,PutsSeed,does_commit ht hcommit,does_commit ht hcommit]
    exact mem_seed_commit hcommit
  · rw [hs,DropsSeed,PutsSeed,and_iff_left (hnot _ _),or_iff_left (hnot _ _)]

/-- How an event changes which domains are whitelisted. -/
theorem mem_whitelist_backendStep (e : BackendEvent) :
    d∈(backendStep dns cfg s e).services.db.whitelist ↔
      (d∈s.services.db.whitelist ∧ ¬DropsWhitelist s d e) ∨ PutsWhitelist s d e := by
  obtain ⟨event,rfl,hs⟩ | ⟨conn,t,after,rfl,ht,hcommit,hs⟩ | ⟨hs,hnot⟩ :=
    backendStep_cases dns cfg s e
  · rw [hs]
    exact mem_whitelist_step event
  · rw [hs,DropsWhitelist,PutsWhitelist,does_commit ht hcommit,does_commit ht hcommit]
    exact mem_whitelist_commit hcommit
  · rw [hs,DropsWhitelist,PutsWhitelist,and_iff_left (hnot _ _),or_iff_left (hnot _ _)]

/-- What the transaction of a connection can be behind an event: what it was, a
new one, or what a statement has made of it. -/
theorem transactions_cases {e : BackendEvent} {conn : ℕ} {t : Transaction}
    (h : (backendStep dns cfg s e).transactions conn=some t) :
    s.transactions conn=some t ∨ (∃ event, opened event=some t) ∨
      e=.execute conn ∧ ∃ u, s.transactions conn=some u ∧ u.execute s.services.db=some t := by
  have hset : ∀ (other : ℕ) (u : Option Transaction), (s.set other u).transactions conn=some t →
      conn=other ∧ u=some t ∨ s.transactions conn=some t := by
    intro other u hu
    by_cases he : conn=other
    · rw [he,Backend.set_transactions_self] at hu
      exact .inl ⟨he,hu⟩
    · exact .inr ((Function.update_of_ne he _ _).symm.trans hu)
  cases e with
  | service event => exact .inl h
  | start other event =>
    rw [backendStep] at h
    split at h
    · exact .inl h
    · exact (hset _ _ h).elim (fun hu => .inr (.inl ⟨event,hu.2⟩)) .inl
  | execute other =>
    rw [backendStep] at h
    cases hother : s.transactions other with
    | none =>
      rw [hother] at h
      exact .inl h
    | some u =>
      rw [hother] at h
      refine (hset _ _ h).elim (fun hu => .inr (.inr ⟨by rw [hu.1],u,?_,hu.2⟩)) .inl
      rw [hu.1,hother]
  | commit other =>
    rw [backendStep] at h
    split at h
    · exact .inl h
    · exact (hset other none h).elim (fun hu => absurd hu.2 nofun) .inl
  | rollback other => exact (hset _ _ h).elim (fun hu => absurd hu.2 nofun) .inl

end Rows

end ScamLens.AdminTransactions
