import ScamLens.AdminTransactions
import ScamLens.BlockRequests

/-!
# Domains in both list tables

The two admin forms keep a domain out of one table when they put it into the
other. Promotions, report confirmations and scraped posts do not look at the
whitelist: it wins anyway. So a domain gets into both tables by such an
insertion while it is whitelisted, or by two admin forms whose transactions run
at once, each with its DELETE before the other commits; apart from that it takes
an import of domains with a seed row.
-/

namespace ScamLens.TableOverlaps

open AdminTransactions BlockRequests DomainEntries EventRuns PlainMessages PythonText Resolver
  Services TableFrames Tables Upstream VerdictStore

/-- The domain has a row in both tables. -/
def Overlaps (d : Text) (s : Backend) : Prop :=
  d∈s.services.db.whitelist ∧ d∈s.services.db.blocklistSeed

/-- The event inserts a seed row of the domain, but is no admin block. -/
def Promotes (d : Text) (s : Deployment) : Event → Prop
  | .admin (.addBlocklist _ _) => False
  | e => InsertsSeed s d e

/-- The event deletes neither row of the domain. -/
def KeepsBoth (d : Text) (s : Backend) (e : BackendEvent) : Prop :=
  ¬DropsSeed s d e ∧ ¬DropsWhitelist s d e

/-- No import inserts the domain while it has a seed row. -/
def ImportsApart (d : Text) (s : Backend) : BackendEvent → Prop
  | .service (.tranco (.insert rows)) =>
    d∈s.services.db.blocklistSeed → ∀ row∈rows, lower row.1≠d
  | _ => True

/-- The event gives the domain its second row. -/
inductive Joins (d : Text) (s : Backend) : BackendEvent → Prop where
  /-- A promotion or an undisturbed confirmation, while it is whitelisted. -/
  | promotion {e : Event} (hw : d∈s.services.db.whitelist) (he : Promotes d s.services e) :
    Joins d s (.service e)
  /-- The commit of a confirmation, while it is whitelisted. -/
  | confirmation {conn id : ℕ} (hw : d∈s.services.db.whitelist)
    (ht : s.transactions conn=some (.confirmation id (some d) (some true))) :
    Joins d s (.commit conn)
  /-- The commit of an admin block whose DELETE has found no whitelist row. -/
  | block {conn : ℕ} {reason : Option Text} (hw : d∈s.services.db.whitelist)
    (ht : s.transactions conn=some (.blocklist d reason (some true) (some false))) :
    Joins d s (.commit conn)
  /-- The commit of an admin whitelisting whose DELETE has found no seed row. -/
  | allow {conn : ℕ} {reason : Option Text} {email : Text} {downclassified : Bool}
    (hs : d∈s.services.db.blocklistSeed)
    (ht : s.transactions conn=
      some (.whitelist d reason email true (some false) (some downclassified))) :
    Joins d s (.commit conn)

section Steps

variable {dns : Dnslib} {cfg : Config} {s : Backend} {d : Text} {e : BackendEvent}

/-- Promotions are the insertions of a seed row that keep the whitelist row. -/
theorem promotes_iff {t : Deployment} {event : Event} :
    Promotes d t event ↔ InsertsSeed t d event ∧ ¬DeletesWhitelist t d event := by
  cases event with
  | admin e =>
    cases e with
    | addBlocklist raw reason => exact ⟨False.elim,fun h => h.2 h.1⟩
    | _ => exact ⟨fun h => ⟨h,fun hd => by first | exact hd | exact h⟩,And.left⟩
  | tranco e => exact ⟨fun h => absurd h not_false,fun h => absurd h.1 not_false⟩
  | _ => exact ⟨fun h => ⟨h,not_false⟩,And.left⟩

/-- What inserts a whitelist row deletes the seed row, or is an import. -/
theorem not_insertsWhitelist {event : Event} (hi : ImportsApart d s (.service event))
    (hseed : d∈s.services.db.blocklistSeed) (hkeep : ¬DeletesSeed d event) :
    ¬InsertsWhitelist d event := by
  intro h
  cases event with
  | admin e =>
    cases e with
    | addWhitelist raw reason email => exact hkeep h
    | _ => exact h
  | tranco e =>
    cases e with
    | insert rows =>
      obtain ⟨row,hrow,hd⟩ := h
      exact hi hseed row hrow hd
    | purge => exact h
  | _ => exact h

/-- No command inserts rows of a domain into both tables. -/
theorem not_insertsWhitelist_of_insertsSeed {t : Deployment} {event : Event}
    (h : InsertsSeed t d event) : ¬InsertsWhitelist d event := by
  intro hw
  cases event with
  | admin e =>
    cases e with
    | addWhitelist raw reason email => exact h
    | _ => exact hw
  | tranco e => exact h
  | _ => exact hw

/-- A command of a service joins exactly by a promotion. -/
theorem joins_service_iff {event : Event} :
    Joins d s (.service event) ↔ d∈s.services.db.whitelist ∧ Promotes d s.services event :=
  ⟨fun | .promotion hw he => ⟨hw,he⟩,fun h => .promotion h.1 h.2⟩

/-- A commit joins exactly if it inserts one row and keeps the other. -/
theorem joins_commit_iff {conn : ℕ} {t : Transaction} {after : Database}
    (ht : s.transactions conn=some t) (hcommit : t.commit s.services.db=some after) :
    Joins d s (.commit conn) ↔
      (d∈s.services.db.whitelist ∧ ¬t.DeletesWhitelist d ∧ t.InsertsSeed d) ∨
        (d∈s.services.db.blocklistSeed ∧ ¬t.DeletesSeed d ∧ t.InsertsWhitelist d) := by
  constructor
  · rintro (_|⟨hw,hu⟩|⟨hw,hu⟩|⟨hs,hu⟩) <;> rw [ht] at hu <;> cases hu
    · exact .inl ⟨hw,id,rfl⟩
    · exact .inl ⟨hw,id,rfl⟩
    · exact .inr ⟨hs,id,rfl⟩
  · unfold Transaction.commit at hcommit
    split at hcommit
    · rename_i domain reason inserted deleted
      rintro (⟨hw,hkeep,hin⟩|⟨-,-,hin⟩)
      · cases inserted <;> cases deleted
        · exact hin.elim
        · exact hin.elim
        · cases hin
          exact .block hw ht
        · exact absurd hin hkeep
      · exact hin.elim
    · rename_i domain reason email deleted downclassified
      rintro (⟨-,-,hin⟩|⟨hs,hkeep,hin⟩)
      · exact hin.elim
      · cases hin
        cases deleted
        · exact .allow hs ht
        · exact absurd rfl hkeep
    · rename_i id domain inserted
      rintro (⟨hw,-,hin⟩|⟨-,-,hin⟩)
      · cases inserted
        · exact hin.elim
        · cases hin
          exact .confirmation hw ht
      · exact hin.elim
    · cases hcommit

/-- No commit inserts rows of a domain into both tables. -/
theorem not_insertsBoth {t : Transaction} (h : t.InsertsSeed d) : ¬t.InsertsWhitelist d := by
  cases t with
  | whitelist => exact fun _ => h
  | _ => exact id

/-- An event leaves a domain in both tables when it deletes neither of its
rows, or when it gives it the second one. -/
theorem overlaps_step (hi : ImportsApart d s e) :
    Overlaps d (backendStep dns cfg s e) ↔ (Overlaps d s ∧ KeepsBoth d s e) ∨ Joins d s e := by
  rw [Overlaps,mem_whitelist_backendStep,mem_seed_backendStep]
  obtain ⟨event,rfl,-⟩ | ⟨conn,t,after,rfl,ht,hcommit,-⟩ | ⟨-,hnot⟩ :=
    backendStep_cases dns cfg s e
  · rw [joins_service_iff,promotes_iff]
    constructor
    · rintro ⟨⟨hwhite,hkeepWhite⟩|hinsertWhite,⟨hseed,hkeepSeed⟩|hinsert⟩
      · exact .inl ⟨⟨hwhite,hseed⟩,hkeepSeed,hkeepWhite⟩
      · exact .inr ⟨hwhite,hinsert,hkeepWhite⟩
      · exact absurd hinsertWhite (not_insertsWhitelist hi hseed hkeepSeed)
      · exact absurd hinsertWhite (not_insertsWhitelist_of_insertsSeed hinsert)
    · rintro (⟨⟨hwhite,hseed⟩,hkeepSeed,hkeepWhite⟩|⟨hwhite,hinsert,hkeepWhite⟩)
      · exact ⟨.inl ⟨hwhite,hkeepWhite⟩,.inl ⟨hseed,hkeepSeed⟩⟩
      · exact ⟨.inl ⟨hwhite,hkeepWhite⟩,.inr hinsert⟩
  · rw [joins_commit_iff ht hcommit,KeepsBoth,DropsSeed,DropsWhitelist,PutsSeed,PutsWhitelist,
      does_commit ht hcommit,does_commit ht hcommit,does_commit ht hcommit,does_commit ht hcommit]
    constructor
    · rintro ⟨⟨hwhite,hkeepWhite⟩|hinsertWhite,⟨hseed,hkeepSeed⟩|hinsert⟩
      · exact .inl ⟨⟨hwhite,hseed⟩,hkeepSeed,hkeepWhite⟩
      · exact .inr (.inl ⟨hwhite,hkeepWhite,hinsert⟩)
      · exact .inr (.inr ⟨hseed,hkeepSeed,hinsertWhite⟩)
      · exact absurd hinsertWhite (not_insertsBoth hinsert)
    · rintro (⟨⟨hwhite,hseed⟩,hkeepSeed,hkeepWhite⟩|⟨hwhite,hkeepWhite,hinsert⟩|
        ⟨hseed,hkeepSeed,hinsertWhite⟩)
      · exact ⟨.inl ⟨hwhite,hkeepWhite⟩,.inl ⟨hseed,hkeepSeed⟩⟩
      · exact ⟨.inl ⟨hwhite,hkeepWhite⟩,.inr hinsert⟩
      · exact ⟨.inr hinsertWhite,.inl ⟨hseed,hkeepSeed⟩⟩
  · have hjoins : ¬Joins d s e := by
      rintro (⟨hw,he⟩|⟨hw,ht⟩|⟨hw,ht⟩|⟨hs,ht⟩)
      · exact hnot (fun _ => True) (fun _ => True) trivial
      all_goals exact hnot (fun _ => True) (fun _ => True) ⟨_,ht,rfl,trivial⟩
    rw [KeepsBoth,DropsSeed,DropsWhitelist,PutsSeed,PutsWhitelist,or_iff_left (hnot _ _),
      or_iff_left (hnot _ _),and_iff_left (hnot _ _),and_iff_left (hnot _ _),or_iff_left hjoins]
    exact (and_iff_left ⟨hnot _ _,hnot _ _⟩).symm

end Steps

section Runs

variable {dns : Dnslib} {cfg : Config} {s : Backend} {d : Text}

/-- The DELETE of the transaction has run and found no whitelist row. -/
def MissedWhitelist (d : Text) : Transaction → Prop
  | .blocklist domain _ _ (some false) => domain=d
  | _ => False

/-- The DELETE of the transaction has run and found no seed row. -/
def MissedSeed (d : Text) : Transaction → Prop
  | .whitelist domain _ _ _ (some false) _ => domain=d
  | _ => False

/-- A transaction starts with its first statement. -/
theorem not_missed_opened {e : AdminEvent} {t : Transaction} (h : opened e=some t) :
    ¬MissedWhitelist d t ∧ ¬MissedSeed d t := by
  cases e with
  | addBlocklist raw reason =>
    obtain ⟨domain,-,rfl⟩ := Option.map_eq_some_iff.mp h
    exact ⟨id,id⟩
  | addWhitelist raw reason email =>
    obtain ⟨domain,-,rfl⟩ := Option.map_eq_some_iff.mp h
    exact ⟨id,id⟩
  | confirmReport id =>
    cases h
    exact ⟨not_false,not_false⟩
  | _ => cases h

/-- A statement after which the whitelist row has been missed is one that found
none, or one behind it. -/
theorem missedWhitelist_execute {db : Database} {t u : Transaction} (h : t.execute db=some u)
    (hu : MissedWhitelist d u) : MissedWhitelist d t ∨ d∉db.whitelist := by
  unfold Transaction.execute at h
  split at h
  · rename_i domain reason deleted
    cases h
    rcases deleted with _|_|_ <;> first | exact hu.elim | exact .inl hu
  · rename_i domain reason inserted
    cases h
    by_cases hw : domain∈db.whitelist
    · rw [decide_eq_true hw] at hu
      exact hu.elim
    · rw [decide_eq_false hw] at hu
      cases hu
      exact .inr hw
  all_goals first
    | exact .inl (Option.some.inj h ▸ hu)
    | (cases h; exact hu.elim)
    | (obtain ⟨row,-,rfl⟩ := Option.map_eq_some_iff.mp h; exact hu.elim)

/-- So for the seed row. -/
theorem missedSeed_execute {db : Database} {t u : Transaction} (h : t.execute db=some u)
    (hu : MissedSeed d u) : MissedSeed d t ∨ d∉db.blocklistSeed := by
  unfold Transaction.execute at h
  split at h
  · cases h
    exact hu.elim
  · cases h
    exact hu.elim
  · rename_i domain reason email deleted downclassified
    cases h
    rcases deleted with _|_|_ <;> first | exact hu.elim | exact .inl hu
  · rename_i domain reason email downclassified
    cases h
    by_cases hs : domain∈db.blocklistSeed
    · rw [decide_eq_true hs] at hu
      exact hu.elim
    · rw [decide_eq_false hs] at hu
      cases hu
      exact .inr hs
  · rename_i domain reason email deleted
    cases h
    cases deleted
    · exact .inl hu
    · exact hu.elim
  · obtain ⟨row,-,rfl⟩ := Option.map_eq_some_iff.mp h
    exact hu.elim
  · cases h
    exact hu.elim
  · exact .inl (Option.some.inj h ▸ hu)

/-- A row that a DELETE has missed and that is there was put in place between
the DELETE and the commit. -/
theorem put_since_missed (Missed : Transaction → Prop) (Present : Backend → Prop)
    (Puts : Backend → BackendEvent → Prop)
    (hopened : ∀ e t, opened e=some t → ¬Missed t)
    (hexecute : ∀ s conn t u, Transaction.execute s.services.db t=some u → Missed u →
      Present (backendStep dns cfg s (.execute conn)) → Missed t)
    (hpresent : ∀ s e, Present (backendStep dns cfg s e) → Present s ∨ Puts s e)
    (hidle : ∀ conn, s.transactions conn=none) {events : List BackendEvent} {conn : ℕ}
    {t : Transaction} (ht : (run (backendStep dns cfg) s events).transactions conn=some t)
    (hmissed : Missed t) (hrow : Present (run (backendStep dns cfg) s events)) :
    ∃ front e back, events=front++e::back ∧ Puts (run (backendStep dns cfg) s front) e ∧
      ∃ u, (run (backendStep dns cfg) s front).transactions conn=some u ∧ Missed u := by
  induction events using List.reverseRecOn generalizing t with
  | nil =>
    rw [run_nil,hidle conn] at ht
    cases ht
  | append_singleton events last ih =>
    rw [run_append,run_cons,run_nil] at ht hrow
    have hbefore : ∃ u, (run (backendStep dns cfg) s events).transactions conn=some u ∧
        Missed u := by
      obtain hsame | ⟨e,he⟩ | ⟨rfl,u,hu,hstatement⟩ := transactions_cases ht
      · exact ⟨t,hsame,hmissed⟩
      · exact absurd hmissed (hopened e t he)
      · exact ⟨u,hu,hexecute _ conn u t hstatement hmissed hrow⟩
    obtain ⟨u,hu,humissed⟩ := hbefore
    rcases hpresent _ _ hrow with hold|hputs
    · obtain ⟨front,e,back,rfl,hfound⟩ := ih hu humissed hold
      exact ⟨front,e,back++[last],by rw [List.append_assoc,List.cons_append],hfound⟩
    · exact ⟨events,last,[],rfl,hputs,u,hu,humissed⟩

/-- Without an insertion a domain that is not whitelisted stays so. -/
theorem not_whitelisted_step {e : BackendEvent} (h : d∉s.services.db.whitelist)
    (he : ¬PutsWhitelist s d e) : d∉(backendStep dns cfg s e).services.db.whitelist := fun hw =>
  h ((mem_whitelist_backendStep e).mp hw |>.resolve_right he).1

/-- The transaction of an admin block that has found what it has to write. -/
def Ready (conn : ℕ) (d : Text) (reason : Option Text) (inserted : Bool) (s : Backend) : Prop :=
  d∉s.services.db.whitelist ∧
      s.transactions conn=some (.blocklist d reason (some inserted) (some false)) ∨
    s.transactions conn=some (.blocklist d reason (some inserted) (some true))

/-- It stays so up to its commit. -/
theorem ready_step {conn : ℕ} {reason : Option Text} {inserted : Bool} {e : BackendEvent}
    (h : Ready conn d reason inserted s) (hquiet : ¬PutsWhitelist s d e)
    (hcommit : e≠.commit conn) (hrollback : e≠.rollback conn) :
    Ready conn d reason inserted (backendStep dns cfg s e) := by
  have hstays : ∀ deleted,
      s.transactions conn=some (.blocklist d reason (some inserted) (some deleted)) →
      (backendStep dns cfg s e).transactions conn=
        some (.blocklist d reason (some inserted) (some deleted)) := by
    intro deleted ht
    have hset : ∀ (other : ℕ) (u : Option Transaction), conn≠other →
        (s.set other u).transactions conn=s.transactions conn :=
      fun other u hne => Function.update_of_ne hne _ _
    cases e with
    | service event => exact ht
    | start other event =>
      rw [backendStep]
      split
      · exact ht
      · rename_i hfree
        refine (hset _ _ fun he => hfree ?_).trans ht
        rw [←he,ht]
        rfl
    | execute other =>
      rw [backendStep]
      by_cases he : conn=other
      · rw [←he,ht]
        exact Backend.set_transactions_self s conn _
      · split
        · exact ht
        · exact (hset _ _ he).trans ht
    | commit other =>
      rw [backendStep]
      have hne : conn≠other := fun he => hcommit (by rw [he])
      split
      · exact ht
      · exact (Function.update_of_ne hne _ _).trans ht
    | rollback other =>
      have hne : conn≠other := fun he => hrollback (by rw [he])
      exact (hset _ _ hne).trans ht
  exact h.imp (fun hw => ⟨not_whitelisted_step hw.1 hquiet,hstays _ hw.2⟩) (hstays _)

/-- Behind the commit the domain is not whitelisted. -/
theorem not_whitelisted_commit {conn : ℕ} {reason : Option Text} {inserted : Bool}
    (h : Ready conn d reason inserted s) :
    d∉(backendStep dns cfg s (.commit conn)).services.db.whitelist := by
  rw [mem_whitelist_backendStep,PutsWhitelist,DropsWhitelist]
  rcases h with ⟨hw,ht⟩|ht <;> rw [does_commit ht rfl,does_commit ht rfl]
  · exact fun hin => hin.elim (fun hin => hw hin.1) id
  · exact fun hin => hin.elim (fun hin => hin.2 rfl) id

/-- An admin block whose transaction is ready and commits leaves no whitelist
row, unless one is put in place. -/
theorem not_whitelisted_run {conn : ℕ} {reason : Option Text} {inserted : Bool}
    (h : Ready conn d reason inserted s) {events : List BackendEvent}
    (hcommit : .commit conn∈events) (hrollback : .rollback conn∉events)
    (hquiet : Along (backendStep dns cfg) (fun s e => ¬PutsWhitelist s d e) s events) :
    d∉(run (backendStep dns cfg) s events).services.db.whitelist := by
  obtain ⟨front,back,rfl,hfirst⟩ := List.eq_append_cons_of_mem hcommit
  obtain ⟨hfront,-,hback⟩ := (along_append s front _).mp hquiet
  have hothers : Along (backendStep dns cfg) (fun _ e => e≠.commit conn ∧ e≠.rollback conn) s
      front := along_of_forall (fun e he => ⟨fun hc => hfirst (hc ▸ he),
        fun hr => hrollback (List.mem_append_left _ (hr ▸ he))⟩) s
  have hready : Ready conn d reason inserted (run (backendStep dns cfg) s front) :=
    (hfront.and hothers).invariant (fun s e hs he => ready_step hs he.1 he.2.1 he.2.2) h
  rw [run_append,run_cons]
  exact hback.invariant (fun s e => not_whitelisted_step) (not_whitelisted_commit hready)

/-- From disjoint tables, in runs in which no import inserts a domain with a
seed row, whatever commands, statements and commits come in between: a domain is
in both tables exactly when some event has given it its second row and neither
row has been deleted since. An admin form gives it one only if the other row was
put in place between its DELETE and its commit. And an admin block that commits
leaves no whitelist row as long as none is put in place behind its DELETE. -/
theorem overlaps_iff_joined (dns : Dnslib) (cfg : Config) (s : Backend) (d : Text)
    (hidle : ∀ conn, s.transactions conn=none) (hdisjoint : ¬Overlaps d s)
    {events : List BackendEvent}
    (himports : Along (backendStep dns cfg) (ImportsApart d) s events) {t : Backend}
    (ht : t=run (backendStep dns cfg) s events) :
    (Overlaps d t ↔ ∃ first e second, events=first++e::second ∧
      Joins d (run (backendStep dns cfg) s first) e ∧
      Along (backendStep dns cfg) (KeepsBoth d)
        (backendStep dns cfg (run (backendStep dns cfg) s first) e) second) ∧
    (∀ first conn second u, events=first++.commit conn::second →
      (run (backendStep dns cfg) s first).transactions conn=some u →
      (MissedWhitelist d u → d∈(run (backendStep dns cfg) s first).services.db.whitelist →
        ∃ front e back, first=front++e::back ∧
          PutsWhitelist (run (backendStep dns cfg) s front) d e ∧
          ∃ v, (run (backendStep dns cfg) s front).transactions conn=some v ∧
            MissedWhitelist d v) ∧
      (MissedSeed d u → d∈(run (backendStep dns cfg) s first).services.db.blocklistSeed →
        ∃ front e back, first=front++e::back ∧
          PutsSeed (run (backendStep dns cfg) s front) d e ∧
          ∃ v, (run (backendStep dns cfg) s front).transactions conn=some v ∧
            MissedSeed d v)) ∧
    (∀ first conn reason inserted second, events=first++.execute conn::second →
      (run (backendStep dns cfg) s first).transactions conn=
        some (.blocklist d reason (some inserted) none) →
      .commit conn∈second → .rollback conn∉second →
      Along (backendStep dns cfg) (fun s e => ¬PutsWhitelist s d e)
        (backendStep dns cfg (run (backendStep dns cfg) s first) (.execute conn)) second →
      d∉t.services.db.whitelist) ∧
    ∀ first raw reason second, events=first++.service (.admin (.addBlocklist raw reason))::second →
      domainEntry raw reason=some d →
      Along (backendStep dns cfg) (fun s e => ¬PutsWhitelist s d e)
        (backendStep dns cfg (run (backendStep dns cfg) s first)
          (.service (.admin (.addBlocklist raw reason)))) second →
      d∉t.services.db.whitelist := by
  refine ⟨?_,fun first conn second u hsplit hu => ⟨fun hmissed hrow => ?_,fun hmissed hrow => ?_⟩,
    fun first conn reason inserted second hsplit hu hcommit hrollback hquiet => ?_,
    fun first raw reason second hsplit hentry hquiet => ?_⟩
  · rw [ht]
    exact himports.holds_iff (fun s e => overlaps_step) hdisjoint
  · exact put_since_missed (MissedWhitelist d) (fun s => d∈s.services.db.whitelist)
      (PutsWhitelist · d)
      (fun e u h => (not_missed_opened h).1)
      (fun s conn v u hstatement hv hin => (missedWhitelist_execute hstatement hv).resolve_right
        fun hout => hout ((mem_whitelist_backendStep _).mp hin |>.resolve_right id).1)
      (fun s e hin => ((mem_whitelist_backendStep e).mp hin).imp_left And.left)
      hidle hu hmissed hrow
  · exact put_since_missed (MissedSeed d) (fun s => d∈s.services.db.blocklistSeed) (PutsSeed · d)
      (fun e u h => (not_missed_opened h).2)
      (fun s conn v u hstatement hv hin => (missedSeed_execute hstatement hv).resolve_right
        fun hout => hout ((mem_seed_backendStep _).mp hin |>.resolve_right id).1)
      (fun s e hin => ((mem_seed_backendStep e).mp hin).imp_left And.left)
      hidle hu hmissed hrow
  · have hready : Ready conn d reason inserted
        (backendStep dns cfg (run (backendStep dns cfg) s first) (.execute conn)) := by
      rw [backendStep,hu]
      by_cases hw : d∈(run (backendStep dns cfg) s first).services.db.whitelist
      · refine .inr ?_
        rw [Backend.set_transactions_self,Transaction.execute,decide_eq_true hw]
      · refine .inl ⟨hw,?_⟩
        rw [Backend.set_transactions_self,Transaction.execute,decide_eq_false hw]
    rw [ht,hsplit,run_append,run_cons]
    exact not_whitelisted_run hready hcommit hrollback hquiet
  · rw [ht,hsplit,run_append,run_cons]
    refine hquiet.invariant (fun s e => not_whitelisted_step) fun hin => ?_
    exact ((mem_whitelist_backendStep _).mp hin |>.resolve_right id).2 hentry

end Runs

section Examples

/-- A deployment that has just started. -/
def freshBackend : Backend := ⟨Deployment.init,fun _ => none⟩

/-- An admin whitelists a domain whose scan then comes to a scam verdict. -/
def promotedWhileWhitelisted : Backend :=
  run (backendStep plainDns defaultConfig) freshBackend
    [.service (.admin (.addWhitelist badTk.name none "admin".toList)),
      .service (.scanner (.savePromote badTk.name scamVerdict))]

/-- The promotion puts the domain into both tables. -/
theorem promotedWhileWhitelisted_overlaps :
    (∀ d, ¬Overlaps d freshBackend) ∧ Overlaps badTk.name promotedWhileWhitelisted :=
  ⟨fun _ h => Finmap.notMem_empty h.1,by decide +kernel,by decide +kernel⟩

/-- Two admins at once: one blocks a domain, the other whitelists it. -/
def racingAdmins : List BackendEvent :=
  [.start 0 (.addBlocklist badTk.name none),.start 1 (.addWhitelist badTk.name none "b".toList),
    .execute 0,.execute 1,.execute 0,.execute 1,.execute 1,.commit 0,.commit 1]

/-- Both transactions commit and leave the domain in both tables. -/
theorem racingAdmins_overlap :
    Overlaps badTk.name (run (backendStep plainDns defaultConfig) freshBackend racingAdmins) := by
  have himports : Along (backendStep plainDns defaultConfig) (ImportsApart badTk.name) freshBackend
      racingAdmins :=
    ⟨trivial,trivial,trivial,trivial,trivial,trivial,trivial,trivial,trivial,trivial⟩
  refine (overlaps_iff_joined plainDns defaultConfig freshBackend badTk.name (fun _ => rfl)
    (fun h => Finmap.notMem_empty h.1) himports rfl).1.mpr
    ⟨racingAdmins.take 8,.commit 1,[],rfl,?_,trivial⟩
  exact .allow (by decide +kernel) (by decide +kernel :
    (run (backendStep plainDns defaultConfig) freshBackend (racingAdmins.take 8)).transactions 1=
      some (.whitelist badTk.name none "b".toList true (some false) (some false)))

end Examples

end ScamLens.TableOverlaps
