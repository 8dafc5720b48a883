import ScamLens.UrlhausFeeds
import ScamLens.WhitelistRules

/-!
# The import of the popularity list

The import reads the first names of a ranking, deletes the popularity rows of
the whitelist and inserts the new ones. It runs beside all services: what an
admin does between its two commands and after them stays as it is, and the
names of the ranking are never blocked from the next refresh on.
-/

namespace ScamLens.PopularityImports

open Answers EventRuns KeyedTables PythonText Resolver ServiceFrames Services TableFrames Tables
  Upstream UrlhausFeeds

/-- `rank, domain = line.strip().split(",", 1)`, as domain and rank; none is
the ValueError of a line without a comma. -/
def splitRow (line : Text) : Option (Text×Text) :=
  let s := strip line
  if ','∈s then some ((s.dropWhile (·≠ ',')).tail,s.takeWhile (·≠ ',')) else none

/-- The loop of the import over the lines behind the given rows. -/
def readRows (top : ℤ) (rows : List (Text×Text)) : List Text → Option (List (Text×Text))
  | [] => some rows
  | line::lines =>
    match splitRow line with
    | none => none
    | some row =>
      if top≤((rows++[row]).length : ℤ) then some (rows++[row])
      else readRows top (rows++[row]) lines

/-- The rows that the import reads from the text of the list. The limit is
checked behind a row, so one row is read under every limit. -/
def importRows (text : Text) (top : ℤ) : Option (List (Text×Text)) := readRows top [] (ioLines text)

/-- The commands of an import; a list that cannot be read makes for none. -/
def importEvents (text : Text) (top : ℤ) : List ImportEvent :=
  match importRows text top with
  | none => []
  | some rows => [.purge,.insert rows]

/-- How many names are imported at most. -/
def importLimit (top : ℤ) : ℕ := max 1 top.toNat

section Reading

/-- An entry of the ranking. -/
structure ListEntry where
  /-- The rank. -/
  rank : Text
  /-- The name. -/
  domain : Text
  /-- No comma is in the rank. -/
  comma : ','∉rank
  /-- The rank is in one piece. -/
  rank_solid : ∀ c∈rank, isSpace c=false
  /-- The name is in one piece. -/
  domain_solid : ∀ c∈domain, isSpace c=false

/-- The line of an entry. -/
def ListEntry.line (e : ListEntry) : Text := e.rank++ ','::e.domain

/-- The row of an entry. -/
def ListEntry.row (e : ListEntry) : Text×Text := (e.domain,e.rank)

/-- A text of these entries, line by line. -/
inductive ListText : List ListEntry → Text → Prop
  | nil : ListText [] []
  | last (e : ListEntry) : ListText [e] e.line
  | cons (e : ListEntry) {eol : Text} {entries : List ListEntry} {text : Text}
      (heol : eol=['\n'] ∨ eol=['\r','\n']) (hrest : ListText entries text) :
      ListText (e::entries) (e.line++eol++text)

variable (e : ListEntry)

/-- No white space is in the line of an entry. -/
theorem ListEntry.line_solid : ∀ c∈e.line, isSpace c=false := by
  intro c hc
  rcases List.mem_append.mp hc with hc | hc
  · exact e.rank_solid c hc
  · rcases List.mem_cons.mp hc with rfl | hc
    · rfl
    · exact e.domain_solid c hc

/-- The line of an entry has something in it. -/
theorem ListEntry.line_ne_nil : e.line≠[] := by
  rw [ListEntry.line]
  exact List.append_ne_nil_of_right_ne_nil _ (List.cons_ne_nil _ _)

/-- The line of an entry ends nowhere before its end. -/
theorem ListEntry.newline_not_mem : '\n'∉e.line := by
  intro hmem
  have hspace := e.line_solid '\n' hmem
  cases hspace

/-- The line of an entry, with what ends it, is split into the entry again. -/
theorem splitRow_line {eol : Text} (heol : ∀ c∈eol, isSpace c=true) :
    splitRow (e.line++eol)=some e.row := by
  have hend : eol.rdropWhile isSpace=[] := List.rdropWhile_eq_nil_iff.mpr heol
  have hstrip : strip (e.line++eol)=e.line := by
    rw [strip_append e.line_ne_nil e.line_solid,hend,List.append_nil]
  have hrank : ∀ c∈e.rank, decide (c≠ ',')=true := by
    intro c hc
    exact decide_eq_true fun h => e.comma (h ▸ hc)
  have hcomma : ','∈e.line := List.mem_append_right _ List.mem_cons_self
  rw [splitRow,hstrip,if_pos hcomma,ListEntry.line,List.dropWhile_append_of_pos hrank,
    List.takeWhile_append_of_pos hrank]
  simp [ListEntry.row]

/-- The lines of a text are those of its entries. -/
theorem ListText.splitRow_lines {entries : List ListEntry} {text : Text}
    (h : ListText entries text) :
    (ioLines text).map splitRow=entries.map fun e => some e.row := by
  induction h with
  | nil => rfl
  | last e =>
    have hline := splitRow_line e (List.forall_mem_nil fun c => isSpace c=true)
    rw [List.append_nil] at hline
    rw [ioLines_last e.newline_not_mem,List.isEmpty_eq_false_iff.mpr e.line_ne_nil,
      if_neg Bool.false_ne_true,List.map_singleton,hline,List.map_singleton]
  | @cons e eol entries text heol _ ih =>
    have hbreak : ioLines (e.line++eol++text)=(e.line++eol)::ioLines text := by
      rcases heol with rfl | rfl
      · rw [List.append_assoc,List.singleton_append]
        exact ioLines_cons e.newline_not_mem
      · have hnot : '\n'∉e.line++['\r'] := by
          intro hmem
          rcases List.mem_append.mp hmem with hmem | hmem
          · exact e.newline_not_mem hmem
          · cases List.mem_singleton.mp hmem
        have hlines : ioLines (e.line++['\r']++ '\n'::text)=_ := ioLines_cons hnot
        simpa only [List.append_assoc,List.cons_append,List.nil_append] using hlines
    have hspace : ∀ c∈eol, isSpace c=true := by
      rcases heol with rfl | rfl <;> decide
    rw [hbreak,List.map_cons,splitRow_line e hspace,ih,List.map_cons]

/-- The loop reads one row for each line up to the limit. -/
theorem readRows_of_map (top : ℤ) {lines : List Text} {found : List (Text×Text)}
    (h : lines.map splitRow=found.map some) (rows : List (Text×Text)) :
    readRows top rows lines=some (rows++found.take (max 1 (top.toNat-rows.length))) := by
  induction lines generalizing found rows with
  | nil =>
    obtain rfl : found=[] := List.map_eq_nil_iff.mp h.symm
    rw [readRows,List.take_nil,List.append_nil]
  | cons line lines ih =>
    obtain ⟨row,found,rfl⟩ : ∃ row found', found=row::found' := by
      cases found with
      | nil => cases h
      | cons row found => exact ⟨row,found,rfl⟩
    obtain ⟨hrow,hrest⟩ := List.cons_eq_cons.mp h
    have hlength : (rows++[row]).length=rows.length+1 := by
      rw [List.length_append,List.length_singleton]
    rw [readRows,hrow]
    dsimp only
    rw [hlength]
    by_cases htop : top≤((rows.length+1 : ℕ) : ℤ)
    · have hone : max 1 (top.toNat-rows.length)=1 := by omega
      rw [if_pos htop,hone,List.take_succ_cons,List.take_zero]
    · have hmore : max 1 (top.toNat-rows.length)=max 1 (top.toNat-(rows.length+1))+1 := by omega
      rw [if_neg htop,ih hrest,hlength,hmore,List.take_succ_cons,List.append_assoc,
        List.singleton_append]

/-- The import reads the first entries of the list. -/
theorem importRows_list {entries : List ListEntry} {text : Text} (h : ListText entries text)
    (top : ℤ) :
    importRows text top=some ((entries.take (importLimit top)).map ListEntry.row) := by
  have hlines : (ioLines text).map splitRow=(entries.map ListEntry.row).map some := by
    rw [h.splitRow_lines,List.map_map]
    rfl
  have hread := readRows_of_map top hlines []
  rwa [List.nil_append,List.length_nil,Nat.sub_zero,←List.map_take] at hread

/-- The list cannot be read exactly when one of the lines that it is read up to
has no comma. -/
theorem readRows_eq_none (top : ℤ) (rows : List (Text×Text)) (lines : List Text) :
    readRows top rows lines=none ↔
      ∃ line∈lines.take (max 1 (top.toNat-rows.length)), ','∉strip line := by
  induction lines generalizing rows with
  | nil => simp [readRows]
  | cons line lines ih =>
    obtain ⟨n,hn⟩ : ∃ n, max 1 (top.toNat-rows.length)=n+1 := ⟨_,(Nat.succ_pred (by omega)).symm⟩
    rw [readRows,hn,List.take_succ_cons]
    simp only [List.mem_cons,exists_eq_or_imp]
    by_cases hcomma : ','∈strip line
    · have hsplit : ∃ row, splitRow line=some row := by
        rw [splitRow,if_pos hcomma]
        exact ⟨_,rfl⟩
      obtain ⟨row,hrow⟩ := hsplit
      have hlength : (rows++[row]).length=rows.length+1 := by
        rw [List.length_append,List.length_singleton]
      rw [hrow]
      dsimp only
      rw [hlength]
      by_cases htop : top≤((rows.length+1 : ℕ) : ℤ)
      · have hzero : n=0 := by omega
        rw [if_pos htop,hzero,List.take_zero]
        simp [hcomma]
      · have hmore : max 1 (top.toNat-(rows.length+1))=n := by omega
        rw [if_neg htop,ih,hlength,hmore]
        simp [hcomma]
    · have hsplit : splitRow line=none := by
        rw [splitRow,if_neg hcomma]
      rw [hsplit]
      simp [hcomma]

/-- An import runs no command exactly when one of these lines has no comma. -/
theorem importEvents_eq_nil (text : Text) (top : ℤ) :
    importEvents text top=[] ↔ ∃ line∈(ioLines text).take (importLimit top), ','∉strip line := by
  have hnone : importRows text top=none ↔ _ := readRows_eq_none top [] (ioLines text)
  rw [importLimit,←Nat.sub_zero top.toNat,←List.length_nil (α := Text×Text),←hnone,importEvents]
  cases importRows text top <;> simp

end Reading

section Runs

/-- The row of a popular name. -/
def popularityRow (rank : Text) : WhitelistRow :=
  ⟨some ("tranco-rank-".toList++rank),some "tranco".toList⟩

/-- The row that the entries give to a domain: the first one of the name in
lower case counts. -/
def listedRow (entries : List ListEntry) (d : Text) : Option WhitelistRow :=
  (entries.find? fun e => decide (lower e.domain=d)).map fun e => popularityRow e.rank

/-- No import runs, and no admin marks a row as imported. -/
def LeavesPopularity : Event → Prop
  | .tranco _ => False
  | .admin (.addWhitelist _ reason _) => isTrancoReason reason=false
  | _ => True

/-- No admin writes the whitelist row of the domain. -/
def LeavesRow (d : Text) : Event → Prop
  | .admin (.addBlocklist raw reason) => DomainEntries.domainEntry raw reason≠some d
  | .admin (.addWhitelist raw reason _) => DomainEntries.domainEntry raw reason≠some d
  | .admin (.deleteWhitelist raw) => DomainEntries.pathDomain raw≠d
  | _ => True

/-- The popularity rows of the table are rows of these entries. -/
def PopularRows (entries : List ListEntry) (s : Deployment) : Prop :=
  ∀ d row, s.db.whitelist.lookup d=some row → isTrancoReason row.reason=true →
    listedRow entries d=some row

/-- The domain is whitelisted and the DNS server has read it. -/
structure Read (d : Text) (s : Deployment) : Prop where
  /-- The domain has a whitelist row. -/
  row : d∈s.db.whitelist
  /-- The domain is on the whitelist in memory. -/
  whitelist : d∈s.lists.whitelist

/-- An event that leaves what the DNS server has read of the domain. -/
structure LeavesRead (d : Text) (e : Event) : Prop where
  /-- No admin writes the row. -/
  row : LeavesRow d e
  /-- No import runs. -/
  popularity : LeavesPopularity e
  /-- No read of the whitelist fails. -/
  refresh : e≠.refresh (.whitelist false)

variable {dns : Dnslib} {cfg : Config} {s : Deployment} {entries : List ListEntry} {d : Text}
  {e : Event}

/-- An event that leaves the row of a domain and is no import leaves it as it is. -/
theorem lookup_step (hrow : LeavesRow d e) (he : LeavesPopularity e) :
    (step dns cfg s e).db.whitelist.lookup d=s.db.whitelist.lookup d := by
  rw [step_whitelist]
  cases e with
  | admin e =>
    cases e with
    | addBlocklist raw reason =>
      rw [whitelistAfter]
      cases hentry : DomainEntries.domainEntry raw reason with
      | none => rfl
      | some domain =>
        have hne : d≠domain := fun hd => hrow (hd ▸ hentry)
        rw [Option.elim_some,lookup_erase_ite,if_neg hne]
    | addWhitelist raw reason email =>
      rw [whitelistAfter]
      cases hentry : DomainEntries.domainEntry raw reason with
      | none => rfl
      | some domain =>
        have hne : d≠domain := fun hd => hrow (hd ▸ hentry)
        rw [Option.elim_some,lookup_upsert,if_neg hne]
    | deleteWhitelist raw =>
      have hne : d≠DomainEntries.pathDomain raw := Ne.symm hrow
      rw [whitelistAfter,lookup_erase_ite,if_neg hne]
    | _ => rfl
  | tranco e => exact absurd he not_false
  | _ => rfl

/-- A run of such events leaves it as it is, too. -/
theorem lookup_run {events : List Event} (hrow : ∀ e∈events, LeavesRow d e)
    (he : ∀ e∈events, LeavesPopularity e) (s : Deployment) :
    (run (step dns cfg) s events).db.whitelist.lookup d=s.db.whitelist.lookup d := by
  induction events generalizing s with
  | nil => rfl
  | cons e events ih =>
    rw [run_cons,ih (fun x hx => hrow x (List.mem_cons_of_mem e hx))
      (fun x hx => he x (List.mem_cons_of_mem e hx)),
      lookup_step (hrow e List.mem_cons_self) (he e List.mem_cons_self)]

/-- What an admin adds is no popularity row, so these stay those of the entries. -/
theorem popularRows_step (h : PopularRows entries s) (he : LeavesPopularity e) :
    PopularRows entries (step dns cfg s e) := by
  intro d row hlookup hpopular
  by_cases hrow : LeavesRow d e
  · rw [lookup_step hrow he] at hlookup
    exact h d row hlookup hpopular
  rw [step_whitelist] at hlookup
  cases e with
  | admin e =>
    cases e with
    | addBlocklist raw reason =>
      rw [whitelistAfter,not_not.mp hrow,Option.elim_some,lookup_erase_ite,if_pos rfl] at hlookup
      cases hlookup
    | addWhitelist raw reason email =>
      rw [whitelistAfter,not_not.mp hrow,Option.elim_some,lookup_upsert,if_pos rfl] at hlookup
      have hreason : row.reason=reason := by
        cases hold : s.db.whitelist.lookup d <;> rw [hold] at hlookup <;> cases hlookup <;> rfl
      rw [hreason,he] at hpopular
      cases hpopular
    | deleteWhitelist raw =>
      rw [whitelistAfter,not_not.mp hrow,lookup_erase_ite,if_pos rfl] at hlookup
      cases hlookup
    | _ => exact absurd trivial hrow
  | tranco e => exact absurd he not_false
  | _ => exact absurd trivial hrow

/-- The deletion leaves the rows that are not marked, and no others. -/
theorem lookup_purge (d : Text) :
    (step dns cfg s (.tranco .purge)).db.whitelist.lookup d=
      (s.db.whitelist.lookup d).filter fun row => !isTrancoReason row.reason := by
  rw [step_whitelist,whitelistAfter,lookup_deleteWhere]

/-- No popularity row is left behind the deletion. -/
theorem popularRows_purge : PopularRows entries (step dns cfg s (.tranco .purge)) := by
  intro d row hlookup hpopular
  rw [lookup_purge,Option.filter_eq_some_iff] at hlookup
  rw [hpopular] at hlookup
  cases hlookup.2

/-- The insertion gives its first row to every listed domain without a row. -/
theorem lookup_insert (d : Text) :
    (step dns cfg s (.tranco (.insert (entries.map ListEntry.row)))).db.whitelist.lookup d=
      (s.db.whitelist.lookup d).or (listedRow entries d) := by
  rw [step_whitelist,whitelistAfter,lookup_insertAllIgnore,listedRow]
  simp only [List.map_map,List.find?_map,Option.map_map]
  rfl

/-- Behind the insertion the popularity rows are those of the entries. -/
theorem popularRows_insert (h : PopularRows [] s) :
    PopularRows entries (step dns cfg s (.tranco (.insert (entries.map ListEntry.row)))) := by
  intro d row hlookup hpopular
  rw [lookup_insert] at hlookup
  cases hold : s.db.whitelist.lookup d with
  | none =>
    rw [hold,Option.none_or] at hlookup
    exact hlookup
  | some old =>
    rw [hold,Option.some_or] at hlookup
    cases hlookup
    cases h d row hold hpopular

/-- The name of an entry is listed. -/
theorem listedRow_of_mem {entry : ListEntry} (h : entry∈entries) :
    ∃ row, listedRow entries (lower entry.domain)=some row := by
  have hfound : (entries.find? fun e => decide (lower e.domain=lower entry.domain)).isSome :=
    List.find?_isSome.mpr ⟨entry,h,decide_eq_true rfl⟩
  obtain ⟨first,hfirst⟩ := Option.isSome_iff_exists.mp hfound
  refine ⟨popularityRow first.rank,?_⟩
  rw [listedRow,hfirst,Option.map_some]

/-- A domain that is whitelisted and read stays so. -/
theorem read_step (h : Read d s) (he : LeavesRead d e) : Read d (step dns cfg s e) := by
  have hkept : d∈(step dns cfg s e).db.whitelist := by
    obtain ⟨row,hlookup⟩ := Finmap.mem_iff.mp h.row
    exact Finmap.mem_iff.mpr ⟨row,(lookup_step he.row he.popularity).trans hlookup⟩
  refine ⟨hkept,?_⟩
  obtain hl|hl|⟨hfail,-⟩ := step_whitelist_lists dns cfg s e
  · rw [hl]
    exact h.whitelist
  · rw [hl]
    exact s.db.mem_selectWhitelist.mpr h.row
  · exact absurd hfail he.refresh

end Runs

section Examples

open BlockRequests PlainMessages

/-- A list of one name. -/
private def sampleEntry : ListEntry where
  rank := "1".toList
  domain := "BAD.tk".toList
  comma := by decide
  rank_solid := by decide
  domain_solid := by decide

/-- A whitelist with a stale row, read by the DNS server. -/
private def staleList : Deployment :=
  run (step plainDns defaultConfig) Deployment.init
    [.tranco (.insert [("old.tk".toList,"7".toList)]),.refresh (.whitelist true)]

end Examples

end ScamLens.PopularityImports
