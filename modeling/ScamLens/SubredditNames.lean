import ScamLens.PythonText

/-!
# Subreddit names of a manual run

A manual run may be given the communities to search, written as a name, with
`r/` or with `/r/`. What stands in front of a name is stripped as a set of
characters, so that names that begin with a small `r` lose more than the prefix,
and another community is searched, or all of them.
-/

namespace ScamLens.SubredditNames

open PythonText

/-- `s.lstrip(chars)` -/
def lstrip (chars s : Text) : Text := s.dropWhile chars.elem

/-- The arguments of `run_window`. -/
structure WindowCall where
  /-- Source to scrape. -/
  source : Text
  /-- Keywords in place of the configured ones. -/
  keywords : Option (List Text)
  /-- Minutes the run may last. -/
  durationMinutes : Option ℤ
  /-- Pages to read for each keyword. -/
  maxPages : Option ℤ
  /-- Communities to search. -/
  subreddits : Option (List Text)
  deriving DecidableEq

/-- `s.strip().lstrip("r/").lstrip("/")` -/
def cleanSubreddit (s : Text) : Text := lstrip ['/'] (lstrip ['r','/'] (strip s))

/-- A comprehension over the entries of an optional list that are not blank,
which leaves out an empty list. -/
def cleanEntries (clean : Text → Text) : Option (List Text) → Option (List Text)
  | none | some [] => none
  | some (first::rest) => some (((first::rest).filter fun s => strip s≠[]).map clean)

/-- The call of `run_window` in `_run_safely`. -/
def runSafely (source : Text) (keywords : Option (List Text)) (durationMin maxPages : Option ℤ)
    (subreddits : Option (List Text)) : WindowCall where
  source := source
  keywords := cleanEntries strip keywords
  durationMinutes := durationMin
  maxPages := maxPages
  subreddits := cleanEntries cleanSubreddit subreddits

/-- What one search of the client asks for. -/
structure SearchTarget where
  /-- Path of the address. -/
  path : Text
  /-- `q` -/
  query : Text
  /-- `restrict_sr` -/
  restrictSr : Text
  deriving DecidableEq

/-- `/r/{subreddit}/search.json` -/
def subredditPath (subreddit : Text) : Text :=
  "/r/".toList++subreddit++"/search.json".toList

/-- The target of `_iter_search`. -/
def iterSearch (query : Text) : Option Text → SearchTarget
  | none | some [] => ⟨"/search.json".toList,query,"off".toList⟩
  | some (c::rest) => ⟨subredditPath (c::rest),query,"on".toList⟩

/-- The targets of `search`: each of the communities, or all of Reddit. -/
def search (query : Text) : Option (List Text) → List SearchTarget
  | none | some [] => [iterSearch query none]
  | some (first::rest) => (first::rest).map fun sub => iterSearch query (some sub)

/-- A letter, a digit or an underscore. Beyond ASCII every code point counts
that is not white space. -/
def isNameChar (c : Char) : Bool :=
  c.isAlphanum || c == '_' || (128 ≤ c.toNat && !isSpace c)

/-- What stands in front of a name. -/
inductive Prefix where
  | bare
  | r
  | slashR

/-- The prefix as text. -/
def Prefix.text : Prefix → Text
  | .bare => []
  | .r => "r/".toList
  | .slashR => "/r/".toList

/-- An entry of the list: a name, how it is written, and the white space around
it. -/
structure Entry where
  /-- The name of the community. -/
  name : Text
  /-- It is made of letters, digits and underscores. -/
  name_chars : ∀ c∈name, isNameChar c=true
  /-- How it is written. -/
  written : Prefix
  /-- White space in front. -/
  before : Text
  /-- It is white space. -/
  before_space : ∀ c∈before, isSpace c=true
  /-- White space behind. -/
  after : Text
  /-- It is white space. -/
  after_space : ∀ c∈after, isSpace c=true

/-- The entry as it is sent. -/
def Entry.text (e : Entry) : Text := e.before++(e.written.text++e.name)++e.after

/-- The list passed to `run_window` is the list of names, an absent list standing
for the empty one, and a search of the passed list asks for the path of each
name. -/
def SearchesNames (entries : List Entry) : Prop :=
  ∀ source keywords durationMin maxPages,
    let passed := (runSafely source keywords durationMin maxPages
      (some (entries.map Entry.text))).subreddits
    passed.getD []=entries.map Entry.name ∧
      (entries≠[] → ∀ query, (search query passed).map SearchTarget.path=
        entries.map fun e => subredditPath e.name)

/-- The characters of a name by their code points. -/
theorem isNameChar_cases {c : Char} (h : isNameChar c=true) :
    (48 ≤ c.toNat ∧ c.toNat<128) ∨ (128 ≤ c.toNat ∧ isSpace c=false) := by
  have hclasses : (((decide (65 ≤ c.toNat ∧ c.toNat≤90) ||
      (decide (97 ≤ c.toNat) && decide (c.toNat≤122))) ||
      (decide (48 ≤ c.toNat) && decide (c.toNat≤57))) || c == '_' ||
      (decide (128 ≤ c.toNat) && !isSpace c))=true := h
  simp only [Bool.or_eq_true,Bool.and_eq_true,decide_eq_true_eq,beq_iff_eq,
    Bool.not_eq_true'] at hclasses
  rcases hclasses with (hletter|rfl)|hwide
  · left
    omega
  · exact .inl (by decide)
  · exact .inr hwide

/-- A name has no white space. -/
theorem isNameChar.not_space {c : Char} (h : isNameChar c=true) : isSpace c=false := by
  rcases isNameChar_cases h with ⟨hlow,hhigh⟩|⟨-,hspace⟩
  · exact isSpace_eq_false (by omega) hhigh
  · exact hspace

/-- A name has no slash. -/
theorem isNameChar.ne_slash {c : Char} (h : isNameChar c=true) : c≠ '/' := by
  rintro rfl
  revert h
  decide

/-- Stripping takes off what is around text without white space. -/
theorem strip_pad {before core after : Text} (hbefore : ∀ c∈before, isSpace c=true)
    (hcore : ∀ c∈core, isSpace c=false) (hafter : ∀ c∈after, isSpace c=true) :
    strip (before++core++after)=core := by
  have hstart : strip (before++core++after)=strip (core++after) := by
    rw [strip,List.append_assoc,List.dropWhile_append_of_pos hbefore,strip]
  have hend : after.rdropWhile isSpace=[] := List.rdropWhile_eq_nil_iff.mpr hafter
  rw [hstart]
  by_cases hne : core=[]
  · have hall : after.dropWhile isSpace=[] := List.dropWhile_eq_nil_iff.mpr hafter
    rw [hne,List.nil_append,strip,hall,List.rdropWhile_nil]
  · rw [strip_append hne hcore,hend,List.append_nil]

/-- The characters of a prefix are the stripped ones. -/
theorem elem_of_mem_written {written : Prefix} {c : Char} (h : c∈written.text) :
    ['r','/'].elem c=true := by
  cases written <;> revert c <;> decide

/-- A prefix has no white space. -/
theorem not_space_of_mem_written {written : Prefix} {c : Char} (h : c∈written.text) :
    isSpace c=false := by
  cases written <;> revert c <;> decide

/-- An entry without the white space around it. -/
theorem Entry.strip_text (e : Entry) : strip e.text=e.written.text++e.name := by
  refine strip_pad e.before_space (fun c hc => ?_) e.after_space
  rcases List.mem_append.mp hc with hfront|hname
  · exact not_space_of_mem_written hfront
  · exact isNameChar.not_space (e.name_chars c hname)

/-- In front of a name only the small `r`s are stripped. -/
theorem lstrip_name {name : Text} (h : ∀ c∈name, isNameChar c=true) :
    lstrip ['r','/'] name=name.dropWhile (· == 'r') := by
  induction name with
  | nil => rfl
  | cons c name ih =>
    obtain ⟨hc,hname⟩ := List.forall_mem_cons.mp h
    have hslash : (c == '/')=false := beq_eq_false_iff_ne.mpr (isNameChar.ne_slash hc)
    have hstrip : ['r','/'].elem c=(c == 'r') := by
      rw [List.elem_cons,List.elem_cons,List.elem_nil,hslash]
      cases c == 'r' <;> rfl
    have hrest : List.dropWhile ['r','/'].elem name=name.dropWhile (· == 'r') := ih hname
    rw [lstrip,List.dropWhile_cons,List.dropWhile_cons,hstrip,hrest]

/-- What is left of an entry is its name without the small `r`s it begins with. -/
theorem Entry.clean_text (e : Entry) : cleanSubreddit e.text=e.name.dropWhile (· == 'r') := by
  have hfront : lstrip ['r','/'] (e.written.text++e.name)=e.name.dropWhile (· == 'r') := by
    rw [lstrip,List.dropWhile_append_of_pos fun c hc => elem_of_mem_written hc]
    exact lstrip_name e.name_chars
  rw [cleanSubreddit,e.strip_text,hfront,lstrip,List.dropWhile_eq_self_iff]
  intro hlength hslash
  have hmem := (List.dropWhile_sublist (· == 'r')).subset (List.getElem_mem hlength)
  refine isNameChar.ne_slash (e.name_chars _ hmem) ?_
  simpa using hslash

/-- Names that keep their first character are kept. -/
theorem dropWhile_eq_self_iff {name : Text} :
    name.dropWhile (· == 'r')=name ↔ ∀ c∈name.head?, c≠ 'r' := by
  cases name with
  | nil => exact iff_of_true rfl nofun
  | cons c name =>
    rw [List.dropWhile_eq_self_iff]
    simp

/-- What is passed for an entry. -/
theorem Entry.passed_eq_name_iff (e : Entry) :
    (if strip e.text≠[] then some (cleanSubreddit e.text) else none)=some e.name ↔
      strip e.text≠[] ∧ ∀ c∈e.name.head?, c≠ 'r' := by
  rw [←dropWhile_eq_self_iff,←e.clean_text]
  split
  · rename_i hblank
    rw [Option.some.injEq,and_iff_right hblank]
  · rename_i hblank
    exact iff_of_false nofun fun h => hblank h.1

/-- The list that is passed for entries, an absent one standing for the empty
list. -/
theorem passed_getD (entries : List Entry) :
    (cleanEntries cleanSubreddit (some (entries.map Entry.text))).getD []=
      entries.filterMap fun e =>
        if strip e.text≠[] then some (cleanSubreddit e.text) else none := by
  have hentries : (cleanEntries cleanSubreddit (some (entries.map Entry.text))).getD []=
      ((entries.map Entry.text).filter fun s => strip s≠[]).map cleanSubreddit := by
    cases entries <;> rfl
  rw [hentries]
  clear hentries
  induction entries with
  | nil => rfl
  | cons e entries ih =>
    rw [List.map_cons,List.filter_cons,List.filterMap_cons]
    by_cases hblank : strip e.text≠[]
    · rw [if_pos hblank,if_pos (decide_eq_true hblank),List.map_cons,ih]
    · rw [if_neg hblank,if_neg (by simpa using hblank),ih]

/-- The path of a search restricted to a community has its name in it. -/
theorem path_iterSearch_iff (query name : Text) :
    (iterSearch query (some name)).path=subredditPath name ↔ name≠[] := by
  cases name with
  | nil =>
    have hall : (iterSearch query (some [])).path="/search.json".toList := rfl
    rw [hall]
    exact iff_of_false (by decide) fun h => h rfl
  | cons c name => exact iff_of_true rfl (List.cons_ne_nil c name)

/-- The list passed for entries is the list of names exactly when no entry is
blank and no name begins with a small `r`. -/
theorem passed_eq_names_iff (entries : List Entry) :
    (cleanEntries cleanSubreddit (some (entries.map Entry.text))).getD []=
        entries.map Entry.name ↔
      ∀ e∈entries, strip e.text≠[] ∧ ∀ c∈e.name.head?, c≠ 'r' := by
  rw [passed_getD,List.filterMap_eq_map_iff_forall_eq_some]
  exact forall₂_congr fun e _ => e.passed_eq_name_iff

/-- A list of names is searched community by community exactly when none of
them is empty. -/
theorem search_paths_iff (query : Text) {names : List Text} (hne : names≠[]) :
    (search query (some names)).map SearchTarget.path=names.map subredditPath ↔
      ∀ name∈names, name≠[] := by
  have hsearch : search query (some names)=names.map fun sub => iterSearch query (some sub) := by
    obtain ⟨first,rest,rfl⟩ := List.exists_cons_of_ne_nil hne
    rfl
  rw [hsearch,List.map_map,List.map_inj_left]
  exact forall₂_congr fun name _ => path_iterSearch_iff query name

/-- Only an empty list of entries is left out. -/
theorem cleanEntries_of_ne_nil (clean : Text → Text) {entries : List Text} (hne : entries≠[]) :
    cleanEntries clean (some entries)=some ((cleanEntries clean (some entries)).getD []) := by
  obtain ⟨first,rest,rfl⟩ := List.exists_cons_of_ne_nil hne
  rfl

/-- A name begins with a character other than a small `r` if it is not empty,
and does not begin with one. -/
theorem exists_head_iff {name : Text} :
    (∃ c∈name.head?, c≠ 'r') ↔ name≠[] ∧ ∀ c∈name.head?, c≠ 'r' := by
  cases name with
  | nil => exact iff_of_false nofun fun h => h.1 rfl
  | cons c name => simp

/-- Once the list of names is passed, each of them is searched exactly when none
of them is empty. -/
theorem search_passed_iff {entries : List Entry} (hne : entries≠[]) (query : Text)
    (h : (cleanEntries cleanSubreddit (some (entries.map Entry.text))).getD []=
      entries.map Entry.name) :
    (search query (cleanEntries cleanSubreddit (some (entries.map Entry.text)))).map
        SearchTarget.path=entries.map (fun e => subredditPath e.name) ↔
      ∀ e∈entries, e.name≠[] := by
  have htexts : entries.map Entry.text≠[] := fun hnil => hne (List.map_eq_nil_iff.mp hnil)
  have hnames : entries.map Entry.name≠[] := fun hnil => hne (List.map_eq_nil_iff.mp hnil)
  have hmap : entries.map (fun e => subredditPath e.name)=
      (entries.map Entry.name).map subredditPath := by
    rw [List.map_map]
    rfl
  rw [cleanEntries_of_ne_nil cleanSubreddit htexts,h,hmap,search_paths_iff query hnames,
    List.forall_mem_map]

/-- The names of a list are passed on and searched exactly when each of them
begins with a character other than a small `r`. -/
theorem searchesNames_iff (entries : List Entry) :
    SearchesNames entries ↔ ∀ e∈entries, ∃ c∈e.name.head?, c≠ 'r' := by
  constructor
  · intro h e he
    obtain ⟨hlist,hsearch⟩ := h [] none none none
    have hne : entries≠[] := List.ne_nil_of_mem he
    have hname : e.name≠[] := (search_passed_iff hne [] hlist).mp (hsearch hne []) e he
    exact exists_head_iff.mpr ⟨hname,((passed_eq_names_iff entries).mp hlist e he).2⟩
  · intro h source keywords durationMin maxPages
    have hhead := fun e he => exists_head_iff.mp (h e he)
    have hlist : (cleanEntries cleanSubreddit (some (entries.map Entry.text))).getD []=
        entries.map Entry.name := by
      refine (passed_eq_names_iff entries).mpr fun e he => ⟨?_,(hhead e he).2⟩
      rw [e.strip_text]
      exact List.append_ne_nil_of_right_ne_nil _ (hhead e he).1
    exact ⟨hlist,fun hne query =>
      (search_passed_iff hne query hlist).mpr fun e he => (hhead e he).1⟩

/-- A name that begins with a small `r`, written with the usual prefix. -/
def relationships : Entry where
  name := "relationships".toList
  name_chars := by decide
  written := .r
  before := []
  before_space := List.forall_mem_nil _
  after := []
  after_space := List.forall_mem_nil _

/-- Another community is searched for it. -/
theorem relationships_lost :
    (runSafely "reddit".toList none none none (some [relationships.text])).subreddits=
        some ["elationships".toList] ∧
      ¬∀ entries, SearchesNames entries := by
  refine ⟨by decide,fun h => ?_⟩
  exact absurd (h [relationships] "reddit".toList none none none).1 (by decide)

end ScamLens.SubredditNames
