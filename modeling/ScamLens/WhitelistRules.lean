import ScamLens.BlockRequests

/-!
# The whitelist wins

The whitelist is matched before anything else, so a query below a whitelisted
domain is forwarded and leaves no trace, whatever the other stores hold. The
row itself outlives every writer but the admin's removal and an admin block of
the same domain: the import deletes only the rows it marked as its own.
-/

namespace ScamLens.WhitelistRules

open Answers BlockRequests DomainEntries EventRuns KeyedTables ListRefresh PlainMessages PythonText
  Resolver ServiceFrames Services TableFrames Tables Upstream

/-- No admin removes or blocks the domain or marks it as imported, and no
whitelist read of the refresh loop fails. -/
def KeepsWhitelisted (d : Text) : Event → Prop
  | .admin (.addBlocklist raw reason) => domainEntry raw reason≠some d
  | .admin (.deleteWhitelist raw) => pathDomain raw≠d
  | .admin (.addWhitelist raw reason _) =>
    domainEntry raw reason=some d → isTrancoReason reason=false
  | .refresh (.whitelist ok) => ok=true
  | _ => True

/-- The domain has a whitelist row that the import does not own. -/
def HasOwnRow (d : Text) (s : Deployment) : Prop :=
  ∃ row, s.db.whitelist.lookup d=some row ∧ isTrancoReason row.reason=false

/-- The DNS server has read that row. -/
structure Passed (d : Text) (s : Deployment) : Prop where
  /-- The whitelist row. -/
  row : HasOwnRow d s
  /-- The domain is on the whitelist in memory. -/
  whitelist : d∈s.lists.whitelist

section Invariants

variable {dns : Dnslib} {cfg : Config} {s : Deployment} {d : Text} {e : Event}

/-- A whitelist row that the import does not own survives every such event. -/
theorem hasOwnRow_step (h : HasOwnRow d s) (he : KeepsWhitelisted d e) :
    HasOwnRow d (step dns cfg s e) := by
  obtain ⟨row,hrow,hown⟩ := h
  rw [HasOwnRow,step_whitelist]
  cases e with
  | admin e =>
    cases e with
    | addBlocklist raw reason =>
      rw [whitelistAfter]
      cases hentry : domainEntry raw reason with
      | none => exact ⟨row,hrow,hown⟩
      | some domain =>
        have hne : d≠domain := fun hd => he (hd ▸ hentry)
        rw [Option.elim_some,lookup_erase_ite,if_neg hne]
        exact ⟨row,hrow,hown⟩
    | addWhitelist raw reason email =>
      rw [whitelistAfter]
      cases hentry : domainEntry raw reason with
      | none => exact ⟨row,hrow,hown⟩
      | some domain =>
        rw [Option.elim_some,lookup_upsert]
        split
        · rename_i hd
          rw [←hd,hrow]
          exact ⟨_,rfl,he (hd ▸ hentry)⟩
        · exact ⟨row,hrow,hown⟩
    | deleteWhitelist raw =>
      have hne : d≠pathDomain raw := Ne.symm he
      rw [whitelistAfter,lookup_erase_ite,if_neg hne]
      exact ⟨row,hrow,hown⟩
    | _ => exact ⟨row,hrow,hown⟩
  | tranco e =>
    cases e with
    | purge =>
      refine ⟨row,?_,hown⟩
      rw [whitelistAfter,lookup_deleteWhere,hrow,Option.filter_some,hown]
      rfl
    | insert rows => exact ⟨row,lookup_insertAllIgnore_of_some hrow _,hown⟩
  | _ => exact ⟨row,hrow,hown⟩

/-- A domain with such a row is in what the whitelist query returns. -/
theorem HasOwnRow.mem_selectWhitelist (h : HasOwnRow d s) : d∈s.db.selectWhitelist := by
  obtain ⟨row,hrow,-⟩ := h
  exact s.db.mem_selectWhitelist.mpr (Finmap.mem_of_lookup_eq_some hrow)

theorem passed_step (h : Passed d s) (he : KeepsWhitelisted d e) :
    Passed d (step dns cfg s e) := by
  refine ⟨hasOwnRow_step h.row he,?_⟩
  obtain hl|hl|⟨hfail,-⟩ := step_whitelist_lists dns cfg s e
  · rw [hl]
    exact h.whitelist
  · rw [hl]
    exact h.row.mem_selectWhitelist
  · rw [hfail] at he
    cases he

/-- The transaction of `add_whitelist` leaves a row with the reason of the admin. -/
theorem hasOwnRow_addWhitelist (d : HostName) {reason : Option Text} (email : Text)
    (hreason : noteOk reason=true) (hown : isTrancoReason reason=false) :
    HasOwnRow d.name (step dns cfg s (.admin (.addWhitelist d.name reason email))) := by
  rw [HasOwnRow,step_whitelist,whitelistAfter,domainEntry_canonical d hreason,Option.elim_some,
    lookup_upsert,if_pos rfl]
  cases s.db.whitelist.lookup d.name <;> exact ⟨_,rfl,hown⟩

/-- A refresh of the whitelist reads that row. -/
theorem HasOwnRow.refresh (h : HasOwnRow d s) :
    Passed d (step dns cfg s (.refresh (.whitelist true))) := ⟨h,h.mem_selectWhitelist⟩

/-- A query below a domain on the whitelist in memory changes nothing. -/
theorem step_query_whitelisted {name : Text} (h : ∃ m∈parentChain name, m∈s.lists.whitelist)
    {wire : Wire} {request : DNSRecord} (hparse : dns.parse wire=some request)
    (hname : questionName request=name) (clientIp : Option Text) (userId : Option ℕ)
    (net : Server → Exchange) :
    step dns cfg s (.resolver (.query wire clientIp userId net))=s := by
  rw [step,resolverStep,hparse]
  dsimp only
  rw [arrive,hname,if_pos (matchChain_iff.mpr h)]
  split <;> rfl

end Invariants

section Examples

/-- An admin whitelists a second-level domain; later the scraper blocks it. -/
def whitelistedThenScraped : Deployment :=
  run (step plainDns defaultConfig) Deployment.init
    (.admin (.addWhitelist badTk.name none "admin".toList)::([]++.refresh (.whitelist true)::
      [.scraper badTk.name "post".toList "forum".toList,.refresh (.blocklist true)]))

end Examples

end ScamLens.WhitelistRules
