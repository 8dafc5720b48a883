import ScamLens.GuardianLinks
import ScamLens.OrderedQueries

/-!
# The lists of links that users see

A user sees the links it is part of in four lists: wards, guardians, and the
invites that it sent or received. In every run the lists of two users tell the
same story, and they offer what the other endpoints grant.
-/

namespace ScamLens.LinkViews

open EventRuns GuardianLinks OrderedQueries PythonText Tables

/-- An item of the lists, without the texts of its times. -/
structure LinkItem where
  /-- `"link_id"` -/
  linkId : ℕ
  /-- `"other_id"` -/
  otherId : ℕ
  /-- `"other_email"` -/
  otherEmail : Text
  /-- `"other_invite_code"` -/
  otherInviteCode : Text
  /-- `"role_in_link"` -/
  roleInLink : Text
  /-- `"status"` -/
  status : LinkStatus
  /-- `"invited_at"` -/
  invitedAt : ℕ
  /-- `"responded_at"` -/
  respondedAt : Option ℕ

/-- The answer of `list_links`. -/
structure Dependents where
  /-- `"self"` -/
  self : UserRow
  /-- `"wards"` -/
  wards : List LinkItem
  /-- `"guardians"` -/
  guardians : List LinkItem
  /-- `"pending_outgoing"` -/
  pendingOutgoing : List LinkItem
  /-- `"pending_incoming"` -/
  pendingIncoming : List LinkItem

/-- A link with the rows of its two users. -/
structure JoinedRow where
  /-- Row of `guardian_links`. -/
  link : GuardianLink
  /-- Row of `users` for the guardian. -/
  guardian : UserRow
  /-- Row of `users` for the ward. -/
  ward : UserRow

/-- The rows of the query, before they are put into order. -/
def joined (s : Accounts) (who : ℕ) : List JoinedRow :=
  (s.links.rows.filter fun link => link.guardianId=who ∨ link.wardId=who).flatMap fun link =>
    (s.users.filter fun user => user.id=link.guardianId).flatMap fun guardian =>
      (s.users.filter fun user => user.id=link.wardId).map fun ward => ⟨link,guardian,ward⟩

/-- The item of a row. -/
def JoinedRow.item (who : ℕ) (r : JoinedRow) : LinkItem :=
  let isGuardian := r.link.guardianId=who
  { linkId := r.link.id
    otherId := if isGuardian then r.link.wardId else r.link.guardianId
    otherEmail := if isGuardian then r.ward.email else r.guardian.email
    otherInviteCode := if isGuardian then r.ward.inviteCode else r.guardian.inviteCode
    roleInLink := if isGuardian then "guardian".toList else "ward".toList
    status := r.link.status
    invitedAt := r.link.invitedAt
    respondedAt := r.link.respondedAt }

/-- `ORDER BY gl.invited_at DESC` -/
abbrev ByInvite := OrderBy fun r : JoinedRow => r.link.invitedAt

/-- The items of one of the lists: those of a side and a state. -/
def itemsOf (o : ByInvite) (s : Accounts) (who : ℕ) (asGuardian : Bool) (status : LinkStatus) :
    List LinkItem :=
  ((o.order (joined s who)).filter fun r =>
    r.link.status=status && decide (r.link.guardianId=who)==asGuardian).map (JoinedRow.item who)

/-- `list_links` -/
def listLinks (o : ByInvite) (s : Accounts) (who : UserRow) : Dependents where
  self := who
  wards := itemsOf o s who.id true .accepted
  guardians := itemsOf o s who.id false .accepted
  pendingOutgoing := itemsOf o s who.id true .pending
  pendingIncoming := itemsOf o s who.id false .pending

/-- What the endpoints let happen: a user registers with an id of its own, and
whoever invites is a user. -/
def Legit (s : Accounts) : Event → Prop
  | .register user => ∀ old∈s.users, old.id≠user.id
  | .invite who _ => who∈s.users
  | _ => True

/-- Steps are checked one by one. -/
instance Legit.decidable (s : Accounts) : (e : Event) → Decidable (Legit s e)
  | .tick _ => inferInstanceAs (Decidable True)
  | .register user => inferInstanceAs (Decidable (∀ old∈s.users, old.id≠user.id))
  | .invite who _ => inferInstanceAs (Decidable (who∈s.users))
  | .accept _ _ => inferInstanceAs (Decidable True)
  | .reject _ _ => inferInstanceAs (Decidable True)
  | .revoke _ _ => inferInstanceAs (Decidable True)

/-- What the keys of the tables make sure of. -/
structure Consistent (s : Accounts) : Prop where
  /-- Users have ids of their own. -/
  users : (s.users.map UserRow.id).Nodup
  /-- A link is between users. -/
  ends : ∀ link∈s.links.rows,
    (∃ user∈s.users, user.id=link.guardianId) ∧ ∃ user∈s.users, user.id=link.wardId
  /-- Links have ids of their own. -/
  ids : (s.links.rows.map GuardianLink.id).Nodup
  /-- The sequence is ahead of them. -/
  fresh : ∀ link∈s.links.rows, link.id < s.nextLinkId

section Runs

variable {s : Accounts}

/-- An UPDATE that leaves the ends and the id of a link alone. -/
theorem Consistent.update (h : Consistent s) {p : GuardianLink → Bool}
    {f : GuardianLink → GuardianLink} {hf : ∀ link, (f link).pair=link.pair}
    (hid : ∀ link, (f link).id=link.id) {next : ℕ} (hnext : s.nextLinkId ≤ next) :
    Consistent {s with links := s.links.update p f hf,nextLinkId := next} where
  users := h.users
  ends := by
    intro link hlink
    obtain ⟨old,hold,rfl⟩ := List.mem_map.mp hlink
    have hends := h.ends old hold
    split
    · have hpair := Prod.mk.inj (hf old)
      rw [hpair.1,hpair.2]
      exact hends
    · exact hends
  ids := by
    have hids : (s.links.update p f hf).rows.map GuardianLink.id=
        s.links.rows.map GuardianLink.id := by
      rw [LinkTable.update,List.map_map]
      refine List.map_congr_left fun link _ => ?_
      rw [Function.comp_apply]
      split
      · exact hid link
      · rfl
    rw [hids]
    exact h.ids
  fresh := by
    intro link hlink
    obtain ⟨old,hold,rfl⟩ := List.mem_map.mp hlink
    have hfresh := h.fresh old hold
    dsimp only
    split
    · rw [hid]
      omega
    · omega

/-- An invite of one user by another. -/
theorem Consistent.upsertInvite (h : Consistent s) {guardian ward : UserRow} {t : Accounts}
    (hguardian : guardian∈s.users) (hward : ward∈s.users)
    (ht : GuardianLinks.upsertInvite s guardian.id ward.id=some t) : Consistent t := by
  rw [GuardianLinks.upsertInvite] at ht
  split at ht
  · cases ht
  split at ht
  · rw [← Option.some.inj ht]
    have hid (link : GuardianLink) : (link.reinvited s.now).id=link.id := rfl
    exact h.update hid (Nat.le_succ _)
  · rw [← Option.some.inj ht]
    refine ⟨h.users,fun link hlink => ?_,?_,fun link hlink => ?_⟩
    · rcases List.mem_append.mp hlink with hlink | hlink
      · exact h.ends link hlink
      · rw [List.mem_singleton.mp hlink]
        exact ⟨⟨guardian,hguardian,rfl⟩,ward,hward,rfl⟩
    · dsimp only [LinkTable.insert]
      rw [List.map_append,List.nodup_append]
      refine ⟨h.ids,List.nodup_singleton _,fun n hn m hm heq => ?_⟩
      obtain ⟨old,hold,rfl⟩ := List.mem_map.mp hn
      have hfresh := h.fresh old hold
      have hnew : m=s.nextLinkId := List.mem_singleton.mp hm
      omega
    · rcases List.mem_append.mp hlink with hlink | hlink
      · exact Nat.lt_succ_of_lt (h.fresh link hlink)
      · rw [List.mem_singleton.mp hlink]
        exact Nat.lt_succ_self _

/-- A step keeps the tables consistent. -/
theorem Consistent.step (h : Consistent s) {e : Event} (he : Legit s e) :
    Consistent (GuardianLinks.step s e) := by
  cases e with
  | tick seconds => exact ⟨h.users,h.ends,h.ids,h.fresh⟩
  | register user =>
    refine ⟨?_,fun link hlink => ?_,h.ids,h.fresh⟩
    · dsimp only [GuardianLinks.step]
      rw [List.map_append,List.nodup_append]
      refine ⟨h.users,List.nodup_singleton _,fun n hn m hm heq => ?_⟩
      obtain ⟨old,hold,rfl⟩ := List.mem_map.mp hn
      exact he old hold (heq.trans (List.mem_singleton.mp hm))
    · obtain ⟨⟨guardian,hguardian,hg⟩,ward,hward,hw⟩ := h.ends link hlink
      exact ⟨⟨guardian,List.mem_append_left _ hguardian,hg⟩,ward,
        List.mem_append_left _ hward,hw⟩
  | invite who code =>
    rw [GuardianLinks.step,inviteStep]
    split
    · exact h
    split
    · exact h
    split
    · exact h
    · rename_i target htarget
      have hward : target∈s.users := List.mem_of_find?_eq_some htarget
      cases hup : GuardianLinks.upsertInvite s who.id target.id with
      | none => exact h
      | some after => exact h.upsertInvite he hward hup
  | accept who linkId =>
    have hid (link : GuardianLink) : (link.answered .accepted s.now).id=link.id := rfl
    exact h.update hid (Nat.le_refl _)
  | reject who linkId =>
    have hid (link : GuardianLink) : (link.answered .rejected s.now).id=link.id := rfl
    exact h.update hid (Nat.le_refl _)
  | revoke who linkId =>
    have hsub : (s.links.delete (involves who linkId)).rows.Sublist s.links.rows :=
      List.filter_sublist
    exact ⟨h.users,fun link hlink => h.ends link (hsub.subset hlink),
      h.ids.sublist (hsub.map _),fun link hlink => h.fresh link (hsub.subset hlink)⟩

/-- After legitimate steps the tables are consistent. -/
theorem consistent_run (now : ℕ) {events : List Event}
    (h : Along GuardianLinks.step Legit (start now []) events) :
    Consistent (run GuardianLinks.step (start now []) events) := by
  refine h.invariant (fun s e hs he => hs.step he) ?_
  exact ⟨List.nodup_nil,fun _ hlink => absurd hlink List.not_mem_nil,List.nodup_nil,
    fun _ hlink => absurd hlink List.not_mem_nil⟩

end Runs

section Views

variable {o : ByInvite} {s : Accounts}

/-- A user is the one row with its id. -/
theorem filter_id {users : List UserRow} (h : (users.map UserRow.id).Nodup) {user : UserRow}
    (huser : user∈users) : (users.filter fun other => other.id=user.id)=[user] := by
  induction users with
  | nil => exact absurd huser List.not_mem_nil
  | cons first users ih =>
    rw [List.map_cons,List.nodup_cons] at h
    rcases List.mem_cons.mp huser with rfl | huser
    · have hrest : (users.filter fun other => other.id=user.id)=[] := by
        refine List.filter_eq_nil_iff.mpr fun other hother heq => h.1 ?_
        rw [← of_decide_eq_true heq]
        exact List.mem_map_of_mem hother
      rw [List.filter_cons,if_pos (decide_eq_true rfl),hrest]
    · have hne : first.id≠user.id := fun heq => h.1 (heq ▸ List.mem_map_of_mem huser)
      rw [List.filter_cons_of_neg (by simpa using hne)]
      exact ih h.2 huser

/-- The query finds every link of a user with its two users. -/
theorem mem_joined {who : ℕ} {r : JoinedRow} :
    r∈joined s who ↔ r.link∈s.links.rows ∧ (r.link.guardianId=who ∨ r.link.wardId=who) ∧
      r.guardian∈s.users ∧ r.guardian.id=r.link.guardianId ∧
      r.ward∈s.users ∧ r.ward.id=r.link.wardId := by
  simp only [joined,List.mem_flatMap,List.mem_map,List.mem_filter,decide_eq_true_eq]
  constructor
  · rintro ⟨link,⟨hlink,hwho⟩,guardian,hguardian,ward,hward,rfl⟩
    exact ⟨hlink,hwho,hguardian.1,hguardian.2,hward.1,hward.2⟩
  · rintro ⟨hlink,hwho,hguardian,hg,hward,hw⟩
    exact ⟨r.link,⟨hlink,hwho⟩,r.guardian,⟨hguardian,hg⟩,r.ward,⟨hward,hw⟩,rfl⟩

/-- It finds each link once. -/
theorem links_joined (h : Consistent s) (who : ℕ) :
    (joined s who).map JoinedRow.link=
      s.links.rows.filter fun link => link.guardianId=who ∨ link.wardId=who := by
  have hone : ∀ link∈s.links.rows,
      ((s.users.filter fun user => user.id=link.guardianId).flatMap fun guardian =>
        (s.users.filter fun user => user.id=link.wardId).map fun ward =>
          (⟨link,guardian,ward⟩ : JoinedRow)).map JoinedRow.link=[link] := by
    intro link hlink
    obtain ⟨⟨guardian,hguardian,hg⟩,ward,hward,hw⟩ := h.ends link hlink
    rw [← hg,← hw,filter_id h.users hguardian,filter_id h.users hward]
    rfl
  rw [joined,List.map_flatMap]
  exact (List.flatMap_congr fun link hlink => hone link (List.mem_of_mem_filter hlink)).trans
    (List.flatMap_singleton' _)

/-- An item of a list stands for a link of that side and state, and tells of the
other user. -/
theorem mem_itemsOf {who : ℕ} {asGuardian : Bool} {status : LinkStatus} {item : LinkItem} :
    item∈itemsOf o s who asGuardian status ↔ ∃ r : JoinedRow, r.link∈s.links.rows ∧
      (if asGuardian then r.link.guardianId=who else r.link.wardId=who) ∧
      r.link.status=status ∧ r.guardian∈s.users ∧ r.guardian.id=r.link.guardianId ∧
      r.ward∈s.users ∧ r.ward.id=r.link.wardId ∧ r.item who=item := by
  simp only [itemsOf,List.mem_map,List.mem_filter,o.mem_order,mem_joined,Bool.and_eq_true,
    decide_eq_true_eq,beq_iff_eq]
  refine exists_congr fun r => ?_
  constructor
  · rintro ⟨⟨⟨hlink,hwho,hguardian,hg,hward,hw⟩,hstatus,hside⟩,hitem⟩
    refine ⟨hlink,?_,hstatus,hguardian,hg,hward,hw,hitem⟩
    cases asGuardian with
    | true => exact of_decide_eq_true hside
    | false => exact hwho.resolve_left (of_decide_eq_false hside)
  · rintro ⟨hlink,hside,hstatus,hguardian,hg,hward,hw,hitem⟩
    have hapart := s.links.apart r.link hlink
    cases asGuardian with
    | true =>
      exact ⟨⟨⟨hlink,.inl hside,hguardian,hg,hward,hw⟩,hstatus,decide_eq_true hside⟩,hitem⟩
    | false =>
      have hne : r.link.guardianId≠who := fun heq => hapart (heq.trans (Eq.symm hside))
      exact ⟨⟨⟨hlink,.inr hside,hguardian,hg,hward,hw⟩,hstatus,decide_eq_false hne⟩,hitem⟩

/-- The row of a link, with the rows of its users. -/
theorem exists_joined (h : Consistent s) {link : GuardianLink} (hlink : link∈s.links.rows) :
    ∃ r : JoinedRow, r.link=link ∧ r.guardian∈s.users ∧ r.guardian.id=link.guardianId ∧
      r.ward∈s.users ∧ r.ward.id=link.wardId := by
  obtain ⟨⟨guardian,hguardian,hg⟩,ward,hward,hw⟩ := h.ends link hlink
  exact ⟨⟨link,guardian,ward⟩,rfl,hguardian,hg,hward,hw⟩

/-- A guardian's item about a ward stands for the link between them. -/
theorem exists_item_guardian (h : Consistent s) {status : LinkStatus} {n g w : ℕ} :
    (∃ item∈itemsOf o s g true status, item.linkId=n ∧ item.otherId=w) ↔
      ∃ link∈s.links.rows, link.id=n ∧ link.pair=(g,w) ∧ link.status=status := by
  constructor
  · rintro ⟨item,hitem,hn,hother⟩
    obtain ⟨r,hlink,hside,hstatus,-,-,-,-,rfl⟩ := mem_itemsOf.mp hitem
    have hguardian : r.link.guardianId=g := hside
    have hward : r.link.wardId=w := (if_pos hguardian).symm.trans hother
    exact ⟨r.link,hlink,hn,by rw [GuardianLink.pair,hguardian,hward],hstatus⟩
  · rintro ⟨link,hlink,hn,hpair,hstatus⟩
    obtain ⟨r,rfl,hguardian,hg,hward,hw⟩ := exists_joined h hlink
    obtain ⟨hsame,hother⟩ := Prod.mk.inj hpair
    refine ⟨r.item g,mem_itemsOf.mpr ⟨r,hlink,hsame,hstatus,hguardian,hg,hward,hw,rfl⟩,hn,?_⟩
    exact (if_pos hsame).trans hother

/-- A ward's item about a guardian stands for the same link. -/
theorem exists_item_ward (h : Consistent s) {status : LinkStatus} {n g w : ℕ} :
    (∃ item∈itemsOf o s w false status, item.linkId=n ∧ item.otherId=g) ↔
      ∃ link∈s.links.rows, link.id=n ∧ link.pair=(g,w) ∧ link.status=status := by
  constructor
  · rintro ⟨item,hitem,hn,hother⟩
    obtain ⟨r,hlink,hside,hstatus,-,-,-,-,rfl⟩ := mem_itemsOf.mp hitem
    have hward : r.link.wardId=w := hside
    have hne : r.link.guardianId≠w := fun heq => s.links.apart r.link hlink (heq.trans hward.symm)
    have hguardian : r.link.guardianId=g := (if_neg hne).symm.trans hother
    exact ⟨r.link,hlink,hn,by rw [GuardianLink.pair,hguardian,hward],hstatus⟩
  · rintro ⟨link,hlink,hn,hpair,hstatus⟩
    obtain ⟨r,rfl,hguardian,hg,hward,hw⟩ := exists_joined h hlink
    obtain ⟨hother,hsame⟩ := Prod.mk.inj hpair
    have hne : r.link.guardianId≠w := fun heq => s.links.apart r.link hlink (heq.trans hsame.symm)
    refine ⟨r.item w,mem_itemsOf.mpr ⟨r,hlink,hsame,hstatus,hguardian,hg,hward,hw,rfl⟩,hn,?_⟩
    exact (if_neg hne).trans hother

/-- The items of a list have links of their own. -/
theorem linkId_nodup (h : Consistent s) (who : ℕ) (asGuardian : Bool) (status : LinkStatus) :
    ((itemsOf o s who asGuardian status).map LinkItem.linkId).Nodup := by
  have hids : ((joined s who).map fun r => r.link.id).Nodup := by
    have hmap : ((joined s who).map fun r => r.link.id)=
        ((joined s who).map JoinedRow.link).map GuardianLink.id := by
      rw [List.map_map]
      rfl
    rw [hmap,links_joined h]
    exact h.ids.sublist (List.filter_sublist.map _)
  have hordered : ((o.order (joined s who)).map fun r => r.link.id).Nodup :=
    ((o.perm (joined s who)).map _).nodup_iff.mpr hids
  rw [itemsOf,List.map_map]
  exact hordered.sublist (List.filter_sublist.map _)

/-- They tell of users of their own. -/
theorem otherId_nodup (h : Consistent s) (who : ℕ) (asGuardian : Bool) (status : LinkStatus) :
    ((itemsOf o s who asGuardian status).map LinkItem.otherId).Nodup := by
  have hnodup := List.Nodup.of_map _ (linkId_nodup (o := o) h who asGuardian status)
  refine hnodup.map_on fun a ha b hb heq => ?_
  refine List.inj_on_of_nodup_map (linkId_nodup (o := o) h who asGuardian status) ha hb ?_
  cases asGuardian with
  | true =>
    obtain ⟨link,hlink,hid,hpair,-⟩ := (exists_item_guardian h).mp ⟨a,ha,rfl,rfl⟩
    obtain ⟨link',hlink',hid',hpair',-⟩ := (exists_item_guardian h).mp ⟨b,hb,rfl,rfl⟩
    have hsame : link=link' := List.inj_on_of_nodup_map s.links.unique hlink hlink' (by
      rw [hpair,hpair',heq])
    rw [← hid,← hid',hsame]
  | false =>
    obtain ⟨link,hlink,hid,hpair,-⟩ := (exists_item_ward h).mp ⟨a,ha,rfl,rfl⟩
    obtain ⟨link',hlink',hid',hpair',-⟩ := (exists_item_ward h).mp ⟨b,hb,rfl,rfl⟩
    have hsame : link=link' := List.inj_on_of_nodup_map s.links.unique hlink hlink' (by
      rw [hpair,hpair',heq])
    rw [← hid,← hid',hsame]

/-- The latest invite comes first. -/
theorem itemsOf_sorted (who : ℕ) (asGuardian : Bool) (status : LinkStatus) :
    (itemsOf o s who asGuardian status).Pairwise fun a b => b.invitedAt≤a.invitedAt :=
  List.pairwise_map.mpr (((o.sorted _).filter _).imp fun h => h)

end Views

/-- The four lists. -/
def Dependents.lists (d : Dependents) : List (List LinkItem) :=
  [d.wards,d.guardians,d.pendingOutgoing,d.pendingIncoming]

/-- All the items of a user. -/
def Dependents.items (d : Dependents) : List LinkItem := d.lists.flatten

/-- The lists of users in agreement with each other and with the endpoints. -/
structure ViewsAgree (o : ByInvite) (s : Accounts) : Prop where
  /-- A link is among the wards of its guardian as it is among the guardians of
  its ward. -/
  accepted : ∀ g w n, (∃ item∈(listLinks o s g).wards, item.linkId=n ∧ item.otherId=w.id) ↔
    ∃ item∈(listLinks o s w).guardians, item.linkId=n ∧ item.otherId=g.id
  /-- An invite that was sent is one that was received. -/
  pending : ∀ g w n,
    (∃ item∈(listLinks o s g).pendingOutgoing, item.linkId=n ∧ item.otherId=w.id) ↔
    ∃ item∈(listLinks o s w).pendingIncoming, item.linkId=n ∧ item.otherId=g.id
  /-- Alerts of a user go to those who have the user among their wards. -/
  alerted : ∀ g w, g.id∈targets s w ↔
    g.id=w ∨ ∃ item∈(listLinks o s g).wards, item.otherId=w
  /-- The list of blocks has the rows of the user and of the wards. -/
  blocks : ∀ who row v, row.entry.userId=some v → (seesRow s who.id row=true ↔
    who.id=v ∨ ∃ item∈(listLinks o s who).wards, item.otherId=v)
  /-- An invite can be answered by those who see that they received it. -/
  answerable : ∀ who n status, (∃ item∈(listLinks o s who).pendingIncoming, item.linkId=n) ↔
    answerReply s who.id n status=.answered n status
  /-- What is listed can be removed. -/
  removable : ∀ who, ∀ item∈(listLinks o s who).items,
    revokeReply s who.id item.linkId=.removed item.linkId
  /-- An item tells of another user. -/
  named : ∀ who, ∀ item∈(listLinks o s who).items, ∃ other∈s.users, other.id≠who.id ∧
    item.otherId=other.id ∧ item.otherEmail=other.email ∧
    item.otherInviteCode=other.inviteCode
  /-- No link is listed twice. -/
  once : ∀ who, ((listLinks o s who).items.map LinkItem.linkId).Nodup
  /-- No list tells of a user twice, and the latest invite comes first. -/
  lists : ∀ who, ∀ list∈(listLinks o s who).lists, (list.map LinkItem.otherId).Nodup ∧
    list.Pairwise fun a b => b.invitedAt≤a.invitedAt

section Agreement

variable {o : ByInvite} {s : Accounts}

/-- Each list is the one of a side and a state. -/
theorem mem_lists {who : UserRow} {list : List LinkItem} (h : list∈(listLinks o s who).lists) :
    ∃ asGuardian status, list=itemsOf o s who.id asGuardian status := by
  simp only [Dependents.lists,List.mem_cons,List.not_mem_nil,or_false] at h
  rcases h with rfl | rfl | rfl | rfl
  · exact ⟨true,.accepted,rfl⟩
  · exact ⟨false,.accepted,rfl⟩
  · exact ⟨true,.pending,rfl⟩
  · exact ⟨false,.pending,rfl⟩

/-- A link is in the list of one side and state only. -/
theorem same_list (h : Consistent s) {who : ℕ} {a b : LinkItem} {side side' : Bool}
    {status status' : LinkStatus} (ha : a∈itemsOf o s who side status)
    (hb : b∈itemsOf o s who side' status') (heq : a.linkId=b.linkId) :
    side=side' ∧ status=status' := by
  obtain ⟨r,hlink,hside,hstatus,-,-,-,-,rfl⟩ := mem_itemsOf.mp ha
  obtain ⟨r',hlink',hside',hstatus',-,-,-,-,rfl⟩ := mem_itemsOf.mp hb
  have hsame : r.link=r'.link := List.inj_on_of_nodup_map h.ids hlink hlink' heq
  have hapart := s.links.apart r.link hlink
  refine ⟨?_,by rw [← hstatus,← hstatus',hsame]⟩
  rw [← hsame] at hside'
  cases side <;> cases side'
  · rfl
  · exact absurd (Eq.trans hside' (Eq.symm hside)) hapart
  · exact absurd (Eq.trans hside (Eq.symm hside')) hapart
  · rfl

/-- No link is listed twice. -/
theorem items_nodup (h : Consistent s) (who : UserRow) :
    ((listLinks o s who).items.map LinkItem.linkId).Nodup := by
  have hlist (side : Bool) (status : LinkStatus) := linkId_nodup (o := o) h who.id side status
  have hapart {side side' : Bool} {status status' : LinkStatus}
      (hne : ¬(side=side' ∧ status=status')) :
      List.Disjoint ((itemsOf o s who.id side status).map LinkItem.linkId)
        ((itemsOf o s who.id side' status').map LinkItem.linkId) := by
    intro n hn hn'
    obtain ⟨a,ha,rfl⟩ := List.mem_map.mp hn
    obtain ⟨b,hb,heq⟩ := List.mem_map.mp hn'
    exact hne (same_list h ha hb heq.symm)
  rw [Dependents.items,List.map_flatten,List.nodup_flatten]
  refine ⟨fun ids hids => ?_,?_⟩
  · obtain ⟨list,hmem,rfl⟩ := List.mem_map.mp hids
    obtain ⟨side,status,rfl⟩ := mem_lists hmem
    exact hlist side status
  · simp only [Dependents.lists,listLinks,List.map_cons,List.map_nil,List.pairwise_cons,
      List.mem_cons,List.not_mem_nil,or_false,List.Pairwise.nil,and_true,forall_eq_or_imp,
      forall_eq,false_imp_iff,implies_true]
    exact ⟨⟨hapart (by decide),hapart (by decide),hapart (by decide)⟩,
      ⟨hapart (by decide),hapart (by decide)⟩,hapart (by decide)⟩

/-- A guardian has the wards of its accepted links. -/
theorem accepted_iff_item (h : Consistent s) {g w : ℕ} :
    Accepted s.links g w ↔ ∃ item∈itemsOf o s g true .accepted, item.otherId=w := by
  constructor
  · rintro ⟨link,hlink,hpair,hstatus⟩
    obtain ⟨item,hitem,-,hother⟩ := (exists_item_guardian h).mpr ⟨link,hlink,rfl,hpair,hstatus⟩
    exact ⟨item,hitem,hother⟩
  · rintro ⟨item,hitem,hother⟩
    obtain ⟨link,hlink,-,hpair,hstatus⟩ := (exists_item_guardian h).mp ⟨item,hitem,rfl,hother⟩
    exact ⟨link,hlink,hpair,hstatus⟩

/-- An item is about a link that involves its viewer, and tells of the other
user. -/
theorem item_facts {who : UserRow} {item : LinkItem} (hitem : item∈(listLinks o s who).items) :
    (∃ link∈s.links.rows, involves who.id item.linkId link=true) ∧
    ∃ other∈s.users, other.id≠who.id ∧ item.otherId=other.id ∧ item.otherEmail=other.email ∧
      item.otherInviteCode=other.inviteCode := by
  obtain ⟨list,hlist,hmem⟩ := List.mem_flatten.mp hitem
  obtain ⟨side,status,rfl⟩ := mem_lists hlist
  obtain ⟨r,hlink,hside,-,hguardian,hg,hward,hw,rfl⟩ := mem_itemsOf.mp hmem
  have hapart := s.links.apart r.link hlink
  cases side with
  | true =>
    have hsame : r.link.guardianId=who.id := hside
    refine ⟨⟨r.link,hlink,decide_eq_true ⟨rfl,.inl hsame⟩⟩,r.ward,hward,?_,
      (if_pos hsame).trans hw.symm,if_pos hsame,if_pos hsame⟩
    rw [hw,← hsame]
    exact hapart.symm
  | false =>
    have hsame : r.link.wardId=who.id := hside
    have hne : r.link.guardianId≠who.id := fun heq => hapart (heq.trans hsame.symm)
    refine ⟨⟨r.link,hlink,decide_eq_true ⟨rfl,.inr hsame⟩⟩,r.guardian,hguardian,?_,
      (if_neg hne).trans hg.symm,if_neg hne,if_neg hne⟩
    rw [hg]
    exact hne

/-- An invite can be answered by those who see that they received it. -/
theorem answerable_iff (h : Consistent s) (who : ℕ) (n : ℕ) (status : LinkStatus) :
    (∃ item∈itemsOf o s who false .pending, item.linkId=n) ↔
      answerReply s who n status=.answered n status := by
  rw [answerReply]
  constructor
  · rintro ⟨item,hitem,hn⟩
    obtain ⟨r,hlink,hside,hstatus,-,-,-,-,rfl⟩ := mem_itemsOf.mp hitem
    exact if_pos (List.any_eq_true.mpr ⟨r.link,hlink,decide_eq_true ⟨hn,hside,hstatus⟩⟩)
  · intro hanswer
    split at hanswer
    · rename_i hany
      obtain ⟨link,hlink,hp⟩ := List.any_eq_true.mp hany
      obtain ⟨hn,hward,hstatus⟩ := of_decide_eq_true hp
      obtain ⟨r,rfl,hguardian,hg,hward',hw⟩ := exists_joined h hlink
      exact ⟨r.item who,mem_itemsOf.mpr
        ⟨r,hlink,hward,hstatus,hguardian,hg,hward',hw,rfl⟩,hn⟩
    · cases hanswer

/-- In consistent tables the views agree. -/
theorem viewsAgree (h : Consistent s) : ViewsAgree o s where
  accepted := fun _ _ _ => (exists_item_guardian h).trans (exists_item_ward h).symm
  pending := fun _ _ _ => (exists_item_guardian h).trans (exists_item_ward h).symm
  alerted := by
    intro g w
    rw [mem_targets]
    exact or_congr_right (accepted_iff_item h)
  blocks := by
    intro who row v hrow
    rw [seesRow_iff s v hrow]
    exact or_congr_right (accepted_iff_item h)
  answerable := fun who n status => answerable_iff h who.id n status
  removable := by
    intro who item hitem
    obtain ⟨⟨link,hlink,hinvolves⟩,-⟩ := item_facts hitem
    exact if_pos (List.any_eq_true.mpr ⟨link,hlink,hinvolves⟩)
  named := fun _ _ hitem => (item_facts hitem).2
  once := items_nodup h
  lists := by
    intro who list hlist
    obtain ⟨side,status,rfl⟩ := mem_lists hlist
    exact ⟨otherId_nodup h who.id side status,itemsOf_sorted who.id side status⟩

/-- In every run in which users register with ids of their own and invite as
users, whatever the order of the steps, what the users see of their links
agrees, and agrees with what the other endpoints do. -/
theorem views_agree (o : ByInvite) (now : ℕ) {events : List Event}
    (h : Along GuardianLinks.step Legit (start now []) events) :
    ViewsAgree o (run GuardianLinks.step (start now []) events) :=
  viewsAgree (consistent_run now h)

/-- A run in which one user is invited by two and accepts one invite. -/
def sampleEvents : List Event :=
  let ann : UserRow := ⟨1,"ann@example.com".toList,"AAAA2222".toList⟩
  let bob : UserRow := ⟨2,"bob@example.com".toList,"BBBB2222".toList⟩
  let eve : UserRow := ⟨3,"eve@example.com".toList,"EEEE2222".toList⟩
  [.register ann,.register bob,.register eve,.invite ann " bbbb2222".toList,.tick 5,
    .invite eve "BBBB2222".toList,.accept 2 1]

/-- The views agree behind that run, in which the one who accepted is a ward of
one user and has an invite of the other. -/
theorem sampleEvents_agree :
    ViewsAgree (OrderBy.stable _) (run GuardianLinks.step (start 0 []) sampleEvents) ∧
    (run GuardianLinks.step (start 0 []) sampleEvents).links.rows.map
      (fun link => (link.pair,link.status))=[((1,2),.accepted),((3,2),.pending)] :=
  ⟨views_agree (OrderBy.stable _) 0 (by decide),by decide⟩

end Agreement

end ScamLens.LinkViews
