import ScamLens.EventRuns
import ScamLens.Tables

/-!
# Guardians and wards

A guardian invites a ward by its code, the ward accepts or rejects, and either
side may revoke. Guardians of accepted links see the blocks of a ward: live,
by the fan-out of an event, and in their list of blocks, by a query of its
own. The link table carries the constraints that the database enforces.
-/

namespace ScamLens.GuardianLinks

open EventRuns PythonText Resolver Tables

/-- States of a link. -/
inductive LinkStatus where
  | pending
  | accepted
  | rejected
  deriving DecidableEq

/-- A row of `guardian_links`. -/
structure GuardianLink where
  /-- Primary key. -/
  id : ℕ
  /-- User that watches. -/
  guardianId : ℕ
  /-- User that is watched. -/
  wardId : ℕ
  /-- State of the link. -/
  status : LinkStatus
  /-- Second of the latest invite. -/
  invitedAt : ℕ
  /-- Second of the answer to it. -/
  respondedAt : Option ℕ
  deriving DecidableEq

/-- The pair of users that a row links. -/
def GuardianLink.pair (link : GuardianLink) : ℕ×ℕ := (link.guardianId,link.wardId)

/-- The table with its constraints. -/
structure LinkTable where
  /-- The rows, oldest first. -/
  rows : List GuardianLink
  /-- UNIQUE (guardian_id, ward_id). -/
  unique : (rows.map GuardianLink.pair).Nodup
  /-- CHECK (guardian_id <> ward_id). -/
  apart : ∀ link∈rows, link.guardianId≠link.wardId

namespace LinkTable

/-- The empty table. -/
def empty : LinkTable := ⟨[],List.nodup_nil,fun _ h => absurd h List.not_mem_nil⟩

/-- UPDATE of the rows that satisfy the condition, leaving their pairs alone. -/
def update (t : LinkTable) (p : GuardianLink → Bool) (f : GuardianLink → GuardianLink)
    (hf : ∀ link, (f link).pair=link.pair) : LinkTable where
  rows := t.rows.map fun link => if p link then f link else link
  unique := by
    have hpairs : (t.rows.map fun link => if p link then f link else link).map
        GuardianLink.pair=t.rows.map GuardianLink.pair := by
      rw [List.map_map]
      refine List.map_congr_left fun link _ => ?_
      rw [Function.comp_apply]
      split
      · exact hf link
      · rfl
    rw [hpairs]
    exact t.unique
  apart := by
    intro link hlink
    obtain ⟨old,hold,rfl⟩ := List.mem_map.mp hlink
    split
    · have hpair := Prod.mk.inj (hf old)
      rw [hpair.1,hpair.2]
      exact t.apart old hold
    · exact t.apart old hold

/-- DELETE of the rows that satisfy the condition. -/
def delete (t : LinkTable) (p : GuardianLink → Bool) : LinkTable where
  rows := t.rows.filter fun link => !p link
  unique := t.unique.sublist (List.filter_sublist.map _)
  apart := fun link hlink => t.apart link (List.mem_of_mem_filter hlink)

/-- INSERT of a row whose pair is new. -/
def insert (t : LinkTable) (link : GuardianLink) (hapart : link.guardianId≠link.wardId)
    (hnew : ∀ old∈t.rows, old.pair≠link.pair) : LinkTable where
  rows := t.rows++[link]
  unique := by
    rw [List.map_append,List.nodup_append]
    refine ⟨t.unique,List.nodup_singleton _,fun pair hpair other hother he => ?_⟩
    obtain ⟨old,hold,rfl⟩ := List.mem_map.mp hpair
    obtain ⟨last,hlast,rfl⟩ := List.mem_map.mp hother
    rw [List.mem_singleton.mp hlast] at he
    exact hnew old hold he
  apart := by
    intro other hother
    rcases List.mem_append.mp hother with hother|hother
    · exact t.apart other hother
    · rw [List.mem_singleton.mp hother]
      exact hapart

end LinkTable

/-- The columns of a row of `users` that links and alerts read. -/
structure UserRow where
  /-- Primary key. -/
  id : ℕ
  /-- Address. -/
  email : Text
  /-- Code by which a guardian invites the user. -/
  inviteCode : Text
  deriving DecidableEq

/-- The users, the links, and the clock. -/
structure Accounts where
  /-- The current second. -/
  now : ℕ
  /-- The users. -/
  users : List UserRow
  /-- The links between them. -/
  links : LinkTable
  /-- Next value of the link id sequence. -/
  nextLinkId : ℕ

/-- The answers of the link endpoints. -/
inductive LinkReply where
  | invalidBody
  | refused (statusCode : ℕ) (detail : Text)
  | invited (linkId : ℕ) (status : LinkStatus) (wardEmail : Text)
  | answered (linkId : ℕ) (status : LinkStatus)
  | removed (linkId : ℕ)
  deriving DecidableEq

/-- Users act, register, or time passes. -/
inductive Event where
  | tick (seconds : ℕ)
  | register (user : UserRow)
  | invite (who : UserRow) (code : Text)
  | accept (who linkId : ℕ)
  | reject (who linkId : ℕ)
  | revoke (who linkId : ℕ)
  deriving DecidableEq

/-- A link that is invited anew. -/
def GuardianLink.reinvited (link : GuardianLink) (now : ℕ) : GuardianLink :=
  {link with status := .pending, invitedAt := now, respondedAt := none}

/-- A link that is answered. -/
def GuardianLink.answered (link : GuardianLink) (status : LinkStatus) (now : ℕ) : GuardianLink :=
  {link with status := status, respondedAt := some now}

/-- An invite leaves the pair alone. -/
theorem GuardianLink.pair_reinvited (now : ℕ) (link : GuardianLink) :
    (link.reinvited now).pair=link.pair := rfl

/-- An answer leaves the pair alone. -/
theorem GuardianLink.pair_answered (status : LinkStatus) (now : ℕ) (link : GuardianLink) :
    (link.answered status now).pair=link.pair := rfl

/-- The condition of the UPDATEs of `accept_link` and `reject_link`. -/
def isPendingFor (who linkId : ℕ) (link : GuardianLink) : Bool :=
  link.id=linkId ∧ link.wardId=who ∧ link.status=.pending

/-- The condition of the DELETE of `revoke_link`. -/
def involves (who linkId : ℕ) (link : GuardianLink) : Bool :=
  link.id=linkId ∧ (link.guardianId=who ∨ link.wardId=who)

/-- The INSERT of `invite_dependent` with its ON CONFLICT clause, none when it
violates the check. -/
def upsertInvite (s : Accounts) (guardian ward : ℕ) : Option Accounts :=
  if hapart : guardian=ward then none
  else if hold : ∃ old∈s.links.rows, old.pair=(guardian,ward) then
    some {s with
      links := s.links.update (fun link => link.pair=(guardian,ward)) (·.reinvited s.now)
        (GuardianLink.pair_reinvited s.now)
      nextLinkId := s.nextLinkId+1}
  else
    some {s with
      links := s.links.insert ⟨s.nextLinkId,guardian,ward,.pending,s.now,none⟩ hapart
        (fun old hmem he => hold ⟨old,hmem,he⟩)
      nextLinkId := s.nextLinkId+1}

/-- The user that `invite_dependent` finds for a code. -/
def invitee (s : Accounts) (code : Text) : Option UserRow :=
  s.users.find? fun user => user.inviteCode=upper (strip code)

/-- The state behind `invite_dependent`; the length of the code is checked
before it is normalized. -/
def inviteStep (s : Accounts) (who : UserRow) (code : Text) : Accounts :=
  if code.length<4 ∨ 32 < code.length then s
  else if upper (strip code)=who.inviteCode then s
  else match invitee s code with
    | none => s
    | some target => (upsertInvite s who.id target.id).getD s

/-- `accept_link` and `reject_link`. -/
def answerStep (s : Accounts) (who linkId : ℕ) (status : LinkStatus) : Accounts :=
  { s with
    links := s.links.update (isPendingFor who linkId) (·.answered status s.now)
      (GuardianLink.pair_answered status s.now) }

/-- One step. -/
def step (s : Accounts) : Event → Accounts
  | .tick seconds => {s with now := s.now+seconds}
  | .register user => {s with users := s.users++[user]}
  | .invite who code => inviteStep s who code
  | .accept who linkId => answerStep s who linkId .accepted
  | .reject who linkId => answerStep s who linkId .rejected
  | .revoke who linkId => {s with links := s.links.delete (involves who linkId)}

/-- The answer of `accept_link` or `reject_link`. -/
def answerReply (s : Accounts) (who linkId : ℕ) (status : LinkStatus) : LinkReply :=
  if s.links.rows.any (isPendingFor who linkId) then .answered linkId status
  else .refused 404 "no pending invite for you with that id".toList

/-- The answer of `invite_dependent`, given the text of a constraint violation. -/
def inviteReply (s : Accounts) (who : UserRow) (code violation : Text) : LinkReply :=
  if code.length<4 ∨ 32 < code.length then .invalidBody
  else if upper (strip code)=who.inviteCode then .refused 400 "you can't add yourself".toList
  else match invitee s code with
    | none => .refused 404 "no user with that invite code".toList
    | some target =>
      match upsertInvite s who.id target.id with
      | none => .refused 400 ("could not create link: ".toList++violation)
      | some _ =>
        let old := s.links.rows.find? fun link => link.pair=(who.id,target.id)
        .invited ((old.map (·.id)).getD s.nextLinkId) .pending target.email

/-- The answer of `revoke_link`. -/
def revokeReply (s : Accounts) (who linkId : ℕ) : LinkReply :=
  if s.links.rows.any (involves who linkId) then .removed linkId
  else .refused 404 "no link with that id involving you".toList

/-- A refused invite changes nothing. -/
theorem inviteStep_of_refused {s : Accounts} {who : UserRow} {code violation detail : Text}
    {statusCode : ℕ} (h : inviteReply s who code violation=.refused statusCode detail) :
    inviteStep s who code=s := by
  rw [inviteReply] at h
  rw [inviteStep]
  split at h
  · cases h
  · rename_i hlength
    rw [if_neg hlength]
    split at h
    · rename_i hself
      rw [if_pos hself]
    · rename_i hself
      rw [if_neg hself]
      cases hi : invitee s code with
      | none => rfl
      | some target =>
        rw [hi] at h
        dsimp only at h ⊢
        split at h
        · rename_i hup
          rw [hup,Option.getD_none]
        · cases h

/-- A refused answer changes no link. -/
theorem rows_answerStep_of_refused {s : Accounts} {who linkId statusCode : ℕ} {detail : Text}
    {status : LinkStatus} (h : answerReply s who linkId status=.refused statusCode detail) :
    (answerStep s who linkId status).links.rows=s.links.rows := by
  rw [answerReply] at h
  split at h
  · cases h
  · rename_i hnone
    have hsame : ∀ link∈s.links.rows, (if isPendingFor who linkId link then
        link.answered status s.now else link)=link := fun link hlink =>
      if_neg fun hp => hnone (List.any_eq_true.mpr ⟨link,hlink,hp⟩)
    exact (List.map_congr_left hsame).trans (List.map_id _)

/-- A refused revocation changes no link. -/
theorem rows_delete_of_refused {s : Accounts} {who linkId statusCode : ℕ} {detail : Text}
    (h : revokeReply s who linkId=.refused statusCode detail) :
    (s.links.delete (involves who linkId)).rows=s.links.rows := by
  rw [revokeReply] at h
  split at h
  · cases h
  · rename_i hnone
    refine List.filter_eq_self.mpr fun link hlink => ?_
    rw [Bool.not_eq_true',Bool.eq_false_iff]
    exact fun hp => hnone (List.any_eq_true.mpr ⟨link,hlink,hp⟩)

/-- The accounts of a fresh database. -/
def start (now : ℕ) (users : List UserRow) : Accounts := ⟨now,users,LinkTable.empty,1⟩

/-- The guardian's link to the ward is accepted. -/
def Accepted (links : LinkTable) (guardian ward : ℕ) : Prop :=
  ∃ link∈links.rows, link.pair=(guardian,ward) ∧ link.status=.accepted

section Visibility

/-- A block event as the channel carries it. -/
structure BlockEvent where
  /-- `"domain"`. -/
  domain : Option Text
  /-- `"verdict"`. -/
  verdict : Option Text
  deriving DecidableEq

/-- Arguments of one `send_to_user`. -/
structure Push where
  /-- User whose devices get the message. -/
  userId : ℕ
  /-- Title. -/
  title : Text
  /-- Body. -/
  body : Text
  /-- Page that the message opens. -/
  url : Text
  /-- Messages of one tag replace each other. -/
  tag : Text
  deriving DecidableEq

/-- The queues of the clients that listen for a user. -/
abbrev EventBus := ℕ → List (List BlockEvent)

/-- A queue of 64 events drops its oldest for the next one. -/
def putEvent (event : BlockEvent) (queue : List BlockEvent) : List BlockEvent :=
  (if 64 ≤ queue.length then queue.drop 1 else queue)++[event]

/-- `EventBus.fanout` -/
def fanout (bus : EventBus) (userIds : List ℕ) (event : BlockEvent) : EventBus :=
  userIds.foldl (fun bus uid => Function.update bus uid ((bus uid).map (putEvent event))) bus

/-- The users that `_handle_event` turns to: the user, and the guardians that
its query finds. -/
def targets (s : Accounts) (userId : ℕ) : List ℕ :=
  userId::(s.links.rows.filter fun link => link.wardId=userId ∧ link.status=.accepted).map
    (·.guardianId)

/-- `_handle_event`: the queues behind it, and the messages that it sends. -/
def handleEvent (s : Accounts) (bus : EventBus) (userId : ℕ) (event : BlockEvent) :
    EventBus×List Push :=
  let wardEmail := ((s.users.find? fun user => user.id=userId).map (·.email)).getD
    ("user#".toList++ofInt userId)
  let verdict := event.verdict.getD []
  (fanout bus (targets s userId) event,(targets s userId).map fun uid => {
    userId := uid
    title := "ScamLens blocked a scam".toList
    body := wardEmail++" tried to open ".toList++event.domain.getD "?".toList
    url := "/account".toList
    tag := "block-".toList++(if verdict=[] then "scam".toList else verdict) })

/-- The WHERE clause of `my_blocks`. -/
def seesRow (s : Accounts) (who : ℕ) (row : BlockedAttempt) : Bool :=
  row.entry.userId.any fun userId => userId=who ∨
    s.links.rows.any fun link => link.guardianId=who ∧ link.wardId=userId ∧ link.status=.accepted

/-- `my_blocks` on the block log, whose oldest row is the first one; a negative
limit is an error of the database. -/
def myBlocks (s : Accounts) (attempts : List BlockedAttempt) (who : ℕ) (limit : ℤ) :
    Option (List BlockedAttempt) :=
  if limit<0 then none
  else some ((attempts.reverse.filter (seesRow s who)).take (min limit 200).toNat)

end Visibility

/-- The event invites the ward on behalf of the guardian, and is not refused
before it reaches the table. -/
def Invites (guardian ward : ℕ) (s : Accounts) : Event → Prop
  | .invite who code => ¬(code.length<4 ∨ 32 < code.length) ∧ upper (strip code)≠who.inviteCode ∧
      who.id=guardian ∧ guardian≠ward ∧ ∃ target, invitee s code=some target ∧ target.id=ward
  | _ => False

/-- The event revokes the link. -/
def Revokes (guardian ward : ℕ) (s : Accounts) : Event → Prop
  | .revoke who linkId =>
    ∃ link∈s.links.rows, link.pair=(guardian,ward) ∧ involves who linkId link=true
  | _ => False

/-- The ward itself accepts the pending link. -/
def Accepts (guardian ward : ℕ) (s : Accounts) : Event → Prop
  | .accept who linkId => who=ward ∧ ∃ link∈s.links.rows, link.pair=(guardian,ward) ∧
      link.id=linkId ∧ link.status=.pending
  | _ => False

/-- The event neither invites the ward anew nor revokes the link. -/
def Keeps (guardian ward : ℕ) (s : Accounts) (e : Event) : Prop :=
  ¬Invites guardian ward s e ∧ ¬Revokes guardian ward s e

section History

variable {guardian ward : ℕ} {s : Accounts}

/-- An accepted link behind an UPDATE. -/
theorem accepted_update {t : LinkTable} {p : GuardianLink → Bool}
    {f : GuardianLink → GuardianLink} {hf : ∀ link, (f link).pair=link.pair} :
    Accepted (t.update p f hf) guardian ward ↔ ∃ link∈t.rows, link.pair=(guardian,ward) ∧
      (if p link then (f link).status else link.status)=.accepted := by
  constructor
  · intro h
    obtain ⟨link,hlink,hpair,hstatus⟩ := h
    obtain ⟨old,hold,rfl⟩ := List.mem_map.mp hlink
    by_cases hp : p old=true
    · rw [if_pos hp] at hpair hstatus
      exact ⟨old,hold,(hf old).symm.trans hpair,by rw [if_pos hp]; exact hstatus⟩
    · rw [if_neg hp] at hpair hstatus
      exact ⟨old,hold,hpair,by rw [if_neg hp]; exact hstatus⟩
  · intro h
    obtain ⟨link,hlink,hpair,hstatus⟩ := h
    refine ⟨_,List.mem_map_of_mem hlink,?_⟩
    by_cases hp : p link=true
    · rw [if_pos hp] at hstatus ⊢
      exact ⟨(hf link).trans hpair,hstatus⟩
    · rw [if_neg hp] at hstatus ⊢
      exact ⟨hpair,hstatus⟩

/-- An invite un-accepts the link of its pair and leaves the others alone. -/
theorem accepted_upsertInvite {inviter invited : ℕ} {t : Accounts}
    (h : upsertInvite s inviter invited=some t) : Accepted t.links guardian ward ↔
      Accepted s.links guardian ward ∧ ¬(inviter=guardian ∧ invited=ward) := by
  have hpairs : (guardian,ward)=(inviter,invited) ↔ inviter=guardian ∧ invited=ward := by
    rw [Prod.mk.injEq,eq_comm,@eq_comm _ ward]
  rw [upsertInvite] at h
  split at h
  · cases h
  split at h
  · rw [←Option.some.inj h]
    dsimp only
    rw [accepted_update]
    constructor
    · intro hafter
      obtain ⟨link,hlink,hpair,hstatus⟩ := hafter
      split at hstatus
      · cases hstatus
      · rename_i hother
        rw [hpair,decide_eq_true_eq,hpairs] at hother
        exact ⟨⟨link,hlink,hpair,hstatus⟩,hother⟩
    · intro hbefore
      obtain ⟨⟨link,hlink,hpair,hstatus⟩,hother⟩ := hbefore
      refine ⟨link,hlink,hpair,?_⟩
      rw [if_neg (by rwa [hpair,decide_eq_true_eq,hpairs])]
      exact hstatus
  · rename_i hnew
    rw [←Option.some.inj h]
    constructor
    · intro hafter
      obtain ⟨link,hlink,hpair,hstatus⟩ := hafter
      rcases List.mem_append.mp hlink with hlink|hlink
      · refine ⟨⟨link,hlink,hpair,hstatus⟩,fun hsame => hnew ⟨link,hlink,?_⟩⟩
        exact hpair.trans (hpairs.mpr hsame)
      · rw [List.mem_singleton.mp hlink] at hstatus
        cases hstatus
    · intro hbefore
      obtain ⟨⟨link,hlink,hpair,hstatus⟩,-⟩ := hbefore
      exact ⟨link,List.mem_append_left _ hlink,hpair,hstatus⟩

/-- An answer accepts the pending link that it is about, if it is a positive
one, and keeps every accepted link. -/
theorem accepted_answerStep {who linkId : ℕ} {status : LinkStatus} :
    Accepted (answerStep s who linkId status).links guardian ward ↔
      Accepted s.links guardian ward ∨
        (status=.accepted ∧ ∃ link∈s.links.rows, link.pair=(guardian,ward) ∧
          isPendingFor who linkId link=true) := by
  rw [answerStep]
  dsimp only
  rw [accepted_update]
  constructor
  · intro h
    obtain ⟨link,hlink,hpair,hstatus⟩ := h
    split at hstatus
    · rename_i hp
      exact Or.inr ⟨hstatus,link,hlink,hpair,hp⟩
    · exact Or.inl ⟨link,hlink,hpair,hstatus⟩
  · intro h
    rcases h with ⟨link,hlink,hpair,hstatus⟩|⟨hstatus,link,hlink,hpair,hp⟩
    · refine ⟨link,hlink,hpair,?_⟩
      rw [if_neg (by simp only [isPendingFor,hstatus]; simp)]
      exact hstatus
    · exact ⟨link,hlink,hpair,by rw [if_pos hp]; exact hstatus⟩

/-- A revocation removes the links that it is about. -/
theorem accepted_delete {t : LinkTable} {p : GuardianLink → Bool} :
    Accepted (t.delete p) guardian ward ↔ Accepted t guardian ward ∧
      ¬∃ link∈t.rows, link.pair=(guardian,ward) ∧ p link=true := by
  constructor
  · intro h
    obtain ⟨link,hlink,hpair,hstatus⟩ := h
    obtain ⟨hlink,hp⟩ := List.mem_filter.mp hlink
    refine ⟨⟨link,hlink,hpair,hstatus⟩,fun hother => ?_⟩
    obtain ⟨other,hother,hopair,hop⟩ := hother
    have hsame : other=link :=
      List.inj_on_of_nodup_map t.unique hother hlink (hopair.trans hpair.symm)
    rw [hsame] at hop
    rw [hop] at hp
    cases hp
  · intro h
    obtain ⟨⟨link,hlink,hpair,hstatus⟩,hnone⟩ := h
    refine ⟨link,List.mem_filter.mpr ⟨hlink,?_⟩,hpair,hstatus⟩
    rw [Bool.not_eq_true',Bool.eq_false_iff]
    exact fun hp => hnone ⟨link,hlink,hpair,hp⟩

/-- Nobody but the inviter fails to be linked. -/
theorem upsertInvite_eq_none {inviter invited : ℕ} (h : upsertInvite s inviter invited=none) :
    inviter=invited := by
  rw [upsertInvite] at h
  by_contra hne
  rw [dif_neg hne] at h
  split at h <;> cases h

/-- Linked users are two. -/
theorem ne_of_upsertInvite {inviter invited : ℕ} {t : Accounts}
    (h : upsertInvite s inviter invited=some t) : inviter≠invited := by
  intro he
  rw [upsertInvite,dif_pos he] at h
  cases h

/-- A link is accepted behind an invitation if it was, and is not the one that
is invited anew. -/
theorem accepted_inviteStep (s : Accounts) (who : UserRow) (code : Text) :
    Accepted (inviteStep s who code).links guardian ward ↔
      Accepted s.links guardian ward ∧ ¬Invites guardian ward s (.invite who code) := by
  rw [inviteStep]
  split
  · rename_i hlength
    exact ⟨fun h => ⟨h,fun hi => hi.1 hlength⟩,fun h => h.1⟩
  split
  · rename_i hself
    exact ⟨fun h => ⟨h,fun hi => hi.2.1 hself⟩,fun h => h.1⟩
  split
  · rename_i hnone
    refine ⟨fun h => ⟨h,fun hi => ?_⟩,fun h => h.1⟩
    obtain ⟨target,htarget,-⟩ := hi.2.2.2.2
    rw [hnone] at htarget
    cases htarget
  · rename_i hlength hself _ target htarget
    have hinvites : Invites guardian ward s (.invite who code) ↔
        who.id=guardian ∧ guardian≠ward ∧ target.id=ward := by
      simp only [Invites,htarget,Option.some.injEq,exists_eq_left',hlength]
      tauto
    rw [hinvites]
    cases hup : upsertInvite s who.id target.id with
    | none =>
      rw [Option.getD_none]
      refine ⟨fun h => ⟨h,fun hi => ?_⟩,fun h => h.1⟩
      obtain ⟨hg,hne,hw⟩ := hi
      exact hne (hg.symm.trans ((upsertInvite_eq_none hup).trans hw))
    | some after =>
      rw [Option.getD_some,accepted_upsertInvite hup]
      refine and_congr_right fun _ => not_congr ⟨fun hpair => ?_,fun hi => ⟨hi.1,hi.2.2⟩⟩
      have hapart : guardian≠ward := hpair.1 ▸ hpair.2 ▸ ne_of_upsertInvite hup
      exact ⟨hpair.1,hapart,hpair.2⟩

/-- A link is accepted behind a step if the step keeps it accepted, or is its
acceptance by the ward. -/
theorem accepted_step (s : Accounts) (e : Event) :
    Accepted (step s e).links guardian ward ↔
      (Accepted s.links guardian ward ∧ Keeps guardian ward s e) ∨ Accepts guardian ward s e := by
  cases e with
  | tick seconds => exact (by simp only [step,Keeps,Invites,Revokes,Accepts]; tauto)
  | register user => exact (by simp only [step,Keeps,Invites,Revokes,Accepts]; tauto)
  | invite who code =>
    simp only [step,Keeps,Revokes,Accepts,not_false_eq_true,and_true,or_false]
    exact accepted_inviteStep s who code
  | accept who linkId =>
    simp only [step,Keeps,Invites,Revokes,not_false_eq_true,and_self,and_true]
    rw [accepted_answerStep]
    refine or_congr_right ⟨fun h => ?_,fun h => ?_⟩
    · obtain ⟨-,link,hlink,hpair,hp⟩ := h
      obtain ⟨hid,hward,hstatus⟩ := of_decide_eq_true hp
      exact ⟨hward.symm.trans (Prod.mk.inj hpair).2,link,hlink,hpair,hid,hstatus⟩
    · obtain ⟨hwho,link,hlink,hpair,hid,hstatus⟩ := h
      refine ⟨rfl,link,hlink,hpair,decide_eq_true ⟨hid,?_,hstatus⟩⟩
      exact (Prod.mk.inj hpair).2.trans hwho.symm
  | reject who linkId =>
    simp only [step,Keeps,Invites,Revokes,Accepts,not_false_eq_true,and_self,and_true,or_false]
    rw [accepted_answerStep]
    exact or_iff_left fun h => by cases h.1
  | revoke who linkId =>
    simp only [step,Keeps,Invites,Revokes,Accepts,not_false_eq_true,true_and,or_false]
    exact accepted_delete

/-- A link is accepted exactly when its ward has accepted it at some point, and
it was neither invited anew nor revoked since. -/
theorem accepted_run (now : ℕ) (users : List UserRow) (events : List Event) :
    Accepted (run step (start now users) events).links guardian ward ↔
      ∃ first e second, events=first++e::second ∧
        Accepts guardian ward (run step (start now users) first) e ∧
        Along step (Keeps guardian ward) (step (run step (start now users) first) e) second := by
  have hall : Along step (fun _ _ => True) (start now users) events :=
    along_of_forall (fun _ _ => trivial) _
  have hnone : ¬Accepted (start now users).links guardian ward := by
    intro h
    obtain ⟨link,hlink,-⟩ := h
    exact absurd hlink List.not_mem_nil
  exact @Along.holds_iff _ _ _ _ _ _ (fun s => Accepted s.links guardian ward)
    (fun s e _ => accepted_step s e) _ _ hall hnone

end History

section Viewers

variable (s : Accounts) (v : ℕ)

/-- Events of a user go to the user and to the guardians of accepted links. -/
theorem mem_targets {u : ℕ} : u∈targets s v ↔ u=v ∨ Accepted s.links u v := by
  rw [targets,List.mem_cons,List.mem_map]
  refine or_congr_right ⟨fun h => ?_,fun h => ?_⟩
  · obtain ⟨link,hlink,rfl⟩ := h
    obtain ⟨hmem,hp⟩ := List.mem_filter.mp hlink
    obtain ⟨hward,hstatus⟩ := of_decide_eq_true hp
    exact ⟨link,hmem,by rw [GuardianLink.pair,hward],hstatus⟩
  · obtain ⟨link,hlink,hpair,hstatus⟩ := h
    obtain ⟨hguardian,hward⟩ := Prod.mk.inj hpair
    exact ⟨link,List.mem_filter.mpr ⟨hlink,decide_eq_true ⟨hward,hstatus⟩⟩,hguardian⟩

/-- Nobody is turned to twice. -/
theorem targets_nodup : (targets s v).Nodup := by
  rw [targets,List.nodup_cons]
  constructor
  · intro h
    obtain ⟨link,hlink,hself⟩ := List.mem_map.mp h
    obtain ⟨hmem,hp⟩ := List.mem_filter.mp hlink
    exact s.links.apart link hmem (hself.trans (of_decide_eq_true hp).1.symm)
  · have hnodup : (s.links.rows.filter fun link => link.wardId=v ∧ link.status=.accepted).Nodup :=
      (List.Nodup.of_map _ s.links.unique).filter _
    refine hnodup.map_on fun a ha b hb he => ?_
    obtain ⟨hamem,hap⟩ := List.mem_filter.mp ha
    obtain ⟨hbmem,hbp⟩ := List.mem_filter.mp hb
    refine List.inj_on_of_nodup_map s.links.unique hamem hbmem ?_
    rw [GuardianLink.pair,GuardianLink.pair,he,(of_decide_eq_true hap).1,
      (of_decide_eq_true hbp).1]

/-- The WHERE clause admits a row of a user for the user and for the guardians
of accepted links. -/
theorem seesRow_iff {row : BlockedAttempt} (hrow : row.entry.userId=some v) {u : ℕ} :
    seesRow s u row=true ↔ u=v ∨ Accepted s.links u v := by
  rw [seesRow,hrow,Option.any_some,decide_eq_true_eq,@eq_comm _ v]
  refine or_congr_right ?_
  rw [List.any_eq_true]
  refine exists_congr fun link => and_congr_right fun _ => ?_
  rw [decide_eq_true_eq,GuardianLink.pair,Prod.mk.injEq,and_assoc]

end Viewers

/-- Without repetition every queue of a listed user gets the event once, and no
other queue gets it. -/
theorem fanout_apply {userIds : List ℕ} (h : userIds.Nodup) (bus : EventBus) (event : BlockEvent)
    (u : ℕ) : fanout bus userIds event u=
      if u∈userIds then (bus u).map (putEvent event) else bus u := by
  induction userIds generalizing bus with
  | nil => rw [if_neg List.not_mem_nil]; rfl
  | cons uid userIds ih =>
    obtain ⟨hnew,hnodup⟩ := List.nodup_cons.mp h
    have hstep : fanout bus (uid::userIds) event u=
        fanout (Function.update bus uid ((bus uid).map (putEvent event))) userIds event u := rfl
    rw [hstep,ih hnodup]
    by_cases he : u=uid
    · rw [he,if_neg hnew,if_pos List.mem_cons_self,Function.update_self]
    · rw [Function.update_of_ne he]
      simp only [List.mem_cons,he,false_or]

/-- The blocks of a user are for the user and the guardians of accepted links. -/
def Viewer (s : Accounts) (v u : ℕ) : Prop := u=v ∨ Accepted s.links u v

/-- Events and rows of a user reach its viewers and nobody else. -/
structure SeenExactly (s : Accounts) (v : ℕ) : Prop where
  /-- Every queue of a viewer gets an event, once. -/
  queued : ∀ bus event u, Viewer s v u →
    (handleEvent s bus v event).1 u=(bus u).map (putEvent event)
  /-- No other queue gets it. -/
  unqueued : ∀ bus event u, ¬Viewer s v u → (handleEvent s bus v event).1 u=bus u
  /-- Nobody gets two messages. -/
  pushedOnce : ∀ bus event, ((handleEvent s bus v event).2.map (·.userId)).Nodup
  /-- The messages go to the viewers. -/
  pushed : ∀ bus event u, u∈(handleEvent s bus v event).2.map (·.userId) ↔ Viewer s v u
  /-- The list of blocks admits a row for the viewers. -/
  listed : ∀ row : BlockedAttempt, row.entry.userId=some v →
    ∀ u, seesRow s u row=true ↔ Viewer s v u
  /-- What it answers with are rows of the log, those of the user for viewers only. -/
  answered : ∀ attempts who limit result, myBlocks s attempts who limit=some result →
    ∀ row∈result, row∈attempts ∧ (row.entry.userId=some v → Viewer s v who)
  /-- Viewers get each row of the user, unless there are more than the limit. -/
  complete : ∀ attempts who limit result, myBlocks s attempts who limit=some result →
    (attempts.filter (seesRow s who)).length≤(min limit 200).toNat → Viewer s v who →
      ∀ row∈attempts, row.entry.userId=some v → row∈result

/-- The messages of an event go to its targets, one each. -/
theorem pushed_ids (s : Accounts) (bus : EventBus) (v : ℕ) (event : BlockEvent) :
    (handleEvent s bus v event).2.map (·.userId)=targets s v := by
  rw [handleEvent,List.map_map]
  exact List.map_id (targets s v)

/-- What `my_blocks` lists are rows of the log that its user may see, and all
of them when they are no more than the limit. -/
theorem mem_myBlocks {s : Accounts} {attempts result : List BlockedAttempt} {who : ℕ} {limit : ℤ}
    (h : myBlocks s attempts who limit=some result) (row : BlockedAttempt) :
    (row∈result → row∈attempts ∧ seesRow s who row=true) ∧
    ((attempts.filter (seesRow s who)).length≤(min limit 200).toNat →
      row∈attempts → seesRow s who row=true → row∈result) := by
  rw [myBlocks,Option.ite_none_left_eq_some] at h
  obtain ⟨-,h⟩ := h
  have hlength : (attempts.reverse.filter (seesRow s who)).length=
      (attempts.filter (seesRow s who)).length := by
    rw [List.filter_reverse,List.length_reverse]
  rw [←Option.some.inj h]
  constructor
  · intro hrow
    obtain ⟨hmem,hsees⟩ := List.mem_filter.mp (List.mem_of_mem_take hrow)
    exact ⟨List.mem_reverse.mp hmem,hsees⟩
  · intro hlimit hmem hsees
    rw [List.take_of_length_le (hlength.trans_le hlimit)]
    exact List.mem_filter.mpr ⟨List.mem_reverse.mpr hmem,hsees⟩

/-- Both copies of the visibility rule agree in every state of the tables. -/
theorem seenExactly (s : Accounts) (v : ℕ) : SeenExactly s v where
  queued := fun bus event u hu =>
    (fanout_apply (targets_nodup s v) bus event u).trans (if_pos ((mem_targets s v).mpr hu))
  unqueued := fun bus event u hu =>
    (fanout_apply (targets_nodup s v) bus event u).trans
      (if_neg fun h => hu ((mem_targets s v).mp h))
  pushedOnce := fun bus event => by
    rw [pushed_ids]
    exact targets_nodup s v
  pushed := fun bus event u => by
    rw [pushed_ids]
    exact mem_targets s v
  listed := fun _ hrow _ => seesRow_iff s v hrow
  answered := fun _ _ _ _ hresult row hmem => by
    obtain ⟨hlogged,hsees⟩ := (mem_myBlocks hresult row).1 hmem
    exact ⟨hlogged,fun hrow => (seesRow_iff s v hrow).mp hsees⟩
  complete := fun _ _ _ _ hresult hlimit hviewer row hlogged hrow =>
    (mem_myBlocks hresult row).2 hlimit hlogged ((seesRow_iff s v hrow).mpr hviewer)

/-- After any sequence of calls, the blocks of a user reach exactly the user
and the guardians of accepted links, without repetition, and a link is
accepted exactly when the ward itself has accepted it after its latest invite
and nobody has revoked it since. -/
theorem guardians_see_exactly (now : ℕ) (users : List UserRow) (events : List Event) (v : ℕ) :
    SeenExactly (run step (start now users) events) v ∧
    ∀ guardian, Accepted (run step (start now users) events).links guardian v ↔
      ∃ first e second, events=first++e::second ∧
        Accepts guardian v (run step (start now users) first) e ∧
        Along step (Keeps guardian v) (step (run step (start now users) first) e) second :=
  ⟨seenExactly _ v,fun _ => accepted_run now users events⟩

end ScamLens.GuardianLinks
