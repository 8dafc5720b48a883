import ScamLens.EventRuns
import ScamLens.PushSends

/-!
# Push subscriptions over whole runs

Browsers subscribe and unsubscribe while sends are under way. A send reads the
rows of its user first, talks to the push services one by one, and deletes the
rows of dead endpoints at its end, by their keys. A row is there exactly when a
subscription has put it there and no unsubscription, no renewal and no send of
its own user that noticed its endpoint dead has taken it away since.
-/

namespace ScamLens.PushRuns

open EventRuns PushSends PythonText

/-- `SubscribeRequest` -/
structure SubscribeRequest where
  /-- Address of the push service. -/
  endpoint : Text
  /-- Public key of the browser. -/
  p256dh : Text
  /-- Shared secret of the browser. -/
  auth : Text
  /-- Name of the browser. -/
  userAgent : Option Text
  deriving DecidableEq

/-- The lengths that `SubscribeRequest` allows. -/
def SubscribeRequest.Valid (body : SubscribeRequest) : Prop :=
  body.endpoint.length≤2048 ∧ body.p256dh.length≤512 ∧ body.auth.length≤512 ∧
    ∀ name∈body.userAgent, name.length≤512

instance SubscribeRequest.decidableValid (body : SubscribeRequest) : Decidable body.Valid := by
  unfold SubscribeRequest.Valid
  exact inferInstance

/-- The columns that are UNIQUE together. -/
def pair (row : PushSubscription) : ℕ×Text := (row.userId,row.endpoint)

/-- `push_subscriptions` with its constraints and its id sequence. -/
structure PushStore extends PushTable where
  /-- UNIQUE (user_id, endpoint). -/
  unique : (rows.map pair).Nodup
  /-- Next value of the sequence. -/
  nextId : ℕ
  /-- Keys come from the sequence. -/
  fresh : ∀ row∈rows, row.id<nextId

namespace PushStore

/-- The empty table. -/
def empty : PushStore := ⟨⟨[],List.nodup_nil⟩,List.nodup_nil,1,List.forall_mem_nil _⟩

/-- A row with the keys of a request. -/
def renewed (who : ℕ) (body : SubscribeRequest) (row : PushSubscription) : PushSubscription :=
  if pair row=(who,body.endpoint) then {row with p256dh := body.p256dh, auth := body.auth} else row

/-- Renewing a row leaves its key and its pair alone. -/
theorem renewed_frame (who : ℕ) (body : SubscribeRequest) (row : PushSubscription) :
    (renewed who body row).id=row.id ∧ pair (renewed who body row)=pair row := by
  rw [renewed]
  split <;> exact ⟨rfl,rfl⟩

/-- The row of a pair gets the keys of a request. -/
def renew (t : PushStore) (who : ℕ) (body : SubscribeRequest) : PushStore where
  rows := t.rows.map (renewed who body)
  nodup := by
    rw [List.map_map]
    exact (List.map_congr_left fun row _ => (renewed_frame who body row).1).symm ▸ t.nodup
  unique := by
    rw [List.map_map]
    exact (List.map_congr_left fun row _ => (renewed_frame who body row).2).symm ▸ t.unique
  nextId := t.nextId+1
  fresh := by
    intro row hrow
    obtain ⟨old,hold,rfl⟩ := List.mem_map.mp hrow
    rw [(renewed_frame who body old).1]
    exact (t.fresh old hold).trans (Nat.lt_succ_self _)

/-- INSERT of a row with the next key. -/
def insert (t : PushStore) (who : ℕ) (body : SubscribeRequest)
    (hnew : (who,body.endpoint)∉t.rows.map pair) : PushStore where
  rows := t.rows++[⟨t.nextId,who,body.endpoint,body.p256dh,body.auth⟩]
  nodup := by
    rw [List.map_append,List.nodup_append]
    refine ⟨t.nodup,List.nodup_singleton _,fun id hid other hother he => ?_⟩
    obtain ⟨row,hrow,rfl⟩ := List.mem_map.mp hid
    have hlast : other=t.nextId := List.mem_singleton.mp hother
    exact (t.fresh row hrow).ne (he.trans hlast)
  unique := by
    rw [List.map_append,List.nodup_append]
    refine ⟨t.unique,List.nodup_singleton _,fun found hfound other hother he => ?_⟩
    have hlast : other=(who,body.endpoint) := List.mem_singleton.mp hother
    exact hnew (hlast ▸ he ▸ hfound)
  nextId := t.nextId+1
  fresh := by
    intro row hrow
    rcases List.mem_append.mp hrow with hrow|hrow
    · exact (t.fresh row hrow).trans (Nat.lt_succ_self _)
    · rw [List.mem_singleton.mp hrow]
      exact Nat.lt_succ_self _

/-- The INSERT of `subscribe` with its ON CONFLICT clause. -/
def upsert (t : PushStore) (who : ℕ) (body : SubscribeRequest) : PushStore :=
  if hnew : (who,body.endpoint)∈t.rows.map pair then t.renew who body else t.insert who body hnew

/-- DELETE of the rows that satisfy a condition. -/
def remove (t : PushStore) (p : PushSubscription → Bool) : PushStore where
  rows := t.rows.filter fun row => !p row
  nodup := t.nodup.sublist (List.filter_sublist.map _)
  unique := t.unique.sublist (List.filter_sublist.map _)
  nextId := t.nextId
  fresh := fun row hrow => t.fresh row (List.mem_of_mem_filter hrow)

end PushStore

/-- A call of `send_to_user` that is under way. -/
structure Send where
  /-- User whose devices get the message. -/
  userId : ℕ
  /-- Subscriptions still to be tried. -/
  todo : List PushSubscription
  /-- `sent` -/
  sent : ℕ
  /-- `dead_ids` -/
  deadIds : List ℕ
  /-- Subscriptions tried, with how their calls ended. -/
  answers : List (PushSubscription×SendOutcome)
  /-- Whether the call has returned. -/
  returned : Bool

/-- The table and the sends. -/
structure PushState where
  /-- `push_subscriptions` -/
  store : PushStore
  /-- Calls of `send_to_user`, in the order of their SELECTs. -/
  sends : List Send

/-- What happens. -/
inductive Event where
  /-- `subscribe` of a user. -/
  | subscribe (who : ℕ) (body : SubscribeRequest)
  /-- `unsubscribe` of a user. -/
  | unsubscribe (who : ℕ) (body : SubscribeRequest)
  /-- The SELECT of a send. -/
  | select (userId : ℕ)
  /-- A call of `webpush` ends. -/
  | answered (i : ℕ) (o : SendOutcome)
  /-- A send deletes what it has noticed and returns. -/
  | prune (i : ℕ)

section Machine

variable (truthy : ℕ → Bool) (available : Bool)

/-- A send behind the answer for its next subscription. -/
def Send.answered (send : Send) (sub : PushSubscription) (todo : List PushSubscription)
    (o : SendOutcome) : Send :=
  let (ok,dead) := sendOne truthy (fun _ => o) sub.endpoint sub.p256dh sub.auth .null
  {send with
    todo := todo
    sent := if ok then send.sent+1 else send.sent
    deadIds := if ok then send.deadIds else if dead then send.deadIds++[sub.id] else send.deadIds
    answers := send.answers++[(sub,o)]}

/-- One step. -/
def step (s : PushState) : Event → PushState
  | .subscribe who body => if body.Valid then {s with store := s.store.upsert who body} else s
  | .unsubscribe who body =>
    if body.Valid then
      {s with store := s.store.remove fun row => pair row=(who,body.endpoint)}
    else s
  | .select userId =>
    if available then
      {s with sends := s.sends++[⟨userId,s.store.ofUser userId,0,[],[],false⟩]}
    else s
  | .answered i o =>
    match s.sends[i]? with
    | some send =>
      match send.todo with
      | sub::todo => {s with sends := s.sends.set i (send.answered truthy sub todo o)}
      | [] => s
    | none => s
  | .prune i =>
    match s.sends[i]? with
    | some send =>
      if send.todo=[] ∧ send.returned=false then
        { store := s.store.remove fun row => send.deadIds.contains row.id
          sends := s.sends.set i {send with returned := true} }
      else s
    | none => s

end Machine

/-- The table at the start. -/
def start : PushState := ⟨PushStore.empty,[]⟩

section Rows

variable {t : PushStore} {who u : ℕ} {body : SubscribeRequest} {e : Text} {k : Text×Text}

/-- The user has a row for the endpoint, with these keys of the browser. -/
def HasRow (t : PushStore) (u : ℕ) (e : Text) (k : Text×Text) : Prop :=
  ∃ row∈t.rows, pair row=(u,e) ∧ (row.p256dh,row.auth)=k

/-- A subscription leaves the user one row for the endpoint, with its keys, and
the other rows as they are. -/
theorem hasRow_upsert : HasRow (t.upsert who body) u e k ↔
    (HasRow t u e k ∧ (who,body.endpoint)≠(u,e)) ∨
      ((who,body.endpoint)=(u,e) ∧ (body.p256dh,body.auth)=k) := by
  rw [PushStore.upsert]
  split
  · rename_i hold
    constructor
    · rintro ⟨row,hrow,hpair,hkeys⟩
      obtain ⟨old,hmem,rfl⟩ := List.mem_map.mp hrow
      rw [(PushStore.renewed_frame who body old).2] at hpair
      rw [PushStore.renewed] at hkeys
      split at hkeys
      · rename_i hsame
        exact Or.inr ⟨hsame.symm.trans hpair,hkeys⟩
      · rename_i hother
        exact Or.inl ⟨⟨old,hmem,hpair,hkeys⟩,fun he => hother (hpair.trans he.symm)⟩
    · rintro (⟨⟨row,hrow,hpair,hkeys⟩,hother⟩|⟨hsame,hkeys⟩)
      · refine ⟨row,List.mem_map.mpr ⟨row,hrow,?_⟩,hpair,hkeys⟩
        exact if_neg fun he => hother (he.symm.trans hpair)
      · obtain ⟨row,hrow,hpair⟩ := List.mem_map.mp hold
        refine ⟨PushStore.renewed who body row,List.mem_map_of_mem hrow,?_,?_⟩
        · rw [(PushStore.renewed_frame who body row).2,hpair,hsame]
        · rw [PushStore.renewed,if_pos hpair]
          exact hkeys
  · rename_i hnew
    constructor
    · rintro ⟨row,hrow,hpair,hkeys⟩
      rcases List.mem_append.mp hrow with hrow|hrow
      · refine Or.inl ⟨⟨row,hrow,hpair,hkeys⟩,fun he => hnew ?_⟩
        exact List.mem_map.mpr ⟨row,hrow,hpair.trans he.symm⟩
      · rw [List.mem_singleton.mp hrow] at hpair hkeys
        exact Or.inr ⟨hpair,hkeys⟩
    · rintro (⟨⟨row,hrow,hpair,hkeys⟩,-⟩|⟨hsame,hkeys⟩)
      · exact ⟨row,List.mem_append_left _ hrow,hpair,hkeys⟩
      · exact ⟨_,List.mem_append_right _ List.mem_cons_self,hsame,hkeys⟩

/-- Rows behind a DELETE. -/
theorem hasRow_remove {p : PushSubscription → Bool} : HasRow (t.remove p) u e k ↔
    ∃ row∈t.rows, p row=false ∧ pair row=(u,e) ∧ (row.p256dh,row.auth)=k := by
  refine exists_congr fun row => ?_
  have hmem : row∈(t.remove p).rows ↔ row∈t.rows ∧ p row=false := by
    rw [PushStore.remove,List.mem_filter,Bool.not_eq_true']
  rw [hmem,and_assoc]

/-- A row behind a subscription is an old one, perhaps renewed, or has a new
key. -/
theorem old_of_mem_upsert {row : PushSubscription} (h : row∈(t.upsert who body).rows) :
    (∃ old∈t.rows, old.id=row.id ∧ pair old=pair row) ∨ row.id=t.nextId := by
  rw [PushStore.upsert] at h
  split at h
  · obtain ⟨old,hold,rfl⟩ := List.mem_map.mp h
    obtain ⟨hid,hpair⟩ := PushStore.renewed_frame who body old
    exact Or.inl ⟨old,hold,hid.symm,hpair.symm⟩
  · rcases List.mem_append.mp h with h|h
    · exact Or.inl ⟨row,h,rfl,rfl⟩
    · rw [List.mem_singleton.mp h]
      exact Or.inr rfl

/-- A subscription takes a key from the sequence. -/
theorem nextId_upsert : (t.upsert who body).nextId=t.nextId+1 := by
  rw [PushStore.upsert]
  split <;> rfl

end Rows

section Sends

variable {truthy : ℕ → Bool} {available : Bool} {t : PushStore} {send : Send} {s : PushState}

/-- A row that a send has read: the rows of its key are of the same pair. -/
def Read (t : PushStore) (userId : ℕ) (sub : PushSubscription) : Prop :=
  sub.userId=userId ∧ sub.id<t.nextId ∧ ∀ row∈t.rows, row.id=sub.id → pair row=pair sub

/-- What holds of every send. -/
structure SoundSend (truthy : ℕ → Bool) (t : PushStore) (send : Send) : Prop where
  /-- It goes to rows of its user. -/
  rows : ∀ sub∈send.answers.map Prod.fst++send.todo, Read t send.userId sub
  /-- It counts the messages taken. -/
  sent : send.sent=(send.answers.filter fun answer => answer.2=.success).length
  /-- It collects the keys of the endpoints that it notices. -/
  dead : send.deadIds=(send.answers.filter fun answer => Noticed truthy answer.2).map (·.1.id)

/-- Every send is sound. -/
def Sound (truthy : ℕ → Bool) (s : PushState) : Prop :=
  ∀ send∈s.sends, SoundSend truthy s.store send

/-- Sends stay sound when the rows of old keys stay what they are. -/
theorem SoundSend.mono (h : SoundSend truthy t send) {t' : PushStore}
    (hnext : t.nextId≤t'.nextId)
    (hold : ∀ row∈t'.rows, (∃ old∈t.rows, old.id=row.id ∧ pair old=pair row) ∨
      t.nextId ≤ row.id) : SoundSend truthy t' send where
  rows := by
    intro sub hsub
    obtain ⟨huser,hid,hrows⟩ := h.rows sub hsub
    refine ⟨huser,hid.trans_le hnext,fun row hrow heq => ?_⟩
    rcases hold row hrow with ⟨old,hmem,hsame,hpair⟩|hnew
    · exact hpair.symm.trans (hrows old hmem (hsame.trans heq))
    · exact absurd (heq ▸ hid) (Nat.not_lt.mpr hnew)
  sent := h.sent
  dead := h.dead

/-- An answer keeps a send sound. -/
theorem SoundSend.answered {sub : PushSubscription} {todo : List PushSubscription}
    (h : SoundSend truthy t send) (htodo : send.todo=sub::todo) (o : SendOutcome) :
    SoundSend truthy t (send.answered truthy sub todo o) := by
  have hone := @sendOne_eq truthy (fun _ => o) .null sub
  have houtcome : outcome (fun _ => o) .null sub=o := rfl
  rw [houtcome] at hone
  have hexclusive : o=.success → ¬Noticed truthy o := by
    rintro rfl (⟨hno,-⟩|⟨hno,-⟩) <;> cases hno
  have hanswered : send.answered truthy sub todo o={send with
      todo := todo
      sent := if o=.success then send.sent+1 else send.sent
      deadIds := if Noticed truthy o then send.deadIds++[sub.id] else send.deadIds
      answers := send.answers++[(sub,o)]} := by
    rw [Send.answered,hone]
    by_cases hok : o=.success
    · simp only [decide_eq_true hok,if_pos hok,if_neg (hexclusive hok),if_true]
    · simp [hok]
  rw [hanswered]
  refine ⟨?_,?_,?_⟩
  · intro found hfound
    refine h.rows found ?_
    rw [htodo]
    simpa using hfound
  · rw [List.filter_append,List.length_append,←h.sent]
    by_cases hok : o=.success <;> simp [hok]
  · rw [List.filter_append,List.map_append,←h.dead]
    by_cases hdead : Noticed truthy o <;> simp [hdead]

/-- A SELECT finds rows of its user. -/
theorem soundSend_select (t : PushStore) (userId : ℕ) :
    SoundSend truthy t ⟨userId,t.ofUser userId,0,[],[],false⟩ where
  rows := by
    intro sub hsub
    obtain ⟨hrow,huser⟩ := List.mem_filter.mp hsub
    refine ⟨of_decide_eq_true huser,t.fresh sub hrow,fun row hmem heq => ?_⟩
    rw [List.inj_on_of_nodup_map t.nodup hmem hrow heq]
  sent := rfl
  dead := rfl

/-- A DELETE keeps every send sound. -/
theorem SoundSend.remove (h : SoundSend truthy t send) (p : PushSubscription → Bool) :
    SoundSend truthy (t.remove p) send :=
  h.mono (Nat.le_refl _) fun row hrow => Or.inl ⟨row,List.mem_of_mem_filter hrow,rfl,rfl⟩

/-- Every step keeps the sends sound. -/
theorem Sound.step (h : Sound truthy s) (ev : Event) :
    Sound truthy (step truthy available s ev) := by
  have hset {i : ℕ} {new : Send} {t : PushStore} (hnew : SoundSend truthy t new)
      (hothers : ∀ send∈s.sends, SoundSend truthy t send) :
      ∀ send∈s.sends.set i new, SoundSend truthy t send := by
    intro send hsend
    rcases List.mem_or_eq_of_mem_set hsend with hsend|rfl
    · exact hothers send hsend
    · exact hnew
  cases ev with
  | subscribe who body =>
    rw [PushRuns.step]
    split
    · intro send hsend
      refine (h send hsend).mono (nextId_upsert ▸ Nat.le_succ _) fun row hrow => ?_
      exact (old_of_mem_upsert hrow).imp_right fun hid => hid.symm.le
    · exact h
  | unsubscribe who body =>
    rw [PushRuns.step]
    split
    · exact fun send hsend => (h send hsend).remove _
    · exact h
  | select userId =>
    rw [PushRuns.step]
    split
    · exact List.forall_mem_append.mpr
        ⟨h,List.forall_mem_singleton.mpr (soundSend_select s.store userId)⟩
    · exact h
  | answered i o =>
    rw [PushRuns.step]
    split
    · rename_i send hsend
      split
      · rename_i htodo
        exact hset ((h send (List.mem_of_getElem? hsend)).answered htodo o) h
      · exact h
    · exact h
  | prune i =>
    rw [PushRuns.step]
    split
    · rename_i send hsend
      split
      · refine hset ?_ fun other hother => (h other hother).remove _
        have hsame := (h send (List.mem_of_getElem? hsend)).remove
          fun row => send.deadIds.contains row.id
        exact ⟨hsame.rows,hsame.sent,hsame.dead⟩
      · exact h
    · exact h

/-- Every reachable state is sound. -/
theorem sound_run (events : List Event) :
    Sound truthy (run (step truthy available) start events) :=
  run_invariant (Sound truthy) (fun _ ev h (_ : True) => h.step ev) (List.forall_mem_nil _)
    fun _ _ => trivial

end Sends

section History

variable (truthy : ℕ → Bool) (available : Bool) (u : ℕ) (e : Text) (k : Text×Text)

/-- The user subscribes the endpoint with these keys. -/
def Subscribes : Event → Prop
  | .subscribe who body =>
    body.Valid ∧ (who,body.endpoint)=(u,e) ∧ (body.p256dh,body.auth)=k
  | _ => False

/-- The user subscribes or unsubscribes the endpoint. -/
def Touches : Event → Prop
  | .subscribe who body => body.Valid ∧ (who,body.endpoint)=(u,e)
  | .unsubscribe who body => body.Valid ∧ (who,body.endpoint)=(u,e)
  | _ => False

/-- A send of the user returns that noticed the endpoint dead under the key of
its row. -/
def Prunes (s : PushState) : Event → Prop
  | .prune i => ∃ send, s.sends[i]?=some send ∧ send.todo=[] ∧ send.returned=false ∧
      send.userId=u ∧ ∃ answer∈send.answers, answer.1.endpoint=e ∧ Noticed truthy answer.2 ∧
        ∃ row∈s.store.rows, pair row=(u,e) ∧ row.id=answer.1.id
  | _ => False

/-- The row of the user for the endpoint stays as it is. -/
def Keeps (s : PushState) (ev : Event) : Prop := ¬Touches u e ev ∧ ¬Prunes truthy u e s ev

variable {truthy available u e k} {s : PushState}

/-- A returning send takes the rows of the endpoints that it noticed. -/
theorem hasRow_prune (h : Sound truthy s) {i : ℕ} {send : Send} (hsend : s.sends[i]?=some send)
    (hready : send.todo=[] ∧ send.returned=false) :
    HasRow (s.store.remove fun row => send.deadIds.contains row.id) u e k ↔
      HasRow s.store u e k ∧ ¬Prunes truthy u e s (.prune i) := by
  have hsound := h send (List.mem_of_getElem? hsend)
  have hmem (id : ℕ) : send.deadIds.contains id=true ↔
      ∃ answer∈send.answers, Noticed truthy answer.2 ∧ answer.1.id=id := by
    rw [List.contains_iff_mem,hsound.dead,List.mem_map]
    refine exists_congr fun answer => ?_
    rw [List.mem_filter,decide_eq_true_iff,and_assoc]
  rw [hasRow_remove]
  constructor
  · rintro ⟨row,hrow,hkept,hpair,hkeys⟩
    refine ⟨⟨row,hrow,hpair,hkeys⟩,?_⟩
    rintro ⟨other,hother,-,-,-,answer,hanswer,-,hnoticed,found,hfound,hsame,hid⟩
    obtain rfl := Option.some.inj (hsend.symm.trans hother)
    obtain rfl := List.inj_on_of_nodup_map s.store.unique hfound hrow (hsame.trans hpair.symm)
    rw [(hmem found.id).mpr ⟨answer,hanswer,hnoticed,hid.symm⟩] at hkept
    cases hkept
  · rintro ⟨⟨row,hrow,hpair,hkeys⟩,hnone⟩
    refine ⟨row,hrow,Bool.eq_false_iff.mpr fun hdead => hnone ?_,hpair,hkeys⟩
    obtain ⟨answer,hanswer,hnoticed,hid⟩ := (hmem row.id).mp hdead
    obtain ⟨huser,-,hrows⟩ := hsound.rows answer.1
      (List.mem_append_left _ (List.mem_map_of_mem hanswer))
    obtain ⟨hfirst,hsecond⟩ := Prod.mk.inj ((hrows row hrow hid.symm).symm.trans hpair)
    exact ⟨send,hsend,hready.1,hready.2,huser.symm.trans hfirst,answer,hanswer,hsecond,hnoticed,
      row,hrow,hpair,hid.symm⟩

/-- A row is there behind a step if the step keeps it, or puts it there. -/
theorem hasRow_step (h : Sound truthy s) (ev : Event) :
    HasRow (step truthy available s ev).store u e k ↔
      (HasRow s.store u e k ∧ Keeps truthy u e s ev) ∨ Subscribes u e k ev := by
  have hsame (hkeeps : Keeps truthy u e s ev) (hmakes : ¬Subscribes u e k ev) :
      HasRow s.store u e k ↔
        (HasRow s.store u e k ∧ Keeps truthy u e s ev) ∨ Subscribes u e k ev := by
    rw [or_iff_left hmakes,and_iff_left hkeeps]
  cases ev with
  | subscribe who body =>
    rw [step]
    by_cases hvalid : body.Valid
    · rw [if_pos hvalid]
      dsimp only
      rw [hasRow_upsert]
      simp only [Keeps,Touches,Prunes,Subscribes,hvalid,true_and,not_false_eq_true,and_true]
    · rw [if_neg hvalid]
      exact hsame ⟨fun ht => hvalid ht.1,id⟩ fun hm => hvalid hm.1
  | unsubscribe who body =>
    rw [step]
    by_cases hvalid : body.Valid
    · rw [if_pos hvalid]
      dsimp only
      rw [hasRow_remove]
      simp only [Keeps,Touches,Prunes,Subscribes,hvalid,true_and,not_false_eq_true,and_true,
        or_false,decide_eq_false_iff_not]
      constructor
      · rintro ⟨row,hrow,hother,hpair,hkeys⟩
        exact ⟨⟨row,hrow,hpair,hkeys⟩,fun he => hother (hpair.trans he.symm)⟩
      · rintro ⟨⟨row,hrow,hpair,hkeys⟩,hother⟩
        exact ⟨row,hrow,fun he => hother (he.symm.trans hpair),hpair,hkeys⟩
    · rw [if_neg hvalid]
      exact hsame ⟨fun ht => hvalid ht.1,id⟩ id
  | select userId =>
    rw [step]
    split <;> exact hsame ⟨id,id⟩ id
  | answered i o =>
    rw [step]
    split
    · split <;> exact hsame ⟨id,id⟩ id
    · exact hsame ⟨id,id⟩ id
  | prune i =>
    rw [step]
    split
    · rename_i send hsend
      split
      · rename_i hready
        dsimp only
        rw [hasRow_prune h hsend hready]
        simp only [Keeps,Touches,Subscribes,not_false_eq_true,true_and,or_false]
      · rename_i hready
        refine hsame ⟨id,?_⟩ id
        rintro ⟨other,hother,htodo,hreturned,-⟩
        obtain rfl := Option.some.inj (hsend.symm.trans hother)
        exact hready ⟨htodo,hreturned⟩
    · rename_i hnone
      refine hsame ⟨id,?_⟩ id
      rintro ⟨other,hother,-⟩
      rw [hnone] at hother
      cases hother

/-- The subscriptions that a send goes to, tried or not. -/
def Send.subs (send : Send) : List PushSubscription := send.answers.map Prod.fst++send.todo

/-- Whom the sends are for, and the subscriptions they go to. -/
def PushState.selected (s : PushState) : List (ℕ×List PushSubscription) :=
  s.sends.map fun send => (send.userId,send.subs)

/-- Whose SELECT the event is, with what it finds. -/
def selects (available : Bool) (s : PushState) : Event → Option (ℕ×List PushSubscription)
  | .select userId => if available then some (userId,s.store.ofUser userId) else none
  | _ => none

/-- A step adds the send of its SELECT, and leaves the others what they go to. -/
theorem subs_step (s : PushState) (ev : Event) :
    (step truthy available s ev).selected=s.selected++(selects available s ev).toList := by
  have hset {i : ℕ} {old new : Send} (hold : s.sends[i]?=some old)
      (huser : new.userId=old.userId) (hsubs : new.subs=old.subs) :
      (s.sends.set i new).map (fun send => (send.userId,send.subs))=s.selected := by
    obtain ⟨hi,rfl⟩ := List.getElem?_eq_some_iff.mp hold
    have hbound : i<s.selected.length := (List.length_map _).symm ▸ hi
    have hentry : (new.userId,new.subs)=s.selected[i] := by
      simp only [huser,hsubs,PushState.selected,List.getElem_map]
    rw [List.map_set,hentry]
    exact List.set_getElem_self hbound
  have hsame := (List.append_nil s.selected).symm
  cases ev with
  | subscribe who body => rw [step]; split <;> exact hsame
  | unsubscribe who body => rw [step]; split <;> exact hsame
  | select userId =>
    rw [step,selects]
    split
    · rw [PushState.selected,List.map_append]
      rfl
    · exact hsame
  | answered i o =>
    rw [step]
    split
    · rename_i send hsend
      split
      · rename_i sub todo htodo
        have hsubs : (send.answered truthy sub todo o).subs=send.subs := by
          rw [Send.subs,Send.subs,htodo,Send.answered]
          simp
        exact (@hset i send (send.answered truthy sub todo o) hsend rfl hsubs).trans hsame
      · exact hsame
    · exact hsame
  | prune i =>
    rw [step]
    split
    · rename_i send hsend
      split
      · exact (@hset i send {send with returned := true} hsend rfl rfl).trans hsame
      · exact hsame
    · exact hsame

/-- What a send goes to is what its SELECT found. -/
theorem subs_selected {events : List Event} {i : ℕ}
    (h : (run (step truthy available) start events).sends[i]?=some send) :
    ∃ pre post, events=pre++.select send.userId::post ∧ available=true ∧
      (run (step truthy available) start pre).sends.length=i ∧
      send.subs=(run (step truthy available) start pre).store.ofUser send.userId := by
  have hlog : (run (step truthy available) start events).selected[i]?=
      some (send.userId,send.subs) := by
    rw [PushState.selected,List.getElem?_map,h]
    rfl
  obtain ⟨pre,ev,post,rfl,hselects,hlength⟩ := (getElem?_log_run subs_step rfl events).mp hlog
  rw [PushState.selected,List.length_map] at hlength
  cases ev with
  | select userId =>
    obtain ⟨havailable,hfound⟩ := Option.ite_none_right_eq_some.mp hselects
    obtain ⟨rfl,hsubs⟩ := Prod.mk.inj (Option.some.inj hfound)
    exact ⟨pre,post,rfl,havailable,hlength,hsubs.symm⟩
  | subscribe who body => cases hselects
  | unsubscribe who body => cases hselects
  | answered i o => cases hselects
  | prune i => cases hselects

/-- Over every run of subscriptions, unsubscriptions and sends that overlap: a
user has a row for an endpoint with some keys exactly when the user has
subscribed it with these keys and since then neither subscribed nor unsubscribed
it, and no send of this user has returned that noticed it dead. No user has two
rows for an endpoint. A send goes to the rows that its user had at its own SELECT,
once each and in their order, and returns the number of messages taken. -/
theorem subscribed_iff (truthy : ℕ → Bool) (available : Bool) (events : List Event) :
    let s := run (step truthy available) start events
    (∀ u e k, HasRow s.store u e k ↔ ∃ first ev second, events=first++ev::second ∧
      Subscribes u e k ev ∧ Along (step truthy available) (Keeps truthy u e)
        (step truthy available (run (step truthy available) start first) ev) second) ∧
    (s.store.rows.map pair).Nodup ∧
    ∀ i send, s.sends[i]?=some send →
      send.sent=(send.answers.filter fun answer => answer.2=.success).length ∧
      ∃ pre post, events=pre++.select send.userId::post ∧ available=true ∧
        (run (step truthy available) start pre).sends.length=i ∧
        send.subs=(run (step truthy available) start pre).store.ofUser send.userId := by
  intro s
  have hsound : Along (step truthy available) (fun s _ => Sound truthy s) start events := by
    have hall (events : List Event) : ∀ s, Sound truthy s →
        Along (step truthy available) (fun s _ => Sound truthy s) s events := by
      induction events with
      | nil => exact fun _ _ => trivial
      | cons ev events ih => exact fun s hs => ⟨hs,ih _ (hs.step ev)⟩
    exact hall events start (List.forall_mem_nil _)
  refine ⟨fun u e k => ?_,s.store.unique,fun i send hsend => ?_⟩
  · have hnone : ¬HasRow start.store u e k := by
      rintro ⟨row,hrow,-⟩
      cases hrow
    exact @Along.holds_iff _ _ _ _ _ _ (fun s => HasRow s.store u e k)
      (fun s ev hs => hasRow_step hs ev) _ _ hsound hnone
  · exact ⟨(sound_run events send (List.mem_of_getElem? hsend)).sent,subs_selected hsend⟩

end History

end ScamLens.PushRuns
