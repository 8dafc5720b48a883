import ScamLens.EventRuns
import ScamLens.UserAccounts

/-!
# Registration, login and sessions

A registration looks for its address first and inserts its row in a later
command, up to five times with a new invite code each, so several may be under
way for one address. It ends with a signed token, as a login does; the token
names the account and the second at which it expires. A request shows a token
and acts for the account that it names, with the role that the account has now.
The signature and the password hash are parameters.
-/

namespace ScamLens.Sessions

open EventRuns PythonText UserAccounts

/-- The claims of a session token. -/
structure Claims where
  /-- `"sub"`, the id of the account. -/
  sub : ℕ
  /-- `"email"` -/
  email : Text
  /-- `"role"`, which no request looks at. -/
  role : Role
  /-- `"iat"` -/
  iat : ℕ
  /-- `"exp"` -/
  exp : ℕ
  deriving DecidableEq

/-- The exceptions of `jwt.decode`. -/
inductive JwtError where
  /-- `ExpiredSignatureError` -/
  | expired
  /-- `InvalidTokenError` -/
  | invalid
  deriving DecidableEq

/-- The token library and the password hash. -/
structure Crypto where
  /-- `jwt.encode` with the secret. -/
  encode : Text → Claims → Text
  /-- `jwt.decode` with the secret, at the given second. -/
  decode : Text → ℕ → Text → Except JwtError Claims
  /-- `bcrypt.hashpw` with a fresh salt, none when it raises. -/
  hashpw : Text → ℕ → Option Text
  /-- `bcrypt.checkpw`, none when it raises. -/
  checkpw : Text → Text → Option Bool

/-- A signed token is decoded to its claims from its issue until it expires, and
no claims are decoded before or after. -/
structure Crypto.Signs (crypto : Crypto) : Prop where
  /-- A token with a good signature is refused from the second of its `exp` on. -/
  decode_encode : ∀ secret now claims, claims.iat ≤ now →
    crypto.decode secret now (crypto.encode secret claims)=
      if claims.exp≤now then .error .expired else .ok claims
  /-- Claims that are decoded were issued by now and have not expired. -/
  timely : ∀ secret now token claims, crypto.decode secret now token=.ok claims →
    claims.iat ≤ now ∧ now<claims.exp

/-- The settings of the API that sessions depend on. -/
structure AuthConfig where
  /-- `jwt_secret` -/
  jwtSecret : Text
  /-- `jwt_ttl_hours` -/
  jwtTtlHours : ℕ

/-- A registration behind its SELECT. -/
structure Signup where
  /-- The client. -/
  client : ℕ
  /-- The address as it is stored. -/
  email : Text
  /-- The password. -/
  password : Text
  /-- Invite codes that it may still try. -/
  attempts : ℕ
  deriving DecidableEq

/-- How a registration ends. -/
inductive RegisterReply where
  /-- The 422 of a password that is too short or too long. -/
  | invalidBody
  /-- The 409 of an address that is registered already. -/
  | conflict
  /-- The 500 after five invite codes that were taken. -/
  | noInviteCode
  /-- An exception, which becomes a 500. -/
  | raised
  /-- The account. -/
  | registered (row : UserRecord)
  deriving DecidableEq

/-- A token that was issued. -/
structure Issued where
  /-- The token. -/
  token : Text
  /-- Its claims. -/
  claims : Claims
  /-- The row that it was issued for. -/
  row : UserRecord

/-- The API and its database, with the history that the results are about. -/
structure AuthState where
  /-- The current second. -/
  now : ℕ
  /-- The table of accounts. -/
  users : UserTable
  /-- Next value of the id sequence. -/
  nextUserId : ℕ
  /-- Registrations under way. -/
  signups : List Signup
  /-- Registrations that have ended, with the client. -/
  replies : List (ℕ×RegisterReply)
  /-- Addresses that an operator has made an admin. -/
  adminEmails : List Text
  /-- Tokens that were issued. -/
  issued : List Issued

/-- One command, or the passing of time. -/
inductive Event where
  | tick (seconds : ℕ)
  /-- `register` up to its SELECT. -/
  | registerStart (client : ℕ) (email password : Text)
  /-- The next INSERT of a registration. -/
  | registerInsert (i salt : ℕ) (inviteCode dohToken : Text)
  /-- `login` -/
  | login (email password : Text)
  /-- The script `create_admin`. -/
  | createAdmin (email passwordHash inviteCode dohToken : Text)

section Machine

variable (cfg : AuthConfig) (crypto : Crypto)

/-- The claims of `issue_token`. -/
def claimsFor (now : ℕ) (row : UserRecord) : Claims where
  sub := row.id
  email := row.email
  role := row.role
  iat := now
  exp := now+cfg.jwtTtlHours*3600

/-- `issue_token`, none when there is no secret. -/
def issueToken (now : ℕ) (row : UserRecord) : Option Issued :=
  if cfg.jwtSecret=[] then none
  else some ⟨crypto.encode cfg.jwtSecret (claimsFor cfg now row),claimsFor cfg now row,row⟩

/-- `register` up to its SELECT. -/
def registerStart (s : AuthState) (client : ℕ) (email password : Text) : AuthState :=
  let email := strip (lower email)
  if password.length<10 ∨ 200<password.length then
    {s with replies := s.replies++[(client,.invalidBody)]}
  else if (s.users.findEmail email).isSome then
    {s with replies := s.replies++[(client,.conflict)]}
  else {s with signups := s.signups++[⟨client,email,password,5⟩]}

/-- A registration ends. -/
def AuthState.reply (s : AuthState) (i client : ℕ) (reply : RegisterReply) : AuthState :=
  {s with signups := s.signups.eraseIdx i, replies := s.replies++[(client,reply)]}

/-- What a registration is told once its row is stored: without a secret there
is an exception instead of a token. -/
def AuthState.welcome (s : AuthState) (i client : ℕ) (row : UserRecord) : AuthState :=
  match issueToken cfg crypto s.now row with
  | none => s.reply i client .raised
  | some token => {s with issued := s.issued++[token]}.reply i client (.registered row)

/-- One round of the loop of `register`. -/
def registerInsert (s : AuthState) (i salt : ℕ) (inviteCode dohToken : Text) : AuthState :=
  match s.signups[i]? with
  | none => s
  | some signup =>
    match crypto.hashpw signup.password salt with
    | none => s.reply i signup.client .raised
    | some hash =>
      let row : UserRecord := ⟨s.nextUserId,signup.email,hash,.user,inviteCode,dohToken⟩
      let s := {s with nextUserId := s.nextUserId+1}
      match s.users.insertUser row with
      | .violation => s.reply i signup.client .raised
      | .stored users => {s with users := users}.welcome cfg crypto i signup.client row
      | .ignored =>
        if signup.attempts≤1 then s.reply i signup.client .noInviteCode
        else {s with signups := s.signups.set i {signup with attempts := signup.attempts-1}}

/-- The account that `login` accepts. -/
def loginRow (s : AuthState) (email password : Text) : Option UserRecord :=
  (s.users.findEmail email).filter fun row =>
    crypto.checkpw password row.passwordHash=some true

/-- `login` -/
def login (s : AuthState) (email password : Text) : AuthState :=
  match (loginRow crypto s email password).bind (issueToken cfg crypto s.now) with
  | none => s
  | some token => {s with issued := s.issued++[token]}

/-- `create_admin` -/
def createAdmin (s : AuthState) (email passwordHash inviteCode dohToken : Text) : AuthState :=
  let email := lower (strip email)
  let row : UserRecord := ⟨s.nextUserId,email,passwordHash,.admin,inviteCode,dohToken⟩
  let s := {s with nextUserId := s.nextUserId+1}
  match s.users.upsertAdmin row with
  | .stored users => {s with users := users, adminEmails := s.adminEmails++[email]}
  | _ => s

/-- One step. -/
def authStep (s : AuthState) : Event → AuthState
  | .tick seconds => {s with now := s.now+seconds}
  | .registerStart client email password => registerStart s client email password
  | .registerInsert i salt inviteCode dohToken =>
    registerInsert cfg crypto s i salt inviteCode dohToken
  | .login email password => login cfg crypto s email password
  | .createAdmin email passwordHash inviteCode dohToken =>
    createAdmin s email passwordHash inviteCode dohToken

/-- What a request shows of its session. -/
structure SessionRequest where
  /-- The session cookie. -/
  cookie : Option Text
  /-- The `Authorization` header, empty when there is none. -/
  authorization : Text

/-- The token of a request: the cookie, or what follows the word bearer. -/
def SessionRequest.token (request : SessionRequest) : Option Text :=
  match request.cookie.filter (· != []) with
  | some token => some token
  | none =>
    if "bearer ".toList.isPrefixOf (lower request.authorization) then
      some (strip (request.authorization.drop 7)) |>.filter (· != [])
    else none

/-- The refusals of a request, with their status code. -/
inductive Refusal where
  /-- 401, without a token. -/
  | notAuthenticated
  /-- 401, with a token that has expired. -/
  | sessionExpired
  /-- 401, with a token that is none. -/
  | invalidToken
  /-- 401, with a token for no account. -/
  | userNotFound
  /-- 403, for an account that is no admin. -/
  | adminOnly
  deriving DecidableEq

/-- `Principal` -/
structure Principal where
  /-- Id of the account. -/
  id : ℕ
  /-- Address. -/
  email : Text
  /-- Role. -/
  role : Role
  /-- Invite code. -/
  inviteCode : Text
  /-- Token for encrypted queries. -/
  dohToken : Text
  deriving DecidableEq

/-- The columns of a row that a request acts with. -/
def principalOf (row : UserRecord) : Principal :=
  ⟨row.id,row.email,row.role,row.inviteCode,row.dohToken⟩

/-- `current_principal` -/
def currentPrincipal (s : AuthState) (request : SessionRequest) : Except Refusal Principal :=
  match request.token with
  | none => .error .notAuthenticated
  | some token =>
    match crypto.decode cfg.jwtSecret s.now token with
    | .error .expired => .error .sessionExpired
    | .error .invalid => .error .invalidToken
    | .ok claims =>
      match s.users.findId claims.sub with
      | none => .error .userNotFound
      | some row => .ok (principalOf row)

/-- `current_admin` -/
def currentAdmin (s : AuthState) (request : SessionRequest) : Except Refusal Principal := do
  let who ← currentPrincipal cfg crypto s request
  if who.role=.admin then return who else throw .adminOnly

end Machine

/-- The accounts before the API starts. -/
structure Migrated where
  /-- The table. -/
  users : UserTable
  /-- Next value of the id sequence. -/
  nextUserId : ℕ
  /-- The sequence is ahead of the keys. -/
  fresh : ∀ row∈users.rows, row.id<nextUserId

/-- The API at its start. -/
def AuthState.start (m : Migrated) : AuthState where
  now := 0
  users := m.users
  nextUserId := m.nextUserId
  signups := []
  replies := []
  adminEmails := (m.users.rows.filter fun row => row.role=.admin).map UserRecord.email
  issued := []

section Invariants

variable {cfg : AuthConfig} {crypto : Crypto} {s : AuthState}

/-- Two rows of one account: what the script changes aside. -/
def SameAccount (first second : UserRecord) : Prop :=
  second.id=first.id ∧ second.email=first.email ∧ second.inviteCode=first.inviteCode ∧
    second.dohToken=first.dohToken

/-- A row is of its own account. -/
theorem SameAccount.refl (row : UserRecord) : SameAccount row row := ⟨rfl,rfl,rfl,rfl⟩

/-- Rows of one account are in one chain. -/
theorem SameAccount.trans {first second third : UserRecord} (h : SameAccount first second)
    (hnext : SameAccount second third) : SameAccount first third :=
  ⟨hnext.1.trans h.1,hnext.2.1.trans h.2.1,hnext.2.2.1.trans h.2.2.1,hnext.2.2.2.trans h.2.2.2⟩

/-- The accounts whose registration has succeeded. -/
def registeredRows (s : AuthState) : List UserRecord :=
  s.replies.filterMap fun reply => match reply.2 with
    | .registered row => some row
    | _ => none

/-- The account still has a row. -/
def Kept (s : AuthState) (row : UserRecord) : Prop := ∃ now∈s.users.rows, SameAccount row now

/-- What holds of the accounts at any time. -/
structure AccountsSound (s : AuthState) : Prop where
  /-- The id sequence is ahead of the keys. -/
  keys : ∀ row∈s.users.rows, row.id < s.nextUserId
  /-- Exactly the accounts that an operator has named are admins. -/
  admins : ∀ row∈s.users.rows, row.role=.admin ↔ row.email∈s.adminEmails
  /-- An operator names accounts only. -/
  named : ∀ email∈s.adminEmails, ∃ row∈s.users.rows, row.email=email
  /-- Every registration has an account of its own, -/
  distinct : ((registeredRows s).map UserRecord.id).Nodup
  /-- which is kept. -/
  registered : ∀ row∈registeredRows s, Kept s row

/-- The table after one more row. -/
structure Grows (s s' : AuthState) (row : UserRecord) : Prop where
  /-- The row is behind the others, -/
  rows : s'.users.rows=s.users.rows++[row]
  /-- takes the next id, -/
  id : row.id=s.nextUserId
  /-- and uses it up. -/
  next : s'.nextUserId=s.nextUserId+1
  /-- It violates no constraint. -/
  admits : s.users.Admits row

/-- What a step can do to the accounts. -/
inductive Move (s s' : AuthState) : Prop where
  /-- Nothing, but for an id that is used up. -/
  | still (users : s'.users=s.users) (next : s.nextUserId ≤ s'.nextUserId)
    (admins : s'.adminEmails=s.adminEmails) (registered : registeredRows s'=registeredRows s)
  /-- A registration stores its row, and succeeds unless there is no secret. -/
  | joined (row : UserRecord) (grows : Grows s s' row) (role : row.role=.user)
    (admins : s'.adminEmails=s.adminEmails)
    (registered : registeredRows s'=registeredRows s ∨
      registeredRows s'=registeredRows s++[row])
  /-- The script stores the row of an admin. -/
  | appointed (row : UserRecord) (grows : Grows s s' row) (role : row.role=.admin)
    (admins : s'.adminEmails=s.adminEmails++[row.email])
    (registered : registeredRows s'=registeredRows s)
  /-- The script makes an admin of an account. -/
  | promoted (email passwordHash : Text) (old : UserRecord) (hold : old∈s.users.rows)
    (hemail : old.email=email) (users : s'.users=s.users.promote email passwordHash)
    (next : s.nextUserId ≤ s'.nextUserId) (admins : s'.adminEmails=s.adminEmails++[email])
    (registered : registeredRows s'=registeredRows s)

/-- A reply other than an account adds no registered row. -/
theorem registeredRows_reply (s : AuthState) (i client : ℕ) {reply : RegisterReply}
    (h : ∀ row, reply≠.registered row) :
    registeredRows (s.reply i client reply)=registeredRows s := by
  rw [registeredRows,AuthState.reply,List.filterMap_append]
  cases reply with
  | registered row => exact absurd rfl (h row)
  | _ => exact List.append_nil _

/-- What a registration is told leaves the accounts alone. -/
theorem welcome_fields (cfg : AuthConfig) (crypto : Crypto) (s : AuthState) (i client : ℕ)
    (row : UserRecord) :
    (s.welcome cfg crypto i client row).users=s.users ∧
      (s.welcome cfg crypto i client row).nextUserId=s.nextUserId ∧
      (s.welcome cfg crypto i client row).adminEmails=s.adminEmails ∧
      (registeredRows (s.welcome cfg crypto i client row)=registeredRows s ∨
        registeredRows (s.welcome cfg crypto i client row)=registeredRows s++[row]) := by
  rw [AuthState.welcome]
  cases issueToken cfg crypto s.now row with
  | none => exact ⟨rfl,rfl,rfl,Or.inl (registeredRows_reply s i client (by simp))⟩
  | some token =>
    refine ⟨rfl,rfl,rfl,Or.inr ?_⟩
    simp only [registeredRows,AuthState.reply,List.filterMap_append]
    rfl

/-- A round of a registration does nothing to the accounts or stores its row. -/
theorem registerInsert_move (s : AuthState) (i salt : ℕ) (inviteCode dohToken : Text) :
    Move s (registerInsert cfg crypto s i salt inviteCode dohToken) := by
  rw [registerInsert]
  cases s.signups[i]? with
  | none => exact .still rfl le_rfl rfl rfl
  | some signup =>
    dsimp only
    cases crypto.hashpw signup.password salt with
    | none => exact .still rfl le_rfl rfl (registeredRows_reply s i _ (by simp))
    | some hash =>
      dsimp only
      generalize hrow :
        (⟨s.nextUserId,signup.email,hash,.user,inviteCode,dohToken⟩ : UserRecord)=row
      have hid : row.id=s.nextUserId := hrow ▸ rfl
      have hrole : row.role=.user := hrow ▸ rfl
      cases hinsert : s.users.insertUser row with
      | violation => exact .still rfl (Nat.le_succ _) rfl (registeredRows_reply _ i _ (by simp))
      | stored users =>
        obtain ⟨hrows,hadmits⟩ := UserTable.insertUser_stored hinsert
        obtain ⟨husers,hnext,hadmins,hregistered⟩ := welcome_fields cfg crypto
          {s with nextUserId := s.nextUserId+1, users := users} i signup.client row
        exact .joined row ⟨husers ▸ hrows,hid,hnext,hadmits⟩ hrole hadmins hregistered
      | ignored =>
        dsimp only
        split
        · exact .still rfl (Nat.le_succ _) rfl (registeredRows_reply _ i _ (by simp))
        · exact .still rfl (Nat.le_succ _) rfl rfl

/-- The script stores a row, updates one or does nothing. -/
theorem createAdmin_move (s : AuthState) (email passwordHash inviteCode dohToken : Text) :
    Move s (createAdmin s email passwordHash inviteCode dohToken) := by
  rw [createAdmin]
  dsimp only
  generalize hrow : (⟨s.nextUserId,lower (strip email),passwordHash,.admin,inviteCode,
    dohToken⟩ : UserRecord)=row
  have hid : row.id=s.nextUserId := hrow ▸ rfl
  have hrole : row.role=.admin := hrow ▸ rfl
  have hemail : row.email=lower (strip email) := hrow ▸ rfl
  cases hupsert : s.users.upsertAdmin row with
  | stored users =>
    rcases UserTable.upsertAdmin_stored hupsert with ⟨hrows,hadmits⟩ | ⟨rfl,old,hold,hsame⟩
    · exact .appointed row ⟨hrows,hid,rfl,hadmits⟩ hrole (hemail ▸ rfl) rfl
    · exact .promoted row.email row.passwordHash old hold hsame rfl (Nat.le_succ _)
        (hemail ▸ rfl) rfl
  | ignored => exact .still rfl (Nat.le_succ _) rfl rfl
  | violation => exact .still rfl (Nat.le_succ _) rfl rfl

/-- Every step is one of these moves. -/
theorem authStep_move (s : AuthState) (e : Event) : Move s (authStep cfg crypto s e) := by
  cases e with
  | tick seconds => exact .still rfl le_rfl rfl rfl
  | registerStart client email password =>
    have hreply (reply : RegisterReply) (hreply : ∀ row, reply≠.registered row) :
        registeredRows {s with replies := s.replies++[(client,reply)]}=registeredRows s := by
      rw [registeredRows,List.filterMap_append]
      cases reply with
      | registered row => exact absurd rfl (hreply row)
      | _ => exact List.append_nil _
    rw [authStep,registerStart]
    split
    · exact .still rfl le_rfl rfl (hreply _ (by simp))
    · split
      · exact .still rfl le_rfl rfl (hreply _ (by simp))
      · exact .still rfl le_rfl rfl rfl
  | registerInsert i salt inviteCode dohToken => exact registerInsert_move s i salt _ _
  | login email password =>
    rw [authStep,login]
    split <;> exact .still rfl le_rfl rfl rfl
  | createAdmin email passwordHash inviteCode dohToken => exact createAdmin_move s _ _ _ _

variable {s' : AuthState} {row : UserRecord}

/-- A row is kept where the table grows. -/
theorem Kept.grow {added : UserRecord} (hgrows : Grows s s' added) (h : Kept s row) :
    Kept s' row := by
  obtain ⟨now,hnow,hsame⟩ := h
  exact ⟨now,hgrows.rows ▸ List.mem_append_left _ hnow,hsame⟩

/-- No move takes an account away. -/
theorem Move.kept (hmove : Move s s') (h : Kept s row) : Kept s' row := by
  cases hmove with
  | still users next admins registered =>
    rw [Kept,users]
    exact h
  | joined added grows role admins registered => exact h.grow grows
  | appointed added grows role admins registered => exact h.grow grows
  | promoted email passwordHash old hold hemail users next admins registered =>
    obtain ⟨now,hnow,hsame⟩ := h
    refine ⟨UserTable.promoted email passwordHash now,?_,hsame.trans ?_⟩
    · rw [users]
      exact List.mem_map_of_mem hnow
    · exact UserTable.promoted_identity email passwordHash now

/-- The addresses of a table that grows belong to its rows. -/
theorem AccountsSound.named_grow (h : AccountsSound s) {added : UserRecord}
    (hgrows : Grows s s' added) :
    ∀ email∈s.adminEmails, ∃ row∈s'.users.rows, row.email=email := by
  intro email hemail
  obtain ⟨row,hrow,heq⟩ := h.named email hemail
  exact ⟨row,hgrows.rows ▸ List.mem_append_left _ hrow,heq⟩

/-- The sequence stays ahead of a table that grows. -/
theorem AccountsSound.keys_grow (h : AccountsSound s) {added : UserRecord}
    (hgrows : Grows s s' added) : ∀ row∈s'.users.rows, row.id < s'.nextUserId := by
  intro row hrow
  rw [hgrows.rows] at hrow
  rw [hgrows.next]
  rcases List.mem_append.mp hrow with hold | hnew
  · exact Nat.lt_succ_of_lt (h.keys row hold)
  · rw [List.mem_singleton.mp hnew,hgrows.id]
    exact Nat.lt_succ_self _

/-- No admin has the address of a row that is added. -/
theorem AccountsSound.new_not_named (h : AccountsSound s) {added : UserRecord}
    (hgrows : Grows s s' added) : added.email∉s.adminEmails := by
  intro hmem
  obtain ⟨row,hrow,heq⟩ := h.named _ hmem
  exact hgrows.admits.email row hrow heq

/-- The registered accounts stay apart when one with the next id joins them. -/
theorem AccountsSound.distinct_concat (h : AccountsSound s) {added : UserRecord}
    (hid : added.id=s.nextUserId) :
    ((registeredRows s++[added]).map UserRecord.id).Nodup := by
  rw [List.map_append,List.nodup_append]
  refine ⟨h.distinct,List.nodup_singleton _,fun id hold other hnew he => ?_⟩
  obtain ⟨row,hrow,rfl⟩ := List.mem_map.mp hold
  rw [List.map_singleton,List.mem_singleton] at hnew
  obtain ⟨now,hnow,hsame⟩ := h.registered row hrow
  have hlt := h.keys now hnow
  rw [hsame.1,he,hnew,hid] at hlt
  exact Nat.lt_irrefl _ hlt

/-- Every move keeps what holds of the accounts. -/
theorem AccountsSound.step (h : AccountsSound s) (hmove : Move s s') : AccountsSound s' := by
  have hkept : ∀ row∈registeredRows s, Kept s' row :=
    fun row hrow => hmove.kept (h.registered row hrow)
  cases hmove with
  | still users next admins registered =>
    refine ⟨?_,?_,?_,registered ▸ h.distinct,registered ▸ hkept⟩
    · rw [users]
      exact fun row hrow => (h.keys row hrow).trans_le next
    · rw [users,admins]
      exact h.admins
    · rw [users,admins]
      exact h.named
  | joined added grows role admins registered =>
    refine ⟨h.keys_grow grows,fun row hrow => ?_,admins ▸ h.named_grow grows,?_,?_⟩
    · rw [admins]
      rw [grows.rows] at hrow
      rcases List.mem_append.mp hrow with hold | hnew
      · exact h.admins row hold
      · obtain rfl := List.mem_singleton.mp hnew
        exact iff_of_false (by simp [role]) (h.new_not_named grows)
    · rcases registered with heq | heq <;> rw [heq]
      · exact h.distinct
      · exact h.distinct_concat grows.id
    · rcases registered with heq | heq <;> rw [heq]
      · exact hkept
      · refine List.forall_mem_append.mpr ⟨hkept,List.forall_mem_singleton.mpr ?_⟩
        exact ⟨added,grows.rows ▸ List.mem_append_right _ List.mem_cons_self,.refl added⟩
  | appointed added grows role admins registered =>
    refine ⟨h.keys_grow grows,fun row hrow => ?_,?_,registered ▸ h.distinct,registered ▸ hkept⟩
    · rw [admins,List.mem_append,List.mem_singleton]
      rw [grows.rows] at hrow
      rcases List.mem_append.mp hrow with hold | hnew
      · rw [h.admins row hold,or_iff_left (grows.admits.email row hold)]
      · obtain rfl := List.mem_singleton.mp hnew
        exact iff_of_true role (Or.inr rfl)
    · rw [admins]
      refine List.forall_mem_append.mpr ⟨h.named_grow grows,List.forall_mem_singleton.mpr ?_⟩
      exact ⟨added,grows.rows ▸ List.mem_append_right _ List.mem_cons_self,rfl⟩
  | promoted email passwordHash old hold hemail users next admins registered =>
    have hmember (row : UserRecord) (hrow : row∈s.users.rows) :
        UserTable.promoted email passwordHash row∈s'.users.rows :=
      users ▸ List.mem_map_of_mem hrow
    refine ⟨fun row hrow => ?_,fun row hrow => ?_,?_,registered ▸ h.distinct,registered ▸ hkept⟩
    · rw [users] at hrow
      obtain ⟨before,hbefore,rfl⟩ := List.mem_map.mp hrow
      rw [(UserTable.promoted_identity email passwordHash before).1]
      exact (h.keys before hbefore).trans_le next
    · rw [users] at hrow
      obtain ⟨before,hbefore,rfl⟩ := List.mem_map.mp hrow
      rw [UserTable.promoted_role,(UserTable.promoted_identity email passwordHash before).2.1,
        admins,List.mem_append,List.mem_singleton,h.admins before hbefore]
    · rw [admins]
      refine List.forall_mem_append.mpr ⟨fun other hother => ?_,List.forall_mem_singleton.mpr ?_⟩
      · obtain ⟨row,hrow,heq⟩ := h.named other hother
        exact ⟨_,hmember row hrow,
          (UserTable.promoted_identity email passwordHash row).2.1.trans heq⟩
      · exact ⟨_,hmember old hold,
          (UserTable.promoted_identity email passwordHash old).2.1.trans hemail⟩

/-- At its start the API knows the admins of the table. -/
theorem accountsSound_start (m : Migrated) : AccountsSound (AuthState.start m) where
  keys := m.fresh
  admins := by
    intro row hrow
    constructor
    · intro hadmin
      exact List.mem_map_of_mem (List.mem_filter.mpr ⟨hrow,decide_eq_true hadmin⟩)
    · intro hmem
      obtain ⟨other,hother,heq⟩ := List.mem_map.mp hmem
      obtain ⟨hmember,hadmin⟩ := List.mem_filter.mp hother
      have hsame : other=row := List.inj_on_of_nodup_map m.users.emails hmember hrow heq
      exact hsame ▸ of_decide_eq_true hadmin
  named := by
    intro email hemail
    obtain ⟨row,hrow,heq⟩ := List.mem_map.mp hemail
    exact ⟨row,List.mem_of_mem_filter hrow,heq⟩
  distinct := List.nodup_nil
  registered := List.forall_mem_nil _

/-- Over every run, with any registrations under way at once: exactly the
accounts that an operator has named are admins, every registration that has
succeeded has an account of its own, no two of them an address, and the account
keeps its address and its codes. -/
theorem accounts_run (cfg : AuthConfig) (crypto : Crypto) (m : Migrated) (events : List Event) :
    let s := run (authStep cfg crypto) (AuthState.start m) events
    (∀ row∈s.users.rows, row.role=.admin ↔ row.email∈s.adminEmails) ∧
    ((registeredRows s).map UserRecord.id).Nodup ∧
    ((registeredRows s).map UserRecord.email).Nodup ∧
    ∀ row∈registeredRows s, ∃ now, s.users.findId row.id=some now ∧ SameAccount row now := by
  intro s
  have h : AccountsSound s := run_invariant AccountsSound
    (fun s e h (_ : True) => h.step (authStep_move s e)) (accountsSound_start m)
    fun _ _ => trivial
  refine ⟨h.admins,h.distinct,?_,fun row hrow => ?_⟩
  · refine (List.nodup_map_iff_inj_on (h.distinct.of_map _)).mpr
      fun first hfirst second hsecond he => ?_
    obtain ⟨one,hone,hsame⟩ := h.registered first hfirst
    obtain ⟨two,htwo,hother⟩ := h.registered second hsecond
    have hrows : one=two := List.inj_on_of_nodup_map s.users.emails hone htwo
      (hsame.2.1.trans (he.trans hother.2.1.symm))
    exact List.inj_on_of_nodup_map h.distinct hfirst hsecond
      (hsame.1.symm.trans ((congrArg UserRecord.id hrows).trans hother.1))
  · obtain ⟨now,hnow,hsame⟩ := h.registered row hrow
    exact ⟨now,hsame.1 ▸ UserTable.findId_of_mem hnow,hsame⟩

end Invariants

section Tokens

variable {cfg : AuthConfig} {crypto : Crypto} {s s' : AuthState}

/-- What holds of every token that was issued. -/
structure TokensSound (cfg : AuthConfig) (crypto : Crypto) (s : AuthState) : Prop where
  /-- It is signed with the secret. -/
  signed : ∀ x∈s.issued, x.token=crypto.encode cfg.jwtSecret x.claims
  /-- It was made out for its row. -/
  claims : ∀ x∈s.issued, x.claims=claimsFor cfg x.claims.iat x.row
  /-- It was issued before. -/
  past : ∀ x∈s.issued, x.claims.iat ≤ s.now
  /-- Its account is kept. -/
  kept : ∀ x∈s.issued, Kept s x.row

/-- What a step can do to the tokens. -/
inductive Issue (cfg : AuthConfig) (crypto : Crypto) (s s' : AuthState) : Prop where
  /-- None is issued. -/
  | none (issued : s'.issued=s.issued) (now : s.now ≤ s'.now)
  /-- One is issued for an account. -/
  | one (token : Issued) (row : UserRecord) (made : issueToken cfg crypto s.now row=some token)
    (hrow : row∈s'.users.rows) (issued : s'.issued=s.issued++[token]) (now : s'.now=s.now)

/-- A stored registration is issued a token if there is a secret. -/
theorem welcome_issue (cfg : AuthConfig) (crypto : Crypto) (s : AuthState) (i client : ℕ)
    {row : UserRecord} (hrow : row∈s.users.rows) :
    Issue cfg crypto s (s.welcome cfg crypto i client row) := by
  rw [AuthState.welcome]
  cases htoken : issueToken cfg crypto s.now row with
  | none => exact .none rfl le_rfl
  | some token => exact .one token row htoken hrow rfl rfl

/-- Every step issues one token or none. -/
theorem authStep_issue (s : AuthState) (e : Event) :
    Issue cfg crypto s (authStep cfg crypto s e) := by
  cases e with
  | tick seconds => exact .none rfl (Nat.le_add_right _ _)
  | registerStart client email password =>
    rw [authStep,registerStart]
    split
    · exact .none rfl le_rfl
    · split <;> exact .none rfl le_rfl
  | registerInsert i salt inviteCode dohToken =>
    rw [authStep,registerInsert]
    cases s.signups[i]? with
    | none => exact .none rfl le_rfl
    | some signup =>
      dsimp only
      cases crypto.hashpw signup.password salt with
      | none => exact .none rfl le_rfl
      | some hash =>
        dsimp only
        generalize hrow :
          (⟨s.nextUserId,signup.email,hash,.user,inviteCode,dohToken⟩ : UserRecord)=row
        cases hinsert : s.users.insertUser row with
        | violation => exact .none rfl le_rfl
        | stored users =>
          have hrows := (UserTable.insertUser_stored hinsert).1
          have hissue := welcome_issue cfg crypto
            {s with nextUserId := s.nextUserId+1, users := users} i signup.client
            (hrows ▸ List.mem_append_right _ List.mem_cons_self : row∈users.rows)
          cases hissue with
          | none issued now => exact .none issued now
          | one token made row hrow issued now => exact .one token made row hrow issued now
        | ignored =>
          dsimp only
          split <;> exact .none rfl le_rfl
  | login email password =>
    rw [authStep,login]
    cases htoken : (loginRow crypto s email password).bind (issueToken cfg crypto s.now) with
    | none => exact .none rfl le_rfl
    | some token =>
      obtain ⟨row,hrow,hmade⟩ := Option.bind_eq_some_iff.mp htoken
      have hfound := (Option.filter_eq_some_iff.mp hrow).1
      exact .one token row hmade (UserTable.findEmail_eq_some hfound).1 rfl rfl
  | createAdmin email passwordHash inviteCode dohToken =>
    rw [authStep,createAdmin]
    dsimp only
    split <;> exact .none rfl le_rfl

/-- Every step keeps what holds of the tokens. -/
theorem TokensSound.step (h : TokensSound cfg crypto s) (hmove : Move s s')
    (hissue : Issue cfg crypto s s') : TokensSound cfg crypto s' := by
  have hkept : ∀ x∈s.issued, Kept s' x.row := fun x hx => hmove.kept (h.kept x hx)
  cases hissue with
  | none issued now =>
    refine ⟨issued ▸ h.signed,issued ▸ h.claims,?_,issued ▸ hkept⟩
    rw [issued]
    exact fun x hx => (h.past x hx).trans now
  | one token row made hrow issued now =>
    rw [issueToken] at made
    split at made
    · cases made
    · obtain rfl := Option.some.inj made
      refine ⟨?_,?_,?_,?_⟩ <;> rw [issued]
      · exact List.forall_mem_append.mpr ⟨h.signed,List.forall_mem_singleton.mpr rfl⟩
      · exact List.forall_mem_append.mpr ⟨h.claims,List.forall_mem_singleton.mpr rfl⟩
      · rw [now]
        exact List.forall_mem_append.mpr ⟨h.past,List.forall_mem_singleton.mpr le_rfl⟩
      · exact List.forall_mem_append.mpr
          ⟨hkept,List.forall_mem_singleton.mpr ⟨row,hrow,.refl row⟩⟩

/-- At its start the API has issued nothing. -/
theorem tokensSound_start (m : Migrated) : TokensSound cfg crypto (AuthState.start m) :=
  ⟨List.forall_mem_nil _,List.forall_mem_nil _,List.forall_mem_nil _,List.forall_mem_nil _⟩

/-- A token that was issued is taken until it expires, for its account as it is
now. -/
theorem TokensSound.accepts (h : TokensSound cfg crypto s) (hsigns : crypto.Signs) {x : Issued}
    (hx : x∈s.issued) {request : SessionRequest} (htoken : request.token=some x.token) :
    (x.claims.iat+cfg.jwtTtlHours*3600 ≤ s.now ∧
      currentPrincipal cfg crypto s request=.error .sessionExpired) ∨
    (s.now<x.claims.iat+cfg.jwtTtlHours*3600 ∧ ∃ now, s.users.findId x.row.id=some now ∧
      SameAccount x.row now ∧ currentPrincipal cfg crypto s request=.ok (principalOf now)) := by
  have hclaims := h.claims x hx
  have hexp : x.claims.exp=x.claims.iat+cfg.jwtTtlHours*3600 := by
    rw [hclaims]
    rfl
  have hsub : x.claims.sub=x.row.id := by
    rw [hclaims]
    rfl
  have hdecode := hsigns.decode_encode cfg.jwtSecret s.now x.claims (h.past x hx)
  rw [hexp,←h.signed x hx] at hdecode
  rw [currentPrincipal,htoken]
  dsimp only
  by_cases hover : x.claims.iat+cfg.jwtTtlHours*3600 ≤ s.now
  · rw [hdecode,if_pos hover]
    exact Or.inl ⟨hover,rfl⟩
  · obtain ⟨now,hnow,hsame⟩ := h.kept x hx
    have hfind : s.users.findId x.row.id=some now := hsame.1 ▸ UserTable.findId_of_mem hnow
    refine Or.inr ⟨Nat.lt_of_not_le hover,now,hfind,hsame,?_⟩
    rw [hdecode,if_neg hover]
    dsimp only
    rw [hsub,hfind]

/-- Whoever acts for an account shows a token that decodes. -/
theorem currentPrincipal_ok {request : SessionRequest} {who : Principal}
    (h : currentPrincipal cfg crypto s request=.ok who) :
    ∃ token claims row, request.token=some token ∧
      crypto.decode cfg.jwtSecret s.now token=.ok claims ∧
      s.users.findId claims.sub=some row ∧ who=principalOf row := by
  rw [currentPrincipal] at h
  cases htoken : request.token with
  | none =>
    rw [htoken] at h
    cases h
  | some token =>
    rw [htoken] at h
    dsimp only at h
    cases hdecode : crypto.decode cfg.jwtSecret s.now token with
    | error e =>
      rw [hdecode] at h
      cases e <;> cases h
    | ok claims =>
      rw [hdecode] at h
      dsimp only at h
      cases hfind : s.users.findId claims.sub with
      | none =>
        rw [hfind] at h
        cases h
      | some row =>
        rw [hfind] at h
        exact ⟨token,claims,row,rfl,hdecode,hfind,(Except.ok.inj h).symm⟩

/-- An admin is a principal with that role. -/
theorem currentAdmin_ok {request : SessionRequest} {who : Principal} :
    currentAdmin cfg crypto s request=.ok who ↔
      currentPrincipal cfg crypto s request=.ok who ∧ who.role=.admin := by
  rw [currentAdmin]
  cases currentPrincipal cfg crypto s request with
  | error e => exact iff_of_false (fun h => nomatch h) fun h => nomatch h.1
  | ok other =>
    change (if other.role=.admin then Except.ok other
      else Except.error Refusal.adminOnly)=.ok who ↔ _
    split
    · rename_i hrole
      refine ⟨fun heq => ⟨heq,?_⟩,And.left⟩
      exact Except.ok.inj heq ▸ hrole
    · rename_i hrole
      refine iff_of_false (fun heq => nomatch heq) fun hand => hrole ?_
      exact (Except.ok.inj hand.1).symm ▸ hand.2

/-- Over every run, a request acts for an account exactly as long as one of the
tokens that were issued for it is valid: a client whose token, if it decodes at
all, decodes to claims that were issued acts for the account of these, less than
their lifetime after it; and a token that was issued is taken until then, for
the account as it is. The token's own role is not looked at: an admin is whom an
operator has named by now, also with a token from before. -/
theorem sessions_run (cfg : AuthConfig) (crypto : Crypto) (hsigns : crypto.Signs) (m : Migrated)
    (events : List Event) :
    let s := run (authStep cfg crypto) (AuthState.start m) events
    (∀ request who, currentPrincipal cfg crypto s request=.ok who →
      (∀ token claims, request.token=some token →
        crypto.decode cfg.jwtSecret s.now token=.ok claims → ∃ x∈s.issued, x.claims=claims) →
      ∃ x∈s.issued, x.row.id=who.id ∧ x.row.email=who.email ∧ x.claims.iat ≤ s.now ∧
        s.now<x.claims.iat+cfg.jwtTtlHours*3600) ∧
    (∀ x∈s.issued, ∀ request, request.token=some x.token →
      (x.claims.iat+cfg.jwtTtlHours*3600 ≤ s.now ∧
        currentPrincipal cfg crypto s request=.error .sessionExpired) ∨
      (s.now<x.claims.iat+cfg.jwtTtlHours*3600 ∧ ∃ now, s.users.findId x.row.id=some now ∧
        SameAccount x.row now ∧ currentPrincipal cfg crypto s request=.ok (principalOf now))) ∧
    ∀ request who, currentAdmin cfg crypto s request=.ok who ↔
      currentPrincipal cfg crypto s request=.ok who ∧ who.email∈s.adminEmails := by
  intro s
  obtain ⟨haccounts,htokens⟩ : AccountsSound s ∧ TokensSound cfg crypto s := run_invariant
    (fun s => AccountsSound s ∧ TokensSound cfg crypto s)
    (fun s e h (_ : True) => ⟨h.1.step (authStep_move s e),
      h.2.step (authStep_move s e) (authStep_issue s e)⟩)
    ⟨accountsSound_start m,tokensSound_start m⟩ fun _ _ => trivial
  refine ⟨fun request who hwho hgiven => ?_,fun x hx request => htokens.accepts hsigns hx,
    fun request who => ?_⟩
  · obtain ⟨token,claims,row,htoken,hdecode,hfind,rfl⟩ := currentPrincipal_ok hwho
    obtain ⟨x,hx,rfl⟩ := hgiven token claims htoken hdecode
    have hclaims := htokens.claims x hx
    have hlive := (hsigns.timely _ _ _ _ hdecode).2
    rw [hclaims] at hfind hlive
    obtain ⟨now,hnow,hsame⟩ := htokens.kept x hx
    have hrow : s.users.findId x.row.id=some now := hsame.1 ▸ UserTable.findId_of_mem hnow
    obtain rfl : row=now := Option.some.inj (hfind.symm.trans hrow)
    exact ⟨x,hx,hsame.1.symm,hsame.2.1.symm,htokens.past x hx,hlive⟩
  · rw [currentAdmin_ok]
    refine and_congr_right fun hwho => ?_
    obtain ⟨token,claims,row,-,-,hfind,rfl⟩ := currentPrincipal_ok hwho
    exact haccounts.admins row (UserTable.findId_eq_some hfind).1

end Tokens

section Samples

/-- A number and a dot. -/
def dotted (n : ℕ) : Text := Nat.toDigits 10 n++['.']

/-- The number in front of a text, and the text behind its dot. -/
def readDotted (s : Text) : ℕ×Text :=
  (Nat.ofDigitChars 10 (s.takeWhile Char.isDigit) 0,(s.dropWhile Char.isDigit).drop 1)

/-- What was written in front is read. -/
theorem readDotted_append (n : ℕ) (s : Text) : readDotted (dotted n++s)=(n,s) := by
  have hall : ∀ c∈Nat.toDigits 10 n, c.isDigit=true :=
    fun c hc => Nat.isDigit_of_mem_toDigits (by decide) (by decide) hc
  have hdot : ('.' : Char).isDigit=false := by decide
  rw [readDotted,dotted,List.append_assoc,List.takeWhile_append_of_pos hall,
    List.dropWhile_append_of_pos hall,List.singleton_append,
    List.takeWhile_cons_of_neg (by simp [hdot]),List.dropWhile_cons_of_neg (by simp [hdot]),
    List.append_nil,Nat.ofDigitChars_ten_toDigits]
  rfl

/-- A token that bears its secret in front of its claims. -/
def sampleEncode (secret : Text) (claims : Claims) : Text :=
  secret++(dotted claims.sub++(dotted claims.iat++(dotted claims.exp++
    ((if claims.role=.admin then 'a' else 'u')::claims.email))))

/-- The claims of such a token behind its secret. -/
def sampleClaims (s : Text) : Option Claims :=
  let (sub,s) := readDotted s
  let (iat,s) := readDotted s
  let (exp,s) := readDotted s
  match s with
  | 'a'::email => some ⟨sub,email,.admin,iat,exp⟩
  | 'u'::email => some ⟨sub,email,.user,iat,exp⟩
  | _ => none

/-- The claims that were written are read. -/
theorem sampleClaims_encode (secret : Text) (claims : Claims) :
    sampleClaims ((sampleEncode secret claims).drop secret.length)=some claims := by
  obtain ⟨sub,email,role,iat,exp⟩ := claims
  rw [sampleEncode,List.drop_left,sampleClaims]
  simp only [readDotted_append]
  cases role <;> rfl

/-- Such tokens, and passwords that are kept as they are. -/
def sampleCrypto : Crypto where
  encode := sampleEncode
  decode := fun secret now token =>
    match sampleClaims (token.drop secret.length) with
    | none => .error .invalid
    | some claims =>
      if token=sampleEncode secret claims ∧ claims.iat ≤ now then
        if claims.exp≤now then .error .expired else .ok claims
      else .error .invalid
  hashpw := fun password _ => some password
  checkpw := fun password hash => some (password=hash)

/-- They are signed. -/
theorem sampleCrypto_signs : sampleCrypto.Signs where
  decode_encode := by
    intro secret now claims hpast
    simp only [sampleCrypto,sampleClaims_encode,hpast,and_true,if_true]
  timely := by
    intro secret now token claims h
    simp only [sampleCrypto] at h
    split at h
    · cases h
    · split at h
      · rename_i hsigned
        split at h
        · cases h
        · rename_i hlive
          cases h
          exact ⟨hsigned.2,Nat.lt_of_not_le hlive⟩
      · cases h

/-- A registration and an hour. -/
def sampleEvents : List Event :=
  [.registerStart 1 "A@b.cd".toList "correct horse".toList,
    .registerInsert 0 0 "A4B9XK7Q".toList "token".toList,.tick 3600]

/-- No accounts. -/
def noAccounts : Migrated := ⟨.empty,1,List.forall_mem_nil _⟩

/-- A secret, and sessions of half a day. -/
def sampleAuth : AuthConfig := ⟨"secret".toList,12⟩

/-- The API behind them. -/
def sampleState : AuthState :=
  run (authStep sampleAuth sampleCrypto) (AuthState.start noAccounts) sampleEvents

/-- The token of the registration is taken after an hour. -/
theorem sessions_run_registered :
    sampleState.issued≠[] ∧ ∀ x∈sampleState.issued, ∃ now,
      currentPrincipal sampleAuth sampleCrypto sampleState ⟨some x.token,[]⟩=
        .ok (principalOf now) ∧ SameAccount x.row now := by
  have hlive : sampleState.issued≠[] ∧ ∀ x∈sampleState.issued,
      sampleState.now<x.claims.iat+12*3600 ∧
        SessionRequest.token ⟨some x.token,[]⟩=some x.token := by decide +kernel
  have hrun := sessions_run sampleAuth sampleCrypto sampleCrypto_signs noAccounts sampleEvents
  refine ⟨hlive.1,fun x hx => ?_⟩
  obtain ⟨hnow,htoken⟩ := hlive.2 x hx
  rcases hrun.2.1 x hx ⟨some x.token,[]⟩ htoken with ⟨hover,-⟩ | ⟨-,now,-,hsame,hprincipal⟩
  · exact absurd hover (Nat.not_le.mpr hnow)
  · exact ⟨now,hprincipal,hsame⟩

end Samples

end ScamLens.Sessions
