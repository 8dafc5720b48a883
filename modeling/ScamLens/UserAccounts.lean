import Mathlib.Data.List.Nodup
import ScamLens.PythonText

/-!
# The table of accounts

The table carries the constraints that the database enforces. A registration
inserts a row unless its invite code is taken, and the script of an operator
inserts the row of an admin or makes an admin of the account that has the
address already. Rows are never deleted, and only the script changes one.
-/

namespace ScamLens.UserAccounts

open PythonText

/-- The roles of an account. -/
inductive Role where
  | user
  | admin
  deriving DecidableEq

/-- A row of `users`. -/
structure UserRecord where
  /-- Primary key. -/
  id : ℕ
  /-- Address, in small letters and without white space around it. -/
  email : Text
  /-- Hash of the password. -/
  passwordHash : Text
  /-- Role. -/
  role : Role
  /-- Code by which a guardian invites the user. -/
  inviteCode : Text
  /-- Component of the user's address for encrypted queries. -/
  dohToken : Text
  deriving DecidableEq

/-- The table with its constraints. -/
structure UserTable where
  /-- The rows, oldest first. -/
  rows : List UserRecord
  /-- PRIMARY KEY (id). -/
  ids : (rows.map UserRecord.id).Nodup
  /-- UNIQUE (email). -/
  emails : (rows.map UserRecord.email).Nodup
  /-- UNIQUE (invite_code). -/
  inviteCodes : (rows.map UserRecord.inviteCode).Nodup
  /-- UNIQUE (doh_token). -/
  dohTokens : (rows.map UserRecord.dohToken).Nodup

namespace UserTable

/-- The empty table. -/
def empty : UserTable := ⟨[],List.nodup_nil,List.nodup_nil,List.nodup_nil,List.nodup_nil⟩

/-- The value of a unique column is in no row. -/
def Free {α : Type*} (t : UserTable) (column : UserRecord → α) (value : α) : Prop :=
  ∀ row∈t.rows, column row≠value

instance {α : Type*} [DecidableEq α] (t : UserTable) (column : UserRecord → α) (value : α) :
    Decidable (t.Free column value) := inferInstanceAs (Decidable (∀ row∈t.rows, _))

/-- The row violates no constraint. -/
structure Admits (t : UserTable) (row : UserRecord) : Prop where
  /-- The key is new. -/
  id : t.Free UserRecord.id row.id
  /-- So is the address. -/
  email : t.Free UserRecord.email row.email
  /-- So is the invite code. -/
  inviteCode : t.Free UserRecord.inviteCode row.inviteCode
  /-- So is the token. -/
  dohToken : t.Free UserRecord.dohToken row.dohToken

/-- A free value may stand behind the others of its column. -/
theorem nodup_concat {α : Type*} {t : UserTable} {column : UserRecord → α}
    (h : (t.rows.map column).Nodup) {row : UserRecord} (hfree : t.Free column (column row)) :
    ((t.rows++[row]).map column).Nodup := by
  rw [List.map_append,List.nodup_append]
  refine ⟨h,List.nodup_singleton _,fun value hvalue other hother he => ?_⟩
  obtain ⟨old,hold,rfl⟩ := List.mem_map.mp hvalue
  rw [List.map_singleton,List.mem_singleton] at hother
  exact hfree old hold (he.trans hother)

/-- INSERT of a row that violates no constraint. -/
def insert (t : UserTable) (row : UserRecord) (h : t.Admits row) : UserTable where
  rows := t.rows++[row]
  ids := nodup_concat t.ids h.id
  emails := nodup_concat t.emails h.email
  inviteCodes := nodup_concat t.inviteCodes h.inviteCode
  dohTokens := nodup_concat t.dohTokens h.dohToken

/-- A row behind the DO UPDATE of `create_admin`. -/
def promoted (email passwordHash : Text) (row : UserRecord) : UserRecord :=
  if row.email=email then {row with passwordHash := passwordHash, role := .admin} else row

/-- The update leaves every column alone that is unique. -/
theorem map_promoted {α : Type*} (column : UserRecord → α)
    (hcolumn : ∀ row hash role, column {row with passwordHash := hash, role := role}=column row)
    (email passwordHash : Text) (rows : List UserRecord) :
    (rows.map (promoted email passwordHash)).map column=rows.map column := by
  rw [List.map_map]
  refine List.map_congr_left fun row _ => ?_
  rw [Function.comp_apply,promoted]
  split
  · exact hcolumn row _ _
  · rfl

/-- The DO UPDATE of `create_admin`. -/
def promote (t : UserTable) (email passwordHash : Text) : UserTable where
  rows := t.rows.map (promoted email passwordHash)
  ids := (map_promoted UserRecord.id (fun _ _ _ => rfl) email passwordHash t.rows).symm ▸ t.ids
  emails :=
    (map_promoted UserRecord.email (fun _ _ _ => rfl) email passwordHash t.rows).symm ▸ t.emails
  inviteCodes :=
    (map_promoted UserRecord.inviteCode (fun _ _ _ => rfl) email passwordHash t.rows).symm ▸
      t.inviteCodes
  dohTokens :=
    (map_promoted UserRecord.dohToken (fun _ _ _ => rfl) email passwordHash t.rows).symm ▸
      t.dohTokens

instance (t : UserTable) (row : UserRecord) : Decidable (t.Admits row) :=
  decidable_of_iff (t.Free UserRecord.id row.id ∧ t.Free UserRecord.email row.email ∧
      t.Free UserRecord.inviteCode row.inviteCode ∧ t.Free UserRecord.dohToken row.dohToken)
    ⟨fun h => ⟨h.1,h.2.1,h.2.2.1,h.2.2.2⟩,fun h => ⟨h.id,h.email,h.inviteCode,h.dohToken⟩⟩

/-- How an INSERT ends. -/
inductive Inserted where
  /-- The row is there. -/
  | stored (t : UserTable)
  /-- The conflict that the statement ignores. -/
  | ignored
  /-- Another conflict, which raises. -/
  | violation

/-- The INSERT of `register`, which ignores a conflict of the invite code. -/
def insertUser (t : UserTable) (row : UserRecord) : Inserted :=
  if t.Free UserRecord.inviteCode row.inviteCode then
    if h : t.Admits row then .stored (t.insert row h) else .violation
  else .ignored

/-- The INSERT of `create_admin`, which updates a row with the address. -/
def upsertAdmin (t : UserTable) (row : UserRecord) : Inserted :=
  if t.Free UserRecord.email row.email then
    if h : t.Admits row then .stored (t.insert row h) else .violation
  else .stored (t.promote row.email row.passwordHash)

/-- `fetch_by_email` -/
def findEmail (t : UserTable) (email : Text) : Option UserRecord :=
  t.rows.find? fun row => row.email=strip (lower email)

/-- `fetch_by_id` -/
def findId (t : UserTable) (id : ℕ) : Option UserRecord := t.rows.find? fun row => row.id=id

variable {t : UserTable} {row old : UserRecord}

/-- A registration stores its row behind the others, or nothing. -/
theorem insertUser_stored {t' : UserTable} (h : t.insertUser row=.stored t') :
    t'.rows=t.rows++[row] ∧ t.Admits row := by
  rw [insertUser] at h
  split at h
  · split at h
    · rename_i hadmits
      obtain rfl := Inserted.stored.inj h
      exact ⟨rfl,hadmits⟩
    · cases h
  · cases h

/-- The script stores its row behind the others, or updates the row that has the
address. -/
theorem upsertAdmin_stored {t' : UserTable} (h : t.upsertAdmin row=.stored t') :
    (t'.rows=t.rows++[row] ∧ t.Admits row) ∨
      (t'=t.promote row.email row.passwordHash ∧ ∃ old∈t.rows, old.email=row.email) := by
  rw [upsertAdmin] at h
  split at h
  · split at h
    · rename_i hadmits
      obtain rfl := Inserted.stored.inj h
      exact Or.inl ⟨rfl,hadmits⟩
    · cases h
  · rename_i htaken
    obtain rfl := Inserted.stored.inj h
    rw [Free] at htaken
    push Not at htaken
    exact Or.inr ⟨rfl,htaken⟩

/-- A row with a key is the one that is found for it. -/
theorem findId_of_mem (h : row∈t.rows) : t.findId row.id=some row := by
  rw [findId,List.find?_eq_some_iff_append]
  refine ⟨decide_eq_true rfl,?_⟩
  obtain ⟨before,after,hrows⟩ := List.append_of_mem h
  refine ⟨before,after,hrows,fun other hother => ?_⟩
  have hids := t.ids
  rw [hrows,List.map_append,List.nodup_append] at hids
  rw [Bool.not_eq_true',decide_eq_false_iff_not]
  exact hids.2.2 _ (List.mem_map_of_mem hother) _ (by simp)

/-- What is found for a key is a row with that key. -/
theorem findId_eq_some {id : ℕ} (h : t.findId id=some row) : row∈t.rows ∧ row.id=id := by
  have hkey := List.find?_some h
  exact ⟨List.mem_of_find?_eq_some h,of_decide_eq_true hkey⟩

/-- What is found for an address is a row with that address. -/
theorem findEmail_eq_some {email : Text} (h : t.findEmail email=some row) :
    row∈t.rows ∧ row.email=strip (lower email) := by
  have haddress := List.find?_some h
  exact ⟨List.mem_of_find?_eq_some h,of_decide_eq_true haddress⟩

/-- The script makes an admin of the account, and of no other. -/
theorem promoted_role (email passwordHash : Text) :
    (promoted email passwordHash row).role=.admin ↔ row.role=.admin ∨ row.email=email := by
  rw [promoted]
  split
  · rename_i h
    exact iff_of_true rfl (Or.inr h)
  · rename_i h
    exact ⟨Or.inl,fun hor => hor.resolve_right h⟩

/-- The script leaves the identity of an account alone. -/
theorem promoted_identity (email passwordHash : Text) (row : UserRecord) :
    (promoted email passwordHash row).id=row.id ∧
      (promoted email passwordHash row).email=row.email ∧
      (promoted email passwordHash row).inviteCode=row.inviteCode ∧
      (promoted email passwordHash row).dohToken=row.dohToken := by
  rw [promoted]
  split <;> exact ⟨rfl,rfl,rfl,rfl⟩

end UserTable

end ScamLens.UserAccounts
