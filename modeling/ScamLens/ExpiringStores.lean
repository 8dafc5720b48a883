import ScamLens.KeyedTables

/-!
# Key-value stores whose entries expire

An entry carries the second at which it stops being readable. Reads take the
current second, so expiry needs no event of its own. The operations are those
of a string cache: set with a time to live, set only when no live entry holds
the key, and delete.
-/

namespace ScamLens.ExpiringStores

open KeyedTables

variable {κ ν : Type*} [DecidableEq κ]

/-- A stored value and the first second at which it is gone. -/
structure Expiring (ν : Type*) where
  /-- The stored value. -/
  value : ν
  /-- Reads strictly before this second see the value. -/
  deadline : ℕ
  deriving DecidableEq

/-- A finite store of expiring values. -/
abbrev ExpiringStore (κ ν : Type*) := Table κ (Expiring ν)

/-- The live value of a key at the given second. -/
def getLive (store : ExpiringStore κ ν) (now : ℕ) (key : κ) : Option ν :=
  (store.lookup key).bind fun entry => if now<entry.deadline then some entry.value else none

/-- Set a value for the given number of seconds (SET key value EX ttl). -/
def setFor (store : ExpiringStore κ ν) (now ttl : ℕ) (key : κ) (value : ν) : ExpiringStore κ ν :=
  store.insert key ⟨value,now+ttl⟩

/-- Set a value only if no live entry holds the key (SET key value EX ttl NX),
and tell whether the key was claimed. -/
def setIfAbsent (store : ExpiringStore κ ν) (now ttl : ℕ) (key : κ) (value : ν) :
    ExpiringStore κ ν×Bool :=
  if (getLive store now key).isNone then (setFor store now ttl key value,true) else (store,false)

/-- A key is live exactly when it holds an entry whose deadline is ahead. -/
theorem getLive_eq_some {store : ExpiringStore κ ν} {now : ℕ} {key : κ} {value : ν} :
    getLive store now key=some value ↔
      ∃ entry, store.lookup key=some entry ∧ now<entry.deadline ∧ entry.value=value := by
  simp only [getLive,Option.bind_eq_some_iff,Option.ite_none_right_eq_some,Option.some.injEq]

/-- Entries of a store after a conditional set: an old entry, or the new one
at its own key, which was not live. -/
theorem lookup_setIfAbsent {store : ExpiringStore κ ν} {now ttl : ℕ} {key other : κ} {value : ν}
    {entry : Expiring ν} (h : (setIfAbsent store now ttl key value).1.lookup other=some entry) :
    store.lookup other=some entry ∨
      (other=key ∧ getLive store now key=none ∧ entry=⟨value,now+ttl⟩) := by
  unfold setIfAbsent at h
  split at h
  · rename_i hlive
    rw [setFor,lookup_insert_ite] at h
    split at h
    · rename_i he
      exact Or.inr ⟨he,Option.isNone_iff_eq_none.mp hlive,(Option.some.inj h).symm⟩
    · exact Or.inl h
  · exact Or.inl h

section Representation

variable {μ : Type*}

/-- Two stores hold the same keys until the same seconds, the values of one
standing for those of the other. -/
def Represents (R : μ → ν → Prop) (written : ExpiringStore κ μ) (store : ExpiringStore κ ν) :
    Prop :=
  ∀ key, Option.Rel (fun raw entry => raw.deadline=entry.deadline ∧ R raw.value entry.value)
    (written.lookup key) (store.lookup key)

variable {R : μ → ν → Prop} {written : ExpiringStore κ μ} {store : ExpiringStore κ ν}

/-- Empty stores hold the same keys. -/
theorem represents_empty : Represents R (∅ : ExpiringStore κ μ) (∅ : ExpiringStore κ ν) := by
  intro key
  rw [Finmap.lookup_empty,Finmap.lookup_empty]
  exact .none

/-- A set keeps the values of one store standing for those of the other. -/
theorem Represents.setFor {raw : μ} {value : ν} (h : Represents R written store)
    (hvalue : R raw value) (now ttl : ℕ) (key : κ) :
    Represents R (setFor written now ttl key raw) (setFor store now ttl key value) := by
  intro other
  rw [ExpiringStores.setFor,ExpiringStores.setFor,lookup_insert_ite,lookup_insert_ite]
  split
  · exact .some ⟨rfl,hvalue⟩
  · exact h other

/-- So does a deletion. -/
theorem Represents.erase (h : Represents R written store) (key : κ) :
    Represents R (written.erase key) (store.erase key) := by
  intro other
  rw [lookup_erase_ite,lookup_erase_ite]
  split
  · exact .none
  · exact h other

/-- A key is live in both stores or in none. -/
theorem Represents.getLive (h : Represents R written store) (now : ℕ) (key : κ) :
    Option.Rel R (getLive written now key) (getLive store now key) := by
  have hkey := h key
  rw [ExpiringStores.getLive,ExpiringStores.getLive]
  cases hraw : written.lookup key <;> cases hentry : store.lookup key <;> rw [hraw,hentry] at hkey
  · exact .none
  · nomatch hkey
  · nomatch hkey
  · rename_i raw entry
    obtain ⟨hdeadline,hvalue⟩ : raw.deadline=entry.deadline ∧ R raw.value entry.value := by
      cases hkey
      assumption
    simp only [Option.bind_some,hdeadline]
    split
    · exact .some hvalue
    · exact .none

/-- A conditional set claims the key in both stores or in none. -/
theorem Represents.setIfAbsent {raw : μ} {value : ν} (h : Represents R written store)
    (hvalue : R raw value) (now ttl : ℕ) (key : κ) :
    Represents R (setIfAbsent written now ttl key raw).1 (setIfAbsent store now ttl key value).1 ∧
      (ExpiringStores.setIfAbsent written now ttl key raw).2=
        (ExpiringStores.setIfAbsent store now ttl key value).2 := by
  have hlive := h.getLive now key
  rw [ExpiringStores.setIfAbsent,ExpiringStores.setIfAbsent]
  cases hraw : ExpiringStores.getLive written now key <;>
    cases hentry : ExpiringStores.getLive store now key <;> rw [hraw,hentry] at hlive
  · exact ⟨h.setFor hvalue now ttl key,rfl⟩
  · nomatch hlive
  · nomatch hlive
  · exact ⟨h,rfl⟩

end Representation

end ScamLens.ExpiringStores
