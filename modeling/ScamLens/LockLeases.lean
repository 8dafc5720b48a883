import ScamLens.ExpiringStores

/-!
# Locks that expire

A lock is a key that is set only when absent and for a number of seconds, and
that is deleted by a command which does not look at who has set it. The view
of a lock records, next to the stored key, the claim that has set it and the
claims that were granted and are not released. Exclusion then needs one
condition: nobody claims while the lock of an unreleased claim is gone.
-/

namespace ScamLens.LockLeases

open ExpiringStores

variable {ι : Type*}

/-- One lock and the claims it has granted. -/
structure LockView (ι : Type*) where
  /-- The current second. -/
  now : ℕ
  /-- The stored key, if any, with the claim that has set it. -/
  lock : Option (Expiring ι)
  /-- Claims that were granted and are not released. -/
  holders : List ι

/-- The key is there for a reader. -/
def LockView.Live (s : LockView ι) : Prop := ∃ entry, s.lock=some entry ∧ s.now<entry.deadline

instance (s : LockView ι) : Decidable s.Live :=
  match h : s.lock with
  | none => isFalse (fun hl => by
      obtain ⟨entry,he,-⟩ := hl
      rw [h] at he
      cases he)
  | some entry => decidable_of_iff (s.now<entry.deadline)
      ⟨fun hd => ⟨entry,h,hd⟩,fun hl => by
        obtain ⟨other,ho,hd⟩ := hl
        rwa [Option.some.inj (h.symm.trans ho)]⟩

/-- A claim: SET key EX ttl NX. -/
def claim (ttl : ℕ) (s : LockView ι) (id : ι) : LockView ι :=
  if s.Live then s else {s with lock := some ⟨id,s.now+ttl⟩, holders := s.holders++[id]}

/-- A release: DEL key. -/
def release [DecidableEq ι] (s : LockView ι) (id : ι) : LockView ι :=
  {s with lock := none, holders := s.holders.filter (·≠id)}

/-- The passing of time. -/
def wait (s : LockView ι) (seconds : ℕ) : LockView ι := {s with now := s.now+seconds}

/-- At most one claim is held, and a stored key was set by it. -/
structure Sole (s : LockView ι) : Prop where
  /-- There is at most one holder. -/
  atMostOne : s.holders.length≤1
  /-- The key of a holder is its own. -/
  owned : ∀ id∈s.holders, ∀ entry, s.lock=some entry → entry.value=id

/-- A claim finds a live key, or no unreleased claim. -/
def Covered (s : LockView ι) : Prop := s.holders=[] ∨ s.Live

/-- A lock that nobody has claimed is held by nobody. -/
theorem Sole.free {s : LockView ι} (h : s.holders=[]) : Sole s where
  atMostOne := by rw [h]; exact Nat.zero_le 1
  owned := fun id hid => by rw [h] at hid; exact absurd hid List.not_mem_nil

/-- A covered claim keeps the lock with at most one holder. -/
theorem Sole.claim {s : LockView ι} (h : Sole s) (hc : Covered s) (ttl : ℕ) (id : ι) :
    Sole (claim ttl s id) := by
  unfold LockLeases.claim
  split
  · exact h
  · rename_i hlive
    have hempty : s.holders=[] := hc.resolve_right hlive
    refine ⟨?_,fun other ho entry he => ?_⟩
    · rw [hempty]
      exact Nat.le_refl 1
    · rw [hempty,List.nil_append,List.mem_singleton] at ho
      rw [←Option.some.inj he,ho]

/-- A release by the holder leaves nobody. -/
theorem Sole.release [DecidableEq ι] {s : LockView ι} (h : Sole s) (id : ι) :
    Sole (release s id) where
  atMostOne := (List.length_filter_le _ _).trans h.atMostOne
  owned := fun _ _ _ he => by cases he

/-- Time takes a key away, but gives it to nobody. -/
theorem Sole.wait {s : LockView ι} (h : Sole s) (seconds : ℕ) : Sole (wait s seconds) :=
  ⟨h.atMostOne,h.owned⟩

/-- What a holder deletes is its own key. -/
theorem Sole.deletes_own {s : LockView ι} (h : Sole s) {id : ι} (hid : id∈s.holders)
    {entry : Expiring ι} (he : s.lock=some entry) : entry.value=id := h.owned id hid entry he

/-- With a holder whose key is gone, the next claim makes two of them. -/
theorem claim_uncovered {s : LockView ι} (h : ¬Covered s) (ttl : ℕ) (id : ι) :
    2≤(claim ttl s id).holders.length := by
  rw [Covered,not_or] at h
  have hpos : 0 < s.holders.length := List.length_pos_iff.mpr h.1
  rw [LockLeases.claim,if_neg h.2,List.length_append,List.length_singleton]
  omega

end ScamLens.LockLeases
