import Mathlib

/-! Delta queues: entries in order of their time, each stored with the time since the
entry before it. What is done to the differences is said here of the times. -/
namespace AsdPre.DeltaQueue

variable {α : Type u}

/-- The times of the entries, the first difference counted from `base`. -/
def times (base : Nat) : List (Nat × α) → List (Nat × α)
  | [] => []
  | (delta, a) :: rest => (base + delta, a) :: times (base + delta) rest

/-- A new entry goes behind those that are not later. -/
def insert (delta : Nat) (a : α) : List (Nat × α) → List (Nat × α)
  | [] => [(delta, a)]
  | (first, b) :: rest =>
    if first ≤ delta then (first, b) :: insert (delta - first) a rest
    else (delta, a) :: (first - delta, b) :: rest

/-- All entries later by as much. -/
def later (delay : Nat) (entries : List (Nat × α)) : List (Nat × α) :=
  entries.map fun e => (e.1 + delay, e.2)

@[simp] theorem times_nil (base : Nat) : times base ([] : List (Nat × α)) = [] := rfl

@[simp] theorem times_cons (base delta : Nat) (a : α) (rest : List (Nat × α)) :
    times base ((delta, a) :: rest) = (base + delta, a) :: times (base + delta) rest := rfl

@[simp] theorem later_zero (entries : List (Nat × α)) : later 0 entries = entries := by simp [later]

theorem mem_later {delay t : Nat} {a : α} {entries : List (Nat × α)} :
    (t, a) ∈ later delay entries ↔ ∃ u, (u, a) ∈ entries ∧ t = u + delay := by
  simp only [later, List.mem_map, Prod.mk.injEq, Prod.exists]
  constructor
  · rintro ⟨u, b, member, rfl, rfl⟩
    exact ⟨u, member, rfl⟩
  · rintro ⟨u, member, rfl⟩
    exact ⟨u, a, member, rfl, rfl⟩

theorem snd_later (delay : Nat) (entries : List (Nat × α)) :
    (later delay entries).map Prod.snd = entries.map Prod.snd := by simp [later]

theorem snd_times (base : Nat) (q : List (Nat × α)) : (times base q).map Prod.snd = q.map Prod.snd := by
  induction q generalizing base with
  | nil => rfl
  | cons e rest ih => simp [times, ih]

theorem times_add (base delay : Nat) (q : List (Nat × α)) :
    times (base + delay) q = later delay (times base q) := by
  induction q generalizing base with
  | nil => rfl
  | cons e rest ih =>
    simp only [times, Nat.add_right_comm base delay e.1, ih]
    rfl

/-- The first entry is the earliest. -/
theorem base_le_of_mem {base t : Nat} {a : α} {q : List (Nat × α)} (member : (t, a) ∈ times base q) :
    base ≤ t := by
  induction q generalizing base with
  | nil => cases member
  | cons e rest ih =>
    rcases List.mem_cons.mp member with here | there
    · simp only [Prod.mk.injEq] at here
      omega
    · have after := ih there
      omega

/-- An entry put in behind those not later has the time it is meant to have, and no
other entry moves. -/
theorem times_insert (base delta : Nat) (a : α) (q : List (Nat × α)) :
    (times base (insert delta a q)).Perm ((base + delta, a) :: times base q) := by
  induction q generalizing base delta with
  | nil => exact .refl _
  | cons e rest ih =>
    rw [insert]
    split
    · next before =>
      have inner := ih (base + e.1) (delta - e.1)
      rw [show base + e.1 + (delta - e.1) = base + delta by omega] at inner
      exact (inner.cons _).trans (.swap _ _ _)
    · next behind =>
      simp only [times_cons]
      rw [show base + delta + (e.1 - delta) = base + e.1 by omega]
      exact .refl _

end AsdPre.DeltaQueue
