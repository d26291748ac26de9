import BackendGauntlet.Dict

/-! Registries of rooms: a dictionary of dictionaries without empty rooms. -/
namespace BackendGauntlet

open Dict

abbrev Registry (κ ι β : Type*) := Dict κ (Dict ι β)

namespace Registry

variable {κ ι β : Type*}

def mapRooms (f : κ → Dict ι β → Dict ι β) (r : Registry κ ι β) : Registry κ ι β :=
  (Dict.mapValues f r).filter (fun _ room => !room.isEmpty)

variable [DecidableEq κ]

def room (r : Registry κ ι β) (k : κ) : Dict ι β := (Dict.get r k).getD Dict.empty

def members (r : Registry κ ι β) (k : κ) : List β := (r.room k).entries.map Prod.snd

theorem eq_empty_of_isEmpty {m : Dict ι β} (h : m.isEmpty = true) : m = empty :=
  Dict.ext (List.isEmpty_iff.mp h)

variable (f : κ → Dict ι β → Dict ι β)

theorem room_mapValues (hf : ∀ k, f k empty = empty)
    (r : Registry κ ι β) (k : κ) : room (mapValues f r) k = f k (r.room k) := by
  rw [room, get_mapValues, room]
  cases Dict.get r k with
  | none => exact (hf k).symm
  | some room => rfl

/-- Rooms that are not there count as empty. -/
theorem room_mapRooms (hf : ∀ k, f k empty = empty)
    (r : Registry κ ι β) (k : κ) : (r.mapRooms f).room k = f k (r.room k) := by
  rw [← room_mapValues f hf r k, mapRooms, room, room, Dict.get_filter]
  cases hget : Dict.get (mapValues f r) k with
  | none => rfl
  | some room =>
    cases hempty : room.isEmpty with
    | true =>
      rw [Option.filter_some_neg (by simp [hempty]), eq_empty_of_isEmpty hempty]
      rfl
    | false => rw [Option.filter_some_pos (by simp [hempty])]

variable [DecidableEq ι]

def entry (r : Registry κ ι β) (k : κ) (i : ι) : Option β := (r.room k).get i

def put (r : Registry κ ι β) (k : κ) (i : ι) (v : β) : Registry κ ι β :=
  Dict.set r k ((r.room k).set i v)

def remove (r : Registry κ ι β) (k : κ) (i : ι) : Registry κ ι β :=
  match Dict.get r k with
  | none => r
  | some room =>
    if (room.erase i).isEmpty then Dict.erase r k else Dict.set r k (room.erase i)

def removeAll (r : Registry κ ι β) (i : ι) : Registry κ ι β :=
  r.mapRooms (fun _ room => room.erase i)

variable (r : Registry κ ι β)

theorem room_put (k k' : κ) (i : ι) (v : β) :
    (r.put k i v).room k' = if k' = k then (r.room k).set i v else r.room k' := by
  rw [put, room, get_set]
  split_ifs
  · rfl
  · rfl

theorem room_remove (k k' : κ) (i : ι) :
    (r.remove k i).room k' = if k' = k then (r.room k).erase i else r.room k' := by
  unfold remove
  cases hget : Dict.get r k with
  | none =>
    split_ifs with hk
    · rw [hk, room, hget]
      rfl
    · rfl
  | some rm =>
    have hroom : r.room k = rm := by rw [room, hget, Option.getD_some]
    simp only [hroom]
    by_cases hk : k' = k
    · subst hk
      rw [if_pos rfl]
      split_ifs with hempty
      · rw [room, get_erase_self, eq_empty_of_isEmpty hempty]
        rfl
      · rw [room, get_set_self, Option.getD_some]
    · rw [if_neg hk]
      split_ifs
      · rw [room, get_erase_ne hk, room]
      · rw [room, get_set_ne hk, room]

theorem room_removeAll (k : κ) (i : ι) :
    (r.removeAll i).room k = (r.room k).erase i :=
  room_mapRooms _ (fun _ => erase_eq_self rfl) r k

/-- All that entering a room does. -/
theorem entry_put (k k' : κ) (i i' : ι) (v : β) :
    (r.put k i v).entry k' i' = if k' = k ∧ i' = i then some v else r.entry k' i' := by
  rw [entry, room_put]
  by_cases hk : k' = k
  · subst hk
    rw [if_pos rfl, get_set]
    by_cases hi : i' = i
    · rw [if_pos hi, if_pos ⟨rfl,hi⟩]
    · rw [if_neg hi, if_neg (fun h => hi h.2), entry]
  · rw [if_neg hk, if_neg (fun h => hk h.1), entry]

theorem entry_remove (k k' : κ) (i i' : ι) :
    (r.remove k i).entry k' i' = if k' = k ∧ i' = i then none else r.entry k' i' := by
  rw [entry, room_remove]
  by_cases hk : k' = k
  · subst hk
    rw [if_pos rfl, get_erase]
    by_cases hi : i' = i
    · rw [if_pos hi, if_pos ⟨rfl,hi⟩]
    · rw [if_neg hi, if_neg (fun h => hi h.2), entry]
  · rw [if_neg hk, if_neg (fun h => hk h.1), entry]

/-- Leaving all rooms leaves everyone else where they are. -/
theorem entry_removeAll (k : κ) (i i' : ι) :
    (r.removeAll i).entry k i' = if i' = i then none else r.entry k i' := by
  rw [entry, room_removeAll, get_erase, entry]

end Registry

end BackendGauntlet
