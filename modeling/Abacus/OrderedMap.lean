/- # Maps that keep the order of first insertion

A finite map as the list of its entries.  A new key goes to the end; a key that is there already
keeps its place and takes the new value.  Variables, queued lines and the places of a report are
all kept in this way, because their order shows. -/

namespace Abacus
set_option autoImplicit false

/-- Entries in the order in which their keys were first inserted. -/
structure OrderedMap (κ ν : Type) where
  /-- The entries, oldest key first. -/
  entries : List (κ × ν) := []
deriving DecidableEq

namespace OrderedMap

variable {κ ν : Type} [DecidableEq κ]

def empty : OrderedMap κ ν := ⟨[]⟩

/-- Puts a value into a list of entries: in place of the old one, or at the end. -/
def put (key : κ) (value : ν) : List (κ × ν) → List (κ × ν)
  | [] => [(key, value)]
  | entry :: rest =>
    if entry.1 = key then (key, value) :: rest else entry :: put key value rest

def insert (m : OrderedMap κ ν) (key : κ) (value : ν) : OrderedMap κ ν :=
  ⟨put key value m.entries⟩

def find? (m : OrderedMap κ ν) (key : κ) : Option ν :=
  (m.entries.find? fun entry => entry.1 = key).map Prod.snd

def erase (m : OrderedMap κ ν) (key : κ) : OrderedMap κ ν :=
  ⟨m.entries.filter fun entry => entry.1 ≠ key⟩

/-- The keys, oldest first. -/
def keys (m : OrderedMap κ ν) : List κ := m.entries.map Prod.fst

omit [DecidableEq κ] in
/-- The map with the same keys, all bound to one value. -/
def fill (m : OrderedMap κ ν) (value : ν) : OrderedMap κ ν :=
  ⟨m.entries.map fun entry => (entry.1, value)⟩

/-! ## Laws of the view -/

theorem find?_put (key other : κ) (value : ν) (entries : List (κ × ν)) :
    (put key value entries).find? (fun entry => entry.1 = other) =
      if other = key then some (key, value)
      else entries.find? (fun entry => entry.1 = other) := by
  induction entries with
  | nil => by_cases h : key = other <;> simp [put, h, eq_comm]
  | cons entry rest ih =>
    by_cases here : entry.1 = key
    · by_cases h : key = other
      · simp [put, here, h]
      · have : other ≠ key := fun e => h e.symm
        simp [put, here, h, this]
    · by_cases h : entry.1 = other
      · have : other ≠ key := fun e => here (h.trans e)
        simp [put, h, this]
      · simp [put, here, h, ih]

/-- A look-up sees the value put last under its key, and all other keys as before. -/
theorem find?_insert (m : OrderedMap κ ν) (key other : κ) (value : ν) :
    (m.insert key value).find? other = if other = key then some value else m.find? other := by
  unfold find? insert
  rw [find?_put]
  split <;> simp

theorem map_fst_put (key : κ) (value : ν) (entries : List (κ × ν)) :
    (put key value entries).map Prod.fst =
      if key ∈ entries.map Prod.fst then entries.map Prod.fst
      else entries.map Prod.fst ++ [key] := by
  induction entries with
  | nil => simp [put]
  | cons entry rest ih =>
    by_cases here : entry.1 = key
    · simp [put, here]
    · have away : key ≠ entry.1 := fun e => here e.symm
      simp only [put, here, if_false, List.map_cons, ih, List.mem_cons, away, false_or]
      split <;> simp

/-- A new key goes to the end; an old one keeps its place. -/
theorem keys_insert (m : OrderedMap κ ν) (key : κ) (value : ν) :
    (m.insert key value).keys = if key ∈ m.keys then m.keys else m.keys ++ [key] :=
  map_fst_put key value m.entries

end OrderedMap
end Abacus
