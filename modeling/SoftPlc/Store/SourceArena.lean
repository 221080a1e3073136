import SoftPlc.Bytecode.Image
import SoftPlc.Store.Basic

/-!
The arena of source texts: one buffer in which each program owns at most one region. A new
text goes into the first gap that holds it, the program's old region counting as free; where
only all gaps together are large enough the regions are moved down first. A text that does
not fit changes nothing.
-/
set_option autoImplicit false

namespace SoftPlc

structure Region where
  offset : Nat
  size : Nat
deriving DecidableEq, Repr

def Region.stop (r : Region) : Nat := r.offset + r.size

namespace SourceArena

def capacity : Nat := 8000

end SourceArena

structure SourceArena where
  buffer : Bytes := List.replicate SourceArena.capacity 0
  regions : Slots (Option Region) := Vector.replicate slotCount none
deriving DecidableEq

namespace SourceArena

instance : Inhabited SourceArena := ⟨{}⟩

abbrev Owned := Nat × Region

def insertOwned (o : Owned) : List Owned → List Owned
  | [] => [o]
  | p :: rest =>
    if p.2.offset ≤ o.2.offset then p :: insertOwned o rest else o :: p :: rest

def byAddress (owned : List Owned) : List Owned :=
  owned.foldl (fun sorted o => insertOwned o sorted) []

def others (a : SourceArena) (skip : Option Nat) : List Owned :=
  byAddress (a.regions.filledExcept skip)

def gapsFrom (cursor : Nat) : List Owned → List (Nat × Nat)
  | [] => if cursor < capacity then [(cursor, capacity - cursor)] else []
  | (_, r) :: rest =>
    let later := gapsFrom (max cursor r.stop) rest
    if cursor < r.offset then (cursor, r.offset - cursor) :: later else later

def gaps (a : SourceArena) : List (Nat × Nat) := gapsFrom 0 (a.others none)

def occupied (owned : List Owned) : Nat := owned.foldr (fun o rest => o.2.size + rest) 0

def used (a : SourceArena) : Nat := occupied (a.regions.filledExcept none)

def free (a : SourceArena) : Nat := capacity - a.used

def largestGap (a : SourceArena) : Nat := (a.gaps.map (·.2)).foldl max 0

def slice (buffer : Bytes) (r : Region) : Bytes := (buffer.drop r.offset).take r.size

def overwrite (buffer : Bytes) (offset : Nat) (bytes : Bytes) : Bytes :=
  buffer.take offset ++ bytes ++ buffer.drop (offset + bytes.length)

def moveDown (cursor : Nat) (a : SourceArena) : List Owned → SourceArena
  | [] => a
  | (id, r) :: rest =>
    let moved : SourceArena :=
      { buffer := overwrite a.buffer cursor (slice a.buffer r)
        regions := a.regions.setIfInBounds id (some ⟨cursor, r.size⟩) }
    moveDown (cursor + r.size) moved rest

def compact (a : SourceArena) : SourceArena := moveDown 0 a (a.others none)

def release (a : SourceArena) (id : Nat) : SourceArena :=
  { a with regions := a.regions.setIfInBounds id none }

def place (a : SourceArena) (id offset : Nat) (bytes : Bytes) : SourceArena :=
  { buffer := overwrite a.buffer offset bytes
    regions := a.regions.setIfInBounds id (some ⟨offset, bytes.length⟩) }

def upload (a : SourceArena) (id : Nat) (bytes : Bytes) : Answer SourceArena Unit :=
  if slotCount ≤ id then (.error (.invalidId id), a)
  else if bytes.isEmpty then (.ok (), a.release id)
  else
    let available := capacity - occupied (a.others (some id))
    if available < bytes.length then
      (.error (.because .poolFull
        ("NEED " ++ toString bytes.length ++ " BYTES, " ++ toString available ++ " FREE")), a)
    else
      let a := a.release id
      match a.gaps.find? (bytes.length ≤ ·.2) with
      | some (start, _) => (.ok (), a.place id start bytes)
      | none =>
        let a := a.compact
        (.ok (), a.place id a.used bytes)

def region? (a : SourceArena) (id : Nat) : Option Region := a.regions.find? id

def source? (a : SourceArena) (id : Nat) : Option Bytes :=
  (a.region? id).map (slice a.buffer)

end SourceArena

end SoftPlc
