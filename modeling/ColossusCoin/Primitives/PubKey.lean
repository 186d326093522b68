import ColossusCoin.Primitives.Script

/-!
# Public keys

`CPubKey` keeps the serialized form of a key; its first byte tells how many bytes there are.
-/

namespace ColossusCoin

/-- `CPubKey`, by the bytes up to its size; an invalid key has none. -/
abbrev CPubKey := List UInt8

namespace CPubKey

/-- `GetLen`: how many bytes a key with this first byte has. -/
def getLen (chHeader : UInt8) : Nat :=
  if chHeader = 2 ∨ chHeader = 3 then 33
  else if chHeader = 4 ∨ chHeader = 6 ∨ chHeader = 7 then 65
  else 0

/-- `Set`: a string of another length than its first byte tells makes the key invalid. -/
def set : List UInt8 → CPubKey
  | [] => []
  | chHeader :: rest =>
    if getLen chHeader = (chHeader :: rest).length then chHeader :: rest else []

def isValid (pubkey : CPubKey) : Bool :=
  !pubkey.isEmpty

/-- A string of the length that its first byte tells is a valid key. -/
theorem set_of_getLen
    (sized : getLen chHeader = (chHeader :: rest).length) :
    set (chHeader :: rest) = chHeader :: rest := by
  rw [set, if_pos sized]

end CPubKey

end ColossusCoin
