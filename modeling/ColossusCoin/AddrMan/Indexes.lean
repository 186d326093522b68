import ColossusCoin.AddrMan.Manager
import ColossusCoin.Library.BackPointers

/-!
# The indexes of the address manager

The identifiers in random order with the positions that the entries hold, and the identifiers by
address.  Exchanging and deleting keep them, and change nothing else of the entries that stay.
-/

namespace ColossusCoin

open BackPointers

/-- The entry without its position. -/
def CAddrInfo.unplaced (info : CAddrInfo) : CAddrInfo :=
  { info with nRandomPos := none }

namespace CAddrMan

/-- The position that the entry of an identifier holds. -/
def place (man : CAddrMan) (nId : Nat) : Option Nat :=
  (man.mapInfo.get? nId).bind CAddrInfo.nRandomPos

/-- The manager without its random order. -/
def unplaced (man : CAddrMan) : CAddrMan :=
  { man with mapInfo := man.mapInfo.mapValues CAddrInfo.unplaced, vRandom := [] }

/-- The indexes agree with the entries. -/
structure Indexed (man : CAddrMan) : Prop where
  below : ∀ nId info, man.mapInfo.get? nId = some info → nId < man.nIdCount
  placed : Placed man.vRandom man.place
  hasPlace : ∀ nId info, man.mapInfo.get? nId = some info →
    ∃ index, info.nRandomPos = some index
  addressed : ∀ addr nId, man.mapAddr addr = some nId ↔
    ∃ info, man.mapInfo.get? nId = some info ∧ info.service.addr = addr

variable {man other : CAddrMan} {nId : Nat} {info : CAddrInfo}

theorem place_of_found
    (found : man.mapInfo.get? nId = some info) :
    man.place nId = info.nRandomPos := by
  rw [place, found, Option.bind_some]

theorem place_setInfo (man : CAddrMan) (nId : Nat) (info : CAddrInfo) :
    (man.setInfo nId info).place = Function.update man.place nId info.nRandomPos := by
  funext wanted
  rw [place, setInfo, SortedMap.get?_insert]
  by_cases here : wanted = nId
  · subst here
    rw [if_pos rfl, Function.update_self, Option.bind_some]
  · rw [if_neg here, Function.update_of_ne here, place]

theorem get?_unplaced (man : CAddrMan) (nId : Nat) :
    man.unplaced.mapInfo.get? nId = (man.mapInfo.get? nId).map CAddrInfo.unplaced :=
  SortedMap.get?_mapValues _ _ _

/-- What an identifier has in one manager it has in the other, up to the position. -/
theorem found_of_unplaced
    (same : other.unplaced.mapInfo = man.unplaced.mapInfo)
    (found : man.mapInfo.get? nId = some info) :
    ∃ moved, other.mapInfo.get? nId = some moved ∧ moved.unplaced = info.unplaced := by
  have whole : (other.mapInfo.get? nId).map CAddrInfo.unplaced = some info.unplaced := by
    rw [← get?_unplaced, same, get?_unplaced, found, Option.map_some]
  exact Option.map_eq_some_iff.mp whole

/-- Giving an entry another position shows nowhere else. -/
theorem unplaced_setInfo
    (found : man.mapInfo.get? nId = some old)
    (same : info.unplaced = old.unplaced) :
    (man.mapInfo.insert nId info).mapValues CAddrInfo.unplaced =
      man.mapInfo.mapValues CAddrInfo.unplaced := by
  apply SortedMap.eq_of_get?
  intro wanted
  rw [SortedMap.get?_mapValues, SortedMap.get?_mapValues, SortedMap.get?_insert]
  by_cases here : wanted = nId
  · rw [if_pos here, here, found, Option.map_some, Option.map_some, same]
  · rw [if_neg here]

namespace Indexed

theorem empty (nKey : BitVec 256) : (empty nKey).Indexed where
  below := fun _ _ found => nomatch found
  placed := Placed.nil
  hasPlace := fun _ _ found => nomatch found
  addressed := fun _ _ => ⟨(nomatch ·), fun ⟨_, found, _⟩ => nomatch found⟩

section

variable (indexed : man.Indexed)
include indexed

/-- Only the entries, the order, the addresses and the count of identifiers matter. -/
theorem congr
    (mapInfo : other.mapInfo = man.mapInfo)
    (vRandom : other.vRandom = man.vRandom)
    (mapAddr : other.mapAddr = man.mapAddr)
    (nIdCount : other.nIdCount = man.nIdCount) :
    other.Indexed where
  below := by rw [mapInfo, nIdCount]; exact indexed.below
  placed := by
    have place : other.place = man.place := by
      funext wanted
      rw [CAddrMan.place, mapInfo, CAddrMan.place]
    rw [vRandom, place]
    exact indexed.placed
  hasPlace := by rw [mapInfo]; exact indexed.hasPlace
  addressed := by rw [mapInfo, mapAddr]; exact indexed.addressed

/-- An entry with another one in its place, of the same address and at the same position. -/
theorem setInfo
    (found : man.mapInfo.get? nId = some old)
    (addr : info.service.addr = old.service.addr)
    (position : info.nRandomPos = old.nRandomPos) :
    (man.setInfo nId info).Indexed where
  below := by
    intro wanted other here
    rw [CAddrMan.setInfo, SortedMap.get?_insert] at here
    by_cases same : wanted = nId
    · exact same ▸ indexed.below nId old found
    · rw [if_neg same] at here
      exact indexed.below wanted other here
  placed := by
    have unchanged : Function.update man.place nId info.nRandomPos = man.place := by
      rw [position, ← place_of_found found, Function.update_eq_self]
    rw [place_setInfo, unchanged]
    exact indexed.placed
  hasPlace := by
    intro wanted other here
    rw [CAddrMan.setInfo, SortedMap.get?_insert] at here
    by_cases same : wanted = nId
    · rw [if_pos same] at here
      cases here
      rw [position]
      exact indexed.hasPlace nId old found
    · rw [if_neg same] at here
      exact indexed.hasPlace wanted other here
  addressed := by
    intro wanted other
    rw [CAddrMan.setInfo, SortedMap.get?_insert]
    refine (indexed.addressed wanted other).trans ?_
    by_cases same : other = nId
    · rw [if_pos same, same, found]
      constructor
      · rintro ⟨_, here, rfl⟩
        cases here
        exact ⟨info, rfl, addr⟩
      · rintro ⟨_, here, rfl⟩
        cases here
        exact ⟨old, rfl, addr.symm⟩
    · rw [if_neg same]

/-- An identifier of the order has an entry, which points back. -/
theorem found_of_vRandom
    (here : man.vRandom[index]? = some nId) :
    ∃ info, man.mapInfo.get? nId = some info ∧ info.nRandomPos = some index :=
  Option.bind_eq_some_iff.mp ((indexed.placed nId index).mpr here)

/-- An identifier with an entry stands where its entry says. -/
theorem vRandom_of_found
    (found : man.mapInfo.get? nId = some info) :
    ∃ index, info.nRandomPos = some index ∧ man.vRandom[index]? = some nId := by
  obtain ⟨index, position⟩ := indexed.hasPlace nId info found
  exact ⟨index, position, (indexed.placed nId index).mp ((place_of_found found).trans position)⟩

/-- The order may change where the entries follow it. -/
theorem of_unplaced
    (same : other.unplaced = man.unplaced)
    (placed : Placed other.vRandom other.place)
    (hasPlace : ∀ nId, (∃ index, man.place nId = some index) →
      ∃ index, other.place nId = some index) :
    other.Indexed := by
  have entries : other.unplaced.mapInfo = man.unplaced.mapInfo := congrArg CAddrMan.mapInfo same
  have mapAddr : other.mapAddr = man.mapAddr := (congrArg CAddrMan.mapAddr same :)
  have nIdCount : other.nIdCount = man.nIdCount := (congrArg CAddrMan.nIdCount same :)
  refine ⟨?_, placed, ?_, ?_⟩
  · intro nId info found
    obtain ⟨old, before, -⟩ := found_of_unplaced entries.symm found
    rw [nIdCount]
    exact indexed.below nId old before
  · intro nId info found
    obtain ⟨old, before, -⟩ := found_of_unplaced entries.symm found
    obtain ⟨index, position⟩ := indexed.hasPlace nId old before
    have here := hasPlace nId ⟨index, (place_of_found before).trans position⟩
    rwa [place_of_found found] at here
  · intro addr nId
    rw [mapAddr, indexed.addressed addr nId]
    constructor
    · rintro ⟨old, before, rfl⟩
      obtain ⟨info, found, alike⟩ := found_of_unplaced entries before
      exact ⟨info, found, congrArg (fun info => info.service.addr) alike⟩
    · rintro ⟨info, found, rfl⟩
      obtain ⟨old, before, alike⟩ := found_of_unplaced entries.symm found
      exact ⟨old, before, congrArg (fun info => info.service.addr) alike⟩

theorem swapRandom
    (first : man.vRandom[nRndPos1]? = some nId1)
    (second : man.vRandom[nRndPos2]? = some nId2) :
    ∃ swapped, man.swapRandom nRndPos1 nRndPos2 = some swapped ∧ swapped.Indexed ∧
      swapped.unplaced = man.unplaced ∧ swapped.vRandom.length = man.vRandom.length ∧
      swapped.vRandom[nRndPos2]? = some nId1 := by
  by_cases same : nRndPos1 = nRndPos2
  · exact ⟨man, if_pos same, indexed, rfl, rfl, same ▸ first⟩
  obtain ⟨info1, found1, position1⟩ := indexed.found_of_vRandom first
  obtain ⟨info2, found2, position2⟩ := indexed.found_of_vRandom second
  have apart : nId2 ≠ nId1 := by
    rintro rfl
    exact same (indexed.placed.index_unique first second)
  let moved1 : CAddrInfo := { info1 with nRandomPos := some nRndPos2 }
  let moved2 : CAddrInfo := { info2 with nRandomPos := some nRndPos1 }
  let swapped : CAddrMan := { man with
    mapInfo := (man.mapInfo.insert nId1 moved1).insert nId2 moved2
    vRandom := (man.vRandom.set nRndPos1 nId2).set nRndPos2 nId1 }
  have result : man.swapRandom nRndPos1 nRndPos2 = some swapped := by
    rw [CAddrMan.swapRandom, if_neg same, first, second]
    simp only [Option.bind_eq_bind, Option.bind_some, found1, found2]
    rfl
  have alike : swapped.unplaced = man.unplaced := by
    have found : (man.setInfo nId1 moved1).mapInfo.get? nId2 = some info2 := by
      rw [CAddrMan.setInfo, SortedMap.get?_insert, if_neg apart, found2]
    have inner := @unplaced_setInfo man nId1 moved1 info1 found1 rfl
    have outer := @unplaced_setInfo (man.setInfo nId1 moved1) nId2 moved2 info2 found rfl
    have entries : swapped.mapInfo.mapValues CAddrInfo.unplaced =
        man.mapInfo.mapValues CAddrInfo.unplaced := outer.trans inner
    simp only [unplaced, entries, swapped]
  have places : swapped.place =
      Function.update (Function.update man.place nId1 (some nRndPos2)) nId2 (some nRndPos1) :=
    (place_setInfo (man.setInfo nId1 moved1) nId2 moved2).trans
      (congrArg (Function.update · nId2 (some nRndPos1)) (place_setInfo man nId1 moved1))
  have indexedAfter : swapped.Indexed := by
    refine indexed.of_unplaced alike ?_ ?_
    · rw [places]
      exact indexed.placed.swap first second same
    · intro nId before
      rw [places]
      by_cases isSecond : nId = nId2
      · exact ⟨nRndPos1, by rw [isSecond, Function.update_self]⟩
      · rw [Function.update_of_ne isSecond]
        by_cases isFirst : nId = nId1
        · exact ⟨nRndPos2, by rw [isFirst, Function.update_self]⟩
        · rwa [Function.update_of_ne isFirst]
  have bound := (List.getElem?_eq_some_iff.mp second).1
  refine ⟨swapped, result, indexedAfter, alike, ?_, ?_⟩
  · simp only [swapped, List.length_set]
  · simp only [swapped, List.getElem?_set, if_true, List.length_set, if_pos bound]

/-- Without an entry, its address and its place at the end of the order. -/
theorem erase
    (found : man.mapInfo.get? nId = some info)
    (atEnd : man.vRandom = last ++ [nId]) :
    ({ man with
      mapInfo := man.mapInfo.erase nId
      mapAddr := Function.update man.mapAddr info.service.addr none
      vRandom := last } : CAddrMan).Indexed where
  below := by
    intro wanted other here
    exact indexed.below wanted other (SortedMap.get?_of_erase here)
  placed := by
    have places : ({ man with
        mapInfo := man.mapInfo.erase nId
        mapAddr := Function.update man.mapAddr info.service.addr none
        vRandom := last } : CAddrMan).place = Function.update man.place nId none := by
      funext wanted
      rw [CAddrMan.place, SortedMap.get?_erase]
      by_cases here : wanted = nId
      · rw [if_pos here, here, Function.update_self, Option.bind_none]
      · rw [if_neg here, Function.update_of_ne here, CAddrMan.place]
    rw [places]
    exact (atEnd ▸ indexed.placed).pop
  hasPlace := by
    intro wanted other here
    exact indexed.hasPlace wanted other (SortedMap.get?_of_erase here)
  addressed := by
    intro addr wanted
    dsimp only
    rw [SortedMap.get?_erase]
    by_cases same : addr = info.service.addr
    · rw [same, Function.update_self]
      refine ⟨(nomatch ·), ?_⟩
      rintro ⟨other, here, alike⟩
      split_ifs at here with apart
      have one := (indexed.addressed info.service.addr wanted).mpr ⟨other, here, alike⟩
      have two := (indexed.addressed info.service.addr nId).mpr ⟨info, found, rfl⟩
      exact absurd (Option.some.inj (one.symm.trans two)) apart
    · rw [Function.update_of_ne same, indexed.addressed addr wanted]
      constructor
      · rintro ⟨other, here, rfl⟩
        refine ⟨other, ?_, rfl⟩
        rw [if_neg, here]
        rintro rfl
        rw [found] at here
        cases here
        exact same rfl
      · rintro ⟨other, here, rfl⟩
        split_ifs at here
        exact ⟨other, here, rfl⟩

theorem delete
    (found : man.mapInfo.get? nId = some info)
    (isNew : info.fInTried = false)
    (unreferenced : info.nRefCount = 0) :
    ∃ next, man.delete nId = some next ∧ next.Indexed ∧
      next.unplaced =
        { man.unplaced with
          mapInfo := man.unplaced.mapInfo.erase nId
          mapAddr := Function.update man.mapAddr info.service.addr none
          nNew := man.nNew - 1 } := by
  obtain ⟨index, position, here⟩ := indexed.vRandom_of_found found
  have bound := (List.getElem?_eq_some_iff.mp here).1
  have nonempty : man.vRandom ≠ [] := List.ne_nil_of_length_pos (by omega)
  have last : man.vRandom[man.vRandom.length - 1]? = some (man.vRandom.getLast nonempty) := by
    rw [← List.getLast?_eq_getElem?, List.getLast?_eq_some_getLast nonempty]
  obtain ⟨swapped, result, swappedIndexed, alike, length, atEnd⟩ := indexed.swapRandom here last
  obtain ⟨moved, movedFound, same⟩ := found_of_unplaced (congrArg CAddrMan.mapInfo alike) found
  have addr : info.service.addr = moved.service.addr :=
    (congrArg (fun info => info.service.addr) same).symm
  have split : swapped.vRandom = swapped.vRandom.dropLast ++ [nId] := by
    rw [← length, ← List.getLast?_eq_getElem?] at atEnd
    exact (List.dropLast_append_getLast? nId atEnd).symm
  let next : CAddrMan := { swapped with
    mapInfo := swapped.mapInfo.erase nId
    mapAddr := Function.update swapped.mapAddr info.service.addr none
    vRandom := swapped.vRandom.dropLast
    nNew := swapped.nNew - 1 }
  have nextIndexed : next.Indexed := by
    have erased := swappedIndexed.erase movedFound split
    rw [← addr] at erased
    exact erased.congr rfl rfl rfl rfl
  have nextResult : man.delete nId = some next := by
    have nonemptyBool : man.vRandom.isEmpty = false := List.isEmpty_eq_false_iff.mpr nonempty
    unfold CAddrMan.delete
    simp only [found, Option.bind_eq_bind, Option.bind_some, isNew, unreferenced, nonemptyBool,
      position, result]
    rfl
  have nextUnplaced : next.unplaced =
      { swapped.unplaced with
        mapInfo := swapped.unplaced.mapInfo.erase nId
        mapAddr := Function.update swapped.unplaced.mapAddr info.service.addr none
        nNew := swapped.unplaced.nNew - 1 } := by
    simp only [next, unplaced, SortedMap.mapValues_erase]
  refine ⟨next, nextResult, nextIndexed, ?_⟩
  rw [nextUnplaced, alike]
  rfl

end

/-- No entry has the next identifier. -/
theorem get?_nIdCount
    (indexed : man.Indexed) :
    man.mapInfo.get? man.nIdCount = none := by
  rw [Option.eq_none_iff_forall_ne_some]
  intro info found
  exact Nat.lt_irrefl _ (indexed.below _ info found)

/-- `Create` for an address that is not known. -/
theorem create
    {addr : CAddress}
    (indexed : man.Indexed)
    (unknown : man.mapAddr addr.service.addr = none)
    (addrSource : CNetAddr) :
    (man.create addr addrSource).2.2.Indexed where
  below := by
    intro wanted info here
    rw [CAddrMan.create, SortedMap.get?_insert] at here
    by_cases same : wanted = man.nIdCount
    · exact same ▸ Nat.lt_succ_self _
    · rw [if_neg same] at here
      exact Nat.lt_succ_of_lt (indexed.below wanted info here)
  placed := by
    have fresh : man.place man.nIdCount = none := by
      rw [CAddrMan.place, indexed.get?_nIdCount, Option.bind_none]
    have places : (man.create addr addrSource).2.2.place =
        Function.update man.place man.nIdCount (some man.vRandom.length) :=
      place_setInfo man man.nIdCount (man.create addr addrSource).2.1
    rw [places]
    exact indexed.placed.push fresh
  hasPlace := by
    intro wanted info here
    rw [CAddrMan.create, SortedMap.get?_insert] at here
    by_cases same : wanted = man.nIdCount
    · rw [if_pos same] at here
      cases here
      exact ⟨man.vRandom.length, rfl⟩
    · rw [if_neg same] at here
      exact indexed.hasPlace wanted info here
  addressed := by
    intro wanted nId
    dsimp only [CAddrMan.create]
    rw [SortedMap.get?_insert]
    by_cases isNew : nId = man.nIdCount
    · rw [if_pos isNew, isNew]
      by_cases same : wanted = addr.service.addr
      · rw [same, Function.update_self]
        exact ⟨fun _ => ⟨_, rfl, rfl⟩, fun _ => rfl⟩
      · rw [Function.update_of_ne same, indexed.addressed wanted man.nIdCount,
          indexed.get?_nIdCount]
        constructor
        · rintro ⟨info, here, -⟩
          cases here
        · rintro ⟨info, here, alike⟩
          cases here
          exact absurd alike.symm same
    · rw [if_neg isNew]
      by_cases same : wanted = addr.service.addr
      · rw [same, Function.update_self, ← indexed.addressed, unknown]
        exact ⟨fun here => absurd (Option.some.inj here).symm isNew, (nomatch ·)⟩
      · rw [Function.update_of_ne same, indexed.addressed wanted nId]

/-- `Find` gives the entry of the address. -/
theorem find_eq_some
    (indexed : man.Indexed)
    (known : man.find addr = some (nId, info)) :
    man.mapInfo.get? nId = some info ∧ info.service.addr = addr := by
  obtain ⟨found, here, rest⟩ := Option.bind_eq_some_iff.mp known
  obtain ⟨entry, there, same⟩ := Option.bind_eq_some_iff.mp rest
  cases same
  obtain ⟨other, again, alike⟩ := (indexed.addressed addr nId).mp here
  rw [there] at again
  cases again
  exact ⟨there, alike⟩

/-- `Find` gives nothing for an address that is not known. -/
theorem find_eq_none
    (indexed : man.Indexed)
    (unknown : man.find addr = none) :
    man.mapAddr addr = none := by
  cases here : man.mapAddr addr with
  | none => rfl
  | some nId =>
    obtain ⟨info, found, -⟩ := (indexed.addressed addr nId).mp here
    rw [CAddrMan.find, here, Option.bind_eq_bind, Option.bind_some, found] at unknown
    cases unknown

end Indexed

end CAddrMan

end ColossusCoin
