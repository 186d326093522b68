import ColossusCoin.Mempool.Pool
import ColossusCoin.Validation.ConnectBlock

/-!
# Finding a transaction, and banned addresses

`GetTransaction` looks a transaction up in the memory pool, in the transaction index
and, when that is off, in the block that the coin database points to.  The scans for
outputs of banned addresses use it to find what the inputs of a transaction spend.
-/

namespace ColossusCoin

/-- Where a node finds transactions besides its memory pool. -/
structure TransactionStore where
  fTxIndex : Bool
  /-- `ReadTxIndex`. -/
  readTxIndex : Uint256 → Option CDiskTxPos
  /-- The transaction at a position on disk, with the hash of its block; `none` where
  the file does not open or does not deserialize. -/
  readTransaction : CDiskTxPos → Option (CTransaction × Uint256)
  pcoinsTip : CCoinsViewCache
  /-- The hash of the block of the active chain at a height. -/
  chainActive : Int → Option Uint256
  readBlockFromDisk : Uint256 → Option CBlock

namespace TransactionStore

/-- The lookup in the block that the coin database points to. -/
def scanBlock (store : TransactionStore) (hash : Uint256) :
    Option (CTransaction × Uint256) :=
  match store.pcoinsTip.accessCoins hash with
  | none => none
  | some coins =>
    if 0 < coins.nHeight then
      match store.chainActive coins.nHeight with
      | none => none
      | some hashBlock =>
        match store.readBlockFromDisk hashBlock with
        | none => none
        | some block =>
          (block.vtx.find? fun tx => tx.hash == hash).map fun tx => (tx, hashBlock)
    else none

/-- `GetTransaction` after the memory pool: the transaction and the hash of its
block. -/
def findTransaction (store : TransactionStore) (hash : Uint256) (fAllowSlow : Bool) :
    Option (CTransaction × Uint256) :=
  if store.fTxIndex then
    match store.readTxIndex hash with
    | none => none
    | some postx =>
      match store.readTransaction postx with
      | none => none
      | some (txOut, hashBlock) => if txOut.hash = hash then some (txOut, hashBlock) else none
  else if fAllowSlow then store.scanBlock hash
  else none

end TransactionStore

/-- `GetTransaction`: the transaction and the hash of its block, which stays zero for
a transaction of the memory pool. -/
def getTransaction (store : TransactionStore) (mempool : CTxMemPool) (hash : Uint256)
    (fAllowSlow : Bool) : Option (CTransaction × Uint256) :=
  match mempool.lookup hash with
  | some tx => some (tx, 0)
  | none => store.findTransaction hash fAllowSlow

/-- The banned addresses of a `CContext`; the second ban is from a height on. -/
structure BanList where
  banAddrMempool : List String
  banAddrConsensus : List (String × Int)

namespace BanList

/-- The bans that the constructor of `CContext` sets up. -/
def initial : BanList where
  banAddrMempool := []
  banAddrConsensus :=
    [ ("DSesymccyAQr6LjGLCHsvHzE41uKMk86XS", 0),
      ("D5cNN2DThi3UUwS1hhedfx1UreXjMuxZPp", 1297585),
      ("DJB3pXt9Xuz7UTwPg4R8YtXB75gpNmkErD", 1297585) ]

/-- `MempoolBanActive()`. -/
def mempoolBanActive (bans : BanList) : Bool :=
  !bans.banAddrMempool.isEmpty

/-- `MempoolBanActive` of an address. -/
def mempoolBanned (bans : BanList) (addr : String) : Bool :=
  bans.banAddrMempool.contains addr

/-- `ConsensusBanActive()`. -/
def consensusBanActive (bans : BanList) : Bool :=
  !bans.banAddrConsensus.isEmpty

/-- `ConsensusBanActive` of an address at a height. -/
def consensusBanned (bans : BanList) (height : Int) (addr : String) : Bool :=
  match bans.banAddrConsensus.lookup addr with
  | none => false
  | some banHeight => banHeight ≤ height

end BanList

/-- How the scans for banned addresses read outputs. -/
structure AddressLib where
  /-- The address that `ExtractDestination` finds, as a string. -/
  extractAddress : CScript → Option String
  /-- The script that a read past the end of the outputs yields; the source does not
  check the position. -/
  pastEnd : CTransaction → Nat → CScript

/-- The output of a transaction at a position belongs to a banned address. -/
def AddressLib.isBanned (lib : AddressLib) (banned : String → Bool)
    (txPrev : CTransaction) (n : Nat) : Bool :=
  (lib.extractAddress (txPrev.vout[n]?.elim (lib.pastEnd txPrev n) CTxOut.scriptPubKey)).any
    banned

/-- The scan for banned addresses over inputs.  An input whose previous transaction is
not found is passed over. -/
def AddressLib.bannedScan (lib : AddressLib) (lookup : Uint256 → Option CTransaction)
    (banned : String → Bool) (txins : List CTxIn) : Bool :=
  txins.any fun txin =>
    (lookup txin.prevout.hash).any fun txPrev => lib.isBanned banned txPrev txin.prevout.n

end ColossusCoin
