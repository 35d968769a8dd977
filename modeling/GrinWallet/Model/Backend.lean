import GrinWallet.Model.Slate
import Mathlib.Data.Char

/-! # The wallet backend

The database tables, the batch operations on them, and the wallet instance that
owns them together with the active account and the files of stored transactions.
A wallet computation runs in an environment: the seed's keychain, the consensus
rules, and what the outside answers at each successive question (the node, the
random generator, the clock). A batch is a pure function on the tables, applied
as a whole or not at all.
-/

namespace GrinWallet

open Effect OrderedTable

/-! ## The database -/

/-- A log row: the account it was saved for, and the record. -/
abbrev TxLogRow (E : Type) := Identifier × TxLogEntry E

def TxLogRow.key {E : Type} (r : TxLogRow E) : DbKey := txLogKey r.1 r.2.id

/-- The tables of the wallet database. -/
structure Store (E : Type) where
  outputs : Table (OutputData.key (E := E))
  txLog : Table (TxLogRow.key (E := E))
  /-- Private contexts, secrets masked. -/
  contexts : Uuid → Option (Context E)
  /-- The next child index of each account, 0 when absent. -/
  childIndex : Identifier → Nat
  /-- The next log id of each account, 0 when absent. -/
  txLogId : Identifier → Nat
  confirmedHeight : Identifier → Nat
  acctPaths : Table AcctPathMapping.label
  lastScannedBlock : Option ScannedBlockInfo
  initStatus : Option WalletInitStatus

/-- XOR the two private keys of a context with the keys derived for its slate. -/
def Context.mask {E : Type} (c : Context E) (keys : SecretKey × SecretKey) : Context E :=
  { c with secKey := c.secKey ^^^ keys.1, secNonce := c.secNonce ^^^ keys.2 }

/-- The default account, `m/0/0`. -/
def defaultPath : Identifier := .deriveKeyId 2 0 0 0 0

namespace Store

variable {F E : Type}

/-- The tables of a new wallet: only the default account. -/
def fresh : Store E where
  outputs := .empty
  txLog := .empty
  contexts := fun _ => none
  childIndex := fun _ => 0
  txLogId := fun _ => 0
  confirmedHeight := fun _ => 0
  acctPaths := (Table.empty).put ⟨"default".toList, defaultPath⟩
  lastScannedBlock := none
  initStatus := none

/-- Iterate over all output records. -/
def iter (s : Store E) : List (OutputData E) := s.outputs.rows

def get (s : Store E) (id : Identifier) (mmrIndex : Option Nat) : Except Error (OutputData E) :=
  match s.outputs.find (outputKey id mmrIndex) with
  | some o => .ok o
  | none => .error (.NotFound "Key Id")

/-- Add or update an output record. -/
def save (s : Store E) (o : OutputData E) : Store E := { s with outputs := s.outputs.put o }

def delete (s : Store E) (id : Identifier) (mmrIndex : Option Nat) : Store E :=
  { s with outputs := s.outputs.erase (outputKey id mmrIndex) }

/-- Save an output as locked. -/
def lockOutput (s : Store E) (o : OutputData E) : Store E := s.save o.lock

/-- Iterate over all log records. -/
def txLogIter (s : Store E) : List (TxLogEntry E) := s.txLog.rows.map Prod.snd

/-- Save a log record for an account, under that account and the record's id. -/
def saveTxLogEntry (s : Store E) (t : TxLogEntry E) (parentId : Identifier) : Store E :=
  { s with txLog := s.txLog.put (parentId, t) }

/-- Take the next log id of an account. -/
def nextTxLogId (s : Store E) (parentId : Identifier) : Nat × Store E :=
  (s.txLogId parentId,
    { s with txLogId := Function.update s.txLogId parentId (u32 (s.txLogId parentId + 1)) })

def saveChildIndex (s : Store E) (parentId : Identifier) (child : Nat) : Store E :=
  { s with childIndex := Function.update s.childIndex parentId child }

def saveLastConfirmedHeight (s : Store E) (parentId : Identifier) (height : Nat) : Store E :=
  { s with confirmedHeight := Function.update s.confirmedHeight parentId height }

def saveLastScannedBlock (s : Store E) (info : ScannedBlockInfo) : Store E :=
  { s with lastScannedBlock := some info }

def saveInitStatus (s : Store E) (status : WalletInitStatus) : Store E :=
  { s with initStatus := some status }

def saveAcctPath (s : Store E) (mapping : AcctPathMapping) : Store E :=
  { s with acctPaths := s.acctPaths.put mapping }

def getAcctPath (s : Store E) (label : Label) : Option AcctPathMapping := s.acctPaths.find label

/-- Save a context under its slate, the two private keys masked. -/
def savePrivateContext (s : Store E) (K : Keychain F E) (slateId : Uuid) (c : Context E) :
    Store E :=
  { s with
    contexts := Function.update s.contexts slateId (some (c.mask (K.privateCtxXorKeys slateId))) }

def deletePrivateContext (s : Store E) (slateId : Uuid) : Store E :=
  { s with contexts := Function.update s.contexts slateId none }

/-- Read a context back, unmasked. -/
def getPrivateContext (s : Store E) (K : Keychain F E) (slateId : Uuid) :
    Except Error (Context E) :=
  match s.contexts slateId with
  | some c => .ok (c.mask (K.privateCtxXorKeys slateId))
  | none => .error (.NotFound "Slate id")

end Store

theorem Context.mask_mask {E : Type} (c : Context E) (keys : SecretKey × SecretKey) :
    (c.mask keys).mask keys = c := by
  simp only [Context.mask, BitVec.xor_assoc, BitVec.xor_self, BitVec.xor_zero]

/-- Reading a saved context back gives the context that was saved. -/
theorem Store.getPrivateContext_savePrivateContext {F E : Type} (s : Store E) (K : Keychain F E)
    (slateId : Uuid) (c : Context E) :
    (s.savePrivateContext K slateId c).getPrivateContext K slateId = .ok c := by
  simp [Store.getPrivateContext, Store.savePrivateContext, Context.mask_mask]

/-! ## The environment -/

/-- One output of the node's UTXO set. -/
structure ChainOutput (E : Type) where
  commit : E
  proof : RangeProof
  isCoinbase : Bool
  height : Nat
  mmrIndex : Nat
deriving DecidableEq

/-- The node as one call sees it. -/
structure NodeClient (F E : Type) where
  getChainTip : Except Error (Nat × String)
  /-- The height and PMMR index of a kernel within a height range, if it is on chain. -/
  getKernel : E → Option Nat → Option Nat → Except Error (Option (Nat × Nat))
  /-- The height and PMMR index of each of the given commitments that is unspent. -/
  getOutputsFromNode : List E → Except Error (E → Option (Nat × Nat))
  /-- Highest index, last index retrieved, and the unspent outputs in between. -/
  getOutputsByPmmrIndex : Nat → Option Nat → Nat → Except Error (Nat × Nat × List (ChainOutput E))
  heightRangeToPmmrIndices : Nat → Option Nat → Except Error (Nat × Nat)
  postTx : Transaction F E → Bool → Except Error Unit

/-- An iteration order of a hash map: some permutation of its entries. -/
structure IterOrder (α : Type) where
  apply : List α → List α
  perm : ∀ l, (apply l).Perm l

/-- What an output map keeps of each output: its key, its log id, and whether it was unspent. -/
abbrev WalletOutput (E : Type) := E × Identifier × Option Nat × Option Nat × Bool

/-- What a wallet runs in. The fields over `Nat` give the answer to the question
asked at each tick. -/
structure Env (F E : Type) where
  keychain : Keychain F E
  consensus : Consensus F E
  node : Nat → NodeClient F E
  /-- The secret key and the secret nonce a new context draws. -/
  secret : Nat → SecretKey × SecretKey
  uuid : Nat → Uuid
  now : Nat → Nat
  /-- The address prefix of the chain the wallet runs on. -/
  addressHrp : String
  walletOutputOrder : IterOrder (WalletOutput E)
  foundParentOrder : IterOrder (Identifier × Nat)

/-- The open wallet instance; `tick` counts the questions asked of the environment. -/
structure WalletBackend (F E : Type) where
  store : Store E
  /-- The active account. -/
  parentKeyId : Identifier
  /-- The files of stored transactions, by slate. -/
  storedTxs : Uuid → Option (Transaction F E)
  tick : Nat

abbrev WalletM (F E : Type) := Eff (WalletBackend F E) Error

namespace WalletBackend

variable {F E : Type}

/-- A wallet just created. -/
def new : WalletBackend F E := ⟨.fresh, defaultPath, fun _ => none, 0⟩

/-- Put a question to the environment. -/
def ask {α : Type} (answer : Nat → Except Error α) : WalletM F E α := fun w =>
  (answer w.tick, { w with tick := w.tick + 1 })

/-- Apply a batch to the tables and commit it. -/
def batch {α : Type} (f : Store E → Except Error (α × Store E)) : WalletM F E α :=
  Eff.transact fun w =>
    match f w.store with
    | .ok (a, s) => .ok (a, { w with store := s })
    | .error e => .error e

theorem batch_eq_ok {α : Type} {f : Store E → Except Error (α × Store E)} {a : α}
    {w w' : WalletBackend F E} :
    batch f w = (.ok a, w') ↔ ∃ s, f w.store = .ok (a, s) ∧ w' = { w with store := s } := by
  rw [batch, Eff.transact_eq_ok]
  cases f w.store with
  | error e => simp
  | ok r =>
      obtain ⟨b, s⟩ := r
      simp only [Except.ok.injEq, Prod.mk.injEq]
      constructor
      · rintro ⟨rfl, rfl⟩
        exact ⟨s, ⟨rfl, rfl⟩, rfl⟩
      · rintro ⟨s', ⟨rfl, rfl⟩, rfl⟩
        exact ⟨rfl, rfl⟩

/-- Commit a batch that cannot fail. -/
def commit (f : Store E → Store E) : WalletM F E Unit := Eff.modify fun w =>
  { w with store := f w.store }

def getChainTip (env : Env F E) : WalletM F E (Nat × String) :=
  ask fun t => (env.node t).getChainTip

def freshUuid (env : Env F E) : WalletM F E Uuid := ask fun t => .ok (env.uuid t)

def utcNow (env : Env F E) : WalletM F E Nat := ask fun t => .ok (env.now t)

def setParentKeyId (id : Identifier) : WalletM F E Unit := Eff.modify fun w =>
  { w with parentKeyId := id }

/-- Store a transaction file. -/
def storeTx (slateId : Uuid) (tx : Transaction F E) : WalletM F E Unit := Eff.modify fun w =>
  { w with storedTxs := Function.update w.storedTxs slateId (some tx) }

/-- Take the next child key of the active account. -/
def nextChild : WalletM F E Identifier := do
  let w ← Eff.read
  let parentKeyId := w.parentKeyId
  let derivIdx := w.store.childIndex parentKeyId
  if 4 ≤ parentKeyId.depth then
    throw (.Panic "index out of bounds")
  commit fun s => s.saveChildIndex parentKeyId (u32 (derivIdx + 1))
  return parentKeyId.child derivIdx

/-- The wallet after `nextChild`. -/
def afterNextChild (w : WalletBackend F E) : WalletBackend F E :=
  let store := w.store.saveChildIndex w.parentKeyId (u32 (w.store.childIndex w.parentKeyId + 1))
  { w with store := store }

theorem run_nextChild {w : WalletBackend F E} (h : w.parentKeyId.depth < 4) :
    nextChild w = (.ok (w.parentKeyId.child (w.store.childIndex w.parentKeyId)),
      afterNextChild w) := by
  have hn : ¬ 4 ≤ w.parentKeyId.depth := by omega
  simp [nextChild, Eff.run_bind, Eff.run_map, hn, commit, afterNextChild]

theorem run_nextChild_deep {w : WalletBackend F E} (h : 4 ≤ w.parentKeyId.depth) :
    nextChild w = (.error (.Panic "index out of bounds"), w) := by
  simp [nextChild, Eff.run_bind, h]

/-- A new context over a fresh secret key and nonce. -/
def newContext (env : Env F E) (parentKeyId : Identifier) : WalletM F E (Context E) := do
  let (secKey, secNonce) ← ask fun t => .ok (env.secret t)
  return .withExcess secKey secNonce parentKeyId

/-- The account an optional name selects, the active one when it names none. -/
def accountOrActive (name : Option Label) : WalletM F E Identifier := do
  let w ← Eff.read
  match name with
  | some d =>
      match w.store.getAcctPath d with
      | some p => return p.path
      | none => return w.parentKeyId
  | none => return w.parentKeyId

end WalletBackend

end GrinWallet
