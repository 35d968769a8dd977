import GrinWallet.Lib.Json
import GrinWallet.Model.Slatepack

/-! # Stored contexts

The context of a transaction as it is written to the database: compact JSON behind its
length. The JSON forms of keys, identifiers, fees and commitments are those of the
node's crates, and so are the reader's limit and the parser of JSON texts.
-/

namespace GrinWallet

open Effect Wire Json

/-- How the values of a type of another crate are written as JSON and read back, in no more
than `limit` bytes. -/
structure JsonCodec (α : Type) (limit : Nat) where
  Valid : α → Prop
  write : α → Value
  read : Value → Option α
  read_write : ∀ a, Valid a → read (write a) = some a
  write_ne_null : ∀ a, write a ≠ .null
  size_le : ∀ a, Valid a → size (write a) ≤ limit

/-- What storing contexts takes from other crates. Identifiers are 17 bytes in hexadecimal. -/
structure ContextEnv (F E : Type) extends SlatepackEnv F E where
  identifier : JsonCodec Identifier 36
  secretKey : JsonCodec SecretKey 256
  feeFields : JsonCodec FeeFields 256
  pedersenCommitment : JsonCodec E 256
  /-- Addresses are ASCII texts. -/
  bech32_ascii : ∀ hrp data s, bech32Encode hrp data = some s → ∀ b ∈ s, b.toNat < 128
  /-- The parser of JSON texts. -/
  parse : Bytes → Option Value

/-- Maximum private transaction context size. -/
def MAX_CONTEXT_SIZE : Nat := 4 * 1024 * 1024

/-- The weight of a block on mainnet, less that of a coinbase output and kernel. -/
def MAINNET_MAX_TX_WEIGHT : Nat := 40000 - weightByIok 0 1 1

/-! ## Values -/

namespace SlatepackAddress

variable {F E : Type}

def toJson (N : ContextEnv F E) (a : SlatepackAddress) : Except SerError Value :=
  match a.encoded N.toSlatepackEnv with
  | .ok s => .ok (.string (s.map fun b => Char.ofNat b.toNat))
  | .error _ => .error .CorruptedData

def fromJson (N : ContextEnv F E) (v : Value) : Option SlatepackAddress :=
  v.readString.bind fun s => (tryFrom N.toSlatepackEnv (utf8 s)).toOption

end SlatepackAddress

namespace InitTxSendArgs

def toJson (args : InitTxSendArgs) : Value :=
  .object [
    ("dest", .string args.dest),
    ("post_tx", .bool args.postTx),
    ("fluff", .bool args.fluff),
    ("skip_tor", Json.option .bool args.skipTor)]

def fromJson (v : Value) : Option InitTxSendArgs := do
  let dest ← (v.member "dest").bind (·.readString)
  let postTx ← (v.member "post_tx").bind (·.readBool)
  let fluff ← (v.member "fluff").bind (·.readBool)
  let skipTor ← v.optional "skip_tor" (·.readBool)
  return { dest, postTx, fluff, skipTor }

end InitTxSendArgs

namespace InitTxArgs

variable {F E : Type}

/-- Amounts, confirmations and blocks are strings of digits. -/
def toJson (N : ContextEnv F E) (args : InitTxArgs) : Except SerError Value := do
  let address ← args.paymentProofRecipientAddress.mapM (·.toJson N)
  return .object [
    ("src_acct_name", Json.option .string args.srcAcctName),
    ("amount", decimal args.amount),
    ("amount_includes_fee", Json.option .bool args.amountIncludesFee),
    ("minimum_confirmations", decimal args.minimumConfirmations),
    ("max_outputs", .number args.maxOutputs),
    ("num_change_outputs", .number args.numChangeOutputs),
    ("selection_strategy_is_use_all", .bool args.selectionStrategyIsUseAll),
    ("refresh_outputs_from_node", .bool args.refreshOutputsFromNode),
    ("target_slate_version", Json.option .number args.targetSlateVersion),
    ("ttl_blocks", Json.option decimal args.ttlBlocks),
    ("payment_proof_recipient_address", Json.option id address),
    ("estimate_only", Json.option .bool args.estimateOnly),
    ("late_lock", Json.option .bool args.lateLock),
    ("send_args", Json.option InitTxSendArgs.toJson args.sendArgs)]

def fromJson (N : ContextEnv F E) (v : Value) : Option InitTxArgs := do
  let srcAcctName ← v.optional "src_acct_name" (·.readString)
  let amount ← (v.member "amount").bind (·.readDecimal (2 ^ 64))
  let amountIncludesFee ← v.optional "amount_includes_fee" (·.readBool)
  let minimumConfirmations ← (v.member "minimum_confirmations").bind (·.readDecimal (2 ^ 64))
  let maxOutputs ← (v.member "max_outputs").bind (·.readNumber (2 ^ 32))
  let numChangeOutputs ← (v.member "num_change_outputs").bind (·.readNumber (2 ^ 32))
  let selectionStrategyIsUseAll ← (v.member "selection_strategy_is_use_all").bind (·.readBool)
  let refreshOutputsFromNode ←
    ((v.member "refresh_outputs_from_node").getD (.bool true)).readBool
  let targetSlateVersion ← v.optional "target_slate_version" (·.readNumber (2 ^ 16))
  let ttlBlocks ← v.optional "ttl_blocks" (·.readDecimal (2 ^ 64))
  let paymentProofRecipientAddress ←
    v.optional "payment_proof_recipient_address" (SlatepackAddress.fromJson N)
  let estimateOnly ← v.optional "estimate_only" (·.readBool)
  let lateLock ← v.optional "late_lock" (·.readBool)
  let sendArgs ← v.optional "send_args" InitTxSendArgs.fromJson
  return {
    srcAcctName, amount, amountIncludesFee, minimumConfirmations, maxOutputs, numChangeOutputs,
    selectionStrategyIsUseAll, refreshOutputsFromNode, targetSlateVersion, ttlBlocks,
    paymentProofRecipientAddress, estimateOnly, lateLock, sendArgs }

end InitTxArgs

namespace Context

variable {F E : Type}

/-- An output or input of the context: its identifier, its mmr index if known, its amount. -/
def entryToJson (N : ContextEnv F E) (entry : Identifier × Option Nat × Nat) : Value :=
  .array [N.identifier.write entry.1, Json.option .number entry.2.1, .number entry.2.2]

def entryFromJson (N : ContextEnv F E) : Value → Option (Identifier × Option Nat × Nat)
  | .array [keyId, mmrIndex, amount] => do
      let keyId ← N.identifier.read keyId
      let mmrIndex ← match mmrIndex with
        | .null => some none
        | v => (v.readNumber (2 ^ 64)).map some
      let amount ← amount.readNumber (2 ^ 64)
      return (keyId, mmrIndex, amount)
  | _ => none

def entriesFromJson (N : ContextEnv F E) : Value → Option (List (Identifier × Option Nat × Nat))
  | .array entries => entries.mapM (entryFromJson N)
  | _ => none

def toJson (N : ContextEnv F E) (c : Context E) : Except SerError Value := do
  let lateLockArgs ← c.lateLockArgs.mapM (·.toJson N)
  return .object [
    ("parent_key_id", N.identifier.write c.parentKeyId),
    ("sec_key", N.secretKey.write c.secKey),
    ("sec_nonce", N.secretKey.write c.secNonce),
    ("initial_sec_key", N.secretKey.write c.initialSecKey),
    ("initial_sec_nonce", N.secretKey.write c.initialSecNonce),
    ("output_ids", .array (c.outputIds.map (entryToJson N))),
    ("input_ids", .array (c.inputIds.map (entryToJson N))),
    ("amount", .number c.amount),
    ("fee", Json.option N.feeFields.write c.fee),
    ("payment_proof_derivation_index", Json.option .number c.paymentProofDerivationIndex),
    ("late_lock_args", Json.option id lateLockArgs),
    ("calculated_excess", Json.option N.pedersenCommitment.write c.calculatedExcess)]

def fromJson (N : ContextEnv F E) (v : Value) : Option (Context E) := do
  let parentKeyId ← (v.member "parent_key_id").bind N.identifier.read
  let secKey ← (v.member "sec_key").bind N.secretKey.read
  let secNonce ← (v.member "sec_nonce").bind N.secretKey.read
  let initialSecKey ← (v.member "initial_sec_key").bind N.secretKey.read
  let initialSecNonce ← (v.member "initial_sec_nonce").bind N.secretKey.read
  let outputIds ← (v.member "output_ids").bind (entriesFromJson N)
  let inputIds ← (v.member "input_ids").bind (entriesFromJson N)
  let amount ← (v.member "amount").bind (·.readNumber (2 ^ 64))
  let fee ← v.optional "fee" N.feeFields.read
  let paymentProofDerivationIndex ←
    v.optional "payment_proof_derivation_index" (·.readNumber (2 ^ 32))
  let lateLockArgs ← v.optional "late_lock_args" (InitTxArgs.fromJson N)
  let calculatedExcess ← v.optional "calculated_excess" N.pedersenCommitment.read
  return {
    parentKeyId, secKey, secNonce, initialSecKey, initialSecNonce, outputIds, inputIds, amount,
    fee, paymentProofDerivationIndex, lateLockArgs, calculatedExcess }

/-! ## Writing and reading -/

def write (N : ContextEnv F E) (c : Context E) : Except SerError Bytes := do
  let data ← (c.toJson N).map render
  if data.length > MAX_CONTEXT_SIZE then .error .TooLargeReadErr
  else .ok (Ser.u64.write data.length ++ data)

end Context

/-- A reader of bytes, with what it allows one read to take. -/
structure BytesReader where
  readLimit : Option Nat
  readFixedBytes : Nat → Reader SerError Bytes

/-- The loop that reads `len` bytes, no more than `limit` at a time. -/
def readChunks (R : BytesReader) (limit : Nat) (hlimit : 0 < limit) (len : Nat) (data : Bytes) :
    Reader SerError Bytes :=
  if _hlen : len = 0 then pure data
  else do
    let readSize := min len limit
    let readData ← R.readFixedBytes readSize
    readChunks R limit hlimit (len - readSize) (data ++ readData)
termination_by len
decreasing_by omega

def readBytesLenPrefix (R : BytesReader) : Reader SerError Bytes := do
  let len ← Ser.u64.read
  if len > MAX_CONTEXT_SIZE then throw .TooLargeReadErr
  else
    match R.readLimit with
    | none => R.readFixedBytes len
    | some 0 => R.readFixedBytes len
    | some (limit + 1) => readChunks R (limit + 1) (Nat.succ_pos limit) len []

def Context.read {F E : Type} (N : ContextEnv F E) (R : BytesReader) : Reader SerError (Context E) := do
  let data ← readBytesLenPrefix R
  match (N.parse data).bind (Context.fromJson N) with
  | some c => return c
  | none => throw .CorruptedData

end GrinWallet
