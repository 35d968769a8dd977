import GrinWallet.Lib.Serde

/-! # The wallet's configuration file

The members of the configuration with the keys they are written under, and how saving
merges the document of a configuration into that of the file before. Documents stand for
the texts they are parsed from and printed to; chain types and the logging section are
the node's.
-/

namespace GrinWallet

open Document

inductive ConfigError
  | SerializationError (reason : String)
deriving DecidableEq

/-- The node's chain types, as they are written under a key. -/
class ChainTypes (C : Type) extends Serde C where
  mainnet : C

/-! ## Members -/

/-- Command-line wallet configuration. -/
structure WalletConfig (C : Type) where
  chainType : Option C
  apiListenPort : UInt16
  ownerApiListenPort : Option UInt16
  apiSecretPath : Option String
  nodeApiSecretPath : Option String
  checkNodeApiHttpAddr : String
  nodeApiRequestTimeoutSecs : Option UInt64
  ownerApiIncludeForeign : Option Bool
  dataFileDir : String
  noCommitCache : Option Bool
  tlsCertificateFile : Option String
  tlsCertificateKey : Option String
  darkBackgroundColorScheme : Option Bool
  acceptFeeBase : Option UInt64

structure TorBridgeConfig where
  bridgeBinPath : Option String
  bridgeLine : Option String
  clientOption : Option String
deriving DecidableEq

structure TorProxyConfig where
  transport : Option String
  address : Option String
  username : Option String
  password : Option String
  allowedPort : Option (List UInt16)
deriving DecidableEq

structure TorConfig where
  useIntegrated : Option Bool
  skipSendAttempt : Option Bool
  useTorListener : Bool
  socksProxyAddr : String
  sendConfigDir : String
  requestTimeoutSecs : Option UInt64
  bootstrapTimeoutSecs : Option UInt64
  bridge : TorBridgeConfig
  proxy : TorProxyConfig
deriving DecidableEq

structure GlobalWalletConfigMembers (C L : Type) where
  configFileVersion : Option UInt32
  wallet : WalletConfig C
  tor : Option TorConfig
  logging : Option L

/-! ## Defaults -/

def WalletConfig.default {C : Type} [ChainTypes C] : WalletConfig C where
  chainType := some ChainTypes.mainnet
  apiListenPort := 3415
  ownerApiListenPort := some 3420
  apiSecretPath := some ".owner_api_secret"
  nodeApiSecretPath := some ".foreign_api_secret"
  checkNodeApiHttpAddr := "http://127.0.0.1:3413"
  nodeApiRequestTimeoutSecs := some 60
  ownerApiIncludeForeign := some false
  dataFileDir := "."
  noCommitCache := some false
  tlsCertificateFile := none
  tlsCertificateKey := none
  darkBackgroundColorScheme := some true
  acceptFeeBase := none

def TorBridgeConfig.default : TorBridgeConfig := ⟨none, none, none⟩

def TorProxyConfig.default : TorProxyConfig := ⟨none, none, none, none, none⟩

/-! ## Keys -/

section Keys

variable {C L : Type} [ChainTypes C] [Serde L]

def WalletConfig.fields (C : Type) [ChainTypes C] :
    Fields (Option C × UInt16 × Option UInt16 × Option String × Option String × String ×
      Option UInt64 × Option Bool × String × Option Bool × Option String × Option String ×
      Option Bool × Option UInt64 × Unit) :=
  .field "chain_type" <|
  .field "api_listen_port" <|
  .field "owner_api_listen_port" <|
  .field "api_secret_path" <|
  .field "node_api_secret_path" <|
  .field "check_node_api_http_addr" <|
  .field "node_api_request_timeout_secs" <|
  .field "owner_api_include_foreign" <|
  .field "data_file_dir" <|
  .field "no_commit_cache" <|
  .field "tls_certificate_file" <|
  .field "tls_certificate_key" <|
  .field "dark_background_color_scheme" <|
  .field "accept_fee_base" .done

instance : Serde (WalletConfig C) :=
  .record (WalletConfig.fields C)
    (fun w => (w.chainType, w.apiListenPort, w.ownerApiListenPort, w.apiSecretPath,
      w.nodeApiSecretPath, w.checkNodeApiHttpAddr, w.nodeApiRequestTimeoutSecs,
      w.ownerApiIncludeForeign, w.dataFileDir, w.noCommitCache, w.tlsCertificateFile,
      w.tlsCertificateKey, w.darkBackgroundColorScheme, w.acceptFeeBase, ()))
    fun (chain, port, ownerPort, secret, nodeSecret, addr, timeout, foreign, dir, cache, cert, key,
        dark, fee, _) =>
      ⟨chain, port, ownerPort, secret, nodeSecret, addr, timeout, foreign, dir, cache, cert, key,
        dark, fee⟩

def TorBridgeConfig.fields : Fields (Option String × Option String × Option String × Unit) :=
  .field "bridge_bin_path" <|
  .field "bridge_line" <|
  .field "client_option" .done

instance : Serde TorBridgeConfig :=
  .record TorBridgeConfig.fields
    (fun b => (b.bridgeBinPath, b.bridgeLine, b.clientOption, ()))
    fun (path, line, option, _) => ⟨path, line, option⟩

def TorProxyConfig.fields :
    Fields (Option String × Option String × Option String × Option String ×
      Option (List UInt16) × Unit) :=
  .field "transport" <|
  .field "address" <|
  .field "username" <|
  .field "password" <|
  .field "allowed_port" .done

instance : Serde TorProxyConfig :=
  .record TorProxyConfig.fields
    (fun p => (p.transport, p.address, p.username, p.password, p.allowedPort, ()))
    fun (transport, address, username, password, ports, _) =>
      ⟨transport, address, username, password, ports⟩

def TorConfig.fields :
    Fields (Option Bool × Option Bool × Bool × String × String × Option UInt64 × Option UInt64 ×
      TorBridgeConfig × TorProxyConfig × Unit) :=
  .field "use_integrated" <|
  .field "skip_send_attempt" <|
  .field "use_tor_listener" <|
  .field "socks_proxy_addr" <|
  .field "send_config_dir" <|
  .field "request_timeout_secs" <|
  .field "bootstrap_timeout_secs" <|
  .fieldOr "bridge" (.ok .default) <|
  .fieldOr "proxy" (.ok .default) .done

instance : Serde TorConfig :=
  .record TorConfig.fields
    (fun t => (t.useIntegrated, t.skipSendAttempt, t.useTorListener, t.socksProxyAddr,
      t.sendConfigDir, t.requestTimeoutSecs, t.bootstrapTimeoutSecs, t.bridge, t.proxy, ()))
    fun (integrated, skip, listener, addr, dir, timeout, bootstrap, bridge, proxy, _) =>
      ⟨integrated, skip, listener, addr, dir, timeout, bootstrap, bridge, proxy⟩

def GlobalWalletConfigMembers.fields (C L : Type) [ChainTypes C] [Serde L] :
    Fields (Option UInt32 × WalletConfig C × Option TorConfig × Option L × Unit) :=
  .field "config_file_version" <|
  .fieldOr "wallet" (.ok .default) <|
  .field "tor" <|
  .field "logging" .done

instance : Serde (GlobalWalletConfigMembers C L) :=
  .record (GlobalWalletConfigMembers.fields C L)
    (fun m => (m.configFileVersion, m.wallet, m.tor, m.logging, ()))
    fun (version, wallet, tor, logging, _) => ⟨version, wallet, tor, logging⟩

end Keys

/-! ## Merging -/

namespace GlobalWalletConfig

/-- Remove the keys that are known and not in the new table. -/
def removeUnset (known : Option Entries) (new current : Entries) : Entries :=
  match known with
  | none => current
  | some known =>
      (known.names.filter fun key => (new.get key).isNone).foldl (fun es key => es.remove key) current

def itemPath (path key : String) : String :=
  if path.isEmpty then key else path ++ "." ++ key

mutual

/-- Merge the entries of a new table into the current ones, one after the other. -/
def updateEach (replaceLoggingComments : Bool) (known : Option Entries) (path : String) :
    Entries → Entries → Entries
  | .nil, current => current
  | .cons key newItem rest, current =>
      match current.get key.name with
      | some currentItem =>
          updateEach replaceLoggingComments known path rest
            (current.set key.name
              (updateItem replaceLoggingComments (known.bind (·.get key.name))
                (itemPath path key.name) newItem currentItem))
      | none =>
          updateEach replaceLoggingComments known path rest (current.push key newItem)

/-- Two tables are merged; anything else is replaced as a whole, and a value that replaces
a value keeps the text around it. -/
def updateItem (replaceLoggingComments : Bool) (known : Option Item) (path : String) :
    Item → Item → Item
  | .table new _ newDecor, .table current dotted decor =>
      .table
        (updateEach replaceLoggingComments (known.bind Item.asTable) path new
          (removeUnset (known.bind Item.asTable) new current))
        dotted
        (if replaceLoggingComments ∧ path = "logging" then newDecor else decor)
  | new, current =>
      match current.valueDecor with
      | some decor => new.withValueDecor decor
      | none => new

end

def update (replaceLoggingComments : Bool) (known : Option Entries) (path : String)
    (new current : Entries) : Entries :=
  updateEach replaceLoggingComments known path new (removeUnset known new current)

variable {C L : Type} [ChainTypes C] [Serde L]

/-- The document of a configuration. -/
def serConfig (members : GlobalWalletConfigMembers C L) : Entries :=
  match Serde.serialize members with
  | some item => item.asTable.getD .nil
  | none => .nil

variable (C L)

/-- Merge a new document into an old one. What the old document sets is known from reading
it as a configuration and writing that again. -/
def mergeConfig (oldConfig newConfig : Entries) (oldVersion : Option UInt32) :
    Except ConfigError Entries := do
  let knownMembers : GlobalWalletConfigMembers C L ←
    (Serde.deserialize (some oldConfig.root)).mapError .SerializationError
  let known := serConfig knownMembers
  return update oldVersion.isNone (some known) "" newConfig oldConfig

end GlobalWalletConfig

end GrinWallet
