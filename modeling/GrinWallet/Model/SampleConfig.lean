import GrinWallet.Model.Config

/-! # Sample configurations

Chain types and a logging section written as the node's are, and configuration files
with a key of a later version.
-/

namespace GrinWallet

namespace SampleConfig

open Document

inductive Chain
  | AutomatedTesting
  | UserTesting
  | Testnet
  | Mainnet
deriving DecidableEq

def Chain.name : Chain → String
  | .AutomatedTesting => "AutomatedTesting"
  | .UserTesting => "UserTesting"
  | .Testnet => "Testnet"
  | .Mainnet => "Mainnet"

def Chain.all : List Chain := [.AutomatedTesting, .UserTesting, .Testnet, .Mainnet]

instance : ChainTypes Chain where
  toSerde := .leaf (fun c => .scalar (.string c.name) .plain) fun
    | .scalar (.string s) _ =>
        match Chain.all.find? (·.name = s) with
        | some c => .ok c
        | none => .error "unknown variant"
    | _ => .error "invalid type, expected a string"
  mainnet := .Mainnet

instance : LawfulSerde Chain := .leaf fun _ => ⟨rfl, rfl⟩

structure LoggingConfig where
  logToStdout : Bool
  stdoutLogLevel : String
  logToFile : Bool
  fileLogLevel : String
  logFilePath : String
  logFileAppend : Bool

def LoggingConfig.fields : Fields (Bool × String × Bool × String × String × Bool × Unit) :=
  .field "log_to_stdout" <|
  .field "stdout_log_level" <|
  .field "log_to_file" <|
  .field "file_log_level" <|
  .field "log_file_path" <|
  .field "log_file_append" .done

instance : Serde LoggingConfig :=
  .record LoggingConfig.fields
    (fun l => (l.logToStdout, l.stdoutLogLevel, l.logToFile, l.fileLogLevel, l.logFilePath,
      l.logFileAppend, ()))
    fun (stdout, stdoutLevel, file, fileLevel, path, append, _) =>
      ⟨stdout, stdoutLevel, file, fileLevel, path, append⟩

theorem LoggingConfig.fields_lawful : LoggingConfig.fields.Lawful := by
  repeat refine .field ?_ (by decide)
  exact .done

instance : LawfulSerde LoggingConfig :=
  .record LoggingConfig.fields_lawful (by decide) fun _ => rfl

/-- Entries with no text around their keys. -/
def entries : List (String × Item) → Entries
  | [] => .nil
  | (name, item) :: rest => .cons ⟨name, .plain⟩ item (entries rest)

def string (s : String) : Item := .scalar (.string s) ⟨" ", ""⟩

/-- The settings of a Tor section that have no default. -/
def torSettings : List (String × Item) :=
  [("use_tor_listener", .scalar (.boolean true) ⟨" ", ""⟩),
    ("socks_proxy_addr", string "127.0.0.1:59050"),
    ("send_config_dir", string ".")]

/-- A bridge section with a setting of a later version. -/
def futureBridge : Entries :=
  entries [("bridge_line", string "obfs4 192.0.2.1:443"), ("future_setting", string "bridge")]

/-- `bridge` as a table under its own header. -/
def withBridgeTable : Entries :=
  entries [("config_file_version", .scalar (.integer 2) ⟨" ", ""⟩),
    ("tor", .table (entries (torSettings ++ [("bridge", .table futureBridge false .plain)])) false .plain)]

/-- `bridge = { … }` in the Tor section. -/
def withInlineBridge : Entries :=
  entries [("config_file_version", .scalar (.integer 2) ⟨" ", ""⟩),
    ("tor", .table (entries (torSettings ++ [("bridge", .inlineTable futureBridge ⟨" ", ""⟩)])) false .plain)]

/-- The configuration of these files with the Tor listener switched off. -/
def withoutListener : GlobalWalletConfigMembers Chain LoggingConfig where
  configFileVersion := some 2
  wallet := .default
  tor := some
    { useIntegrated := none
      skipSendAttempt := none
      useTorListener := false
      socksProxyAddr := "127.0.0.1:59050"
      sendConfigDir := "."
      requestTimeoutSecs := none
      bootstrapTimeoutSecs := none
      bridge := { TorBridgeConfig.default with bridgeLine := some "obfs4 192.0.2.1:443" }
      proxy := .default }
  logging := none

end SampleConfig

end GrinWallet
