import DoubleEntry.Clock.Duration

namespace DoubleEntry

structure DatabaseConfig where
  url : String
  maxConnections : Nat := 20
  acquireTimeoutMs : Nat := 5000
deriving DecidableEq, Repr

structure TransferConfig where
  txTimeoutMs : Nat := 5000
  maxRetries : Nat := 3
  retryBackoffMs : Nat := 50
deriving DecidableEq, Repr

structure Config where
  logLevel : String
  logDir : String
  logFile : String
  useJson : Bool
  rotation : String
  database : DatabaseConfig
  transfer : TransferConfig := {}
deriving DecidableEq, Repr

def DatabaseConfig.acquireTimeout (c : DatabaseConfig) : Duration := .ofMillis c.acquireTimeoutMs
def TransferConfig.txTimeout (c : TransferConfig) : Duration := .ofMillis c.txTimeoutMs
def TransferConfig.retryBackoff (c : TransferConfig) : Duration := .ofMillis c.retryBackoffMs

inductive ConfigError where
  | read (path cause : String)
  | parse
deriving DecidableEq, Repr

namespace ConfigError

def message : ConfigError → String
  | read path cause => "Failed to read config file " ++ path ++ ": " ++ cause
  | parse => "Failed to parse config yaml"

def cause : ConfigError → Option String
  | read _ cause => some cause
  | parse => none

end ConfigError
end DoubleEntry
