import Mclog.Basic

/-!
# The configuration of mclogd

The stanzas of a configuration file as `Config` holds them.  The field defaults are those that the
`Init` functions set.
-/

namespace Mclog

/-- The rollover periods. -/
inductive RollPeriod where
  | minutes_5
  | minutes_15
  | minutes_30
  | hours_1
  | hours_2
  | hours_4
  | hours_6
  | hours_8
  | hours_12
  | days_1
  | days_7
deriving DecidableEq

/-- The two formats of a log file. -/
inductive FileFormat where
  | text
  | binary
deriving DecidableEq

/-- One entry of `logs`. -/
structure LogFileConfig where
  /-- Filter expression. -/
  filter : Str := []
  /-- Path pattern; it can contain `%H`, `%I` and `%F`. -/
  pathPattern : Str := str "%H/%I"
  /-- File permissions. -/
  permissions : UInt32 := 0o644
  /-- Time between rollovers. -/
  period : RollPeriod := .days_1
  /-- Maximum size before a rollover, none when 0. -/
  size : Int := 0
  /-- Number of archives to keep when rolling. -/
  keep : UInt32 := 7
  /-- Log file owner. -/
  user : Str := []
  /-- Log file group. -/
  group : Str := []
  /-- Compression, "bzip2" or "gzip". -/
  compress : Str := str "bzip2"
  /-- Text or binary. -/
  format : FileFormat := .text
deriving DecidableEq

/-- The `files` stanza. -/
structure FilesConfig where
  logDirectory : Str := str "/usr/local/var/mclog"
  logs : List LogFileConfig := []
deriving DecidableEq

/-- The `service` stanza. -/
structure ServiceConfig where
  keyDirectory : Str := str "/usr/local/etc/mclogd"
deriving DecidableEq

/-- The `loopback` stanza. -/
structure LoopbackConfig where
  listenIpv4 : Bool := true
  listenIpv6 : Bool := false
  port : UInt16 := 3737
deriving DecidableEq

/-- An IPv4 address, as a number. -/
abbrev Ipv4Address := UInt32

/-- An IPv6 address, as a number. -/
abbrev Ipv6Address := BitVec 128

/-- The `multicast` stanza. -/
structure MulticastConfig where
  /-- IPv4 group address. -/
  groupAddr : Ipv4Address := 0xef6c6f67
  /-- IPv6 group address. -/
  groupAddr6 : Ipv6Address := 0xff020000000000000000006d636c6f67
  /-- Interface name. -/
  intfName : Str := []
  /-- IPv4 address of the interface. -/
  intfAddr : Ipv4Address := 0
  /-- IPv6 address of the interface. -/
  intfAddr6 : Ipv6Address := 0
  /-- Destination port. -/
  dstPort : UInt16 := 3737
  /-- Output filter expression. -/
  outFilter : Str := []
deriving DecidableEq

/-- `Config`. -/
structure Config where
  loopback : LoopbackConfig := {}
  mcast : MulticastConfig := {}
  service : ServiceConfig := {}
  /-- Named filter expressions, sorted by name. -/
  filters : List (Str × Str) := []
  files : FilesConfig := {}
deriving DecidableEq

end Mclog
