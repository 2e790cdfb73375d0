import VmpSa.Conf.Dump
import VmpSa.Lib.CString

/-!
# The network configuration of the server

`cache_tima_start` of `mw/cache/cache_tima.c` sets the addresses and ports of the HTTP
and RTMP servers to their defaults and then to what the section `network` of the
configuration file says.

What the server is configured with depends on the meaning of the file alone
(`cache_tima_start_config`): how the dictionary stores it, and in what order and how
often the file says it, leave no trace.  `strtol` reads NULL, and the server stops, just
when the name of a port is the name of a section.
-/

namespace VmpSa.Conf

/-! ## The model -/

/-- `CacheNetworkConfig` -/
structure NetworkConfig where
  httpIp : List UInt8
  httpPort : UInt32
  rtmpIp : List UInt8
  rtmpPort : UInt32
  deriving DecidableEq, Repr

/-- A string literal. -/
def literalText (s : String) : Str := s.toList.map fun c => c.toNat.toUInt8

/-- `sizeof` of the arrays of the addresses. -/
def ipSize : Nat := 64

/-- A digit of `strtol`, in any base. -/
def digitOf (c : UInt8) : Nat :=
  if 48 ≤ c && c ≤ 57 then c.toNat - 48
  else if 97 ≤ tolower c && tolower c ≤ 122 then (tolower c).toNat - 87
  else 36

/-- The number at the front of a string. -/
def numberAt (base : Nat) (s : Str) : Nat :=
  (s.takeWhile fun c => digitOf c < base).foldl (fun n c => n * base + digitOf c) 0

/-- The base of a number: hexadecimal after `0x`, octal after `0`. -/
def baseOf (s : Str) : Nat × Str :=
  match s with
  | 48 :: x :: c :: s =>
      if tolower x = 120 ∧ digitOf c < 16 then (16, c :: s) else (8, x :: c :: s)
  | 48 :: s => (8, s)
  | s => (10, s)

/-- `strtol(s, NULL, 0)`: `long` has 64 bits and the result is clamped. -/
def strtol (s : Str) : Int :=
  let s := s.dropWhile isspace
  let (negative, s) : Bool × Str :=
    match s with
    | 45 :: s => (true, s)
    | 43 :: s => (false, s)
    | s => (false, s)
  let (base, s) := baseOf s
  if negative then max (-(2 ^ 63)) (-(numberAt base s : Int))
  else min (2 ^ 63 - 1) (numberAt base s)

/-- `iniparser_getlongint` and the conversion to `int` of `iniparser_getint`, stored as
`unsigned int`.  `none` when `strtol` is called with NULL. -/
def iniparserGetint (d : Dictionary) (key : Str) (notfound : UInt32) : Option UInt32 :=
  iniparserGetstring d key (fun v => v.map fun s => UInt32.ofInt (strtol s)) (some notfound)

/-- An address: its value if it is there and not empty, or else the default. -/
def loadAddress (d : Dictionary) (key : Str) (array default : List UInt8) : List UInt8 :=
  match iniparserGetstring d key id none with
  | some s => if s.length > 0 then CString.strncpy ipSize s else CString.store array default
  | none => CString.store array default

def httpIpKey : Str := literalText "network:http_ip"
def httpPortKey : Str := literalText "network:http_port"
def rtmpIpKey : Str := literalText "network:rtmp_ip"
def rtmpPortKey : Str := literalText "network:rtmp_port"
def httpIpDefault : Str := literalText "tg.test.timanetwork.cn"
def rtmpIpDefault : Str := literalText "127.0.0.1"

/-- `cache_tima_load_conf` with the dictionary of the file, or NULL.  `none` when it
stops the program. -/
def cacheTimaLoadConf (cfg : NetworkConfig) (ini : Option Created) : Option NetworkConfig :=
  match ini with
  | none => some cfg
  | some ini => do
      let d ← ini.searched
      let httpPort ← iniparserGetint d httpPortKey 8114
      let rtmpPort ← iniparserGetint d rtmpPortKey 1935
      ini.del
      some
        { httpIp := loadAddress d httpIpKey cfg.httpIp httpIpDefault
          httpPort := httpPort
          rtmpIp := loadAddress d rtmpIpKey cfg.rtmpIp rtmpIpDefault
          rtmpPort := rtmpPort }

/-- What `cache_tima_create` and the first lines of `cache_tima_start` set. -/
def defaultConfig : NetworkConfig where
  httpIp := CString.store (List.replicate ipSize 0) httpIpDefault
  httpPort := 8114
  rtmpIp := CString.store (List.replicate ipSize 0) rtmpIpDefault
  rtmpPort := 1935

/-- `cache_tima_start` on a fresh node.  `none` when it does not return. -/
def cacheTimaStart (file : Option Str) (new : NewAllocations) (mem : Nat → LineMem) :
    Option NetworkConfig :=
  match iniparserLoad file new mem with
  | none => none
  | some ini => cacheTimaLoadConf defaultConfig ini

/-! ## What a file configures -/

/-- The address a map gives. -/
def addressOf (m : Str → Option (Option Str)) (key default : Str) : List UInt8 :=
  match (m key).join with
  | some s => if s = [] then CString.store (List.replicate ipSize 0) default
      else CString.strncpy ipSize s
  | none => CString.store (List.replicate ipSize 0) default

/-- The port a map gives; `none` when the key is there without a value. -/
def portOf (m : Str → Option (Option Str)) (key : Str) (default : UInt32) : Option UInt32 :=
  match m key with
  | none => some default
  | some none => none
  | some (some s) => some (UInt32.ofInt (strtol s))

/-- What a file configures, by what it means. -/
def configOf (meaning : Option (Str → Option (Option Str))) : Option NetworkConfig :=
  match meaning with
  | none => some defaultConfig
  | some m =>
      match portOf m httpPortKey 8114, portOf m rtmpPortKey 1935 with
      | some httpPort, some rtmpPort =>
          some
            { httpIp := addressOf m httpIpKey httpIpDefault
              httpPort := httpPort
              rtmpIp := addressOf m rtmpIpKey rtmpIpDefault
              rtmpPort := rtmpPort }
      | _, _ => none

variable {d : Dictionary} {key : Str}

/-- A key in lower case is looked up as it is. -/
theorem Dictionary.Sound.getstring_eq (h : d.Sound) (hlow : strlwc key (asciiLineSz + 1) = key)
    {P : Type} (found : Option Str → P) (default : P) :
    iniparserGetstring d key found default = ((d.toStore.map key).map found).getD default := by
  rw [iniparserGetstring, hlow, h.get_eq]

theorem getint_eq (h : d.Sound) (hlow : strlwc key (asciiLineSz + 1) = key) (notfound : UInt32) :
    iniparserGetint d key notfound = portOf d.toStore.map key notfound := by
  rw [iniparserGetint, h.getstring_eq hlow, portOf]
  cases d.toStore.map key with
  | none => rfl
  | some v => cases v <;> rfl

theorem loadAddress_eq (h : d.Sound) (hlow : strlwc key (asciiLineSz + 1) = key) (default : Str) :
    loadAddress d key (CString.store (List.replicate ipSize 0) default) default =
      addressOf d.toStore.map key default := by
  rw [loadAddress, h.getstring_eq hlow, CString.store_store, addressOf]
  cases d.toStore.map key with
  | none => rfl
  | some v =>
      cases v with
      | none => rfl
      | some s =>
          cases s with
          | nil => rfl
          | cons c s =>
              show (if (c :: s).length > 0 then _ else _) = if c :: s = [] then _ else _
              rw [if_pos (show (c :: s).length > 0 from Nat.succ_pos _),
                if_neg (List.cons_ne_nil c s)]

theorem loadConf_eq (h : d.Sound) :
    cacheTimaLoadConf defaultConfig (some (.whole d)) = configOf (some d.toStore.map) := by
  unfold cacheTimaLoadConf configOf
  dsimp only [Created.searched, Option.bind_eq_bind]
  rw [Option.bind_some, getint_eq h (by decide +kernel), getint_eq h (by decide +kernel),
    defaultConfig, loadAddress_eq h (by decide +kernel), loadAddress_eq h (by decide +kernel)]
  cases portOf d.toStore.map httpPortKey 8114 with
  | none => rfl
  | some httpPort => cases portOf d.toStore.map rtmpPortKey 1935 <;> rfl

/-- With memory, the server is configured as the file says, with a default for what it does
not say. -/
theorem cache_tima_start_config (file : Str) (hfile : (0 : UInt8) ∉ file) (mem : Nat → LineMem)
    (hmem : ∀ i, (mem i).Granted) :
    cacheTimaStart (some file) newGranted mem = configOf (meaning file) := by
  obtain ⟨r, hload, hgives⟩ := load_file hfile hmem
  rw [cacheTimaStart, hload]
  cases r with
  | none =>
      have hnone : meaning file = none := hgives
      rw [hnone]
      rfl
  | some c =>
      obtain ⟨d, rfl, hs⟩ := hgives.1.exists_whole
      rw [hgives.2]
      exact loadConf_eq hs

/-- `"[Network]\nhttp_port = 0x50; 80\n"` -/
def portFile : Str :=
  [91, 78, 101, 116, 119, 111, 114, 107, 93, 10] ++ literalText "http_port = 0x50; 80" ++ [10]

theorem cache_tima_start_config_port :
    cacheTimaStart (some portFile) newGranted allGranted = configOf (meaning portFile) ∧
      (configOf (meaning portFile)).map NetworkConfig.httpPort = some 80 :=
  ⟨cache_tima_start_config portFile (by decide +kernel) allGranted fun _ => ⟨rfl, rfl, rfl, rfl⟩,
    by decide +kernel⟩

end VmpSa.Conf
