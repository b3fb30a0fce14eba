import Molebridge.Spec.Encode

/-! internal/providers, the applier's relay catalogue (relays.go), and how internal/jsonfile
replaces a file: Publish and Refresh with any step of a write failing. -/

namespace Molebridge.Providers

open Validate (Value Strconv marshalJSON nextRune)

/-! ### jsonfile.Write -/

/-- The steps of writeFile, in its order. -/
inductive WriteStep where
  | mkdirAll
  | createTemp
  | chmod
  | fill
  | sync
  | close
  | rename
deriving DecidableEq

/-- Write: the step it fails at, and the file afterwards. The fault is the step the system
refuses; filling also fails where the value has no encoding or one over the limit. -/
def write (sc : Strconv) (fault : Option WriteStep) (v : Value) (maxBytes : ℕ) (old : Option (List ℕ)) :
    Option WriteStep × Option (List ℕ) :=
  if fault ∈ [some .mkdirAll, some .createTemp, some .chmod] then (fault, old)
  else
    match marshalJSON sc v with
    | .error _ => (some .fill, old)
    | .ok text =>
      if 0 < maxBytes ∧ maxBytes < text.length then (some .fill, old)
      else
        match fault with
        | some step => (some step, old)
        | none => (none, some text)

/-! ### Entries and their size -/

def key (name : String) : List ℕ := name.toList.map Char.toNat

inductive Shape where
  | mullvad
  | pia
  | nordVPN
  | gluetun

structure Server where
  ip : List ℕ
  cn : List ℕ

/-- Relay; an option is a pointer, or a slice that nil tells from an empty one. -/
structure Relay where
  shape : Shape := .mullvad
  hostname : List ℕ := []
  publicKey : List ℕ := []
  ipv4AddrIn : List ℕ := []
  city : List ℕ := []
  country : List ℕ := []
  locationCode : List ℕ := []
  countryCode : List ℕ := []
  owned : Option Bool := none
  stboot : Option Bool := none
  hostingProvider : List ℕ := []
  portForward : Bool := false
  geo : Bool := false
  servers : List Server := []
  load : Option ℤ := none
  virtual : Bool := false
  id : List ℕ := []
  selectionFilter : List ℕ := []
  ipv4Addrs : Option (List (List ℕ)) := none
  ipv6Addrs : List (List ℕ) := []
  region : Option (List ℕ) := none
  categories : Option (List (List ℕ)) := none

namespace Relay

/-! What objectWriter adds. -/

def text (name : String) (value : List ℕ) : List ℕ × Value := (key name, .str value)

def flag (name : String) (value : Bool) : List ℕ × Value := (key name, .bool value)

def texts (name : String) (values : List (List ℕ)) : List ℕ × Value := (key name, .arr (values.map .str))

def members (r : Relay) : List (List ℕ × Value) :=
  match r.shape with
  | .pia =>
    [text "hostname" r.hostname, text "city" r.city, text "country" r.country,
      text "location_code" r.locationCode, text "ipv4_addr_in" r.ipv4AddrIn, flag "port_forward" r.portForward,
      flag "geo" r.geo,
      (key "servers", .arr (r.servers.map fun s => .obj [text "ip" s.ip, text "cn" s.cn]))]
  | .nordVPN =>
    [text "hostname" r.hostname, text "public_key" r.publicKey, text "ipv4_addr_in" r.ipv4AddrIn, text "city" r.city,
      text "country" r.country, text "country_code" r.countryCode, text "location_code" r.locationCode] ++
    (r.load.map fun n => (key "load", .int n)).toList ++ [flag "virtual" r.virtual]
  | .gluetun =>
    [text "hostname" r.hostname, text "public_key" r.publicKey, text "ipv4_addr_in" r.ipv4AddrIn] ++
    (r.ipv4Addrs.map (texts "ipv4_addrs")).toList ++
    [texts "ipv6_addrs" r.ipv6Addrs, text "city" r.city, text "country" r.country] ++
    (r.region.map (text "region")).toList ++ (r.categories.map (texts "categories")).toList ++
    [text "id" r.id, text "selection_filter" r.selectionFilter]
  | .mullvad =>
    [text "hostname" r.hostname, text "public_key" r.publicKey, text "ipv4_addr_in" r.ipv4AddrIn, text "city" r.city,
      text "country" r.country, text "location_code" r.locationCode] ++
    (r.owned.map (flag "owned")).toList ++ (r.stboot.map (flag "stboot")).toList ++
    if r.hostingProvider ≠ [] then [text "provider" r.hostingProvider] else []

end Relay

/-- Entries: for each name the members of its relay, in their order. -/
abbrev Entries := List (List ℕ × List (List ℕ × Value))

def Entries.ofRelays (relays : List (List ℕ × Relay)) : Entries := relays.map fun r => (r.1, r.2.members)

def Entries.value (entries : Entries) : Value := .obj (entries.map fun e => (e.1, .obj e.2))

/-- RuneCount; every turn takes a byte at least, and a byte that begins no rune counts as one. -/
def runeCount : ℕ → List ℕ → ℕ
  | _, [] => 0
  | 0, _ :: _ => 0
  | fuel + 1, b :: rest => runeCount fuel (((nextRune (b :: rest)).map Prod.snd).getD rest) + 1

/-- What boundWriter counts for a member. -/
def memberBound (m : List ℕ × Value) : ℕ :=
  runeCount m.1.length m.1 + 4 + match m.2 with
    | .str s => runeCount s.length s
    | _ => 1

/-- The loop of SnapshotTooLarge, from a total. -/
def tooLargeFrom (limit : ℕ) : ℕ → Entries → Bool
  | _, [] => false
  | total, (name, members) :: rest =>
    let total := total + (runeCount name.length name + 4) + (members.map memberBound).sum
    if limit < total then true else tooLargeFrom limit total rest

def snapshotTooLarge (entries : Entries) (limit : ℕ) : Bool := tooLargeFrom limit 0 entries

/-! ### Publish and Refresh -/

inductive RefreshError where
  | fetch
  | parse
  | empty
  | tooLarge
  | write (step : WriteStep)
deriving DecidableEq

/-- "Relay refresh failed; retaining the last good catalogue." -/
def refreshFailedMessage : List ℕ :=
  "Relay refresh failed; retaining the last good catalogue.".toList.map Char.toNat

/-- What a provider brings: ParseCatalog, and SnapshotLimit. -/
structure Provider where
  name : List ℕ
  parseCatalog : List ℕ → Bool → Option Entries
  snapshotLimit : ℕ

/-- RelayCatalog, with the two files it writes. -/
structure RelayCatalog where
  provider : Provider
  portForwardOnly : Bool
  snapshot : List (List ℕ × Value)
  relays : Entries
  failure : Option RefreshError
  file : Option (List ℕ)
  errorFile : Option (List ℕ)

/-- What a refresh meets: the fetched body, the clock's texts, and the fault of each write. -/
structure Refreshing where
  body : Option (List ℕ)
  fetchedAt : List ℕ
  checkedAt : List ℕ
  publishing : Option WriteStep
  clearing : Option WriteStep
  recording : Option WriteStep

/-- The members Publish keeps, with `extra` after "provider". -/
def kept (provider : Provider) (fetchedAt : List ℕ) (extra : List (List ℕ × Value)) : List (List ℕ × Value) :=
  (key "fetched_at", .str fetchedAt) :: (key "provider", .str provider.name) :: extra

variable (sc : Strconv) (run : Refreshing) (c : RelayCatalog)

def fetchEntries : Except RefreshError Entries :=
  match run.body with
  | none => .error .fetch
  | some raw =>
    match c.provider.parseCatalog raw c.portForwardOnly with
    | none => .error .parse
    | some entries => if entries.length = 0 then .error .empty else .ok entries

/-- The write of relays.json in Publish. -/
def writeSnapshot (entries : Entries) (extra : List (List ℕ × Value)) : Option WriteStep × Option (List ℕ) :=
  write sc run.publishing (.obj (kept c.provider run.fetchedAt extra ++ [(key "relays", entries.value)]))
    c.provider.snapshotLimit c.file

def publish (entries : Entries) (extra : List (List ℕ × Value)) : Option RefreshError × RelayCatalog :=
  if snapshotTooLarge entries c.provider.snapshotLimit then (some .tooLarge, c)
  else
    match writeSnapshot sc run c entries extra with
    | (some step, file) => (some (.write step), { c with file })
    | (none, file) =>
      let (err, errorFile) := write sc run.clearing (.obj []) 0 c.errorFile
      (err.map .write, { c with file, errorFile, snapshot := kept c.provider run.fetchedAt extra, relays := entries })

def recordFailure (message : List ℕ) : Option WriteStep × RelayCatalog :=
  let (err, errorFile) := write sc run.recording
    (.obj [(key "message", .str message), (key "checked_at", .str run.checkedAt)]) 0 c.errorFile
  (err, { c with errorFile })

/-- What Refresh does before it looks at the error. -/
def fetchAndPublish : Option RefreshError × RelayCatalog :=
  match fetchEntries run c with
  | .error e => (some e, c)
  | .ok entries => publish sc run c entries []

/-- Refresh: its two results, and the catalogue afterwards. -/
def refresh : (Bool × Option WriteStep) × RelayCatalog :=
  match fetchAndPublish sc run c with
  | (none, c') => ((true, none), { c' with failure := none })
  | (some err, c') =>
    let (record, c') := recordFailure sc run { c' with failure := some err } refreshFailedMessage
    ((false, record), c')

end Molebridge.Providers
