import Molebridge.Lib.Pick
import Molebridge.Spec.Policy

/-! internal/policy, the classes of traffic the contract protects and the
points they are judged on: `State.violations` for one state, `worsens` for a
change from one state to another. -/

namespace Molebridge

/-- What is asked of a packet: `any` asks nothing, `devs` are the devices a route
may send it out of, `tables` the tables not read that may answer it. -/
structure TrafficClass where
  name : String := ""
  any : Bool := false
  devs : List ℕ := []
  tables : List ℕ := []
deriving DecidableEq

def TrafficClass.allows (c : TrafficClass) (o : Outcome) : Bool :=
  c.any || match o.kind with
    | .stopped => true
    | .loc => false
    | .viaDev => c.devs.any fun d => d == o.dev && d != 0 && d != unknownDev
    | .viaTable => c.tables.contains o.table

namespace State

/-- What the contract asks of the exit's own traffic that does not stay in the
namespace, for a native sidecar. -/
def classifySidecar (s : State) (p : Packet) : TrafficClass :=
  let c := s.spec.config
  if p.mark = c.controlMark then
    { name := "control-marked traffic the exit sends", devs := [s.hostIdx, s.exitIdx] }
  else if p.mark = c.tunnelMark then { any := true }
  else if (c.lanFor p.f).any (·.contains p.dst) then { any := true }
  else { name := "unmarked traffic the namespace sends", devs := [s.exitIdx] }

/-- The same with gluetun. -/
def classifyGluetun (s : State) (p : Packet) (fromTunnel : Bool) (hostSubnets : List Prefix) :
    TrafficClass :=
  let c := s.spec.config
  if p.mark = c.controlMark then
    { name := "control-marked traffic the exit sends", devs := [s.hostIdx] }
  else if p.mark = gluetunMark then { any := true }
  else if (c.overlayFor p.f).elim false (·.contains p.dst) then
    { name := "traffic the exit sends to a client of " ++ c.overlayIf, devs := [s.overlayIdx] }
  else if fromTunnel && p.proto == icmp p.f then
    { name := "ICMP the exit sends from a tunnel address", devs := [s.exitIdx] }
  else if hostSubnets.any (·.contains p.dst) then { any := true }
  else if p.src.elim true (·.isUnspecified) || fromTunnel then
    { name := "unmarked traffic the exit sends", devs := [s.exitIdx],
      tables := [gluetunMark.toNat] }
  else { any := true }

/-- What is asked of a packet; `prot` are the tunnel addresses whose ICMP is
protected, `hostSubnets` the host's own subnets. -/
def classify (s : State) (p : Packet) (prot : List Addr) (hostSubnets : List Prefix) :
    TrafficClass :=
  let c := s.spec.config
  if !c.isNativeSidecar && p.iif == c.overlayIf then
    { name := "traffic arriving on " ++ c.overlayIf, devs := [s.exitIdx] }
  else if p.iif ≠ "lo" then { any := true }
  else if s.isLocal p.f p.dst then { any := true }
  else if c.isNativeSidecar then s.classifySidecar p
  else
    let fromTunnel := p.src.elim false prot.contains
    if c.isGluetun then s.classifyGluetun p fromTunnel hostSubnets
    else if fromTunnel && p.proto == icmp p.f then
      { name := "ICMP the exit sends from a tunnel address", devs := [s.exitIdx] }
    else { any := true }

/-- The live tunnel addresses and those the contract expects. -/
def protectedAddrs (s : State) (f : Family) : List Addr := s.live f ++ s.spec.returnPath f

/-- The destinations of the non-default routes through the host interface in the
host table and in the main table. -/
def hostSubnets (s : State) (f : Family) : List Prefix :=
  if !s.spec.config.isGluetun then []
  else [s.spec.config.hostTable, tableMain].flatMap fun table =>
    (s.tableRoutes f table).filterMap fun rt =>
      rt.dst.filter fun p => 0 < p.bits && rt.oif == some s.hostIdx && s.hostIdx != 0

def classifier (s : State) (p : Packet) : TrafficClass :=
  s.classify p (s.protectedAddrs p.f) (s.hostSubnets p.f)

end State

/-! ### Points -/

theorem Prefix.last_lt (p : Prefix) :
    p.addr.val / p.size * p.size + (p.size - 1) < 2 ^ p.addr.fam.bits := by
  have hsize : 0 < p.size := Nat.two_pow_pos _
  have hdvd : p.size ∣ 2 ^ p.addr.fam.bits := Nat.pow_dvd_pow 2 (Nat.sub_le _ _)
  obtain ⟨k, hk⟩ := hdvd
  have hlt : p.addr.val / p.size < k :=
    (Nat.div_lt_iff_lt_mul hsize).2 (by rw [mul_comm, ← hk]; exact p.addr.lt)
  calc p.addr.val / p.size * p.size + (p.size - 1)
      < (p.addr.val / p.size + 1) * p.size := by rw [Nat.add_mul]; omega
    _ ≤ k * p.size := Nat.mul_le_mul_right _ hlt
    _ = 2 ^ p.addr.fam.bits := by rw [hk, mul_comm]

def Prefix.first (p : Prefix) : Addr := p.masked.addr

def Prefix.last (p : Prefix) : Addr :=
  ⟨p.addr.fam, p.addr.val / p.size * p.size + (p.size - 1), p.last_lt⟩

def boundaryPoints (p : Prefix) : List Addr :=
  [p.first, p.last] ++ p.first.prev.toList ++ p.last.next.toList

/-- 2001:4860:4860::8888 and 8.8.8.8 -/
def otherAddr : Family → Addr
  | .v6 => ⟨.v6, 0x20014860486000000000000000008888, by decide⟩
  | .v4 => ⟨.v4, 0x08080808, by decide⟩

/-- What the points of a family are refined over, from all the states compared. -/
structure Facts where
  config : Config
  rules : List Rule
  routes : List Route
  prot : List Addr
  locals : List Addr
  hostSubnets : List Prefix
  lan : List Prefix

def gather (f : Family) (base : State) (more : List State) : Facts :=
  let states := base :: more
  { config := base.spec.config,
    rules := states.flatMap (·.rules f),
    routes := states.flatMap fun s => (s.routes f).flatMap (·.2),
    prot := states.flatMap (·.protectedAddrs f),
    locals := states.flatMap (·.locals f),
    hostSubnets := states.flatMap (·.hostSubnets f),
    lan := states.flatMap (·.spec.config.lanFor f) }

/-- 127.0.0.0/8 and ::1/128 -/
def loopbackPrefix : Family → Prefix
  | .v6 => ⟨⟨.v6, 1, by decide⟩, 128, le_refl _⟩
  | .v4 => ⟨⟨.v4, 127 * 2 ^ 24, by decide⟩, 8, by decide⟩

/-- A prefix selector of nonzero length that the address is in. -/
def inside (p : Option Prefix) (a : Addr) : Bool := p.elim false fun p => 0 < p.bits && p.contains a

def lowestBit (mask : BitVec 32) : BitVec 32 := mask &&& -mask

/-- The values of a range selector's bounds and those just outside them. -/
def rangeBounds (max : ℕ) (r : ℕ × ℕ) : List ℕ :=
  [r.1, r.2] ++ (if 0 < r.1 then [r.1 - 1] else []) ++ if r.2 < max then [r.2 + 1] else []

def inRangeOf (v : ℕ) (r : ℕ × ℕ) : Bool := r.1 ≤ v && v ≤ r.2

/-- One value for each set of values the ranges cannot tell apart. -/
def refineRange (ranges : List (ℕ × ℕ)) (max : ℕ) : List ℕ :=
  let cand := (0 :: ranges.flatMap (rangeBounds max)).dedup.filter (· ≤ max)
  pick (fun v => ranges.map (inRangeOf v)) (cand.insertionSort (· ≤ ·))

namespace Facts

variable (F : Facts) (f : Family)

def prefixes : List Prefix :=
  List.flatten [F.rules.flatMap fun r => r.src.toList ++ r.dst.toList,
    F.routes.flatMap fun r => r.dst.toList ++ r.src.toList,
    (F.config.overlayFor f).toList, F.hostSubnets, F.lan,
    if F.config.isNativeSidecar then [loopbackPrefix f] else [],
    F.prot.map Prefix.host, F.locals.map Prefix.host]

def addrs : List Addr :=
  let near := ((F.prefixes f).flatMap boundaryPoints).filter fun a => a.is4 == (f == .v4)
  (Addr.zero f :: otherAddr f :: near).dedup.insertionSort fun a b => !b.less a

def isLocal (a : Addr) : Bool := F.locals.contains a || a.isLoopback

def srcSig (a : Addr) : List Bool :=
  F.rules.map (fun r => inside r.src a) ++ F.routes.map (fun r => inside r.src a) ++
    [a.isUnspecified, F.prot.contains a, F.isLocal a]

def dstSig (a : Addr) : List Bool :=
  F.rules.map (fun r => inside r.dst a) ++
    F.routes.map (fun r => r.dst.elim false (·.contains a)) ++
    [F.isLocal a, (F.config.overlayFor f).elim false (·.contains a)] ++
    F.hostSubnets.map (·.contains a) ++ F.lan.map (·.contains a)

def srcs : List Addr := pick F.srcSig (F.addrs f)

/-- A destination is never the unspecified address; it must not stand in for the
others it cannot be told apart from. -/
def dsts : List Addr :=
  pick (fun a => if a.isUnspecified then none else some (F.dstSig f a)) (F.addrs f)

/-- The values the rules select on, their complements within the mask, the
contract's, none and everything. -/
def markSet : List (BitVec 32) :=
  List.flatten [[0, 0xffffffff, F.config.controlMark, F.config.controlMark ||| 0x21, gluetunMark],
    if F.config.isNativeSidecar then [F.config.tunnelMark] else [],
    F.rules.flatMap fun r =>
      let (mark, mask) := r.effectiveMark
      if mask ≠ 0 then [mark, mark ^^^ mask, mark ^^^ lowestBit mask] else []]

def markSig (m : BitVec 32) : List Bool :=
  F.rules.map (fun r => r.effectiveMark.2 != 0 && (r.effectiveMark.1 ^^^ m) &&& r.effectiveMark.2 == 0) ++
    [m == F.config.controlMark, m == gluetunMark] ++
    if F.config.isNativeSidecar then [m == F.config.tunnelMark] else []

def marks : List (BitVec 32) := pick F.markSig (F.markSet.dedup.insertionSort (· ≤ ·))

/-- Those the rules select on, ICMP, TCP, UDP and another. -/
def protos : List (BitVec 8) :=
  (icmp f :: 6 :: 17 :: 253 :: F.rules.filterMap fun r => r.ipProto.filter (· != 0)).dedup.insertionSort
    (· ≤ ·)

/-- The TOS values the rules and the IPv4 routes select on. -/
def tosSet : List (BitVec 8) :=
  let ofRule (r : Rule) : List (BitVec 8) :=
    r.tos :: (r.ext.dscp.map fun d : BitVec 8 => d <<< 2).toList
  (0 :: F.rules.flatMap ofRule ++ if f == .v4 then F.routes.map (·.tos) else []).dedup

/-- The first value no selector names, when there is any selector. -/
def otherTos : Option (BitVec 8) :=
  if 1 < (F.tosSet f).length then
    [0xe0, 0xb8, 0x28, 0x04].find? fun o => !(F.tosSet f).contains o
  else none

def toses : List (BitVec 8) := (F.tosSet f ++ (F.otherTos f).toList).insertionSort (· ≤ ·)

def sports : List ℕ := refineRange (F.rules.filterMap (·.ext.sport)) 65535

def dports : List ℕ := refineRange (F.rules.filterMap (·.ext.dport)) 65535

def uids : List ℕ := refineRange (F.rules.filterMap (·.ext.uid)) 0xffffffff

def l3s : List Bool :=
  if F.rules.any fun r => r.l3Mdev.elim false (· != 0) then [false, true] else [false]

def iifs : List String :=
  if F.config.isNativeSidecar then ["lo"] else [F.config.overlayIf, "lo"]

/-- The number of combinations. The code computes it in an `int`; a product that
does not fit one is of lists the loops below never get through. -/
def total : ℕ :=
  [F.iifs.length, F.marks.length, (F.protos f).length, (F.toses f).length, F.sports.length,
    F.dports.length, F.uids.length, F.l3s.length, (F.srcs f).length, (F.dsts f).length].prod

/-- Every combination, with a destination that is one. -/
def combinations : List Packet :=
  F.iifs.flatMap fun iif => F.marks.flatMap fun m => (F.protos f).flatMap fun pr =>
  (F.toses f).flatMap fun tos => F.sports.flatMap fun sp => F.dports.flatMap fun dp =>
  F.uids.flatMap fun uid => F.l3s.flatMap fun l3 => (F.srcs f).flatMap fun s =>
  ((F.dsts f).filter fun d => !d.isUnspecified).map fun d =>
    { f := f, iif := iif, mark := m, proto := pr, src := some s, dst := d, tos := tos,
      sport := BitVec.ofNat 16 sp, dport := BitVec.ofNat 16 dp, uid := BitVec.ofNat 32 uid,
      l3 := l3 }

end Facts

def maxPoints : ℕ := 400000

/-- The packets to judge for a family, refined over every state; `none` when
there are too many. -/
def points (f : Family) (base : State) (more : List State) : Option (List Packet) :=
  let F := gather f base more
  if maxPoints < F.total f then none else some (F.combinations f)

def allPoints (base : State) (more : List State) : Option (List Packet) := do
  let p4 ← points .v4 base more
  let p6 ← points .v6 base more
  return p4 ++ p6

/-- A packet that can reach a place the contract forbids. -/
structure Violation where
  cls : String
  packet : String
  outcome : String
deriving DecidableEq

def tooManyClasses : Violation :=
  { cls := "the model", packet := "the rules", outcome := "too many classes of traffic to judge" }

def violationOf (cl : TrafficClass) (p : Packet) (o : Outcome) : Violation :=
  { cls := cl.name, packet := p.text, outcome := o.text }

/-- The violations of one state over the given points. -/
def judge (s : State) (pts : List Packet) : List Violation :=
  pts.filterMap fun p =>
    let cl := s.classifier p
    if cl.any then none
    else ((s.walk p).find? fun o => !cl.allows o).map (violationOf cl p)

def State.violations (s : State) : List Violation :=
  if s.spec.config.isGluetunSidecar then []
  else match allPoints s [] with
    | none => [tooManyClasses]
    | some pts => judge s pts

/-- What a change opens: for every point, every outcome that the walk can end in
after the change, was not possible before it, and the class forbids. -/
def worsens (before after : State) : List Violation :=
  if before.spec.config.isGluetunSidecar then []
  else match allPoints before [after] with
    | none => [tooManyClasses]
    | some pts => pts.flatMap fun p =>
      let cl := after.classifier p
      if cl.any then []
      else ((after.walk p).filter fun o =>
        !cl.allows o && !(before.walk p).contains o).map (violationOf cl p)

end Molebridge
