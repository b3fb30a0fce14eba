import Molebridge.Spec.JsonScan

/-! internal/nbprofile: the stored profile the NetBird daemon will load (profile.go) and its
interface blacklist (blacklist.go). A path is its position in profileFiles: the default
profile, then the legacy ones. Texts are bytes; a refusal is here its reason, without the
line the gate prints. -/

namespace Molebridge.NbProfile

def text (cs : List Char) : List ℕ := cs.map Char.toNat

def maxFileSize : ℕ := 1048576

/-- What is found at a path: nothing, something that cannot be read as a regular file, or the bytes of one. -/
inductive File where
  | absent
  | unreadable
  | regular (data : List ℕ)

/-- exists -/
def File.isPresent : File → Bool
  | .absent => false
  | _ => true

/-- The files that Paths names: the active-profile state, and profileFiles in order. -/
structure Files where
  active : File
  profiles : List File

inductive Verdict where
  | ok
  | malformed
  | badKey
  | duplicate
  | rosenpass
  | interface
  | other
  | unreadable
  | dupList
deriving DecidableEq

/-- One file read and scanned; the constructor is its verdict. -/
inductive Loaded where
  | unreadable
  | malformed
  | duplicate (data : List ℕ) (root : RootInfo)
  | ok (data : List ℕ) (root : RootInfo)

/-- load, with readBounded -/
def load (file : File) (dupAny : Bool) : Loaded :=
  match file with
  | .absent => .unreadable
  | .unreadable => .unreadable
  | .regular data =>
    if maxFileSize < data.length then .malformed
    else match scan data dupAny with
      | .malformed => .malformed
      | .duplicateDeep root => .duplicate data root
      | .ok root => .ok data root

def wgIface : List ℕ := text ['w', 'g', 'i', 'f', 'a', 'c', 'e']
def rosenpassEnabled : List ℕ :=
  text ['r', 'o', 's', 'e', 'n', 'p', 'a', 's', 's', 'e', 'n', 'a', 'b', 'l', 'e', 'd']
def ifaceBlackList : List ℕ := text ['i', 'f', 'a', 'c', 'e', 'b', 'l', 'a', 'c', 'k', 'l', 'i', 's', 't']

/-- The interface of an absent or empty WgIface. -/
def wt0 : List ℕ := text ['w', 't', '0']

def profileVerdict (l : Loaded) (overlayIF : List ℕ) : Verdict :=
  match l with
  | .unreadable => .unreadable
  | .malformed => .malformed
  | .duplicate _ root => if root.hasNonPlainKey then .badKey else .duplicate
  | .ok _ root =>
    if root.hasNonPlainKey then .badKey
    else if 1 < (root.lookup wgIface).length ∨ 1 < (root.lookup rosenpassEnabled).length then .duplicate
    else if (root.lookup rosenpassEnabled).any fun m => m.kind ≠ .litFalse then .rosenpass
    else match root.lookup wgIface with
      | [] => if wt0 = overlayIF then .ok else .interface
      | m :: _ =>
        if m.kind ≠ .string ∨ m.strPlain = false then .interface
        else if (if m.str = [] then wt0 else m.str) = overlayIF then .ok else .interface

def activeVerdict (l : Loaded) : Verdict :=
  match l with
  | .unreadable => .unreadable
  | .malformed => .malformed
  | .duplicate _ _ => .duplicate
  | .ok _ root =>
    if root.hasNonPlainKey then .badKey
    else match root.lookup (text ['n', 'a', 'm', 'e']) with
      | [] => .ok
      | [m] =>
        if m.kind ≠ .string ∨ m.strPlain = false then .other
        else if m.str ≠ [] ∧ m.str ≠ text ['d', 'e', 'f', 'a', 'u', 'l', 't'] then .other
        else .ok
      | _ => .duplicate

/-- Why the gate refuses. -/
inductive Refusal where
  | tunnelName
  | activeOther
  | activeUnreadable
  | activeMalformed
  | profile (v : Verdict) (path : ℕ)
  | listKind (path : ℕ)
  | notExcluded (path : ℕ)
deriving DecidableEq

def checkActive (files : Files) : Except Refusal Unit :=
  if !files.active.isPresent then .ok ()
  else match activeVerdict (load files.active false) with
    | .ok => .ok ()
    | .other => .error .activeOther
    | .unreadable => .error .activeUnreadable
    | _ => .error .activeMalformed

def resolve (files : Files) : Option ℕ := files.profiles.findIdx? File.isPresent

def Files.profile (files : Files) (path : ℕ) : File := files.profiles.getD path .absent

/-! ### The blacklist -/

/-- What stands for one element: from its first byte on, and from its end on. -/
structure Span where
  start : List ℕ
  stop : List ℕ

/-- What a profile's IFaceBlackList holds; no member when it is absent. -/
structure ListState where
  member : Option Member
  entries : List (List ℕ)
  elems : List Span

/-- The loop of stringArray; a round reads a byte. -/
def stringArrayLoop : ℕ → List ℕ → Option (List (List ℕ) × List Span)
  | 0, _ => none
  | fuel + 1, b =>
    match skipWS b with
    | 0x22 :: rest =>
      match str rest with
      | none => none
      | some (s, _, stop) =>
        match skipWS stop with
        | 0x2C :: next =>
          (stringArrayLoop fuel next).map fun (entries, elems) => (s :: entries, ⟨0x22 :: rest, stop⟩ :: elems)
        | _ => some ([s], [⟨0x22 :: rest, stop⟩])
    | _ => none

/-- stringArray, from the first byte of an array on. -/
def stringArray (b : List ℕ) : Option (List (List ℕ) × List Span) :=
  match skipWS b.tail with
  | 0x5D :: _ => some ([], [])
  | after => stringArrayLoop b.length after

/-- blacklistOf; none when it is neither null nor a list of strings. -/
def blacklistOf (root : RootInfo) : Option ListState :=
  match root.lookup ifaceBlackList with
  | [] => some ⟨none, [], []⟩
  | m :: _ =>
    match m.kind with
    | .null => some ⟨some m, [], []⟩
    | .array => (stringArray m.valStart).map fun (entries, elems) => ⟨some m, entries, elems⟩
    | _ => none

def covers (list : List (List ℕ)) (iface : List ℕ) : Bool := list.any fun s => s ≠ [] && s.isPrefixOf iface

def checkListFile (file : File) (path : ℕ) : Except Refusal ListState :=
  match load file false with
  | .ok _ root =>
    if root.hasNonPlainKey then .error (.profile .badKey path)
    else if 1 < (root.lookup wgIface).length ∨ 1 < (root.lookup rosenpassEnabled).length then
      .error (.profile .duplicate path)
    else if 1 < (root.lookup ifaceBlackList).length then .error (.profile .dupList path)
    else match blacklistOf root with
      | none => .error (.listKind path)
      | some st => .ok st
  | l => .error (.profile (profileVerdict l []) path)

def isAlnum (c : ℕ) : Bool :=
  (0x61 ≤ c && c ≤ 0x7A) || (0x41 ≤ c && c ≤ 0x5A) || (0x30 ≤ c && c ≤ 0x39) || c = 0x5F

def validInterfaceName (name : List ℕ) : Bool :=
  match name with
  | [] => false
  | c :: rest => isAlnum c && rest.length ≤ 14 && rest.all fun c => isAlnum c || c = 0x2E || c = 0x2D

/-- CheckBlacklist; no path when there is no identity yet. -/
def checkBlacklist (files : Files) (tunnelIF : List ℕ) : Except Refusal (Option ℕ) :=
  if !validInterfaceName tunnelIF then .error .tunnelName
  else match checkActive files with
    | .error e => .error e
    | .ok () =>
      match resolve files with
      | none => .ok none
      | some path =>
        match checkListFile (files.profile path) path with
        | .error e => .error e
        | .ok st => if covers st.entries tunnelIF then .ok (some path) else .error (.notExcluded path)

end Molebridge.NbProfile
