import Mathlib.Data.Rat.Floor
import Mathlib.Data.Set.Basic
import Mathlib.Logic.Relation
import Mathlib.Logic.Function.Basic

/-! internal/panel/oidc, the pending sign-ins (oidc.go): the cookie that carries one, and open,
Finish, Discard and the two pruners over the table of used states. Calls run concurrently: what
is done under the lock is one step, and so is each reading of the clock. -/

namespace Molebridge.Oidc

/-- Seconds a sign-in stays good for. -/
def loginTTL : ℤ := 600

/-- The Limits that open and Finish read. Where no state may be kept, open's loop would go on
to the front of an empty table. -/
structure Limits where
  maxConsumedLogins : ℕ := 65536
  maxTokenExchanges : ℕ := 4
  keeps : 0 < maxConsumedLogins := by decide

/-- What travels in the cookie of a pending sign-in. -/
structure PendingLogin where
  state : List Char
  nextPath : String
  created : ℤ
deriving DecidableEq

structure ConsumedItem where
  state : List Char
  used : ℤ
deriving DecidableEq

/-! The cookie. -/

/-- The process's signing key at work, and the encoding of the three fields as base64url. -/
structure Sealing where
  sign : List Char → List Char
  encode : PendingLogin → List Char
  decode : List Char → Option PendingLogin

def Sealing.seal (c : Sealing) (login : PendingLogin) : List Char :=
  c.encode login ++ '.' :: c.sign (c.encode login)

/-- The text before and after the first dot. -/
def cut : List Char → Option (List Char × List Char)
  | [] => none
  | x :: rest => if x = '.' then some ([], rest) else (cut rest).map fun p => (x :: p.1, p.2)

def isB64URLChar (x : Char) : Bool :=
  ('A' ≤ x && x ≤ 'Z') || ('a' ≤ x && x ≤ 'z') || ('0' ≤ x && x ≤ '9') || x == '_' || x == '-'

def allB64URL (text : List Char) : Bool :=
  text.all isB64URLChar

def validLoginCookie (value : List Char) : Bool :=
  match cut value with
  | none => false
  | some (body, mac) =>
    if body.length < 1 || 2048 < body.length || mac.length != 43 then false
    else allB64URL body && allB64URL mac

def validState (state : List Char) : Bool :=
  state.length == 43 && allB64URL state

/-- The part of open before the clock is read: the sign-in of a cookie that this process signed. -/
def Sealing.signed (c : Sealing) (value : List Char) : Option PendingLogin :=
  if !validLoginCookie value then none
  else match cut value with
    | none => none
    | some (body, mac) =>
      if mac ≠ c.sign body then none
      else match c.decode body with
        | none => none
        | some login => if validState login.state then some login else none

/-- A conversion to int64: toward zero. -/
def truncated (now : ℚ) : ℤ :=
  if 0 ≤ now then ⌊now⌋ else ⌈now⌉

def fresh (now : ℚ) (login : PendingLogin) : Prop :=
  0 ≤ now - login.created ∧ now - login.created ≤ loginTTL

instance (now : ℚ) (login : PendingLogin) : Decidable (fresh now login) :=
  inferInstanceAs (Decidable (_ ∧ _))

def pruneConsumed (now : ℚ) (consumed : List ConsumedItem) : List ConsumedItem :=
  consumed.dropWhile fun item => (loginTTL : ℚ) < now - item.used

/-- The loop that makes room: it removes the front while the table is full. -/
def evict (limits : Limits) : List ConsumedItem → List ConsumedItem
  | [] => []
  | item :: rest =>
    if limits.maxConsumedLogins ≤ (item :: rest).length then evict limits rest else item :: rest

def isUsed (consumed : List ConsumedItem) (login : PendingLogin) : Prop :=
  ∃ item ∈ consumed, item.state = login.state

instance (consumed : List ConsumedItem) (login : PendingLogin) :
    Decidable (isUsed consumed login) :=
  inferInstanceAs (Decidable (∃ item ∈ consumed, item.state = login.state))

/-- The table after a state that is not in it is used. -/
def consume (limits : Limits) (login : PendingLogin) (now : ℚ) (consumed : List ConsumedItem) :
    List ConsumedItem :=
  evict limits consumed ++ [⟨login.state, truncated now⟩]

/-! The calls. -/

inductive Caller where
  | finish
  | discard
deriving DecidableEq

inductive Call where
  | uncalled
  /-- In open, before the clock is read. -/
  | opening (caller : Caller) (cookie : List Char)
  /-- In open with a fresh sign-in and the time it was found fresh at, before the lock. -/
  | locking (caller : Caller) (login : PendingLogin) (now : ℚ)
  /-- In Finish, after open: at the issuer. -/
  | exchanging (login : PendingLogin)
  /-- In Finish's deferred leaveExchange. -/
  | leaving
  | returned
deriving DecidableEq

def Caller.refused : Caller → Call
  | .finish => .leaving
  | .discard => .returned

def Caller.opened (login : PendingLogin) : Caller → Call
  | .finish => .exchanging login
  | .discard => .returned

/-- A successful open: the call, the sign-in, the time it read and the time it held the lock. -/
structure Opening where
  call : ℕ
  login : PendingLogin
  now : ℚ
  locked : ℚ

/-- The Authenticator, its calls, and what was opened so far in the order of the lock. -/
structure Auth where
  clock : ℚ
  consumed : List ConsumedItem := []
  exchanges : ℤ := 0
  call : ℕ → Call := fun _ => .uncalled
  openings : List Opening := []

def Auth.at (s : Auth) (i : ℕ) (place : Call) : Auth :=
  { s with call := Function.update s.call i place }

inductive Step (c : Sealing) (limits : Limits) (presented : Set (List Char)) : Auth → Auth → Prop
  | tick (s : Auth) (d : ℚ) (hd : 0 ≤ d) : Step c limits presented s { s with clock := s.clock + d }
  | discard (s : Auth) (i : ℕ) (cookie : List Char) (hi : s.call i = .uncalled)
      (hp : cookie ∈ presented) : Step c limits presented s (s.at i (.opening .discard cookie))
  /-- enterExchange finds a place. -/
  | enter (s : Auth) (i : ℕ) (cookie : List Char) (hi : s.call i = .uncalled)
      (hp : cookie ∈ presented) (hfree : s.exchanges < limits.maxTokenExchanges) :
      Step c limits presented s
        (Auth.at { s with exchanges := s.exchanges + 1 } i (.opening .finish cookie))
  /-- enterExchange finds none: ErrBusy. -/
  | busy (s : Auth) (i : ℕ) (hi : s.call i = .uncalled)
      (hfull : limits.maxTokenExchanges ≤ s.exchanges) :
      Step c limits presented s (s.at i .returned)
  | unsigned (s : Auth) (i : ℕ) (caller : Caller) (cookie : List Char)
      (hi : s.call i = .opening caller cookie) (hs : c.signed cookie = none) :
      Step c limits presented s (s.at i caller.refused)
  | expired (s : Auth) (i : ℕ) (caller : Caller) (cookie : List Char) (login : PendingLogin)
      (hi : s.call i = .opening caller cookie) (hs : c.signed cookie = some login)
      (hf : ¬ fresh s.clock login) : Step c limits presented s (s.at i caller.refused)
  | read (s : Auth) (i : ℕ) (caller : Caller) (cookie : List Char) (login : PendingLogin)
      (hi : s.call i = .opening caller cookie) (hs : c.signed cookie = some login)
      (hf : fresh s.clock login) :
      Step c limits presented s (s.at i (.locking caller login s.clock))
  /-- Under the lock: the state was used. -/
  | used (s : Auth) (i : ℕ) (caller : Caller) (login : PendingLogin) (now : ℚ)
      (hi : s.call i = .locking caller login now)
      (hu : isUsed (pruneConsumed now s.consumed) login) :
      Step c limits presented s
        (Auth.at { s with consumed := pruneConsumed now s.consumed } i caller.refused)
  /-- Under the lock: the sign-in is used up and returned. -/
  | opened (s : Auth) (i : ℕ) (caller : Caller) (login : PendingLogin) (now : ℚ)
      (hi : s.call i = .locking caller login now)
      (hu : ¬ isUsed (pruneConsumed now s.consumed) login) :
      Step c limits presented s
        (Auth.at { s with
            consumed := consume limits login now (pruneConsumed now s.consumed)
            openings := s.openings ++ [⟨i, login, now, s.clock⟩] } i (caller.opened login))
  | failed (s : Auth) (i : ℕ) (login : PendingLogin) (hi : s.call i = .exchanging login) :
      Step c limits presented s (s.at i .leaving)
  /-- Finish's last section under the lock, which prunes by the time it reads there. -/
  | signedIn (s : Auth) (i : ℕ) (login : PendingLogin) (hi : s.call i = .exchanging login) :
      Step c limits presented s
        (Auth.at { s with consumed := pruneConsumed s.clock s.consumed } i .leaving)
  | leave (s : Auth) (i : ℕ) (hi : s.call i = .leaving) :
      Step c limits presented s (Auth.at { s with exchanges := s.exchanges - 1 } i .returned)

/-- How many sign-ins other than the one of a state were opened from a time on within LoginTTL. -/
def Auth.othersOpened (s : Auth) (state : List Char) (start : ℚ) : ℕ :=
  s.openings.countP fun o =>
    o.login.state ≠ state ∧ start ≤ o.locked ∧ o.locked ≤ start + loginTTL

/-- Beside each sign-in that was opened, fewer than MaxConsumedLogins others were opened within any
LoginTTL. -/
def Auth.Paced (limits : Limits) (s : Auth) : Prop :=
  ∀ o ∈ s.openings, ∀ start, s.othersOpened o.login.state start < limits.maxConsumedLogins

end Molebridge.Oidc
