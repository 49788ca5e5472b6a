import DevkitCommon.Lib.Machine
import DevkitCommon.Lib.Redis

/-! The Issuer's calls on one Redis, command by command. Any number of calls of Login,
Refresh, Logout and RevokeAll are on their way at once; a pipeline in MULTI is one
command. Whether Redis answers, which call goes on and how long it waits stand in the
action. The issuer's clock is Redis's, in milliseconds. -/
namespace DevkitCommon.Authx
open Machine Redis

abbrev Sid := Nat
abbrev Token := Nat
abbrev Jti := Nat

structure Principal where
  realm : String
  uid : Int
  deriving DecidableEq, Repr

structure Config where
  issuer : String
  accessTTL : Int
  refreshTTL : Int
  singleSession : Option Bool

def orDefault (d fallback : Int) : Int := if d = 0 then fallback else d
def defaultIssuer : String := "sportsbook"
def defaultAccessTTL : Int := 15*60*second
def defaultRefreshTTL : Int := 30*24*3600*second

def Config.issuerName (cfg : Config) : String := if cfg.issuer = "" then defaultIssuer else cfg.issuer
def Config.accessLife (cfg : Config) : Int := orDefault cfg.accessTTL defaultAccessTTL
def Config.refreshLife (cfg : Config) : Int := orDefault cfg.refreshTTL defaultRefreshTTL
def Config.refreshLasts (cfg : Config) : Int := max 1 (cfg.refreshLife / millisecond)
def Config.oneSession (cfg : Config) : Bool := cfg.singleSession.getD true

def reasonReplaced : String := "replaced"
def reasonLogout : String := "logout"
def reasonRefreshReplayed : String := "refresh_replayed"

structure RefreshRecord where
  who : Principal
  sid : Sid
  deriving DecidableEq, Repr

structure Claims where
  issuer : String
  subject : Int
  id : Jti
  issuedAt : Int
  expiresAt : Int
  realm : String
  sid : Sid
  deriving DecidableEq, Repr

structure Tokens where
  accessToken : Claims
  refreshToken : Token
  accessExpiresIn : Int
  refreshExpiresIn : Int
  deriving DecidableEq, Repr

inductive Err where
  | redis (wrapped : String)
  | refreshInvalid
  | refreshReplayed
  | sessionRevoked (reason : String)
  deriving DecidableEq, Repr

inductive Result where
  | tokens (t : Tokens)
  | done
  | error (e : Err)
  deriving DecidableEq, Repr

structure Keys where
  session : Store Principal Sid
  sessionSet : Store Principal (List Sid)
  refresh : Store Token RefreshRecord
  used : Store Token RefreshRecord
  sessionAlive : Store Sid Int
  ended : Store Sid String
  blacklist : Store Jti Unit

inductive Op where
  | login (who : Principal)
  | refresh (token : Token)
  | logout (token : Token) (access : Option Claims)
  | revokeAll (who : Principal) (reason : String)
  deriving DecidableEq, Repr

/- The command a call sends next, with the local variables it still needs. -/
inductive Point where
  | getSession (who : Principal) (sid : Sid)
  | endPrevious (who : Principal) (sid old : Sid)
  | dropPrevious (who : Principal) (sid old : Sid)
  | startSession (who : Principal) (sid : Sid)
  | storeRefresh (rec : RefreshRecord) (now : Int)
  | getRefresh (token : Token)
  | getUsed (token : Token)
  | existsAlive (token : Token) (rec : RefreshRecord)
  | delRevoked (token : Token) (rec : RefreshRecord)
  | getEnded (rec : RefreshRecord)
  | rotate (token : Token) (rec : RefreshRecord)
  | listSessions (who : Principal) (reason : String)
  | endListed (who : Principal) (reason : String) (listed : List Sid) (sid : Sid) (rest : List Sid)
  | delSessions (who : Principal) (listed : List Sid)
  | findLogout (token : Token) (access : Option Claims)
  | endLogout (token : Token) (access : Option Claims) (rec : RefreshRecord)
  | getCurrent (token : Token) (access : Option Claims) (rec : RefreshRecord)
  | delCurrent (token : Token) (access : Option Claims) (rec : RefreshRecord)
  | dropLogout (token : Token) (access : Option Claims) (rec : RefreshRecord)
  | delLogout (token : Token) (access : Option Claims)
  | blacklist (c : Claims) (ttl : Int)
  | returned (time : Int) (result : Result)
  | crashed
  deriving DecidableEq, Repr

/- before records, for the statements about RevokeAll, the sessions alive when the call
began. -/
structure Call where
  op : Op
  before : List Sid
  point : Point
  deriving DecidableEq, Repr

def Point.running : Point → Bool
  | .returned _ _ | .crashed => false
  | _ => true

structure Session where
  sid : Sid
  who : Principal
  begun : Int
  deriving DecidableEq, Repr

structure Issue where
  token : Token
  record : RefreshRecord
  time : Int
  deriving DecidableEq, Repr

/- minted counts the random values: each is new. started, ended and issued record the
sessions a Login has written, those an endSession has deleted and the refresh tokens
stored; no command reads them. -/
structure State where
  clock : Int
  keys : Keys
  calls : List Call
  minted : Nat
  started : List Session
  ended : List Sid
  issued : List Issue

def Keys.empty : Keys :=
  ⟨fun _ => none,fun _ => none,fun _ => none,fun _ => none,fun _ => none,fun _ => none,fun _ => none⟩
def State.init (clock : Int) : State := ⟨clock,Keys.empty,[],0,[],[],[]⟩

def State.alive (s : State) (sid : Sid) : Bool := (get s.keys.sessionAlive s.clock sid).isSome

section Calls
variable (cfg : Config)

/- The deletion and the reason go in one MULTI: the reason's command alone can be
refused, and the pipeline then reports its error. -/
def endSession (now : Int) (sid : Sid) (reason : String) (k : Keys) : Keys :=
  {k with
    sessionAlive := del k.sessionAlive sid
    ended := if reason = "" then k.ended else setNX k.ended now sid reason cfg.refreshLife}

def endFails (reason : String) (reply : Reply) : Bool :=
  reply != .ok || (reason != "" && refused cfg.refreshLife)

def startSession (now : Int) (who : Principal) (sid : Sid) (k : Keys) : Keys :=
  {k with
    session := set k.session now who sid cfg.refreshLife
    sessionSet := expire (sadd k.sessionSet now who sid) now who cfg.refreshLife
    sessionAlive := set k.sessionAlive now sid who.uid cfg.refreshLife}

def issue (now : Int) (n : Nat) (rec : RefreshRecord) : Tokens where
  accessToken := {
    issuer := cfg.issuerName
    subject := rec.who.uid
    id := n
    issuedAt := now*millisecond / second
    expiresAt := (now*millisecond + cfg.accessLife) / second
    realm := rec.who.realm
    sid := rec.sid}
  refreshToken := n
  accessExpiresIn := cfg.accessLife.tdiv second
  refreshExpiresIn := cfg.refreshLife.tdiv second

def effect (now : Int) (minted : Nat) (k : Keys) : Point → Keys
  | .endPrevious _ _ old => endSession cfg now old reasonReplaced k
  | .dropPrevious who _ old => {k with sessionSet := srem k.sessionSet now who old}
  | .startSession who sid => startSession cfg now who sid k
  | .storeRefresh rec _ => {k with refresh := set k.refresh now minted rec cfg.refreshLife}
  | .delRevoked token _ => {k with refresh := del k.refresh token}
  | .rotate token rec => {k with
      refresh := del k.refresh token
      used := set k.used now token rec cfg.refreshLife}
  | .endListed _ reason _ sid _ => endSession cfg now sid reason k
  | .delSessions who _ => {k with session := del k.session who, sessionSet := del k.sessionSet who}
  | .endLogout _ _ rec => endSession cfg now rec.sid reasonLogout k
  | .delCurrent _ _ rec => {k with session := del k.session rec.who}
  | .dropLogout _ _ rec => {k with sessionSet := srem k.sessionSet now rec.who rec.sid}
  | .delLogout token _ => {k with refresh := del k.refresh token}
  | .blacklist c ttl => {k with blacklist := set k.blacklist now c.id () ttl}
  | _ => k

def endEach (who : Principal) (reason : String) (listed : List Sid) : List Sid → Point
  | [] => .delSessions who listed
  | sid::rest => .endListed who reason listed sid rest

/- RevokeAll's own callers get its error; Refresh drops it and reports the replay. -/
def revokeReturns (now : Int) (op : Op) (result : Result) : Point :=
  match op with
  | .refresh _ => .returned now (.error .refreshReplayed)
  | _ => .returned now result

def logoutAccess (now : Int) : Option Claims → Point
  | none => .returned now .done
  | some c =>
    if c.issuer = cfg.issuerName ∧ now < c.expiresAt*1000 then
      .blacklist c (c.expiresAt*second - now*millisecond)
    else .returned now .done

/- Where the call stands after the answer. SMEMBERS answers in an order of its own and
has its own action. -/
def next (s : State) (op : Op) (reply : Reply) : Point → Option Point
  | .getSession who sid => some (match reply,get s.keys.session s.clock who with
    | .ok,some old => .endPrevious who sid old
    | _,_ => .startSession who sid)
  | .endPrevious who sid old => some (
    if endFails cfg reasonReplaced reply then .returned s.clock (.error (.redis ""))
    else .dropPrevious who sid old)
  | .dropPrevious who sid _ => some (.startSession who sid)
  | .startSession who sid => some (
    if reply = .ok then .storeRefresh ⟨who,sid⟩ s.clock
    else .returned s.clock (.error (.redis "authx: start session")))
  | .storeRefresh rec now => some (
    if reply = .ok then .returned s.clock (.tokens (issue cfg now s.minted rec))
    else .returned s.clock (.error (.redis "authx: store refresh token")))
  | .getRefresh token => some (
    if reply = .ok then
      match get s.keys.refresh s.clock token with
      | some rec => .existsAlive token rec
      | none => .getUsed token
    else .returned s.clock (.error (.redis "authx: refresh lookup")))
  | .getUsed token => some (match reply,get s.keys.used s.clock token with
    | .ok,some rec => .listSessions rec.who reasonRefreshReplayed
    | _,_ => .returned s.clock (.error .refreshInvalid))
  | .existsAlive token rec => some (
    if reply = .ok ∧ s.alive rec.sid then .rotate token rec else .delRevoked token rec)
  | .delRevoked _ rec => some (.getEnded rec)
  | .getEnded rec => some (.returned s.clock (.error (.sessionRevoked (
    if reply = .ok then (get s.keys.ended s.clock rec.sid).getD "" else ""))))
  | .rotate _ rec => some (
    if reply = .ok then .storeRefresh rec s.clock
    else .returned s.clock (.error (.redis "authx: rotate")))
  | .listSessions who _ => if reply = .ok then none else some (.delSessions who [])
  | .endListed who reason listed _ rest => some (
    if endFails cfg reason reply then revokeReturns s.clock op (.error (.redis ""))
    else endEach who reason listed rest)
  | .delSessions _ _ => some (revokeReturns s.clock op (if reply = .ok then .done else .error (.redis "")))
  | .findLogout token access => some (match reply,get s.keys.refresh s.clock token with
    | .ok,some rec => .endLogout token access rec
    | _,_ => logoutAccess cfg s.clock access)
  | .endLogout token access rec => some (
    if endFails cfg reasonLogout reply then .returned s.clock (.error (.redis ""))
    else .getCurrent token access rec)
  | .getCurrent token access rec => some (
    if reply = .ok ∧ get s.keys.session s.clock rec.who = some rec.sid then .delCurrent token access rec
    else .dropLogout token access rec)
  | .delCurrent token access rec => some (.dropLogout token access rec)
  | .dropLogout token access _ => some (.delLogout token access)
  | .delLogout _ access => some (logoutAccess cfg s.clock access)
  | .blacklist _ _ => some (.returned s.clock .done)
  | .returned _ _ => none
  | .crashed => none

def first (s : State) : Op → Point
  | .login who => if cfg.oneSession then .getSession who s.minted else .startSession who s.minted
  | .refresh token => .getRefresh token
  | .logout token access => .findLogout token access
  | .revokeAll who reason => .listSessions who reason

def Point.starts (now : Int) : Point → List Session
  | .startSession who sid => [⟨sid,who,now⟩]
  | _ => []

def Point.ends : Point → List Sid
  | .endPrevious _ _ old => [old]
  | .endListed _ _ _ sid _ => [sid]
  | .endLogout _ _ rec => [rec.sid]
  | _ => []

def Point.issues (now : Int) (minted : Nat) : Point → List Issue
  | .storeRefresh rec _ => [⟨minted,rec,now⟩]
  | _ => []

def State.goto (s : State) (c : Nat) (call : Call) (p : Point) : State :=
  {s with calls := s.calls.set c {call with point := p}}

/- The command at a point, done or not done. Every command mints, so that the token issue
stores is new whether or not Redis took it. -/
def State.send (s : State) (p : Point) (reply : Reply) : State :=
  if reply.ran then
    {s with
      keys := effect cfg s.clock s.minted s.keys p
      minted := s.minted + 1
      started := s.started ++ p.starts s.clock
      ended := s.ended ++ p.ends
      issued := s.issued ++ p.issues s.clock s.minted}
  else {s with minted := s.minted + 1}

inductive Action where
  | tick (d : Nat)
  | call (op : Op)
  | command (c : Nat) (reply : Reply)
  | listed (c : Nat) (sids : List Sid)
  | crash (c : Nat)
  deriving DecidableEq, Repr

def aliveNow (s : State) : List Sid := (s.started.map Session.sid).filter s.alive

def step (s : State) : Action → Option State
  | .tick d => some {s with clock := s.clock + d}
  | .call op => some {s with
      calls := s.calls ++ [⟨op,aliveNow s,first cfg s op⟩]
      minted := s.minted + 1}
  | .command c reply => do
    let call ← s.calls[c]?
    let p ← next cfg s call.op reply call.point
    some ((s.send cfg call.point reply).goto c call p)
  | .listed c sids => do
    let call ← s.calls[c]?
    match call.point with
    | .listSessions who reason =>
      if sids.Perm (members s.keys.sessionSet s.clock who) then
        some (s.goto c call (endEach who reason sids sids))
      else none
    | _ => none
  | .crash c => do
    let call ← s.calls[c]?
    if call.point.running then some (s.goto c call .crashed) else none

end Calls
end DevkitCommon.Authx
