import DevkitCommon.Lib.Machine
import Mathlib

/-! The outbox table and its relays, step by step: PublishTx inside transactions, the round
of a relay with its row locks, the cleanup. The replicas of any services share the table;
what the broker and the database answer, rollbacks and crashes stand in the action. Times
and durations are milliseconds; the text of an error is bytes. -/
namespace DevkitCommon.Kafkax.Outbox
open Machine

abbrev Bytes := ByteArray

structure OutboxConfig where
  Batch : Int
  Retention : Int
  deriving DecidableEq, Repr

namespace OutboxConfig
def batch (c : OutboxConfig) : Nat := if c.Batch ≤ 0 then 100 else c.Batch.toNat
def retention (c : OutboxConfig) : Int := if c.Retention = 0 then 168*3600*1000 else c.Retention
end OutboxConfig

def backoff (attempts : Nat) : Int := min (1000*2^(min attempts 10)) 300000

structure Queued where
  service : String
  eventID : String
  topic : String
  key : String
  eventType : String
  payload : String
  trace : String
  createdAt : Int
  deriving DecidableEq, Repr

structure OutboxRow extends Queued where
  id : Nat
  sentAt : Option Int
  attempts : Nat
  nextAttemptAt : Int
  lastError : Bytes
  deriving DecidableEq

structure Envelope where
  id : String
  type : String
  tenantID : String
  time : Int
  data : String
  deriving DecidableEq, Repr

structure Produced where
  topic : String
  key : String
  value : Envelope
  headers : List (String × String)
  trace : String
  deriving DecidableEq, Repr

/- A tenantDb: one tenant, whose databases are its own. fold is the collation of the
table's text columns (utf8mb4_0900_ai_ci): two texts are equal to MySQL when they fold
to the same. -/
structure Database where
  tenant : String
  fold : String → String

def record (tenant : String) (row : OutboxRow) : Produced :=
  ⟨row.topic,row.key,⟨row.eventID,row.eventType,tenant,row.createdAt,row.payload⟩,
    [("content-type","application/json"),("event-type",row.eventType),("outbox-id",toString row.id)],row.trace⟩

/- One ProduceSync that reached the broker: the relay's service, the row it had, and
whether the broker's answer came back. -/
structure Publication where
  sender : String
  row : Nat
  record : Produced
  acked : Bool
  deriving DecidableEq, Repr

structure Fields where
  sentAt : Option Int
  attempts : Nat
  lastError : Bytes
  nextAttemptAt : Option Int
  deriving DecidableEq

def Fields.write (f : Fields) (row : OutboxRow) : OutboxRow :=
  {row with
    sentAt := f.sentAt.or row.sentAt
    attempts := f.attempts
    lastError := f.lastError
    nextAttemptAt := f.nextAttemptAt.getD row.nextAttemptAt}

def cut (msg : Bytes) : Bytes := if 500 < msg.size then msg.extract 0 500 else msg

def sentFields (row : OutboxRow) (now : Int) : Fields := ⟨some now,row.attempts + 1,ByteArray.empty,none⟩
def failedFields (row : OutboxRow) (now : Int) (err : Bytes) : Fields :=
  ⟨none,row.attempts + 1,cut err,some (now + backoff (row.attempts + 1))⟩

def roundFields (row : OutboxRow) (now : Int) : Option Bytes → Fields
  | none => sentFields row now
  | some err => failedFields row now err

/- What the strict server stores in last_error, a VARCHAR(512) of utf8mb4. -/
def storable (msg : Bytes) : Bool :=
  match String.fromUTF8? msg with
  | none => false
  | some text => decide (text.length ≤ 512)

/- A round: before its next row, with the answer for the first row left, failed with its
transaction to roll back, over (committed or not), or dead with its process. -/
inductive RoundPoint where
  | next
  | mark (err : Option Bytes)
  | rollback
  | ended (committed : Bool)
  | dead
  deriving DecidableEq

/- taken are the rows as the SELECT read them, todo those left; marks are the UPDATEs of
the open transaction. answers are the broker's so far; no step reads them. -/
structure Round where
  service : String
  taken : List OutboxRow
  todo : List OutboxRow
  marks : List (Nat × Fields)
  point : RoundPoint
  answers : List (OutboxRow × Option Bytes)
  deriving DecidableEq

def Round.holds (r : Round) : Bool :=
  match r.point with
  | .ended _ => false
  | _ => true

def Round.locks (r : Round) (id : Nat) : Bool := r.holds && r.taken.any (fun row => row.id == id)

inductive TxPoint where | active | committed | rolledBack
  deriving DecidableEq, Repr

/- inserted are all rows ever inserted, each with its transaction; its place there is its
id, which AUTO_INCREMENT gives in the order of the inserts. rows is the table as the
committed transactions have left it; deleted is what cleanups have deleted from it. -/
structure State where
  clock : Int
  txs : List TxPoint
  inserted : List (Nat × OutboxRow)
  rows : List OutboxRow
  rounds : List Round
  published : List Publication
  deleted : List OutboxRow

namespace State
def init (clock : Int) : State := ⟨clock,[],[],[],[],[],[]⟩

def setRound (s : State) (r : Nat) (round : Round) : State := {s with rounds := s.rounds.set r round}

def locked (s : State) (id : Nat) : Bool := s.rounds.any (fun r => r.locks id)

/- SELECT ... FOR UPDATE SKIP LOCKED, in id order, before its LIMIT. -/
def candidates (db : Database) (s : State) (service : String) : List OutboxRow :=
  (s.rows.filter (fun row => db.fold row.service == db.fold service && row.sentAt.isNone &&
    decide (row.nextAttemptAt ≤ s.clock) && !s.locked row.id)).insertionSort (fun a b => a.id ≤ b.id)

end State

inductive Action where
  | tick (d : Nat)
  | openTx
  | publishTx (x : Nat) (service eventID topic key eventType payload trace : String) (reply : Reply)
  | commitTx (x : Nat) (reply : Reply)
  | rollbackTx (x : Nat)
  | relay (service : String) (cfg : OutboxConfig) (reply : Reply)
  | produce (r : Nat) (reply : Reply) (err : Bytes)
  | update (r : Nat) (reply : Reply)
  | commit (r : Nat) (reply : Reply)
  | rollback (r : Nat)
  | crash (r : Nat)
  | cleanup (cfg : OutboxConfig) (ids : List Nat) (reply : Reply)
  deriving DecidableEq

def applyMarks (marks : List (Nat × Fields)) (rows : List OutboxRow) : List OutboxRow :=
  rows.map (fun row => match marks.lookup row.id with
    | some f => f.write row
    | none => row)

section Steps
variable (db : Database)

def expired (s : State) (cfg : OutboxConfig) (row : OutboxRow) : Bool :=
  row.sentAt.any (fun sent => decide (sent < s.clock - cfg.retention)) && !s.locked row.id

def step (s : State) : Action → Option State
  | .tick d => some {s with clock := s.clock + d}
  | .openTx => some {s with txs := s.txs ++ [.active]}
  | .publishTx x service eventID topic key eventType payload trace reply =>
    if s.txs[x]? = some .active then
      let row : OutboxRow := ⟨⟨service,eventID,topic,key,eventType,payload,trace,s.clock⟩,
        s.inserted.length,none,0,s.clock,ByteArray.empty⟩
      some {s with inserted := if reply.ran then s.inserted ++ [(x,row)] else s.inserted}
    else none
  | .commitTx x reply =>
    if s.txs[x]? = some .active then
      if reply.ran then
        let own := (s.inserted.filter (fun entry => entry.1 == x)).map Prod.snd
        some {s with txs := s.txs.set x .committed, rows := s.rows ++ own}
      else some {s with txs := s.txs.set x .rolledBack}
    else none
  | .rollbackTx x =>
    if s.txs[x]? = some .active then some {s with txs := s.txs.set x .rolledBack} else none
  | .relay service cfg reply =>
    let taken := (s.candidates db service).take cfg.batch
    if reply.ran then some {s with rounds := s.rounds ++
      [⟨service,taken,taken,[],if reply = .ok then .next else .rollback,[]⟩]}
    else some s
  | .produce r reply err => do
    let round ← s.rounds[r]?
    match round.point,round.todo with
    | .next,row::_ =>
      let answer := if reply = .ok then none else some err
      let publication : Publication := ⟨round.service,row.id,record db.tenant row,reply = .ok⟩
      some ({s with published := if reply.ran then s.published ++ [publication] else s.published}.setRound r
        {round with point := .mark answer, answers := round.answers ++ [(row,answer)]})
    | _,_ => none
  | .update r reply => do
    let round ← s.rounds[r]?
    match round.point,round.todo with
    | .mark err,row::rest =>
      let fields := roundFields row s.clock err
      if reply = .ok ∧ storable fields.lastError then
        some (s.setRound r {round with
          todo := rest, marks := round.marks ++ [(row.id,fields)], point := .next})
      else some (s.setRound r {round with point := .rollback})
    | _,_ => none
  | .commit r reply => do
    let round ← s.rounds[r]?
    match round.point,round.todo with
    | .next,[] =>
      if reply.ran then
        some ({s with rows := applyMarks round.marks s.rows}.setRound r {round with point := .ended true})
      else some (s.setRound r {round with point := .ended false})
    | _,_ => none
  | .rollback r => do
    -- by the round itself after a failed statement, or by the server when its client is gone
    let round ← s.rounds[r]?
    match round.point with
    | .rollback | .dead => some (s.setRound r {round with point := .ended false})
    | _ => none
  | .crash r => do
    let round ← s.rounds[r]?
    match round.point with
    | .ended _ | .dead => none
    | _ => some (s.setRound r {round with point := .dead})
  | .cleanup cfg ids reply =>
    if ids.length ≤ 10000 then
      let gone := fun row : OutboxRow => decide (row.id ∈ ids) && expired s cfg row
      if reply.ran then some {s with
        rows := s.rows.filter (fun row => !gone row)
        deleted := s.deleted ++ s.rows.filter gone}
      else some s
    else none

end Steps
end DevkitCommon.Kafkax.Outbox
