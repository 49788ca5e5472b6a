import Mathlib

/-! A row of delayed_task and what delayx computes from it: the settings with their
defaults, the backoff, the text kept of an error and the columns each result of a
handler writes. Times and durations are milliseconds; a text is Go's, bytes that need
not be UTF-8. -/
namespace DevkitCommon.Delayx

abbrev Bytes := ByteArray

def second : Int := 1000
def minute : Int := 60 * second
def hour : Int := 60 * minute

def durationOr (d default : Int) : Int := if d = 0 then default else d
def orInt (v default : Int) : Int := if v ≤ 0 then default else v

structure Config where
  Batch : Int
  MaxAttempts : Int
  Timeout : Int
  Retention : Int
  LongWorkers : Int
  Heartbeat : Int
  deriving DecidableEq, Repr

namespace Config
def batch (c : Config) : Int := orInt c.Batch 50
def maxAttempts (c : Config) : Int := orInt c.MaxAttempts 5
def timeout (c : Config) : Int := durationOr c.Timeout (60 * second)
def retention (c : Config) : Int := durationOr c.Retention (168 * hour)
def longWorkers (c : Config) : Int := orInt c.LongWorkers 1
def heartbeat (c : Config) : Int := durationOr c.Heartbeat (30 * second)
def stale (c : Config) : Int := 3 * c.heartbeat
end Config

theorem orIntPositive {v default : Int} (h : 0 < default) : 0 < orInt v default := by
  unfold orInt
  split <;> omega

theorem maxAttemptsPositive (c : Config) : 0 < c.maxAttempts := orIntPositive (by decide)

inductive Status where | pending | running | done | failed | cancelled
  deriving DecidableEq, Repr

def Status.isOpen : Status → Bool
  | .pending | .running => true
  | _ => false

structure Task where
  id : Nat
  kind : String
  key : String
  runAt : Int
  status : Status
  attempts : Int
  lastError : Bytes
  lockedAt : Option Int
  updatedAt : Int
  deriving DecidableEq

inductive Handled where | nil | err (text : Bytes) | panic (value : Bytes)
  deriving DecidableEq

def safely : Handled → Option Bytes
  | .nil => none
  | .err text => some text
  | .panic value => some ("panic: ".toUTF8 ++ value)

inductive Cause where | aborted | shutdown | deadline | canceled
  deriving DecidableEq, Repr

def ErrAborted : Bytes := "delayx: task aborted".toUTF8
def ErrShutdown : Bytes := "delayx: service stopping".toUTF8
def noHandler (kind : String) : Bytes := ("no handler for kind " ++ kind).toUTF8

def clip (msg : Bytes) : Bytes := if 500 < msg.size then msg.extract 0 500 else msg

def backoff (attempts : Int) : Int :=
  let d := minute * 2 ^ (min (attempts - 1) 10).toNat
  if hour < d then hour else d

structure Fields where
  status : Status
  attempts : Option Int
  lastError : Bytes
  runAt : Option Int
  deriving DecidableEq

def Fields.write (f : Fields) (now : Int) (t : Task) : Task :=
  {t with status := f.status, attempts := f.attempts.getD t.attempts, lastError := f.lastError,
          lockedAt := none, runAt := f.runAt.getD t.runAt, updatedAt := now}

/- The switch at the end of run: t is the copy the claim made, ctxEnded is ctx.Err() of
the poller's context at that moment. -/
def outcomeFields (cfg : Config) (t : Task) (now : Int) (err : Option Bytes)
    (cause : Option Cause) (ctxEnded : Bool) : Fields :=
  if cause = some .aborted then ⟨.cancelled,none,clip ErrAborted,none⟩
  else match err with
    | none => ⟨.done,some (t.attempts + 1),ByteArray.empty,none⟩
    | some text =>
      if cause = some .shutdown ∨ ctxEnded then ⟨.pending,none,clip ErrShutdown,some now⟩
      else
        let attempts := t.attempts + 1
        if cfg.maxAttempts ≤ attempts then ⟨.failed,some attempts,clip text,none⟩
        else ⟨.pending,some attempts,clip text,some (now + backoff attempts)⟩

/- The context bookkeeping makes for the outcome ends ten seconds after it was made,
whatever becomes of the run's own. -/
def bookkeeping (made : Int) : Int := made + 10 * second

/- A statement takes effect when the database answers, its context has not ended and,
the server being strict, the text it stores is UTF-8. -/
def accepted (reachable : Bool) (deadline now : Int) (text : Bytes) : Bool :=
  reachable && decide (now < deadline) && decide text.IsValidUTF8

@[simp] theorem writeId (f : Fields) (now : Int) (t : Task) : (f.write now t).id = t.id := rfl
@[simp] theorem writeKind (f : Fields) (now : Int) (t : Task) : (f.write now t).kind = t.kind := rfl
@[simp] theorem writeStatus (f : Fields) (now : Int) (t : Task) :
    (f.write now t).status = f.status := rfl

theorem outcomeNotRunning (cfg t now err cause ctxEnded) :
    (outcomeFields cfg t now err cause ctxEnded).status ≠ .running := by
  simp only [outcomeFields]
  split
  · simp
  · split
    · simp
    · split
      · simp
      · split <;> simp

theorem clipSize (msg : Bytes) : (clip msg).size ≤ 500 := by
  unfold clip
  split
  · simp only [ByteArray.size_extract]; omega
  · omega

end DevkitCommon.Delayx
