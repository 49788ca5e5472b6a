import DevkitCommon.Lib.JSON
import DevkitCommon.Lib.Machine
import DevkitCommon.Lib.Words
import Mathlib

/-! What is said of an outage of Nacos: that the connection is lost, reminders, and that it is restored. The
SDK's own records of the time in between are counted, not written. -/
namespace DevkitCommon.Nacosx.Outage
open JSON (Bytes)
open Machine Words

inductive Level where
  | debug
  | info
  | warn
  | error
  deriving DecidableEq

def Level.rank : Level → Nat
  | .debug => 0
  | .info => 1
  | .warn => 2
  | .error => 3

def sdkMin (level : String) : Level :=
  let l := toLower (trimSpace level.toList)
  if l = "debug".toList then .debug
  else if l = "info".toList then .info
  else if l = "error".toList then .error
  else .warn

def routine : List Words.Text :=
  ["read Config Content failed. cause file doesn't exist".toList,
    "Config Encrypted Data Key failed. cause file doesn't exist".toList,"config data not exist".toList,
    "instance list is empty, updateCacheWhenEmpty is set to false".toList]

def lostSigns : List Words.Text :=
  ["fail to connect server".toList,"request stream error".toList,"client not connected".toList]

def second : Nat := 1000000000
def remindEvery : Nat := 30*second

def round (d m : Nat) : Nat := if 2*(d%m) < m then d - d%m else d + m - d%m

def clipTo (s : Bytes) (max : Nat) : Bytes := if s.length ≤ max then s else s.take max ++ JSON.bytes "..."

inductive Event where
  | lost (cause : Option Bytes)
  | still (downFor count : Nat)
  | restored (downFor count : Nat)
  | sdk (lv : Level) (head : Words.Text) (detail : Option Words.Text)
  deriving DecidableEq

/- What the process knows, and its log so far with the time of each line. -/
structure State where
  now : Nat
  down : Bool
  since : Nat
  reminded : Nat
  suppressed : Nat
  unhealthy : List Nat
  events : List (Nat × Event)
  deriving DecidableEq

def State.say (s : State) (e : Event) : State := {s with events := s.events ++ [(s.now,e)]}

def causeOf (cause : Words.Text) : Option Bytes :=
  if cause = [] then none else some (clipTo (JSON.bytes (String.ofList (cause.takeWhile (fun c => c ≠ '\n')))) 300)

def begin (s : State) (cause : Words.Text) : State :=
  if s.down then s
  else {s with down := true, since := s.now, reminded := s.now, suppressed := 0}.say (.lost (causeOf cause))

def swallow (s : State) (msg : Words.Text) : State × Bool :=
  if !s.down && !lostSigns.any (contains msg) then (s,false)
  else
    let s := begin s msg
    ({s with suppressed := s.suppressed+1},true)

def report (s : State) (c : Nat) (healthy : Bool) (grace : Nat) : State :=
  if !healthy then
    let s := begin {s with unhealthy := s.unhealthy.insert c} []
    if s.reminded + remindEvery ≤ s.now then
      {s with reminded := s.now}.say (.still (round (s.now-s.since) second) s.suppressed)
    else s
  else
    let s := {s with unhealthy := s.unhealthy.filter (fun d => d ≠ c)}
    if s.down ∧ s.unhealthy = [] ∧ s.since + grace < s.now then
      {s with down := false}.say (.restored (round (s.now-s.since) (second/10)) s.suppressed)
    else s

def forget (s : State) (c : Nat) : State := {s with unhealthy := s.unhealthy.filter (fun d => d ≠ c)}

def taken (lv : Level) (msg : Words.Text) : Level := if lv = .warn ∧ routine.any (contains msg) then .debug else lv

def written (lv : Level) (msg : Words.Text) : Event :=
  let t := trimSpace msg
  .sdk lv (t.takeWhile (fun c => c ≠ '\n')) (if '\n' ∈ t then some ((t.dropWhile (fun c => c ≠ '\n')).drop 1) else none)

/- A record of the SDK. enabled: zlog writes the level it is taken at. -/
def log (level : String) (s : State) (lv : Level) (msg : Words.Text) (enabled : Bool) : State :=
  let min := sdkMin level
  let lv := taken lv msg
  if lv.rank < min.rank ∨ !enabled then s
  else if Level.warn.rank ≤ lv.rank ∧ Level.debug.rank < min.rank ∧ (swallow s msg).2 then (swallow s msg).1
  else s.say (written lv msg)

inductive Action where
  | tick (d : Nat)
  | record (lv : Level) (msg : Words.Text) (enabled : Bool)
  | report (c : Nat) (healthy : Bool) (grace : Nat)
  | forget (c : Nat)

def step (level : String) (s : State) : Action → Option State
  | .tick d => some {s with now := s.now+d}
  | .record lv msg enabled => some (log level s lv msg enabled)
  | .report c healthy grace => some (report s c healthy grace)
  | .forget c => some (forget s c)

def start (now : Nat) : State := ⟨now,false,0,0,0,[],[]⟩

def Wanted (level : String) (lv : Level) (msg : Words.Text) (enabled : Bool) : Prop :=
  enabled = true ∧ (sdkMin level).rank ≤ (taken lv msg).rank

instance (level lv msg enabled) : Decidable (Wanted level lv msg enabled) := by unfold Wanted; infer_instance

def Asked (level : String) (lv : Level) (msg : Words.Text) (enabled : Bool) : Prop :=
  enabled = true ∧ (sdkMin level).rank ≤ (taken lv msg).rank ∧ Level.warn.rank ≤ (taken lv msg).rank ∧
    Level.debug.rank < (sdkMin level).rank

instance (level lv msg enabled) : Decidable (Asked level lv msg enabled) := by unfold Asked; infer_instance

section Heard

inductive Item where
  | line (e : Event)
  | record (lv : Level) (msg : Words.Text) (enabled : Bool)

/- What a reader knows of the outage that lasts: hidden are the records since its first line
that are asked about, the one that began it included. -/
structure Known where
  since : Nat
  told : Nat
  hidden : Nat
  deriving DecidableEq

def hear (level : String) : Option Known → Nat × Item → Option (Option Known)
  | none, (t,.line (.lost _)) => some (some ⟨t,t,0⟩)
  | none, (_,.line (.sdk _ _ _)) => some none
  | none, (_,.record lv msg enabled) =>
    if Asked level lv msg enabled ∧ lostSigns.any (contains msg) = true then none else some none
  | some k, (t,.line (.still d n)) =>
    if k.told + remindEvery ≤ t ∧ d = round (t-k.since) second ∧ n = k.hidden then some (some {k with told := t}) else none
  | some k, (t,.line (.restored d n)) =>
    if d = round (t-k.since) (second/10) ∧ n = k.hidden then some none else none
  | some k, (_,.line (.sdk lv _ _)) =>
    if lv.rank < Level.warn.rank ∨ sdkMin level = .debug then some (some k) else none
  | some k, (_,.record lv msg enabled) =>
    some (some (if Asked level lv msg enabled then {k with hidden := k.hidden+1} else k))
  | _, _ => none

def Heard (level : String) (items : List (Nat × Item)) (known : Option Known) : Prop :=
  items.foldlM (hear level) none = some known

def asLine (e : Nat × Event) : Nat × Item := (e.1,.line e.2)

def Action.given (now : Nat) : Action → List (Nat × Item)
  | .record lv msg enabled => [(now,.record lv msg enabled)]
  | _ => []

def trace (level : String) : State → List Action → List (Nat × Item)
  | _,[] => []
  | s,a::as => match step level s a with
    | none => []
    | some t => (t.events.drop s.events.length).map asLine ++ a.given t.now ++ trace level t as

def isStill : Nat × Event → Bool
  | (_,.still _ _) => true
  | _ => false

def isSdk : Nat × Event → Bool
  | (_,.sdk _ _ _) => true
  | _ => false

def countOf : Nat × Event → Nat
  | (_,.restored _ n) => n
  | _ => 0

def counted (events : List (Nat × Event)) : Nat := (events.map countOf).sum

def isWanted (level : String) : Action → Bool
  | .record lv msg enabled => decide (Wanted level lv msg enabled)
  | _ => false

variable {level : String} {items : List (Nat × Item)} {known : Option Known} {e : Nat × Event}

theorem hearNext {more : List (Nat × Item)} {later : Option Known} (heard : Heard level items known)
    (next : more.foldlM (hear level) known = some later) : Heard level (items ++ more) later := by
  unfold Heard at heard ⊢
  rw [List.foldlM_append,heard]
  exact next

theorem hearTwo {x y : Nat × Item} {mid later : Option Known} (first : hear level known x = some mid)
    (second : hear level mid y = some later) : [x,y].foldlM (hear level) known = some later := by
  simp [first,second]

end Heard
section Told
variable {level : String} {s t : State} {a : Action} {new : List (Nat × Event)} {items : List (Nat × Item)}

def State.known (s : State) : Option Known := if s.down then some ⟨s.since,s.reminded,s.suppressed⟩ else none

def State.hidden (s : State) : Nat := if s.down then s.suppressed else 0

theorem knownDown (down : s.down = true) : s.known = some ⟨s.since,s.reminded,s.suppressed⟩ := if_pos down

theorem knownUp (up : s.down = false) : s.known = none := if_neg (by rw [up]; exact Bool.false_ne_true)

theorem hiddenKnown : s.hidden = s.known.elim 0 Known.hidden := by
  unfold State.hidden State.known
  split <;> rfl

inductive Says (level : String) (s : State) : Action → State → List (Nat × Event) → Prop
  | silent {a : Action} {t : State} (known : t.known = s.known) (events : t.events = s.events) (later : s.now ≤ t.now)
      (other : ∀ lv msg enabled, a ≠ .record lv msg enabled) : Says level s a t []
  | unwanted {lv : Level} {msg : Words.Text} {enabled : Bool} (below : ¬ Wanted level lv msg enabled) :
      Says level s (.record lv msg enabled) s []
  | written {lv : Level} {msg : Words.Text} {enabled : Bool} (wanted : Wanted level lv msg enabled)
      (apart : ¬ (Asked level lv msg enabled ∧ (s.down = true ∨ lostSigns.any (contains msg) = true))) :
      Says level s (.record lv msg enabled) (s.say (written (taken lv msg) msg)) [(s.now,written (taken lv msg) msg)]
  | hides {lv : Level} {msg : Words.Text} {enabled : Bool} (asked : Asked level lv msg enabled) (down : s.down = true) :
      Says level s (.record lv msg enabled) {s with suppressed := s.suppressed+1} []
  | complains {lv : Level} {msg : Words.Text} {enabled : Bool} (asked : Asked level lv msg enabled) (up : s.down = false) :
      Says level s (.record lv msg enabled) {begin s msg with suppressed := 1} [(s.now,.lost (causeOf msg))]
  | lost {c grace : Nat} {t : State} (up : s.down = false) (known : t.known = some ⟨s.now,s.now,0⟩) (now : t.now = s.now)
      (events : t.events = s.events ++ [(s.now,.lost none)]) : Says level s (.report c false grace) t [(s.now,.lost none)]
  | still {c grace : Nat} {t : State} {e : Event} (down : s.down = true) (due : s.reminded + remindEvery ≤ s.now) (now : t.now = s.now)
      (line : e = .still (round (s.now-s.since) second) s.suppressed) (events : t.events = s.events ++ [(s.now,e)])
      (known : t.known = some ⟨s.since,s.now,s.suppressed⟩) : Says level s (.report c false grace) t [(s.now,e)]
  | restored {c grace : Nat} {t : State} {e : Event} (down : s.down = true) (now : t.now = s.now) (known : t.known = none)
      (line : e = .restored (round (s.now-s.since) (second/10)) s.suppressed)
      (events : t.events = s.events ++ [(s.now,e)]) : Says level s (.report c true grace) t [(s.now,e)]

theorem swallowAsked (msg : Words.Text) : (swallow s msg).2 = (s.down || lostSigns.any (contains msg)) := by
  unfold swallow
  cases s.down <;> cases lostSigns.any (contains msg) <;> rfl

theorem logSays (lv : Level) (msg : Words.Text) (enabled : Bool) :
    ∃ new, Says level s (.record lv msg enabled) (log level s lv msg enabled) new := by
  unfold log
  simp only
  split
  · rename_i below
    refine ⟨_,.unwanted (fun wanted => ?_)⟩
    obtain ⟨rfl,least⟩ := wanted
    simp only [Bool.not_true,Bool.false_eq_true,or_false] at below
    omega
  · rename_i above
    have wanted : Wanted level lv msg enabled := by
      simpa [Wanted,not_or,and_comm] using above
    split
    · rename_i both
      obtain ⟨warned,most,left⟩ := both
      have asked : Asked level lv msg enabled := ⟨wanted.1,wanted.2,warned,most⟩
      rw [swallowAsked,Bool.or_eq_true] at left
      cases down : s.down with
      | true =>
        have same : (swallow s msg).1 = {s with suppressed := s.suppressed+1} := by simp [swallow,down,begin]
        rw [same]
        exact ⟨_,.hides asked down⟩
      | false =>
        have sign := left.resolve_left (by simp [down])
        have same : (swallow s msg).1 = {begin s msg with suppressed := 1} := by
          simp only [swallow,down,sign,Bool.not_true,Bool.and_false,Bool.false_eq_true,if_false]
          simp [begin,down,State.say]
        rw [same]
        exact ⟨_,.complains asked down⟩
    · rename_i not
      refine ⟨_,.written wanted (fun both => not ⟨both.1.2.2.1,both.1.2.2.2,?_⟩)⟩
      rw [swallowAsked,Bool.or_eq_true]
      exact both.2

theorem reportSays (c : Nat) (healthy : Bool) (grace : Nat) :
    ∃ new, Says level s (.report c healthy grace) (report s c healthy grace) new := by
  have other (h : Bool) : ∀ lv msg enabled, Action.report c h grace ≠ .record lv msg enabled :=
    fun _ _ _ same => nomatch same
  unfold report
  cases healthy with
  | false =>
    simp only [Bool.not_false,if_true]
    obtain down | down := Bool.eq_false_or_eq_true s.down
    · have same : begin {s with unhealthy := s.unhealthy.insert c} [] = {s with unhealthy := s.unhealthy.insert c} := by
        simp [begin,down]
      rw [same]
      split
      · rename_i due
        exact ⟨_,.still down due rfl rfl rfl (if_pos down)⟩
      · exact ⟨_,.silent rfl rfl (Nat.le_refl _) (other false)⟩
    · have same : begin {s with unhealthy := s.unhealthy.insert c} [] =
          {s with unhealthy := s.unhealthy.insert c,down := true,since := s.now,reminded := s.now,suppressed := 0,
                  events := s.events ++ [(s.now,.lost none)]} := by
        simp [begin,down,State.say,causeOf]
      rw [same,if_neg (by simp [remindEvery,second])]
      exact ⟨_,.lost down rfl rfl rfl⟩
  | true =>
    simp only [Bool.not_true,Bool.false_eq_true,if_false]
    split
    · rename_i ends
      exact ⟨_,.restored ends.1 rfl rfl rfl rfl⟩
    · exact ⟨_,.silent rfl rfl (Nat.le_refl _) (other true)⟩

theorem stepSays (one : step level s a = some t) : ∃ new, Says level s a t new := by
  cases a with
  | tick d =>
    cases Option.some.inj one
    exact ⟨_,.silent rfl rfl (Nat.le_add_right _ _) (fun _ _ _ same => nomatch same)⟩
  | record lv msg enabled =>
    cases Option.some.inj one
    exact logSays lv msg enabled
  | report c healthy grace =>
    cases Option.some.inj one
    exact reportSays c healthy grace
  | forget c =>
    cases Option.some.inj one
    exact ⟨_,.silent rfl rfl (Nat.le_refl _) (fun _ _ _ same => nomatch same)⟩

theorem saidEvents (said : Says level s a t new) : t.events = s.events ++ new := by
  cases said with
  | silent known events => rw [events,List.append_nil]
  | unwanted | hides => exact (List.append_nil _).symm
  | written => rfl
  | complains asked up => simp [begin,up,State.say]
  | lost up known now events => exact events
  | still down due now line events => exact events
  | restored down now known line events => exact events

theorem saidHeard (said : Says level s a t new) :
    (new.map asLine ++ a.given t.now).foldlM (hear level) s.known = some t.known := by
  cases said with
  | silent known events later other =>
    have none' : a.given t.now = [] := by
      cases a with
      | record lv msg enabled => exact absurd rfl (other lv msg enabled)
      | tick | report | forget => rfl
    rw [none',known]
    rfl
  | @unwanted lv msg enabled below =>
    have apart : ¬ Asked level lv msg enabled := fun asked => below ⟨asked.1,asked.2.1⟩
    cases down : s.down with
    | true => simp [Action.given,hear,knownDown down,apart]
    | false => simp [Action.given,hear,knownUp down,apart]
  | @written lv msg enabled wanted apart =>
    cases down : s.down with
    | true =>
      have apart' : ¬ Asked level lv msg enabled := fun asked => apart ⟨asked,.inl down⟩
      have low : (taken lv msg).rank < Level.warn.rank ∨ sdkMin level = .debug := by
        by_contra high
        obtain ⟨warned,most⟩ := not_or.mp high
        have least : Level.debug.rank < (sdkMin level).rank := by
          cases min : sdkMin level <;> simp_all [Level.rank]
        exact apart' ⟨wanted.1,wanted.2,Nat.le_of_not_lt warned,least⟩
      have known : (s.say (written (taken lv msg) msg)).known = s.known := rfl
      rw [known,knownDown down]
      simp [Action.given,asLine,hear,Outage.written,low,apart']
    | false =>
      have known : (s.say (written (taken lv msg) msg)).known = s.known := rfl
      have plain : ¬ (Asked level lv msg enabled ∧ lostSigns.any (contains msg) = true) := fun both => apart ⟨both.1,.inr both.2⟩
      rw [known,knownUp down]
      exact hearTwo rfl (if_neg plain)
  | hides asked down =>
    have known : ({s with suppressed := s.suppressed+1} : State).known = some ⟨s.since,s.reminded,s.suppressed+1⟩ := if_pos down
    rw [known,knownDown down]
    simp [Action.given,hear,asked]
  | @complains lv msg enabled asked up =>
    have known : ({begin s msg with suppressed := 1} : State).known = some ⟨s.now,s.now,1⟩ := by
      simp [State.known,begin,up,State.say]
    rw [known,knownUp up]
    simp [Action.given,asLine,hear,asked]
  | lost up known =>
    rw [known,knownUp up]
    rfl
  | still down due now line events known =>
    rw [known,knownDown down,line]
    simp [Action.given,asLine,hear,due]
  | restored down now known line =>
    rw [known,knownDown down,line]
    simp [Action.given,asLine,hear]

theorem saidBalance (said : Says level s a t new) :
    [a].countP (isWanted level) + s.hidden = new.countP isSdk + counted new + t.hidden := by
  rw [List.countP_singleton]
  cases said with
  | silent known events later other =>
    have none' : isWanted level a = false := by
      cases a with
      | record lv msg enabled => exact absurd rfl (other lv msg enabled)
      | tick | report | forget => rfl
    rw [none',hiddenKnown,hiddenKnown,known]
    simp [counted]
  | unwanted below => simp [isWanted,below,counted]
  | written wanted apart => simp [isWanted,wanted,isSdk,Outage.written,counted,countOf,State.hidden,State.say]
  | hides asked down =>
    simp [isWanted,Wanted,asked.1,asked.2.1,counted,State.hidden,down,Nat.add_comm]
  | complains asked up =>
    simp [isWanted,Wanted,asked.1,asked.2.1,isSdk,counted,countOf,State.hidden,up,begin,State.say]
  | lost up known =>
    rw [hiddenKnown,hiddenKnown,known,knownUp up]
    rfl
  | still down due now line events known =>
    rw [hiddenKnown,hiddenKnown,known,knownDown down,line]
    simp [isWanted,isSdk,counted,countOf]
  | restored down now known line =>
    rw [hiddenKnown,hiddenKnown,known,knownDown down,line]
    simp [isWanted,isSdk,counted,countOf]

structure Spaced (s : State) : Prop where
  apart : (s.events.filter isStill).Pairwise (fun e f => e.1 + remindEvery ≤ f.1)
  past : ∀ e ∈ s.events.filter isStill, e.1 ≤ s.now
  told : ∀ k ∈ s.known, ∀ e ∈ s.events.filter isStill, e.1 ≤ k.told

theorem saidSpaced (spaced : Spaced s) (said : Says level s a t new) : Spaced t := by
  have events := saidEvents said
  have same (quiet : new.filter isStill = []) : t.events.filter isStill = s.events.filter isStill := by
    rw [events,List.filter_append,quiet,List.append_nil]
  have stays (quiet : new.filter isStill = []) (later : s.now ≤ t.now)
      (told : ∀ k ∈ t.known, ∀ e ∈ s.events.filter isStill, e.1 ≤ k.told) : Spaced t := by
    refine ⟨?_,?_,?_⟩ <;> rw [same quiet]
    · exact spaced.apart
    · exact fun e mem => (spaced.past e mem).trans later
    · exact told
  cases said with
  | silent known _ later =>
    refine stays rfl later ?_
    rw [known]
    exact spaced.told
  | unwanted => exact spaced
  | written => exact stays rfl (Nat.le_refl _) spaced.told
  | hides asked down =>
    refine stays rfl (Nat.le_refl _) (fun k some' e mem => ?_)
    cases Option.some.inj ((if_pos down).symm.trans some')
    exact spaced.told _ (knownDown down) e mem
  | @complains lv msg enabled asked up =>
    have known : ({begin s msg with suppressed := 1} : State).known = some ⟨s.now,s.now,1⟩ := by
      simp [State.known,begin,up,State.say]
    refine stays rfl (by simp [begin,up,State.say]) (fun k some' e mem => ?_)
    cases Option.some.inj (known.symm.trans some')
    exact spaced.past e mem
  | lost up known now =>
    refine stays rfl now.ge (fun k some' e mem => ?_)
    cases Option.some.inj (known.symm.trans some')
    exact spaced.past e mem
  | @still c grace t e down due now line _ known =>
    have told := spaced.told _ (knownDown down)
    have last : t.events.filter isStill = s.events.filter isStill ++ [(s.now,e)] := by
      rw [events,List.filter_append,line]
      rfl
    refine ⟨?_,?_,fun k some' => ?_⟩ <;> rw [last]
    · refine List.pairwise_append.mpr ⟨spaced.apart,List.pairwise_singleton _ _,fun f mem g only => ?_⟩
      cases List.mem_singleton.mp only
      exact (Nat.add_le_add_right (told f mem) _).trans due
    · intro f mem
      obtain before | only := List.mem_append.mp mem
      · exact now ▸ spaced.past f before
      · cases List.mem_singleton.mp only
        exact now.ge
    · intro f mem
      cases Option.some.inj (known.symm.trans some')
      obtain before | only := List.mem_append.mp mem
      · exact spaced.past f before
      · cases List.mem_singleton.mp only
        exact Nat.le_refl _
  | restored down now known line =>
    refine stays (by rw [line]; rfl) now.ge (fun k some' => ?_)
    rw [known] at some'
    exact nomatch some'

theorem traceHeard {as : List Action} (heard : Heard level items s.known) (ok : run (step level) s as = some t) :
    Heard level (items ++ trace level s as) t.known := by
  induction as generalizing s items with
  | nil =>
    cases Option.some.inj ok
    rwa [trace,List.append_nil]
  | cons a as ih =>
    obtain ⟨u,one,rest⟩ := runCons.mp ok
    obtain ⟨new,said⟩ := stepSays one
    have added : u.events.drop s.events.length = new := by rw [saidEvents said,List.drop_left]
    have whole := ih (hearNext heard (saidHeard said)) rest
    rw [trace,one]
    simp only [added]
    rwa [List.append_assoc] at whole

theorem traceBalance {as : List Action} (ok : run (step level) s as = some t) :
    as.countP (isWanted level) + s.hidden + s.events.countP isSdk + counted s.events =
      t.events.countP isSdk + counted t.events + t.hidden := by
  induction as generalizing s with
  | nil =>
    cases Option.some.inj ok
    rw [List.countP_nil]
    omega
  | cons a as ih =>
    obtain ⟨u,one,rest⟩ := runCons.mp ok
    obtain ⟨new,said⟩ := stepSays one
    have step' := saidBalance said
    have later := ih rest
    have total : counted (s.events ++ new) = counted s.events + counted new := by simp [counted]
    rw [saidEvents said,List.countP_append,total] at later
    rw [List.countP_cons]
    rw [List.countP_singleton] at step'
    omega

def outageActions : List Action :=
  [.record .warn "something else".toList true,
    .record .warn "x fail to connect server, after trying 1 times, error=connection refused".toList true,
    .record .error "Send request fail, request=ConfigBatchListenRequest".toList true,.report 1 false (4*second),
    .tick remindEvery,.report 1 false (4*second),
    .record .error "Send request fail, request=ConfigBatchListenRequest".toList true]

def outage : State := ((run (step "") (start 0) outageActions)).getD (start 0)

theorem outageRan : run (step "") (start 0) outageActions = some outage := by decide +kernel

end Told
section Standing
variable {level : String} {s t : State} {a : Action} {c : Nat}

def standingAfter (c : Nat) (stands : Bool) : Action → Bool
  | .report d healthy _ => if d = c then !healthy else stands
  | .forget d => if d = c then false else stands
  | _ => stands

def standing (c : Nat) (as : List Action) : Bool := as.foldl (standingAfter c) false

theorem beginUnhealthy (s : State) (cause : Words.Text) : (begin s cause).unhealthy = s.unhealthy := by
  unfold begin
  split <;> rfl

theorem beginDown (s : State) (cause : Words.Text) : (begin s cause).down = true := by
  unfold begin
  split
  · assumption
  · rfl

theorem swallowYes {msg : Words.Text} (left : (swallow s msg).2 = true) :
    (swallow s msg).1.down = true ∧ (swallow s msg).1.unhealthy = s.unhealthy := by
  unfold swallow at left ⊢
  split at left <;> try contradiction
  rename_i not
  rw [if_neg not]
  exact ⟨beginDown s msg,beginUnhealthy s msg⟩

theorem logAsked (level : String) (s : State) (lv : Level) (msg : Words.Text) (enabled : Bool) :
    (Asked level lv msg enabled ∧ (swallow s msg).2 = true ∧
      log level s lv msg enabled = (swallow s msg).1) ∨
    (¬ (Asked level lv msg enabled ∧ (swallow s msg).2 = true) ∧
      (log level s lv msg enabled = s ∨ log level s lv msg enabled = s.say (written (taken lv msg) msg))) := by
  unfold log
  simp only
  split
  · rename_i below
    refine .inr ⟨fun both => ?_,.inl rfl⟩
    obtain ⟨⟨on,least,_,_⟩,_⟩ := both
    rw [on] at below
    simp at below
    omega
  · rename_i wanted
    have on : enabled = true ∧ (sdkMin level).rank ≤ (taken lv msg).rank := by
      simpa [not_or,and_comm] using wanted
    split
    · rename_i both
      exact .inl ⟨⟨on.1,on.2,both.1,both.2.1⟩,both.2.2,rfl⟩
    · rename_i not
      exact .inr ⟨fun both => not ⟨both.1.2.2.1,both.1.2.2.2,both.2⟩,.inr rfl⟩

theorem logUnhealthy (s : State) (lv : Level) (msg : Words.Text) (enabled : Bool) :
    (log level s lv msg enabled).unhealthy = s.unhealthy := by
  obtain ⟨_,left,same⟩ | ⟨_,same | same⟩ := logAsked level s lv msg enabled
  · rw [same]
    exact (swallowYes left).2
  · rw [same]
  · rw [same]
    rfl

theorem logDown (s : State) (lv : Level) (msg : Words.Text) (enabled : Bool) :
    (log level s lv msg enabled).down = true ↔
      s.down = true ∨ Asked level lv msg enabled ∧ lostSigns.any (contains msg) = true := by
  obtain ⟨asked,left,same⟩ | ⟨not,same⟩ := logAsked level s lv msg enabled
  · rw [same]
    refine iff_of_true (swallowYes left).1 ?_
    rw [swallowAsked,Bool.or_eq_true] at left
    exact left.imp_right (fun lost => ⟨asked,lost⟩)
  · have down : (log level s lv msg enabled).down = s.down := by
      obtain same | same := same <;> rw [same]
      rfl
    rw [down]
    refine ⟨.inl,fun either => either.resolve_right (fun both => not ⟨both.1,?_⟩)⟩
    rw [swallowAsked,both.2,Bool.or_true]

theorem reportFails (s : State) (d grace : Nat) : (report s d false grace).unhealthy = s.unhealthy.insert d ∧
    (report s d false grace).down = true := by
  simp only [report,Bool.not_false,if_true]
  split <;> exact ⟨beginUnhealthy _ _,beginDown _ _⟩

theorem reportPasses (s : State) (d grace : Nat) : (report s d true grace).unhealthy = s.unhealthy.filter (fun e => e ≠ d) ∧
    ((report s d true grace).down = false ↔
      s.down = false ∨ (report s d true grace).unhealthy = [] ∧ s.since + grace < s.now) := by
  simp only [report,Bool.not_true,Bool.false_eq_true,if_false]
  split
  · rename_i ends
    exact ⟨rfl,iff_of_true rfl (.inr ⟨ends.2.1,ends.2.2⟩)⟩
  · rename_i not
    refine ⟨rfl,.inl,fun either => either.elim id (fun both => ?_)⟩
    cases down : s.down with
    | false => rfl
    | true => exact absurd ⟨down,both.1,both.2⟩ not

theorem standingStep {stands : Bool} (before : c ∈ s.unhealthy ↔ stands = true) (one : step level s a = some t) :
    c ∈ t.unhealthy ↔ standingAfter c stands a = true := by
  cases a with
  | tick d =>
    cases Option.some.inj one
    exact before
  | record lv msg enabled =>
    cases Option.some.inj one
    rw [logUnhealthy]
    exact before
  | report d healthy grace =>
    cases Option.some.inj one
    cases healthy with
    | false =>
      rw [(reportFails s d grace).1,List.mem_insert_iff,before]
      by_cases here : d = c
      · simp [standingAfter,here]
      · simp [standingAfter,here,Ne.symm here]
    | true =>
      rw [(reportPasses s d grace).1,List.mem_filter,before]
      by_cases here : d = c
      · simp [standingAfter,here]
      · simp [standingAfter,here,Ne.symm here]
  | forget d =>
    cases Option.some.inj one
    simp only [forget,List.mem_filter,before]
    by_cases here : d = c
    · simp [standingAfter,here]
    · simp [standingAfter,here,Ne.symm here]

theorem standingRun {as : List Action} {stands : Bool} (before : c ∈ s.unhealthy ↔ stands = true)
    (ran : run (step level) s as = some t) : c ∈ t.unhealthy ↔ as.foldl (standingAfter c) stands = true := by
  induction as generalizing s stands with
  | nil =>
    cases Option.some.inj ran
    exact before
  | cons a as ih =>
    obtain ⟨u,one,rest⟩ := runCons.mp ran
    exact ih (standingStep before one) rest

def Aware (s : State) : Prop := s.unhealthy ≠ [] → s.down = true

theorem awareStep (aware : Aware s) (one : step level s a = some t) : Aware t := by
  cases a with
  | tick d =>
    cases Option.some.inj one
    exact aware
  | record lv msg enabled =>
    cases Option.some.inj one
    intro some'
    rw [logUnhealthy] at some'
    exact (logDown s lv msg enabled).mpr (.inl (aware some'))
  | report d healthy grace =>
    cases Option.some.inj one
    intro some'
    cases healthy with
    | false => exact (reportFails s d grace).2
    | true =>
      obtain ⟨left,ends⟩ := reportPasses s d grace
      by_contra up
      obtain was | both := ends.mp (by simpa using up)
      · have none : s.unhealthy = [] := by
          by_contra more
          exact absurd (aware more) (by simp [was])
        exact some' (by rw [left,none]; rfl)
      · exact some' both.1
  | forget d =>
    cases Option.some.inj one
    intro some'
    refine aware (fun none => some' ?_)
    simp only [forget,none]
    rfl

theorem outageOver (down : s.down = true) (one : step level s a = some t) :
    t.down = false ↔ ∃ c grace, a = .report c true grace ∧ s.since + grace < s.now ∧ t.unhealthy = [] := by
  have lasts (still : t.down = true) (other : ∀ c grace, a ≠ .report c true grace) :
      t.down = false ↔ ∃ c grace, a = .report c true grace ∧ s.since + grace < s.now ∧ t.unhealthy = [] :=
    iff_of_false (by simp [still]) (fun ⟨c,grace,same,_⟩ => other c grace same)
  cases a with
  | tick d =>
    cases Option.some.inj one
    exact lasts down (fun c grace same => nomatch same)
  | record lv msg enabled =>
    cases Option.some.inj one
    exact lasts ((logDown s lv msg enabled).mpr (.inl down)) (fun c grace same => nomatch same)
  | report d healthy grace =>
    cases Option.some.inj one
    cases healthy with
    | false => exact lasts (reportFails s d grace).2 (fun c grace same => nomatch same)
    | true =>
      rw [(reportPasses s d grace).2,or_iff_right (by simp [down])]
      constructor
      · exact fun both => ⟨d,grace,rfl,both.2,both.1⟩
      · rintro ⟨c,g,same,passed,left⟩
        cases same
        exact ⟨left,passed⟩
  | forget d =>
    cases Option.some.inj one
    exact lasts down (fun c grace same => nomatch same)

theorem outageBegun (up : s.down = false) (one : step level s a = some t) :
    t.down = true ↔ (∃ c grace, a = .report c false grace) ∨
      ∃ lv msg enabled, a = .record lv msg enabled ∧ Asked level lv msg enabled ∧ lostSigns.any (contains msg) = true := by
  cases a with
  | tick d =>
    cases Option.some.inj one
    simp [up]
  | record lv msg enabled =>
    cases Option.some.inj one
    rw [logDown,up]
    constructor
    · rintro (no | both)
      · cases no
      · exact .inr ⟨lv,msg,enabled,rfl,both⟩
    · rintro (⟨c,grace,same⟩ | ⟨lv,msg,enabled,same,both⟩)
      · cases same
      · cases same
        exact .inr both
  | report d healthy grace =>
    cases Option.some.inj one
    cases healthy with
    | false => exact iff_of_true (reportFails s d grace).2 (.inl ⟨d,grace,rfl⟩)
    | true =>
      have stays := (reportPasses s d grace).2.mpr (.inl up)
      simp [stays]
  | forget d =>
    cases Option.some.inj one
    simp [forget,up]

theorem outageLasts {now : Nat} {as : List Action} (ran : run (step level) (start now) as = some s)
    (one : step level s a = some t) :
    (∀ c, standing c as = true → s.down = true) ∧
      (s.down = true → (t.down = false ↔
        ∃ c grace, a = .report c true grace ∧ s.since + grace < s.now ∧ ∀ d, standing d (as ++ [a]) = false)) ∧
      (s.down = false → (t.down = true ↔
        (∃ c grace, a = .report c false grace) ∨
        ∃ lv msg enabled, a = .record lv msg enabled ∧ Asked level lv msg enabled ∧
          lostSigns.any (contains msg) = true)) := by
  have none (c : Nat) : c ∈ (start now).unhealthy ↔ false = true := iff_of_false List.not_mem_nil Bool.false_ne_true
  have stands (c : Nat) : c ∈ s.unhealthy ↔ standing c as = true := standingRun (none c) ran
  have after (c : Nat) : c ∈ t.unhealthy ↔ standing c (as ++ [a]) = true :=
    standingRun (none c) ((runAppend as [a]).mpr ⟨s,ran,runCons.mpr ⟨t,one,rfl⟩⟩)
  have aware : Aware s := reachableKeeps awareStep (fun some' => absurd rfl some') ⟨as,ran⟩
  have nobody : t.unhealthy = [] ↔ ∀ d, standing d (as ++ [a]) = false := by
    rw [List.eq_nil_iff_forall_not_mem]
    exact forall_congr' (fun d => by rw [after d,Bool.not_eq_true])
  refine ⟨fun c stand => aware (List.ne_nil_of_mem ((stands c).mpr stand)),fun down => ?_,fun up => ?_⟩
  · rw [← nobody]
    exact outageOver down one
  · exact outageBegun up one

def outageEnd : Action := .report 1 true (4*second)

def recovered : State := report outage 1 true (4*second)

theorem recoveredUp : standing 1 (outageActions ++ [outageEnd]) = false := by
  have one : step "" outage outageEnd = some recovered := rfl
  have down : outage.down = true := by decide +kernel
  have up : recovered.down = false := by decide +kernel
  obtain ⟨_,_,_,_,all⟩ := ((outageLasts outageRan one).2.1 down).mp up
  exact all 1

end Standing
end DevkitCommon.Nacosx.Outage
